import Bhasha.CommandLine
import Bhasha.Main
import Bhasha.Proofs.Evaluation.Alike
import Bhasha.Proofs.Evaluation.Comparison
import Bhasha.Proofs.Evaluation.Cost
import Bhasha.Proofs.Evaluation.Limits
import Bhasha.Proofs.Evaluation.Names
import Bhasha.Proofs.Evaluation.Numeric
import Bhasha.Proofs.Evaluation.Steps
import Bhasha.Proofs.Evaluation.Truncation
import Bhasha.Proofs.Evaluation.Types
import Bhasha.Proofs.Json.SyntaxError
import Bhasha.Proofs.Number.Displayed
import Bhasha.Proofs.Rendering.Numbers
import Bhasha.Proofs.Rendering.OutlineReading
import Bhasha.Proofs.Rendering.Passage
import Bhasha.Proofs.Rendering.Printing
import Bhasha.Proofs.Rendering.Reading
import Bhasha.Proofs.Session.History
import Bhasha.Proofs.Syntax.Admission
import Bhasha.Proofs.Syntax.Closing
import Bhasha.Proofs.Syntax.Height
import Bhasha.Proofs.Syntax.Limits
import Bhasha.Proofs.Syntax.Parsing
import Bhasha.Proofs.Syntax.Prefix
import Bhasha.Proofs.Syntax.Quotation
import Bhasha.Proofs.Syntax.Spans
import Bhasha.Proofs.Syntax.Stopping
import Bhasha.Proofs.Token.Respacing
import Bhasha.Proofs.Token.Scanning
import Bhasha.Session
