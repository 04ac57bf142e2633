import Bhasha.Keyword
import Bhasha.Text.Blank

namespace Bhasha

/-!
# Explanations from a language service

A service answers a prompt with a text or fails.  An explanation falls back to
a fixed sentence when the service fails or answers with blanks only, and a
refactoring falls back to the code it was asked about.
-/

/-- Why a service gives no answer. -/
inductive ServiceFailure where
  | notConfigured
  | request (reason : String)
  deriving Repr, DecidableEq

/-- The text of a failure. -/
def ServiceFailure.message : ServiceFailure → String
  | notConfigured => "explanation service is not configured"
  | request reason => s!"explanation request failed: {reason}"

/-- A service answers prompts. -/
abbrev Service := String → Except ServiceFailure String

namespace Explanation

/-- The explanation when the service fails. -/
def connectFallback : String := "Could not connect to AI service. Please check your API Key."

/-- The explanation when the service has nothing to say. -/
def emptyFallback : String := "No explanation available."

/-- The reserved words that statements use, one a line, in both spellings. -/
def glossary : String :=
  String.join <|
    (Keyword.all.filter fun keyword => !keyword.isReserved).map fun keyword =>
      s!"- {keyword.english} -> {keyword.bengali}\n"

/-- The prompt that asks for an explanation of a program text. -/
def explainPrompt (source : String) : String :=
  "You are an expert compiler engineer for the 'Bojro' (বজ্র) programming language.\n" ++
  "It is a Bengali-based language with syntax similar to C/C++.\n\nKeywords:\n" ++
  glossary ++
  "\nPlease analyze the following code and explain what it does in English, but use the " ++
  "Bengali keywords when referencing specific parts of the code. Keep it brief and helpful " ++
  "for a learner.\n\nCode:\n" ++ source ++ "\n"

/-- The prompt that asks for a refactoring of a program text. -/
def refactorPrompt (source : String) : String :=
  "Refactor the following 'Bojro' (Bengali programming language) code to be more " ++
  "efficient or cleaner.\nOnly output the code, nothing else.\n\nCode:\n" ++ source ++ "\n"

/-- The explanation of a program text. -/
def explain (service : Service) (source : String) : String :=
  match service (explainPrompt source) with
  | .ok reply => if Text.isAllBlank reply then emptyFallback else reply
  | .error _ => connectFallback

/-- The refactoring of a program text. -/
def refactor (service : Service) (source : String) : String :=
  match service (refactorPrompt source) with
  | .ok reply => if Text.isAllBlank reply then source else reply
  | .error _ => source

end Explanation

end Bhasha
