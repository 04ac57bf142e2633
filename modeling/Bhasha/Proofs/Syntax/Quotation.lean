import Bhasha.Proofs.Evaluation.Alike
import Bhasha.Proofs.Syntax.Parsing
import Bhasha.Proofs.Token.Lines
import Bhasha.Proofs.Token.Spelling

namespace Bhasha

/-!
# Quoted lines of syntax errors

A syntax error belongs to one of the tokens of its source.  It quotes the line
that the token starts on, and the caret below the quotation stands where the token
starts.  The text of an error is guessed from the text of its token: an error
speaks of the end of the input at the end of the input, and at strings that are
written without text, but its code tells the two apart.
-/

namespace Token

/-- What a token starts with where it is written: a string with its quote. -/
def mark (token : Token) : List Char :=
  match token.kind with
  | .string => ['"']
  | _ => token.lexeme.toList

/-- A text starts with a token, or is empty where the token is the end of the input. -/
def Heads (token : Token) (text : List Char) : Prop :=
  match token.kind with
  | .endOfInput => text = []
  | _ => token.mark <+: text

/-- A text that starts with the mark of a token starts with the token. -/
theorem heads_of_mark
    {token : Token} {text : List Char}
    (inside : token.kind ≠ .endOfInput)
    (starts : token.mark <+: text) :
    token.Heads text := by
  unfold Heads
  split
  case h_1 ended =>
    exact absurd ended inside
  case h_2 =>
    exact starts

/-- Where a token is spelled, its mark comes first and holds no end of a line. -/
theorem mark_of_spells
    {token : Token} {taken rest : List Char}
    (spells : Spells token.kind token.lexeme taken rest) :
    token.mark ≠ [] ∧ token.mark <+: taken ∧ ∀ c ∈ token.mark, c ≠ '\n' ∧ c ≠ '\r' := by
  rcases token with ⟨kind, lexeme, span⟩
  by_cases isString : kind = .string
  · subst isString
    have quote : ['"'] <+: taken := by
      cases spells <;> exact List.prefix_append ['"'] _
    exact ⟨List.cons_ne_nil _ _, quote, by simp [mark]⟩
  · obtain ⟨text, some, ink⟩ := spells.inked isString
    have same : mark ⟨kind, lexeme, span⟩ = taken := by
      cases kind <;> first | exact text | exact absurd rfl isString
    rw [same]
    refine ⟨some, List.prefix_rfl, fun c member => ?_⟩
    have ofInk := List.all_eq_true.mp ink c member
    exact ⟨ne_of_class ofInk (by decide), ne_of_class ofInk (by decide)⟩

/-- The line around the place of a token starts with it at that place. -/
theorem heads_lineAround
    {text : List Char} {token : Token} {offset : Nat}
    (stands : token.StandsAt text offset) :
    token.Heads
      (((lineAround text offset).rdropWhile (· = '\r')).drop
        (lineStart (text.take offset)).length) := by
  rcases stands with ⟨ended, -, atEnd⟩ | ⟨taken, rest, after, spells⟩
  · rw [drop_lineAround_eq_nil atEnd]
    unfold Heads
    rw [ended]
  · obtain ⟨some, starts, noBreak⟩ := mark_of_spells spells
    have ahead : token.mark <+: text.drop offset := by
      rw [← after]
      exact starts.trans (List.prefix_append ..)
    exact heads_of_mark spells.kind_ne_endOfInput (prefix_drop_lineAround some noBreak ahead)

/-- Among the tokens that are no string, only the end of the input has no text or a blank in it. -/
theorem kind_of_notInk
    {text : String} {token : Token}
    (member : token ∈ scan text)
    (noInk : token.lexeme.toList = [] ∨ ' ' ∈ token.lexeme.toList) :
    token.kind = .endOfInput ∨ token.kind = .string := by
  obtain ⟨-, -, ⟨ended, -⟩ | ⟨taken, rest, -, spells⟩⟩ := stands_of_mem_scan member
  · exact .inl ended
  · refine .inr (by_contra fun noString => ?_)
    obtain ⟨same, some, ink⟩ := spells.inked noString
    rw [same] at noInk
    rcases noInk with none | blank
    · exact some none
    · exact absurd (List.all_eq_true.mp ink ' ' blank) (by decide)

/-- The text of the end of the input is empty. -/
theorem lexeme_of_endOfInput
    {text : String} {token : Token}
    (member : token ∈ scan text)
    (ended : token.kind = .endOfInput) :
    token.lexeme = "" := by
  obtain ⟨-, -, ⟨-, empty, -⟩ | ⟨taken, rest, -, spells⟩⟩ := stands_of_mem_scan member
  · exact empty
  · exact absurd ended spells.kind_ne_endOfInput

end Token

namespace Reader

/-- The error of a list that has an end is made for one of its tokens. -/
theorem exists_of_parseTokens_error
    {source : Source} {tokens : List Token} {error : SyntaxError}
    (ended : ∃ token ∈ tokens, token.isFinish = true)
    (failed : parseTokens source tokens = .error error) :
    ∃ token ∈ tokens, ∃ refusal : Refusal, error = refusal.toError source token := by
  unfold parseTokens at failed
  split at failed
  case h_1 =>
    cases failed
  case h_2 token refusal refused =>
    cases failed
    refine ⟨token, ?_, refusal, rfl⟩
    unfold read at refused
    cases run : State.initial.steps .standard (itemsOf tokens) with
    | error stopped =>
        rw [run] at refused
        cases refused
        obtain ⟨before, after, place, items, -⟩ := State.exists_of_steps_error run
        have inItems : token ∈ itemsOf tokens := by
          rw [items]
          exact List.mem_append_right _ List.mem_cons_self
        exact (List.takeWhile_subset _) inItems
    | ok state =>
        -- The end is refused, which is the one that the list has.
        simp only [run] at refused
        split at refused <;> cases refused
        rw [finishOf]
        cases found : tokens.find? Token.isFinish with
        | none =>
            obtain ⟨finish, member, isFinish⟩ := ended
            exact absurd isFinish (List.find?_eq_none.mp found finish member)
        | some finish =>
            exact List.mem_of_find?_eq_some found

/-- The code of the end of the input is kept for it, unless too much is open there. -/
theorem Refusal.code_eq_unexpectedEndOfInput_iff
    (refusal : Refusal)
    (source : Source)
    (token : Token) :
    (refusal.toError source token).code = SyntaxError.unexpectedEndOfInput ↔
      token.kind = .endOfInput ∧
        (refusal.toError source token).code ≠ SyntaxError.limitExceeded := by
  cases refusal with
  | nesting | operators =>
      simp [toError, SyntaxError.atToken, SyntaxError.limitExceeded,
        SyntaxError.unexpectedEndOfInput]
  | wanted what =>
      rw [and_iff_left (code_toError_wanted what source token),
        ← Token.role_eq_endOfInput_iff_kind, Token.role_eq_endOfInput_iff]
      change codeOf token = _ ↔ _
      unfold codeOf
      split_ifs with finish <;> simp [finish] <;> decide

end Reader

namespace Source

/-- The syntax error of a source that is not parsed. -/
def error? (source : Source) : Option SyntaxError :=
  match source.parse with
  | .ok _ => none
  | .error error => some error

theorem parse_eq_error_iff {source : Source} {error : SyntaxError} :
    source.parse = .error error ↔ source.error? = some error := by
  unfold error?
  split <;> simp [*]

instance (source : Source) (error : SyntaxError) : Decidable (source.parse = .error error) :=
  decidable_of_iff' _ parse_eq_error_iff

end Source

/-- The error quotes the line of a token of the source, with the caret at the token. -/
structure SyntaxError.Quotes
    (error : SyntaxError)
    (source : Source)
    (token : Token) : Prop where
  text : error.token = token.lexeme
  span : error.span = token.span
  line : ∃ feeds line,
    error.span.start.line = feeds + 1 ∧
      (source.text.toList.splitOn '\n')[feeds]? = some line ∧
        error.sourceLine.toList = line.rdropWhile (· = '\r')
  found : source.line? error.span.start.line = some error.sourceLine
  column : 0 < error.span.start.column
  heads : token.Heads (error.sourceLine.toList.drop (error.span.start.column - 1))
  caret : error.sourceLine ≠ "" →
    ∃ margin quoted pad,
      error.quotation.toList.splitOn '\n' = [[], margin, quoted, pad ++ ['^']] ∧
        error.sourceLine.toList <:+ quoted ∧ '^' ∉ pad ∧ token.Heads (quoted.drop pad.length)

namespace SyntaxError

/-- The quotation is an empty line, a margin, the numbered line, and the caret. -/
theorem splitOn_quotation
    {error : SyntaxError}
    (some : error.sourceLine ≠ "")
    (noFeed : '\n' ∉ error.sourceLine.toList) :
    let number := toString error.span.start.line
    let margin := List.replicate number.length ' '
    let caret := List.replicate (error.span.start.column - 1) ' '
    error.quotation.toList.splitOn '\n' =
      [[], margin ++ [' ', '|'], number.toList ++ [' ', '|', ' '] ++ error.sourceLine.toList,
        margin ++ [' ', '|', ' '] ++ caret ++ ['^']] := by
  intro number margin caret
  have notEmpty : error.sourceLine.isEmpty = false := by
    simpa using some
  have shown (text : String) : toString text = text := rfl
  have whole : error.quotation.toList =
      [] ++ '\n' :: (margin ++ [' ', '|'] ++
        '\n' :: (number.toList ++ [' ', '|', ' '] ++ error.sourceLine.toList ++
          '\n' :: (margin ++ [' ', '|', ' '] ++ caret ++ ['^']))) := by
    simp [quotation, notEmpty, Text.spaces, shown, number, margin, caret]
  have digits : '\n' ∉ number.toList := by
    intro member
    have inDigits : '\n' ∈ Nat.toDigits 10 error.span.start.line := by
      simpa [number] using member
    exact absurd (Nat.isDigit_of_mem_toDigits (by decide) (by decide) inDigits) (by decide)
  rw [whole, List.splitOn_append_cons_self_of_not_mem (by simp),
    List.splitOn_append_cons_self_of_not_mem (by simp [margin]),
    List.splitOn_append_cons_self_of_not_mem (by simp [digits, noFeed]),
    List.splitOn_eq_singleton (by simp [margin, caret])]

/-- The caret stands below what the quoted line has at the column of the error. -/
theorem caret_of_heads
    {error : SyntaxError} {token : Token}
    (some : error.sourceLine ≠ "")
    (noFeed : '\n' ∉ error.sourceLine.toList)
    (heads : token.Heads (error.sourceLine.toList.drop (error.span.start.column - 1))) :
    ∃ margin quoted pad,
      error.quotation.toList.splitOn '\n' = [[], margin, quoted, pad ++ ['^']] ∧
        error.sourceLine.toList <:+ quoted ∧ '^' ∉ pad ∧ token.Heads (quoted.drop pad.length) := by
  refine ⟨_, _, _, splitOn_quotation some noFeed, List.suffix_append .., by simp, ?_⟩
  -- The margin of the caret is as wide as the number and the bar of the quoted line.
  have width (number : String) (column : Nat) :
      (List.replicate number.length ' ' ++ [' ', '|', ' '] ++ List.replicate column ' ').length =
        (number.toList ++ [' ', '|', ' ']).length + column := by
    simp only [List.length_append, List.length_replicate, String.length_toList]
  rwa [width, List.drop_length_add_append]

/-- The error for a token of a source quotes the line of the token. -/
theorem quotes_toError
    {source : Source} {token : Token}
    (member : token ∈ Token.scan source.text)
    (refusal : Reader.Refusal) :
    (refusal.toError source token).Quotes source token := by
  obtain ⟨offset, start, stands⟩ := Token.stands_of_mem_scan member
  have found := source.line?_ofOffset offset
  rw [← start] at found
  have place := Position.ofOffset_eq source.text.toList offset
  have heads : token.Heads
      (((lineAround source.text.toList offset).rdropWhile (· = '\r')).drop
        (token.span.start.column - 1)) := by
    rw [start, place, Nat.add_sub_cancel]
    exact Token.heads_lineAround stands
  have quoted : (refusal.toError source token).sourceLine.toList =
      (lineAround source.text.toList offset).rdropWhile (· = '\r') := by
    cases refusal <;> simp [Reader.Refusal.toError, SyntaxError.atToken, found]
  have noFeed : '\n' ∉ (refusal.toError source token).sourceLine.toList := by
    rw [quoted]
    exact fun member =>
      feed_notMem_lineAround _ _ ((List.rdropWhile_prefix _ _).subset member)
  obtain ⟨text, span⟩ := refusal.toError_token source token
  rw [← quoted, ← span] at heads
  rw [← span] at found start
  exact
    { text := text
      span := span
      line := by
        refine ⟨_, _, ?_, splitOn_lineAround source.text.toList offset, quoted⟩
        rw [start, place]
      found := by
        rw [found, ← quoted, String.ofList_toList]
      column := by
        rw [start, place]
        exact Nat.succ_pos _
      heads := heads
      caret := fun some => caret_of_heads some noFeed heads }

end SyntaxError

namespace Source

/--
A syntax error quotes the line of a token of its source, with the caret at the token.

The error has the text and the span of the token, and its line is the one that the
span names, without the carriage returns at its end.  From the column of the span
on, that line starts with the token, or is empty at the end of the input; and so
does the quoted line in the report from the place on that is above the caret.
-/
theorem quotes_of_parse_error
    {source : Source} {error : SyntaxError}
    (failed : source.parse = .error error) :
    ∃ token ∈ Token.scan source.text, error.Quotes source token := by
  obtain ⟨token, member, refusal, rfl⟩ :=
    Reader.exists_of_parseTokens_error (Token.exists_isFinish_scan source.text) failed
  exact ⟨token, member, SyntaxError.quotes_toError member refusal⟩

/-- A name after a string that runs over the end of a line. -/
def splitString : Source :=
  .ofText "print(\"x\ny\" z);\r\n"

/-- The error in `splitString` quotes its second line, where the name has the fourth column. -/
theorem quotes_splitString :
    let error : SyntaxError :=
      .atToken "main.bojro" 100 "z" (Span.point ⟨2, 4⟩) "y\" z);" (some "')'") none
    splitString.parse = .error error ∧
      ∃ token ∈ Token.scan splitString.text, error.Quotes splitString token := by
  intro error
  have failed : splitString.parse = .error error := by
    decide +kernel
  exact ⟨failed, quotes_of_parse_error failed⟩

end Source

namespace SyntaxError

/-- The error says that the input ends where a token was wanted. -/
def SpeaksOfEnd (error : SyntaxError) : Prop :=
  error.token = "" ∧
    error.message = s!"Unexpected token at line {error.span.start.line}: end of input"

/-- The text of an error at a token names the end of the input for two texts of the token. -/
theorem messageAt_eq_iff (line : Nat) (token : String) :
    messageAt line token = s!"Unexpected token at line {line}: end of input" ↔
      token = "" ∨ token = "end of input" := by
  have literal : toString ": end of input" = toString ": " ++ "end of input" := by
    decide +kernel
  unfold messageAt
  rw [literal, ← String.append_assoc, String.append_right_inj]
  change (if token.isEmpty then "end of input" else token) = "end of input" ↔ _
  split_ifs with empty
  · exact iff_of_true rfl (.inl (String.isEmpty_iff.mp empty))
  · exact ⟨.inr, fun named => named.resolve_left fun none => empty (String.isEmpty_iff.mpr none)⟩

/-- The text of an error is made from the text of its token. -/
theorem message_toError
    (refusal : Reader.Refusal)
    (source : Source)
    (token : Token) :
    (refusal.toError source token).message = messageAt token.span.start.line token.lexeme := by
  cases refusal <;> rfl

end SyntaxError

namespace Source

/--
An error speaks of the end of the input there, and at strings that read like it.

Its token is empty and its message names the end of the input exactly where the
named token is the end of the input or a string without text.  The message alone
does so at one more string, the one that has the words of the message for its text.
But the code of the end of the input is given nowhere else, and it is given there
unless too much is open.
-/
theorem speaksOfEnd_iff
    {source : Source} {error : SyntaxError}
    (failed : source.parse = .error error) :
    ∃ index token,
      source.FailsAt index error ∧ (Token.scan source.text)[index]? = some token ∧
        (error.SpeaksOfEnd ↔
          token.kind = .endOfInput ∨ (token.kind = .string ∧ token.lexeme = "")) ∧
        (error.message = s!"Unexpected token at line {error.span.start.line}: end of input" ↔
          token.kind = .endOfInput ∨
            (token.kind = .string ∧ (token.lexeme = "" ∨ token.lexeme = "end of input"))) ∧
        (error.code = SyntaxError.unexpectedEndOfInput ↔
          token.kind = .endOfInput ∧ error.code ≠ SyntaxError.limitExceeded) := by
  obtain ⟨token, member, refusal, made⟩ :=
    Reader.exists_of_parseTokens_error (Token.exists_isFinish_scan source.text) failed
  obtain ⟨index, found⟩ := List.mem_iff_getElem?.mp member
  have named := refusal.toError_token source token
  have code := refusal.code_eq_unexpectedEndOfInput_iff source token
  rw [← made] at named code
  have none : token.lexeme = "" ↔
      token.kind = .endOfInput ∨ (token.kind = .string ∧ token.lexeme = "") := by
    constructor
    · intro empty
      exact (Token.kind_of_notInk member (.inl (by simp [empty]))).imp_right (⟨·, empty⟩)
    · rintro (ended | ⟨-, empty⟩)
      · exact Token.lexeme_of_endOfInput member ended
      · exact empty
  have message :
      error.message = s!"Unexpected token at line {error.span.start.line}: end of input" ↔
        token.lexeme = "" ∨ token.lexeme = "end of input" := by
    rw [named.2, made, SyntaxError.message_toError]
    exact SyntaxError.messageAt_eq_iff _ _
  refine ⟨index, token, .of_named failed found named, found, ?_, ?_, code⟩
  · rw [SyntaxError.SpeaksOfEnd, message, named.1, ← none]
    exact ⟨And.left, fun empty => ⟨empty, .inl empty⟩⟩
  · rw [message]
    constructor
    · rintro (empty | words)
      · exact (none.mp empty).imp_right fun string => ⟨string.1, .inl empty⟩
      · have blank : ' ' ∈ token.lexeme.toList := by
          rw [words]
          decide +kernel
        have inside : token.kind ≠ .endOfInput := by
          intro ended
          rw [Token.lexeme_of_endOfInput member ended] at words
          exact absurd words (by decide)
        have string := (Token.kind_of_notInk member (.inr blank)).resolve_left inside
        exact .inr ⟨string, .inr words⟩
    · rintro (ended | ⟨-, text⟩)
      · exact .inl (Token.lexeme_of_endOfInput member ended)
      · exact text

/-- A call that lacks its end. -/
def openCall : Source := .ofText "print(1"

/-- The error in `openCall` speaks of the end of the input and has the code of it. -/
theorem speaksOfEnd_openCall :
    let error : SyntaxError :=
      .atToken "main.bojro" 101 "" (Span.point ⟨1, 8⟩) "print(1" (some "')'") none
    openCall.parse = .error error ∧
      ∃ index token,
        openCall.FailsAt index error ∧ (Token.scan openCall.text)[index]? = some token ∧
          token.kind = .endOfInput ∧ error.SpeaksOfEnd := by
  intro error
  have failed : openCall.parse = .error error := by
    decide +kernel
  obtain ⟨index, token, fails, found, speaks, -, code⟩ := speaksOfEnd_iff failed
  have ended : token.kind = .endOfInput := (code.mp rfl).1
  exact ⟨failed, index, token, fails, found, ended, speaks.mpr (.inl ended)⟩

/-- A statement that is no more than a string without text. -/
def emptyString : Source := .ofText "\"\";"

/-- The error in `emptyString` speaks of the end of the input at its first token, a string. -/
theorem speaksOfEnd_emptyString :
    let error : SyntaxError :=
      .atToken "main.bojro" 100 "" ⟨⟨1, 1⟩, ⟨1, 2⟩⟩ "\"\";" (some "statement") none
    let token : Token := ⟨.string, "", ⟨⟨1, 1⟩, ⟨1, 2⟩⟩⟩
    emptyString.FailsAt 0 error ∧ (Token.scan emptyString.text)[0]? = some token ∧
      error.SpeaksOfEnd ∧ token.kind ≠ .endOfInput := by
  intro error token
  have failed : emptyString.parse = .error error := by
    decide +kernel
  have found : (Token.scan emptyString.text)[0]? = some token := by
    decide +kernel
  have speaks : error.SpeaksOfEnd :=
    ⟨rfl, (SyntaxError.messageAt_eq_iff 1 "").mpr (.inl rfl)⟩
  exact ⟨.of_named failed found ⟨rfl, rfl⟩, found, speaks, nofun⟩

end Source

end Bhasha
