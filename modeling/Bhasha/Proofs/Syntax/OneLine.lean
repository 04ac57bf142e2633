import Bhasha.Proofs.Syntax.Parsing
import Bhasha.Proofs.Syntax.Parts
import Bhasha.Proofs.Token.Order
import Bhasha.Proofs.Token.Scanning
import Bhasha.Run

namespace Bhasha

/-!
# Names and strings without line feeds

The names of a program that is parsed are identifiers of its text, and no identifier
has a line feed.  A string may run over several lines; when none of them does,
everything that a program holds fits on one line.
-/

open Grammar

/-- A literal whose text has no line feed. -/
def Literal.OneLine : Literal → Prop
  | .number _ => True
  | .string text => '\n' ∉ text.toList

/-- An expression whose names and strings have no line feed. -/
def Expression.OneLine : Expression → Prop
  | .literal value _ _ => value.OneLine
  | .name text _ => '\n' ∉ text.toList
  | .binary _ left right _ => left.OneLine ∧ right.OneLine

mutual

/-- A statement whose names and strings have no line feed. -/
def Statement.OneLine : Statement → Prop
  | .declare _ name value _ | .assign name value _ => '\n' ∉ name.text.toList ∧ value.OneLine
  | .print value _ => value.OneLine
  | .ifThen condition consequent _ => condition.OneLine ∧ consequent.OneLine
  | .ifElse condition consequent alternate _ =>
      condition.OneLine ∧ consequent.OneLine ∧ alternate.OneLine
  | .loop condition body _ => condition.OneLine ∧ body.OneLine

/-- A block whose names and strings have no line feed. -/
def Block.OneLine : Block → Prop
  | .mk body _ => allOneLine body

/-- Statements whose names and strings have no line feed. -/
def allOneLine : List Statement → Prop
  | [] => True
  | statement :: rest => statement.OneLine ∧ allOneLine rest

end

/-- A program whose names and strings have no line feed. -/
def Program.OneLine (program : Program) : Prop := allOneLine program.body

/-- An expression that is no string with a line feed. -/
def Expression.StringOneLine : Expression → Prop
  | .literal value _ _ => value.OneLine
  | .name .. | .binary .. => True

instance (value : Literal) : Decidable value.OneLine :=
  match value with
  | .number _ => inferInstanceAs (Decidable True)
  | .string text => inferInstanceAs (Decidable ('\n' ∉ text.toList))

instance (value : Expression) : Decidable value.StringOneLine :=
  match value with
  | .literal value _ _ => inferInstanceAs (Decidable value.OneLine)
  | .name .. | .binary .. => inferInstanceAs (Decidable True)

/-- No string among some expressions has a line feed. -/
def StringsOneLine (values : List Expression) : Prop := ∀ value ∈ values, value.StringOneLine

instance (values : List Expression) : Decidable (StringsOneLine values) :=
  inferInstanceAs (Decidable (∀ value ∈ values, value.StringOneLine))

theorem stringsOneLine_append
    {first second : List Expression}
    (strings : StringsOneLine (first ++ second)) :
    StringsOneLine first ∧ StringsOneLine second :=
  List.forall_mem_append.mp strings

/-- No identifier among some tokens has a line feed. -/
def NamesOneLine (tokens : List Token) : Prop :=
  ∀ token ∈ tokens, token.role = .identifier → '\n' ∉ token.lexeme.toList

theorem NamesOneLine.subset
    {tokens others : List Token}
    (names : NamesOneLine tokens)
    (subset : others ⊆ tokens) :
    NamesOneLine others :=
  fun token member => names token (subset member)

/-- No identifier of a text has a line feed. -/
theorem namesOneLine_scan (text : String) :
    NamesOneLine (Token.scan text) := by
  rintro ⟨kind, lexeme, span⟩ member role feed
  obtain rfl : kind = .identifier := (Token.role_eq_identifier_iff _).mp role
  obtain ⟨taken, rest, spells⟩ := Token.spells_of_mem_scan member nofun
  obtain ⟨rfl, -, ink⟩ := spells.inked nofun
  exact absurd (List.all_eq_true.mp ink _ feed) (by decide)

/-- A text has one end among its tokens, which is the last of them. -/
theorem endsOnce_scan (text : String) :
    EndsOnce (Token.scan text) := by
  obtain ⟨placed, tokens, inside, -⟩ := Token.scan_laid text
  refine ⟨_, _, tokens, ?_, rfl⟩
  intro token member
  obtain ⟨entry, entryMember, rfl⟩ := List.mem_map.mp member
  exact inside entry entryMember

/-- An expression that is derived from tokens has their names. -/
theorem oneLine_of_derives
    {layer : Layer} {tokens : List Token} {value : Expression}
    (derived : Derives layer tokens value)
    (names : NamesOneLine tokens)
    (strings : StringsOneLine value.parts) :
    value.OneLine := by
  induction derived with
  | number role =>
      trivial
  | string role =>
      exact strings _ List.mem_cons_self
  | name role =>
      exact names _ List.mem_cons_self role
  | paren opens derived closes inductionHypothesis =>
      exact inductionHypothesis (names.subset (by simp)) strings
  | single next derived inductionHypothesis =>
      exact inductionHypothesis names strings
  | chain next leftDerived role member rightDerived leftHypothesis rightHypothesis =>
      have inside : StringsOneLine (_ ++ _) :=
        fun part within => strings part (List.mem_cons_of_mem _ within)
      obtain ⟨leftStrings, rightStrings⟩ := stringsOneLine_append inside
      exact ⟨leftHypothesis (names.subset (by simp)) leftStrings,
        rightHypothesis (names.subset (by simp)) rightStrings⟩

/-- What stands behind a condition is the end of the tokens that start with it. -/
theorem suffix_condition (word opening closing : Token) (tokens first : List Token) :
    first <:+ word :: opening :: (tokens ++ closing :: first) :=
  ⟨word :: opening :: (tokens ++ [closing]), by simp⟩

mutual

/-- What remains after a statement is the end of the tokens that it was read from. -/
theorem suffix_of_readsStatement :
    ∀ {tokens rest : List Token} {statement : Statement},
      ReadsStatement tokens rest statement → rest <:+ tokens
  | _, _, _, .declare .. | _, _, _, .assign .. | _, _, _, .print .. => by
      simp [List.suffix_cons_iff, List.suffix_append_of_suffix]
  | _, _, _, .ifThen _ _ _ _ blockRead | _, _, _, .loop _ _ _ _ blockRead =>
      (suffix_of_readsBlock blockRead).trans (suffix_condition ..)
  | _, _, _, .ifElse _ _ _ _ consequentRead _ alternateRead =>
      (suffix_of_readsBlock alternateRead).trans <| (List.suffix_cons _ _).trans <|
        (suffix_of_readsBlock consequentRead).trans (suffix_condition ..)

theorem suffix_of_readsBlock :
    ∀ {tokens rest : List Token} {block : Block},
      ReadsBlock tokens rest block → rest <:+ tokens
  | _, _, _, .closed _ bodyRead _ =>
      (List.suffix_cons _ _).trans <| (suffix_of_readsBody bodyRead).trans (List.suffix_cons _ _)
  | _, _, _, .unclosed _ bodyRead _ =>
      (suffix_of_readsBody bodyRead).trans (List.suffix_cons _ _)

theorem suffix_of_readsBody :
    ∀ {tokens rest : List Token} {body : List Statement},
      ReadsBody tokens rest body → rest <:+ tokens
  | _, _, _, .nil => List.suffix_refl _
  | _, _, _, .cons statementRead bodyRead =>
      (suffix_of_readsBody bodyRead).trans (suffix_of_readsStatement statementRead)

end

mutual

/-- A statement that is read from tokens has their names. -/
theorem oneLine_of_readsStatement :
    ∀ {tokens rest : List Token} {statement : Statement},
      ReadsStatement tokens rest statement →
      NamesOneLine tokens →
      StringsOneLine statement.expressions →
      statement.OneLine
  | _, _, _, .declare _ _ named _ derived _, names, strings =>
      ⟨names _ (by simp) named,
        oneLine_of_derives derived (names.subset fun token member => by simp [member]) strings⟩
  | _, _, _, .assign named _ derived _, names, strings =>
      ⟨names _ (by simp) named,
        oneLine_of_derives derived (names.subset fun token member => by simp [member]) strings⟩
  | _, _, _, .print _ _ derived _ _, names, strings =>
      oneLine_of_derives derived (names.subset fun token member => by simp [member]) strings
  | _, _, _, .ifThen _ _ derived _ blockRead, names, strings
  | _, _, _, .loop _ _ derived _ blockRead, names, strings => by
      obtain ⟨conditionStrings, blockStrings⟩ := stringsOneLine_append strings
      exact ⟨oneLine_of_derives derived (names.subset fun token member => by simp [member])
          conditionStrings,
        oneLine_of_readsBlock blockRead (names.subset (suffix_condition ..).subset) blockStrings⟩
  | _, _, _, .ifElse _ _ derived _ consequentRead _ alternateRead, names, strings => by
      obtain ⟨conditionStrings, blockStrings⟩ := stringsOneLine_append strings
      obtain ⟨consequentStrings, alternateStrings⟩ := stringsOneLine_append blockStrings
      have consequentNames := names.subset (suffix_condition ..).subset
      have alternateNames := (consequentNames.subset (suffix_of_readsBlock consequentRead).subset)
      exact ⟨oneLine_of_derives derived (names.subset fun token member => by simp [member])
          conditionStrings,
        oneLine_of_readsBlock consequentRead consequentNames consequentStrings,
        oneLine_of_readsBlock alternateRead
          (alternateNames.subset (List.subset_cons_self _ _)) alternateStrings⟩

theorem oneLine_of_readsBlock :
    ∀ {tokens rest : List Token} {block : Block},
      ReadsBlock tokens rest block →
      NamesOneLine tokens →
      StringsOneLine block.expressions →
      block.OneLine
  | _, _, _, .closed _ bodyRead _, names, strings
  | _, _, _, .unclosed _ bodyRead _, names, strings =>
      oneLine_of_readsBody bodyRead (names.subset (List.subset_cons_self _ _)) strings

theorem oneLine_of_readsBody :
    ∀ {tokens rest : List Token} {body : List Statement},
      ReadsBody tokens rest body →
      NamesOneLine tokens →
      StringsOneLine (expressionsAll body) →
      allOneLine body
  | _, _, _, .nil, _, _ => trivial
  | _, _, _, .cons statementRead bodyRead, names, strings => by
      obtain ⟨first, others⟩ := stringsOneLine_append strings
      exact ⟨oneLine_of_readsStatement statementRead names first,
        oneLine_of_readsBody bodyRead
          (names.subset (suffix_of_readsStatement statementRead).subset) others⟩

end

/-- A program that is parsed has no line feed but in its strings. -/
theorem Source.oneLine_of_parse
    {source : Source} {program : Program}
    (parsed : source.parse = .ok program)
    (strings : StringsOneLine program.expressions) :
    program.OneLine := by
  obtain ⟨finish, -, bodyRead⟩ :=
    Reader.sentence_of_parseTokens (endsOnce_scan source.text) parsed
  exact oneLine_of_readsBody bodyRead (namesOneLine_scan source.text) strings

end Bhasha
