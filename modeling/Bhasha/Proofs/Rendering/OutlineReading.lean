import Bhasha.Proofs.Rendering.OutlineLines

namespace Bhasha.Outline

/-!
# Outlines are determined by their text

The lines of an outline say where it ends: a node is read off the front of a list of
lines, whatever follows.  Its kind and its attributes are read off its own line, the
count of a list says how many items there are, and a second block of a conditional
shows by its indentation, as long as what follows the conditional is not indented
deeper than the conditional itself.
-/

open Render

/-- Texts of which none starts with another are told apart in front of anything. -/
theorem eq_of_append_eq
    {α : Type} {write : α → List Char} {first second : α} {rest otherRest : List Char}
    (free : ∀ a b, write a <+: write b → a = b)
    (same : write first ++ rest = write second ++ otherRest) :
    first = second ∧ rest = otherRest := by
  have whole : write second <+: write first ++ rest := ⟨otherRest, same.symm⟩
  have equal : first = second := by
    rcases List.prefix_or_prefix_of_prefix (List.prefix_append _ rest) whole with front | front
    · exact free _ _ front
    · exact (free _ _ front).symm
  subst equal
  exact ⟨rfl, List.append_cancel_left same⟩

theorem kind_of_prefix
    (kind other : NodeKind)
    (front : kind.name.toList <+: other.name.toList) :
    kind = other := by
  revert front
  cases kind <;> cases other <;> decide

theorem type_of_prefix
    (type other : DeclaredType)
    (front : type.name.toList <+: other.name.toList) :
    type = other := by
  revert front
  cases type <;> cases other <;> decide

/-- The lines of two nodes differ where the nodes themselves do, or else in their children. -/
theorem lines_mk_append
    {level : Nat} {kind otherKind : NodeKind} {label value otherValue : Option String}
    {attributes otherAttributes : List (String × String)}
    {children otherChildren : List OutlineChild} {rest otherRest : List (List Char)}
    (same :
      lines level (mk kind label value attributes children) ++ rest =
        lines level (mk otherKind label otherValue otherAttributes otherChildren) ++ otherRest) :
    kind = otherKind ∧
      detailText value attributes = detailText otherValue otherAttributes ∧
      childLines level children ++ rest = childLines level otherChildren ++ otherRest := by
  rw [lines, lines, List.cons_append, List.cons_append, List.cons.injEq,
    List.append_cancel_left_eq, List.append_cancel_left_eq] at same
  obtain ⟨kinds, details⟩ := eq_of_append_eq kind_of_prefix same.1
  exact ⟨kinds, details, same.2⟩

/-- The lines of a child stand in front of those of the children after it. -/
theorem childLines_under_append
    (level : Nat)
    (node : Outline)
    (field : String)
    (children : List OutlineChild)
    (rest : List (List Char)) :
    childLines level (node.under field :: children) ++ rest =
      lines (level + 1) (node.labelled (some field)) ++ (childLines level children ++ rest) := by
  rw [under_eq, childLines, List.append_assoc]

theorem detailText_value_injective
    {value other : String}
    (same : detailText (some value) [] = detailText (some other) []) :
    value = other := by
  simpa [detailText, String.toList_inj] using same

theorem symbol_injective
    {operator other : BinaryOperator}
    (same : operator.symbol = other.symbol) :
    operator = other := by
  rw [← Option.some_inj, ← BinaryOperator.ofSymbol?_symbol, same, BinaryOperator.ofSymbol?_symbol]

/-- Some lines start with those of one expression only. -/
theorem ofExpression_eq_of_lines
    {value other : Expression} {level : Nat} {label : Option String}
    {rest otherRest : List (List Char)}
    (same :
      lines level ((ofExpression value).labelled label) ++ rest =
        lines level ((ofExpression other).labelled label) ++ otherRest) :
    ofExpression value = ofExpression other ∧ rest = otherRest := by
  induction value generalizing other level label rest otherRest with
  | literal value raw span =>
      cases other with
      | literal =>
          obtain ⟨-, detail, following⟩ := lines_mk_append same
          rw [ofExpression, ofExpression, detailText_value_injective detail]
          exact ⟨rfl, following⟩
      | name | binary =>
          exact absurd (lines_mk_append same).1 (by decide)
  | name text span =>
      cases other with
      | name =>
          obtain ⟨-, detail, following⟩ := lines_mk_append same
          rw [ofExpression, ofExpression, detailText_value_injective detail]
          exact ⟨rfl, following⟩
      | literal | binary =>
          exact absurd (lines_mk_append same).1 (by decide)
  | binary operator left right span leftHypothesis rightHypothesis =>
      cases other with
      | binary otherOperator otherLeft otherRight otherSpan =>
          obtain ⟨-, detail, following⟩ := lines_mk_append same
          simp only [childLines_under_append] at following
          obtain ⟨lefts, following⟩ := leftHypothesis following
          obtain ⟨rights, following⟩ := rightHypothesis following
          have symbols : operator.symbol = otherOperator.symbol := by
            simpa [detailText, String.toList_inj] using detail
          rw [ofExpression, ofExpression, lefts, rights, symbol_injective symbols]
          exact ⟨rfl, following⟩
      | literal | name =>
          exact absurd (lines_mk_append same).1 (by decide)

/-- The next line is not indented deeper than a level. -/
def NotDeeper (level : Nat) (lines : List (List Char)) : Prop :=
  ∀ line ∈ lines.head?, ¬ indentText (level + 1) <+: line

theorem indentText_add (level more : Nat) :
    indentText (level + more) = indentText level ++ indentText more := by
  rw [indentText, Nat.mul_add, List.replicate_add]
  rfl

theorem NotDeeper.add
    {level : Nat} {lines : List (List Char)}
    (notDeeper : NotDeeper level lines)
    (more : Nat) :
    NotDeeper (level + more) lines := by
  intro line first deeper
  rw [Nat.add_right_comm, indentText_add] at deeper
  exact notDeeper line first ((List.prefix_append _ _).trans deeper)

/-- A line of a level that goes on without a blank is not indented deeper than the level. -/
theorem notDeeper_indented
    {level : Nat} {text : List Char}
    (inked : text.head? ≠ some ' ')
    (more : List (List Char)) :
    NotDeeper level ((indentText level ++ text) :: more) := by
  rintro line ⟨⟩ deeper
  rw [indentText_add, List.prefix_append_right_inj] at deeper
  obtain ⟨rest, rfl⟩ := deeper
  exact inked rfl

theorem head?_name_append (kind : NodeKind) (text : List Char) :
    (kind.name.toList ++ text).head? ≠ some ' ' := by
  intro blank
  cases kind <;> cases blank

/-- Statements at a level are not indented deeper than the level. -/
theorem notDeeper_itemLines
    {level : Nat} {rest : List (List Char)}
    (body : List Statement)
    (notDeeper : NotDeeper level rest) :
    NotDeeper level (itemLines level (ofStatements body) ++ rest) := by
  cases body with
  | nil =>
      exact notDeeper
  | cons statement more =>
      cases statement <;> exact notDeeper_indented (head?_name_append _ _) _

/-- The second block of a conditional is not indented deeper than the level of its label. -/
theorem notDeeper_alternate
    (level : Nat)
    (alternate : Block)
    (rest : List (List Char)) :
    NotDeeper level (lines level ((ofBlock alternate).labelled (some "alternate")) ++ rest) := by
  rcases alternate with ⟨body, span⟩
  exact notDeeper_indented (by decide) _

/-- It is indented deeper than the conditional, and so it does not follow the conditional. -/
theorem ne_alternate
    {level : Nat} {rest more : List (List Char)} {alternate : Block}
    (notDeeper : NotDeeper level rest) :
    rest ≠ lines (level + 1) ((ofBlock alternate).labelled (some "alternate")) ++ more := by
  rintro rfl
  rcases alternate with ⟨body, span⟩
  exact notDeeper _ rfl (List.prefix_append _ _)

theorem listText_injective
    {name : String} {count other : Nat}
    (same : listText name count = listText name other) :
    count = other := by
  rw [listText, listText, List.append_cancel_left_eq] at same
  have digits : Nat.toDigits 10 count = Nat.toDigits 10 other := by
    simpa using same
  rw [← @Nat.ofDigitChars_ten_toDigits count, digits, Nat.ofDigitChars_ten_toDigits]

/-- The line of a list says how many items it has, and their lines follow. -/
theorem childLines_list_append
    {level : Nat} {name : String} {items others : List Outline}
    {rest otherRest : List (List Char)}
    (same :
      childLines level [.list name items] ++ rest =
        childLines level [.list name others] ++ otherRest) :
    items.length = others.length ∧
      itemLines (level + 2) items ++ rest = itemLines (level + 2) others ++ otherRest := by
  simp only [childLines, List.append_nil, List.cons_append, List.cons.injEq,
    List.append_cancel_left_eq] at same
  exact ⟨listText_injective same.1, same.2⟩

mutual

/-- Some lines start with those of one statement only, if no deeper line follows it. -/
theorem ofStatement_eq_of_lines :
    ∀ {statement other : Statement} {level : Nat} {rest otherRest : List (List Char)},
      NotDeeper level rest →
      NotDeeper level otherRest →
      lines level (ofStatement statement) ++ rest = lines level (ofStatement other) ++ otherRest →
      ofStatement statement = ofStatement other ∧ rest = otherRest
  | .declare type name value span, other, level, rest, otherRest, _, _, same => by
      cases other with
      | declare otherType otherName otherValue otherSpan =>
          obtain ⟨-, detail, following⟩ := lines_mk_append same
          rw [childLines_under_append, childLines_under_append] at following
          obtain ⟨values, following⟩ := ofExpression_eq_of_lines following
          have entries :
              type.name.toList ++ ([' ', 'n', 'a', 'm', 'e', '='] ++ name.text.toList) =
                otherType.name.toList ++
                  ([' ', 'n', 'a', 'm', 'e', '='] ++ otherName.text.toList) := by
            simpa [detailText] using detail
          obtain ⟨types, names⟩ := eq_of_append_eq type_of_prefix entries
          rw [List.append_cancel_left_eq, String.toList_inj] at names
          rw [ofStatement, ofStatement, types, names, values]
          exact ⟨rfl, following⟩
      | assign | print | ifThen | ifElse | loop =>
          exact absurd (lines_mk_append same).1 (by decide)
  | .assign name value span, other, level, rest, otherRest, _, _, same => by
      cases other with
      | assign otherName otherValue otherSpan =>
          obtain ⟨-, detail, following⟩ := lines_mk_append same
          rw [childLines_under_append, childLines_under_append] at following
          obtain ⟨values, following⟩ := ofExpression_eq_of_lines following
          have names : name.text = otherName.text := by
            simpa [detailText, String.toList_inj] using detail
          rw [ofStatement, ofStatement, names, values]
          exact ⟨rfl, following⟩
      | declare | print | ifThen | ifElse | loop =>
          exact absurd (lines_mk_append same).1 (by decide)
  | .print value span, other, level, rest, otherRest, _, _, same => by
      cases other with
      | print otherValue otherSpan =>
          obtain ⟨-, -, following⟩ := lines_mk_append same
          rw [childLines_under_append, childLines_under_append] at following
          obtain ⟨values, following⟩ := ofExpression_eq_of_lines following
          rw [ofStatement, ofStatement, values]
          exact ⟨rfl, following⟩
      | declare | assign | ifThen | ifElse | loop =>
          exact absurd (lines_mk_append same).1 (by decide)
  | .ifThen condition consequent span, other, level, rest, otherRest, ending, otherEnding, same => by
      cases other with
      | ifThen otherCondition otherConsequent otherSpan =>
          obtain ⟨-, -, following⟩ := lines_mk_append same
          simp only [childLines_under_append] at following
          obtain ⟨conditions, following⟩ := ofExpression_eq_of_lines following
          obtain ⟨consequents, following⟩ :=
            ofBlock_eq_of_lines (ending.add 1) (otherEnding.add 1) following
          rw [ofStatement, ofStatement, conditions, consequents]
          exact ⟨rfl, following⟩
      | ifElse otherCondition otherConsequent otherAlternate otherSpan =>
          obtain ⟨-, -, following⟩ := lines_mk_append same
          simp only [childLines_under_append] at following
          obtain ⟨-, following⟩ := ofExpression_eq_of_lines following
          obtain ⟨-, following⟩ :=
            ofBlock_eq_of_lines (ending.add 1) (notDeeper_alternate _ _ _) following
          -- The other conditional goes on with its second block, where this one has ended.
          exact absurd following (ne_alternate ending)
      | declare | assign | print | loop =>
          exact absurd (lines_mk_append same).1 (by decide)
  | .ifElse condition consequent alternate span, other, level, rest, otherRest, ending, otherEnding,
      same => by
      cases other with
      | ifThen otherCondition otherConsequent otherSpan =>
          obtain ⟨-, -, following⟩ := lines_mk_append same
          simp only [childLines_under_append] at following
          obtain ⟨-, following⟩ := ofExpression_eq_of_lines following
          obtain ⟨-, following⟩ :=
            ofBlock_eq_of_lines (notDeeper_alternate _ _ _) (otherEnding.add 1) following
          exact absurd following.symm (ne_alternate otherEnding)
      | ifElse otherCondition otherConsequent otherAlternate otherSpan =>
          obtain ⟨-, -, following⟩ := lines_mk_append same
          simp only [childLines_under_append] at following
          obtain ⟨conditions, following⟩ := ofExpression_eq_of_lines following
          obtain ⟨consequents, following⟩ :=
            ofBlock_eq_of_lines (notDeeper_alternate _ _ _)
              (notDeeper_alternate _ _ _) following
          obtain ⟨alternates, following⟩ :=
            ofBlock_eq_of_lines (ending.add 1) (otherEnding.add 1) following
          rw [ofStatement, ofStatement, conditions, consequents, alternates]
          exact ⟨rfl, following⟩
      | declare | assign | print | loop =>
          exact absurd (lines_mk_append same).1 (by decide)
  | .loop condition body span, other, level, rest, otherRest, ending, otherEnding, same => by
      cases other with
      | loop otherCondition otherBody otherSpan =>
          obtain ⟨-, -, following⟩ := lines_mk_append same
          simp only [childLines_under_append] at following
          obtain ⟨conditions, following⟩ := ofExpression_eq_of_lines following
          obtain ⟨bodies, following⟩ :=
            ofBlock_eq_of_lines (ending.add 1) (otherEnding.add 1) following
          rw [ofStatement, ofStatement, conditions, bodies]
          exact ⟨rfl, following⟩
      | declare | assign | print | ifThen | ifElse =>
          exact absurd (lines_mk_append same).1 (by decide)

theorem ofBlock_eq_of_lines :
    ∀ {block other : Block} {level : Nat} {label : Option String}
      {rest otherRest : List (List Char)},
      NotDeeper level rest →
      NotDeeper level otherRest →
      lines level ((ofBlock block).labelled label) ++ rest =
        lines level ((ofBlock other).labelled label) ++ otherRest →
      ofBlock block = ofBlock other ∧ rest = otherRest
  | .mk body span, .mk otherBody otherSpan, level, label, rest, otherRest, ending, otherEnding,
      same => by
      obtain ⟨-, -, following⟩ := lines_mk_append same
      obtain ⟨count, following⟩ := childLines_list_append following
      obtain ⟨bodies, following⟩ :=
        ofStatements_eq_of_lines count (ending.add 2) (otherEnding.add 2) following
      rw [ofBlock, ofBlock, bodies]
      exact ⟨rfl, following⟩

theorem ofStatements_eq_of_lines :
    ∀ {body others : List Statement} {level : Nat} {rest otherRest : List (List Char)},
      (ofStatements body).length = (ofStatements others).length →
      NotDeeper level rest →
      NotDeeper level otherRest →
      itemLines level (ofStatements body) ++ rest =
        itemLines level (ofStatements others) ++ otherRest →
      ofStatements body = ofStatements others ∧ rest = otherRest
  | [], [], _, _, _, _, _, _, same => ⟨rfl, same⟩
  | [], _ :: _, _, _, _, count, _, _, _ => by
      cases count
  | _ :: _, [], _, _, _, count, _, _, _ => by
      cases count
  | statement :: more, other :: otherMore, level, rest, otherRest, count, ending, otherEnding,
      same => by
      rw [ofStatements, ofStatements, itemLines, itemLines, List.append_assoc,
        List.append_assoc] at same
      obtain ⟨first, following⟩ :=
        ofStatement_eq_of_lines (notDeeper_itemLines more ending)
          (notDeeper_itemLines otherMore otherEnding) same
      obtain ⟨others, rests⟩ :=
        ofStatements_eq_of_lines (Nat.succ.inj count) ending otherEnding following
      rw [ofStatements, ofStatements, first, others]
      exact ⟨rfl, rests⟩

end

/-- Programs whose names and strings have no line feed have the same outline if it has one text. -/
theorem ofProgram_eq_of_text
    {program other : Program}
    (oneLine : program.OneLine)
    (otherOneLine : other.OneLine)
    (same : (ofProgram program).text = (ofProgram other).text) :
    ofProgram program = ofProgram other := by
  have split : lines 0 (ofProgram program) ++ [[]] = lines 0 (ofProgram other) ++ [[]] := by
    rw [← splitOn_text oneLine, same, splitOn_text otherOneLine]
  obtain ⟨-, -, following⟩ := lines_mk_append split
  obtain ⟨count, following⟩ := childLines_list_append following
  have ending : NotDeeper 2 [[]] := by
    rintro line ⟨⟩ deeper
    exact absurd deeper.length_le (by decide)
  obtain ⟨bodies, -⟩ := ofStatements_eq_of_lines count ending ending following
  rw [ofProgram, ofProgram, bodies]

end Bhasha.Outline

namespace Bhasha.Source

open Outline

/--
The text of the outline of a program that is parsed determines the outline, if no
string of the program has a line feed.

The text then has a line for every node, one for the list of the program, and one
for that of every block, each with a line feed at its end.
-/
theorem outline_text
    {source other : Source} {program found : Program}
    (parsed : source.parse = .ok program)
    (otherParsed : other.parse = .ok found)
    (strings : StringsOneLine program.expressions)
    (otherStrings : StringsOneLine found.expressions) :
    ((ofProgram program).text = (ofProgram found).text → ofProgram program = ofProgram found) ∧
      ∃ lines : List (List Char),
        (ofProgram program).text.toList = ended lines ∧
          (∀ line ∈ lines, '\n' ∉ line) ∧
          lines.length = (ofProgram program).nodeCount + 1 + program.blockCount := by
  have oneLine := oneLine_of_parse parsed strings
  refine ⟨ofProgram_eq_of_text oneLine (oneLine_of_parse otherParsed otherStrings), ?_⟩
  exact ⟨_, toList_text _, noFeed_ofProgram oneLine, length_lines_ofProgram program⟩

/-- A source with a conditional. -/
def closedConditional : Source := .ofText "if (a) \x7b print(\"b: c\"); \x7d"

/-- The same conditional with fewer blanks, without the brace at its end. -/
def openConditional : Source := .ofText "if(a)\x7bprint(\"b: c\");"

/-- Both conditionals have one text, and so they have one outline. -/
theorem outline_text_conditional :
    ∃ program found : Program,
      closedConditional.parse = .ok program ∧ openConditional.parse = .ok found ∧
        StringsOneLine program.expressions ∧ StringsOneLine found.expressions ∧
          ofProgram program = ofProgram found ∧
            ∃ lines : List (List Char),
              (ofProgram program).text.toList = ended lines ∧
                (∀ line ∈ lines, '\n' ∉ line) ∧
                lines.length = (ofProgram program).nodeCount + 1 + program.blockCount := by
  let shown (program : Program) : Bool × String :=
    (decide (StringsOneLine program.expressions), (ofProgram program).text)
  have same :
      closedConditional.parse.toOption.map shown = openConditional.parse.toOption.map shown := by
    decide +kernel
  have strings :
      (closedConditional.parse.toOption.map fun program => (shown program).1) = some true := by
    decide +kernel
  cases parsed : closedConditional.parse with
  | error error =>
      rw [parsed] at strings
      cases strings
  | ok program =>
      cases otherParsed : openConditional.parse with
      | error error =>
          rw [parsed, otherParsed] at same
          cases same
      | ok found =>
          rw [parsed] at strings same
          rw [otherParsed] at same
          obtain ⟨flags, texts⟩ := Prod.mk.inj (Option.some.inj same)
          have programStrings := of_decide_eq_true (Option.some.inj strings)
          have foundStrings := of_decide_eq_true (flags.symm.trans (Option.some.inj strings))
          obtain ⟨determined, counted⟩ :=
            outline_text parsed otherParsed programStrings foundStrings
          exact ⟨program, found, rfl, rfl, programStrings, foundStrings, determined texts, counted⟩

end Bhasha.Source
