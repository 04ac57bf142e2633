import Bhasha.Proofs.Number.Written
import Bhasha.Proofs.Rendering.Text
import Bhasha.Proofs.Syntax.OneLine
import Bhasha.Syntax.Outline

namespace Bhasha

/-!
# The lines of outlines

The text of an outline has one line for every node and one for every list, each
with the blanks of its level in front.  Every line ends with a line feed; no other
line feed is written unless a value or an attribute has one, so that the lines can
be told apart again.
-/

open Render

/-- Lines with a line feed behind each of them. -/
def ended (lines : List (List Char)) : List Char := lines.flatMap (· ++ ['\n'])

@[simp] theorem ended_nil : ended [] = [] := rfl

@[simp] theorem ended_cons (line : List Char) (lines : List (List Char)) :
    ended (line :: lines) = line ++ '\n' :: ended lines := by
  simp [ended]

@[simp] theorem ended_append (first second : List (List Char)) :
    ended (first ++ second) = ended first ++ ended second :=
  List.flatMap_append

/-- A text is split at its line feeds into the lines that it is made of. -/
theorem splitOn_ended
    {lines : List (List Char)}
    (noFeed : ∀ line ∈ lines, '\n' ∉ line) :
    (ended lines).splitOn '\n' = lines ++ [[]] := by
  induction lines with
  | nil =>
      rfl
  | cons line rest inductionHypothesis =>
      rw [List.forall_mem_cons] at noFeed
      rw [ended_cons, List.splitOn_append_cons_self_of_not_mem noFeed.1,
        inductionHypothesis noFeed.2, List.cons_append]

namespace Outline

/-- What stands in front of the kind of a node. -/
def labelText : Option String → List Char
  | none => []
  | some label => label.toList ++ [':', ' ']

/-- What stands behind the kind of a node. -/
def detailText (value : Option String) (attributes : List (String × String)) : List Char :=
  (match value with
    | none => []
    | some value => ' ' :: value.toList) ++
  attributes.flatMap fun entry => ' ' :: (entry.1.toList ++ '=' :: entry.2.toList)

/-- The line of a node is its label, its kind, and what stands behind that. -/
theorem toList_headline
    (kind : NodeKind)
    (label value : Option String)
    (attributes : List (String × String)) :
    (headline kind label value attributes).toList =
      labelText label ++ (kind.name.toList ++ detailText value attributes) := by
  have attributed (line : String) :
      (attributes.foldl (fun line entry => line ++ " " ++ entry.1 ++ "=" ++ entry.2) line).toList =
        line.toList ++
          attributes.flatMap fun entry => ' ' :: (entry.1.toList ++ '=' :: entry.2.toList) := by
    induction attributes generalizing line with
    | nil =>
        simp
    | cons entry rest inductionHypothesis =>
        simp [inductionHypothesis]
  unfold headline
  dsimp only
  rw [attributed]
  cases label <;> cases value <;> simp [labelText, detailText]

/-- The line of a list is its name and how many items it has. -/
def listText (name : String) (count : Nat) : List Char :=
  name.toList ++ ' ' :: '[' :: (Nat.toDigits 10 count ++ [']'])

mutual

/-- The lines of an outline. -/
def lines (level : Nat) : Outline → List (List Char)
  | mk kind label value attributes children =>
      (indentText level ++
        (labelText label ++ (kind.name.toList ++ detailText value attributes))) ::
          childLines level children

/-- The lines of the children of a node. -/
def childLines (level : Nat) : List OutlineChild → List (List Char)
  | [] => []
  | .node node :: rest => lines (level + 1) node ++ childLines level rest
  | .list name items :: rest =>
      (indentText (level + 1) ++ listText name items.length) ::
        (itemLines (level + 2) items ++ childLines level rest)

/-- The lines of the items of a list. -/
def itemLines (level : Nat) : List Outline → List (List Char)
  | [] => []
  | item :: rest => lines level item ++ itemLines level rest

end

mutual

/-- An outline is written after what is already written, line by line. -/
theorem toList_textTo (out : String) (level : Nat) (outline : Outline) :
    (textTo out level outline).toList = out.toList ++ ended (lines level outline) := by
  rcases outline with ⟨kind, label, value, attributes, children⟩
  simp [textTo, lines, toList_childrenTo, toList_indent, toList_headline]

theorem toList_childrenTo (out : String) (level : Nat) (children : List OutlineChild) :
    (childrenTo out level children).toList = out.toList ++ ended (childLines level children) := by
  cases children with
  | nil =>
      simp [childrenTo, childLines]
  | cons child rest =>
      cases child with
      | node node =>
          simp [childrenTo, childLines, toList_childrenTo, toList_textTo]
      | list name items =>
          have shown (text : String) : toString text = text := rfl
          simp [childrenTo, childLines, toList_childrenTo, toList_itemsTo, toList_indent, listText,
            shown]

theorem toList_itemsTo (out : String) (level : Nat) (items : List Outline) :
    (itemsTo out level items).toList = out.toList ++ ended (itemLines level items) := by
  cases items with
  | nil =>
      simp [itemsTo, itemLines]
  | cons item rest =>
      simp [itemsTo, itemLines, toList_itemsTo, toList_textTo]

end

/-- The text of an outline is made of its lines. -/
theorem toList_text (outline : Outline) :
    outline.text.toList = ended (lines 0 outline) := by
  rw [text, toList_textTo]
  rfl

/-- The same node with another label. -/
def labelled (label : Option String) : Outline → Outline
  | mk kind _ value attributes children => mk kind label value attributes children

theorem labelled_mk
    (kind : NodeKind)
    (label other value : Option String)
    (attributes : List (String × String))
    (children : List OutlineChild) :
    (mk kind other value attributes children).labelled label =
      mk kind label value attributes children :=
  rfl

/-- A child is written as a node with the name of its field. -/
theorem under_eq (outline : Outline) (label : String) :
    outline.under label = .node (outline.labelled (some label)) := by
  cases outline
  rfl

theorem nodeCount_labelled (outline : Outline) (label : Option String) :
    (outline.labelled label).nodeCount = outline.nodeCount := by
  cases outline
  rfl

end Outline

mutual

/-- How many blocks a statement has, those inside its blocks included. -/
def Statement.blockCount : Statement → Nat
  | .declare .. | .assign .. | .print .. => 0
  | .ifThen _ consequent _ => consequent.blockCount
  | .ifElse _ consequent alternate _ => consequent.blockCount + alternate.blockCount
  | .loop _ body _ => body.blockCount

/-- How many blocks a block has, itself included. -/
def Block.blockCount : Block → Nat
  | .mk body _ => 1 + blockCountAll body

/-- How many blocks some statements have. -/
def blockCountAll : List Statement → Nat
  | [] => 0
  | statement :: rest => statement.blockCount + blockCountAll rest

end

/-- How many blocks a program has. -/
def Program.blockCount (program : Program) : Nat := blockCountAll program.body

namespace Outline

/-- An expression has a line for every node. -/
theorem length_lines_ofExpression (level : Nat) (label : Option String) (value : Expression) :
    (lines level ((ofExpression value).labelled label)).length = (ofExpression value).nodeCount := by
  induction value generalizing level label with
  | literal value raw span =>
      rfl
  | name text span =>
      rfl
  | binary operator left right span leftHypothesis rightHypothesis =>
      simp only [ofExpression, branch, labelled_mk, under_eq, lines, childLines, nodeCount,
        childCount, nodeCount_labelled, List.length_cons, List.length_append, List.length_nil,
        leftHypothesis, rightHypothesis]
      omega

mutual

/-- A statement has a line for every node, and one for the list of every block. -/
theorem length_lines_ofStatement (level : Nat) (statement : Statement) :
    (lines level (ofStatement statement)).length =
      (ofStatement statement).nodeCount + statement.blockCount := by
  cases statement with
  | declare | assign | print =>
      simp only [ofStatement, branch, under_eq, lines, childLines, nodeCount, childCount,
        nodeCount_labelled, List.length_cons, List.length_append, List.length_nil,
        length_lines_ofExpression, Statement.blockCount]
      omega
  | ifThen | ifElse | loop =>
      simp only [ofStatement, branch, under_eq, lines, childLines, nodeCount, childCount,
        nodeCount_labelled, List.length_cons, List.length_append, List.length_nil,
        length_lines_ofExpression, length_lines_ofBlock, Statement.blockCount]
      omega

theorem length_lines_ofBlock (level : Nat) (label : Option String) (block : Block) :
    (lines level ((ofBlock block).labelled label)).length =
      (ofBlock block).nodeCount + block.blockCount := by
  rcases block with ⟨body, span⟩
  simp only [ofBlock, branch, labelled_mk, lines, childLines, nodeCount, childCount,
    List.length_cons, List.length_append, List.length_nil, length_itemLines, Block.blockCount]
  omega

theorem length_itemLines (level : Nat) (body : List Statement) :
    (itemLines level (ofStatements body)).length =
      itemCount (ofStatements body) + blockCountAll body := by
  cases body with
  | nil =>
      rfl
  | cons statement rest =>
      simp only [ofStatements, itemLines, itemCount, List.length_append,
        length_lines_ofStatement, length_itemLines, blockCountAll]
      omega

end

/-- A program has a line for every node, one for its own list, and one for that of every block. -/
theorem length_lines_ofProgram (program : Program) :
    (lines 0 (ofProgram program)).length =
      (ofProgram program).nodeCount + 1 + program.blockCount := by
  simp only [ofProgram, branch, lines, childLines, nodeCount, childCount, List.length_cons,
    List.length_append, List.length_nil, length_itemLines, Program.blockCount]
  omega

end Outline

/-!
## Outlines without line feeds in their lines
-/

/-- No line has a line feed. -/
def NoFeed (lines : List (List Char)) : Prop := ∀ line ∈ lines, '\n' ∉ line

theorem noFeed_nil : NoFeed [] := List.forall_mem_nil _

theorem noFeed_cons {line : List Char} {lines : List (List Char)} :
    NoFeed (line :: lines) ↔ '\n' ∉ line ∧ NoFeed lines :=
  List.forall_mem_cons

theorem noFeed_append {first second : List (List Char)} :
    NoFeed (first ++ second) ↔ NoFeed first ∧ NoFeed second :=
  List.forall_mem_append

namespace Outline

theorem noFeed_indentText (level : Nat) :
    '\n' ∉ indentText level := by
  simp [indentText]

theorem noFeed_name (kind : NodeKind) :
    '\n' ∉ kind.name.toList := by
  cases kind <;> decide

/-- A node has no line feed in its lines when its parts have none. -/
theorem noFeed_lines_mk
    {level : Nat} {kind : NodeKind} {label value : Option String}
    {attributes : List (String × String)} {children : List OutlineChild}
    (labelClean : '\n' ∉ labelText label)
    (detailClean : '\n' ∉ detailText value attributes)
    (childrenClean : NoFeed (childLines level children)) :
    NoFeed (lines level (mk kind label value attributes children)) := by
  rw [lines, noFeed_cons]
  refine ⟨?_, childrenClean⟩
  simp [noFeed_indentText, noFeed_name, labelClean, detailClean]

theorem noFeed_under
    {node : Outline} {children : List OutlineChild} {field : String} {level : Nat}
    (nodeClean : NoFeed (lines (level + 1) (node.labelled (some field))))
    (childrenClean : NoFeed (childLines level children)) :
    NoFeed (childLines level (node.under field :: children)) := by
  rw [under_eq, childLines, noFeed_append]
  exact ⟨nodeClean, childrenClean⟩

/-- The value of a literal is written without a line feed when it has none. -/
theorem noFeed_literalText
    {value : Literal}
    (oneLine : value.OneLine) :
    '\n' ∉ (literalText value).toList := by
  cases value with
  | number value =>
      exact NumberStyle.noFeed_write value
  | string text =>
      exact oneLine

theorem noFeed_ofExpression
    {value : Expression} {label : Option String}
    (oneLine : value.OneLine)
    (labelClean : '\n' ∉ labelText label)
    (level : Nat) :
    NoFeed (lines level ((ofExpression value).labelled label)) := by
  induction value generalizing level label with
  | literal value raw span =>
      refine noFeed_lines_mk labelClean ?_ noFeed_nil
      simpa [detailText] using noFeed_literalText oneLine
  | name text span =>
      refine noFeed_lines_mk labelClean ?_ noFeed_nil
      have clean : '\n' ∉ text.toList := oneLine
      simpa [detailText] using clean
  | binary operator left right span leftHypothesis rightHypothesis =>
      refine noFeed_lines_mk labelClean ?_ <|
        noFeed_under (leftHypothesis oneLine.1 (by decide) _) <|
        noFeed_under (rightHypothesis oneLine.2 (by decide) _) noFeed_nil
      cases operator <;> decide

theorem noFeed_list
    {name : String} {items : List Outline} {level : Nat}
    (nameClean : '\n' ∉ name.toList)
    (itemsClean : NoFeed (itemLines (level + 2) items)) :
    NoFeed (childLines level [.list name items]) := by
  have digits : '\n' ∉ Nat.toDigits 10 items.length := by
    intro member
    exact absurd (Nat.isDigit_of_mem_toDigits (by decide) (by decide) member) (by decide)
  rw [childLines, childLines, List.append_nil, noFeed_cons]
  refine ⟨?_, itemsClean⟩
  simp [noFeed_indentText, listText, nameClean, digits]

mutual

/-- A statement whose names and strings have no line feed is written without one in its lines. -/
theorem noFeed_ofStatement :
    ∀ {statement : Statement}, statement.OneLine → ∀ level : Nat,
      NoFeed (lines level (ofStatement statement))
  | .declare type name value span, ⟨nameClean, valueClean⟩, level => by
      refine noFeed_lines_mk List.not_mem_nil ?_
        (noFeed_under (noFeed_ofExpression valueClean (by decide) _) noFeed_nil)
      cases type <;> simp [detailText, DeclaredType.name, nameClean]
  | .assign name value span, ⟨nameClean, valueClean⟩, level => by
      refine noFeed_lines_mk List.not_mem_nil ?_
        (noFeed_under (noFeed_ofExpression valueClean (by decide) _) noFeed_nil)
      simp [detailText, nameClean]
  | .print value span, valueClean, level =>
      noFeed_lines_mk List.not_mem_nil List.not_mem_nil <|
        noFeed_under (noFeed_ofExpression valueClean (by decide) _) noFeed_nil
  | .ifThen condition consequent span, ⟨conditionClean, consequentClean⟩, level =>
      noFeed_lines_mk List.not_mem_nil List.not_mem_nil <|
        noFeed_under (noFeed_ofExpression conditionClean (by decide) _) <|
        noFeed_under (noFeed_ofBlock consequentClean (by decide) _) noFeed_nil
  | .ifElse condition consequent alternate span,
      ⟨conditionClean, consequentClean, alternateClean⟩, level =>
      noFeed_lines_mk List.not_mem_nil List.not_mem_nil <|
        noFeed_under (noFeed_ofExpression conditionClean (by decide) _) <|
        noFeed_under (noFeed_ofBlock consequentClean (by decide) _) <|
        noFeed_under (noFeed_ofBlock alternateClean (by decide) _) noFeed_nil
  | .loop condition body span, ⟨conditionClean, bodyClean⟩, level =>
      noFeed_lines_mk List.not_mem_nil List.not_mem_nil <|
        noFeed_under (noFeed_ofExpression conditionClean (by decide) _) <|
        noFeed_under (noFeed_ofBlock bodyClean (by decide) _) noFeed_nil

theorem noFeed_ofBlock :
    ∀ {block : Block} {label : Option String}, block.OneLine → '\n' ∉ labelText label →
      ∀ level : Nat, NoFeed (lines level ((ofBlock block).labelled label))
  | .mk body span, label, oneLine, labelClean, level =>
      noFeed_lines_mk labelClean List.not_mem_nil <|
        noFeed_list (by decide) (noFeed_itemLines oneLine _)

theorem noFeed_itemLines :
    ∀ {body : List Statement}, allOneLine body → ∀ level : Nat,
      NoFeed (itemLines level (ofStatements body))
  | [], _, _ => noFeed_nil
  | statement :: rest, ⟨first, others⟩, level => by
      rw [ofStatements, itemLines, noFeed_append]
      exact ⟨noFeed_ofStatement first level, noFeed_itemLines others level⟩

end

/-- A program whose names and strings have no line feed is written without one in its lines. -/
theorem noFeed_ofProgram
    {program : Program}
    (oneLine : program.OneLine) :
    NoFeed (lines 0 (ofProgram program)) :=
  noFeed_lines_mk List.not_mem_nil List.not_mem_nil <|
    noFeed_list (by decide) (noFeed_itemLines oneLine _)

/-- The text of a program whose names and strings have no line feed is split into its lines. -/
theorem splitOn_text
    {program : Program}
    (oneLine : program.OneLine) :
    (ofProgram program).text.toList.splitOn '\n' = lines 0 (ofProgram program) ++ [[]] := by
  rw [toList_text]
  exact splitOn_ended (noFeed_ofProgram oneLine)

end Outline

end Bhasha
