import Bhasha.Json
import Bhasha.Number.Display
import Bhasha.Syntax.Tree

namespace Bhasha

/-!
# Outlines of syntax trees

An outline shows a tree without spans and without the text of literals.  Every
part is a node with its kind, the name of the field that holds it, its value or
its attributes, and its children; a list of statements is a named list of nodes.
-/

mutual

/-- A node of an outline. -/
inductive Outline where
  | mk
    (kind : NodeKind)
    (label : Option String)
    (value : Option String)
    (attributes : List (String × String))
    (children : List OutlineChild)

/-- A child of a node: another node, or a named list of nodes. -/
inductive OutlineChild where
  | node (node : Outline)
  | list (name : String) (items : List Outline)

end

namespace Outline

/-- A node without a label that has a value and nothing else. -/
def leaf (kind : NodeKind) (value : String) : Outline := mk kind none (some value) [] []

/-- A node without a label that has attributes and children. -/
def branch
    (kind : NodeKind)
    (attributes : List (String × String))
    (children : List OutlineChild) : Outline :=
  mk kind none none attributes children

/-- A node as a child that is held in a field. -/
def under (label : String) : Outline → OutlineChild
  | mk kind _ value attributes children =>
      .node (mk kind (some label) value attributes children)

/-- The text of a literal in an outline: a string stands without quotes. -/
def literalText : Literal → String
  | .number value => NumberStyle.screen.write value
  | .string value => value

/-- The outline of an expression. -/
def ofExpression : Expression → Outline
  | .literal value _ _ => leaf .literal (literalText value)
  | .name text _ => leaf .identifier text
  | .binary operator left right _ =>
      branch .binary [("operator", operator.symbol)]
        [(ofExpression left).under "left", (ofExpression right).under "right"]

mutual

/-- The outline of a statement. -/
def ofStatement : Statement → Outline
  | .declare type name value _ =>
      branch .declaration [("var_type", type.name), ("name", name.text)]
        [(ofExpression value).under "value"]
  | .assign name value _ =>
      branch .assignment [("name", name.text)] [(ofExpression value).under "value"]
  | .print value _ => branch .print [] [(ofExpression value).under "expression"]
  | .ifThen condition consequent _ =>
      branch .conditional []
        [(ofExpression condition).under "condition", (ofBlock consequent).under "consequent"]
  | .ifElse condition consequent alternate _ =>
      branch .conditional []
        [(ofExpression condition).under "condition", (ofBlock consequent).under "consequent",
         (ofBlock alternate).under "alternate"]
  | .loop condition body _ =>
      branch .loop []
        [(ofExpression condition).under "condition", (ofBlock body).under "body"]

/-- The outline of a block. -/
def ofBlock : Block → Outline
  | .mk body _ => branch .block [] [.list "body" (ofStatements body)]

/-- The outlines of statements. -/
def ofStatements : List Statement → List Outline
  | [] => []
  | statement :: rest => ofStatement statement :: ofStatements rest

end

/-- The outline of a program. -/
def ofProgram (program : Program) : Outline :=
  branch .program [] [.list "body" (ofStatements program.body)]

mutual

/-- How many nodes an outline has, itself included. -/
def nodeCount : Outline → Nat
  | mk _ _ _ _ children => 1 + childCount children

/-- How many nodes some children have. -/
def childCount : List OutlineChild → Nat
  | [] => 0
  | .node node :: rest => nodeCount node + childCount rest
  | .list _ items :: rest => itemCount items + childCount rest

/-- How many nodes the items of a list have. -/
def itemCount : List Outline → Nat
  | [] => 0
  | item :: rest => nodeCount item + itemCount rest

end

/-- The line of a node: label, kind, value and attributes. -/
def headline
    (kind : NodeKind)
    (label value : Option String)
    (attributes : List (String × String)) : String :=
  let front :=
    match label with
    | some label => label ++ ": " ++ kind.name
    | none => kind.name
  let valued :=
    match value with
    | some value => front ++ " " ++ value
    | none => front
  attributes.foldl (fun line entry => line ++ " " ++ entry.1 ++ "=" ++ entry.2) valued

mutual

/-- Write an outline with one node a line after what is already written. -/
def textTo (out : String) (level : Nat) : Outline → String
  | mk kind label value attributes children =>
      let out := out ++ Text.indent level ++ headline kind label value attributes ++ "\n"
      childrenTo out level children

/-- Write the children of a node after what is already written. -/
def childrenTo (out : String) (level : Nat) : List OutlineChild → String
  | [] => out
  | .node node :: rest => childrenTo (textTo out (level + 1) node) level rest
  | .list name items :: rest =>
      let out := out ++ Text.indent (level + 1) ++ s!"{name} [{items.length}]\n"
      childrenTo (itemsTo out (level + 2) items) level rest

/-- Write the items of a list after what is already written. -/
def itemsTo (out : String) (level : Nat) : List Outline → String
  | [] => out
  | item :: rest => itemsTo (textTo out level item) level rest

end

/-- The text of an outline: one node a line, two blanks a level. -/
def text (outline : Outline) : String := textTo "" 0 outline

/-- An attribute as an object. -/
def attributeJson (entry : String × String) : Json :=
  .object [("name", .string entry.1), ("value", .string entry.2)]

mutual

/-- The members of a node in an object; what a node does not have is left out. -/
def members : Outline → List (String × Json)
  | mk kind label value attributes children =>
      [("kind", Json.string kind.name)] ++
      Json.optional "label" (label.map .string) ++
      Json.optional "value" (value.map .string) ++
      (if attributes.isEmpty then [] else [("attributes", .list (attributes.map attributeJson))]) ++
      (if children.isEmpty then [] else [("children", .list (childrenJson children))])

/-- The children of a node as values, each with its type. -/
def childrenJson : List OutlineChild → List Json
  | [] => []
  | .node node :: rest =>
      .object (("type", .string "node") :: members node) :: childrenJson rest
  | .list name items :: rest =>
      .object [("type", .string "list"), ("name", .string name), ("items", .list (itemsJson items))]
        :: childrenJson rest

/-- The items of a list as values. -/
def itemsJson : List Outline → List Json
  | [] => []
  | item :: rest => .object (members item) :: itemsJson rest

end

/-- An outline as an object. -/
def toJson (outline : Outline) : Json := .object outline.members

end Outline

end Bhasha
