import ShellGrammar.Json
import ShellGrammar.Tree.Writer

/-!
What a syntax tree looks like from outside: as plain data with the kind, the label and the children
of every node, and as a listing with one line for each node. Both are made of trees of any depth; an
interpreter's limit on nested calls is left out here too.
-/
namespace ShellGrammar

inductive Outline
  | node (kind : Node.Kind) (label : Option String) (children : List Outline)
  deriving Repr

namespace Outline

def kind : Outline → Node.Kind
  | node kind _ _ => kind

def label : Outline → Option String
  | node _ label _ => label

def children : Outline → List Outline
  | node _ _ children => children

mutual

def json : Outline → Json
  | node kind label children =>
    .object [("type", .string kind.name), ("label", label.elim .null .string),
      ("children", .array (jsonList children))]

def jsonList : List Outline → List Json
  | [] => []
  | o :: os => o.json :: jsonList os

end

end Outline

namespace Node

def outline (n : Node) : Outline :=
  .node n.kind n.label (n.children.attach.map fun ⟨c, _⟩ => c.outline)
termination_by n.weight
decreasing_by exact weight_lt_of_mem_children ‹_›

theorem outline_eq (n : Node) : n.outline = .node n.kind n.label (n.children.map outline) := by
  rw [outline]
  simp

/-- The line of the node itself, after `column` spaces, or none if `column` is negative. -/
def listingLine (n : Node) (column : Int) : String :=
  String.ofList (List.replicate column.toNat ' ') ++ n.kind.name ++
    (n.label.elim "" fun label => " " ++ Text.quoted label)

/-- The lines of the node and of all nodes below it, each two columns to the right of its parent. -/
def listingLines (n : Node) (column : Int) : List String :=
  n.listingLine column :: n.children.attach.flatMap fun ⟨c, _⟩ => c.listingLines (column + 2)
termination_by n.weight
decreasing_by exact weight_lt_of_mem_children ‹_›

theorem listingLines_eq (n : Node) (column : Int) :
    n.listingLines column =
      n.listingLine column :: n.children.flatMap fun c => c.listingLines (column + 2) := by
  rw [listingLines]
  simp

def listing (n : Node) (column : Int) : String := "\n".intercalate (n.listingLines column)

end Node

/-- The forms in which a tree is shown; a name that is none of theirs stands for the listing. -/
inductive Layout
  | listing
  | json
  | text
  deriving DecidableEq, Repr

namespace Layout

def all : List Layout := [listing, json, text]

def name : Layout → String
  | listing => "tree"
  | json => "json"
  | text => "text"

def ofName? (name : String) : Option Layout := all.find? (·.name == name)

def ofName (name : String) : Layout := (ofName? name).getD listing

end Layout

def Node.render (n : Node) : Layout → String
  | .listing => n.listing 0
  | .json => n.outline.json.pretty
  | .text => n.write

end ShellGrammar
