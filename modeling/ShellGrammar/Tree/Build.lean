import ShellGrammar.Tree.Node
import ShellGrammar.Value

/-!
Building nodes from parts that need not fit together. A part that may be something else than a node
is an `Option`; the operators of a list of operands come as texts.
-/
namespace ShellGrammar

inductive BuildError
  | unknownRedirection (text : String)
  | targetNotWord
  | noWords
  | emptyCommand
  | subshellBody
  | noStages
  | noOperands
  | operatorCount (expected found : Nat)
  | unknownLogical (text : String)
  | sequenceBody
  | notNode (value : Value)
  deriving DecidableEq, Repr

namespace BuildError

def message : BuildError → String
  | unknownRedirection text => s!"Unknown redirection operator: {Text.quoted text}"
  | targetNotWord => "Redirection target must be a Word"
  | noWords => "SimpleCommand requires at least one word"
  | emptyCommand => "Command requires words or redirections"
  | subshellBody => "Subshell body must be an AndOr node"
  | noStages => "Pipeline requires at least one unit"
  | noOperands => "AndOr requires at least one operand"
  | operatorCount expected found => s!"Expected {expected} operators, got {found}"
  | unknownLogical text => s!"Unknown logical operator: {Text.quoted text}"
  | sequenceBody => "Sequence body must be an AndOr node"
  | notNode value => s!"Not an AST node: {value.description}"

/-- The part has the wrong type, as against a wrong value. -/
def isTypeError : BuildError → Bool
  | targetNotWord | subshellBody | sequenceBody | notNode _ => true
  | _ => false

end BuildError

def RedirectOp.read (text : String) : Except BuildError RedirectOp :=
  (ofText? text).elim (.error (.unknownRedirection text)) .ok

def LogicalOp.read (text : String) : Except BuildError LogicalOp :=
  (ofText? text).elim (.error (.unknownLogical text)) .ok

def Redirection.build (op : String) (target : Option Node) : Except BuildError Redirection := do
  let op ← RedirectOp.read op
  match target with
  | some (.word w) => return ⟨op, w⟩
  | _ => .error .targetNotWord

def SimpleCommand.build : List Word → Except BuildError SimpleCommand
  | [] => .error .noWords
  | w :: ws => .ok ⟨w, ws⟩

def Command.build (words : Option SimpleCommand) (redirections : List Redirection) :
    Except BuildError Command :=
  (ofParts? words redirections).elim (.error .emptyCommand) .ok

def Pipeline.build : List Stage → Except BuildError Pipeline
  | [] => .error .noStages
  | s :: ss => .ok (ofStages s ss)

/-- The first text that is no operator decides the error. -/
def AndOr.ofTexts (first : Pipeline) : List (String × Pipeline) → Except BuildError AndOr
  | [] => .ok (single first)
  | (text, p) :: rest => do
    let op ← LogicalOp.read text
    let rest ← ofTexts p rest
    return chain first op rest

def AndOr.build (operands : List Pipeline) (operators : List String) : Except BuildError AndOr :=
  match operands with
  | [] => .error .noOperands
  | p :: ps =>
    if operators.length = ps.length then ofTexts p (operators.zip ps)
    else .error (.operatorCount ps.length operators.length)

namespace Node

/-- The body of a node that is built around an and-or list; `e` if the part is none. -/
def bodyOf (e : BuildError) : Option Node → Except BuildError AndOr
  | some (andOr body) => .ok body
  | _ => .error e

def buildSubshell (part : Option Node) : Except BuildError Node :=
  (bodyOf .subshellBody part).map subshell

def buildSequence (part : Option Node) : Except BuildError Node :=
  (bodyOf .sequenceBody part).map sequence

/-- No plain value is a node. -/
def ofValue (value : Value) : Except BuildError Node := .error (.notNode value)

end Node
end ShellGrammar
