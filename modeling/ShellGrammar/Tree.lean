import ShellGrammar.Token

/-!
Syntax trees of command lines, one type for each level of the grammar. A line is empty or holds
one and-or list; an and-or list joins pipelines, a pipeline joins stages, a stage is a command or
a subshell. What each level requires (a first word, a first stage, one operator between any two
operands) is built into its type.
-/
namespace ShellGrammar

structure Word where
  text : String
  deriving DecidableEq, Repr

inductive RedirectOp
  | input
  | output
  | append
  | heredoc
  deriving DecidableEq, Repr

structure Redirection where
  op : RedirectOp
  target : Word
  deriving DecidableEq, Repr

structure SimpleCommand where
  name : Word
  arguments : List Word
  deriving DecidableEq, Repr

/-- Words, redirections, or both. -/
inductive Command
  | simple (words : SimpleCommand) (redirections : List Redirection)
  | bare (first : Redirection) (others : List Redirection)
  deriving DecidableEq, Repr

inductive LogicalOp
  | and
  | or
  deriving DecidableEq, Repr

mutual

inductive Stage
  | command (c : Command)
  | subshell (body : AndOr)
  deriving DecidableEq, Repr

inductive Pipeline
  | single (s : Stage)
  | pipe (s : Stage) (rest : Pipeline)
  deriving DecidableEq, Repr

inductive AndOr
  | single (p : Pipeline)
  | chain (p : Pipeline) (op : LogicalOp) (rest : AndOr)
  deriving DecidableEq, Repr

end

inductive Line
  | empty
  | sequence (body : AndOr)
  deriving DecidableEq, Repr

namespace RedirectOp

def all : List RedirectOp := [input, output, append, heredoc]

def kind : RedirectOp → Token.Kind
  | input => .redirIn
  | output => .redirOut
  | append => .redirAppend
  | heredoc => .heredoc

def text : RedirectOp → String
  | input => "<"
  | output => ">"
  | append => ">>"
  | heredoc => "<<"

def ofText? (text : String) : Option RedirectOp := all.find? (·.text == text)

theorem ofText?_text (op : RedirectOp) : ofText? op.text = some op := by
  cases op <;> decide

end RedirectOp

namespace LogicalOp

def all : List LogicalOp := [and, or]

def kind : LogicalOp → Token.Kind
  | and => .andAnd
  | or => .orOr

def text : LogicalOp → String
  | and => "&&"
  | or => "||"

def ofText? (text : String) : Option LogicalOp := all.find? (·.text == text)

theorem ofText?_text (op : LogicalOp) : ofText? op.text = some op := by
  cases op <;> decide

end LogicalOp

namespace SimpleCommand

def words (s : SimpleCommand) : List Word := s.name :: s.arguments

def texts (s : SimpleCommand) : List String := s.words.map (·.text)

end SimpleCommand

namespace Command

def simple? : Command → Option SimpleCommand
  | simple words _ => some words
  | bare _ _ => none

def redirections : Command → List Redirection
  | simple _ rs => rs
  | bare first others => first :: others

/-- Nothing if there are neither words nor redirections. -/
def ofParts? : Option SimpleCommand → List Redirection → Option Command
  | some words, rs => some (simple words rs)
  | none, r :: rs => some (bare r rs)
  | none, [] => none

theorem ofParts?_parts (c : Command) : ofParts? c.simple? c.redirections = some c := by
  cases c <;> rfl

end Command

namespace Pipeline

def stages : Pipeline → List Stage
  | single s => [s]
  | pipe s rest => s :: rest.stages

def ofStages (first : Stage) : List Stage → Pipeline
  | [] => single first
  | s :: rest => pipe first (ofStages s rest)

theorem stages_ofStages (first : Stage) (rest : List Stage) :
    (ofStages first rest).stages = first :: rest := by
  induction rest generalizing first with
  | nil => rfl
  | cons s rest ih => simp [ofStages, stages, ih]

end Pipeline

namespace AndOr

def first : AndOr → Pipeline
  | single p => p
  | chain p _ _ => p

/-- The operands after the first, each with the operator before it. -/
def others : AndOr → List (LogicalOp × Pipeline)
  | single _ => []
  | chain _ op rest => (op, rest.first) :: rest.others

def operands (a : AndOr) : List Pipeline := a.first :: a.others.map (·.2)

def operators (a : AndOr) : List LogicalOp := a.others.map (·.1)

/-- The operands in the order of evaluation; none but the first has an operator before it. -/
def pairs (a : AndOr) : List (Option LogicalOp × Pipeline) :=
  (none, a.first) :: a.others.map fun (op, p) => (some op, p)

def ofOperands (first : Pipeline) : List (LogicalOp × Pipeline) → AndOr
  | [] => single first
  | (op, p) :: rest => chain first op (ofOperands p rest)

theorem operands_single (p : Pipeline) : (single p).operands = [p] := rfl

theorem operands_chain (p : Pipeline) (op : LogicalOp) (rest : AndOr) :
    (chain p op rest).operands = p :: rest.operands := rfl

theorem first_ofOperands (p : Pipeline) (rest : List (LogicalOp × Pipeline)) :
    (ofOperands p rest).first = p := by
  cases rest <;> rfl

theorem others_ofOperands (p : Pipeline) (rest : List (LogicalOp × Pipeline)) :
    (ofOperands p rest).others = rest := by
  induction rest generalizing p with
  | nil => rfl
  | cons r rest ih => simp [ofOperands, others, first_ofOperands, ih]

end AndOr
end ShellGrammar
