import ShellGrammar.Tree

/-!
The nodes of a syntax tree under one type, with the view that every node shares: its kind, an
optional label and its children in order.
-/
namespace ShellGrammar

inductive Node
  | empty
  | sequence (body : AndOr)
  | andOr (a : AndOr)
  | pipeline (p : Pipeline)
  | command (c : Command)
  | simpleCommand (s : SimpleCommand)
  | redirection (r : Redirection)
  | subshell (body : AndOr)
  | word (w : Word)
  deriving DecidableEq, Repr

inductive Node.Kind
  | empty
  | sequence
  | andOr
  | pipeline
  | command
  | simpleCommand
  | redirection
  | subshell
  | word
  deriving DecidableEq, Repr

namespace Node.Kind

def all : List Kind :=
  [empty, sequence, andOr, pipeline, command, simpleCommand, redirection, subshell, word]

def name : Kind → String
  | empty => "EMPTY"
  | sequence => "SEQUENCE"
  | andOr => "AND_OR"
  | pipeline => "PIPELINE"
  | command => "COMMAND"
  | simpleCommand => "SIMPLE_COMMAND"
  | redirection => "REDIRECTION"
  | subshell => "SUBSHELL"
  | word => "WORD"

def code : Kind → Nat
  | empty => 0
  | sequence => 1
  | andOr => 2
  | pipeline => 3
  | command => 4
  | simpleCommand => 5
  | redirection => 6
  | subshell => 7
  | word => 8

end Node.Kind

def Line.node : Line → Node
  | .empty => .empty
  | .sequence body => .sequence body

def Stage.node : Stage → Node
  | .command c => .command c
  | .subshell body => .subshell body

namespace Node

def kind : Node → Kind
  | empty => .empty
  | sequence _ => .sequence
  | andOr _ => .andOr
  | pipeline _ => .pipeline
  | command _ => .command
  | simpleCommand _ => .simpleCommand
  | redirection _ => .redirection
  | subshell _ => .subshell
  | word _ => .word

def label : Node → Option String
  | word w => some w.text
  | redirection r => some r.op.text
  | simpleCommand s => some (" ".intercalate s.texts)
  | subshell _ => some "()"
  | pipeline (.pipe _ _) => some "|"
  | andOr a =>
    if a.operators.isEmpty then none else some (" ".intercalate (a.operators.map (·.text)))
  | _ => none

def children : Node → List Node
  | empty | word _ => []
  | sequence body | subshell body => [andOr body]
  | andOr a => a.operands.map pipeline
  | pipeline p => p.stages.map Stage.node
  | command c => (c.simple?.map simpleCommand).toList ++ c.redirections.map redirection
  | simpleCommand s => s.words.map word
  | redirection r => [word r.target]

end Node

mutual

def Stage.weight : Stage → Nat
  | .command _ => 2
  | .subshell body => body.weight + 1

def Pipeline.weight : Pipeline → Nat
  | .single s => s.weight + 1
  | .pipe s rest => s.weight + rest.weight + 1

def AndOr.weight : AndOr → Nat
  | .single p => p.weight + 1
  | .chain p _ rest => p.weight + rest.weight + 1

end

theorem Pipeline.weight_lt_of_mem_stages {s : Stage} :
    ∀ {p : Pipeline}, s ∈ p.stages → s.weight < p.weight
  | .single _, h => by
    simp only [stages, List.mem_singleton] at h
    subst h
    simp only [weight]
    omega
  | .pipe _ rest, h => by
    simp only [stages, List.mem_cons] at h
    rcases h with rfl | h
    · simp only [weight]
      omega
    · have := weight_lt_of_mem_stages h
      simp only [weight]
      omega

theorem AndOr.weight_lt_of_mem_operands {p : Pipeline} :
    ∀ {a : AndOr}, p ∈ a.operands → p.weight < a.weight
  | .single _, h => by
    rw [operands_single, List.mem_singleton] at h
    subst h
    simp only [weight]
    omega
  | .chain _ _ rest, h => by
    rw [operands_chain, List.mem_cons] at h
    rcases h with rfl | h
    · simp only [weight]
      omega
    · have := weight_lt_of_mem_operands h
      simp only [weight]
      omega

namespace Node

/-- Grows strictly from a node to the one that holds it. -/
def weight : Node → Nat
  | empty | word _ => 0
  | simpleCommand _ | redirection _ => 1
  | command _ => 2
  | pipeline p => p.weight
  | andOr a => a.weight
  | sequence body | subshell body => body.weight + 1

theorem weight_stage (s : Stage) : s.node.weight = s.weight := by
  cases s <;> simp only [Stage.node, weight, Stage.weight]

theorem weight_lt_of_mem_children {n c : Node} (h : c ∈ n.children) : c.weight < n.weight := by
  cases n with
  | empty | word => simp [children] at h
  | sequence body | subshell body =>
    simp only [children, List.mem_singleton] at h
    subst h
    simp [weight]
  | andOr a =>
    obtain ⟨p, hp, rfl⟩ := List.mem_map.1 h
    exact AndOr.weight_lt_of_mem_operands hp
  | pipeline p =>
    obtain ⟨s, hs, rfl⟩ := List.mem_map.1 h
    rw [weight_stage]
    exact Pipeline.weight_lt_of_mem_stages hs
  | command cmd =>
    rcases cmd with ⟨s, rs⟩ | ⟨r, rs⟩ <;>
      simp only [children, Command.simple?, Command.redirections, Option.map_some, Option.map_none,
        Option.toList_some, Option.toList_none, List.mem_append, List.mem_singleton, List.mem_map,
        List.not_mem_nil, false_or] at h
    · rcases h with rfl | ⟨r, _, rfl⟩ <;> simp [weight]
    · obtain ⟨r, _, rfl⟩ := h
      simp [weight]
  | simpleCommand s =>
    obtain ⟨w, _, rfl⟩ := List.mem_map.1 h
    simp [weight]
  | redirection r =>
    simp only [children, List.mem_singleton] at h
    subst h
    simp [weight]

/-- The node and all nodes below it, each before its children. -/
def walk (n : Node) : List Node := n :: n.children.attach.flatMap fun ⟨c, _⟩ => c.walk
termination_by n.weight
decreasing_by exact weight_lt_of_mem_children ‹_›

theorem walk_eq (n : Node) : n.walk = n :: n.children.flatMap walk := by
  rw [walk]
  simp

end Node
end ShellGrammar
