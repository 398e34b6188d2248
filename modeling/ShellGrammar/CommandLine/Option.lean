import ShellGrammar.CommandLine.Error
import ShellGrammar.Text.Digit

/-!
Telling options from operands among the arguments of the program, and options from their values.

An argument that begins with a hyphen is an option if it names one, alone or with a value attached;
a long name may be shortened as long as no other begins so. One that names no option is an operand
if it is the hyphen alone, looks like a negative number or holds a space. After `--` all arguments
are operands.
-/
namespace ShellGrammar.CommandLine

inductive Meaning
  | help
  | version
  | maxDepth
  | logFile
  | format
  deriving DecidableEq, Repr

/-- Short names have one hyphen and one character, long names two hyphens. -/
structure Opt where
  meaning : Meaning
  names : List String
  takesValue : Bool
  deriving DecidableEq, Repr

/-- An option may have text attached to its name; `text` is always the whole argument. -/
inductive Item
  | operand (text : String)
  | separator
  | option (o : Opt) (name : String) (attached : Option (List Char)) (text : String)
  | unknown (text : String)
  deriving DecidableEq, Repr

/-- An option with the value that belongs to it. -/
structure Use where
  option : Opt
  value : Option String
  deriving DecidableEq, Repr

/-- A value attached to an option that counts as given and yet stands for nothing. -/
def voidValue : String := "--"

/-- Arguments grouped by what they are for, each operand with the arguments that follow it. -/
inductive Segment
  | operand (text : String) (following : List String)
  | separator (following : List String)
  | uses (us : List Use)
  | stray (text : String)
  | misuse (e : UsageError)
  deriving DecidableEq, Repr

def Opt.display (o : Opt) : String := "/".intercalate o.names

def findOpt (opts : List Opt) (name : String) : Option Opt := opts.find? (·.names.contains name)

/-- The name and, after the first equals sign, the value. -/
def splitEquals (cs : List Char) : List Char × Option (List Char) :=
  match cs.dropWhile (· ≠ '=') with
  | [] => (cs, none)
  | _ :: value => (cs.takeWhile (· ≠ '='), some value)

/-- The options that an argument may stand for, by the beginning of a long name or by a short
one. -/
def candidates (opts : List Opt) (cs : List Char) : List (Opt × String × Option (List Char)) :=
  let named := opts.flatMap fun o => o.names.map fun name => (o, name)
  match cs with
  | '-' :: '-' :: _ =>
    let (start, value) := splitEquals cs
    (named.filter fun (_, name) => start.isPrefixOf name.toList).map fun (o, name) =>
      (o, name, value)
  | '-' :: c :: rest =>
    (named.filter fun (_, name) => name.toList = ['-', c]).map fun (o, name) =>
      (o, name, some rest)
  | _ => []

def isDigit (c : Char) : Bool := (Text.digitValue? c).isSome

/-- A hyphen, then digits or a fraction; a line feed may end the argument. -/
def looksNegative : List Char → Bool
  | '-' :: cs =>
    let body := if cs.getLast? = some '\n' then cs.dropLast else cs
    match body.dropWhile isDigit with
    | [] => !body.isEmpty
    | '.' :: fraction => !fraction.isEmpty && fraction.all isDigit
    | _ => false
  | _ => false

def Item.read (opts : List Opt) (arg : String) : Except UsageError Item :=
  match arg.toList with
  | '-' :: c :: cs =>
    let (name, value) := splitEquals ('-' :: c :: cs)
    match findOpt opts arg, value, findOpt opts (String.ofList name) with
    | some o, _, _ => .ok (.option o arg none arg)
    | none, some value, some o => .ok (.option o (String.ofList name) (some value) arg)
    | none, _, _ =>
      match candidates opts ('-' :: c :: cs) with
      | [(o, name, attached)] => .ok (.option o name attached arg)
      | [] =>
        if looksNegative ('-' :: c :: cs) || cs.contains ' ' || c == ' ' then .ok (.operand arg)
        else .ok (.unknown arg)
      | several => .error (.ambiguous arg (several.map fun (_, name, _) => name))
  | _ => .ok (.operand arg)

def Item.readAll (opts : List Opt) : List String → Except UsageError (List Item)
  | [] => .ok []
  | arg :: args =>
    if arg = "--" then .ok (.separator :: args.map .operand)
    else do
      let item ← Item.read opts arg
      let items ← readAll opts args
      return item :: items

def Item.text : Item → String
  | operand text => text
  | separator => "--"
  | option _ _ _ text => text
  | unknown text => text

/--
The options in one argument, `text` being attached to the name of `o`. An option that takes no value
and is given by its short name may be followed by further short names, and by nothing else.
-/
def unbundle (opts : List Opt) (o : Opt) (short : Bool) (text : List Char) :
    Except UsageError (List Use) :=
  if o.takesValue then .ok [⟨o, some (String.ofList text)⟩]
  else
    match short, text with
    | true, c :: rest =>
      match findOpt opts (String.ofList ['-', c]), rest with
      | none, _ => .error (.valueIgnored o.display (String.ofList text))
      | some next, [] => .ok [⟨o, none⟩, ⟨next, none⟩]
      | some next, d :: more => do
        let us ← unbundle opts next true (d :: more)
        return ⟨o, none⟩ :: us
    | _, _ => .error (.valueIgnored o.display (String.ofList text))

def Item.uses (opts : List Opt) (o : Opt) (name : String) :
    Option (List Char) → Except UsageError (List Use)
  | none => .ok [⟨o, none⟩]
  | some text => unbundle opts o (!"--".toList.isPrefixOf name.toList) text

/-- The last of the options, if it still lacks its value. -/
def waiting (us : List Use) : Option Opt :=
  us.getLast?.bind fun u => if u.option.takesValue && u.value.isNone then some u.option else none

def Segment.ofItems (opts : List Opt) : List Item → List Segment
  | [] => []
  | .operand text :: items => operand text (items.map Item.text) :: ofItems opts items
  | .separator :: items => separator (items.map Item.text) :: ofItems opts items
  | .unknown text :: items => stray text :: ofItems opts items
  | .option o name attached _ :: items =>
    match Item.uses opts o name attached with
    | .error e => [misuse e]
    | .ok us =>
      match waiting us with
      | none => uses us :: ofItems opts items
      | some last =>
        match items with
        | .operand value :: items =>
          uses (us.dropLast ++ [⟨last, some value⟩]) :: ofItems opts items
        | _ => [misuse (.valueMissing last.display)]

end ShellGrammar.CommandLine
