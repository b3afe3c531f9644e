/-!
# SchemaCatalog.CommandLine.Arguments

The arguments of one command: options with and without a value, in short and long form, and
operands. The arguments are taken from left to right, up to the name of a command below this one.
Behind `--` there are only operands.

An option may stand once. A value that stands in an argument of its own is looked at when the next
argument of the same command is taken, or behind the command below it; everything else is looked at
right away.
-/

namespace SchemaCatalog.CommandLine

/-- Why arguments lead to no work: help is asked for, or they are wrong. -/
inductive Usage
  | help
  | wrong
  deriving DecidableEq, Repr

inductive OptionKind
  | flag
  | text
  /-- A path, which must not be empty. -/
  | path
  deriving DecidableEq, Repr

structure Opt where
  long : String
  short : Option Char := none
  kind : OptionKind := .flag
  deriving DecidableEq, Repr

/-- What a command takes. -/
structure Level where
  options : List Opt
  commands : List String := []
  operands : Bool := false
  deriving DecidableEq, Repr

/-- What was found among the arguments of a command. -/
structure Found where
  options : List (Opt × String) := []
  operands : List String := []
  deriving DecidableEq, Repr, Inhabited

namespace Found

def addOption (f : Found) (o : Opt) (value : String) : Found :=
  { f with options := f.options ++ [(o, value)] }

def addOperand (f : Found) (operand : String) : Found :=
  { f with operands := f.operands ++ [operand] }

/-- Does no option stand twice, and is no path empty? -/
def isRight (f : Found) : Bool :=
  (f.options.map (·.1.long)).Nodup && ! f.operands.contains "" &&
    ! f.options.any fun o => o.1.kind = .path && o.2 = ""

def value? (f : Found) (long : String) : Option String :=
  (f.options.find? (·.1.long = long)).map (·.2)

def has (f : Found) (long : String) : Bool := (f.value? long).isSome

end Found

/-- What an argument is by its form. -/
inductive Form
  | plain
  /-- The mark behind which there are only operands. -/
  | endOfOptions
  | long (name : String) (value : Option String)
  | short (name : Char) (rest : List Char)
  deriving DecidableEq, Repr

/-- The form of an argument. A single hyphen is no option. -/
def Form.of (argument : String) : Form :=
  match argument.toList with
  | ['-', '-'] => endOfOptions
  | '-' :: '-' :: cs =>
    match cs.dropWhile (· != '=') with
    | _ :: value => long (String.ofList (cs.takeWhile (· != '='))) (some (String.ofList value))
    | [] => long (String.ofList cs) none
  | '-' :: c :: rest => short c rest
  | _ => plain

/-- What an option does to a scan: it is complete, or its value has to follow. -/
inductive Reaction
  | done (found : Found)
  | awaiting (option : Opt)

namespace Level

def takeLong (l : Level) (f : Found) (name : String) (value : Option String) :
    Except Usage Reaction :=
  match l.options.find? (·.long = name), value with
  | some o, some v => if o.kind = .flag then .error .wrong else .ok (.done (f.addOption o v))
  | some o, none => .ok (if o.kind = .flag then .done (f.addOption o "") else .awaiting o)
  | none, none => .error (if name = "help" then .help else .wrong)
  | none, some _ => .error .wrong

/-- The reaction to an option in short form. What stands behind it, with or without an equals sign,
is its value. -/
def takeShort (l : Level) (f : Found) (name : Char) (rest : List Char) : Except Usage Reaction :=
  match l.options.find? (·.short = some name), rest with
  | some o, [] => .ok (.awaiting o)
  | some o, '=' :: value => .ok (.done (f.addOption o (String.ofList value)))
  | some o, value => .ok (.done (f.addOption o (String.ofList value)))
  | none, _ => .error (if name = 'h' then .help else .wrong)

def takeOption (l : Level) (f : Found) : Form → Except Usage Reaction
  | .long name value => l.takeLong f name value
  | .short name rest => l.takeShort f name rest
  | _ => .error .wrong

/-- Takes arguments from the left. The result is what was found, and, if the name of a command was
met, that name and the arguments behind it. -/
def scan (l : Level) (f : Found) : Option Opt → List String →
    Except Usage (Found × Option (String × List String))
  | some _, [] => .error .wrong
  | none, [] => .ok (f, none)
  | some o, argument :: rest =>
    if Form.of argument = .plain then scan l (f.addOption o argument) none rest
    else .error .wrong
  | none, argument :: rest =>
    if l.commands.contains argument then .ok (f, some (argument, rest))
    else if ! f.isRight then .error .wrong
    else match Form.of argument with
      | .plain => if l.operands then scan l (f.addOperand argument) none rest else .error .wrong
      | .endOfOptions =>
        if l.operands then .ok ({ f with operands := f.operands ++ rest }, none)
        else if rest.isEmpty then .ok (f, none)
        else .error .wrong
      | form => match l.takeOption f form with
        | .error u => .error u
        | .ok (.done f) => if f.isRight then scan l f none rest else .error .wrong
        | .ok (.awaiting o) => scan l f (some o) rest

end Level

end SchemaCatalog.CommandLine
