/-!
# Command-line arguments

What the arguments of the command line ask for. An option stands in front of or behind the name of
its command, is given at most once at each of these places, and takes its value from the same
argument or from the next one. Behind a double hyphen everything is an operand, and a command has
one operand, its file. Arguments are read from the left, and the first that makes no sense or asks
for help decides.
-/

namespace Flowline.Command

/-- What is to be done. -/
inductive Task where
  | lower (file : String) (output : Option String) (toStdout allowDuplicateNames : Bool)
  | run (file : String) (fast : Bool)
  | extract (file : String) (prompt : Option String)
  | check (file : String)
  deriving DecidableEq, Repr

/-- A task with the configuration file to be used. -/
structure Invocation where
  config : Option String
  verbose : Bool
  task : Task
  deriving DecidableEq, Repr

/-- Why there is nothing to be done. -/
inductive Halt where
  /-- The arguments make no sense. -/
  | usage
  /-- The version was asked for. -/
  | version
  /-- Help was asked for. -/
  | help
  deriving DecidableEq, Repr

/-- The options. -/
inductive OptionName where
  | config
  | verbose
  | version
  | help
  | output
  | stdout
  | allowDuplicateNames
  | fast
  | prompt
  deriving DecidableEq, Repr

namespace OptionName

/-- The long form. -/
def long : OptionName → String
  | config => "config"
  | verbose => "verbose"
  | version => "version"
  | help => "help"
  | output => "output"
  | stdout => "stdout"
  | allowDuplicateNames => "allow-duplicate-names"
  | fast => "fast"
  | prompt => "prompt"

/-- The short form, if there is one. -/
def short? : OptionName → Option Char
  | config => some 'c'
  | verbose => some 'v'
  | version => some 'V'
  | help => some 'h'
  | output => some 'o'
  | prompt => some 'p'
  | _ => none

/-- Whether an option has a value. -/
def takesValue : OptionName → Bool
  | config => true
  | output => true
  | prompt => true
  | _ => false

/-- Whether the value is a path, which is never empty. -/
def isPath : OptionName → Bool
  | config => true
  | output => true
  | _ => false

end OptionName

/-- What has been read so far: options with their values, the operand, an option that waits for its
value, and whether a double hyphen was seen. -/
structure Scan where
  options : List (OptionName × String) := []
  operand : Option String := none
  waiting : Option OptionName := none
  literal : Bool := false

namespace Scan

/-- Whether an option was given. -/
def has (s : Scan) (o : OptionName) : Bool := (s.options.lookup o).isSome

/-- The value of an option. -/
def value? (s : Scan) (o : OptionName) : Option String := s.options.lookup o

/-- Adds an option, which ends the reading if it asks for help or the version. -/
def add (s : Scan) (o : OptionName) (value : String) : Except Halt Scan :=
  if o = .version then .error .version
  else if o = .help then .error .help
  else if s.has o then .error .usage
  else if o.isPath ∧ value = "" then .error .usage
  else .ok { s with options := (o, value) :: s.options, waiting := none }

/-- Takes an operand, which is a path. There is no place for a second one. -/
def take (s : Scan) (arg : String) : Except Halt Scan :=
  if s.operand.isSome ∨ arg = "" then .error .usage
  else .ok { s with operand := some arg }

/-- Reads an option in its long form, from behind the hyphens. -/
def long (known : List OptionName) (s : Scan) (arg : List Char) : Except Halt Scan :=
  let name := arg.takeWhile (· ≠ '=')
  match known.find? fun o => o.long == String.ofList name with
  | none => .error .usage
  | some o =>
    match arg.drop name.length with
    | [] => if o.takesValue then .ok { s with waiting := some o } else s.add o ""
    | _ :: value => if o.takesValue then s.add o (String.ofList value) else .error .usage

/-- Reads options in their short form, from behind the hyphen. The first that has a value takes
the rest. -/
def short (known : List OptionName) (s : Scan) : List Char → Except Halt Scan
  | [] => .ok s
  | c :: cs =>
    match known.find? fun o => o.short? == some c with
    | none => .error .usage
    | some o =>
      if o.takesValue then
        match cs with
        | [] => .ok { s with waiting := some o }
        | '=' :: value => s.add o (String.ofList value)
        | value => s.add o (String.ofList value)
      else do
        let s ← s.add o ""
        short known s cs

/-- Reads arguments. In front of the name of a command, `command` is set, and the first operand
ends the reading: it is the name, and the arguments behind it are left. -/
def read (known : List OptionName) (command : Bool) :
    Scan → List String → Except Halt (Scan × List String)
  | s, [] => if s.waiting.isSome then .error .usage else .ok (s, [])
  | s, arg :: args =>
    match s.waiting, arg.toList with
    | some o, cs =>
      match cs with
      | '-' :: _ :: _ => .error .usage
      | _ => do
        let s ← s.add o arg
        read known command s args
    | none, cs =>
      if s.literal then
        if command then .error .usage
        else do
          let s ← s.take arg
          read known command s args
      else
        match cs with
        | ['-', '-'] => read known command { s with literal := true } args
        | '-' :: '-' :: name => do
          let s ← s.long known name
          read known command s args
        | '-' :: c :: rest => do
          let s ← s.short known (c :: rest)
          read known command s args
        | _ =>
          if command then .ok (s, arg :: args)
          else do
            let s ← s.take arg
            read known command s args

end Scan

/-- The options that may stand in front of a command. -/
def commonOptions : List OptionName := [.config, .verbose, .help]

/-- The options of each command. -/
def optionsOf : String → Option (List OptionName)
  | "lower" => some [.output, .stdout, .allowDuplicateNames]
  | "run" => some [.fast]
  | "extract" => some [.prompt]
  | "check" => some []
  | _ => none

/-- The task of a command with its options and its file. -/
def task (command file : String) (s : Scan) : Except Halt Task :=
  match command with
  | "lower" =>
    if s.has .stdout ∧ s.has .output then .error .usage
    else .ok (.lower file (s.value? .output) (s.has .stdout) (s.has .allowDuplicateNames))
  | "run" => .ok (.run file (s.has .fast))
  | "extract" => .ok (.extract file (s.value? .prompt))
  | _ => .ok (.check file)

/-- What the arguments behind the word for help ask for: help, in general or for a command. -/
def helpFor : List String → Halt
  | [] => .help
  | [command] => if command = "help" ∨ (optionsOf command).isSome then .help else .usage
  | _ => .usage

/-- What the arguments ask for. -/
def parseArguments (args : List String) : Except Halt Invocation := do
  let (before, rest) ← Scan.read (.version :: commonOptions) true {} args
  match rest with
  | [] => .error .usage
  | command :: args =>
    match optionsOf command with
    | none => .error (if command = "help" then helpFor args else .usage)
    | some own =>
      let (behind, _) ← Scan.read (commonOptions ++ own) false {} args
      match behind.operand with
      | none => .error .usage
      | some file =>
        let task ← task command file behind
        .ok {
          config := behind.value? .config <|> before.value? .config
          verbose := before.has .verbose || behind.has .verbose
          task }

end Flowline.Command
