import Flowline.Command.Arguments
import Flowline.Endpoint
import Flowline.Run.Execution

/-!
# The command line as a program

A command is a description of what is read, written and printed, in order. It says nothing about
how a file is read: an environment answers that, either the one of the operating system or, in
`Program.within`, a given one.
-/

namespace Flowline.Command

/-- What a command does, step by step. -/
inductive Program where
  /-- Reads a file; the answer may be the words of an error. -/
  | read (path : String) (next : Except String String → Program)
  /-- Writes a file; the answer may be the words of an error. -/
  | write (path text : String) (next : Except String Unit → Program)
  /-- Asks for so many new identities. -/
  | identities (count : Nat) (next : (Nat → Uuid) → Program)
  /-- Asks for the time of day. -/
  | time (next : String → Program)
  /-- Waits. -/
  | sleep (ms : Nat) (next : Program)
  /-- Prints a text. -/
  | print (text : String) (next : Program)
  /-- Prints a text where errors are printed. -/
  | complain (text : String) (next : Program)
  /-- Ends with an exit code. -/
  | exit (code : Nat)

/-- What the world answers to a program. -/
structure Environment where
  read : String → Except String String
  write : String → String → Except String Unit
  identities : Nat → Uuid
  time : String

/-- What a program has done. -/
structure Effects where
  exit : Nat
  stdout : String := ""
  stderr : String := ""
  written : List (String × String) := []

namespace Program

/-- What a program does in an environment that stays as it is. -/
def within (env : Environment) : Program → Effects
  | read path next => (next (env.read path)).within env
  | write path text next =>
    let answer := env.write path text
    let effects := (next answer).within env
    match answer with
    | .ok _ => { effects with written := (path, text) :: effects.written }
    | .error _ => effects
  | identities _ next => (next env.identities).within env
  | time next => (next env.time).within env
  | sleep _ next => next.within env
  | print text next =>
    let effects := next.within env
    { effects with stdout := text ++ effects.stdout }
  | complain text next =>
    let effects := next.within env
    { effects with stderr := text ++ effects.stderr }
  | exit code => { exit := code }

end Program

/-! ## Failures -/

/-- Puts an indent in front of every line but the first. -/
def indentLines (indent : String) (text : String) : String :=
  String.ofList (text.toList.flatMap fun c => if c = '\n' then '\n' :: indent.toList else [c])

/-- The causes of a failure, numbered if there are several. -/
def causesText : List String → String
  | [] => ""
  | [cause] => "\n\nCaused by:\n    " ++ indentLines "    " cause
  | causes =>
    "\n\nCaused by:" ++ String.join (causes.mapIdx fun i cause =>
      "\n    " ++ toString i ++ ": " ++ indentLines "       " cause)

/-- Ends with a message and its causes. -/
def fail (message : String) (causes : List String) : Program :=
  .complain ("Error: " ++ message ++ causesText causes ++ "\n") (.exit 1)

/-- Ends with issues. -/
def failWith (issues : List Issue) : Program :=
  fail (Diagnostic.displayAll (issues.map Issue.diagnostic)) []

/-! ## Commands -/

/-- Prints issues, each with its weight. -/
def report (issues : List Issue) (next : Program) : Program :=
  issues.foldr
    (fun i p =>
      .complain
        ((if i.isWarning then "warning: " else "error: ") ++ i.diagnostic.display ++ "\n") p)
    next

/-- Reads a file that has to be there. -/
def readFile (file : String) (next : String → Program) : Program :=
  .read file fun
    | .ok text => next text
    | .error cause => fail ("failed to read " ++ file) [cause]

/-- Reads the workflow in a file. -/
def readWorkflow (file : String) (next : Workflow → Program) : Program :=
  readFile file fun text =>
    match Workflow.parse text with
    | .ok w => next w
    | .error i => failWith [i]

/-- Reads the configuration, or takes the default one. -/
def readConfig (file : Option String) (next : Config → Program) : Program :=
  match file with
  | none => next {}
  | some file =>
    .read file fun
      | .error cause =>
        fail "failed to load engine config" ["failed to read config file: " ++ cause, cause]
      | .ok text =>
        match Config.ofText text with
        | .ok c => next c
        | .error e =>
          fail "failed to load engine config" ["failed to parse config: " ++ e.message, e.message]

/-- The file that a graph is written to unless another is named. -/
def exportFile (w : Workflow) : String :=
  (if w.name = "" then "workflow" else w.name) ++ "-n8n.json"

/-- Lowers the workflow in a file. -/
def lower (c : Config) (file : String) (output : Option String)
    (toStdout allowDuplicateNames : Bool) : Program :=
  readWorkflow file fun w =>
    let policy := if allowDuplicateNames then .overwrite else c.lowering.onNameCollision
    let issues := w.validate c.limits policy
    report issues <|
      if Issue.anyFatal issues then fail (file ++ " has validation errors") []
      else
        .identities (w.stepCount + 1) fun ids =>
          match (w.lower policy ids).outcome with
          | .error issues => failWith issues
          | .ok g =>
            if toStdout then .print (g.toJson.pretty ++ "\n") (.exit 0)
            else
              let path := output.getD (exportFile w)
              .write path g.toJson.pretty fun
                | .error cause => fail ("failed to write " ++ path) [cause]
                | .ok _ =>
                  .complain
                    ("✓ Exported " ++ toString g.nodes.length ++ " nodes to " ++ path ++ "\n")
                    (.exit 0)

/-- The mark of a status in front of a line. -/
def mark : Status → String
  | .info => " "
  | .success => "+"
  | .error => "!"

/-- Takes the actions of a machine, printing lines with the time and sleeping in pauses. -/
def perform (fast : Bool) : Nat → Machine → Program
  | 0, _ => .exit 0
  | fuel + 1, m =>
    match m.next with
    | none => .exit 0
    | some (.say line, _, m) =>
      .time fun time =>
        .print ("[" ++ time ++ "] " ++ mark line.status ++ " " ++ line.message ++ "\n")
          (perform fast fuel m)
    | some (.pause ms, _, m) =>
      if fast then perform fast fuel m else .sleep ms (perform fast fuel m)

/-- Runs the workflow in a file. -/
def run (c : Config) (file : String) (fast : Bool) : Program :=
  readWorkflow file fun w =>
    let m := Machine.start w c.delays
    report w.lint (perform fast m.actionCount m)

/-- Prints the workflow in a generated text. -/
def extract (file : String) (prompt : Option String) : Program :=
  readFile file fun text =>
    match prompt with
    | some prompt => .print ((Workflow.generated text prompt).1.toJson.pretty ++ "\n") (.exit 0)
    | none =>
      match Workflow.extract text with
      | .ok w => .print (w.toJson.pretty ++ "\n") (.exit 0)
      | .error i => failWith [i]

/-- Tells what is wrong or questionable about the workflow in a file. -/
def check (c : Config) (file : String) : Program :=
  readWorkflow file fun w =>
    let issues := w.validate c.limits c.lowering.onNameCollision
    if issues = [] then
      .print ("✓ " ++ file ++ ": " ++ toString w.stepCount ++ " steps, depth " ++
        toString w.depth ++ "\n") (.exit 0)
    else
      report issues <|
        if Issue.anyFatal issues then fail (file ++ " has validation errors") [] else .exit 0

/-- Does what an invocation asks for. -/
def invoke (i : Invocation) : Program :=
  readConfig i.config fun c =>
    match i.task with
    | .lower file output toStdout allowDuplicateNames =>
      lower c file output toStdout allowDuplicateNames
    | .run file fast => run c file fast
    | .extract file prompt => extract file prompt
    | .check file => check c file

/-- How the command line is used. -/
def usage : String :=
  "Usage: flowc [-c FILE] [-v] COMMAND\n\n" ++
  "Commands:\n" ++
  "  lower FILE [-o FILE | --stdout] [--allow-duplicate-names]\n" ++
  "  run FILE [--fast]\n" ++
  "  extract FILE [-p PROMPT]\n" ++
  "  check FILE\n"

/-- The program of a command line. -/
def Program.ofArguments (args : List String) : Program :=
  match parseArguments args with
  | .ok i => invoke i
  | .error .usage => .complain usage (.exit 2)
  | .error .version => .print "flowc 0.1.0\n" (.exit 0)
  | .error .help => .print usage (.exit 0)

end Flowline.Command
