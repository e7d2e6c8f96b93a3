import Flowline.Command.Program
import Std.Time.Zoned

/-!
# The command line

Carries out a program in the operating system.
-/

namespace Flowline.Command

/-- The operating system's number of an error. It may come with its sign turned. -/
def errorNumber : IO.Error → Nat
  | .alreadyExists _ n _ | .otherError n _ | .resourceBusy n _ | .resourceVanished n _
  | .unsupportedOperation n _ | .hardwareFault n _ | .unsatisfiedConstraints n _
  | .illegalOperation n _ | .protocolError n _ | .timeExpired n _ | .interrupted _ n _
  | .noFileOrDirectory _ n _ | .invalidArgument _ n _ | .permissionDenied _ n _
  | .resourceExhausted _ n _ | .inappropriateType _ n _ | .noSuchThing _ n _ =>
    min n.toNat (4294967296 - n.toNat)
  | .unexpectedEof | .userError _ => 0

/-- What the errors met with files are called. -/
def errorNames : List (Nat × String) :=
  [(1, "Operation not permitted"), (2, "No such file or directory"), (5, "Input/output error"),
   (13, "Permission denied"), (20, "Not a directory"), (21, "Is a directory"),
   (22, "Invalid argument"), (24, "Too many open files"), (26, "Text file busy"),
   (27, "File too large"), (28, "No space left on device"), (30, "Read-only file system"),
   (36, "File name too long"), (40, "Too many levels of symbolic links")]

/-- The words of an error of the operating system. -/
def describe (e : IO.Error) : String :=
  match errorNames.lookup (errorNumber e) with
  | some name => s!"{name} (os error {errorNumber e})"
  | none => toString e

/-- Does something with a file, or gives the words of the error. -/
def attempt {α : Type} (path : String) (action : IO α) : IO (Except String α) := do
  if path.toList.contains '\x00' then
    return .error "file name contained an unexpected NUL byte"
  match ← action.toBaseIO with
  | .error e => return .error (describe e)
  | .ok x => return .ok x

/-- Reads a file as a text. -/
def readText (path : String) : IO (Except String String) := do
  match ← attempt path (IO.FS.readBinFile path) with
  | .error cause => return .error cause
  | .ok bytes =>
    match String.fromUTF8? bytes with
    | some text => return .ok text
    | none => return .error "stream did not contain valid UTF-8"

/-- Writes a text to a file. The text is flushed at once, so that a full device is noticed. -/
def writeText (path text : String) : IO (Except String Unit) :=
  attempt path do
    let file ← IO.FS.Handle.mk path .write
    file.putStr text
    file.flush

/-- A supply of so many random identities. -/
def randomIdentities (count : Nat) : IO (Nat → Uuid) := do
  let mut seeds : Array Nat := #[]
  for _ in [0:count] do
    let bytes ← IO.getRandomBytes 16
    seeds := seeds.push (bytes.foldl (fun n b => n * 256 + b.toNat) 0)
  let known := seeds
  return fun i => .ofSeed (known[i]?.getD i)

/-- Carries out a program, and gives its exit code. -/
def Program.perform : Program → IO UInt32
  | .read path next => do (next (← readText path)).perform
  | .write path text next => do (next (← writeText path text)).perform
  | .identities count next => do (next (← randomIdentities count)).perform
  | .time next => do
    let now ← Std.Time.PlainTime.now
    (next (timeOfDay now.toMilliseconds.val.toNat)).perform
  | .sleep ms next => do
    IO.sleep (min ms 4294967295).toUInt32
    next.perform
  | .print text next => do
    IO.print text
    (← IO.getStdout).flush
    next.perform
  | .complain text next => do
    IO.eprint text
    next.perform
  | .exit code => return code.toUInt32

end Flowline.Command

/-- Runs the command line. -/
def main (args : List String) : IO UInt32 := (Flowline.Command.Program.ofArguments args).perform
