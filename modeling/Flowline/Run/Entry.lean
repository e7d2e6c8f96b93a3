import Flowline.Json.Shape

/-!
# Log entries

A run appends entries to a log: a message, its status, and the time of day at which it was
appended.
-/

namespace Flowline

/-- What kind of message an entry holds. -/
inductive Status where
  | info
  | success
  | error
  deriving DecidableEq, Repr

namespace Status

/-- The name of a status. -/
def name : Status → String
  | info => "info"
  | success => "success"
  | error => "error"

/-- The statuses by name. -/
def named : List (String × Status) := [info, success, error].map fun s => (s.name, s)

end Status

/-- An entry of a log. -/
structure Entry where
  message : String
  status : Status
  time : String
  deriving DecidableEq, Repr

namespace Entry

/-- The value that an entry is written as. -/
def toJson (e : Entry) : Json :=
  .object [("message", .string e.message), ("status", .string e.status.name),
    ("time", .string e.time)]

/-- An entry as a record. -/
def record : Json.Record Entry where
  name := "struct LogEntry"
  blank := ⟨"", .info, ""⟩
  fields := [
    .of "message" .required (.string "a string") fun e x => { e with message := x },
    .of "status" .required (.variant Status.named) fun e x => { e with status := x },
    .of "time" .required (.string "a string") fun e x => { e with time := x }]

end Entry

/-- A number with two digits. -/
def twoDigits (n : Nat) : List Char := [Nat.digitChar (n / 10 % 10), Nat.digitChar (n % 10)]

/-- The time of day so many milliseconds after a midnight, in hours, minutes and seconds. -/
def timeOfDay (ms : Nat) : String :=
  let seconds := ms / 1000
  String.ofList (twoDigits (seconds / 3600 % 24) ++ ':' ::
    (twoDigits (seconds / 60 % 60) ++ ':' :: twoDigits (seconds % 60)))

end Flowline
