import Flowline.Run.Execution

/-!
# Sessions

A session belongs to one workflow and lets one run at a time append to its log. Executing takes a
guard and hands out a token; the guard is released when the run ends, however it ends. A token
that has been cancelled stays so, and each run gets a new one.
-/

namespace Flowline

/-- A run in flight, with the token it was given. -/
structure Flight where
  token : Nat
  execution : Execution

/-- A session. -/
structure Session where
  workflow : Workflow
  log : List Entry := []
  running : Bool := false
  current : Option Nat := none
  issued : Nat := 0
  cancelled : List Nat := []
  flights : List Flight := []

namespace Session

/-- What is said when a run is refused. -/
def alreadyRunning (s : Session) : String :=
  "workflow '" ++ s.workflow.name ++ "' is already running"

/-- Cancels the run in flight, and tells whether there is one. -/
def cancel (s : Session) : Bool × Session :=
  match s.current with
  | some token => (true, { s with cancelled := token :: s.cancelled })
  | none => (false, s)

/-- Puts a new run in flight in front of an empty log, unless one is running. -/
def execute (s : Session) (d : Delays) : Option Session :=
  if s.running then none
  else some { s with
    running := true
    current := some s.issued
    issued := s.issued + 1
    log := []
    flights := s.flights ++ [⟨s.issued, .start s.workflow d⟩] }

/-- The run in flight with a token. -/
def flight? (s : Session) (token : Nat) : Option Flight :=
  s.flights.find? fun f => f.token == token

/-- Takes a run out of flight and releases the guard. -/
def release (s : Session) (token : Nat) : Session :=
  { s with
    running := false
    current := none
    flights := s.flights.filter fun f => f.token != token }

/-- Keeps what a run has become, and takes it out of flight if it has ended. -/
def settle (s : Session) (token : Nat) (e : Execution) : Session :=
  if e.outcome.isSome then s.release token
  else { s with flights := s.flights.map fun f => if f.token = token then ⟨token, e⟩ else f }

/-- What an operation on a run gives: the session behind it, the outcome if the run has ended, and
what was noticed. -/
structure Progress where
  session : Session
  outcome : Option Outcome := none
  notices : List Notice := []

/-- Lets a run that does not sleep take its next action. Its line is stamped with a time. -/
def advance (s : Session) (token : Nat) (patient : Bool) (now : Nat) (time : String) : Progress :=
  match s.flight? token with
  | none => { session := s }
  | some f =>
    if f.execution.deadline.isSome then { session := s }
    else
      let (e, line, notices) := f.execution.step (s.cancelled.contains token) patient now
      { session :=
          { s with log := s.log ++ (line.map fun (l : Line) => l.entry time).toList }.settle token e
        outcome := e.outcome
        notices }

/-- Ends the sleep of a run. -/
def wake (s : Session) (token : Nat) : Session :=
  match s.flight? token with
  | none => s
  | some f => s.settle token f.execution.wake

/-- Lets a sleeping run see that it has been cancelled. -/
def interrupt (s : Session) (token : Nat) : Progress :=
  match s.flight? token with
  | none => { session := s }
  | some f =>
    if f.execution.deadline.isSome && s.cancelled.contains token then
      { session := s.settle token f.execution.stop, outcome := f.execution.stop.outcome }
    else { session := s }

/-- Gives up a run, and tells whether there was one. What it has logged stays. -/
def drop (s : Session) (token : Nat) : Bool × Session :=
  match s.flight? token with
  | none => (false, s)
  | some _ => (true, s.release token)

end Session

/-- A session on a clock that stands still unless it is moved. -/
structure Timeline where
  session : Session
  origin : Nat := 0
  clock : Nat := 0
  notices : List Notice := []

namespace Timeline

/-- Lets a run go on until it sleeps or has ended. -/
def proceed (token : Nat) : Nat → Timeline → Option Outcome × Timeline
  | 0, t => (none, t)
  | fuel + 1, t =>
    match t.session.flight? token with
    | none => (none, t)
    | some f =>
      if f.execution.deadline.isSome then (none, t)
      else
        let p := t.session.advance token false t.clock (timeOfDay (t.origin + t.clock))
        let t := { t with session := p.session, notices := t.notices ++ p.notices }
        if p.outcome.isSome then (p.outcome, t) else proceed token fuel t

/-- Executes the workflow and lets it run to its first sleep, unless it is refused. -/
def start (t : Timeline) (d : Delays) : Option Timeline :=
  match t.session.execute d with
  | none => none
  | some s =>
    let actions :=
      ((s.flight? t.session.issued).map fun f => f.execution.machine.actionCount).getD 0
    some (proceed t.session.issued (actions + 1) { t with session := s }).2

/-- Ends the sleeps of a run in order while their deadlines are not behind a bound. -/
def pass (token : Nat) (bound : Option Nat) : Nat → Timeline → Option Outcome × Timeline
  | 0, t => (none, t)
  | fuel + 1, t =>
    match t.session.flight? token with
    | none => (none, t)
    | some f =>
      match f.execution.deadline with
      | none => (none, t)
      | some deadline =>
        if bound.all fun b => deadline ≤ b then
          let t := { t with session := t.session.wake token, clock := deadline }
          let (outcome, t) := proceed token (f.execution.machine.actionCount + 1) t
          if outcome.isSome then (outcome, t) else pass token bound fuel t
        else (none, t)

/-- Lets time pass for the run in flight, up to a bound if there is one: it sees a cancellation
first, and then the ends of its sleeps. -/
def resume (t : Timeline) (bound : Option Nat) : Option Outcome × Timeline :=
  match t.session.flights with
  | [] => (none, t)
  | f :: _ =>
    let p := t.session.interrupt f.token
    if p.outcome.isSome then (p.outcome, { t with session := p.session })
    else pass f.token bound (f.execution.machine.actionCount + 1) t

/-- Lets so many milliseconds pass. -/
def advance (t : Timeline) (ms : Nat) : Option Outcome × Timeline :=
  let (outcome, after) := t.resume (some (t.clock + ms))
  (outcome, { after with clock := t.clock + ms })

/-- Lets time pass until the run in flight has ended. -/
def wait (t : Timeline) : Option Outcome × Timeline := t.resume none

/-- Gives up the run in flight. -/
def drop (t : Timeline) : Bool × Timeline :=
  match t.session.flights with
  | [] => (false, t)
  | f :: _ =>
    let (dropped, s) := t.session.drop f.token
    (dropped, { t with session := s })

/-- Cancels the run in flight. -/
def cancel (t : Timeline) : Bool × Timeline :=
  let (cancelled, s) := t.session.cancel
  (cancelled, { t with session := s })

end Timeline

end Flowline
