import Flowline.Session

/-!
# Histories of a session

What happens to a session is a list of events in any order: a run is started, a run in flight takes
a step, sees the end of its sleep or its cancellation, the session is cancelled, a run is given up.
A timeline lets a session pass through such histories only.
-/

namespace Flowline

namespace Session

/-- What can happen to a session. -/
inductive Event where
  | execute (d : Delays)
  | advance (token : Nat) (patient : Bool) (now : Nat) (time : String)
  | wake (token : Nat)
  | interrupt (token : Nat)
  | cancel
  | drop (token : Nat)

/-- What is answered to an event. -/
inductive Answer where
  | accepted
  | refused (message : String)
  | ran (outcome : Option Outcome) (notices : List Notice)
  | cancelled (found : Bool)
  | dropped (found : Bool)

/-- Whether an answer tells of the end of a run, which has ended by itself or has been given up. -/
def Answer.ended : Answer → Bool
  | .ran outcome _ => outcome.isSome
  | .dropped found => found
  | _ => false

/-- The answer to an event, and the session behind it. -/
def respond (s : Session) : Event → Answer × Session
  | .execute d =>
    match s.execute d with
    | some s' => (.accepted, s')
    | none => (.refused s.alreadyRunning, s)
  | .advance token patient now time =>
    let p := s.advance token patient now time
    (.ran p.outcome p.notices, p.session)
  | .wake token => (.ran none [], s.wake token)
  | .interrupt token =>
    let p := s.interrupt token
    (.ran p.outcome p.notices, p.session)
  | .cancel => (.cancelled s.cancel.1, s.cancel.2)
  | .drop token => (.dropped (s.drop token).1, (s.drop token).2)

/-- The session behind a list of events. -/
def after (s : Session) : List Event → Session
  | [] => s
  | e :: es => after (s.respond e).2 es

/-- The answers to a list of events. -/
def answers (s : Session) : List Event → List Answer
  | [] => []
  | e :: es => (s.respond e).1 :: answers (s.respond e).2 es

theorem respond_accepted {s s' : Session} {d : Delays} (h : s.execute d = some s') :
    s.respond (.execute d) = (.accepted, s') := by
  rw [respond, h]

theorem respond_refused {s : Session} {d : Delays} (h : s.execute d = none) :
    s.respond (.execute d) = (.refused s.alreadyRunning, s) := by
  rw [respond, h]

theorem cancel_of_none {s : Session} (h : s.current = none) : s.cancel = (false, s) := by
  rw [cancel, h]

theorem cancel_of_some {s : Session} {token : Nat} (h : s.current = some token) :
    s.cancel = (true, { s with cancelled := token :: s.cancelled }) := by
  unfold cancel
  rw [h]

theorem after_append (s : Session) (es fs : List Event) :
    s.after (es ++ fs) = (s.after es).after fs := by
  induction es generalizing s with
  | nil => rfl
  | cons e es ih => exact ih _

/-- What every event keeps, every history keeps. -/
theorem after_preserves {P : Session → Prop} (hrespond : ∀ s e, P s → P (s.respond e).2)
    {s : Session} (h : P s) (es : List Event) : P (s.after es) := by
  induction es generalizing s with
  | nil => exact h
  | cons e es ih => exact ih (hrespond s e h)

/-! ## Events that find no run -/

section Absent

variable {s : Session} {token : Nat}

theorem advance_of_absent (h : s.flight? token = none) (patient : Bool) (now : Nat)
    (time : String) : s.advance token patient now time = { session := s } := by
  rw [advance, h]

theorem wake_of_absent (h : s.flight? token = none) : s.wake token = s := by
  rw [wake, h]

theorem interrupt_of_absent (h : s.flight? token = none) :
    s.interrupt token = { session := s } := by
  rw [interrupt, h]

theorem drop_of_absent (h : s.flight? token = none) : s.drop token = (false, s) := by
  rw [drop, h]

end Absent

/-! ## Reachability -/

/-- Some history leads from a session to another. -/
def Reaches (s s' : Session) : Prop := ∃ es, s' = s.after es

theorem Reaches.refl (s : Session) : s.Reaches s := ⟨[], rfl⟩

theorem Reaches.respond (s : Session) (e : Event) : s.Reaches (s.respond e).2 := ⟨[e], rfl⟩

theorem Reaches.trans {s s' s'' : Session} (h : s.Reaches s') (h' : s'.Reaches s'') :
    s.Reaches s'' := by
  obtain ⟨es, rfl⟩ := h
  obtain ⟨fs, rfl⟩ := h'
  exact ⟨es ++ fs, (after_append s es fs).symm⟩

theorem Reaches.execute {s s' : Session} {d : Delays} (h : s.execute d = some s') :
    s.Reaches s' := by
  have hrespond := Reaches.respond s (.execute d)
  rwa [respond_accepted h] at hrespond

end Session

namespace Timeline

theorem reaches_proceed (token fuel : Nat) (t : Timeline) :
    t.session.Reaches (proceed token fuel t).2.session := by
  induction fuel generalizing t with
  | zero => exact .refl _
  | succ fuel ih =>
    have hadvance :=
      Session.Reaches.respond t.session
        (.advance token false t.clock (timeOfDay (t.origin + t.clock)))
    unfold proceed
    cases t.session.flight? token with
    | none => exact .refl _
    | some f =>
      simp only
      split
      · exact .refl _
      · split
        · exact hadvance
        · exact hadvance.trans (ih _)

theorem reaches_start {t t' : Timeline} {d : Delays} (h : t.start d = some t') :
    t.session.Reaches t'.session := by
  unfold start at h
  cases hexecute : t.session.execute d with
  | none =>
    rw [hexecute] at h
    cases h
  | some s =>
    rw [hexecute] at h
    obtain rfl := Option.some.inj h
    exact (Session.Reaches.execute hexecute).trans (reaches_proceed _ _ _)

theorem reaches_pass (token : Nat) (bound : Option Nat) (fuel : Nat) (t : Timeline) :
    t.session.Reaches (pass token bound fuel t).2.session := by
  induction fuel generalizing t with
  | zero => exact .refl _
  | succ fuel ih =>
    have hwake := Session.Reaches.respond t.session (.wake token)
    unfold pass
    cases t.session.flight? token with
    | none => exact .refl _
    | some f =>
      simp only
      cases f.execution.deadline with
      | none => exact .refl _
      | some deadline =>
        have hproceed (n : Nat) := hwake.trans
          (reaches_proceed token n { t with session := t.session.wake token, clock := deadline })
        simp only
        split
        · split
          · exact hproceed _
          · exact (hproceed _).trans (ih _)
        · exact .refl _

theorem reaches_resume (t : Timeline) (bound : Option Nat) :
    t.session.Reaches (t.resume bound).2.session := by
  unfold resume
  split
  · exact .refl _
  · simp only
    split
    · exact .respond t.session (.interrupt _)
    · exact reaches_pass _ _ _ t

theorem reaches_drop (t : Timeline) : t.session.Reaches t.drop.2.session := by
  unfold drop
  split
  · exact .refl _
  · exact .respond t.session (.drop _)

theorem reaches_cancel (t : Timeline) : t.session.Reaches t.cancel.2.session :=
  .respond t.session .cancel

end Timeline

end Flowline
