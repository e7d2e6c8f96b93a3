import Flowline.Proofs.Session.History

/-!
# Cancelled tokens

A session asks whether a token has been cancelled for the tokens of its runs only, and tokens are
issued in order. So a session does not depend on the cancellation of tokens that come before those
of its runs.
-/

namespace Flowline

namespace Session

/-- The session with other cancelled tokens. -/
def withCancelled (s : Session) (cancelled : List Nat) : Session := { s with cancelled }

section WithCancelled

variable (s : Session) (cancelled : List Nat)

theorem execute_withCancelled (d : Delays) :
    (s.withCancelled cancelled).execute d =
      (s.execute d).map fun s' => s'.withCancelled cancelled := by
  unfold execute
  show (if s.running then none else _) = _
  split
  · rfl
  · rfl

theorem settle_withCancelled (token : Nat) (e : Execution) :
    (s.withCancelled cancelled).settle token e =
      (s.settle token e).withCancelled cancelled := by
  unfold settle
  split
  · rfl
  · rfl

theorem flight?_withCancelled (token : Nat) :
    (s.withCancelled cancelled).flight? token = s.flight? token := rfl

theorem wake_withCancelled (token : Nat) :
    (s.withCancelled cancelled).wake token = (s.wake token).withCancelled cancelled := by
  unfold wake
  rw [flight?_withCancelled]
  cases s.flight? token with
  | none => rfl
  | some f => exact settle_withCancelled s cancelled token _

theorem drop_withCancelled (token : Nat) :
    (s.withCancelled cancelled).drop token =
      ((s.drop token).1, (s.drop token).2.withCancelled cancelled) := by
  unfold drop
  rw [flight?_withCancelled]
  cases s.flight? token with
  | none => rfl
  | some f => rfl

end WithCancelled

/-- Other cancelled tokens that tell the same of the tokens from a number on, in a session whose
runs have no earlier ones. -/
structure SameFrom (first : Nat) (cancelled : List Nat) (s : Session) : Prop where
  flights : ∀ f ∈ s.flights, first ≤ f.token
  issued : first ≤ s.issued
  contains : ∀ token, first ≤ token → cancelled.contains token = s.cancelled.contains token

namespace SameFrom

variable {first : Nat} {cancelled : List Nat} {s : Session}

theorem contains_of_flight (h : s.SameFrom first cancelled) {token : Nat} {f : Flight}
    (hf : s.flight? token = some f) : cancelled.contains token = s.cancelled.contains token := by
  have htoken : (f.token == token) = true :=
    List.find?_some (p := fun g : Flight => g.token == token) hf
  have hmem := List.mem_of_find?_eq_some hf
  apply h.contains
  rw [← eq_of_beq htoken]
  exact h.flights f hmem

theorem append (h : s.SameFrom first cancelled) (log : List Entry) :
    SameFrom first cancelled { s with log } :=
  ⟨h.flights, h.issued, h.contains⟩

theorem release (h : s.SameFrom first cancelled) (token : Nat) :
    (s.release token).SameFrom first cancelled := by
  refine ⟨?_, h.issued, h.contains⟩
  intro f hf
  exact h.flights f (List.mem_filter.mp hf).1

theorem settle (h : s.SameFrom first cancelled) (token : Nat) (e : Execution) :
    (s.settle token e).SameFrom first cancelled := by
  unfold Session.settle
  split
  · exact h.release token
  · refine ⟨?_, h.issued, h.contains⟩
    intro f hf
    obtain ⟨g, hg, rfl⟩ := List.mem_map.mp hf
    have hfirst := h.flights g hg
    split
    · rename_i htoken
      rwa [htoken] at hfirst
    · exact hfirst

theorem execute {s' : Session} {d : Delays} (h : s.SameFrom first cancelled)
    (hexecute : s.execute d = some s') : s'.SameFrom first cancelled := by
  unfold Session.execute at hexecute
  split at hexecute
  · cases hexecute
  · obtain rfl := Option.some.inj hexecute
    refine ⟨?_, Nat.le_succ_of_le h.issued, h.contains⟩
    intro f hf
    rcases List.mem_append.mp hf with hearlier | hnew
    · exact h.flights f hearlier
    · rw [List.mem_singleton.mp hnew]
      exact h.issued

theorem advance (h : s.SameFrom first cancelled) (token : Nat) (patient : Bool) (now : Nat)
    (time : String) :
    let p := s.advance token patient now time
    (s.withCancelled cancelled).advance token patient now time =
        { p with session := p.session.withCancelled cancelled } ∧
      p.session.SameFrom first cancelled := by
  unfold Session.advance
  rw [flight?_withCancelled]
  cases hf : s.flight? token with
  | none => exact ⟨rfl, h⟩
  | some f =>
    -- Only here does a step ask for the cancelled tokens, and it asks for one in flight.
    have hcontains : (s.withCancelled cancelled).cancelled.contains token =
        s.cancelled.contains token := h.contains_of_flight hf
    simp only [hcontains]
    split
    · exact ⟨rfl, h⟩
    · constructor
      · rw [← settle_withCancelled]
        rfl
      · exact (h.append _).settle token _

theorem interrupt (h : s.SameFrom first cancelled) (token : Nat) :
    let p := s.interrupt token
    (s.withCancelled cancelled).interrupt token =
        { p with session := p.session.withCancelled cancelled } ∧
      p.session.SameFrom first cancelled := by
  unfold Session.interrupt
  rw [flight?_withCancelled]
  cases hf : s.flight? token with
  | none => exact ⟨rfl, h⟩
  | some f =>
    have hcontains : (s.withCancelled cancelled).cancelled.contains token =
        s.cancelled.contains token := h.contains_of_flight hf
    simp only [hcontains]
    split
    · constructor
      · rw [← settle_withCancelled]
      · exact h.settle token f.execution.stop
    · exact ⟨rfl, h⟩

theorem wake (h : s.SameFrom first cancelled) (token : Nat) :
    (s.wake token).SameFrom first cancelled := by
  unfold Session.wake
  cases s.flight? token with
  | none => exact h
  | some f => exact h.settle token _

theorem drop (h : s.SameFrom first cancelled) (token : Nat) :
    (s.drop token).2.SameFrom first cancelled := by
  unfold Session.drop
  cases s.flight? token with
  | none => exact h
  | some f => exact h.release token

/-- A session answers every event as with the other cancelled tokens. -/
theorem respond (h : s.SameFrom first cancelled) (e : Event) :
    ∃ cancelled', (s.respond e).2.SameFrom first cancelled' ∧
      (s.withCancelled cancelled).respond e =
        ((s.respond e).1, (s.respond e).2.withCancelled cancelled') := by
  cases e with
  | execute d =>
    have hother := execute_withCancelled s cancelled d
    refine ⟨cancelled, ?_⟩
    cases hexecute : s.execute d with
    | none =>
      rw [hexecute] at hother
      rw [respond_refused hexecute, respond_refused hother]
      exact ⟨h, rfl⟩
    | some s' =>
      rw [hexecute] at hother
      rw [respond_accepted hexecute, respond_accepted hother]
      exact ⟨h.execute hexecute, rfl⟩
  | advance token patient now time =>
    obtain ⟨hother, hsame⟩ := h.advance token patient now time
    refine ⟨cancelled, hsame, ?_⟩
    rw [Session.respond, hother]
    rfl
  | wake token =>
    refine ⟨cancelled, h.wake token, ?_⟩
    rw [Session.respond, wake_withCancelled]
    rfl
  | interrupt token =>
    obtain ⟨hother, hsame⟩ := h.interrupt token
    refine ⟨cancelled, hsame, ?_⟩
    rw [Session.respond, hother]
    rfl
  | cancel =>
    cases hcurrent : s.current with
    | none =>
      have hother : (s.withCancelled cancelled).current = none := hcurrent
      refine ⟨cancelled, ?_⟩
      rw [Session.respond, Session.respond, cancel_of_none hcurrent, cancel_of_none hother]
      exact ⟨h, rfl⟩
    | some token =>
      have hother : (s.withCancelled cancelled).current = some token := hcurrent
      -- The token is cancelled in both, whether or not it is an earlier one.
      refine ⟨token :: cancelled, ?_⟩
      rw [Session.respond, Session.respond, cancel_of_some hcurrent, cancel_of_some hother]
      refine ⟨⟨h.flights, h.issued, ?_⟩, rfl⟩
      intro token' hfirst
      rw [List.contains_cons, List.contains_cons, h.contains token' hfirst]
  | drop token =>
    refine ⟨cancelled, h.drop token, ?_⟩
    rw [Session.respond, drop_withCancelled]
    rfl

/-- A session goes through every history as with the other cancelled tokens. -/
theorem after (h : s.SameFrom first cancelled) (es : List Event) :
    (s.withCancelled cancelled).answers es = s.answers es ∧
      ∃ cancelled', (s.withCancelled cancelled).after es =
        (s.after es).withCancelled cancelled' := by
  induction es generalizing s cancelled with
  | nil => exact ⟨rfl, cancelled, rfl⟩
  | cons e es ih =>
    obtain ⟨cancelled', hsame, hrespond⟩ := h.respond e
    obtain ⟨hanswers, hafter⟩ := ih hsame
    rw [answers, Session.after, hrespond, hanswers]
    exact ⟨rfl, hafter⟩

end SameFrom

end Session

end Flowline
