import Flowline.Proofs.Session.Tokens

/-!
# The guard of a session

A session has one slot for a run. The flag, the installed token and the flights all tell what is in
it, and each event leaves them in agreement. A run leaves its slot as it ends. Tokens are numbered,
so a cancellation never reaches a run with a later token.
-/

namespace Flowline

namespace Session

/-! ## What is in the slot -/

/-- What the parts of a session tell about its slot. -/
structure Guarded (w : Workflow) (slot : Option Flight) (s : Session) : Prop where
  workflow : s.workflow = w
  flights : s.flights = slot.toList
  running : s.running = slot.isSome
  current : s.current = slot.map Flight.token
  under_way : ∀ f, slot = some f → f.execution.outcome = none
  issued : ∀ f, slot = some f → f.token < s.issued
  cancelled : ∀ token ∈ s.cancelled, token < s.issued

/-- The session behind the start of a run in an empty slot. -/
def started (s : Session) (d : Delays) : Session :=
  { s with
    running := true
    current := some s.issued
    issued := s.issued + 1
    log := []
    flights := [⟨s.issued, .start s.workflow d⟩] }

namespace Guarded

variable {w : Workflow} {slot : Option Flight} {f : Flight} {s : Session}

theorem new (w : Workflow) (issued : Nat) : Guarded w none { workflow := w, issued } :=
  ⟨rfl, rfl, rfl, rfl, nofun, nofun, nofun⟩

theorem append (h : s.Guarded w slot) (log : List Entry) : Guarded w slot { s with log } :=
  ⟨h.workflow, h.flights, h.running, h.current, h.under_way, h.issued, h.cancelled⟩

theorem alreadyRunning (h : s.Guarded w slot) :
    s.alreadyRunning = "workflow '" ++ w.name ++ "' is already running" := by
  rw [Session.alreadyRunning, h.workflow]

/-- A token belongs to no run in flight, or to the run in the slot. -/
theorem absent_or_self (h : s.Guarded w slot) (token : Nat) :
    s.flight? token = none ∨ ∃ f, slot = some f ∧ token = f.token := by
  unfold Session.flight?
  rw [h.flights]
  cases slot with
  | none => exact .inl rfl
  | some f =>
    by_cases htoken : token = f.token
    · exact .inr ⟨f, rfl, htoken⟩
    · left
      have hother : (f.token == token) = false := beq_eq_false_iff_ne.mpr (Ne.symm htoken)
      rw [Option.toList_some, List.find?_cons, hother]
      rfl

theorem flight?_self (h : s.Guarded w (some f)) : s.flight? f.token = some f := by
  unfold Session.flight?
  rw [h.flights, Option.toList_some, List.find?_cons, beq_self_eq_true]

theorem execute_of_busy (h : s.Guarded w (some f)) (d : Delays) : s.execute d = none := by
  rw [execute, h.running]
  rfl

theorem execute_of_idle (h : s.Guarded w none) (d : Delays) : s.execute d = some (s.started d) := by
  unfold Session.execute
  rw [h.running, h.flights]
  rfl

/-- A new run fills the slot. -/
theorem started (h : s.Guarded w none) (d : Delays) :
    (s.started d).Guarded w (some ⟨s.issued, .start w d⟩) := by
  obtain rfl := h.workflow
  refine ⟨rfl, rfl, rfl, rfl, ?_, ?_, ?_⟩
  · intro f hf
    obtain rfl := Option.some.inj hf
    rfl
  · intro f hf
    obtain rfl := Option.some.inj hf
    exact Nat.lt_succ_self _
  · intro token htoken
    exact Nat.lt_succ_of_lt (h.cancelled token htoken)

/-- The token of a new run has not been cancelled, whatever tokens have been. -/
theorem sameFrom_started (h : s.Guarded w none) (d : Delays) :
    (s.started d).SameFrom s.issued [] := by
  refine ⟨?_, Nat.le_succ _, ?_⟩
  · intro f hf
    obtain rfl := List.mem_singleton.mp hf
    exact Nat.le_refl _
  · intro token hissued
    have habsent : ¬token ∈ s.cancelled := by
      intro htoken
      exact Nat.not_lt_of_le hissued (h.cancelled token htoken)
    show false = s.cancelled.contains token
    rw [List.contains_eq_mem, decide_eq_false habsent]

theorem cancel (h : s.Guarded w slot) :
    s.cancel.1 = slot.isSome ∧ s.cancel.2.Guarded w slot := by
  cases slot with
  | none =>
    rw [cancel_of_none h.current]
    exact ⟨rfl, h⟩
  | some f =>
    rw [cancel_of_some h.current]
    refine ⟨rfl, { h with cancelled := ?_ }⟩
    intro token htoken
    rcases List.mem_cons.mp htoken with rfl | hearlier
    · exact h.issued f rfl
    · exact h.cancelled token hearlier

theorem release (h : s.Guarded w (some f)) : (s.release f.token).Guarded w none := by
  have hflights : (s.flights.filter fun g => g.token != f.token) = [] := by
    rw [h.flights, Option.toList_some, List.filter_cons, bne_self_eq_false]
    rfl
  exact ⟨h.workflow, hflights, rfl, rfl, nofun, nofun, h.cancelled⟩

/-- A run that has become something stays in the slot unless it has ended. -/
theorem settle (h : s.Guarded w (some f)) (e : Execution) :
    ∃ slot', (s.settle f.token e).Guarded w slot' ∧ (e.outcome.isSome = true ↔ slot' = none) := by
  unfold Session.settle
  cases houtcome : e.outcome with
  | some o => exact ⟨none, h.release, iff_of_true rfl rfl⟩
  | none =>
    refine ⟨some ⟨f.token, e⟩, { h with flights := ?_, under_way := ?_, issued := ?_ }, ?_⟩
    · show s.flights.map _ = _
      rw [h.flights, Option.toList_some, List.map_singleton, if_pos rfl]
      rfl
    · intro g hg
      obtain rfl := Option.some.inj hg
      exact houtcome
    · intro g hg
      obtain rfl := Option.some.inj hg
      exact h.issued f rfl
    · exact iff_of_false Bool.false_ne_true (Option.some_ne_none _)

/-! ## Events -/

theorem advance (h : s.Guarded w (some f)) (patient : Bool) (now : Nat) (time : String) :
    ∃ slot', (s.advance f.token patient now time).session.Guarded w slot' ∧
      ((s.advance f.token patient now time).outcome.isSome = true ↔ slot' = none) := by
  unfold Session.advance
  rw [h.flight?_self]
  simp only
  split
  · exact ⟨some f, h, iff_of_false Bool.false_ne_true (Option.some_ne_none f)⟩
  · exact (h.append _).settle _

theorem wake (h : s.Guarded w (some f)) :
    ∃ slot', (s.wake f.token).Guarded w slot' ∧ slot' ≠ none := by
  -- A run in the slot has no outcome yet, and waking up does not give it one.
  have hunder_way : f.execution.wake.outcome = none := h.under_way f rfl
  obtain ⟨slot', hslot', hended⟩ := h.settle f.execution.wake
  rw [hunder_way] at hended
  unfold Session.wake
  rw [h.flight?_self]
  exact ⟨slot', hslot', fun hnone => Bool.false_ne_true (hended.mpr hnone)⟩

theorem interrupt (h : s.Guarded w (some f)) :
    ∃ slot', (s.interrupt f.token).session.Guarded w slot' ∧
      ((s.interrupt f.token).outcome.isSome = true ↔ slot' = none) := by
  unfold Session.interrupt
  rw [h.flight?_self]
  simp only
  split
  · exact h.settle f.execution.stop
  · exact ⟨some f, h, iff_of_false Bool.false_ne_true (Option.some_ne_none f)⟩

theorem drop (h : s.Guarded w (some f)) :
    (s.drop f.token).1 = true ∧ (s.drop f.token).2.Guarded w none := by
  unfold Session.drop
  rw [h.flight?_self]
  exact ⟨rfl, h.release⟩

/-- Every event leaves the parts of a session in agreement, and tells of the end of a run just if
that has left its slot. -/
theorem respond (h : s.Guarded w slot) (e : Event) :
    ∃ slot', (s.respond e).2.Guarded w slot' ∧
      ((s.respond e).1.ended = true ↔ slot ≠ none ∧ slot' = none) := by
  have hsame : ¬(slot ≠ none ∧ slot = none) := fun hboth => hboth.1 hboth.2
  cases e with
  | execute d =>
    cases slot with
    | none =>
      rw [respond_accepted (h.execute_of_idle d)]
      exact ⟨_, h.started d, iff_of_false Bool.false_ne_true fun hboth => hboth.1 rfl⟩
    | some f =>
      rw [respond_refused (h.execute_of_busy d)]
      exact ⟨some f, h, iff_of_false Bool.false_ne_true hsame⟩
  | advance token patient now time =>
    rcases h.absent_or_self token with habsent | ⟨f, rfl, rfl⟩
    · rw [Session.respond, advance_of_absent habsent]
      exact ⟨slot, h, iff_of_false Bool.false_ne_true hsame⟩
    · obtain ⟨slot', hslot', hended⟩ := h.advance patient now time
      exact ⟨slot', hslot', hended.trans (and_iff_right (Option.some_ne_none f)).symm⟩
  | wake token =>
    rcases h.absent_or_self token with habsent | ⟨f, rfl, rfl⟩
    · rw [Session.respond, wake_of_absent habsent]
      exact ⟨slot, h, iff_of_false Bool.false_ne_true hsame⟩
    · obtain ⟨slot', hslot', hbusy⟩ := h.wake
      exact ⟨slot', hslot', iff_of_false Bool.false_ne_true fun hboth => hbusy hboth.2⟩
  | interrupt token =>
    rcases h.absent_or_self token with habsent | ⟨f, rfl, rfl⟩
    · rw [Session.respond, interrupt_of_absent habsent]
      exact ⟨slot, h, iff_of_false Bool.false_ne_true hsame⟩
    · obtain ⟨slot', hslot', hended⟩ := h.interrupt
      exact ⟨slot', hslot', hended.trans (and_iff_right (Option.some_ne_none f)).symm⟩
  | cancel => exact ⟨slot, h.cancel.2, iff_of_false Bool.false_ne_true hsame⟩
  | drop token =>
    rcases h.absent_or_self token with habsent | ⟨f, rfl, rfl⟩
    · rw [Session.respond, drop_of_absent habsent]
      exact ⟨slot, h, iff_of_false Bool.false_ne_true hsame⟩
    · obtain ⟨hdropped, hslot'⟩ := h.drop
      exact ⟨none, hslot', iff_of_true hdropped ⟨Option.some_ne_none f, rfl⟩⟩

/-! ## What the slot decides -/

theorem flights_eq_nil_iff (h : s.Guarded w slot) : s.flights = [] ↔ slot = none := by
  rw [h.flights]
  cases slot with
  | none => exact iff_of_true rfl rfl
  | some f => exact iff_of_false (List.cons_ne_nil f []) (Option.some_ne_none f)

theorem isSome_iff (h : s.Guarded w slot) : slot.isSome = true ↔ s.flights ≠ [] := by
  rw [ne_eq, h.flights_eq_nil_iff]
  cases slot with
  | none => exact iff_of_false Bool.false_ne_true fun hne => hne rfl
  | some f => exact iff_of_true rfl (Option.some_ne_none f)

theorem length_flights_le (h : s.Guarded w slot) : s.flights.length ≤ 1 := by
  rw [h.flights]
  cases slot with
  | none => exact Nat.zero_le 1
  | some f => exact Nat.le_refl 1

theorem ended_iff (h : s.Guarded w slot) (e : Event) :
    (s.respond e).1.ended = true ↔ s.flights ≠ [] ∧ (s.respond e).2.flights = [] := by
  obtain ⟨slot', hslot', hended⟩ := h.respond e
  rw [ne_eq, h.flights_eq_nil_iff, hslot'.flights_eq_nil_iff]
  exact hended

/-- A run that is refused leaves no trace in what follows. -/
theorem refuses (h : s.Guarded w (some f)) (d : Delays) (fs : List Event) :
    let refusal : Answer := .refused ("workflow '" ++ w.name ++ "' is already running")
    s.respond (.execute d) = (refusal, s) ∧
      s.answers (.execute d :: fs) = refusal :: s.answers fs ∧
      s.after (.execute d :: fs) = s.after fs := by
  intro refusal
  have hrespond : s.respond (.execute d) = (refusal, s) := by
    rw [respond_refused (h.execute_of_busy d), h.alreadyRunning]
  refine ⟨hrespond, ?_, ?_⟩
  · rw [answers, hrespond]
  · rw [Session.after, hrespond]

/-- A run that is accepted goes on as in a new session. -/
theorem accepts (h : s.Guarded w none) (d : Delays) (fs : List Event) :
    let fresh : Session := { workflow := w, issued := s.issued }
    s.answers (.execute d :: fs) = fresh.answers (.execute d :: fs) ∧
      s.after (.execute d :: fs) = { fresh.after (.execute d :: fs) with
        cancelled := (s.after (.execute d :: fs)).cancelled } := by
  intro fresh
  have hfresh : fresh.Guarded w none := .new w s.issued
  -- Behind the start, only the cancelled tokens are left of what was before.
  have hstarted : fresh.started d = (s.started d).withCancelled [] := by
    obtain rfl := h.workflow
    rfl
  obtain ⟨hanswers, cancelled', hafter⟩ := (h.sameFrom_started d).after fs
  have hrespond := respond_accepted (h.execute_of_idle d)
  have hrespond_fresh := respond_accepted (hfresh.execute_of_idle d)
  rw [hstarted] at hrespond_fresh
  constructor
  · rw [answers, answers, hrespond, hrespond_fresh, hanswers]
  · rw [Session.after, Session.after, hrespond, hrespond_fresh, hafter]
    rfl

end Guarded

theorem guarded_after (w : Workflow) (es : List Event) :
    ∃ slot, (after { workflow := w } es).Guarded w slot := by
  apply after_preserves (P := fun s => ∃ slot, s.Guarded w slot) ?_ ⟨none, .new w 0⟩
  intro s e ⟨slot, h⟩
  obtain ⟨slot', hslot', -⟩ := h.respond e
  exact ⟨slot', hslot'⟩

/-- Whatever has happened to a session, at most one run is in flight. The flag is set, a token is
installed and a cancellation finds something just if one is. While one is in flight, another is
refused, and what follows goes on as if it had not been tried. A run leaves its slot just as an
answer tells of its end; it can be given up at any time. In an empty slot a run is accepted, and it
goes on as in a new session, whatever has been cancelled before. A timeline does nothing else to
its session. -/
theorem guard_is_exclusive_and_released (w : Workflow) (es : List Event) :
    let s := after { workflow := w } es
    s.flights.length ≤ 1 ∧
      (s.running = true ↔ s.flights ≠ []) ∧
      (s.current.isSome = true ↔ s.flights ≠ []) ∧
      (s.cancel.1 = true ↔ s.flights ≠ []) ∧
      (∀ f ∈ s.flights, s.current = some f.token ∧
        (s.respond (.drop f.token)).1 = .dropped true ∧
        ∀ d fs,
          let refusal : Answer := .refused ("workflow '" ++ w.name ++ "' is already running")
          s.respond (.execute d) = (refusal, s) ∧
            s.answers (.execute d :: fs) = refusal :: s.answers fs ∧
            s.after (.execute d :: fs) = s.after fs) ∧
      (∀ e, (s.respond e).1.ended = true ↔ s.flights ≠ [] ∧ (s.respond e).2.flights = []) ∧
      (s.flights = [] → ∀ d,
        (s.respond (.execute d)).1 = .accepted ∧
        (s.respond (.execute d)).2.flights = [⟨s.issued, .start w d⟩] ∧
        ∀ fs,
          let fresh : Session := { workflow := w, issued := s.issued }
          s.answers (.execute d :: fs) = fresh.answers (.execute d :: fs) ∧
            s.after (.execute d :: fs) = { fresh.after (.execute d :: fs) with
              cancelled := (s.after (.execute d :: fs)).cancelled }) ∧
      ∀ t : Timeline, t.session = s →
        (∀ d t', t.start d = some t' → s.Reaches t'.session) ∧
          (∀ ms, s.Reaches (t.advance ms).2.session) ∧
          s.Reaches t.wait.2.session ∧
          s.Reaches t.drop.2.session ∧
          s.Reaches t.cancel.2.session := by
  intro s
  obtain ⟨slot, h⟩ : ∃ slot, s.Guarded w slot := guarded_after w es
  refine ⟨h.length_flights_le, ?_, ?_, ?_, ?_, h.ended_iff, ?_, ?_⟩
  · rw [h.running, h.isSome_iff]
  · rw [h.current, Option.isSome_map, h.isSome_iff]
  · rw [h.cancel.1, h.isSome_iff]
  · intro f hf
    rw [h.flights, Option.mem_toList] at hf
    obtain rfl : slot = some f := hf
    exact ⟨h.current, congrArg Answer.dropped h.drop.1, h.refuses⟩
  · intro hflights d
    obtain rfl := h.flights_eq_nil_iff.mp hflights
    rw [respond_accepted (h.execute_of_idle d)]
    exact ⟨rfl, (h.started d).flights, h.accepts d⟩
  · intro t ht
    rw [← ht]
    exact ⟨fun d t' => Timeline.reaches_start, fun ms => t.reaches_resume _, t.reaches_resume none,
      t.reaches_drop, t.reaches_cancel⟩

-- The run in flight refuses the second and sees its cancellation; the third does not.
example :
    let s := after { workflow := {} } [.execute {}, .advance 0 false 0 "", .advance 0 false 0 "",
      .cancel, .execute {}, .interrupt 0, .execute {}, .advance 1 false 0 ""]
    (s.running, s.current, s.cancelled, s.log.length) = (true, some 1, [0], 1) := by
  rfl

end Session

end Flowline
