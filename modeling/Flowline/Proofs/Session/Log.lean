import Flowline.Proofs.Run.Truncation
import Flowline.Proofs.Session.Guard

/-!
# The log of a session

All runs of a session append to one log, which is emptied when a run is accepted. Only the run in
the slot appends, and it follows the script of the workflow, so the log never holds lines of two
runs: it is a prefix of the transcript, and between two accepted runs it only grows. The outcome of
a run tells how long its log is.
-/

namespace Flowline

theorem Outcome.emitted_ofCount (total said : Nat) : (ofCount total said).emitted = said := by
  unfold ofCount
  split <;> rfl

theorem Outcome.isCompleted_ofCount (total said : Nat) :
    (ofCount total said).isCompleted = true ↔ said = total := by
  unfold ofCount
  split
  · rename_i heq
    exact iff_of_true rfl heq
  · rename_i hne
    exact iff_of_false Bool.false_ne_true hne

namespace Session

/-- The outcome that an answer tells. -/
def Answer.outcome? : Answer → Option Outcome
  | .ran outcome _ => outcome
  | _ => none

/-- The lines that stand in the log. -/
def lines (s : Session) : List Line := s.log.map Entry.line

/-- What an outcome, if there is one, tells of the log: how long it is, and whether it is the whole
transcript. -/
def Tells (w : Workflow) (outcome : Option Outcome) (s : Session) : Prop :=
  ∀ o, outcome = some o →
    s.log.length = o.emitted ∧ (s.lines = w.transcript ↔ o.isCompleted = true)

theorem tells_none (w : Workflow) (s : Session) : Tells w none s := nofun

/-- A session whose parts agree on the slot, and whose log was written by one run, which is the one
in the slot if there is one. -/
structure Logged (w : Workflow) (s : Session) : Prop where
  guarded : ∃ slot, s.Guarded w slot
  transcript : s.lines <+: w.transcript
  follows : ∀ f ∈ s.flights, ∃ d, f.execution.Follows (w.script d) s.lines

/-- What an operation makes of a session: it appends at most, and an outcome tells of the log. -/
structure Grows (w : Workflow) (s s' : Session) (outcome : Option Outcome) : Prop where
  logged : s'.Logged w
  log : s.log <+: s'.log
  tells : Tells w outcome s'

theorem Logged.new (w : Workflow) : Logged w { workflow := w } :=
  ⟨⟨none, .new w 0⟩, List.nil_prefix, nofun⟩

theorem Logged.same {w : Workflow} {s : Session} (h : s.Logged w) : Grows w s s none :=
  ⟨h, List.prefix_refl s.log, tells_none w s⟩

/-- The outcome of a run that has written the log. -/
theorem tells_of_follows {w : Workflow} {d : Delays} {e : Execution} {s : Session}
    (h : e.Follows (w.script d) s.lines) : Tells w e.outcome s := by
  intro o ho
  obtain ⟨hbegins, hcount⟩ := h.ended o ho
  have hlength : s.lines.length = s.log.length := List.length_map _
  rw [Workflow.linesOf_script] at hbegins hcount
  constructor
  · rw [hcount, Outcome.emitted_ofCount, hlength]
  · rw [hcount, Outcome.isCompleted_ofCount]
    constructor
    · intro heq
      rw [heq]
    · intro heq
      exact hbegins.eq_of_length heq

/-! ## What a run does to the log -/

section Run

variable {w : Workflow} {s : Session} {f : Flight}

/-- A run that goes on stays the only one in flight, and one that has ended leaves no other. -/
theorem mem_flights_settle (h : s.Guarded w (some f)) (e : Execution) {g : Flight}
    (hg : g ∈ (s.settle f.token e).flights) : g = ⟨f.token, e⟩ := by
  unfold settle at hg
  split at hg
  · rw [h.release.flights] at hg
    cases hg
  · rw [h.flights, Option.toList_some, List.map_singleton, if_pos rfl] at hg
    exact List.mem_singleton.mp hg

theorem log_settle (s : Session) (token : Nat) (e : Execution) :
    (s.settle token e).log = s.log := by
  unfold settle
  split <;> rfl

/-- Settles a run that has followed its script up to the end of the log. -/
theorem logged_settle (h : s.Guarded w (some f)) {d : Delays} {e : Execution}
    (hfollows : e.Follows (w.script d) s.lines) : (s.settle f.token e).Logged w := by
  obtain ⟨slot, hslot, -⟩ := h.settle e
  have hlines : (s.settle f.token e).lines = s.lines :=
    congrArg (List.map Entry.line) (log_settle s f.token e)
  refine ⟨⟨slot, hslot⟩, ?_, ?_⟩
  · rw [hlines, ← Workflow.linesOf_script w d]
    exact hfollows.begins
  · intro g hg
    obtain rfl := mem_flights_settle h e hg
    rw [hlines]
    exact ⟨d, hfollows⟩

/-- A step of the run in the slot, which may append a line. -/
theorem grows_settle (hs : s.Logged w) (h : s.Guarded w (some f)) {cancelled : Bool}
    {e : Execution} {line : Option Line} (hstep : f.execution.Steps cancelled e line)
    (time : String) :
    Grows w s ({ s with log := s.log ++ (line.map fun (l : Line) => l.entry time).toList }.settle
      f.token e) e.outcome := by
  have hmem : f ∈ s.flights := by
    rw [h.flights]
    exact List.mem_singleton_self f
  obtain ⟨d, hfollows⟩ := hs.follows f hmem
  have hfollows' := hfollows.step hstep (w.endsInLine_script d) (h.under_way f rfl)
  have happended : (s.lines ++ line.toList) =
      lines { s with log := s.log ++ (line.map fun l => l.entry time).toList } :=
    (Trace.lines_append_entry s.log line time).symm
  rw [happended] at hfollows'
  refine ⟨logged_settle (h.append _) hfollows', ?_, ?_⟩
  · rw [log_settle]
    exact List.prefix_append _ _
  · intro o ho
    have htells := tells_of_follows hfollows' o ho
    unfold lines at htells ⊢
    rwa [log_settle]

/-- A step that appends nothing. -/
theorem grows_settle_quiet (hs : s.Logged w) (h : s.Guarded w (some f)) {cancelled : Bool}
    {e : Execution} (hstep : f.execution.Steps cancelled e none) :
    Grows w s (s.settle f.token e) e.outcome := by
  have hgrows := grows_settle hs h hstep ""
  rwa [show s.log ++ (Option.map _ none).toList = s.log from List.append_nil s.log] at hgrows

end Run

/-! ## Events -/

namespace Logged

variable {w : Workflow} {s : Session}

/-- The run in the slot has written the log. -/
theorem follows_slot {f : Flight} (h : s.Logged w) (hslot : s.Guarded w (some f)) :
    ∃ d, f.execution.Follows (w.script d) s.lines := by
  apply h.follows
  rw [hslot.flights]
  exact List.mem_singleton_self f

theorem advance (h : s.Logged w) (token : Nat) (patient : Bool) (now : Nat) (time : String) :
    Grows w s (s.advance token patient now time).session
      (s.advance token patient now time).outcome := by
  obtain ⟨slot, hslot⟩ := h.guarded
  rcases hslot.absent_or_self token with habsent | ⟨f, rfl, rfl⟩
  · rw [advance_of_absent habsent]
    exact h.same
  · unfold Session.advance
    rw [hslot.flight?_self]
    cases hdeadline : f.execution.deadline with
    | some deadline =>
      simp only [hdeadline, Option.isSome_some, if_true]
      exact h.same
    | none =>
      simp only [hdeadline, Option.isSome_none, Bool.false_eq_true, if_false]
      exact grows_settle h hslot (Execution.steps_step hdeadline _ patient now) time

theorem wake (h : s.Logged w) (token : Nat) : Grows w s (s.wake token) none := by
  obtain ⟨slot, hslot⟩ := h.guarded
  rcases hslot.absent_or_self token with habsent | ⟨f, rfl, rfl⟩
  · rw [wake_of_absent habsent]
    exact h.same
  · obtain ⟨d, hfollows⟩ := h.follows_slot hslot
    unfold Session.wake
    rw [hslot.flight?_self]
    refine ⟨logged_settle hslot hfollows.wake, ⟨[], ?_⟩, tells_none w _⟩
    rw [log_settle, List.append_nil]

theorem interrupt (h : s.Logged w) (token : Nat) :
    Grows w s (s.interrupt token).session (s.interrupt token).outcome := by
  obtain ⟨slot, hslot⟩ := h.guarded
  rcases hslot.absent_or_self token with habsent | ⟨f, rfl, rfl⟩
  · rw [interrupt_of_absent habsent]
    exact h.same
  · unfold Session.interrupt
    rw [hslot.flight?_self]
    simp only
    split
    · rename_i hasleep
      exact grows_settle_quiet h hslot (.interrupt (Bool.and_eq_true _ _ ▸ hasleep).1)
    · exact h.same

theorem drop (h : s.Logged w) (token : Nat) : Grows w s (s.drop token).2 none := by
  obtain ⟨slot, hslot⟩ := h.guarded
  rcases hslot.absent_or_self token with habsent | ⟨f, rfl, rfl⟩
  · rw [drop_of_absent habsent]
    exact h.same
  · have hrelease := hslot.release
    unfold Session.drop
    rw [hslot.flight?_self]
    refine ⟨⟨⟨none, hrelease⟩, h.transcript, ?_⟩, List.prefix_refl _, tells_none w _⟩
    intro g hg
    rw [hrelease.flights] at hg
    cases hg

theorem cancel (h : s.Logged w) : Grows w s s.cancel.2 none := by
  obtain ⟨slot, hslot⟩ := h.guarded
  have hcancel := hslot.cancel.2
  cases hcurrent : s.current with
  | none =>
    rw [cancel_of_none hcurrent]
    exact h.same
  | some token =>
    rw [cancel_of_some hcurrent] at hcancel ⊢
    exact ⟨⟨⟨slot, hcancel⟩, h.transcript, h.follows⟩, List.prefix_refl _, tells_none w _⟩

/-- A run that is accepted finds an empty log. -/
theorem started {d : Delays} (h : s.Guarded w none) : (s.started d).Logged w := by
  refine ⟨⟨_, h.started d⟩, List.nil_prefix, ?_⟩
  intro f hf
  rw [(h.started d).flights] at hf
  obtain rfl := List.mem_singleton.mp hf
  exact ⟨d, Execution.follows_start w d⟩

/-- A run is accepted, or the log grows at most, and an outcome tells of it. -/
theorem respond (h : s.Logged w) (e : Event) :
    ((s.respond e).1 = .accepted ∧ (s.respond e).2.Logged w) ∨
      Grows w s (s.respond e).2 (s.respond e).1.outcome? := by
  cases e with
  | execute d =>
    obtain ⟨slot, hslot⟩ := h.guarded
    cases slot with
    | none =>
      rw [respond_accepted (hslot.execute_of_idle d)]
      exact .inl ⟨rfl, started hslot⟩
    | some f =>
      rw [respond_refused (hslot.execute_of_busy d)]
      exact .inr h.same
  | advance token patient now time => exact .inr (h.advance token patient now time)
  | wake token => exact .inr (h.wake token)
  | interrupt token => exact .inr (h.interrupt token)
  | cancel => exact .inr h.cancel
  | drop token => exact .inr (h.drop token)

theorem respond_logged (h : s.Logged w) (e : Event) : (s.respond e).2.Logged w := by
  rcases h.respond e with ⟨-, haccepted⟩ | hgrows
  · exact haccepted
  · exact hgrows.logged

theorem respond_tells (h : s.Logged w) (e : Event) :
    Tells w (s.respond e).1.outcome? (s.respond e).2 := by
  rcases h.respond e with ⟨haccepted, -⟩ | hgrows
  · rw [haccepted]
    exact tells_none w _
  · exact hgrows.tells

/-- Until another run is accepted, the log only grows. -/
theorem after (h : s.Logged w) (fs : List Event) (hfs : .accepted ∉ s.answers fs) :
    s.log <+: (s.after fs).log := by
  induction fs generalizing s with
  | nil => exact List.prefix_refl s.log
  | cons e fs ih =>
    rw [answers, List.mem_cons, not_or] at hfs
    obtain ⟨hanswer, hrest⟩ := hfs
    rcases h.respond e with ⟨haccepted, -⟩ | hgrows
    · exact absurd haccepted.symm hanswer
    · exact hgrows.log.trans (ih hgrows.logged hrest)

end Logged

theorem logged_after (w : Workflow) (es : List Event) : (after { workflow := w } es).Logged w :=
  after_preserves (fun _ e h => h.respond_logged e) (.new w) es

end Session

namespace Timeline

open Session

/-! ## Timelines -/

variable {w : Workflow} {t : Timeline}

theorem logged_proceed (h : t.session.Logged w) (token fuel : Nat) :
    (proceed token fuel t).2.session.Logged w ∧
      Tells w (proceed token fuel t).1 (proceed token fuel t).2.session := by
  induction fuel generalizing t with
  | zero => exact ⟨h, tells_none w _⟩
  | succ fuel ih =>
    have hadvance := h.advance token false t.clock (timeOfDay (t.origin + t.clock))
    unfold proceed
    cases t.session.flight? token with
    | none => exact ⟨h, tells_none w _⟩
    | some f =>
      simp only
      split
      · exact ⟨h, tells_none w _⟩
      · split
        · exact ⟨hadvance.logged, hadvance.tells⟩
        · exact ih hadvance.logged

theorem logged_pass (h : t.session.Logged w) (token : Nat) (bound : Option Nat) (fuel : Nat) :
    (pass token bound fuel t).2.session.Logged w ∧
      Tells w (pass token bound fuel t).1 (pass token bound fuel t).2.session := by
  induction fuel generalizing t with
  | zero => exact ⟨h, tells_none w _⟩
  | succ fuel ih =>
    unfold pass
    cases t.session.flight? token with
    | none => exact ⟨h, tells_none w _⟩
    | some f =>
      simp only
      cases f.execution.deadline with
      | none => exact ⟨h, tells_none w _⟩
      | some deadline =>
        have hproceed (n : Nat) := logged_proceed
          (t := { t with session := t.session.wake token, clock := deadline })
          (h.wake token).logged token n
        simp only
        split
        · split
          · exact hproceed _
          · exact ih (hproceed _).1
        · exact ⟨h, tells_none w _⟩

theorem tells_resume (h : t.session.Logged w) (bound : Option Nat) :
    Tells w (t.resume bound).1 (t.resume bound).2.session := by
  unfold resume
  split
  · exact tells_none w _
  · simp only
    split
    · exact (h.interrupt _).tells
    · exact (logged_pass h _ _ _).2

end Timeline

namespace Session

/-- Whatever has happened to a session, its log is a prefix of the transcript of its workflow. Until
another run is accepted, the log only grows. When a run ends with an outcome, the log holds as many
entries as the outcome counts, and it is the whole transcript just if the run has completed; so it
does when time passes on a timeline. -/
theorem log_never_mixes_runs (w : Workflow) (es : List Event) :
    let s := after { workflow := w } es
    s.log.map Entry.line <+: w.transcript ∧
      (∀ fs, .accepted ∉ s.answers fs → s.log <+: (s.after fs).log) ∧
      (∀ e o notices, (s.respond e).1 = .ran (some o) notices →
        let log := (s.respond e).2.log
        log.length = o.emitted ∧ (log.map Entry.line = w.transcript ↔ o.isCompleted = true)) ∧
      ∀ t : Timeline, t.session = s → ∀ bound o, (t.resume bound).1 = some o →
        let log := (t.resume bound).2.session.log
        log.length = o.emitted ∧ (log.map Entry.line = w.transcript ↔ o.isCompleted = true) := by
  intro s
  have h : s.Logged w := logged_after w es
  refine ⟨h.transcript, h.after, ?_, ?_⟩
  · intro e o notices hran
    apply h.respond_tells e o
    rw [hran]
    rfl
  · intro t ht bound o ho
    rw [← ht] at h
    exact Timeline.tells_resume h bound o ho

end Session

end Flowline
