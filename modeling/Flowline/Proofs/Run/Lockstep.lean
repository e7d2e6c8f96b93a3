import Flowline.Proofs.Lowering.Layout
import Flowline.Proofs.Run.Completion
import Flowline.Proofs.Steps.Paths

/-!
# Runs and emitted nodes

A run keeps a stack of work and counts levels, and emission recurses and threads paths and heights.
Both go through the visits of a workflow: every visited step opens with one line of information in
the log, `infos_transcriptAll`, and becomes one node, `flattenAll_eq`. So the k-th line of
information behind the line of the trigger is about the step of the k-th node: `Lockstep`.
-/

namespace Flowline

/-! ## Names in lines -/

namespace Step

/-- A step under a name of its own. -/
def named (s : Step) (name : String) : Step := { s with name := some name }

/-- The lines of a step depend on its kind, its configuration and the name it goes by. -/
theorem lines_congr {s s' : Step} {index index' : Nat} (hkind : s'.kind = s.kind)
    (hconfig : s'.config = s.config) (hname : s'.displayName index' = s.displayName index) :
    s'.lines index' = s.lines index := by
  unfold lines configText?
  rw [hkind, hconfig, hname]

/-- A step says the same when it is given the name that it goes by, and then it does not matter
where it stands. -/
theorem lines_named (s : Step) (index index' : Nat) :
    (s.named (s.displayName index)).lines index' = s.lines index := by
  apply lines_congr
  · rfl
  · rfl
  · have hname : (s.named (s.displayName index)).displayName index' =
        if s.displayName index = "" then "Step " ++ toString (index' + 1)
        else s.displayName index := rfl
    rw [hname, if_neg (displayName_ne_empty s index)]

end Step

/-! ## Lines of information -/

/-- The line that opens a visited step, indented by the number of containers around it. -/
def Visit.opening (v : Visit) : Line :=
  .atLevel v.above.length .info (v.step.lines v.index).opening

/-- Whether a line is one of information. -/
def Line.isInfo (l : Line) : Bool := l.status = .info

namespace Step

/-- The lines of information among the lines of siblings open their visits in order. -/
theorem infos_transcriptAll (above : List Nat) (index : Nat) (ss : List Step) :
    (transcriptAll above.length index ss).filter Line.isInfo =
      (visitsAll above index ss).map Visit.opening := by
  induction ss using siblings_induction generalizing above index with
  | nil => rfl
  | cons s ss below rest =>
    -- Below the first step there is one container more, in the levels and in the positions.
    have hbelow := below (above ++ [index]) 0
    rw [List.length_append, List.length_singleton] at hbelow
    have hopening : (Line.atLevel above.length .info (s.lines index).opening).isInfo = true := rfl
    have hclosing :
        (Line.atLevel above.length .success (s.lines index).closing).isInfo = false := rfl
    rw [transcriptAll, transcript_eq, visitsAll_cons, List.filter_append, List.filter_cons,
      if_pos hopening, List.filter_append, hbelow, List.filter_cons, hclosing, rest, List.map_cons,
      List.map_append, List.cons_append]
    simp [Visit.opening]

end Step

/-- The entries of information that stand behind the start line and the line of the trigger. -/
def infos (log : List Entry) : List Entry := (log.drop 2).filter fun e => e.line.isInfo

namespace Workflow

theorem lines_infos {w : Workflow} {log : List Entry} (h : log.map Entry.line = w.transcript) :
    (infos log).map Entry.line = w.visits.map Visit.opening := by
  have hfinal : finalLine.isInfo = false := rfl
  have hsteps := Step.infos_transcriptAll [] 0 w.steps
  have hdrop : (log.drop 2).map Entry.line = Step.transcriptAll 0 0 w.steps ++ [finalLine] := by
    rw [List.map_drop, h]
    rfl
  calc (infos log).map Entry.line
    _ = ((log.drop 2).map Entry.line).filter Line.isInfo := by
      rw [List.filter_map]
      rfl
    _ = (Step.transcriptAll 0 0 w.steps).filter Line.isInfo := by
      rw [hdrop, List.filter_append, List.filter_cons, hfinal]
      simp
    _ = w.visits.map Visit.opening := hsteps

/-- A log and the nodes that are emitted from a height on, step by step: the line of the trigger is
the second, and behind it there are as many lines of information as nodes. Each of them is the
opening line of the step that its node was emitted for, under the name of the node, and indented by
the dots in the path of the node. -/
structure Lockstep (w : Workflow) (y : Int) (log : List Entry) : Prop where
  trigger : log[1]?.map Entry.line = some ⟨.info, "Trigger activated: " ++ w.activation⟩
  count : (infos log).length = w.stepCount
  nodes : (Step.flattenAll none 0 y w.steps).1.length = w.stepCount
  steps : ∀ k, k < w.stepCount → ∃ entry node v path,
    (infos log)[k]? = some entry ∧
      (Step.flattenAll none 0 y w.steps).1[k]? = some node ∧
      w.visits[k]? = some v ∧
      node = v.step.emit v.index (some path) (rowAt y k) ∧
      entry.line = ⟨.info, String.ofList (List.replicate (2 * dots path) ' ') ++
        (v.step.lines v.index).opening⟩ ∧
      ∀ index, v.step.lines v.index = (v.step.named node.name).lines index

/-- Every log of a whole transcript goes through the steps like emission. -/
theorem lockstep_of_transcript {w : Workflow} {log : List Entry}
    (h : log.map Entry.line = w.transcript) (y : Int) : w.Lockstep y log := by
  have hinfos := lines_infos h
  have hcount : (infos log).length = w.stepCount := by
    have hlength := congrArg List.length hinfos
    rwa [List.length_map, List.length_map, length_visits] at hlength
  refine ⟨?_, hcount, ?_, ?_⟩
  · rw [← List.getElem?_map, h]
    rfl
  · rw [emitted_eq, List.length_mapIdx, length_visits]
  · intro k hk
    have hv : k < w.visits.length := by rwa [length_visits]
    have hentry : k < (infos log).length := by rwa [hcount]
    have hline : (infos log)[k].line = w.visits[k].opening := by
      have hget := congrArg (fun ls => ls[k]?) hinfos
      simpa [hv, hentry] using hget
    refine ⟨(infos log)[k], w.visits[k].emit none (rowAt y k), w.visits[k], w.visits[k].path,
      List.getElem?_eq_getElem hentry, ?_, List.getElem?_eq_getElem hv, rfl, ?_, ?_⟩
    · rw [emitted_eq, List.getElem?_mapIdx, List.getElem?_eq_getElem hv]
      rfl
    · rw [hline, Visit.dots_path]
      rfl
    · intro index
      exact (Step.lines_named _ _ index).symm

/-- A run that nobody cancels goes through the steps in the order in which nodes are emitted for
them: the k-th line of information behind the line of the trigger is the opening line of the step of
the k-th node, wherever the first node stands. -/
theorem undisturbed_run_in_lockstep (w : Workflow) (d : Delays) (world : Nat → Moment)
    (hworld : ∀ i, (world i).cancelled = false) (y : Int) :
    (∃ steps, ∀ n, steps ≤ n → w.Lockstep y ((Trace.start w d).run world n).log) ∧
    ∀ clock, w.Lockstep y (Simulation.ofWorkflow w d {} clock).log := by
  constructor
  · refine ⟨2 * (w.script d).length + 1, ?_⟩
    intro n hn
    apply lockstep_of_transcript
    exact lines_of_completes (completes_start w d hworld hn)
  · intro clock
    obtain ⟨t, hshows, h⟩ := exists_completes_simulation w d clock
    apply lockstep_of_transcript
    rw [← hshows.log]
    exact lines_of_completes h

/-- A container that keeps no steps, a step that keeps one it does not visit, and a container with a
container below it. -/
theorem undisturbed_run_in_lockstep_nested :
    let w : Workflow := {
      trigger := some { kind := .webhook }
      steps := [
        { kind := .subWorkflow },
        { kind := .filter, steps := [{ kind := .email }] },
        { kind := .subWorkflow, name := some "Outer",
          steps := [{ kind := .subWorkflow, steps := [{ kind := .action }] }] }] }
    let world : Nat → Moment := fun i => { now := i, patient := true }
    (∀ i, (world i).cancelled = false) ∧
      ∃ n entry, (infos ((Trace.start w {}).run world n).log)[4]? = some entry ∧
        entry.line = ⟨.info, "    Executing: Step 1"⟩ := by
  intro w world
  have hworld (i : Nat) : (world i).cancelled = false := rfl
  obtain ⟨steps, h⟩ := (undisturbed_run_in_lockstep w {} world hworld 250).1
  obtain ⟨entry, node, v, path, hentry, hnode, hv, rfl, hline, -⟩ :=
    (h steps (Nat.le_refl steps)).steps 4 (by decide)
  have hvisit : v = ⟨{ kind := .action }, 0, [2, 0]⟩ := Option.some.inj hv.symm
  have hpath : path = "3.1.1" :=
    Option.some.inj (congrArg Emitted.path (Option.some.inj hnode)).symm
  refine ⟨hworld, steps, entry, hentry, ?_⟩
  rw [hline, hvisit, hpath]
  rfl

end Workflow

end Flowline
