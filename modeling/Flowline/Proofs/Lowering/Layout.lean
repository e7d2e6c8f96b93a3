import Flowline.Lowering
import Flowline.Proofs.Steps.Visits

/-!
# The layout of a graph

A workflow is emitted in the order of its visits, one node for each and one row for each node, so
that the height of a node depends on nothing but its number. `flattenAll_eq` says so of any
siblings below any parent, and `lower_lays_out_visits` of a whole graph. Heights are computed
without a bound; `flattenAll?` is the same traversal in heights of sixty-four bits, which gives
nothing as soon as a height does not fit.
-/

namespace Flowline

/-! ## Rows -/

/-- The height of a row, where the first row has a given height. -/
def rowAt (y : Int) (row : Nat) : Int := y + rowHeight * row

@[simp] theorem rowAt_zero (y : Int) : rowAt y 0 = y := by simp [rowAt]

theorem rowAt_one (y : Int) : rowAt y 1 = y + rowHeight := by simp [rowAt]

theorem rowAt_rowAt (y : Int) (m n : Nat) : rowAt (rowAt y m) n = rowAt y (m + n) := by
  rw [rowAt, rowAt, rowAt, Int.natCast_add, Int.mul_add, Int.add_assoc]

/-- Whether a height is a whole number of sixty-four bits with a sign. -/
abbrev HeightFits (y : Int) : Prop := -9223372036854775808 ≤ y ∧ y ≤ 9223372036854775807

/-- The row behind another, if its height fits. -/
def nextRow? (y : Int) : Option Int :=
  if HeightFits (y + rowHeight) then some (y + rowHeight) else none

/-- A row fits that stands between two that fit. -/
theorem heightFits_rowAt {y : Int} {m n : Nat} (hfirst : HeightFits y)
    (hlast : HeightFits (rowAt y n)) (h : m ≤ n) : HeightFits (rowAt y m) := by
  simp only [HeightFits, rowAt, rowHeight] at hfirst hlast ⊢
  omega

theorem nextRow?_eq_some {y : Int} (h : HeightFits (rowAt y 1)) :
    nextRow? y = some (rowAt y 1) := by
  rw [rowAt_one] at h ⊢
  rw [nextRow?, if_pos h]

namespace Visit

/-- The emitted node of a visited step at a height. -/
def emit (v : Visit) (parent : Option String) (y : Int) : Emitted :=
  v.step.emit v.index (some (v.path parent)) y

/-- The node of a visited step in a row of a graph. -/
def node (v : Visit) (id : Uuid) (row : Nat) : Node where
  id := id
  name := v.step.displayName v.index
  type := v.step.kind.nodeType
  typeVersion := 1
  position := ⟨250, 250 + 150 * row⟩
  parameters := v.step.config

end Visit

/-! ## The rows of siblings -/

namespace Step

/-- A step takes the first row, then come the steps below it, and then its siblings. -/
theorem flattenAll_cons (parent : Option String) (index : Nat) (y : Int) (s : Step)
    (ss : List Step) :
    flattenAll parent index y (s :: ss) =
      let path := childPath parent index
      let below := flattenAll (some path) 0 (rowAt y 1) s.children
      let rest := flattenAll parent (index + 1) below.2 ss
      (s.emit index (some path) y :: (below.1 ++ rest.1), rest.2) := by
  rcases s with ⟨id, kind, name, config, steps⟩
  rw [rowAt_one]
  by_cases h : kind = .subWorkflow
  · simp [flattenAll, flatten, children, isContainer, h]
  · simp [flattenAll, flatten, children, isContainer, h]

/-- The nodes of siblings are those of their visits, in rows without gaps, and the next free
height is the row behind the last of them. -/
theorem flattenAll_eq (parent : Option String) (above : List Nat) (index : Nat) (y : Int)
    (ss : List Step) :
    flattenAll (pathBelow parent above) index y ss =
      ((visitsAll above index ss).mapIdx fun row v => v.emit parent (rowAt y row),
        rowAt y (countAll ss)) := by
  induction ss using siblings_induction generalizing above index y with
  | nil => simp [flattenAll, countAll]
  | cons s ss below rest =>
    have hbelow := below (above ++ [index]) 0 (rowAt y 1)
    rw [pathBelow_append_singleton] at hbelow
    rw [flattenAll_cons, visitsAll_cons, countAll_cons, List.mapIdx_cons, List.mapIdx_append,
      length_visitsAll]
    -- A sibling behind the first step has the rows of that step, and of all below it, in front.
    have hrow (row : Nat) :
        row + countAll s.children + 1 = 1 + countAll s.children + row := by omega
    simp only [hbelow, rest, rowAt_rowAt, rowAt_zero, hrow, Nat.add_comm _ 1]
    rfl

/-- The next free height does not depend on where the siblings stand. -/
theorem snd_flattenAll (parent : Option String) (index : Nat) (y : Int) (ss : List Step) :
    (flattenAll parent index y ss).2 = rowAt y (countAll ss) := by
  have h := flattenAll_eq parent [] index y ss
  rw [pathBelow_nil] at h
  rw [h]

/-! ## Heights of sixty-four bits -/

mutual

/-- The nodes from a step on, and the next free height, if every height fits. -/
def flatten? (parent : Option String) (index : Nat) (y : Int) : Step → Option (List Emitted × Int)
  | ⟨id, kind, name, config, steps⟩ => do
    let path := childPath parent index
    let self := emit ⟨id, kind, name, config, steps⟩ index (some path) y
    let y ← nextRow? y
    if kind = .subWorkflow then
      let (below, y) ← flattenAll? (some path) 0 y steps
      some (self :: below, y)
    else some ([self], y)

/-- The nodes from a list of siblings on, and the next free height, if every height fits. -/
def flattenAll? (parent : Option String) (index : Nat) (y : Int) :
    List Step → Option (List Emitted × Int)
  | [] => some ([], y)
  | s :: ss => do
    let (here, y) ← flatten? parent index y s
    let (rest, y) ← flattenAll? parent (index + 1) y ss
    some (here ++ rest, y)

end

theorem flattenAll?_cons (parent : Option String) (index : Nat) (y : Int) (s : Step)
    (ss : List Step) :
    flattenAll? parent index y (s :: ss) = (do
      let path := childPath parent index
      let below ← (nextRow? y).bind fun y => flattenAll? (some path) 0 y s.children
      let rest ← flattenAll? parent (index + 1) below.2 ss
      some (s.emit index (some path) y :: (below.1 ++ rest.1), rest.2)) := by
  rcases s with ⟨id, kind, name, config, steps⟩
  by_cases h : kind = .subWorkflow
  · simp [flattenAll?, flatten?, children, isContainer, h, Option.bind_assoc]
  · simp [flattenAll?, flatten?, children, isContainer, h, Option.bind_assoc]

/-- If the first height and the height behind the last row fit, then so do all heights between. -/
theorem flattenAll?_eq_some (parent : Option String) (index : Nat) {y : Int} {ss : List Step}
    (hfirst : HeightFits y) (hlast : HeightFits (rowAt y (countAll ss))) :
    flattenAll? parent index y ss = some (flattenAll parent index y ss) := by
  induction ss using siblings_induction generalizing parent index y with
  | nil => rfl
  | cons s ss below rest =>
    rw [countAll_cons] at hlast
    have hnext : HeightFits (rowAt y 1) := heightFits_rowAt hfirst hlast (by omega)
    have hbehind : HeightFits (rowAt y (1 + countAll s.children)) :=
      heightFits_rowAt hfirst hlast (by omega)
    have hbelow (parent : Option String) :
        flattenAll? parent 0 (rowAt y 1) s.children =
          some (flattenAll parent 0 (rowAt y 1) s.children) :=
      below parent 0 hnext (by rwa [rowAt_rowAt])
    have hheight (parent : Option String) :
        (flattenAll parent 0 (rowAt y 1) s.children).2 = rowAt y (1 + countAll s.children) := by
      rw [snd_flattenAll, rowAt_rowAt]
    have hrest : flattenAll? parent (index + 1) (rowAt y (1 + countAll s.children)) ss =
        some (flattenAll parent (index + 1) (rowAt y (1 + countAll s.children)) ss) :=
      rest parent (index + 1) hbehind (by rwa [rowAt_rowAt])
    rw [flattenAll?_cons, flattenAll_cons, nextRow?_eq_some hnext]
    simp [hbelow, hheight, hrest]

end Step

/-! ## Graphs -/

namespace Workflow

/-- The graph that a workflow is lowered to, unless a name is used again. -/
def graph (w : Workflow) (ids : Nat → Uuid) : Graph where
  name := w.displayName
  nodes := w.emit.mapIdx fun i e => e.node (ids i)
  connections := (project (chain w.emit.length) (w.emit.map Emitted.name)).1

theorem lower_outcome_overwrite (w : Workflow) (ids : Nat → Uuid) :
    (w.lower .overwrite ids).outcome = .ok (w.graph ids) := by
  simp [lower, chainConnections, graph]

theorem lower_outcome_reject (w : Workflow) (ids : Nat → Uuid) :
    (w.lower .reject ids).outcome =
      if reusedNames [] w.emit = [] then .ok (w.graph ids) else .error (reusedNames [] w.emit) := by
  by_cases h : reusedNames [] w.emit = []
  · simp [lower, chainConnections, graph, h]
  · simp [lower, chainConnections, h]

/-- Whatever the policy, no other graph can come out. -/
theorem eq_graph_of_lower {w : Workflow} {policy : CollisionPolicy} {ids : Nat → Uuid} {g : Graph}
    (h : (w.lower policy ids).outcome = .ok g) : g = w.graph ids := by
  cases policy with
  | overwrite =>
    rw [lower_outcome_overwrite] at h
    exact (Except.ok.inj h).symm
  | reject =>
    rw [lower_outcome_reject] at h
    split at h
    · exact (Except.ok.inj h).symm
    · cases h

/-- What nodes have in common at every height can be read off the visits. -/
theorem map_emit_visits {β : Type} {f : Emitted → β} {g : Visit → β}
    (h : ∀ v y, f (v.emit none y) = g v) (vs : List Visit) (y : Nat → Int) :
    (vs.mapIdx fun i v => v.emit none (y i)).map f = vs.map g := by
  induction vs generalizing y with
  | nil => rfl
  | cons v vs ih => rw [List.mapIdx_cons, List.map_cons, List.map_cons, h, ih fun i => y (i + 1)]

/-- The nodes of the steps of a workflow, from any height on. -/
theorem emitted_eq (w : Workflow) (y : Int) :
    (Step.flattenAll none 0 y w.steps).1 =
      w.visits.mapIdx fun k v => v.emit none (rowAt y k) := by
  have hsteps := Step.flattenAll_eq none [] 0 y w.steps
  rw [pathBelow_nil] at hsteps
  exact congrArg Prod.fst hsteps

theorem emit_of_trigger {w : Workflow} {t : Trigger} (h : w.trigger = some t) :
    w.emit = t.emit (rowAt startY 0) ::
      w.visits.mapIdx fun i v => v.emit none (rowAt startY (i + 1)) := by
  have hsteps := Step.flattenAll_eq none [] 0 (rowAt startY 1) w.steps
  simp only [pathBelow_nil, rowAt_rowAt, Nat.add_comm 1] at hsteps
  rw [emit, h]
  simp only [← rowAt_one, hsteps, rowAt_zero]
  rfl

theorem emit_of_no_trigger {w : Workflow} (h : w.trigger = none) :
    w.emit = w.visits.mapIdx fun i v => v.emit none (rowAt startY i) := by
  have hsteps := Step.flattenAll_eq none [] 0 startY w.steps
  rw [pathBelow_nil] at hsteps
  rw [emit, h]
  simp only [hsteps]
  rfl

theorem nodes_graph (w : Workflow) (ids : Nat → Uuid) :
    (w.graph ids).nodes =
      match w.trigger with
      | some t =>
        ⟨ids 0, "Trigger", t.kind.nodeType, 1, ⟨250, 250⟩, t.config⟩ ::
          w.visits.mapIdx fun i v => v.node (ids (i + 1)) (i + 1)
      | none => w.visits.mapIdx fun i v => v.node (ids i) i := by
  cases h : w.trigger with
  | some t =>
    simp only [graph, emit_of_trigger h, List.mapIdx_cons, List.mapIdx_mapIdx]
    rfl
  | none =>
    simp only [graph, emit_of_no_trigger h, List.mapIdx_mapIdx]
    rfl

theorem length_nodes_graph (w : Workflow) (ids : Nat → Uuid) :
    (w.graph ids).nodes.length = w.stepCount + if w.trigger.isSome then 1 else 0 := by
  rw [nodes_graph]
  cases h : w.trigger with
  | some t => simp [length_visits]
  | none => simp [length_visits]

theorem position_of_getElem_nodes {w : Workflow} {ids : Nat → Uuid} {i : Nat} {n : Node}
    (h : (w.graph ids).nodes[i]? = some n) :
    n.position = ⟨250, 250 + 150 * i⟩ ∧ n.typeVersion = 1 := by
  rw [nodes_graph] at h
  cases htrigger : w.trigger with
  | some t =>
    rw [htrigger] at h
    cases i with
    | zero =>
      obtain rfl := Option.some.inj h
      exact ⟨rfl, rfl⟩
    | succ i =>
      simp only [List.getElem?_cons_succ, List.getElem?_mapIdx, Option.map_eq_some_iff] at h
      obtain ⟨v, -, rfl⟩ := h
      exact ⟨rfl, rfl⟩
  | none =>
    rw [htrigger] at h
    simp only [List.getElem?_mapIdx, Option.map_eq_some_iff] at h
    obtain ⟨v, -, rfl⟩ := h
    exact ⟨rfl, rfl⟩

/-- The nodes of a graph are the node of the trigger, if there is one, and then one node for each
visited step in the order of the visits. Each stands one row below the node in front of it, and is
the node of its step. Below the bound of heights this holds of any siblings: no height overflows,
and the next free height is behind as many rows as steps are visited. -/
theorem lower_lays_out_visits (w : Workflow) (policy : CollisionPolicy) (ids : Nat → Uuid) :
    (∀ g, (w.lower policy ids).outcome = .ok g →
      g.nodes = (match w.trigger with
        | some t =>
          ⟨ids 0, "Trigger", t.kind.nodeType, 1, ⟨250, 250⟩, t.config⟩ ::
            w.visits.mapIdx fun i v => v.node (ids (i + 1)) (i + 1)
        | none => w.visits.mapIdx fun i v => v.node (ids i) i) ∧
      g.nodes.length = (w.stepCount + if w.trigger.isSome then 1 else 0) ∧
      ∀ (i : Nat) (n : Node), g.nodes[i]? = some n →
        n.position = ⟨250, 250 + 150 * i⟩ ∧ n.typeVersion = 1) ∧
    ∀ (parent : Option String) (y : Int) (ss : List Step),
      HeightFits y → HeightFits (y + 150 * Step.countAll ss) →
      Step.flattenAll? parent 0 y ss = some (Step.flattenAll parent 0 y ss) ∧
        (Step.flattenAll parent 0 y ss).2 = y + 150 * Step.countAll ss := by
  constructor
  · intro g hg
    rw [eq_graph_of_lower hg]
    refine ⟨nodes_graph w ids, length_nodes_graph w ids, ?_⟩
    intro i n hn
    exact position_of_getElem_nodes hn
  · intro parent y ss hfirst hlast
    exact ⟨Step.flattenAll?_eq_some parent 0 hfirst hlast, Step.snd_flattenAll parent 0 y ss⟩

/-- A container with two steps below it between the trigger and a step that keeps a step it does not
visit. -/
theorem lower_lays_out_visits_nested :
    let w : Workflow := {
      trigger := some { kind := .webhook, config := [("path", .string "orders")] }
      steps := [
        { kind := .subWorkflow, name := some "Notify",
          steps := [{ kind := .email, config := [("to", .string "team")] }, { kind := .delay }] },
        { kind := .filter, name := some "Check", steps := [{ kind := .email }] }] }
    (w.graph .ofSeed).nodes = [
        ⟨.ofSeed 0, "Trigger", "n8n-nodes-base.webhook", 1, ⟨250, 250⟩,
          [("path", .string "orders")]⟩,
        ⟨.ofSeed 1, "Notify", "n8n-nodes-base.executeWorkflow", 1, ⟨250, 400⟩, []⟩,
        ⟨.ofSeed 2, "Step 1", "n8n-nodes-base.emailSend", 1, ⟨250, 550⟩,
          [("to", .string "team")]⟩,
        ⟨.ofSeed 3, "Step 2", "n8n-nodes-base.wait", 1, ⟨250, 700⟩, []⟩,
        ⟨.ofSeed 4, "Check", "n8n-nodes-base.filter", 1, ⟨250, 850⟩, []⟩] ∧
      (w.graph .ofSeed).nodes.length = 5 ∧
      Step.flattenAll? none 0 9223372036854775207 w.steps =
        some (Step.flattenAll none 0 9223372036854775207 w.steps) := by
  intro w
  have h := lower_lays_out_visits w .reject .ofSeed
  have hlower : (w.lower .reject .ofSeed).outcome = .ok (w.graph .ofSeed) := by
    rw [lower_outcome_reject, if_pos (by decide)]
  obtain ⟨hnodes, hlength, -⟩ := h.1 _ hlower
  obtain ⟨hfits, -⟩ := h.2 none 9223372036854775207 w.steps (by decide) (by decide)
  exact ⟨hnodes.trans rfl, hlength, hfits⟩

end Workflow

end Flowline
