import Flowline.Proofs.Graph.Export
import Flowline.Proofs.Json.Finite
import Flowline.Proofs.Workflow.Configs

/-!
# Reading lowered workflows

A text and a document may both be nested for `maxDepth` levels, and the configurations are what the
two have in common. In the document, there are three levels around every configuration. In the text,
there are at least three around the configuration of a step, but only two around that of the
trigger, so a trigger whose configuration takes up all levels that are left gives a document that
is not accepted. There is no other reason for which a document is not.
-/

namespace Flowline

open Json

/-! ## Connections -/

theorem Outputs.regular_single (target : String) : (single target).Regular := by
  intro links hlinks l hl
  obtain rfl := List.mem_singleton.mp hlinks
  obtain rfl := List.mem_singleton.mp hl
  exact Nat.zero_le _

namespace Connections

theorem mem_put {source : String} {outputs : Outputs} {es : List (String × Outputs)}
    {e : String × Outputs} (h : e ∈ put source outputs es) : e ∈ es ∨ e = (source, outputs) := by
  induction es with
  | nil => exact .inr (List.mem_singleton.mp h)
  | cons e' es ih =>
    rcases e' with ⟨k, v⟩
    unfold put at h
    split at h
    · rename_i hkey
      rcases List.mem_cons.mp h with rfl | hmem
      · exact .inr (hkey ▸ rfl)
      · exact .inl (List.mem_cons_of_mem _ hmem)
    · rcases List.mem_cons.mp h with rfl | hmem
      · exact .inl List.mem_cons_self
      · exact (ih hmem).imp_left (List.mem_cons_of_mem _)

theorem Regular.insert {c : Connections} (h : c.Regular) (source : String) {outputs : Outputs}
    (ho : outputs.Regular) : (c.insert source outputs).Regular := by
  refine ⟨?_, fun e he => ?_⟩
  · rw [keys_insert]
    exact nodup_add h.keys source
  · rcases mem_put he with hmem | rfl
    · exact h.outputs e hmem
    · exact ho

/-- Whatever is connected, no name is kept twice. -/
theorem regular_project (edges : List (Nat × Nat)) (names : List String) :
    (project edges names).1.Regular := by
  suffices h : ∀ state : Connections × List Notice, state.1.Regular →
      (edges.foldl (connect names) state).1.Regular from
    h ({}, []) ⟨List.nodup_nil, fun _ hmem => absurd hmem List.not_mem_nil⟩
  rw [connect_eq]
  induction edges with
  | nil => exact fun _ h => h
  | cons edge edges ih =>
    intro state h
    exact ih _ (h.insert _ (Outputs.regular_single _))

end Connections

namespace Graph

/-! ## Levels of a document -/

theorem depth_link (l : Link) : l.toJson.depth = 1 := rfl

theorem depth_outputs_le (o : Outputs) : o.toJson.depth ≤ 4 := by
  simp [Outputs.toJson, depth_object_le_iff, depth_array_le_iff, depth_link]

theorem depth_connections_le (c : Connections) : c.toJson.depth ≤ 5 := by
  rw [Connections.toJson, depth_object_le_iff, List.forall_mem_map]
  exact fun e _ => depth_outputs_le e.2

/-- There are three levels around the parameters of a node. -/
theorem depth_toJson_le_iff {g : Graph} {n : Nat} (hn : 3 ≤ n) :
    g.toJson.depth ≤ n + 3 ↔ (∀ m ∈ g.nodes, (Json.object m.parameters).depth ≤ n) ∧
      (Json.object g.settings).depth ≤ n + 2 ∧ (g.staticData.getD .null).depth ≤ n + 2 := by
  have hstring (s : String) (k : Nat) : (Json.string s).depth ≤ k := Nat.zero_le k
  have hint (i : Int) (k : Nat) : (Json.int i).depth ≤ k := Nat.zero_le k
  have hposition (p : Position) : p.toJson.depth ≤ n := by
    have hp : p.toJson.depth = 1 := rfl
    omega
  have hconnections : g.connections.toJson.depth ≤ n + 2 :=
    Nat.le_trans (depth_connections_le g.connections) (by omega)
  simp only [toJson, Node.toJson, depth_object_le_iff, depth_array_le_iff, List.forall_mem_cons,
    List.forall_mem_map, hstring, hint, hposition, hconnections, true_and]
  simp

/-! ## Documents of regular graphs -/

theorem Regular.readable {g : Graph} (h : g.Regular) : ∀ d ∈ g.toJson.doubles, d.Readable := by
  intro d hd
  rcases mem_doubles.mp hd with ⟨n, hn, hmem⟩ | hmem | hmem
  · exact readable_of_regularMembers _ (h.nodes n hn).parameters.2 d hmem
  · exact readable_of_regularMembers _ h.settings.2 d hmem
  · cases hdata : g.staticData with
    | none =>
      rw [hdata] at hmem
      exact absurd hmem List.not_mem_nil
    | some j =>
      rw [hdata] at hmem
      exact readable_of_regular j (h.staticData j hdata) d hmem

/-- The document of a regular graph is accepted just if it is nested no deeper than a text may
be. -/
theorem Regular.run_document {g : Graph} (h : g.Regular) (hnull : g.staticData ≠ some .null) :
    Yields (g.toJson.depth ≤ maxDepth) (record.decode.run g.toJson.compact) g.reread ∧
      Yields (g.toJson.depth ≤ maxDepth) (record.decode.run g.toJson.pretty) g.reread :=
  Decoder.run_write (reads_decode h hnull h.readable)

end Graph

/-! ## Lowered workflows -/

namespace Workflow

/-- The parameters of the nodes are the configurations of the trigger and of the visited steps. -/
theorem map_parameters_graph (w : Workflow) (ids : Nat → Uuid) :
    (w.graph ids).nodes.map Node.parameters =
      (w.trigger.map Trigger.config).toList ++ (Step.reached w.steps).map Step.config := by
  have hvisits (place : Nat → Uuid × Nat) :
      (w.visits.mapIdx fun i v => v.node (place i).1 (place i).2).map Node.parameters =
        (Step.reached w.steps).map Step.config := by
    refine List.ext_getElem? fun i => ?_
    simp only [List.getElem?_map, List.getElem?_mapIdx, Step.reached, Option.map_map]
    rfl
  rw [nodes_graph]
  cases w.trigger with
  | none => exact hvisits fun i => (ids i, i)
  | some t => exact congrArg (t.config :: ·) (hvisits fun i => (ids (i + 1), i + 1))

theorem forall_parameters_graph {w : Workflow} {ids : Nat → Uuid} {p : Members → Prop} :
    (∀ n ∈ (w.graph ids).nodes, p n.parameters) ↔
      (∀ t, w.trigger = some t → p t.config) ∧ ∀ s ∈ Step.reached w.steps, p s.config := by
  rw [← List.forall_mem_map (P := p), map_parameters_graph, List.forall_mem_append,
    List.forall_mem_map]
  cases w.trigger with
  | none => simp
  | some t => simp

variable {text : String} {w : Workflow}

/-- What a text describes can be held in memory, and so can its graph, as long as the heights in it
can be counted. -/
theorem regular_graph (h : parse text = .ok w) {ids : Nat → Uuid}
    (hheights : HeightFits (rowAt startY (w.graph ids).nodes.length)) : (w.graph ids).Regular := by
  have hparameters : ∀ n ∈ (w.graph ids).nodes, (Json.object n.parameters).Regular :=
    forall_parameters_graph (p := fun ms => (Json.object ms).Regular) |>.mpr
      ⟨fun _ ht => (fitsIn_trigger h ht).1, fun _ hs => (fitsIn_step h hs).1⟩
  refine ⟨fun n hn => ?_, Connections.regular_project _ _, ⟨List.nodup_nil, trivial⟩, ?_⟩
  · obtain ⟨i, hi, rfl⟩ := List.mem_iff_getElem.mp hn
    obtain ⟨hposition, hversion⟩ := position_of_getElem_nodes (List.getElem?_eq_getElem hi)
    have hrow : HeightFits (rowAt startY i) :=
      heightFits_rowAt (by decide) hheights (Nat.le_of_lt hi)
    refine ⟨?_, ?_, hparameters _ hn⟩
    · rw [hversion]
      decide
    · have hcolumn : HeightFits 250 := by decide
      rw [hposition]
      exact ⟨hcolumn, hrow⟩
  · rintro j ⟨⟩

/-- The configuration of the trigger takes up all levels that a text leaves for it. -/
def HasFullTrigger (w : Workflow) : Prop :=
  ∃ t, w.trigger = some t ∧ (Json.object t.config).depth + 2 = maxDepth

theorem depth_graph_le_iff (h : parse text = .ok w) (ids : Nat → Uuid) :
    (w.graph ids).toJson.depth ≤ maxDepth ↔ ¬w.HasFullTrigger := by
  have hsettings : (Json.object []).depth ≤ 124 + 2 := by decide
  have hstatic : Json.null.depth ≤ 124 + 2 := by decide
  have hdepth := Graph.depth_toJson_le_iff (g := w.graph ids) (n := 124) (by decide)
  rw [forall_parameters_graph (p := fun ms => (Json.object ms).depth ≤ 124)] at hdepth
  refine hdepth.trans ⟨?_, fun hfull => ⟨⟨fun t ht => ?_, ?_⟩, hsettings, hstatic⟩⟩
  · rintro hfits ⟨t, ht, hlevels⟩
    have htrigger := hfits.1.1 t ht
    unfold maxDepth at hlevels
    omega
  · have hle := (fitsIn_trigger h ht).2
    have hne : (Json.object t.config).depth + 2 ≠ maxDepth := fun hlevels => hfull ⟨t, ht, hlevels⟩
    unfold maxDepth at hne
    omega
  · exact fun s hs => (fitsIn_step h hs).2

/-- A text that is lowered was read. -/
theorem exists_of_lowerText {policy : CollisionPolicy} {ids : Nat → Uuid} {g : Graph}
    (h : (lowerText text policy ids).outcome = .ok g) :
    ∃ w, parse text = .ok w ∧ g = w.graph ids := by
  unfold lowerText at h
  cases hparse : parse text with
  | error i =>
    rw [hparse] at h
    cases h
  | ok w =>
    rw [hparse] at h
    exact ⟨w, rfl, eq_graph_of_lower h⟩

theorem run_lowered (h : parse text = .ok w) (ids : Nat → Uuid)
    (hheights : HeightFits (rowAt startY (w.graph ids).nodes.length)) :
    Yields (¬w.HasFullTrigger) (Graph.record.decode.run (w.graph ids).toJson.compact)
        (w.graph ids).reread ∧
      Yields (¬w.HasFullTrigger) (Graph.record.decode.run (w.graph ids).toJson.pretty)
        (w.graph ids).reread := by
  have hnull : (w.graph ids).staticData ≠ some .null := (Option.some_ne_none _).symm
  obtain ⟨hcompact, hpretty⟩ := (regular_graph h hheights).run_document hnull
  exact ⟨hcompact.congr (depth_graph_le_iff h ids), hpretty.congr (depth_graph_le_iff h ids)⟩

/-! ## Triggers that are nested deep -/

/-- Members that are nested below each other, on so many levels. -/
def nest : Nat → Members
  | 0 => []
  | n + 1 => [("below", .object (nest n))]

theorem fitsIn_singleton {n : Nat} {j : Json} (h : FitsIn n j) (key : String) :
    FitsIn (n + 1) (.object [(key, j)]) :=
  fitsIn_object.mpr ⟨List.pairwise_singleton _ key, List.forall_mem_singleton.mpr h⟩

theorem fitsIn_nest (n : Nat) : FitsIn (n + 1) (.object (nest n)) := by
  induction n with
  | zero => exact fitsIn_empty Nat.one_pos
  | succ n ih => exact fitsIn_singleton ih "below"

theorem depth_nest (n : Nat) : (Json.object (nest n)).depth = n + 1 := by
  induction n with
  | zero => rfl
  | succ n ih =>
    have hdepth : (Json.object (nest (n + 1))).depth = max (Json.object (nest n)).depth 0 + 1 := rfl
    rw [hdepth, ih, Nat.max_zero]

theorem hasFullTrigger_nest {n : Nat} :
    HasFullTrigger { trigger := some { config := nest n } } ↔ n = 124 := by
  unfold HasFullTrigger maxDepth
  constructor
  · rintro ⟨t, ht, hlevels⟩
    obtain rfl := Option.some.inj ht
    rw [depth_nest] at hlevels
    omega
  · rintro rfl
    exact ⟨_, rfl, by rw [depth_nest]⟩

theorem doubles_nest (n : Nat) : doublesMembers (nest n) = [] := by
  induction n with
  | zero => rfl
  | succ n ih =>
    rw [nest, doublesMembers, doubles, ih]
    rfl

/-- The text of a workflow that is a trigger only, whose configuration is nested. -/
def nestedText (n : Nat) : String :=
  (Json.object [("trigger", .object [("config", .object (nest n))])]).compact

/-- A text is read whose configuration takes up at most the levels that are left. -/
theorem parse_nestedText {n : Nat} (hn : n ≤ 124) :
    parse (nestedText n) = .ok { trigger := some { config := nest n } } := by
  generalize hj : Json.object [("trigger", .object [("config", .object (nest n))])] = j
  have hfits : FitsIn maxDepth j := by
    rw [← hj]
    exact (fitsIn_singleton (fitsIn_singleton (fitsIn_nest n) "config") "trigger").mono
      (Nat.add_le_add_right hn 3)
  have hdoubles : j.doubles = [] := by
    simp only [← hj, doubles, doublesMembers, doubles_nest, List.append_nil]
  rw [parse, nestedText, hj, read_compact hfits.1 hfits.2 hdoubles, ← hj]
  rfl

theorem lowerText_nestedText {n : Nat} (hn : n ≤ 124) (policy : CollisionPolicy)
    (ids : Nat → Uuid) :
    (lowerText (nestedText n) policy ids).outcome =
      .ok (graph { trigger := some { config := nest n } } ids) := by
  rw [lowerText, parse_nestedText hn]
  cases policy with
  | reject => rfl
  | overwrite => rfl

/-! ## Documents of lowered workflows -/

/-- The document that a text is lowered to is accepted, in either layout, and gives the graph back
up to its doubles, unless the configuration of the trigger takes up all levels that the text leaves
for it. The document has one level more around that configuration, so it is then refused. The graph
must not be so long that its heights overflow. -/
theorem lowered_document_is_read_unless_trigger_full {policy : CollisionPolicy} {ids : Nat → Uuid}
    {g : Graph} (hlower : (lowerText text policy ids).outcome = .ok g)
    (hheights : HeightFits (rowAt startY g.nodes.length)) :
    ∃ w, parse text = .ok w ∧
      (¬w.HasFullTrigger → Graph.record.decode.run g.toJson.compact = .ok g.reread ∧
        Graph.record.decode.run g.toJson.pretty = .ok g.reread) ∧
      (w.HasFullTrigger →
        (∃ rest, Graph.record.decode.run g.toJson.compact = .error (.upon .tooDeep rest)) ∧
        ∃ rest, Graph.record.decode.run g.toJson.pretty = .error (.upon .tooDeep rest)) := by
  obtain ⟨w, hparse, rfl⟩ := exists_of_lowerText hlower
  obtain ⟨hcompact, hpretty⟩ := run_lowered hparse ids hheights
  refine ⟨w, hparse, fun hfull => ⟨hcompact.value hfull, hpretty.value hfull⟩, fun hfull => ?_⟩
  exact ⟨hcompact.fault (not_not_intro hfull), hpretty.fault (not_not_intro hfull)⟩

/-- The deepest trigger that comes through. -/
theorem lowered_document_is_read_unless_trigger_full_nested :
    let g := graph { trigger := some { config := nest 123 } } fun _ => .ofSeed 0
    (lowerText (nestedText 123) .reject fun _ => .ofSeed 0).outcome = .ok g ∧
      Graph.record.decode.run g.toJson.compact = .ok g.reread ∧
      Graph.record.decode.run g.toJson.pretty = .ok g.reread := by
  intro g
  have hlower := lowerText_nestedText (n := 123) (by decide) .reject fun _ => .ofSeed 0
  obtain ⟨w, hparse, hread, -⟩ :=
    lowered_document_is_read_unless_trigger_full hlower (by decide)
  obtain rfl := Except.ok.inj ((parse_nestedText (by decide)).symm.trans hparse)
  exact ⟨hlower, hread ((not_congr hasFullTrigger_nest).mpr (by decide))⟩

/-- A trigger that is lowered under either policy, and then refused. -/
theorem lowered_document_is_refused :
    let g := graph { trigger := some { config := nest 124 } } fun _ => .ofSeed 0
    (lowerText (nestedText 124) .reject fun _ => .ofSeed 0).outcome = .ok g ∧
      (lowerText (nestedText 124) .overwrite fun _ => .ofSeed 0).outcome = .ok g ∧
      (∃ rest, Graph.record.decode.run g.toJson.compact = .error (.upon .tooDeep rest)) ∧
      ∃ rest, Graph.record.decode.run g.toJson.pretty = .error (.upon .tooDeep rest) := by
  intro g
  have hparse := parse_nestedText (n := 124) (by decide)
  have hfull := not_not_intro (hasFullTrigger_nest.mpr (rfl : 124 = 124))
  obtain ⟨hcompact, hpretty⟩ := run_lowered hparse (fun _ => .ofSeed 0) (by decide)
  exact ⟨lowerText_nestedText (by decide) .reject _, lowerText_nestedText (by decide) .overwrite _,
    hcompact.fault hfull, hpretty.fault hfull⟩

end Workflow

end Flowline
