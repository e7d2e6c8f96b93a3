import Flowline.Proofs.Lists
import Flowline.Proofs.Names.Collisions

/-!
# The chain of a graph

The connections of a graph are projected from the edges of a chain to the names at their ends.
`project_eq` does away with the numbers: the projection adds the links of a list of names, each
name with the next, one after the other. If no name is used twice, every link stays as it is added,
and following the connections from the first node walks through all of them.
-/

namespace Flowline

/-! ## Links -/

/-- The links of a list of names, each name with the next. -/
def links (names : List String) : List (String × String) := names.zip names.tail

theorem links_cons_cons (a b : String) (names : List String) :
    links (a :: b :: names) = (a, b) :: links (b :: names) := rfl

theorem map_links_map {α β : Type} (name : α → String) (f : String × String → β) (xs : List α) :
    (links (xs.map name)).map f = List.zipWith (fun x y => f (name x, name y)) xs xs.tail := by
  rw [links, ← List.map_tail, List.zip_map, List.map_map, List.zip, List.map_zipWith]
  rfl

theorem map_chain (names : List String) :
    (chain names.length).map (fun e => (names[e.1]?.getD "", names[e.2]?.getD "")) =
      links names := by
  refine List.ext_getElem ?_ fun i hi hi' => ?_
  · simp only [chain, links, List.length_map, List.length_range, List.length_zip, List.length_tail]
    omega
  · simp only [chain, List.length_map, List.length_range] at hi
    have hsource : names[i]? = some names[i] := List.getElem?_eq_getElem (by omega)
    have htarget : names[i + 1]? = some names[i + 1] := List.getElem?_eq_getElem (by omega)
    simp [chain, links, hsource, htarget]

/-- Adds a link, and notices the connection that it replaces. -/
def addLink (state : Connections × List Notice) (link : String × String) :
    Connections × List Notice :=
  (state.1.insert link.1 (.single link.2),
    state.2 ++ match state.1.get? link.1 with
      | some dropped => [.droppedConnection link.1 (dropped.firstTarget?.getD "")]
      | none => [])

theorem connect_eq (names : List String) :
    connect names = fun state edge =>
      addLink state (names[edge.1]?.getD "", names[edge.2]?.getD "") := by
  funext state edge
  rw [connect, Connections.replace_eq]
  rfl

/-- The chain of as many nodes as there are names adds the links of the names in order. -/
theorem project_eq (names : List String) :
    project (chain names.length) names = (links names).foldl addLink ({}, []) := by
  rw [← map_chain, List.foldl_map, project, connect_eq]

/-- The entry that a link adds. -/
def linkEntry (link : String × String) : String × Outputs := (link.1, .single link.2)

namespace Connections

theorem put_of_not_mem {source : String} {es : List (String × Outputs)}
    (h : source ∉ es.map Prod.fst) (outputs : Outputs) :
    put source outputs es = es ++ [(source, outputs)] := by
  induction es with
  | nil => rfl
  | cons e es ih =>
    rw [List.map_cons, List.mem_cons, not_or] at h
    rw [put, if_neg (Ne.symm h.1), ih h.2, List.cons_append]

theorem get?_eq_none {c : Connections} {source : String} (h : source ∉ c.keys) :
    c.get? source = none := by
  rw [get?, List.lookup_eq_none_iff]
  intro e he
  have hne : source ≠ e.1 := fun same => h (same ▸ List.mem_map_of_mem he)
  exact bne_iff_ne.mpr hne

end Connections

theorem addLink_of_not_mem {c : Connections} {link : String × String} (h : link.1 ∉ c.keys)
    (notices : List Notice) :
    addLink (c, notices) link = (⟨c.entries ++ [linkEntry link]⟩, notices) := by
  rw [addLink, Connections.get?_eq_none h, List.append_nil, Connections.insert,
    Connections.put_of_not_mem h]
  rfl

/-- Links whose sources are all different stay as they are added, and nothing is noticed. -/
theorem foldl_addLink {ls : List (String × String)} {c : Connections}
    (h : (c.keys ++ ls.map Prod.fst).Nodup) (notices : List Notice) :
    ls.foldl addLink (c, notices) = (⟨c.entries ++ ls.map linkEntry⟩, notices) := by
  induction ls generalizing c with
  | nil => simp
  | cons l ls ih =>
    have hnew : l.1 ∉ c.keys := by
      intro hmem
      exact (List.nodup_append.mp h).2.2 l.1 hmem l.1 (by simp) rfl
    rw [List.foldl_cons, addLink_of_not_mem hnew, ih]
    · simp
    · simpa [Connections.keys, linkEntry] using h

/-! ## Chains of different names -/

theorem map_fst_links_sublist (names : List String) :
    List.Sublist ((links names).map Prod.fst) names := by
  induction names with
  | nil => exact .slnil
  | cons a names ih =>
    cases names with
    | nil => exact List.nil_sublist _
    | cons b names =>
      rw [links_cons_cons, List.map_cons]
      exact ih.cons_cons a

theorem project_of_nodup {names : List String} (h : names.Nodup) :
    project (chain names.length) names = (⟨(links names).map linkEntry⟩, []) := by
  rw [project_eq, foldl_addLink]
  · rfl
  · exact h.sublist (map_fst_links_sublist names)

/-- A name leads to the next one, and the last name leads nowhere. -/
theorem lookup_links {names : List String} (h : names.Nodup) {i : Nat} {name : String}
    (hname : names[i]? = some name) :
    ((links names).map linkEntry).lookup name = names[i + 1]?.map Outputs.single := by
  induction names generalizing i with
  | nil => cases hname
  | cons a names ih =>
    obtain ⟨hhead, hnodup⟩ := List.nodup_cons.mp h
    cases names with
    | nil =>
      rw [List.getElem?_eq_none (by simp)]
      rfl
    | cons b names =>
      rw [links_cons_cons, List.map_cons, linkEntry]
      cases i with
      | zero =>
        obtain rfl := Option.some.inj hname
        exact List.lookup_cons_self
      | succ i =>
        -- A later name is not the first one, so the first link is passed over.
        have hmem : name ∈ b :: names := List.mem_of_getElem? hname
        have hne : name ≠ a := fun same => hhead (same ▸ hmem)
        rw [lookup_cons_of_ne hne]
        exact ih hnodup hname

namespace Graph

/-- The name that the connections of a graph lead to from a name. -/
def next? (g : Graph) (name : String) : Option String :=
  (g.connections.get? name).bind Outputs.firstTarget?

/-- The name that is reached from the first node after so many steps. -/
def walk (g : Graph) : Nat → Option String
  | 0 => g.nodes.head?.map Node.name
  | steps + 1 => (g.walk steps).bind g.next?

/-- In a chain of different names, a walk goes from node to node and ends behind the last. -/
theorem walk_eq {g : Graph} (h : g.nodeNames.Nodup)
    (hentries : g.connections.entries = (links g.nodeNames).map linkEntry) (i : Nat) :
    g.walk i = g.nodeNames[i]? := by
  induction i with
  | zero => rw [walk, nodeNames, List.getElem?_map, List.head?_eq_getElem?]
  | succ i ih =>
    rw [walk, ih]
    cases hname : g.nodeNames[i]? with
    | none =>
      have hlength : g.nodeNames.length ≤ i := List.getElem?_eq_none_iff.mp hname
      rw [List.getElem?_eq_none (by omega)]
      rfl
    | some name =>
      have hlookup := lookup_links h hname
      rw [Option.bind_some, next?, Connections.get?, hentries, hlookup]
      cases g.nodeNames[i + 1]? <;> rfl

/-- The last node of a chain of different names has no connections. -/
theorem get?_getLast {g : Graph} (h : g.nodeNames.Nodup)
    (hentries : g.connections.entries = (links g.nodeNames).map linkEntry) {n : Node}
    (hn : g.nodes.getLast? = some n) : g.connections.get? n.name = none := by
  have hname : g.nodeNames[g.nodes.length - 1]? = some n.name := by
    rw [nodeNames, List.getElem?_map, ← List.getLast?_eq_getElem?, hn]
    rfl
  have hlength : g.nodeNames.length = g.nodes.length := List.length_map _
  rw [Connections.get?, hentries, lookup_links h hname, List.getElem?_eq_none (by omega)]
  rfl

/-- A node of a graph without repeated names is found by its name. -/
theorem node?_eq_some {g : Graph} (h : g.nodeNames.Nodup) {n : Node} (hn : n ∈ g.nodes) :
    g.node? n.name = some n :=
  find?_of_nodup Node.name h hn

end Graph

/-! ## The chain of a workflow -/

namespace Workflow

theorem nodeNames_graph (w : Workflow) (ids : Nat → Uuid) :
    (w.graph ids).nodeNames = w.emit.map Emitted.name := by
  refine List.ext_getElem? fun i => ?_
  rw [Graph.nodeNames, graph, List.getElem?_map, List.getElem?_mapIdx, List.getElem?_map]
  cases w.emit[i]? <;> rfl

theorem lower_reject_eq_ok_iff {w : Workflow} {ids : Nat → Uuid} {g : Graph} :
    (w.lower .reject ids).outcome = .ok g ↔
      (w.emit.map Emitted.name).Nodup ∧ g = w.graph ids := by
  have hnodup : reusedNames [] w.emit = [] ↔ (w.emit.map Emitted.name).Nodup := by
    simp [reusedNames_eq_nil_iff]
  rw [lower_outcome_reject]
  by_cases h : reusedNames [] w.emit = []
  · rw [if_pos h]
    exact ⟨fun hg => ⟨hnodup.mp h, (Except.ok.inj hg).symm⟩, fun ⟨_, hg⟩ => hg ▸ rfl⟩
  · rw [if_neg h]
    exact ⟨nofun, fun ⟨hnames, _⟩ => absurd (hnodup.mpr hnames) h⟩

theorem entries_graph {w : Workflow} (h : (w.emit.map Emitted.name).Nodup) (ids : Nat → Uuid) :
    (w.graph ids).connections.entries = (links (w.graph ids).nodeNames).map linkEntry := by
  have hlength : w.emit.length = (w.emit.map Emitted.name).length := (List.length_map _).symm
  rw [nodeNames_graph, graph, hlength, project_of_nodup h]

/-- If names may not be used twice, a workflow is lowered just if no two emitted nodes have the same
name. Then each node is connected to the next and to nothing else, in order: a walk along the
connections from the first node comes to every node in turn and ends at the last, which has no
connections, and every node is found by its name. -/
theorem lower_reject_chain (w : Workflow) (ids : Nat → Uuid) :
    ((∃ g, (w.lower .reject ids).outcome = .ok g) ↔ (w.emit.map Emitted.name).Nodup) ∧
    ∀ g, (w.lower .reject ids).outcome = .ok g →
      g.nodeNames = w.emit.map Emitted.name ∧ g.nodeNames.Nodup ∧
      g.connections.entries =
        List.zipWith (fun n m => (n.name, Outputs.single m.name)) g.nodes g.nodes.tail ∧
      (∀ i, g.walk i = g.nodes[i]?.map Node.name) ∧
      (∀ n, g.nodes.getLast? = some n → g.connections.get? n.name = none) ∧
      ∀ n ∈ g.nodes, g.node? n.name = some n := by
  constructor
  · simp only [lower_reject_eq_ok_iff, exists_and_left, exists_eq, and_true]
  · intro g hg
    obtain ⟨hnodup, rfl⟩ := lower_reject_eq_ok_iff.mp hg
    have hentries := entries_graph hnodup ids
    have hnames : (w.graph ids).nodeNames.Nodup := by rwa [nodeNames_graph]
    refine ⟨nodeNames_graph w ids, hnames, ?_, ?_, ?_, ?_⟩
    · rw [hentries, Graph.nodeNames, map_links_map]
      rfl
    · intro i
      rw [Graph.walk_eq hnames hentries, Graph.nodeNames, List.getElem?_map]
    · intro n hn
      exact Graph.get?_getLast hnames hentries hn
    · exact fun n hn => Graph.node?_eq_some hnames hn

/-- A walk through a trigger, a container, the step below it and the step behind it. -/
theorem lower_reject_chain_nested :
    let w : Workflow := {
      trigger := some { kind := .manual }
      steps := [
        { kind := .subWorkflow, name := some "Outer", steps := [{ kind := .email }] },
        { kind := .delay, name := some "Wait" }] }
    let g := w.graph fun _ => .ofSeed 0
    (List.range 5).map g.walk = [some "Trigger", some "Outer", some "Step 1", some "Wait", none] ∧
      g.connections.get? "Wait" = none := by
  intro w g
  have hg : (w.lower .reject fun _ => .ofSeed 0).outcome = .ok g :=
    lower_reject_eq_ok_iff.mpr ⟨by decide, rfl⟩
  obtain ⟨-, -, -, hwalk, hlast, -⟩ := (lower_reject_chain w fun _ => .ofSeed 0).2 g hg
  refine ⟨?_, hlast _ rfl⟩
  simp only [funext hwalk]
  rfl

end Workflow

end Flowline
