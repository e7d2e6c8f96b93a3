import Flowline.Proofs.Graph.Chain

/-!
# Overwritten connections

If names may be used twice, the connections of a chain keep the last link of every name, in the
place of its first, and every link that is replaced is noticed. `Projected` says what the first
links of a chain have come to: what is kept and what was replaced are together just the links there
were.
-/

namespace Flowline

/-- The name that a name is linked to by the last of so many links. -/
def latestTarget (names : List String) (name : String) : Nat → Option String
  | 0 => none
  | n + 1 => if names[n]? = some name then names[n + 1]? else latestTarget names name n

/-- The link that a link replaces. -/
def replaced? (names : List String) (i : Nat) : Option (String × String) :=
  names[i]?.bind fun name => (latestTarget names name i).map fun target => (name, target)

/-- What is noticed about a link that is replaced. -/
def droppedLink (link : String × String) : Notice := .droppedConnection link.1 link.2

theorem latestTarget_eq_some_iff {names : List String} {name target : String} {n : Nat}
    (hn : n < names.length) :
    latestTarget names name n = some target ↔
      ∃ i, i < n ∧ names[i]? = some name ∧ names[i + 1]? = some target ∧
        ∀ l, i < l → l < n → names[l]? ≠ some name := by
  induction n with
  | zero =>
    constructor
    · nofun
    · rintro ⟨i, hi, -⟩
      exact absurd hi (Nat.not_lt_zero i)
  | succ n ih =>
    unfold latestTarget
    by_cases hname : names[n]? = some name
    · rw [if_pos hname]
      constructor
      · intro htarget
        refine ⟨n, Nat.lt_succ_self n, hname, htarget, ?_⟩
        intro l hl hl'
        omega
      · rintro ⟨i, hi, -, htarget, hlater⟩
        have hlast : ¬ i < n := fun hlt => hlater n hlt (Nat.lt_succ_self n) hname
        obtain rfl : i = n := by omega
        exact htarget
    · rw [if_neg hname, ih (Nat.lt_of_succ_lt hn)]
      constructor
      · rintro ⟨i, hi, hsource, htarget, hlater⟩
        refine ⟨i, Nat.lt_succ_of_lt hi, hsource, htarget, ?_⟩
        intro l hl hl'
        rcases Nat.lt_succ_iff_lt_or_eq.mp hl' with hlt | rfl
        · exact hlater l hl hlt
        · exact hname
      · rintro ⟨i, hi, hsource, htarget, hlater⟩
        have hne : i ≠ n := by
          rintro rfl
          exact hname hsource
        exact ⟨i, by omega, hsource, htarget, fun l hl hl' => hlater l hl (Nat.lt_succ_of_lt hl')⟩

/-! ## Replacing an entry -/

namespace Connections

/-- Setting a key that is there exchanges its entry for another. -/
theorem perm_put {source : String} {old : Outputs} {es : List (String × Outputs)}
    (h : es.lookup source = some old) (outputs : Outputs) :
    List.Perm ((source, outputs) :: es) ((source, old) :: put source outputs es) := by
  induction es with
  | nil => cases h
  | cons e es ih =>
    obtain ⟨k, v⟩ := e
    by_cases hk : k = source
    · subst hk
      rw [List.lookup_cons_self] at h
      obtain rfl := Option.some.inj h
      rw [put, if_pos rfl]
      exact List.Perm.swap _ _ _
    · rw [lookup_cons_of_ne (Ne.symm hk)] at h
      rw [put, if_neg hk]
      calc List.Perm ((source, outputs) :: (k, v) :: es) ((k, v) :: (source, outputs) :: es) :=
            List.Perm.swap _ _ _
        List.Perm _ ((k, v) :: (source, old) :: put source outputs es) := (ih h).cons _
        List.Perm _ ((source, old) :: (k, v) :: put source outputs es) := List.Perm.swap _ _ _

theorem not_mem_keys {c : Connections} {source : String} (h : c.get? source = none) :
    source ∉ c.keys := by
  rw [get?, List.lookup_eq_none_iff] at h
  intro hmem
  obtain ⟨e, he, rfl⟩ := List.mem_map.mp hmem
  exact bne_iff_ne.mp (h e he) rfl

theorem perm_insert {c : Connections} {source : String} {old : Outputs}
    (h : c.get? source = some old) (outputs : Outputs) :
    List.Perm ((source, outputs) :: c.entries)
      ((source, old) :: (c.insert source outputs).entries) :=
  perm_put h outputs

end Connections

/-! ## The first links of a chain -/

/-- What the first links of a list of names come to: the names they start from, each once, the last
target of each, and the links that were replaced. -/
structure Projected (names : List String) (n : Nat) (c : Connections) (notices : List Notice) :
    Prop where
  keys : c.keys = (names.take n).eraseDups
  get : ∀ name, c.get? name = (latestTarget names name n).map Outputs.single
  notices : notices = ((List.range n).filterMap (replaced? names)).map droppedLink
  perm : List.Perm (((links names).take n).map linkEntry)
    (c.entries ++ ((List.range n).filterMap (replaced? names)).map linkEntry)

theorem eraseDups_concat (names : List String) (name : String) :
    (names ++ [name]).eraseDups =
      if name ∈ names.eraseDups then names.eraseDups else names.eraseDups ++ [name] := by
  rw [List.eraseDups_append]
  by_cases h : name ∈ names
  · simp [List.removeAll, h]
  · simp [List.removeAll, h, List.eraseDups_cons]

theorem getElem?_links {names : List String} {n : Nat} {name target : String}
    (hname : names[n]? = some name) (htarget : names[n + 1]? = some target) :
    (links names)[n]? = some (name, target) := by
  rw [links, List.getElem?_zip_eq_some, List.getElem?_tail]
  exact ⟨hname, htarget⟩

theorem projected_zero (names : List String) : Projected names 0 {} [] :=
  ⟨rfl, fun _ => rfl, rfl, List.Perm.nil⟩

section Perm

variable {α : Type} {ls es ds : List α}

theorem perm_of_new (h : ls.Perm (es ++ ds)) (a : α) : (ls ++ [a]).Perm (es ++ [a] ++ ds) :=
  calc (ls ++ [a]).Perm (a :: ls) := List.perm_append_singleton a ls
    List.Perm _ (a :: (es ++ ds)) := h.cons a
    List.Perm _ (es ++ a :: ds) := List.perm_middle.symm
    _ = es ++ [a] ++ ds := by rw [List.append_assoc, List.singleton_append]

theorem perm_of_replaced {es' : List α} {a b : α} (h : ls.Perm (es ++ ds))
    (hes : (a :: es).Perm (b :: es')) : (ls ++ [a]).Perm (es' ++ (ds ++ [b])) :=
  calc (ls ++ [a]).Perm (a :: ls) := List.perm_append_singleton a ls
    List.Perm _ (a :: es ++ ds) := h.cons a
    List.Perm _ (b :: es' ++ ds) := hes.append_right ds
    List.Perm _ (es' ++ ds ++ [b]) := (List.perm_append_singleton b (es' ++ ds)).symm
    _ = es' ++ (ds ++ [b]) := List.append_assoc _ _ _

end Perm

/-- Adding the next link keeps what the links before it have come to. -/
theorem Projected.addLink {names : List String} {n : Nat} {c : Connections} {notices : List Notice}
    (h : Projected names n c notices) {name target : String} (hname : names[n]? = some name)
    (htarget : names[n + 1]? = some target) :
    Projected names (n + 1) (addLink (c, notices) (name, target)).1
      (addLink (c, notices) (name, target)).2 := by
  have hlinks : ((links names).take (n + 1)).map linkEntry =
      ((links names).take n).map linkEntry ++ [linkEntry (name, target)] := by
    rw [List.take_add_one, getElem?_links hname htarget, List.map_append]
    rfl
  have hrange : (List.range (n + 1)).filterMap (replaced? names) =
      (List.range n).filterMap (replaced? names) ++
        ((latestTarget names name n).map fun target => (name, target)).toList := by
    rw [List.range_succ, List.filterMap_append]
    unfold replaced?
    cases hlatest : latestTarget names name n <;> simp [hname, hlatest]
  refine ⟨?_, ?_, ?_, ?_⟩
  · rw [Flowline.addLink, Connections.keys_insert, h.keys, List.take_add_one, hname,
      Option.toList_some, eraseDups_concat]
  · intro other
    unfold latestTarget
    by_cases same : names[n]? = some other
    · obtain rfl : name = other := Option.some.inj (hname.symm.trans same)
      rw [if_pos same, htarget]
      exact Connections.get?_insert_self c name _
    · have different : name ≠ other := by
        rintro rfl
        exact same hname
      rw [if_neg same, ← h.get other]
      exact Connections.get?_insert_of_ne c _ different
  · rw [hrange, List.map_append, Flowline.addLink, h.notices, h.get name]
    cases latestTarget names name n <;> rfl
  · rw [hlinks, hrange, List.map_append]
    have hget := h.get name
    cases hlatest : latestTarget names name n with
    | none =>
      rw [hlatest] at hget
      rw [addLink_of_not_mem (Connections.not_mem_keys hget)]
      simp only [Option.map_none, Option.toList_none, List.map_nil, List.append_nil]
      exact perm_of_new h.perm _
    | some old =>
      rw [hlatest] at hget
      exact perm_of_replaced h.perm (Connections.perm_insert hget (.single target))

/-- The first links of a chain, added in order. -/
theorem projected_take {names : List String} {n : Nat} (hn : n < names.length) :
    Projected names n (((links names).take n).foldl Flowline.addLink ({}, [])).1
      (((links names).take n).foldl Flowline.addLink ({}, [])).2 := by
  induction n with
  | zero => exact projected_zero names
  | succ n ih =>
    have hbefore : n < names.length := Nat.lt_of_succ_lt hn
    have hname : names[n]? = some names[n] := List.getElem?_eq_getElem hbefore
    have htarget : names[n + 1]? = some names[n + 1] := List.getElem?_eq_getElem hn
    rw [List.take_add_one, getElem?_links hname htarget, List.foldl_append]
    exact (ih hbefore).addLink hname htarget

theorem projected (names : List String) :
    Projected names (names.length - 1) (project (chain names.length) names).1
      (project (chain names.length) names).2 := by
  rw [project_eq]
  cases hnames : names.length with
  | zero =>
    obtain rfl := List.length_eq_zero_iff.mp hnames
    exact projected_zero []
  | succ n =>
    have hlength : (links names).length ≤ n := by
      simp [links, hnames]
    have h : Projected names n _ _ := projected_take (by omega)
    rwa [List.take_of_length_le hlength] at h

/-! ## The connections that are kept -/

theorem mem_of_mem_links {names : List String} {link : String × String} (h : link ∈ links names) :
    link.1 ∈ names ∧ link.2 ∈ names := by
  obtain ⟨hsource, htarget⟩ := List.of_mem_zip h
  exact ⟨hsource, List.mem_of_mem_tail htarget⟩

theorem mem_of_projected {names : List String} {n : Nat} {c : Connections} {notices : List Notice}
    (h : Projected names n c notices) {e : String × Outputs} (he : e ∈ c.entries) :
    e.1 ∈ names ∧ ∃ target, target ∈ names ∧ e.2 = .single target := by
  have hmem := h.perm.mem_iff.mpr (List.mem_append_left _ he)
  obtain ⟨link, hlink, rfl⟩ := List.mem_map.mp hmem
  obtain ⟨hsource, htarget⟩ := mem_of_mem_links (List.mem_of_mem_take hlink)
  exact ⟨hsource, link.2, htarget, rfl⟩

theorem map_droppedLink (names : List String) (is : List Nat) :
    (is.filterMap (replaced? names)).map droppedLink =
      is.filterMap fun i => names[i]?.bind fun name =>
        (latestTarget names name i).map fun target => .droppedConnection name target := by
  rw [List.map_filterMap]
  congr 1
  funext i
  unfold replaced?
  rw [Option.map_bind]
  congr 1
  funext name
  exact Option.map_map _ _ _

theorem chainConnections_overwrite (es : List Emitted) :
    chainConnections .overwrite es = .ok (project (chain es.length) (es.map Emitted.name)) := rfl

/-- A chain whose names may not be used twice has the connections it would have otherwise. -/
theorem project_of_reject {es : List Emitted} {r : Connections × List Notice}
    (h : chainConnections .reject es = .ok r) :
    project (chain es.length) (es.map Emitted.name) = r ∧ r.2 = [] := by
  unfold chainConnections at h
  rw [if_pos rfl] at h
  by_cases hnone : reusedNames [] es = []
  · rw [if_pos hnone] at h
    obtain rfl := Except.ok.inj h
    have hnodup : (es.map Emitted.name).Nodup := (reusedNames_eq_nil_iff.mp hnone).1
    have hproject := project_of_nodup hnodup
    rw [List.length_map] at hproject
    refine ⟨rfl, ?_⟩
    rw [hproject]
  · rw [if_neg hnone] at h
    cases h

/-- If names may be used twice, the connections of a chain are always found. Their keys are the
names of all nodes but the last, each in the place of its first use, and every name keeps the last
target it is linked to. Every link that takes the place of an earlier one is noticed in order, with
the target that is lost. So no link is lost in silence: the links that are kept and the links that
are noticed are together all links of the chain. Where no name may be used twice, the connections
are the same, and nothing is noticed. -/
theorem overwriting_notices_every_loss (es : List Emitted) :
    let names := es.map Emitted.name
    ∃ c notices, chainConnections .overwrite es = .ok (c, notices) ∧
      c.keys = names.dropLast.eraseDups ∧
      (∀ name, c.get? name = (latestTarget names name (names.length - 1)).map Outputs.single) ∧
      (∀ n name target, n < names.length →
        (latestTarget names name n = some target ↔
          ∃ i, i < n ∧ names[i]? = some name ∧ names[i + 1]? = some target ∧
            ∀ l, i < l → l < n → names[l]? ≠ some name)) ∧
      notices = (List.range (names.length - 1)).filterMap (fun i =>
        names[i]?.bind fun name => (latestTarget names name i).map fun target =>
          Notice.droppedConnection name target) ∧
      (∃ drops : List (String × String),
        notices = drops.map (fun link => .droppedConnection link.1 link.2) ∧
          List.Perm ((names.zip names.tail).map fun link => (link.1, Outputs.single link.2))
            (c.entries ++ drops.map fun link => (link.1, Outputs.single link.2))) ∧
      (∀ e ∈ c.entries, e.1 ∈ names ∧ ∃ target, target ∈ names ∧ e.2 = .single target) ∧
      ∀ c' notices', chainConnections .reject es = .ok (c', notices') → c' = c ∧ notices = [] := by
  intro names
  have hlength : es.length = names.length := (List.length_map _).symm
  have h := projected names
  rw [← hlength] at h
  refine ⟨(project (chain es.length) names).1, (project (chain es.length) names).2,
    chainConnections_overwrite es, ?_, ?_, ?_, ?_, ?_, ?_, ?_⟩
  · rw [List.dropLast_eq_take, ← hlength]
    exact h.keys
  · rw [← hlength]
    exact h.get
  · intro n name target hn
    exact latestTarget_eq_some_iff hn
  · rw [h.notices, map_droppedLink, ← hlength]
  · refine ⟨_, h.notices, ?_⟩
    have hall : (links names).take (es.length - 1) = links names := by
      apply List.take_of_length_le
      simp [links, hlength]
    have hperm := h.perm
    rw [hall] at hperm
    exact hperm
  · intro e he
    exact mem_of_projected h he
  · intro c' notices' hreject
    obtain ⟨hproject, hnone⟩ := project_of_reject hreject
    rw [hproject]
    exact ⟨rfl, hnone⟩

example :
    (project (chain 5) ["A", "A", "B", "A", "B"]).2 =
      [.droppedConnection "A" "A", .droppedConnection "A" "B"] := by
  decide

end Flowline
