import Flowline.Proofs.Lowering.Layout
import Flowline.Proofs.Steps.Paths

/-!
# Paths as addresses

A path lists numbers in decimal, with dots between them, and no number holds a dot, so the numbers
can be read back: `pathNumbers?_path`. They count siblings from one, from the outermost on, and
following them leads to just one step. Visits go through the steps in the lexicographic order of
their numbers, a container in front of the steps below it, so no two steps share a path.
-/

namespace Flowline

/-! ## Numbers in paths -/

/-- The number that some digits are in decimal. -/
def decimal? (digits : List Char) : Option Nat :=
  if digits ≠ [] ∧ digits.all Char.isDigit then some (Nat.ofDigitChars 10 digits 0) else none

/-- The numbers of a text that lists them in decimal, with dots between them. -/
def pathNumbers? (path : String) : Option (List Nat) := (path.toList.splitOn '.').mapM decimal?

/-- The numbers of a visited step, which are its position and those of the containers around it,
counted from one. -/
def Visit.numbers (v : Visit) : List Nat := (v.above ++ [v.index]).map (· + 1)

/-- The digits of a number. -/
def decimalText (n : Nat) : List Char := (toString n).toList

theorem decimal?_decimalText (n : Nat) : decimal? (decimalText n) = some n := by
  have htext : decimalText n = Nat.toDigits 10 n := by
    rw [decimalText, Nat.toString_eq_repr, Nat.toList_repr]
  have hsome : Nat.toDigits 10 n ≠ [] := Nat.toDigits_ne_nil
  have hdigits : (Nat.toDigits 10 n).all Char.isDigit = true :=
    List.all_eq_true.mpr fun c hc => Nat.isDigit_of_mem_toDigits (by decide) (by decide) hc
  rw [decimal?, htext, if_pos ⟨hsome, hdigits⟩, Nat.ofDigitChars_toDigits (by decide) (by decide)]

theorem intercalate_glued (first second : List Char) (rest : List (List Char)) :
    ['.'].intercalate ((first ++ '.' :: second) :: rest) =
      ['.'].intercalate (first :: second :: rest) := by
  cases rest with
  | nil => simp
  | cons third rest =>
    rw [List.intercalate_cons_cons, List.intercalate_cons_cons, List.intercalate_cons_cons]
    simp

theorem toList_childPath_below (parent : String) (positions : List Nat) (index : Nat) :
    (childPath (pathBelow (some parent) positions) index).toList =
      ['.'].intercalate
        (parent.toList :: (positions ++ [index]).map fun i => decimalText (i + 1)) := by
  induction positions generalizing parent with
  | nil => simp [childPath, decimalText]
  | cons position positions ih =>
    have hparent : (childPath (some parent) position).toList =
        parent.toList ++ '.' :: decimalText (position + 1) := by
      simp [childPath, decimalText]
    have hstep : pathBelow (some parent) (position :: positions) =
        pathBelow (some (childPath (some parent) position)) positions := rfl
    rw [hstep, ih, hparent, intercalate_glued]
    rfl

/-- A path is the list of its numbers in decimal, with dots between them. -/
theorem Visit.toList_path (v : Visit) :
    v.path.toList = ['.'].intercalate (v.numbers.map decimalText) := by
  rcases v with ⟨s, index, above⟩
  unfold Visit.path Visit.numbers
  cases above with
  | nil => simp [childPath, decimalText]
  | cons position positions =>
    have hstep : pathBelow none (position :: positions) =
        pathBelow (some (toString (position + 1))) positions := rfl
    simp only [hstep, toList_childPath_below, List.map_map]
    rfl

theorem dot_not_mem_decimalText (n : Nat) : '.' ∉ decimalText n :=
  List.count_eq_zero.mp (dots_toString n)

theorem mapM_decimalText (ns : List Nat) : (ns.map decimalText).mapM decimal? = some ns := by
  induction ns with
  | nil => rfl
  | cons n ns ih =>
    rw [List.map_cons, List.mapM_cons, decimal?_decimalText, ih]
    rfl

/-- The numbers of a path can be read back. -/
theorem pathNumbers?_path (v : Visit) : pathNumbers? v.path = some v.numbers := by
  have hparts : ∀ part ∈ v.numbers.map decimalText, '.' ∉ part := by
    intro part hpart
    obtain ⟨n, -, rfl⟩ := List.mem_map.mp hpart
    exact dot_not_mem_decimalText n
  have hsome : v.numbers.map decimalText ≠ [] := by
    simp [Visit.numbers]
  rw [pathNumbers?, v.toList_path, List.splitOn_intercalate '.' hparts hsome, mapM_decimalText]

/-! ## Following numbers -/

namespace Step

/-- The sibling with a number, counted from one. -/
def sibling? : List Step → Nat → Option Step
  | _, 0 => none
  | ss, n + 1 => ss[n]?

/-- The step that numbers lead to: the first number is that of a sibling, and each further one is
that of a step among those visited below. -/
def follow? : List Step → List Nat → Option Step
  | _, [] => none
  | ss, [n] => sibling? ss n
  | ss, n :: m :: ns => (sibling? ss n).bind fun s => follow? s.children (m :: ns)

/-- Just the visited steps can be reached by numbers, each by its own. -/
theorem mem_visitsAll_iff {above : List Nat} {index : Nat} {ss : List Step} {v : Visit} :
    v ∈ visitsAll above index ss ↔ ∃ n below, v.above ++ [v.index] = above ++ (index + n) :: below ∧
      follow? ss ((n :: below).map (· + 1)) = some v.step := by
  induction ss using siblings_induction generalizing above index with
  | nil =>
    constructor
    · intro h
      cases h
    · rintro ⟨n, below, -, hfollow⟩
      cases below <;> cases hfollow
  | cons s ss below rest =>
    rw [visitsAll_cons, List.mem_cons, List.mem_append, below, rest]
    constructor
    · rintro (rfl | ⟨m, deeper, hnumbers, hfollow⟩ | ⟨n, deeper, hnumbers, hfollow⟩)
      · exact ⟨0, [], rfl, rfl⟩
      · refine ⟨0, m :: deeper, ?_, hfollow⟩
        rw [hnumbers, List.append_assoc, List.singleton_append, Nat.zero_add, Nat.add_zero]
      · refine ⟨n + 1, deeper, ?_, ?_⟩
        · rw [hnumbers, Nat.add_right_comm, Nat.add_assoc]
        · cases deeper <;> exact hfollow
    · rintro ⟨n, deeper, hnumbers, hfollow⟩
      cases n with
      | succ n =>
        refine .inr (.inr ⟨n, deeper, ?_, ?_⟩)
        · rw [hnumbers, Nat.add_right_comm, Nat.add_assoc]
        · cases deeper <;> exact hfollow
      | zero =>
        cases deeper with
        | nil =>
          obtain ⟨habove, hindex⟩ := List.append_inj' hnumbers rfl
          obtain rfl := Option.some.inj hfollow
          left
          rcases v with ⟨s, index', above'⟩
          cases habove
          cases hindex
          rfl
        | cons m deeper =>
          refine .inr (.inl ⟨m, deeper, ?_, hfollow⟩)
          rw [hnumbers, List.append_assoc, List.singleton_append, Nat.zero_add, Nat.add_zero]

/-- Numbers that lead to a step are counted from one. -/
theorem exists_positions_of_follow? {ss : List Step} {ns : List Nat} {s : Step}
    (h : follow? ss ns = some s) : ∃ above index, ns = (above ++ [index]).map (· + 1) := by
  induction ns generalizing ss with
  | nil => cases h
  | cons n ns ih =>
    cases n with
    | zero => cases ns <;> cases h
    | succ n =>
      cases ns with
      | nil => exact ⟨[], n, rfl⟩
      | cons m ns =>
        obtain ⟨t, -, hbelow⟩ := Option.bind_eq_some_iff.mp h
        obtain ⟨above, index, hpositions⟩ := ih hbelow
        exact ⟨n :: above, index, by rw [hpositions]; rfl⟩

/-- Numbers lead to a step just if they are those of its visit. -/
theorem follow?_eq_some_iff {ss : List Step} {ns : List Nat} {s : Step} :
    follow? ss ns = some s ↔ ∃ v ∈ visitsAll [] 0 ss, v.numbers = ns ∧ v.step = s := by
  constructor
  · intro h
    obtain ⟨above, index, rfl⟩ := exists_positions_of_follow? h
    refine ⟨⟨s, index, above⟩, ?_, rfl, rfl⟩
    obtain ⟨n, below, hpositions⟩ : ∃ n below, above ++ [index] = n :: below :=
      List.exists_cons_of_ne_nil (by simp)
    refine mem_visitsAll_iff.mpr ⟨n, below, ?_, ?_⟩
    · rw [hpositions, Nat.zero_add, List.nil_append]
    · rwa [hpositions] at h
  · rintro ⟨v, hv, rfl, rfl⟩
    obtain ⟨n, below, hpositions, hfollow⟩ := mem_visitsAll_iff.mp hv
    rw [Nat.zero_add, List.nil_append] at hpositions
    rwa [Visit.numbers, hpositions]

/-! ## The order of numbers -/

/-- Siblings have the numbers of the containers around them in front of their own. -/
theorem numbers_of_mem_visitsAll {above : List Nat} {index : Nat} {ss : List Step} {v : Visit}
    (h : v ∈ visitsAll above index ss) :
    ∃ n below, v.numbers = above.map (· + 1) ++ (index + n + 1) :: below := by
  obtain ⟨n, below, hpositions, -⟩ := mem_visitsAll_iff.mp h
  refine ⟨n, below.map (· + 1), ?_⟩
  rw [Visit.numbers, hpositions, List.map_append, List.map_cons]

theorem lex_of_lt {m n : Nat} (front below below' : List Nat) (h : m < n) :
    List.Lex (· < ·) (front ++ m :: below) (front ++ n :: below') :=
  List.append_left_lt (List.Lex.rel h)

theorem lex_of_prefix (front : List Nat) (n : Nat) (below : List Nat) :
    List.Lex (· < ·) front (front ++ n :: below) := by
  have h : List.Lex (· < ·) (front ++ []) (front ++ n :: below) :=
    List.append_left_lt List.Lex.nil
  rwa [List.append_nil] at h

/-- The steps are visited in the order of their numbers. -/
theorem pairwise_numbers (above : List Nat) (index : Nat) (ss : List Step) :
    ((visitsAll above index ss).map Visit.numbers).Pairwise (List.Lex (· < ·)) := by
  induction ss using siblings_induction generalizing above index with
  | nil => exact .nil
  | cons s ss below rest =>
    have hself : (Visit.mk s index above).numbers = above.map (· + 1) ++ [index + 1] := by
      simp [Visit.numbers]
    -- What stands below the first step has its numbers in front; its siblings have greater ones.
    have hbelow : ∀ v ∈ visitsAll (above ++ [index]) 0 s.children, ∃ n deeper,
        v.numbers = (above.map (· + 1) ++ [index + 1]) ++ n :: deeper := by
      intro v hv
      obtain ⟨n, deeper, hv⟩ := numbers_of_mem_visitsAll hv
      exact ⟨0 + n + 1, deeper, by simp [hv]⟩
    have hrest : ∀ v ∈ visitsAll above (index + 1) ss, ∃ n deeper,
        v.numbers = above.map (· + 1) ++ n :: deeper ∧ index + 1 < n := by
      intro v hv
      obtain ⟨n, deeper, hv⟩ := numbers_of_mem_visitsAll hv
      exact ⟨_, deeper, hv, by omega⟩
    rw [visitsAll_cons, List.map_cons, List.map_append, List.pairwise_cons, List.pairwise_append]
    refine ⟨?_, below _ _, rest _ _, ?_⟩
    · rw [List.forall_mem_append, List.forall_mem_map, List.forall_mem_map, hself]
      constructor
      · intro v hv
        obtain ⟨n, deeper, hnumbers⟩ := hbelow v hv
        rw [hnumbers]
        exact lex_of_prefix _ n deeper
      · intro v hv
        obtain ⟨n, deeper, hnumbers, hlater⟩ := hrest v hv
        rw [hnumbers]
        exact lex_of_lt _ [] deeper hlater
    · rw [List.forall_mem_map]
      intro v hv
      rw [List.forall_mem_map]
      intro v' hv'
      obtain ⟨n, deeper, hnumbers⟩ := hbelow v hv
      obtain ⟨n', deeper', hnumbers', hlater⟩ := hrest v' hv'
      rw [hnumbers, hnumbers', List.append_assoc, List.singleton_append]
      exact lex_of_lt _ (n :: deeper) deeper' hlater

/-! ## How many numbers -/

theorem length_numbers_le (above : List Nat) (index : Nat) (ss : List Step) :
    ∀ v ∈ visitsAll above index ss, v.numbers.length ≤ above.length + depthAll ss := by
  induction ss using siblings_induction generalizing above index with
  | nil => exact fun _ h => absurd h List.not_mem_nil
  | cons s ss below rest =>
    intro v hv
    have hself : (Visit.mk s index above).numbers.length = above.length + 1 := by
      simp [Visit.numbers]
    rw [visitsAll_cons, List.mem_cons, List.mem_append] at hv
    rw [depthAll, depth_eq]
    rcases hv with rfl | inner | later
    · omega
    · have hinner := below _ _ v inner
      rw [List.length_append, List.length_singleton] at hinner
      omega
    · have hlater := rest _ _ v later
      omega

theorem exists_length_numbers_eq (above : List Nat) (index : Nat) {ss : List Step} (h : ss ≠ []) :
    ∃ v ∈ visitsAll above index ss, v.numbers.length = above.length + depthAll ss := by
  induction ss using siblings_induction generalizing above index with
  | nil => exact absurd rfl h
  | cons s ss below rest =>
    have hself : (Visit.mk s index above).numbers.length = above.length + 1 := by
      simp [Visit.numbers]
    rw [visitsAll_cons, depthAll, depth_eq]
    by_cases hdeeper : 1 + depthAll s.children < depthAll ss
    · have hss : ss ≠ [] := by
        rintro rfl
        exact absurd hdeeper (Nat.not_lt_zero _)
      obtain ⟨v, hv, hlength⟩ := rest above (index + 1) hss
      exact ⟨v, List.mem_cons_of_mem _ (List.mem_append_right _ hv), by omega⟩
    · by_cases hchildren : s.children = []
      · refine ⟨_, List.mem_cons_self, ?_⟩
        rw [hchildren, depthAll] at hdeeper ⊢
        omega
      · obtain ⟨v, hv, hlength⟩ := below (above ++ [index]) 0 hchildren
        rw [List.length_append, List.length_singleton] at hlength
        exact ⟨v, List.mem_cons_of_mem _ (List.mem_append_left _ hv), by omega⟩

end Step

namespace Workflow

/-- The paths of emitted nodes locate their steps. In decimal, with dots between them, each lists
numbers that lead to just the step that its node was emitted for; they are in lexicographic order,
so no path stands twice; whatever step can be reached has its path among them; and the longest path
has as many numbers as visited steps take up levels. -/
theorem paths_locate_steps (w : Workflow) (y : Int) :
    let nodes := (Step.flattenAll none 0 y w.steps).1
    ∃ numbers : List (List Nat),
      nodes.map (fun e => e.path.bind pathNumbers?) = numbers.map some ∧
      numbers.Pairwise (List.Lex (· < ·)) ∧
      (nodes.map Emitted.path).Nodup ∧
      (∀ (k : Nat) (e : Emitted) (ns : List Nat), nodes[k]? = some e → numbers[k]? = some ns →
        ∃ s index, Step.follow? w.steps ns = some s ∧ ns.getLast? = some (index + 1) ∧
          (Step.reached w.steps)[k]? = some s ∧ e = s.emit index e.path (rowAt y k)) ∧
      (∀ ns s, Step.follow? w.steps ns = some s → ns ∈ numbers) ∧
      (∀ ns ∈ numbers, ns.length ≤ w.depth) ∧
      (w.steps ≠ [] → ∃ ns ∈ numbers, ns.length = w.depth) := by
  intro nodes
  have hnodes : nodes = w.visits.mapIdx fun k v => v.emit none (rowAt y k) := emitted_eq w y
  have hnumbers : nodes.map (fun e => e.path.bind pathNumbers?) =
      (w.visits.map Visit.numbers).map some := by
    rw [hnodes, List.map_map]
    exact map_emit_visits (fun v _ => pathNumbers?_path v) w.visits _
  have hsorted := Step.pairwise_numbers [] 0 w.steps
  refine ⟨w.visits.map Visit.numbers, hnumbers, hsorted, ?_, ?_, ?_, ?_, ?_⟩
  · -- Paths that were equal would have equal numbers, which are less than themselves.
    have hread : ((nodes.map Emitted.path).map fun path => path.bind pathNumbers?).Pairwise
        (· ≠ ·) := by
      rw [List.map_map]
      refine (congrArg (List.Pairwise (· ≠ ·)) hnumbers).mpr ?_
      refine List.pairwise_map.mpr (hsorted.imp fun hless hsame => ?_)
      rw [Option.some.inj hsame] at hless
      exact List.lt_irrefl _ hless
    exact List.Pairwise.of_map _ (fun _ _ hne hsame => hne (hsame ▸ rfl)) hread
  · intro k e ns he hns
    rw [hnodes, List.getElem?_mapIdx, Option.map_eq_some_iff] at he
    obtain ⟨v, hv, rfl⟩ := he
    rw [List.getElem?_map, hv] at hns
    obtain rfl := Option.some.inj hns
    refine ⟨v.step, v.index, ?_, ?_, ?_, rfl⟩
    · exact Step.follow?_eq_some_iff.mpr ⟨v, List.mem_of_getElem? hv, rfl, rfl⟩
    · simp [Visit.numbers]
    · rw [Step.reached, List.getElem?_map]
      exact congrArg (Option.map Visit.step) hv
  · intro ns s hfollow
    obtain ⟨v, hv, rfl, -⟩ := Step.follow?_eq_some_iff.mp hfollow
    exact List.mem_map_of_mem hv
  · intro ns hns
    obtain ⟨v, hv, rfl⟩ := List.mem_map.mp hns
    have hlength := Step.length_numbers_le [] 0 w.steps v hv
    rwa [List.length_nil, Nat.zero_add] at hlength
  · intro hsteps
    obtain ⟨v, hv, hlength⟩ := Step.exists_length_numbers_eq [] 0 hsteps
    rw [List.length_nil, Nat.zero_add] at hlength
    exact ⟨v.numbers, List.mem_map_of_mem hv, hlength⟩

/-- A container with twelve steps below it in front of ten siblings, the last of which is a
container with two steps below it. -/
theorem paths_locate_steps_twelfth :
    let w : Workflow := {
      steps := { kind := .subWorkflow, steps := List.replicate 12 { kind := .email } } ::
        (List.replicate 9 {} ++ [{ kind := .subWorkflow, steps := [{}, { kind := .delay }] }]) }
    let nodes := (Step.flattenAll none 0 250 w.steps).1
    nodes[12]?.bind Emitted.path = some "1.12" ∧ nodes[24]?.bind Emitted.path = some "11.2" ∧
      (nodes.map Emitted.path).Nodup ∧
      ∃ numbers : List (List Nat), [1, 12] ∈ numbers ∧ [11, 2] ∈ numbers ∧
        numbers.Pairwise (List.Lex (· < ·)) ∧ ∀ ns ∈ numbers, ns.length ≤ 2 := by
  intro w nodes
  obtain ⟨numbers, -, hsorted, hdistinct, -, hreached, hdepth, -⟩ := w.paths_locate_steps 250
  exact ⟨by decide, by decide, hdistinct, numbers, hreached _ _ rfl, hreached _ _ rfl, hsorted,
    hdepth⟩

end Workflow

end Flowline
