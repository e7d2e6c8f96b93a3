import Flowline.Proofs.Workflow.Configs
import Flowline.Proofs.Workflow.NormalForm

/-!
# Levels of stored steps

A text leaves two levels of nesting for every level of steps: an array, and the object of a step in
it. A step is written with a configuration, even if it was read from a value that has none, so its
text takes up one level more than it may have been read from. `Spans` says what comes of this for
steps that were read with so many levels left: how many levels of steps there can be at most, and
when the steps are written within the levels that they were read from.

Steps that are stored below a step that is no container count here, since they are written too.
-/

namespace Flowline

open Json

namespace Step

mutual

/-- The number of levels that stored steps take up, from a step on. -/
def storedDepth : Step → Nat
  | ⟨_, _, _, _, steps⟩ => 1 + storedDepthAll steps

/-- The number of levels that stored steps take up, from a list of steps on. -/
def storedDepthAll : List Step → Nat
  | [] => 0
  | s :: ss => max (storedDepth s) (storedDepthAll ss)

end

theorem storedDepth_eq (s : Step) : s.storedDepth = 1 + storedDepthAll s.steps := by
  rcases s with ⟨id, kind, name, config, steps⟩
  rw [storedDepth]

theorem storedDepthAll_singleton (s : Step) : storedDepthAll [s] = s.storedDepth := by
  rw [storedDepthAll, storedDepthAll, Nat.max_zero]

/-! ## Levels of written steps -/

theorem toItems_eq_map (ss : List Step) : toItems ss = ss.map toJson := by
  induction ss with
  | nil => rfl
  | cons s ss ih => rw [toItems, ih, List.map_cons]

theorem forall_mem_textMember (key : String) (text : Option String) (n : Nat) :
    (∀ m ∈ textMember key text, m.2.depth ≤ n) ↔ True := by
  cases text with
  | none => simp [textMember]
  | some t => simp [textMember, Json.depth]

/-- A step takes up a level, its configuration stands in it, and the steps below it stand in an
array in it. -/
theorem depth_toJson_le_iff {s : Step} {n : Nat} :
    s.toJson.depth ≤ n + 1 ↔
      (Json.object s.config).depth ≤ n ∧ ∀ t ∈ s.steps, t.toJson.depth + 1 ≤ n := by
  have htag (tag : String) : (Json.string tag).depth ≤ n := Nat.zero_le n
  rcases s with ⟨id, kind, name, config, steps⟩
  cases steps with
  | nil =>
    rw [toJson, depth_object_le_iff]
    simp only [List.forall_mem_append, forall_mem_textMember, List.forall_mem_singleton, htag,
      List.not_mem_nil, false_implies, implies_true, true_and, and_true]
  | cons t ts =>
    have harray : (Json.array (toJson t :: toItems ts)).depth ≤ n ↔
        ∀ u ∈ t :: ts, u.toJson.depth + 1 ≤ n := by
      rw [← toItems, toItems_eq_map]
      cases n with
      | zero =>
        exact iff_of_false (Nat.not_succ_le_zero _) fun h =>
          Nat.not_succ_le_zero _ (h t List.mem_cons_self)
      | succ n => simp only [depth_array_le_iff, List.forall_mem_map, Nat.add_le_add_iff_right]
    rw [toJson, depth_object_le_iff]
    simp only [List.forall_mem_append, forall_mem_textMember, List.forall_mem_singleton, htag,
      harray, true_and]

/-! ## Levels of steps that were read -/

/-- What is known of steps that were read with so many levels left. They take up at most half of
these levels and one more, and they are written within these levels just if they do without the
one more. -/
structure Spans (n : Nat) (ss : List Step) : Prop where
  stored : 2 * storedDepthAll ss ≤ n + 2
  written : (∀ s ∈ ss, s.toJson.depth ≤ n) ↔ 2 * storedDepthAll ss ≤ n

namespace Spans

variable {n : Nat} {s : Step} {ss : List Step}

theorem nil (n : Nat) : Spans n [] := by
  refine ⟨Nat.zero_le _, ?_⟩
  simp [storedDepthAll]

theorem cons (h : Spans n [s]) (hs : Spans n ss) : Spans n (s :: ss) := by
  have hhead := h.written
  rw [List.forall_mem_singleton, storedDepthAll_singleton] at hhead
  have hstored := h.stored
  have hstoreds := hs.stored
  rw [storedDepthAll_singleton] at hstored
  constructor
  · rw [storedDepthAll]
    omega
  · rw [List.forall_mem_cons, hhead, hs.written, storedDepthAll]
    omega

/-- A step without any steps below it takes up one level, and is written in two. -/
theorem blank (n : Nat) : Spans n [{}] := by
  have hdepth : (Step.toJson {}).depth = 2 := rfl
  have hstored : storedDepthAll [{}] = 1 := rfl
  refine ⟨by omega, ?_⟩
  rw [List.forall_mem_singleton, hdepth, hstored]

/-- A step whose configuration fits inside it, above steps that span one level less, which their
array takes. Without a level for that array, there are no steps below it. -/
theorem above (hconfig : 0 < n → (Json.object s.config).depth ≤ n) (hnone : n = 0 → s.steps = [])
    (hsteps : ∀ m, n = m + 1 → Spans m s.steps) : Spans (n + 1) [s] := by
  have hstored : storedDepthAll [s] = 1 + storedDepthAll s.steps := by
    rw [storedDepthAll_singleton, storedDepth_eq]
  cases n with
  | zero =>
    -- The step is on the last level. It is read without a configuration, but written with one.
    have hpositive : ¬(Json.object s.config).depth ≤ 0 := Nat.not_succ_le_zero _
    rw [hnone rfl, storedDepthAll] at hstored
    refine ⟨by omega, ?_⟩
    rw [List.forall_mem_singleton, depth_toJson_le_iff, hstored]
    exact ⟨fun h => absurd h.1 hpositive, fun h => absurd h (by decide)⟩
  | succ m =>
    -- The step and the array in it take two levels, which is what one level of steps counts for.
    obtain ⟨hbound, hwritten⟩ := hsteps m rfl
    refine ⟨by omega, ?_⟩
    rw [List.forall_mem_singleton, depth_toJson_le_iff, hstored]
    simp only [Nat.add_le_add_iff_right, hwritten]
    have hfits := hconfig (Nat.succ_pos m)
    constructor
    · intro h
      omega
    · intro h
      exact ⟨hfits, by omega⟩

end Spans

/-- Steps that were read have levels around them. -/
theorem ofMembers_eq_nil {ms : Members} (h : ∀ m ∈ ms, m.2.depth ≤ 0) : ofMembers ms = [] := by
  rw [ofMembers_eq]
  split
  · rename_i v hget
    have hv := h _ (Members.mem_of_get? hget)
    cases v with
    | array items => exact absurd hv (Nat.not_succ_le_zero _)
    | _ => rfl
  · rfl

mutual

/-- A step that was read takes the levels of its object and, for the steps below it, those of their
array. -/
theorem spans_ofJson : (j : Json) → (n : Nat) → FitsIn n j → Spans n [ofJson j]
  | .object ms, n, h => by
    obtain ⟨m, rfl⟩ : ∃ m, n = m + 1 := Nat.exists_eq_succ_of_ne_zero fun hn => by
      subst hn
      exact Nat.not_succ_le_zero _ h.2
    have hms := fitsIn_object.mp h
    rw [ofJson]
    refine .above (fun hm => (hms.object hm "config").2) (fun hm => ?_) fun k hk => ?_
    · subst hm
      exact ofMembers_eq_nil fun e he => (hms.2 e he).2
    · subst hk
      exact spans_ofMembers ms k hms.2
  | .null, n, _ => .blank n
  | .bool _, n, _ => .blank n
  | .int _, n, _ => .blank n
  | .double _, n, _ => .blank n
  | .string _, n, _ => .blank n
  | .array _, n, _ => .blank n

theorem spans_ofMembers : (ms : List (String × Json)) → (n : Nat) →
    (∀ m ∈ ms, FitsIn (n + 1) m.2) → Spans n (ofMembers ms)
  | [], n, _ => .nil n
  | (k, v) :: ms, n, h => by
    obtain ⟨hv, hms⟩ := List.forall_mem_cons.mp h
    rw [ofMembers]
    split
    · exact spans_ofSlot v n hv
    · exact spans_ofMembers ms n hms

theorem spans_ofSlot : (j : Json) → (n : Nat) → FitsIn (n + 1) j → Spans n (ofSlot j)
  | .array items, n, h => by
    rw [ofSlot]
    exact spans_ofItems items n (fitsIn_array.mp h)
  | .null, n, _ => .nil n
  | .bool _, n, _ => .nil n
  | .int _, n, _ => .nil n
  | .double _, n, _ => .nil n
  | .string _, n, _ => .nil n
  | .object _, n, _ => .nil n

theorem spans_ofItems : (js : List Json) → (n : Nat) → (∀ j ∈ js, FitsIn n j) →
    Spans n (ofItems js)
  | [], n, _ => .nil n
  | j :: js, n, h => by
    obtain ⟨hj, hjs⟩ := List.forall_mem_cons.mp h
    exact .cons (spans_ofJson j n hj) (spans_ofItems js n hjs)

end

end Step

end Flowline
