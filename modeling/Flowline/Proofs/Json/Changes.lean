import Flowline.Json.Changes
import Flowline.Proofs.Json.RoundTrip
import Flowline.Proofs.Lists
import Mathlib.Data.List.Induction

/-!
# Records made member by member

A record is made of the members of an object in order. A member whose key names a field changes that
field, and any other member changes nothing. Where a key is there twice, the changes are refused;
without that rule, the last of its values would decide.
-/

namespace Flowline

/-! ## Fields of objects with distinct keys -/

theorem Members.get?_eq_none {ms : Members} {key : String} (h : key ∉ ms.keys) :
    ms.get? key = none := by
  induction ms with
  | nil => rfl
  | cons m ms ih =>
    rcases m with ⟨k, v⟩
    obtain ⟨hkey, hrest⟩ := not_or.mp (mt List.mem_cons.mpr h)
    rw [get?, if_neg (Ne.symm hkey), ih hrest]

namespace Members

theorem only_cons_of_mem {keys : List String} {key : String} (h : key ∈ keys) (v : Json)
    (ms : Members) : only ((key, v) :: ms) keys = (key, v) :: ms.only keys := by
  rw [only, List.filter_cons, if_pos (decide_eq_true h)]
  rfl

theorem only_cons_of_not_mem {keys : List String} {key : String} (h : key ∉ keys) (v : Json)
    (ms : Members) : only ((key, v) :: ms) keys = ms.only keys := by
  rw [only, List.filter_cons, if_neg (mt of_decide_eq_true h)]
  rfl

theorem nodup_keys_only {ms : Members} (h : ms.keys.Nodup) (keys : List String) :
    (ms.only keys).keys.Nodup :=
  h.sublist (List.filter_sublist.map _)

theorem keys_only (ms : Members) (keys : List String) :
    (ms.only keys).keys = ms.keys.filter fun key => key ∈ keys := by
  rw [only, Members.keys, Members.keys, List.filter_map]
  rfl

/-- Which keys are repeated among some can be told from how often each is there. -/
theorem nodup_keys_only_iff {ms : Members} {keys : List String} :
    (ms.only keys).keys.Nodup ↔ ∀ key ∈ keys, ms.keys.count key ≤ 1 := by
  have hcount {key : String} (h : key ∈ keys) :
      (ms.keys.filter fun k => k ∈ keys).count key = ms.keys.count key :=
    List.count_filter (p := fun k => k ∈ keys) (decide_eq_true h)
  rw [keys_only, List.nodup_iff_count]
  constructor
  · intro h key hkey
    exact hcount hkey ▸ h key
  · intro h key
    by_cases hkey : key ∈ keys
    · exact (hcount hkey).symm ▸ h key hkey
    · have hnone : key ∉ ms.keys.filter fun k => k ∈ keys := fun hmem =>
        hkey (of_decide_eq_true (List.mem_filter.mp hmem).2)
      rw [List.count_eq_zero_of_not_mem hnone]
      exact Nat.zero_le 1

theorem get?_only {keys : List String} {key : String} (h : key ∈ keys) (ms : Members) :
    (ms.only keys).get? key = ms.get? key := by
  induction ms with
  | nil => rfl
  | cons m ms ih =>
    rcases m with ⟨k, v⟩
    by_cases hk : k ∈ keys
    · rw [only_cons_of_mem hk, get?, get?, ih]
    · have hne : k ≠ key := fun heq => hk (heq ▸ h)
      rw [only_cons_of_not_mem hk, get?, if_neg hne, ih]

theorem only_append (ms ns : Members) (keys : List String) :
    (ms ++ ns).only keys = ms.only keys ++ ns.only keys :=
  List.filter_append ..

theorem only_map (f : Json → Json) (ms : Members) (keys : List String) :
    only (ms.map fun m => (m.1, f m.2)) keys = (ms.only keys).map fun m => (m.1, f m.2) :=
  List.filter_map ..

theorem only_put_of_not_mem {keys : List String} {key : String} (h : key ∉ keys) (ms : Members)
    (v : Json) : (ms.put key v).only keys = ms.only keys := by
  induction ms with
  | nil => exact only_cons_of_not_mem h v []
  | cons m ms ih =>
    rcases m with ⟨k, w⟩
    rw [put]
    split
    · rename_i hkey
      subst hkey
      rw [only_cons_of_not_mem h, only_cons_of_not_mem h]
    · by_cases hk : k ∈ keys
      · rw [only_cons_of_mem hk, only_cons_of_mem hk, ih]
      · rw [only_cons_of_not_mem hk, only_cons_of_not_mem hk, ih]

theorem ofPairs_concat (ms : Members) (key : String) (v : Json) :
    ofPairs (ms ++ [(key, v)]) = (ofPairs ms).put key v := by
  rw [ofPairs, ofPairs, List.foldl_append]
  rfl

theorem nodup_keys_ofPairs (ms : Members) : (ofPairs ms).keys.Nodup := by
  induction ms using List.reverseRecOn with
  | nil => exact List.nodup_nil
  | append_singleton ms m ih =>
    rw [ofPairs_concat, keys_put]
    exact nodup_add ih m.1

/-- Of members that are set one after the other, the last one with a key decides. -/
theorem get?_ofPairs (ms : Members) (key : String) :
    (ofPairs ms).get? key = ms.reverse.lookup key := by
  induction ms using List.reverseRecOn with
  | nil => rfl
  | append_singleton ms m ih =>
    rcases m with ⟨k, v⟩
    rw [ofPairs_concat, List.reverse_append, List.reverse_singleton, List.singleton_append,
      List.lookup_cons]
    by_cases hkey : key = k
    · subst hkey
      rw [get?_put_self, beq_self_eq_true]
    · rw [get?_put_of_ne _ _ (Ne.symm hkey), ih, beq_eq_false_iff_ne.mpr hkey]

/-- Members that are set one after the other are there as they are, as far as their keys are not
repeated. -/
theorem only_ofPairs {ms : Members} {keys : List String} (h : (ms.only keys).keys.Nodup) :
    (ofPairs ms).only keys = ms.only keys := by
  induction ms using List.reverseRecOn with
  | nil => rfl
  | append_singleton ms m ih =>
    rcases m with ⟨key, v⟩
    rw [only_append, Members.keys, List.map_append] at h
    have hbefore := ih (List.nodup_append.mp h).1
    rw [ofPairs_concat, only_append]
    by_cases hkey : key ∈ keys
    · have hlast : only [(key, v)] keys = [(key, v)] := only_cons_of_mem hkey v []
      have hnew : key ∉ (ofPairs ms).keys := by
        intro hmem
        have hfound : key ∈ (Members.only ms keys).keys := by
          rw [← hbefore, keys_only]
          exact List.mem_filter.mpr ⟨hmem, decide_eq_true hkey⟩
        rw [hlast] at h
        exact (List.nodup_append.mp h).2.2 key hfound key List.mem_cons_self rfl
      rw [Json.put_of_not_mem hnew, only_append, hbefore]
    · have hlast : only [(key, v)] keys = [] := only_cons_of_not_mem hkey v []
      rw [only_put_of_not_mem hkey, hbefore, hlast, List.append_nil]

end Members

section Fields

variable {σ α : Type} {set : σ → String → Json → σ}

/-- Changes with new and distinct keys are all made. -/
theorem Json.makeChanges_ok {seen : List String} {ms : Members} (hnodup : ms.keys.Nodup)
    (hseen : ∀ key ∈ ms.keys, key ∉ seen) (x : σ) :
    makeChanges seen x (ms.map fun m => (m.1, .ok fun x => set x m.1 m.2)) =
      .ok (ms.foldl (fun x m => set x m.1 m.2) x) := by
  induction ms generalizing seen x with
  | nil => rfl
  | cons m ms ih =>
    obtain ⟨hkey, hrest⟩ := List.forall_mem_cons.mp hseen
    obtain ⟨hnew, hnodup⟩ := List.nodup_cons.mp hnodup
    have hmore : ∀ key ∈ Members.keys ms, key ∉ m.1 :: seen := by
      intro key hmem hkey
      rcases List.mem_cons.mp hkey with rfl | hold
      · exact hnew hmem
      · exact hrest key hmem hold
    rw [List.map_cons, makeChanges, if_neg hkey]
    exact ih hnodup hmore _

/-- A change with a key that is there twice, or was there before, is refused. -/
theorem Json.makeChanges_duplicate {seen : List String} {ms : Members}
    (h : ¬(ms.keys.Nodup ∧ ∀ key ∈ ms.keys, key ∉ seen)) (x : σ) :
    ∃ key ∈ ms.keys, 2 ≤ (ms.keys ++ seen).count key ∧
      makeChanges seen x (ms.map fun m => (m.1, .ok fun x => set x m.1 m.2)) =
        .error (.duplicateField key) := by
  induction ms generalizing seen x with
  | nil => exact absurd ⟨List.nodup_nil, fun _ hmem => absurd hmem List.not_mem_nil⟩ h
  | cons m ms ih =>
    rcases m with ⟨key, v⟩
    by_cases hseen : key ∈ seen
    · refine ⟨key, List.mem_cons_self, ?_, if_pos hseen⟩
      have hcount : 1 ≤ seen.count key := List.count_pos_iff.mpr hseen
      have hhead : (Members.keys ((key, v) :: ms)).count key = (Members.keys ms).count key + 1 :=
        List.count_cons_self
      rw [List.count_append, hhead]
      omega
    · have hmore : ¬((Members.keys ms).Nodup ∧ ∀ k ∈ Members.keys ms, k ∉ key :: seen) := by
        rintro ⟨hnodup, hnew⟩
        refine h ⟨List.nodup_cons.mpr ⟨fun hmem => hnew key hmem List.mem_cons_self, hnodup⟩, ?_⟩
        refine List.forall_mem_cons.mpr ⟨hseen, fun k hk hmem => ?_⟩
        exact hnew k hk (List.mem_cons_of_mem key hmem)
      obtain ⟨k, hk, hcount, hrefused⟩ := ih hmore (set x key v)
      have hperm : (Members.keys ms ++ key :: seen).Perm (Members.keys ((key, v) :: ms) ++ seen) :=
        List.perm_middle
      refine ⟨k, List.mem_cons_of_mem key hk, hperm.count_eq k ▸ hcount, ?_⟩
      rw [List.map_cons, makeChanges, if_neg hseen]
      exact hrefused

/-- Members whose keys mean nothing change nothing. -/
theorem foldl_only {known : List String} (h : ∀ x k v, k ∉ known → set x k v = x) (ms : Members)
    (x : σ) :
    (ms.only known).foldl (fun x m => set x m.1 m.2) x =
      ms.foldl (fun x m => set x m.1 m.2) x := by
  induction ms generalizing x with
  | nil => rfl
  | cons m ms ih =>
    rcases m with ⟨k, v⟩
    by_cases hknown : k ∈ known
    · rw [Members.only_cons_of_mem hknown, List.foldl_cons, List.foldl_cons, ih]
    · rw [Members.only_cons_of_not_mem hknown, List.foldl_cons, h x k v hknown, ih]

/-- A field, after members were taken in order, is what the member with its key says. -/
theorem foldl_field (set : σ → String → Json → σ) (get : σ → α) (value : Json → α) (key : String)
    (hself : ∀ x v, get (set x key v) = value v)
    (hother : ∀ x k v, k ≠ key → get (set x k v) = get x) {ms : Members} (hnodup : ms.keys.Nodup)
    (x : σ) :
    get (ms.foldl (fun x m => set x m.1 m.2) x) = ((ms.get? key).map value).getD (get x) := by
  induction ms generalizing x with
  | nil => rfl
  | cons m ms ih =>
    obtain ⟨hnew, hnodup⟩ := List.nodup_cons.mp hnodup
    rw [List.foldl_cons, ih hnodup, Members.get?]
    by_cases hkey : m.1 = key
    · rw [if_pos hkey, Members.get?_eq_none (hkey ▸ hnew), hkey, hself]
      rfl
    · rw [if_neg hkey, hother x m.1 m.2 hkey]

end Fields

end Flowline
