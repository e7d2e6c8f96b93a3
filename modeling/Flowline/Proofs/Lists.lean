/-!
# Lists with distinct keys

Nodes are found by their names and fields by their keys, in the same way. Where a key is set, it
stands at the end unless it was there before.
-/

namespace Flowline

/-- An element of a list without repeated keys is found by its key. -/
theorem find?_of_nodup {α : Type} (key : α → String) {xs : List α} (h : (xs.map key).Nodup) {x : α}
    (hx : x ∈ xs) : (xs.find? fun y => key y == key x) = some x := by
  induction xs with
  | nil => cases hx
  | cons y ys ih =>
    obtain ⟨hhead, hnodup⟩ := List.nodup_cons.mp h
    rcases List.mem_cons.mp hx with rfl | hrest
    · exact List.find?_cons_of_pos (beq_self_eq_true (key x))
    · have hne : key y ≠ key x := fun same => hhead (same ▸ List.mem_map_of_mem hrest)
      rw [List.find?_cons_of_neg (by simpa using hne)]
      exact ih hnodup hrest

theorem lookup_map {α β : Type} (f : α → β) (es : List (String × α)) (key : String) :
    (es.map fun e => (e.1, f e.2)).lookup key = (es.lookup key).map f := by
  induction es with
  | nil => rfl
  | cons e es ih =>
    rw [List.map_cons, List.lookup_cons, List.lookup_cons, ih]
    cases key == e.1 <;> rfl

/-- Keys stay distinct if one is added that may be there. -/
theorem nodup_add {α : Type} [DecidableEq α] {keys : List α} (h : keys.Nodup) (key : α) :
    (if key ∈ keys then keys else keys ++ [key]).Nodup := by
  by_cases hmem : key ∈ keys
  · rwa [if_pos hmem]
  · rw [if_neg hmem, List.nodup_append]
    refine ⟨h, List.nodup_cons.mpr ⟨List.not_mem_nil, List.nodup_nil⟩, ?_⟩
    rintro k hk k' hk' rfl
    exact hmem (List.mem_singleton.mp hk' ▸ hk)

end Flowline
