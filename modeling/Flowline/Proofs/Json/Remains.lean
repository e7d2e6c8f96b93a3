import Flowline.Proofs.Json.Records
import Mathlib.Data.List.Forall2
import Mathlib.Data.List.Nodup

/-!
# Records of what remains

An object may lose some of its members, have others among them and have them in another order. The
fields of a record make of each value that is left what they make of the one that it was, so that
what the record is read as can be told field by field.
-/

namespace Flowline

/-! ## What remains of an object -/

/-- Where two lists correspond with their keys, each element of the one has its partner. -/
theorem exists_partner {α β : Type} {key : α → String} {key' : β → String} {R : α → β → Prop}
    {xs : List α} {ys : List β} (h : List.Forall₂ (fun x y => key x = key' y ∧ R x y) xs ys) :
    xs.map key = ys.map key' ∧ ∀ x ∈ xs, ∃ y ∈ ys, key x = key' y ∧ R x y := by
  induction h with
  | nil => exact ⟨rfl, fun _ hx => absurd hx List.not_mem_nil⟩
  | cons hhead _ ih =>
    refine ⟨congrArg₂ List.cons hhead.1 ih.1, List.forall_mem_cons.mpr ⟨?_, fun x hx => ?_⟩⟩
    · exact ⟨_, List.mem_cons_self, hhead⟩
    · obtain ⟨y, hy, hxy⟩ := ih.2 x hx
      exact ⟨y, List.mem_cons_of_mem _ hy, hxy⟩

namespace Members

/-- What remains of members: some are deleted, the others have values that are related to theirs,
and unknown ones are added, in any order. -/
def Remains (related : Json → Json → Prop) (full given : Members) : Prop :=
  ∃ kept left unknown : Members, kept.Sublist full ∧
    List.Forall₂ (fun n m => n.1 = m.1 ∧ related m.2 n.2) left kept ∧
    (∀ m ∈ unknown, m.1 ∉ full.keys) ∧ given.Perm (left ++ unknown)

namespace Remains

variable {related : Json → Json → Prop} {full given : Members}

/-- The members with known keys are not repeated. -/
theorem nodup_keys (h : Remains related full given) (hfull : full.keys.Nodup) :
    (given.only full.keys).keys.Nodup := by
  obtain ⟨kept, left, unknown, hkept, hrelated, hunknown, hperm⟩ := h
  have hnone : only unknown full.keys = [] :=
    List.filter_eq_nil_iff.mpr fun m hm hknown => hunknown m hm (of_decide_eq_true hknown)
  have honly : (given.only full.keys).Perm (only left full.keys) := by
    rw [← List.append_nil (only left full.keys), ← hnone, ← only_append]
    exact hperm.filter _
  have hkeys : keys left = keys kept := (exists_partner hrelated).1
  have hleft : (keys left).Nodup := hkeys ▸ hfull.sublist (hkept.map Prod.fst)
  exact (honly.map Prod.fst).nodup_iff.mpr (nodup_keys_only hleft full.keys)

/-- A member that is left has a value that is related to the one that it had. -/
theorem related_of_mem (h : Remains related full given) (hfull : full.keys.Nodup) {key : String}
    {v w : Json} (hv : (key, v) ∈ full) (hw : (key, w) ∈ given) : related v w := by
  obtain ⟨kept, left, unknown, hkept, hrelated, hunknown, hperm⟩ := h
  rcases List.mem_append.mp (hperm.mem_iff.mp hw) with hleft | hadded
  · obtain ⟨m, hm, hkey, hvalue⟩ := (exists_partner hrelated).2 _ hleft
    obtain rfl : m = (key, v) := List.inj_on_of_nodup_map hfull (hkept.subset hm) hv hkey.symm
    exact hvalue
  · exact absurd (List.mem_map_of_mem hv) (hunknown _ hadded : key ∉ full.keys)

/-- All remains of members that are left as they are. -/
theorem refl (h : ∀ m ∈ full, related m.2 m.2) : Remains related full full := by
  refine ⟨full, full, [], .refl full, ?_, fun _ hm => absurd hm List.not_mem_nil, ?_⟩
  · exact List.forall₂_same.mpr fun m hm => ⟨rfl, h m hm⟩
  · rw [List.append_nil]

/-- What remains may have its values changed on. -/
theorem map {related' : Json → Json → Prop} {f : Json → Json}
    (hf : ∀ m ∈ full, ∀ w, related m.2 w → related' m.2 (f w)) (h : Remains related full given) :
    Remains related' full (given.map fun m => (m.1, f m.2)) := by
  obtain ⟨kept, left, unknown, hkept, hrelated, hunknown, hperm⟩ := h
  refine ⟨kept, left.map fun m => (m.1, f m.2), unknown.map fun m => (m.1, f m.2), hkept,
    ?_, ?_, ?_⟩
  · have hmem : List.Forall₂ (fun m n => m ∈ full ∧ n.1 = m.1 ∧ related m.2 n.2) kept left :=
      (List.forall₂_and_left kept left).mpr ⟨fun m hm => hkept.subset hm, hrelated.flip⟩
    rw [List.forall₂_map_left_iff]
    exact (hmem.imp fun m n h => ⟨h.2.1, hf m h.1 n.2 h.2.2⟩).flip
  · intro n hn
    obtain ⟨m, hm, rfl⟩ := List.mem_map.mp hn
    exact hunknown m hm
  · rw [← List.map_append]
    exact hperm.map _

end Remains

end Members

/-! ## Records of what remains -/

namespace Json

section Scalars

variable {levels : Nat} {s rest : List Char}

/-- A value without brackets stands in a tree as it does anywhere. -/
theorem valueWith_of_readTree {j : Json} (hscalar : j.IsScalar)
    (h : readTree levels s = .ok (j, rest)) : valueWith none s = .ok (j, rest) := by
  obtain hflat | ⟨_, _, _, -, -, rfl, -⟩ | ⟨_, _, _, -, -, rfl, -⟩ := readTree_cases h
  · exact hflat
  · exact hscalar.elim
  · exact hscalar.elim

theorem count_of_readTree {n : Nat} (h : readTree levels s = .ok (.int n, rest)) (wanted : String)
    (budget : Nat) : Decoder.count wanted budget s = .ok (n, rest) := by
  have hvalue := valueWith_of_readTree (j := .int n) trivial h
  have hregular : (Json.int n).Regular := (readValue_gives 0 s _ rest hvalue).1
  have hint : Decoder.int 0 maxWhole wanted budget s = .ok ((n : Int), rest) :=
    Decoder.int_eq_ok_iff.mpr ⟨hvalue, Int.natCast_nonneg n, hregular.2⟩
  show (Decoder.int 0 maxWhole wanted budget s >>= _) = _
  rw [hint]
  rfl

theorem variant_of_readTree {α : Type} {variants : List (String × α)} {name : String} {x : α}
    (h : readTree levels s = .ok (.string name, rest)) (hname : variants.lookup name = some x)
    (budget : Nat) : Decoder.variant variants budget s = .ok (x, rest) := by
  obtain ⟨cs, hskip, hstring⟩ :=
    valueWith_eq_string (valueWith_of_readTree (j := .string name) trivial h)
  simp [Decoder.variant, variantName, hskip, hstring, hname, bind, Except.bind]

end Scalars

variable {σ α : Type}

/-- A field makes use of every value that is related to the one that it is written as. -/
def Field.UsesRelated (set : σ → String → Json → σ) (related : Json → Json → Prop) (budget : Nat)
    (f : Field σ) (m : String × Json) : Prop :=
  f.key = m.1 ∧ ∀ w, related m.2 w →
    ∀ levels, f.Uses (readTree levels) budget w fun x => set x f.key w

namespace Record

variable {r : Record σ} {set : σ → String → Json → σ}

/-- A record is read from what remains of the object of its fields. -/
theorem decode_remains {related : Json → Json → Prop} {full given : Members} {budget : Nat}
    (hpresence : ∀ f ∈ r.fields, f.presence ≠ .required) (hkeys : r.keys.Nodup)
    (hfields : List.Forall₂ (Field.UsesRelated set related budget) r.fields full)
    (h : Members.Remains related full given) {levels : Nat} {s rest : List Char}
    (hread : readTree levels s = .ok (.object given, rest)) :
    r.decode (budget + 1) s =
      .ok ((given.only r.keys).foldl (fun x m => set x m.1 m.2) r.blank, rest) := by
  obtain ⟨hsame, hpartner⟩ := exists_partner hfields
  have hfull : r.keys = full.keys := hsame
  have honce : (given.only r.keys).keys.Nodup := hfull ▸ h.nodup_keys (hfull ▸ hkeys)
  have hfollows : Follows (r.decode (budget + 1) s) rest
      (makeChanges [] r.blank (r.changes set given)) := by
    refine decode_follows hpresence hread fun tree _ m hm f hf hkey => ?_
    obtain ⟨n, hn, hnkey, huse⟩ := hpartner f hf
    have hv : (m.1, n.2) ∈ full := by rwa [← hkey, hnkey]
    exact hkey ▸ huse m.2 (h.related_of_mem (hfull ▸ hkeys) hv hm) tree
  exact hfollows.value _ (makeChanges_changes honce r.blank)

/-- A field, after members were taken that copy a value into it. -/
theorem foldl_copied (set : σ → String → Json → σ) (get : σ → α) (key : String) {a : α}
    (hset : ∀ x k v, get (set x k v) = if k = key then a else get x) (hkey : key ∈ r.keys)
    (ms : Members) (x : σ) :
    get ((ms.only r.keys).foldl (fun x m => set x m.1 m.2) x) =
      if key ∈ ms.keys then a else get x := by
  have hknown : key ∈ (ms.only r.keys).keys ↔ key ∈ ms.keys := by
    simp [Members.keys_only, hkey]
  simp only [← hknown]
  induction ms.only r.keys generalizing x with
  | nil => rfl
  | cons m ms ih =>
    have hmore : key ∈ Members.keys (m :: ms) ↔ key = m.1 ∨ key ∈ Members.keys ms := List.mem_cons
    rw [List.foldl_cons, ih, hset]
    simp only [hmore]
    by_cases hmem : key ∈ Members.keys ms
    · rw [if_pos hmem, if_pos (.inr hmem)]
    · by_cases hm : m.1 = key
      · rw [if_neg hmem, if_pos hm, if_pos (.inl hm.symm)]
      · rw [if_neg hmem, if_neg hm, if_neg (not_or.mpr ⟨Ne.symm hm, hmem⟩)]

end Record

end Json

end Flowline
