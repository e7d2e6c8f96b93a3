import Flowline.Proofs.Json.Changes
import Flowline.Proofs.Json.Shapes
import Flowline.Proofs.Json.Trees

/-!
# Records and trees

A record is read from a text member by member, and a value is too. Both go through the same members:
the fields of a record take those that they know, in the order of the text, and pass over the
others. What comes of a record is what the members of the tree change about it, so that it can be
told from the tree alone.
-/

namespace Flowline

namespace Json

/-- A result that goes as changes do: what they make is read, and what they refuse is a fault. -/
structure Follows {α : Type} (result : Except Fault (α × List Char)) (rest : List Char)
    (made : Except Misfit α) : Prop where
  value : ∀ x, made = .ok x → result = .ok (x, rest)
  fault : ∀ m, made = .error m → ∃ behind, result = .error (.unfit m behind)

namespace Follows

variable {α : Type}

theorem ok (x : α) (rest : List Char) : Follows (.ok (x, rest)) rest (.ok x) := by
  constructor
  · intro y hy
    cases hy
    rfl
  · intro m hm
    cases hm

theorem error (m : Misfit) (behind rest : List Char) :
    Follows (.error (.unfit m behind) : Except Fault (α × List Char)) rest (.error m) := by
  constructor
  · intro x hx
    cases hx
  · intro m' hm
    cases hm
    exact ⟨behind, rfl⟩

/-- Behind what is followed, the rest of the text is used up. -/
theorem bind {β : Type} {r : Except Fault (β × List Char)}
    {f : β × List Char → Except Fault (α × List Char)} {g : β → α} {s rest : List Char}
    {made : Except Misfit α} (h : Follows (r >>= fun p => .ok (g p.1, p.2)) s made)
    (hf : ∀ b, f (b, s) = .ok (g b, rest)) : Follows (r >>= f) rest made := by
  cases r with
  | error e =>
    refine ⟨fun x hx => ?_, fun m hm => ?_⟩
    · cases h.value x hx
    · obtain ⟨behind, hbehind⟩ := h.fault m hm
      exact ⟨behind, hbehind⟩
  | ok p =>
    refine ⟨fun x hx => ?_, fun m hm => ?_⟩
    · obtain ⟨rfl, rfl⟩ := Prod.mk.inj (Except.ok.inj (h.value x hx))
      exact hf p.1
    · obtain ⟨behind, hbehind⟩ := h.fault m hm
      cases hbehind

end Follows

section Records

variable {σ : Type} {r : Record σ}

/-- A field that makes use of a tree wherever the text of the tree stands. -/
def Field.Uses (f : Field σ) (value : Reader Json) (budget : Nat) (v : Json) (use : σ → σ) : Prop :=
  ∀ x s rest, value s = .ok (v, rest) → f.take budget x s = .ok (use x, rest)

theorem Field.uses_of {α : Type} {decode : Decoder α} {value : Reader Json} {budget : Nat}
    {v : Json} {x : α} (h : ∀ s rest, value s = .ok (v, rest) → decode budget s = .ok (x, rest))
    (key : String) (presence : Presence) (set : σ → α → σ) :
    (Field.of key presence decode set).Uses value budget v fun y => set y x := by
  intro y s rest hv
  show (decode budget s >>= _) = _
  rw [h s rest hv]
  rfl

namespace Record

/-- What the members of a tree change about a record. -/
def changes (r : Record σ) (set : σ → String → Json → σ) (ms : Members) : List (Change σ) :=
  (ms.only r.keys).map fun m => (m.1, .ok fun x => set x m.1 m.2)

theorem changes_cons_of_mem {set : σ → String → Json → σ} {key : String} (h : key ∈ r.keys)
    (v : Json) (ms : Members) :
    r.changes set ((key, v) :: ms) = (key, .ok fun x => set x key v) :: r.changes set ms := by
  rw [changes, Members.only_cons_of_mem h]
  rfl

theorem changes_cons_of_not_mem {set : σ → String → Json → σ} {key : String} (h : key ∉ r.keys)
    (v : Json) (ms : Members) : r.changes set ((key, v) :: ms) = r.changes set ms := by
  rw [changes, Members.only_cons_of_not_mem h]
  rfl

section Outcomes

variable {set : σ → String → Json → σ} {ms : Members}

/-- Known members that are not repeated are all taken. -/
theorem makeChanges_changes (h : (ms.only r.keys).keys.Nodup) (x : σ) :
    makeChanges [] x (r.changes set ms) =
      .ok ((ms.only r.keys).foldl (fun x m => set x m.1 m.2) x) :=
  makeChanges_ok h (fun _ _ => List.not_mem_nil) x

/-- One that is repeated is refused. -/
theorem makeChanges_changes_duplicate (h : ¬(ms.only r.keys).keys.Nodup) (x : σ) :
    ∃ key ∈ r.keys, 2 ≤ ms.keys.count key ∧
      makeChanges [] x (r.changes set ms) = .error (.duplicateField key) := by
  have hrepeated : ¬((ms.only r.keys).keys.Nodup ∧ ∀ key ∈ (ms.only r.keys).keys, key ∉ []) :=
    fun hall => h hall.1
  obtain ⟨key, hkey, hcount, hrefused⟩ := makeChanges_duplicate hrepeated x
  rw [Members.keys_only] at hkey
  have hknown : key ∈ r.keys := of_decide_eq_true (List.mem_filter.mp hkey).2
  rw [List.append_nil, Members.keys_only,
    List.count_filter (p := fun k => k ∈ r.keys) (decide_eq_true hknown)] at hcount
  exact ⟨key, hknown, hcount, hrefused⟩

end Outcomes

section Taking

variable {set : σ → String → Json → σ} {value : Reader Json} {budget : Nat}

theorem find?_eq_none_of_not_mem {key : String} (h : key ∉ r.keys) :
    r.fields.find? (fun f => f.key == key) = none := by
  refine List.find?_eq_none.mpr fun f hf hkey => h ?_
  exact beq_iff_eq.mp hkey ▸ List.mem_map_of_mem hf

theorem exists_find?_of_mem {key : String} (h : key ∈ r.keys) :
    ∃ f ∈ r.fields, f.key = key ∧ r.fields.find? (fun f => f.key == key) = some f := by
  cases hfind : r.fields.find? (fun f => f.key == key) with
  | none =>
    obtain ⟨f, hf, rfl⟩ := List.mem_map.mp h
    exact absurd (beq_self_eq_true f.key) (List.find?_eq_none.mp hfind f hf)
  | some f =>
    have hkey := List.find?_some hfind
    exact ⟨f, List.mem_of_find?_eq_some hfind, beq_iff_eq.mp hkey, rfl⟩

/-- An unknown member is passed over. -/
theorem takeMember_unknown (hskip : ∀ s, PassedBy (value s) (skip s)) {state : List String × σ}
    {key : String} (hkey : key ∉ r.keys) {s t rest : List Char} {v : Json}
    (hcolon : colon s = .ok t) (hv : value t = .ok (v, rest)) :
    r.takeMember budget state key s = .ok (state, rest) := by
  simp [takeMember, find?_eq_none_of_not_mem hkey, hcolon, hskip t v rest hv, bind, Except.bind]

/-- A known member is refused if its key was seen before. -/
theorem takeMember_again {seen : List String} {key : String} (hkey : key ∈ r.keys)
    (hseen : key ∈ seen) (x : σ) (s : List Char) : ∃ behind,
      r.takeMember budget (seen, x) key s = .error (.unfit (.duplicateField key) behind) := by
  obtain ⟨f, -, -, hfind⟩ := exists_find?_of_mem hkey
  simp only [takeMember, hfind, if_pos hseen]
  split <;> exact ⟨_, rfl⟩

/-- A known member is taken by its field if its key was not seen before. -/
theorem takeMember_known {seen : List String} {key : String} (hkey : key ∈ r.keys)
    (hseen : key ∉ seen) {v : Json}
    (huse : ∀ f ∈ r.fields, f.key = key → f.Uses value budget v fun x => set x key v) (x : σ)
    {s t rest : List Char} (hcolon : colon s = .ok t) (hv : value t = .ok (v, rest)) :
    r.takeMember budget (seen, x) key s = .ok ((key :: seen, set x key v), rest) := by
  obtain ⟨f, hf, hfkey, hfind⟩ := exists_find?_of_mem hkey
  have htake := huse f hf hfkey x t rest hv
  simp [takeMember, hfind, hseen, hcolon, htake, bind, Except.bind]

variable (r set budget) in
/-- The members that a tree has from some place on, and what becomes of a record there. -/
theorem exists_members_follows (hskip : ∀ s, PassedBy (value s) (skip s)) {fuel : Nat}
    {first : Bool} {before after : Members} {s t : List Char}
    (hread : foldMembers (addMember value) fuel first before s = .ok (after, t)) :
    ∃ ms, after = before ++ ms ∧
      ((∀ m ∈ ms, ∀ f ∈ r.fields, f.key = m.1 → f.Uses value budget m.2 fun x => set x m.1 m.2) →
        ∀ seen x, Follows
          (foldMembers (r.takeMember budget) fuel first (seen, x) s >>= fun p => .ok (p.1.2, p.2)) t
          (makeChanges seen x (r.changes set ms))) := by
  induction fuel generalizing first before s with
  | zero => cases hread
  | succ fuel ih =>
    obtain ⟨⟨more, u⟩, hnext, hrest⟩ := exists_of_bind_eq_ok hread
    cases more with
    | false =>
      cases hrest
      refine ⟨[], (List.append_nil _).symm, fun _ seen x => ?_⟩
      have htake : foldMembers (r.takeMember budget) (fuel + 1) first (seen, x) s =
          .ok ((seen, x), t) := by
        simp [foldMembers, hnext, bind, Except.bind]
      rw [htake]
      exact .ok x t
    | true =>
      obtain ⟨⟨key, v⟩, hkey, hrest⟩ := exists_of_bind_eq_ok hrest
      obtain ⟨⟨_, w⟩, hmember, hrest⟩ := exists_of_bind_eq_ok hrest
      obtain ⟨c, hcolon, hvalue⟩ := exists_of_bind_eq_ok hmember
      obtain ⟨⟨j, _⟩, hj, hgiven⟩ := exists_of_bind_eq_ok hvalue
      cases hgiven
      obtain ⟨ms, rfl, hfollows⟩ := ih hrest
      refine ⟨(key, j) :: ms, List.append_assoc .., fun huse seen x => ?_⟩
      obtain ⟨hfirst, hothers⟩ := List.forall_mem_cons.mp huse
      have hstep : foldMembers (r.takeMember budget) (fuel + 1) first (seen, x) s =
          (r.takeMember budget (seen, x) key v >>= fun p =>
            foldMembers (r.takeMember budget) fuel false p.1 p.2) := by
        simp [foldMembers, hnext, hkey, bind, Except.bind]
      rw [hstep]
      by_cases hknown : key ∈ r.keys
      · rw [changes_cons_of_mem hknown]
        by_cases hseen : key ∈ seen
        · obtain ⟨behind, hbehind⟩ := takeMember_again hknown hseen x v
          rw [hbehind, makeChanges, if_pos hseen]
          exact .error _ behind t
        · rw [takeMember_known hknown hseen hfirst x hcolon hj, makeChanges, if_neg hseen]
          exact hfollows hothers (key :: seen) (set x key j)
      · rw [takeMember_unknown hskip hknown hcolon hj, changes_cons_of_not_mem hknown]
        exact hfollows hothers seen x

/-- What an object is read as, if no field has to be there. -/
theorem ofObject_follows (hpresence : ∀ f ∈ r.fields, f.presence ≠ .required)
    (hskip : ∀ s, PassedBy (value s) (skip s)) {s rest : List Char} {ms : Members}
    (hread : objectRest (addMember value) [] s = .ok (ms, rest))
    (huse : ∀ m ∈ ms, ∀ f ∈ r.fields, f.key = m.1 →
      f.Uses value budget m.2 fun x => set x m.1 m.2) :
    Follows (r.ofObject budget s) rest (makeChanges [] r.blank (r.changes set ms)) := by
  obtain ⟨⟨after, t⟩, hmembers, hmore⟩ := exists_of_bind_eq_ok hread
  obtain ⟨u, hclose, hgiven⟩ := exists_of_bind_eq_ok hmore
  cases hgiven
  obtain ⟨_, rfl, hfollows⟩ := exists_members_follows r set budget hskip hmembers
  have hmissing (seen : List String) : r.missing? seen = none := by
    refine List.find?_eq_none.mpr fun f hf hrequired => hpresence f hf ?_
    simp only [Bool.and_eq_true, beq_iff_eq] at hrequired
    exact hrequired.1
  have hread' : r.ofObject budget s = (foldMembers (r.takeMember budget) (s.length + 1) true
      ([], r.blank) s >>= fun p => closeObject p.2 >>= fun u => .ok (p.1.2, u)) := by
    simp only [ofObject, objectRest, hmissing]
    cases foldMembers (r.takeMember budget) (s.length + 1) true ([], r.blank) s with
    | error _ => rfl
    | ok p =>
      show ((closeObject p.2 >>= _) >>= _) = (closeObject p.2 >>= _)
      cases closeObject p.2 <;> rfl
  rw [hread']
  refine (hfollows huse [] r.blank).bind fun state => ?_
  show (closeObject t >>= _) = _
  rw [hclose]
  rfl

/-- What a tree that is an object is read as. -/
theorem decode_follows (hpresence : ∀ f ∈ r.fields, f.presence ≠ .required) {levels : Nat}
    {s rest : List Char} {ms : Members} (hread : readTree levels s = .ok (.object ms, rest))
    (huse : ∀ tree, levels = tree + 1 → ∀ m ∈ ms, ∀ f ∈ r.fields, f.key = m.1 →
      f.Uses (readTree tree) budget m.2 fun x => set x m.1 m.2) :
    Follows (r.decode (budget + 1) s) rest (makeChanges [] r.blank (r.changes set ms)) := by
  obtain hflat | ⟨b, cs, xs, -, -, hj, -⟩ | ⟨b, cs, ms', rfl, hs, hj, hms⟩ := readTree_cases hread
  · exact absurd (readValue_gives 0 s _ rest hflat).2 (Nat.not_succ_le_zero _)
  · cases hj
  · obtain rfl := Json.object.inj hj
    have hdecode : r.decode (budget + 1) s = r.ofObject budget cs := by
      simp [decode, hs, Decoder.deeper]
    rw [hdecode]
    exact ofObject_follows hpresence (readTree_passed b) hms (huse b rfl)

variable (set) in
/-- What comes of a text whose tree is an object. -/
theorem run_follows (hpresence : ∀ f ∈ r.fields, f.presence ≠ .required) {levels : Nat}
    {text : String} {ms : Members}
    (hread : readText (readTree levels) text.toList = .ok (.object ms))
    (huse : ∀ tree, levels = tree + 1 → ∀ m ∈ ms, ∀ f ∈ r.fields, f.key = m.1 →
      f.Uses (readTree tree) (maxDepth - 1) m.2 fun x => set x m.1 m.2) :
    (∀ x, makeChanges [] r.blank (r.changes set ms) = .ok x → r.decode.run text = .ok x) ∧
      ∀ m, makeChanges [] r.blank (r.changes set ms) = .error m →
        ∃ behind, r.decode.run text = .error (.unfit m behind) := by
  obtain ⟨rest, hobject, hrest⟩ := readText_eq_ok_iff.mp hread
  have hfollows := decode_follows hpresence hobject huse
  constructor
  · intro x hx
    exact readText_eq_ok_iff.mpr ⟨rest, hfollows.value x hx, hrest⟩
  · intro m hm
    obtain ⟨behind, hbehind⟩ := hfollows.fault m hm
    refine ⟨behind, ?_⟩
    show (r.decode maxDepth text.toList >>= _) = _
    rw [show r.decode maxDepth text.toList = _ from hbehind]
    rfl

end Taking

end Record

end Records

end Json

end Flowline
