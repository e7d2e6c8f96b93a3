import Flowline.Proofs.Json.Changes
import Flowline.Proofs.Json.Finite
import Flowline.Proofs.Json.Passing
import Flowline.Proofs.Json.Results

/-!
# Values with repeated keys

The value of a text has one member for each key of an object. What the text itself says is a tree in
which the members of every object stand as they were written, those with the same key too.
`readTree` reads that tree, and `Json.settled` makes the value of it, in which a key that is
repeated keeps its place and has the value that was written last.
-/

namespace Flowline

namespace Json

/-! ## Trees -/

/-- Takes the value of a member and puts it behind the others. -/
def addMember (value : Reader Json) (ms : Members) (key : String) : Reader Members := fun s => do
  let s ← colon s
  let (v, s) ← value s
  .ok (ms ++ [(key, v)], s)

/-- Takes a value with all members of its objects. -/
def readTree : (budget : Nat) → Reader Json
  | 0 => valueWith none
  | budget + 1 => fun s =>
    match skipBlanks s with
    | '[' :: cs => do
      let (xs, s) ← arrayRest (readTree budget) cs
      .ok (.array xs, s)
    | '\x7b' :: cs => do
      let (ms, s) ← objectRest (addMember (readTree budget)) [] cs
      .ok (.object ms, s)
    | s => valueWith none s

mutual

/-- The value of a tree. -/
def settled : Json → Json
  | .array items => .array (settledItems items)
  | .object members => .object (Members.ofPairs (settledMembers members))
  | j => j

/-- The values of items. -/
def settledItems : List Json → List Json
  | [] => []
  | j :: js => settled j :: settledItems js

/-- Members with the values of their trees. -/
def settledMembers : List (String × Json) → List (String × Json)
  | [] => []
  | (k, j) :: ms => (k, settled j) :: settledMembers ms

end

theorem settledItems_eq_map (js : List Json) : settledItems js = js.map settled := by
  induction js with
  | nil => rfl
  | cons j js ih => rw [settledItems, ih, List.map_cons]

theorem settledMembers_eq_map (ms : Members) :
    settledMembers ms = ms.map fun m => (m.1, m.2.settled) := by
  induction ms with
  | nil => rfl
  | cons m ms ih => rw [settledMembers, ih, List.map_cons]

/-- The tree of a text. -/
def tree (text : String) : Except Fault Json := readText (readTree maxDepth) text.toList

/-- A text that says a tree, however deep it is nested. -/
def Spells (text : String) (j : Json) : Prop :=
  ∃ budget, readText (readTree budget) text.toList = .ok j

/-! ## How a tree begins -/

section Begins

variable {s : List Char}

theorem readTree_eq (harray : ∀ cs, skipBlanks s ≠ '[' :: cs)
    (hobject : ∀ cs, skipBlanks s ≠ '\x7b' :: cs) (budget : Nat) :
    readTree budget s = valueWith none s := by
  cases budget with
  | zero => rfl
  | succ budget =>
    rw [valueWith_skipBlanks]
    unfold readTree
    split
    · rename_i cs hs
      exact absurd hs (harray cs)
    · rename_i cs hs
      exact absurd hs (hobject cs)
    · rfl

theorem readTree_array {cs : List Char} (h : skipBlanks s = '[' :: cs) (budget : Nat) :
    readTree (budget + 1) s =
      (arrayRest (readTree budget) cs >>= fun p => .ok (.array p.1, p.2)) := by
  simp only [readTree, h]

theorem readTree_object {cs : List Char} (h : skipBlanks s = '\x7b' :: cs) (budget : Nat) :
    readTree (budget + 1) s =
      (objectRest (addMember (readTree budget)) [] cs >>= fun p => .ok (.object p.1, p.2)) := by
  simp only [readTree, h]

theorem readTree_of_valueWith {p : Json × List Char} (h : valueWith none s = .ok p)
    (budget : Nat) : readTree budget s = .ok p := by
  obtain ⟨harray, hobject⟩ := not_bracket_of_valueWith h
  rw [readTree_eq harray hobject, h]

/-- A tree is a value without brackets, an array or an object. -/
theorem readTree_cases {budget : Nat} {rest : List Char} {j : Json}
    (h : readTree budget s = .ok (j, rest)) :
    valueWith none s = .ok (j, rest) ∨
      (∃ b cs xs, budget = b + 1 ∧ skipBlanks s = '[' :: cs ∧ j = .array xs ∧
        arrayRest (readTree b) cs = .ok (xs, rest)) ∨
      ∃ b cs ms, budget = b + 1 ∧ skipBlanks s = '\x7b' :: cs ∧ j = .object ms ∧
        objectRest (addMember (readTree b)) [] cs = .ok (ms, rest) := by
  cases budget with
  | zero => exact .inl h
  | succ budget =>
    by_cases harray : ∃ cs, skipBlanks s = '[' :: cs
    · obtain ⟨cs, hs⟩ := harray
      rw [readTree_array hs] at h
      obtain ⟨⟨xs, t⟩, hxs, hgiven⟩ := exists_of_bind_eq_ok h
      cases hgiven
      exact .inr (.inl ⟨budget, cs, xs, rfl, hs, rfl, hxs⟩)
    by_cases hobject : ∃ cs, skipBlanks s = '\x7b' :: cs
    · obtain ⟨cs, hs⟩ := hobject
      rw [readTree_object hs] at h
      obtain ⟨⟨ms, t⟩, hms, hgiven⟩ := exists_of_bind_eq_ok h
      cases hgiven
      exact .inr (.inr ⟨budget, cs, ms, rfl, hs, rfl, hms⟩)
    · rw [readTree_eq (fun cs hs => harray ⟨cs, hs⟩) fun cs hs => hobject ⟨cs, hs⟩] at h
      exact .inl h

end Begins

/-! ## The value of a tree -/

section Maps

variable {α β σ τ : Type}

theorem items_map {f : α → β} {item : Reader α} {item' : Reader β}
    (h : ∀ s, item' s = (item s >>= fun p => .ok (f p.1, p.2))) (fuel : Nat) (first : Bool)
    (s : List Char) :
    items item' fuel first s = (items item fuel first s >>= fun p => .ok (p.1.map f, p.2)) := by
  induction fuel generalizing first s with
  | zero => rfl
  | succ fuel ih =>
    unfold items
    cases nextItem first s with
    | error _ => rfl
    | ok next =>
      obtain ⟨more, t⟩ := next
      cases more with
      | false => rfl
      | true =>
        show (item' t >>= fun p => items item' fuel false p.2 >>= fun q => .ok (p.1 :: q.1, q.2)) =
          ((item t >>= fun p => items item fuel false p.2 >>= fun q => .ok (p.1 :: q.1, q.2)) >>=
            fun p => .ok (p.1.map f, p.2))
        rw [h t]
        cases item t with
        | error _ => rfl
        | ok p =>
          show (items item' fuel false p.2 >>= _) = ((items item fuel false p.2 >>= _) >>= _)
          rw [ih false p.2]
          cases items item fuel false p.2 <;> rfl

theorem arrayRest_map {f : α → β} {item : Reader α} {item' : Reader β}
    (h : ∀ s, item' s = (item s >>= fun p => .ok (f p.1, p.2))) (s : List Char) :
    arrayRest item' s = (arrayRest item s >>= fun p => .ok (p.1.map f, p.2)) := by
  unfold arrayRest
  rw [items_map h]
  cases items item (s.length + 1) true s with
  | error _ => rfl
  | ok p =>
    show (closeArray p.2 >>= _) = ((closeArray p.2 >>= _) >>= _)
    cases closeArray p.2 <;> rfl

theorem foldMembers_map {f : σ → τ} {step : σ → String → Reader σ} {step' : τ → String → Reader τ}
    (h : ∀ a key s, step' (f a) key s = (step a key s >>= fun p => .ok (f p.1, p.2))) (fuel : Nat)
    (first : Bool) (a : σ) (s : List Char) :
    foldMembers step' fuel first (f a) s =
      (foldMembers step fuel first a s >>= fun p => .ok (f p.1, p.2)) := by
  induction fuel generalizing first a s with
  | zero => rfl
  | succ fuel ih =>
    unfold foldMembers
    cases nextKey first s with
    | error _ => rfl
    | ok next =>
      obtain ⟨more, t⟩ := next
      cases more with
      | false => rfl
      | true =>
        cases hkey : stringRest t with
        | error _ => simp [hkey, bind, Except.bind]
        | ok p =>
          have hstep := h a p.1 p.2
          cases hp : step a p.1 p.2 with
          | error _ =>
            rw [hp] at hstep
            have hstep' : step' (f a) p.1 p.2 = .error _ := hstep
            simp [hkey, hp, hstep', bind, Except.bind]
          | ok q =>
            rw [hp] at hstep
            have hstep' : step' (f a) p.1 p.2 = .ok (f q.1, q.2) := hstep
            simp only [hkey, hp, hstep', bind, Except.bind, if_true]
            exact ih false q.1 q.2

theorem objectRest_map {f : σ → τ} {step : σ → String → Reader σ} {step' : τ → String → Reader τ}
    (h : ∀ a key s, step' (f a) key s = (step a key s >>= fun p => .ok (f p.1, p.2))) (a : σ)
    (s : List Char) :
    objectRest step' (f a) s = (objectRest step a s >>= fun p => .ok (f p.1, p.2)) := by
  unfold objectRest
  rw [foldMembers_map h]
  cases foldMembers step (s.length + 1) true a s with
  | error _ => rfl
  | ok p =>
    show (closeObject p.2 >>= _) = ((closeObject p.2 >>= _) >>= _)
    cases closeObject p.2 <;> rfl

end Maps

/-- A member that is added to a tree is set in its value. -/
theorem putMember_eq {value tree : Reader Json}
    (h : ∀ s, value s = (tree s >>= fun p => .ok (p.1.settled, p.2))) (ms : Members) (key : String)
    (s : List Char) :
    putMember value (Members.ofPairs (settledMembers ms)) key s =
      (addMember tree ms key s >>= fun p => .ok (Members.ofPairs (settledMembers p.1), p.2)) := by
  unfold putMember addMember
  cases colon s with
  | error _ => rfl
  | ok t =>
    show (value t >>= _) = ((tree t >>= _) >>= _)
    rw [h t]
    cases tree t with
    | error _ => rfl
    | ok p =>
      have hput : Members.ofPairs (settledMembers (ms ++ [(key, p.1)])) =
          (Members.ofPairs (settledMembers ms)).put key p.1.settled := by
        rw [settledMembers_eq_map, List.map_append, ← settledMembers_eq_map]
        exact Members.ofPairs_concat _ key _
      show Except.ok _ = Except.ok _
      rw [hput]

theorem settled_of_depth {j : Json} (h : j.depth = 0) : j.settled = j := by
  cases j with
  | array items => exact absurd h (Nat.succ_ne_zero _)
  | object members => exact absurd h (Nat.succ_ne_zero _)
  | _ => rfl

theorem valueWith_none_eq_settled (s : List Char) :
    valueWith none s = (valueWith none s >>= fun p => .ok (p.1.settled, p.2)) := by
  cases hs : valueWith none s with
  | error _ => rfl
  | ok p =>
    have hdepth : p.1.depth ≤ 0 := (readValue_gives 0 s p.1 p.2 hs).2
    show Except.ok p = Except.ok (p.1.settled, p.2)
    rw [settled_of_depth (Nat.le_zero.mp hdepth)]

/-- A value is read just where its tree is. -/
theorem readValue_eq_settled (budget : Nat) (s : List Char) :
    readValue budget s = (readTree budget s >>= fun p => .ok (p.1.settled, p.2)) := by
  induction budget generalizing s with
  | zero => exact valueWith_none_eq_settled s
  | succ budget ih =>
    by_cases harray : ∃ cs, skipBlanks s = '[' :: cs
    · obtain ⟨cs, hs⟩ := harray
      have hread : readValue (budget + 1) s =
          (arrayRest (readValue budget) cs >>= fun p => .ok (.array p.1, p.2)) := by
        simp [readValue, valueWith, hs]
      rw [hread, readTree_array hs, arrayRest_map (f := settled) ih]
      cases arrayRest (readTree budget) cs with
      | error _ => rfl
      | ok p =>
        show Except.ok _ = Except.ok _
        rw [settled, settledItems_eq_map]
    by_cases hobject : ∃ cs, skipBlanks s = '\x7b' :: cs
    · obtain ⟨cs, hs⟩ := hobject
      have hread :
          readValue (budget + 1) s = objectRest (putMember (readValue budget)) [] cs >>=
            fun p => .ok (.object p.1, p.2) := by
        simp [readValue, valueWith, hs]
      have hmembers := objectRest_map (f := fun ms => Members.ofPairs (settledMembers ms))
        (putMember_eq ih) [] cs
      rw [hread, readTree_object hs]
      show objectRest (putMember (readValue budget))
        (Members.ofPairs (settledMembers [])) cs >>= _ = _
      rw [hmembers]
      cases objectRest (addMember (readTree budget)) [] cs <;> rfl
    · have harray' (cs : List Char) : skipBlanks s ≠ '[' :: cs := fun hs => harray ⟨cs, hs⟩
      have hobject' (cs : List Char) : skipBlanks s ≠ '\x7b' :: cs := fun hs => hobject ⟨cs, hs⟩
      rw [readTree_eq harray' hobject', readValue, valueWith_congr harray' hobject' _ none]
      exact valueWith_none_eq_settled s

/-- The tree of a text that is read as an object. -/
theorem exists_tree_of_read {text : String} {ms : Members} (h : read text = .ok (.object ms)) :
    ∃ given, tree text = .ok (.object given) ∧ ms = Members.ofPairs (settledMembers given) := by
  obtain ⟨rest, hread, hrest⟩ := readText_eq_ok_iff.mp h
  rw [readValue_eq_settled] at hread
  obtain ⟨⟨j, t⟩, htree, hgiven⟩ := exists_of_bind_eq_ok hread
  obtain ⟨hobject, rfl⟩ := Prod.mk.inj (Except.ok.inj hgiven)
  cases j with
  | object given =>
    exact ⟨given, readText_eq_ok_iff.mpr ⟨t, htree, hrest⟩, (Json.object.inj hobject).symm⟩
  | _ => cases hobject

/-! ## Trees are passed over -/

theorem addMember_takesValue {value : Reader Json} (h : ∀ s, PassedBy (value s) (skip s)) :
    TakesValue (addMember value) := by
  intro ms key s ms' rest hread
  obtain ⟨t, hcolon, hmore⟩ := exists_of_bind_eq_ok hread
  obtain ⟨⟨v, u⟩, hv, hgiven⟩ := exists_of_bind_eq_ok hmore
  cases hgiven
  exact ⟨t, hcolon, h t v rest hv⟩

theorem readTree_passed (budget : Nat) (s : List Char) : PassedBy (readTree budget s) (skip s) := by
  induction budget generalizing s with
  | zero => exact valueWith_none_passed s
  | succ budget ih =>
    intro j rest h
    obtain hflat | ⟨b, cs, xs, hb, hs, -, hxs⟩ | ⟨b, cs, ms, hb, hs, -, hms⟩ := readTree_cases h
    · exact valueWith_none_passed s j rest hflat
    · obtain rfl := Nat.succ.inj hb
      exact skip_of_skipItems hs (.inl rfl) (exists_skipItems_of_arrayRest ih hxs)
    · obtain rfl := Nat.succ.inj hb
      exact skip_of_skipItems hs (.inr rfl)
        (exists_skipItems_of_objectRest (addMember_takesValue ih) hms)

/-! ## Trees of written values -/

theorem readsNested_readTree : ReadsNested readTree fun budget => addMember (readTree budget) where
  flat budget _ _ h := readTree_of_valueWith h budget
  zero := rfl
  array budget _ _ h := readTree_array h budget
  object budget _ _ h := readTree_object h budget
  member _ _ _ _ _ := rfl

/-- What a regular value is printed as spells it, up to its doubles. -/
theorem spells_printed {j : Json} (hj : j.Regular) {text : String} (htext : text ∈ j.printed) :
    Spells text j.reread :=
  have hreads := readsNested_readTree.readsAt j hj (readable_of_regular j hj) j.depth
  ⟨j.depth, (readText_printed hreads htext).value (Nat.le_refl _)⟩

end Json

end Flowline
