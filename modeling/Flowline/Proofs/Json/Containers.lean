import Flowline.Json.Reader
import Flowline.Proofs.Json.Scanning

/-!
# Reading arrays and objects that were written

Readers are treated once for all kinds of items and members. `ReadsAt` says that a reader takes the
text of a value just if the value is nested no deeper than a budget; from readers of the items,
`arrayRest_write` gets the reader of an array, and `objectRest_write` does the same for objects
whose members are folded into a state.
-/

namespace Flowline

namespace Json

/-! ## Results -/

/-- A result that is a value if a condition holds, and if it does not, the fault of a text that is
nested too deep. -/
structure Yields {α : Type} (p : Prop) (result : Except Fault α) (x : α) : Prop where
  value : p → result = .ok x
  fault : ¬p → ∃ rest, result = .error (.upon .tooDeep rest)

namespace Yields

variable {α β : Type} {p q : Prop} {r : Except Fault α} {x : α}

theorem of_ok (hp : p) (h : r = .ok x) : Yields p r x := ⟨fun _ => h, fun hn => absurd hp hn⟩

theorem of_error {rest : List Char} (hp : ¬p) (h : r = .error (.upon .tooDeep rest)) :
    Yields p r x :=
  ⟨fun hv => absurd hv hp, fun _ => ⟨rest, h⟩⟩

theorem congr (h : Yields p r x) (hpq : p ↔ q) : Yields q r x :=
  ⟨fun hq => h.value (hpq.mpr hq), fun hq => h.fault fun hp => hq (hpq.mp hp)⟩

/-- One result after the other. -/
theorem bind {f : α → Except Fault β} {y : β} (h : Yields p r x) (hf : Yields q (f x) y) :
    Yields (p ∧ q) (r >>= f) y := by
  constructor
  · intro hpq
    rw [h.value hpq.1]
    exact hf.value hpq.2
  · intro hpq
    by_cases hp : p
    · rw [h.value hp]
      exact hf.fault fun hq => hpq ⟨hp, hq⟩
    · obtain ⟨rest, hfault⟩ := h.fault hp
      rw [hfault]
      exact ⟨rest, rfl⟩

/-- A result that is put to use. -/
theorem map {f : α → Except Fault β} {y : β} (h : Yields p r x) (hf : f x = .ok y) :
    Yields p (r >>= f) y :=
  (h.bind (q := True) (of_ok trivial hf)).congr (and_iff_left trivial)

end Yields

/-- A reader that reads the text of a value, in every layout and in front of every text that may
follow, just if the value is nested no deeper than a budget. -/
def ReadsAt {α : Type} (budget : Nat) (read : Reader α) (j : Json) (x : α) : Prop :=
  ∀ (layout : Layout) (level : Nat) (s rest : List Char), Stops rest →
    skipBlanks s = write layout level j ++ rest → Yields (j.depth ≤ budget) (read s) (x, rest)

/-! ## Blanks -/

theorem skipBlanks_cons {c : Char} (h : isBlank c = false) (s : List Char) :
    skipBlanks (c :: s) = c :: s := by
  rw [skipBlanks, List.dropWhile_cons, h]
  rfl

theorem skipBlanks_cons_of_blank {c : Char} (h : isBlank c = true) (s : List Char) :
    skipBlanks (c :: s) = skipBlanks s := by
  rw [skipBlanks, List.dropWhile_cons, h]
  rfl

theorem skipBlanks_gap (layout : Layout) (level : Nat) (s : List Char) :
    skipBlanks (layout.gap level ++ s) = skipBlanks s := by
  cases layout with
  | compact => rfl
  | pretty =>
    have hblanks (n : Nat) : skipBlanks (List.replicate n ' ' ++ s) = skipBlanks s := by
      induction n with
      | zero => rfl
      | succ n ih => exact (skipBlanks_cons_of_blank rfl _).trans ih
    exact (skipBlanks_cons_of_blank rfl _).trans (hblanks _)

theorem isBlank_of_opensValue {c : Char} (h : opensValue c = true) : isBlank c = false := by
  cases hblank : isBlank c with
  | false => rfl
  | true =>
    simp only [isBlank, Bool.or_eq_true, beq_iff_eq] at hblank
    rcases hblank with ((rfl | rfl) | rfl) | rfl <;> cases h

theorem skipBlanks_write (layout : Layout) (level : Nat) (j : Json) (s : List Char) :
    skipBlanks (write layout level j ++ s) = write layout level j ++ s := by
  obtain ⟨c, cs, hwrite, hc⟩ := write_eq_cons layout level j
  rw [hwrite]
  exact skipBlanks_cons (isBlank_of_opensValue hc) _

theorem skipBlanks_gap_write (layout : Layout) (gap level : Nat) (j : Json) (s : List Char) :
    skipBlanks (layout.gap gap ++ (write layout level j ++ s)) = write layout level j ++ s := by
  rw [skipBlanks_gap, skipBlanks_write]

theorem skipBlanks_gap_cons (layout : Layout) (level : Nat) {c : Char} (h : isBlank c = false)
    (s : List Char) : skipBlanks (layout.gap level ++ c :: s) = c :: s := by
  rw [skipBlanks_gap, skipBlanks_cons h]

theorem stops_gap (layout : Layout) (level : Nat) {c : Char} (h : endsNumber c = true)
    (s : List Char) : Stops (layout.gap level ++ c :: s) := by
  cases layout with
  | compact => exact stops_cons h s
  | pretty => exact stops_cons rfl _

/-! ## Arrays -/

theorem stops_moreItems (layout : Layout) (level : Nat) (js : List Json) (rest : List Char) :
    Stops (writeMoreItems layout level js ++ ']' :: rest) := by
  cases js with
  | nil => exact stops_gap layout level rfl rest
  | cons j js => exact stops_cons rfl _

theorem length_le_moreItems (layout : Layout) (level : Nat) (js : List Json) :
    js.length ≤ (writeMoreItems layout level js).length := by
  induction js with
  | nil => exact Nat.zero_le _
  | cons j js ih =>
    simp only [writeMoreItems, List.length_cons, List.length_append]
    omega

theorem nextItem_write (layout : Layout) (gap level : Nat) (j : Json) (s : List Char) :
    nextItem true (layout.gap gap ++ (write layout level j ++ s)) =
      .ok (true, write layout level j ++ s) := by
  obtain ⟨c, cs, hwrite, hc⟩ := write_eq_cons layout level j
  have hbracket : c ≠ ']' := by
    rintro rfl
    cases hc
  have hskip := skipBlanks_gap_write layout gap level j s
  rw [hwrite, List.cons_append] at hskip ⊢
  simp [nextItem, hskip, hbracket]

theorem nextItem_comma (layout : Layout) (gap level : Nat) (j : Json) (s : List Char) :
    nextItem false (',' :: (layout.gap gap ++ (write layout level j ++ s))) =
      .ok (true, write layout level j ++ s) := by
  obtain ⟨c, cs, hwrite, hc⟩ := write_eq_cons layout level j
  have hbracket : c ≠ ']' := by
    rintro rfl
    cases hc
  have hcomma : isBlank ',' = false := rfl
  have hskip := skipBlanks_gap_write layout gap level j s
  rw [hwrite, List.cons_append] at hskip ⊢
  simp [nextItem, skipBlanks_cons hcomma, hskip, hbracket]

theorem nextItem_close (first : Bool) (layout : Layout) (level : Nat) (s : List Char) :
    nextItem first (layout.gap level ++ ']' :: s) = .ok (false, ']' :: s) := by
  have hclose : isBlank ']' = false := rfl
  simp [nextItem, skipBlanks_gap_cons layout level hclose]

section Arrays

variable {ι α : Type} {budget : Nat} {item : Reader α} {written : ι → Json} {value : ι → α}

/-- An item, and what its reader is to give for it. -/
theorem items_cons (layout : Layout) (level : Nat) {fuel : Nat} {first : Bool} {s rest : List Char}
    {j : Json} {x : α} {xs : List α} {q : Prop} (hrest : Stops rest)
    (hnext : nextItem first s = .ok (true, write layout level j ++ rest))
    (hitem : ReadsAt budget item j x) {behind : List Char}
    (hmore : Yields q (items item fuel false rest) (xs, behind)) :
    Yields (j.depth ≤ budget ∧ q) (items item (fuel + 1) first s) (x :: xs, behind) := by
  have hread := hitem layout level _ rest hrest (skipBlanks_write layout level j rest)
  simp only [items, hnext]
  exact hread.bind (hmore.map rfl)

theorem items_writeMore (layout : Layout) (level : Nat) (is : List ι)
    (h : ∀ i ∈ is, ReadsAt budget item (written i) (value i)) (rest : List Char) {fuel : Nat}
    (hfuel : is.length < fuel) :
    Yields (depthItems (is.map written) ≤ budget)
      (items item fuel false (writeMoreItems layout level (is.map written) ++ ']' :: rest))
      (is.map value, ']' :: rest) := by
  induction is generalizing fuel with
  | nil =>
    cases fuel with
    | zero => cases hfuel
    | succ fuel =>
      refine .of_ok (Nat.zero_le _) ?_
      simp only [List.map_nil, writeMoreItems, items, nextItem_close]
      rfl
  | cons i is ih =>
    cases fuel with
    | zero => cases hfuel
    | succ fuel =>
      rw [List.forall_mem_cons] at h
      have hnext := nextItem_comma layout (level + 1) (level + 1) (written i)
        (writeMoreItems layout level (is.map written) ++ ']' :: rest)
      have hcons := items_cons layout (level + 1) (stops_moreItems _ _ _ _) hnext h.1
        (@ih h.2 fuel (Nat.lt_of_succ_lt_succ hfuel))
      simp only [List.map_cons, writeMoreItems, List.cons_append, List.append_assoc]
      exact hcons.congr Nat.max_le.symm

/-- An array is read back from behind its opening bracket. -/
theorem arrayRest_write (layout : Layout) (level : Nat) (is : List ι)
    (h : ∀ i ∈ is, ReadsAt budget item (written i) (value i)) (rest : List Char) :
    Yields (depthItems (is.map written) ≤ budget)
      (arrayRest item (writeItems layout level (is.map written) ++ ']' :: rest))
      (is.map value, rest) := by
  have hclose : closeArray (']' :: rest) = .ok rest := rfl
  have hitems : Yields (depthItems (is.map written) ≤ budget)
      (items item ((writeItems layout level (is.map written) ++ ']' :: rest).length + 1) true
        (writeItems layout level (is.map written) ++ ']' :: rest)) (is.map value, ']' :: rest) := by
    cases is with
    | nil => exact .of_ok (Nat.zero_le _) rfl
    | cons i is =>
      rw [List.forall_mem_cons] at h
      simp only [List.map_cons, writeItems, List.append_assoc]
      refine (items_cons layout (level + 1) (stops_moreItems _ _ _ _) (nextItem_write ..) h.1
        (items_writeMore layout level is h.2 rest ?_)).congr Nat.max_le.symm
      have hlength := length_le_moreItems layout level (is.map written)
      simp only [List.length_map, List.length_append, List.length_cons] at hlength ⊢
      omega
  refine hitems.map ?_
  simp only [hclose]
  rfl

end Arrays

/-! ## Objects -/

theorem stops_moreMembers (layout : Layout) (level : Nat) (ms : Members) (rest : List Char) :
    Stops (writeMoreMembers layout level ms ++ '\x7d' :: rest) := by
  cases ms with
  | nil => exact stops_gap layout level rfl rest
  | cons m ms => exact stops_cons rfl _

theorem length_le_moreMembers (layout : Layout) (level : Nat) (ms : Members) :
    ms.length ≤ (writeMoreMembers layout level ms).length := by
  induction ms with
  | nil => exact Nat.zero_le _
  | cons m ms ih =>
    simp only [writeMoreMembers, List.length_cons, List.length_append]
    omega

theorem quoted_append (s : String) (rest : List Char) :
    quoted s ++ rest = '"' :: (s.toList.flatMap escape ++ '"' :: rest) := by
  simp [quoted]

theorem nextKey_quoted (layout : Layout) (level : Nat) (key : String) (s : List Char) :
    nextKey true (layout.gap level ++ (quoted key ++ s)) =
      .ok (true, key.toList.flatMap escape ++ '"' :: s) := by
  have hquote : isBlank '"' = false := rfl
  simp [nextKey, quoted_append, skipBlanks_gap_cons layout level hquote]

theorem nextKey_comma (layout : Layout) (level : Nat) (key : String) (s : List Char) :
    nextKey false (',' :: (layout.gap level ++ (quoted key ++ s))) =
      .ok (true, key.toList.flatMap escape ++ '"' :: s) := by
  have hcomma : isBlank ',' = false := rfl
  have hquote : isBlank '"' = false := rfl
  simp [nextKey, quoted_append, skipBlanks_cons hcomma, skipBlanks_gap_cons layout level hquote]

theorem nextKey_close (first : Bool) (layout : Layout) (level : Nat) (s : List Char) :
    nextKey first (layout.gap level ++ '\x7d' :: s) = .ok (false, '\x7d' :: s) := by
  have hclose : isBlank '\x7d' = false := rfl
  simp [nextKey, skipBlanks_gap_cons layout level hclose]

/-- The blank behind a colon makes no difference to what follows. -/
theorem colon_write (layout : Layout) (s : List Char) :
    ∃ s', colon (layout.colon ++ s) = .ok s' ∧ skipBlanks s' = skipBlanks s := by
  cases layout with
  | compact => exact ⟨s, rfl, rfl⟩
  | pretty => exact ⟨' ' :: s, rfl, skipBlanks_cons_of_blank rfl s⟩

/-- A step over a member that reads its text, from the colon on. -/
def TakesMember {σ : Type} (budget : Nat) (take : Reader σ) (j : Json) (x : σ) : Prop :=
  ∀ (layout : Layout) (level : Nat) (rest : List Char), Stops rest →
    Yields (j.depth ≤ budget) (take (layout.colon ++ (write layout level j ++ rest))) (x, rest)

/-- The value behind a colon is read and put to use. -/
theorem takesMember_of {σ α : Type} {budget : Nat} {read : Reader α} {take : Reader σ}
    (use : α → σ) (htake : ∀ s, take s = (do
      let s ← colon s
      let (x, s) ← read s
      .ok (use x, s)))
    {j : Json} {x : α} (hread : ReadsAt budget read j x) : TakesMember budget take j (use x) := by
  intro layout level rest hrest
  obtain ⟨s, hcolon, hskip⟩ := colon_write layout (write layout level j ++ rest)
  rw [skipBlanks_write] at hskip
  simp only [htake, hcolon]
  exact (hread layout level s rest hrest hskip).map rfl

section Objects

variable {σ : Type} {budget : Nat} {step : σ → String → Reader σ}

/-- How a state changes when members are taken in order. -/
inductive Folds (budget : Nat) (step : σ → String → Reader σ) : σ → Members → σ → Prop where
  | nil (a : σ) : Folds budget step a [] a
  | cons {a b c : σ} {key : String} {j : Json} {ms : Members}
      (hmember : TakesMember budget (step a key) j b) (hmore : Folds budget step b ms c) :
      Folds budget step a ((key, j) :: ms) c

/-- A state that is built from a list of entries. Where a member with a new key adds an entry at the
end, members with new and distinct keys add all of theirs. -/
theorem folds_append {β γ : Type} (add : List (String × γ) → σ) (written : β → Json) (value : β → γ)
    {es : List (String × β)}
    (h : ∀ e ∈ es, ∀ before : List (String × γ), e.1 ∉ before.map Prod.fst →
      TakesMember budget (step (add before) e.1) (written e.2) (add (before ++ [(e.1, value e.2)])))
    (before : List (String × γ)) (hnodup : (before.map Prod.fst ++ es.map Prod.fst).Nodup) :
    Folds budget step (add before) (es.map fun e => (e.1, written e.2))
      (add (before ++ es.map fun e => (e.1, value e.2))) := by
  induction es generalizing before with
  | nil =>
    rw [List.map_nil, List.map_nil, List.append_nil]
    exact .nil _
  | cons e es ih =>
    obtain ⟨hentry, hmore⟩ := List.forall_mem_cons.mp h
    have hnew : e.1 ∉ before.map Prod.fst := fun hmem =>
      (List.nodup_append.mp hnodup).2.2 e.1 hmem e.1 List.mem_cons_self rfl
    have hkeys : (before ++ [(e.1, value e.2)]).map Prod.fst ++ es.map Prod.fst =
        before.map Prod.fst ++ (e :: es).map Prod.fst := by
      simp
    have hfolds := ih hmore _ (hkeys ▸ hnodup)
    rw [List.append_assoc, List.singleton_append] at hfolds
    exact .cons (hentry before hnew) hfolds

theorem foldMembers_cons (layout : Layout) (level : Nat) {fuel : Nat} {first : Bool}
    {s rest : List Char} {key : String} {j : Json} {a b c : σ} {q : Prop} (hrest : Stops rest)
    (hnext : nextKey first s = .ok (true, key.toList.flatMap escape ++ '"' ::
      (layout.colon ++ (write layout level j ++ rest))))
    (hmember : TakesMember budget (step a key) j b) {behind : List Char}
    (hmore : Yields q (foldMembers step fuel false b rest) (c, behind)) :
    Yields (j.depth ≤ budget ∧ q) (foldMembers step (fuel + 1) first a s) (c, behind) := by
  have hstep : foldMembers step (fuel + 1) first a s =
      (step a key (layout.colon ++ (write layout level j ++ rest)) >>= fun p =>
        foldMembers step fuel false p.1 p.2) := by
    simp [foldMembers, hnext, stringRest_quoted, bind, Except.bind]
  rw [hstep]
  exact (hmember layout level rest hrest).bind hmore

theorem foldMembers_writeMore (layout : Layout) (level : Nat) {a c : σ} {ms : Members}
    (h : Folds budget step a ms c) (rest : List Char) {fuel : Nat} (hfuel : ms.length < fuel) :
    Yields (depthMembers ms ≤ budget)
      (foldMembers step fuel false a (writeMoreMembers layout level ms ++ '\x7d' :: rest))
      (c, '\x7d' :: rest) := by
  induction h generalizing fuel with
  | nil a =>
    cases fuel with
    | zero => cases hfuel
    | succ fuel =>
      refine .of_ok (Nat.zero_le _) ?_
      simp only [writeMoreMembers, foldMembers, nextKey_close]
      rfl
  | cons hmember _ ih =>
    cases fuel with
    | zero => cases hfuel
    | succ fuel =>
      have hcons := foldMembers_cons layout (level + 1) (stops_moreMembers _ _ _ _)
        (nextKey_comma layout (level + 1) _ _) hmember (ih (Nat.lt_of_succ_lt_succ hfuel))
      simp only [writeMoreMembers, List.cons_append, List.append_assoc]
      exact hcons.congr Nat.max_le.symm

/-- An object is read back from behind its opening brace. -/
theorem objectRest_write (layout : Layout) (level : Nat) {a c : σ} {ms : Members}
    (h : Folds budget step a ms c) (rest : List Char) :
    Yields (depthMembers ms ≤ budget)
      (objectRest step a (writeMembers layout level ms ++ '\x7d' :: rest)) (c, rest) := by
  have hclose : closeObject ('\x7d' :: rest) = .ok rest := rfl
  have hmembers : Yields (depthMembers ms ≤ budget)
      (foldMembers step ((writeMembers layout level ms ++ '\x7d' :: rest).length + 1) true a
        (writeMembers layout level ms ++ '\x7d' :: rest)) (c, '\x7d' :: rest) := by
    cases h with
    | nil => exact .of_ok (Nat.zero_le _) rfl
    | @cons _ _ _ key j ms hmember hmore =>
      simp only [writeMembers, List.append_assoc]
      refine (foldMembers_cons layout (level + 1) (stops_moreMembers _ _ _ _)
        (nextKey_quoted layout (level + 1) _ _) hmember
        (foldMembers_writeMore layout level hmore rest ?_)).congr Nat.max_le.symm
      have hlength := length_le_moreMembers layout level ms
      simp only [List.length_append, List.length_cons] at hlength ⊢
      omega
  refine hmembers.map ?_
  simp only [hclose]
  rfl

end Objects

end Json

end Flowline
