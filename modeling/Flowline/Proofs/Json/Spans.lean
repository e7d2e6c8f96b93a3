import Flowline.Proofs.Json.Framing
import Flowline.Proofs.Json.Results

/-!
# What a value is read from

The readers of arrays, of objects and of whole values look at nothing but what they take. So of a
text that is an object, only the part between its braces counts: blanks stand around it, and on its
own it reads the same.
-/

namespace Flowline

namespace Json

/-! ## Arrays and objects -/

theorem nextItem_skipBlanks (first : Bool) (s : List Char) :
    nextItem first s = nextItem first (skipBlanks s) := by
  rw [nextItem, nextItem, skipBlanks_skipBlanks]

/-- Behind a comma there is an item. -/
theorem nextItem_behind_comma (s : List Char) :
    nextItem false (',' :: s) =
      match skipBlanks s with
      | [] => .error (.upon .endInValue [])
      | c :: cs =>
        if c = ']' then .error (.upon .trailingComma (c :: cs)) else .ok (true, c :: cs) := rfl

theorem nextItem_comma_frames (s : List Char) :
    Frames 1 (fun t => nextItem false (',' :: t)) s := by
  have hskip (t : List Char) :
      nextItem false (',' :: t) = nextItem false (',' :: skipBlanks t) := by
    rw [nextItem_behind_comma, nextItem_behind_comma, skipBlanks_skipBlanks]
  refine .afterBlanks hskip rfl (fun c cs hc => ?_) s
  have hread (t : List Char) : nextItem false (',' :: c :: t) =
      if c = ']' then .error (.upon .trailingComma (c :: t)) else .ok (true, c :: t) := by
    rw [nextItem_behind_comma, skipBlanks_cons hc]
  by_cases hclose : c = ']'
  · exact .of_error ((hread cs).trans (if_pos hclose))
  · exact .peek true (fun t => (hread t).trans (if_neg hclose)) cs

theorem nextItem_frames (first : Bool) (s : List Char) : Frames 1 (nextItem first) s := by
  refine .afterBlanks (nextItem_skipBlanks first) rfl (fun c cs hc => ?_) s
  have hskip (t : List Char) : skipBlanks (c :: t) = c :: t := skipBlanks_cons hc t
  by_cases hclose : c = ']'
  · exact .peek false (fun t => by simp only [nextItem, hskip, if_pos hclose]) cs
  cases first with
  | true =>
    exact .peek true (fun t => by simp only [nextItem, hskip, if_neg hclose, if_true]) cs
  | false =>
    by_cases hcomma : c = ','
    · subst hcomma
      exact .cons (nextItem_comma_frames cs)
    · have herror :
          nextItem false (c :: cs) = .error (.upon .expectedCommaOrBracket (c :: cs)) := by
        simp [nextItem, hskip, hclose, hcomma]
      exact .of_error herror

theorem nextKey_skipBlanks (first : Bool) (s : List Char) :
    nextKey first s = nextKey first (skipBlanks s) := by
  rw [nextKey, nextKey, skipBlanks_skipBlanks]

/-- Behind a comma there is a key. -/
theorem nextKey_behind_comma (s : List Char) :
    nextKey false (',' :: s) =
      match skipBlanks s with
      | [] => .error (.upon .endInValue [])
      | c :: cs =>
        if c = '"' then .ok (true, cs)
        else if c = '\x7d' then .error (.upon .trailingComma (c :: cs))
        else .error (.upon .keyNotString (c :: cs)) := rfl

theorem nextKey_comma_frames (s : List Char) : Frames 1 (fun t => nextKey false (',' :: t)) s := by
  have hskip (t : List Char) : nextKey false (',' :: t) = nextKey false (',' :: skipBlanks t) := by
    rw [nextKey_behind_comma, nextKey_behind_comma, skipBlanks_skipBlanks]
  refine .afterBlanks hskip rfl (fun c cs hc => .cons ?_) s
  simp only [nextKey_behind_comma, skipBlanks_cons hc]
  refine .ite (fun _ => .ok true cs) fun _ => .ite (fun _ => ?_) fun _ => ?_
  · exact .of_error rfl
  · exact .of_error rfl

theorem nextKey_frames (first : Bool) (s : List Char) : Frames 1 (nextKey first) s := by
  refine .afterBlanks (nextKey_skipBlanks first) rfl (fun c cs hc => ?_) s
  have hskip (t : List Char) : skipBlanks (c :: t) = c :: t := skipBlanks_cons hc t
  by_cases hclose : c = '\x7d'
  · exact .peek false (fun t => by simp only [nextKey, hskip, if_pos hclose]) cs
  refine .cons ?_
  cases first with
  | true =>
    simp only [nextKey, hskip, if_neg hclose, if_true]
    exact .ite (fun _ => .ok true cs) fun _ => .of_error rfl
  | false =>
    by_cases hcomma : c = ','
    · subst hcomma
      exact nextKey_comma_frames cs
    · have herror : nextKey false (c :: cs) = .error (.upon .expectedCommaOrBrace (c :: cs)) := by
        simp [nextKey, hskip, hclose, hcomma]
      exact .of_error herror

section Containers

variable {α σ : Type}

theorem items_frames {item : Reader α} (h : ∀ s, Frames 0 item s) (fuel : Nat) (first : Bool)
    (s : List Char) : Frames 1 (items item fuel first) s := by
  induction fuel generalizing first s with
  | zero => exact .of_error rfl
  | succ fuel ih =>
    refine .bind (nextItem_frames first s) fun more t => ?_
    refine .ite (fun _ => ?_) fun _ => .ok [] t
    exact .bind (h t).weaken fun x t => .bind (ih false t) fun xs t => .ok _ t

theorem items_fuel {item : Reader α} (h : ∀ s, Frames 0 item s) {f : Fault}
    (hnil : item [] = .error f) {fuel fuel' : Nat} {first : Bool} {s : List Char}
    {r : List α × List Char} (hr : items item fuel first s = .ok r) (hfuel : s.length < fuel') :
    items item fuel' first s = .ok r := by
  induction fuel generalizing fuel' first s r with
  | zero => cases hr
  | succ fuel ih =>
    cases fuel' with
    | zero => cases hfuel
    | succ fuel' =>
      refine bind_eq_ok_of hr (fun next hnext => hnext) fun next hnext hmore => ?_
      obtain ⟨more, t⟩ := next
      have hle : t.length ≤ s.length := (nextItem_frames first s).length_le hnext
      cases more with
      | false => exact hmore
      | true =>
        refine bind_eq_ok_of hmore (fun x hx => hx) fun x hx hrest => ?_
        have hlt := (h t).length_lt hnil hx
        have hless : x.2.length < fuel' := by omega
        exact bind_eq_ok_of hrest (fun xs hxs => ih hxs hless) fun xs _ hgiven => hgiven

theorem arrayRest_closed {item : Reader α} (h : ∀ s, Frames 0 item s) {f : Fault}
    (hnil : item [] = .error f) (s : List Char) : Closed (arrayRest item) s :=
  takesMark_closeArray.closed_before
    (.of_fuel (items_fuel h hnil) fun fuel => items_frames h fuel true s)

theorem foldMembers_frames {step : σ → String → Reader σ} (h : ∀ a key s, Frames 0 (step a key) s)
    (fuel : Nat) (first : Bool) (a : σ) (s : List Char) :
    Frames 1 (foldMembers step fuel first a) s := by
  induction fuel generalizing first a s with
  | zero => exact .of_error rfl
  | succ fuel ih =>
    refine .bind (nextKey_frames first s) fun more t => ?_
    refine .ite (fun _ => ?_) fun _ => .ok a t
    refine .bind (stringRest_frames t).weaken fun key t => ?_
    exact .bind (h a key t).weaken fun b t => ih false b t

theorem foldMembers_fuel {step : σ → String → Reader σ} (h : ∀ a key s, Frames 0 (step a key) s)
    {fuel fuel' : Nat} {first : Bool} {a : σ} {s : List Char} {r : σ × List Char}
    (hr : foldMembers step fuel first a s = .ok r) (hfuel : s.length < fuel') :
    foldMembers step fuel' first a s = .ok r := by
  induction fuel generalizing fuel' first a s r with
  | zero => cases hr
  | succ fuel ih =>
    cases fuel' with
    | zero => cases hfuel
    | succ fuel' =>
      refine bind_eq_ok_of hr (fun next hnext => hnext) fun next hnext hmore => ?_
      obtain ⟨more, t⟩ := next
      have hle : t.length ≤ s.length := (nextKey_frames first s).length_le hnext
      cases more with
      | false => exact hmore
      | true =>
        refine bind_eq_ok_of hmore (fun key hkey => hkey) fun key hkey hrest => ?_
        have hlt := (stringRest_frames t).length_lt (f := .upon .endInString []) rfl hkey
        refine bind_eq_ok_of hrest (fun b hb => hb) fun b hb hgiven => ?_
        have hle' := (h a key.1 key.2).length_le hb
        exact ih hgiven (by omega)

theorem objectRest_closed {step : σ → String → Reader σ} (h : ∀ a key s, Frames 0 (step a key) s)
    (a : σ) (s : List Char) : Closed (objectRest step a) s :=
  takesMark_closeObject.closed_before
    (.of_fuel (foldMembers_fuel h) fun fuel => foldMembers_frames h fuel true a s)

/-- What an object is read from ends with its closing brace. -/
theorem objectRest_ends {step : σ → String → Reader σ} (h : ∀ a key s, Frames 0 (step a key) s)
    {a b : σ} {s rest : List Char} (hs : objectRest step a s = .ok (b, rest)) :
    ∃ body, s = body ++ ['\x7d'] ++ rest := by
  obtain ⟨⟨b, t⟩, ht, hmore⟩ := exists_of_bind_eq_ok hs
  obtain ⟨rest', hclose, hgiven⟩ := exists_of_bind_eq_ok hmore
  cases hgiven
  obtain ⟨taken, rfl, -⟩ := foldMembers_frames h _ true a s b t ht
  obtain ⟨front, rfl, -⟩ := takesMark_closeObject.cut hclose
  exact ⟨taken ++ front, by simp⟩

theorem putMember_frames {value : Reader Json} (h : ∀ s, Frames 0 value s) (ms : Members)
    (key : String) (s : List Char) : Frames 0 (putMember value ms key) s :=
  takesMark_colon.frames_after (fun t => .bind (h t) fun v t => .ok (ms.put key v) t) s

end Containers

/-! ## Values -/

theorem valueWith_skipBlanks (inner : Option (Reader Json)) (s : List Char) :
    valueWith inner s = valueWith inner (skipBlanks s) := by
  rw [valueWith, valueWith, skipBlanks_skipBlanks]

theorem valueWith_frames {inner : Option (Reader Json)}
    (h : ∀ value, inner = some value →
      (∀ s, Frames 0 value s) ∧ value [] = .error (.upon .endInValue [])) (s : List Char) :
    Frames 0 (valueWith inner) s := by
  refine .afterBlanks (valueWith_skipBlanks inner) rfl (fun c cs hc => .cons ?_) s
  simp only [valueWith, skipBlanks_cons hc]
  -- The branches stand in the order in which the first character is looked at.
  refine .ite (fun _ => word_frames _ _ cs) fun _ => ?_
  refine .ite (fun _ => word_frames _ _ cs) fun _ => ?_
  refine .ite (fun _ => word_frames _ _ cs) fun _ => ?_
  refine .ite (fun _ => number_frames cs) fun _ => ?_
  refine .ite (fun _ => number_frames_cons c cs) fun _ => ?_
  refine .ite (fun _ => .bind (stringRest_frames cs) fun t u => .ok _ u) fun _ => ?_
  cases inner with
  | none =>
    refine .ite (fun _ => .of_error rfl) fun _ => .ite (fun _ => ?_) fun _ => ?_
    · exact .of_error rfl
    · exact .of_error rfl
  | some value =>
    obtain ⟨hvalue, hnil⟩ := h value rfl
    refine .ite (fun _ => ?_) fun _ => .ite (fun _ => ?_) fun _ => .of_error rfl
    · exact .bind ((arrayRest_closed hvalue hnil cs).frames 0) fun xs t => .ok _ t
    · exact .bind ((objectRest_closed (putMember_frames hvalue) [] cs).frames 0) fun ms t => .ok _ t

theorem readValue_frames (budget : Nat) (s : List Char) : Frames 0 (readValue budget) s := by
  induction budget generalizing s with
  | zero => exact valueWith_frames (fun value h => absurd h.symm (Option.some_ne_none value)) s
  | succ budget ih =>
    refine valueWith_frames (fun value h => ?_) s
    obtain rfl := Option.some.inj h
    exact ⟨ih, by cases budget <;> rfl⟩

/-! ## Texts of objects -/

theorem readText_eq_ok_iff {α : Type} {reader : Reader α} {text : List Char} {x : α} :
    readText reader text = .ok x ↔ ∃ rest, reader text = .ok (x, rest) ∧ skipBlanks rest = [] := by
  unfold readText
  constructor
  · intro h
    obtain ⟨⟨y, rest⟩, hread, hmore⟩ := exists_of_bind_eq_ok h
    simp only at hmore
    split at hmore
    · rename_i hrest
      cases hmore
      exact ⟨rest, hread, hrest⟩
    · cases hmore
  · rintro ⟨rest, hread, hrest⟩
    simp [hread, hrest, bind, Except.bind]

/-- What begins with an opening brace is no other value than an object. -/
theorem exists_object_of_valueWith {inner : Option (Reader Json)} {cs rest : List Char} {j : Json}
    (h : valueWith inner ('\x7b' :: cs) = .ok (j, rest)) : ∃ ms, j = .object ms := by
  cases inner with
  | none => cases h
  | some value =>
    obtain ⟨ms, -, hgiven⟩ := exists_of_bind_eq_ok h
    cases hgiven
    exact ⟨ms.1, rfl⟩

theorem exists_object_of_read {cs : List Char} {j : Json}
    (h : read (String.ofList ('\x7b' :: cs)) = .ok j) : ∃ ms, j = .object ms := by
  rw [read, String.toList_ofList, readText_eq_ok_iff] at h
  obtain ⟨rest, hread, -⟩ := h
  exact exists_object_of_valueWith hread

/-- What a value is can be told from how it begins. -/
theorem valueWith_cases {inner : Option (Reader Json)} {s rest : List Char} {j : Json}
    (h : valueWith inner s = .ok (j, rest)) :
    (IsNumber j ∧ ∃ c cs, skipBlanks s = c :: cs ∧ (c = '-' ∨ isDigit c = true)) ∨
      (∃ t cs, j = .string t ∧ skipBlanks s = '"' :: cs ∧ stringRest cs = .ok (t, rest)) ∨
      (∃ value ms cs, j = .object ms ∧ inner = some value ∧ skipBlanks s = '\x7b' :: cs ∧
        objectRest (putMember value) [] cs = .ok (ms, rest)) ∨
      (j = .null ∨ (∃ b, j = .bool b) ∨ ∃ xs, j = .array xs) := by
  have hword {letters s : List Char} {w : Json}
      (hread : (word letters s >>= fun s => .ok (w, s)) = .ok (j, rest)) : j = w := by
    obtain ⟨t, -, hgiven⟩ := exists_of_bind_eq_ok hread
    cases hgiven
    rfl
  unfold valueWith at h
  split at h
  · cases h
  · rename_i c cs hskip
    -- The branches stand in the order in which the first character is looked at.
    split at h
    · exact .inr (.inr (.inr (.inl (hword h))))
    split at h
    · exact .inr (.inr (.inr (.inr (.inl ⟨true, hword h⟩))))
    split at h
    · exact .inr (.inr (.inr (.inr (.inl ⟨false, hword h⟩))))
    split at h
    · rename_i hminus
      exact .inl ⟨number_gives _ _ _ _ h, c, cs, hskip, .inl hminus⟩
    split at h
    · rename_i hdigit
      exact .inl ⟨number_gives _ _ _ _ h, c, cs, hskip, .inr hdigit⟩
    split at h
    · rename_i hquote
      obtain ⟨⟨t, u⟩, hstring, hgiven⟩ := exists_of_bind_eq_ok h
      cases hgiven
      exact .inr (.inl ⟨t, cs, rfl, hquote ▸ hskip, hstring⟩)
    split at h
    · split at h
      · cases h
      · obtain ⟨⟨xs, u⟩, -, hgiven⟩ := exists_of_bind_eq_ok h
        cases hgiven
        exact .inr (.inr (.inr (.inr (.inr ⟨xs, rfl⟩))))
    split at h
    · rename_i hbrace
      split at h
      · cases h
      · rename_i value
        obtain ⟨⟨ms, u⟩, hobject, hgiven⟩ := exists_of_bind_eq_ok h
        cases hgiven
        exact .inr (.inr (.inl ⟨value, ms, cs, rfl, rfl, hbrace ▸ hskip, hobject⟩))
    · cases h

theorem valueWith_eq_int {inner : Option (Reader Json)} {s rest : List Char} {n : Int}
    (h : valueWith inner s = .ok (.int n, rest)) :
    ∃ c cs, skipBlanks s = c :: cs ∧ (c = '-' ∨ isDigit c = true) := by
  obtain ⟨-, hbegins⟩ | ⟨t, cs, heq, -⟩ | ⟨value, ms, cs, heq, -⟩ | heq | ⟨b, heq⟩ | ⟨xs, heq⟩ :=
    valueWith_cases h
  · exact hbegins
  all_goals cases heq

theorem valueWith_eq_string {inner : Option (Reader Json)} {s rest : List Char} {t : String}
    (h : valueWith inner s = .ok (.string t, rest)) :
    ∃ cs, skipBlanks s = '"' :: cs ∧ stringRest cs = .ok (t, rest) := by
  obtain ⟨⟨-, ⟨n, heq⟩ | ⟨d, heq⟩⟩, -⟩ | ⟨t', cs, heq, hskip, hstring⟩ | ⟨value, ms, cs, heq, -⟩ |
    heq | ⟨b, heq⟩ | ⟨xs, heq⟩ := valueWith_cases h
  all_goals cases heq
  exact ⟨cs, hskip, hstring⟩

theorem valueWith_eq_object {inner : Option (Reader Json)} {s rest : List Char} {ms : Members}
    (h : valueWith inner s = .ok (.object ms, rest)) :
    ∃ value cs, inner = some value ∧ skipBlanks s = '\x7b' :: cs ∧
      objectRest (putMember value) [] cs = .ok (ms, rest) := by
  obtain ⟨⟨-, ⟨n, heq⟩ | ⟨d, heq⟩⟩, -⟩ | ⟨t, cs, heq, -⟩ |
    ⟨value, ms', cs, heq, hinner, hskip, hobject⟩ | heq | ⟨b, heq⟩ | ⟨xs, heq⟩ := valueWith_cases h
  all_goals cases heq
  exact ⟨value, cs, hinner, hskip, hobject⟩

/-- An object is read from what stands between its braces. -/
theorem exists_span_of_read {text : String} {ms : Members} (h : read text = .ok (.object ms)) :
    ∃ front body rest, text.toList = front ++ '\x7b' :: (body ++ '\x7d' :: rest) ∧
      (∀ c ∈ front, isBlank c = true) ∧ (∀ c ∈ rest, isBlank c = true) ∧
      read (String.ofList ('\x7b' :: (body ++ ['\x7d']))) = .ok (.object ms) := by
  obtain ⟨rest, hread, hrest⟩ := readText_eq_ok_iff.mp h
  obtain ⟨taken, htext, hcut⟩ := readValue_frames maxDepth text.toList _ _ hread
  have htaken : readValue maxDepth taken = .ok (.object ms, []) := by
    have hnone := hcut [] (.nil _) (Nat.zero_le _)
    rwa [List.append_nil] at hnone
  obtain ⟨value, cs, hvalue, hskip, hobject⟩ := valueWith_eq_object htaken
  obtain rfl := Option.some.inj hvalue
  obtain ⟨body, hbody⟩ := objectRest_ends (putMember_frames (readValue_frames _)) hobject
  rw [List.append_nil] at hbody
  subst hbody
  have hspan : readValue maxDepth ('\x7b' :: (body ++ ['\x7d'])) = .ok (.object ms, []) := by
    rw [← hskip]
    exact (valueWith_skipBlanks _ taken).symm.trans htaken
  obtain ⟨front, hfront, hblank⟩ := exists_blanks taken
  obtain ⟨blanks, hblanks, hblank'⟩ := exists_blanks rest
  rw [hskip] at hfront
  rw [hrest, List.append_nil] at hblanks
  refine ⟨front, body, rest, ?_, hblank, hblanks ▸ hblank', ?_⟩
  · rw [htext, hfront]
    simp
  · rw [read, String.toList_ofList, readText_eq_ok_iff]
    exact ⟨[], hspan, rfl⟩

end Json

end Flowline
