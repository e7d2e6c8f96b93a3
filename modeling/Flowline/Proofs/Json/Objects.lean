import Flowline.Json.Shape
import Flowline.Proofs.Json.Spans

/-!
# Objects in any layout

The text of an object holds the texts of its members, with a comma between any two and blanks
wherever they may stand. A fold makes of such a text what its step makes of one member after the
other, whatever the layout.
-/

namespace Flowline

namespace Json

/-! ## Blanks and quotes -/

theorem skipBlanks_append {front : List Char} (h : ∀ c ∈ front, isBlank c = true)
    (s : List Char) : skipBlanks (front ++ s) = skipBlanks s :=
  List.dropWhile_append_of_pos h

theorem skipBlanks_append_cons {front : List Char} (h : ∀ c ∈ front, isBlank c = true) {c : Char}
    (hc : isBlank c = false) (s : List Char) : skipBlanks (front ++ c :: s) = c :: s := by
  rw [skipBlanks_append h, skipBlanks_cons hc]

theorem skipBlanks_eq_nil {s : List Char} (h : ∀ c ∈ s, isBlank c = true) : skipBlanks s = [] := by
  have hnone := skipBlanks_append h []
  rwa [List.append_nil] at hnone

theorem valueWith_quote (inner : Option (Reader Json)) (cs : List Char) :
    valueWith inner ('"' :: cs) = (stringRest cs >>= fun p => .ok (.string p.1, p.2)) := rfl

/-- Around what is read as a string there are only blanks, and anything may come behind its closing
quote. -/
theorem read_eq_string_iff {text t : String} :
    read text = .ok (.string t) ↔
      ∃ front body back, text.toList = front ++ '"' :: (body ++ back) ∧
        (∀ c ∈ front, isBlank c = true) ∧ (∀ c ∈ back, isBlank c = true) ∧
        ∀ u, stringRest (body ++ u) = .ok (t, u) := by
  rw [read, readText_eq_ok_iff]
  constructor
  · rintro ⟨back, hread, hback⟩
    obtain ⟨cs, hskip, hstring⟩ := valueWith_eq_string hread
    obtain ⟨body, -, rfl, hcut⟩ := stringRest_closed cs t back hstring
    obtain ⟨front, hfront, hblank⟩ := exists_blanks text.toList
    rw [hskip] at hfront
    exact ⟨front, body, back, hfront, hblank, isBlank_of_skipBlanks_eq_nil hback, hcut⟩
  · rintro ⟨front, body, back, htext, hfront, hback, hstring⟩
    refine ⟨back, ?_, skipBlanks_eq_nil hback⟩
    show valueWith _ _ = _
    rw [valueWith_skipBlanks, htext, skipBlanks_append_cons hfront rfl, valueWith_quote, hstring]
    rfl

/-! ## Members -/

theorem nextKey_quote {front : List Char} (h : ∀ c ∈ front, isBlank c = true) (s : List Char) :
    nextKey true (front ++ '"' :: s) = .ok (true, s) := by
  have hquote : isBlank '"' = false := rfl
  simp [nextKey, skipBlanks_append_cons h hquote]

theorem nextKey_comma_quote {back front : List Char} (hback : ∀ c ∈ back, isBlank c = true)
    (hfront : ∀ c ∈ front, isBlank c = true) (s : List Char) :
    nextKey false (back ++ ',' :: (front ++ '"' :: s)) = .ok (true, s) := by
  have hcomma : isBlank ',' = false := rfl
  have hquote : isBlank '"' = false := rfl
  simp [nextKey, skipBlanks_append_cons hback hcomma, skipBlanks_append_cons hfront hquote]

theorem nextKey_brace (first : Bool) {back : List Char} (h : ∀ c ∈ back, isBlank c = true)
    (s : List Char) : nextKey first (back ++ '\x7d' :: s) = .ok (false, '\x7d' :: s) := by
  have hclose : isBlank '\x7d' = false := rfl
  simp [nextKey, skipBlanks_append_cons h hclose]

theorem exists_brace_of_nextKey {first : Bool} {s t : List Char}
    (h : nextKey first s = .ok (false, t)) :
    ∃ back rest, s = back ++ '\x7d' :: rest ∧ t = '\x7d' :: rest ∧
      ∀ c ∈ back, isBlank c = true := by
  obtain ⟨back, hback, hblank⟩ := exists_blanks s
  unfold nextKey at h
  split at h
  · cases h
  · rename_i c cs hskip
    rw [hskip] at hback
    split at h
    · rename_i hclose
      cases h
      exact ⟨back, cs, hclose ▸ hback, hclose ▸ rfl, hblank⟩
    · split at h
      · split at h <;> cases h
      · split at h
        · split at h
          · cases h
          · split at h
            · cases h
            · split at h <;> cases h
        · cases h

theorem exists_quote_of_nextKey {s t : List Char} (h : nextKey true s = .ok (true, t)) :
    ∃ front, s = front ++ '"' :: t ∧ ∀ c ∈ front, isBlank c = true := by
  obtain ⟨front, hfront, hblank⟩ := exists_blanks s
  unfold nextKey at h
  split at h
  · cases h
  · rename_i c cs hskip
    rw [hskip] at hfront
    split at h
    · cases h
    · simp only [if_true] at h
      split at h
      · rename_i hquote
        cases h
        exact ⟨front, hquote ▸ hfront, hblank⟩
      · cases h

theorem exists_comma_of_nextKey {s t : List Char} (h : nextKey false s = .ok (true, t)) :
    ∃ back front, s = back ++ ',' :: (front ++ '"' :: t) ∧
      (∀ c ∈ back, isBlank c = true) ∧ ∀ c ∈ front, isBlank c = true := by
  obtain ⟨back, hback, hblank⟩ := exists_blanks s
  unfold nextKey at h
  split at h
  · cases h
  · rename_i c cs hskip
    rw [hskip] at hback
    split at h
    · cases h
    · simp only [Bool.false_eq_true, if_false] at h
      split at h
      · rename_i hcomma
        obtain ⟨front, hfront, hblank'⟩ := exists_blanks cs
        split at h
        · cases h
        · rename_i d ds hskip'
          rw [hskip'] at hfront
          split at h
          · rename_i hquote
            cases h
            exact ⟨back, front, by rw [hback, hcomma, hfront, hquote], hblank, hblank'⟩
          · split at h <;> cases h
      · cases h

section Folds

variable {σ : Type} {step : σ → String → Reader σ}

/-- A text that a step takes for one member: a key, a colon and a value with blanks around them.
Anything may come behind it. -/
def TakesText (step : σ → String → Reader σ) (a : σ) (text : List Char) (b : σ) : Prop :=
  ∃ front body back, text = front ++ '"' :: (body ++ back) ∧
    (∀ c ∈ front, isBlank c = true) ∧ (∀ c ∈ back, isBlank c = true) ∧
    ∀ u, (stringRest (body ++ u) >>= fun p => step a p.1 p.2) = .ok (b, u)

/-- How a state changes when the texts of members are taken in order. -/
inductive FoldsTexts (step : σ → String → Reader σ) : σ → List (List Char) → σ → Prop where
  | nil (a : σ) : FoldsTexts step a [] a
  | cons {a b c : σ} {text : List Char} {texts : List (List Char)}
      (hmember : TakesText step a text b) (hmore : FoldsTexts step b texts c) :
      FoldsTexts step a (text :: texts) c

/-- A value behind a key, with a colon in between. -/
theorem takesText_of {α : Type} {read : Reader α} (use : String → α → σ) {a : σ}
    (hstep : ∀ key s, step a key s = (colon s >>= fun s => read s >>= fun p =>
      .ok (use key p.1, p.2)))
    {key t : String} (hkey : Json.read key = .ok (.string t)) {taken back : List Char} {x : α}
    (hback : ∀ c ∈ back, isBlank c = true) (hvalue : ∀ u, read (taken ++ u) = .ok (x, u)) :
    TakesText step a (key.toList ++ ':' :: (taken ++ back)) (use t x) := by
  obtain ⟨front, body, blanks, hfront, hblank, hblanks, hstring⟩ := read_eq_string_iff.mp hkey
  refine ⟨front, body ++ (blanks ++ ':' :: taken), back, by simp [hfront], hblank, hback, ?_⟩
  intro u
  have hcolon : colon (blanks ++ ':' :: (taken ++ u)) = .ok (taken ++ u) :=
    (takesMark_colon _ _).mpr (skipBlanks_append_cons hblanks rfl _)
  have htext : body ++ (blanks ++ ':' :: taken) ++ u =
      body ++ (blanks ++ ':' :: (taken ++ u)) := by
    simp
  rw [htext, hstring]
  show step a t (blanks ++ ':' :: (taken ++ u)) = .ok (use t x, u)
  rw [hstep, hcolon]
  show (read (taken ++ u) >>= _) = _
  rw [hvalue]
  rfl

/-- The key and the value of a text that was taken for a member. -/
theorem exists_value_of_takesText {α : Type} {read : Reader α} {use : String → α → σ} {a b : σ}
    (hstep : ∀ key s, step a key s = (colon s >>= fun s => read s >>= fun p =>
      .ok (use key p.1, p.2)))
    (hclosed : ∀ s, Closed read s) {text : List Char} (h : TakesText step a text b) :
    ∃ key t taken back x, text = String.toList key ++ ':' :: (taken ++ back) ∧
      Json.read key = .ok (.string t) ∧ (∀ c ∈ back, isBlank c = true) ∧
      (∀ u, read (taken ++ u) = .ok (x, u)) ∧ b = use t x := by
  obtain ⟨front, body, back, rfl, hfront, hback, htake⟩ := h
  obtain ⟨⟨t, s⟩, hstring, hmore⟩ := exists_of_bind_eq_ok (htake [])
  have hvalue : step a t s = .ok (b, []) := hmore
  rw [hstep] at hvalue
  obtain ⟨s', hcolon, hvalue⟩ := exists_of_bind_eq_ok hvalue
  obtain ⟨⟨x, rest⟩, hx, hgiven⟩ := exists_of_bind_eq_ok hvalue
  cases hgiven
  obtain ⟨taken, -, rfl, hcut⟩ := hclosed s' x [] hx
  obtain ⟨letters, -, hbody, hletters⟩ := stringRest_closed _ t s hstring
  obtain ⟨blanks, hblanks, hblank⟩ := exists_blanks s
  rw [(takesMark_colon s _).mp hcolon, List.append_nil] at hblanks
  rw [List.append_nil, hblanks] at hbody
  refine ⟨String.ofList (front ++ '"' :: (letters ++ blanks)), t, taken, back, x, ?_, ?_, hback,
    hcut, rfl⟩
  · rw [String.toList_ofList, hbody]
    simp
  · refine read_eq_string_iff.mpr ⟨front, letters, blanks, ?_, hfront, hblank, hletters⟩
    rw [String.toList_ofList]

theorem foldMembers_text {fuel : Nat} {first : Bool} {a b : σ} {s body u : List Char}
    (hnext : nextKey first s = .ok (true, body ++ u))
    (htake : (stringRest (body ++ u) >>= fun p => step a p.1 p.2) = .ok (b, u)) :
    foldMembers step (fuel + 1) first a s = foldMembers step fuel false b u := by
  obtain ⟨⟨key, t⟩, hkey, hstep⟩ := exists_of_bind_eq_ok htake
  have hstep' : step a key t = .ok (b, u) := hstep
  simp [foldMembers, hnext, hkey, hstep', bind, Except.bind]

theorem foldMembers_brace (fuel : Nat) (first : Bool) (a : σ) {back : List Char}
    (h : ∀ c ∈ back, isBlank c = true) (rest : List Char) :
    foldMembers step (fuel + 1) first a (back ++ '\x7d' :: rest) = .ok (a, '\x7d' :: rest) := by
  simp [foldMembers, nextKey_brace first h, bind, Except.bind]

/-- The members behind the first, or behind any other. -/
theorem foldMembers_texts {a c : σ} {texts : List (List Char)} (h : FoldsTexts step a texts c)
    {back pad : List Char} (hback : ∀ c ∈ back, isBlank c = true)
    (hpad : ∀ c ∈ pad, isBlank c = true) (rest : List Char) :
    ∃ fuel, foldMembers step fuel false a
        (back ++ (texts.flatMap (',' :: ·) ++ (pad ++ '\x7d' :: rest))) =
      .ok (c, '\x7d' :: rest) := by
  induction h generalizing back with
  | nil a =>
    have hblank : ∀ c ∈ back ++ pad, isBlank c = true :=
      List.forall_mem_append.mpr ⟨hback, hpad⟩
    refine ⟨1, ?_⟩
    rw [List.flatMap_nil, List.nil_append, ← List.append_assoc]
    exact foldMembers_brace 0 false a hblank rest
  | cons hmember _ ih =>
    obtain ⟨front, body, blanks, rfl, hfront, hblanks, htake⟩ := hmember
    obtain ⟨fuel, hfuel⟩ := ih hblanks
    refine ⟨fuel + 1, ?_⟩
    rw [List.flatMap_cons]
    simp only [List.cons_append, List.append_assoc]
    rw [foldMembers_text (nextKey_comma_quote hback hfront _) (htake _)]
    exact hfuel

/-- A member that was taken, from behind the quote of its key. -/
theorem exists_text_of_member (hclosed : ∀ a key s, Closed (step a key) s) {fuel : Nat} {a c : σ}
    {k t : List Char}
    (h : (stringRest k >>= fun p => step a p.1 p.2 >>= fun q =>
      foldMembers step fuel false q.1 q.2) = .ok (c, t)) :
    ∃ b u body, k = body ++ u ∧
      (∀ u, (stringRest (body ++ u) >>= fun p => step a p.1 p.2) = .ok (b, u)) ∧
      foldMembers step fuel false b u = .ok (c, t) := by
  obtain ⟨⟨key, t'⟩, hkey, hmore⟩ := exists_of_bind_eq_ok h
  obtain ⟨⟨b, u⟩, hstep, hrest⟩ := exists_of_bind_eq_ok hmore
  have hmember : (stringRest k >>= fun p => step a p.1 p.2) = .ok (b, u) := by
    rw [hkey]
    exact hstep
  have hboth : Closed (fun k => stringRest k >>= fun p => step a p.1 p.2) k :=
    .after (stringRest_frames k) fun key t => hclosed a key t
  obtain ⟨body, -, hbody, hcut⟩ := hboth b u hmember
  exact ⟨b, u, body, hbody, hcut, hrest⟩

/-- The members that were taken behind the first, or behind any other. -/
theorem exists_texts_of_foldMembers (hclosed : ∀ a key s, Closed (step a key) s) {fuel : Nat}
    {a c : σ} {s t : List Char} (h : foldMembers step fuel false a s = .ok (c, t)) :
    ∃ back texts pad rest, s = back ++ (texts.flatMap (',' :: ·) ++ (pad ++ '\x7d' :: rest)) ∧
      t = '\x7d' :: rest ∧ (∀ c ∈ back, isBlank c = true) ∧ (∀ c ∈ pad, isBlank c = true) ∧
      FoldsTexts step a texts c := by
  induction fuel generalizing a s with
  | zero => cases h
  | succ fuel ih =>
    obtain ⟨⟨more, k⟩, hnext, hmore⟩ := exists_of_bind_eq_ok h
    cases more with
    | false =>
      cases hmore
      obtain ⟨back, rest, rfl, rfl, hblank⟩ := exists_brace_of_nextKey hnext
      exact ⟨back, [], [], rest, rfl, rfl, hblank, fun _ hmem => absurd hmem List.not_mem_nil,
        .nil _⟩
    | true =>
      obtain ⟨back, front, rfl, hback, hfront⟩ := exists_comma_of_nextKey hnext
      obtain ⟨b, u, body, rfl, hbody, hrest⟩ := exists_text_of_member hclosed hmore
      obtain ⟨back', texts, pad, rest, rfl, rfl, hback', hpad, hfolds⟩ := ih hrest
      have hmember := FoldsTexts.cons ⟨front, body, back', rfl, hfront, hback', hbody⟩ hfolds
      exact ⟨back, (front ++ '"' :: (body ++ back')) :: texts, pad, rest, by simp, rfl, hback, hpad,
        hmember⟩

theorem intercalate_comma_cons (text : List Char) (texts : List (List Char)) :
    List.intercalate [','] (text :: texts) = text ++ texts.flatMap (',' :: ·) := by
  induction texts generalizing text with
  | nil => simp
  | cons text' texts ih => simp [List.intercalate_cons_cons, ih]

/-- A whole object, from behind its opening brace. -/
theorem objectRest_texts (hframes : ∀ a key s, Frames 0 (step a key) s) {a c : σ}
    {texts : List (List Char)} (h : FoldsTexts step a texts c) {pad : List Char}
    (hpad : ∀ c ∈ pad, isBlank c = true) (rest : List Char) :
    objectRest step a (List.intercalate [','] texts ++ (pad ++ '\x7d' :: rest)) =
      .ok (c, rest) := by
  have hmembers : ∃ fuel, foldMembers step fuel true a
      (List.intercalate [','] texts ++ (pad ++ '\x7d' :: rest)) = .ok (c, '\x7d' :: rest) := by
    cases h with
    | nil => exact ⟨1, foldMembers_brace 0 true a hpad rest⟩
    | cons hmember hmore =>
      obtain ⟨front, body, back, rfl, hfront, hback, htake⟩ := hmember
      obtain ⟨fuel, hfuel⟩ := foldMembers_texts hmore hback hpad rest
      refine ⟨fuel + 1, ?_⟩
      rw [intercalate_comma_cons]
      simp only [List.cons_append, List.append_assoc]
      rw [foldMembers_text (nextKey_quote hfront _) (htake _)]
      exact hfuel
  obtain ⟨fuel, hfuel⟩ := hmembers
  have hclose : closeObject ('\x7d' :: rest) = .ok rest := rfl
  rw [objectRest, foldMembers_fuel hframes hfuel (Nat.lt_succ_self _)]
  simp [hclose, bind, Except.bind]

/-- What is taken for an object is the texts of its members, with commas between them. -/
theorem exists_texts_of_objectRest (hclosed : ∀ a key s, Closed (step a key) s) {a c : σ}
    {s rest : List Char} (h : objectRest step a s = .ok (c, rest)) :
    ∃ texts pad, s = List.intercalate [','] texts ++ (pad ++ '\x7d' :: rest) ∧
      (∀ c ∈ pad, isBlank c = true) ∧ FoldsTexts step a texts c := by
  have hclose (t : List Char) : closeObject ('\x7d' :: t) = .ok t := rfl
  obtain ⟨⟨c', t⟩, hmembers, hbrace⟩ := exists_of_bind_eq_ok h
  obtain ⟨rest', hrest, hgiven⟩ := exists_of_bind_eq_ok hbrace
  cases hgiven
  obtain ⟨⟨more, k⟩, hnext, hmore⟩ := exists_of_bind_eq_ok hmembers
  cases more with
  | false =>
    cases hmore
    obtain ⟨pad, rest', rfl, rfl, hpad⟩ := exists_brace_of_nextKey hnext
    rw [hclose] at hrest
    cases hrest
    exact ⟨[], pad, rfl, hpad, .nil _⟩
  | true =>
    obtain ⟨front, rfl, hfront⟩ := exists_quote_of_nextKey hnext
    obtain ⟨b, u, body, rfl, hbody, hothers⟩ := exists_text_of_member hclosed hmore
    obtain ⟨back, texts, pad, rest', rfl, rfl, hback, hpad, hfolds⟩ :=
      exists_texts_of_foldMembers hclosed hothers
    rw [hclose] at hrest
    cases hrest
    refine ⟨(front ++ '"' :: (body ++ back)) :: texts, pad, ?_, hpad,
      .cons ⟨front, body, back, rfl, hfront, hback, hbody⟩ hfolds⟩
    rw [intercalate_comma_cons]
    simp

end Folds

/-- The text of an object: the texts of its members, and blanks in front of it, behind its last
member and behind it. -/
def objectText (front : List Char) (texts : List (List Char)) (pad back : List Char) : String :=
  String.ofList (front ++ '\x7b' :: (List.intercalate [','] texts ++ (pad ++ '\x7d' :: back)))

/-- A fold over the members of an object reads the texts of objects, in any layout, and no other
texts. -/
theorem Decoder.run_fold_eq_ok_iff {σ : Type} {wanted : String}
    {step : Nat → σ → String → Reader σ} {start c : σ}
    (hclosed : ∀ budget a key s, Closed (step budget a key) s) {text : String} :
    (fold wanted step start).run text = .ok c ↔
      ∃ front texts pad back, text = objectText front texts pad back ∧
        (∀ c ∈ front, isBlank c = true) ∧ (∀ c ∈ pad, isBlank c = true) ∧
        (∀ c ∈ back, isBlank c = true) ∧ FoldsTexts (step (maxDepth - 1)) start texts c := by
  rw [run, readText_eq_ok_iff]
  constructor
  · rintro ⟨back, hread, hback⟩
    obtain ⟨front, hfront, hblank⟩ := exists_blanks text.toList
    unfold fold at hread
    split at hread
    · rename_i cs hskip
      obtain ⟨texts, pad, rfl, hpad, hfolds⟩ := exists_texts_of_objectRest (hclosed _) hread
      rw [hskip] at hfront
      refine ⟨front, texts, pad, back, ?_, hblank, hpad, isBlank_of_skipBlanks_eq_nil hback, hfolds⟩
      rw [objectText, ← hfront, String.ofList_toList]
    · cases hread
  · rintro ⟨front, texts, pad, back, rfl, hfront, hpad, hback, hfolds⟩
    have hskip := skipBlanks_append_cons hfront (c := '\x7b') rfl
      (List.intercalate [','] texts ++ (pad ++ '\x7d' :: back))
    refine ⟨back, ?_, skipBlanks_eq_nil hback⟩
    simp only [objectText, String.toList_ofList, fold, hskip]
    exact objectRest_texts (fun a key s => (hclosed _ a key s).frames 0) hfolds hpad back

end Json

end Flowline
