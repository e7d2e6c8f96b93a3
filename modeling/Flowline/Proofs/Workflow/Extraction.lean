import Flowline.Proofs.Json.Spans
import Flowline.Proofs.Workflow.Printing
import Flowline.Proofs.Workflow.Slots

/-!
# Objects in generated text

A workflow is found in a generated text just if the text holds an accepted text with no opening
brace in front of it and no closing brace behind it. Both of them may stand in the strings of the
object, and either may be said on the other side. So the text around the object does not count, and
there is only one way to fail.
-/

namespace Flowline

/-! ## The first and the last of a character -/

theorem dropWhile_bne_append {c : Char} {front : List Char} (h : c ∉ front) (t : List Char) :
    (front ++ c :: t).dropWhile (· != c) = c :: t := by
  have hfront : ∀ a ∈ front, (a != c) = true := by
    intro a ha
    rw [bne_iff_ne]
    rintro rfl
    exact h ha
  rw [List.dropWhile_append_of_pos hfront, List.dropWhile_cons_of_neg (by simp)]

theorem dropWhile_bne_eq_cons {c d : Char} {s t : List Char}
    (h : s.dropWhile (· != c) = d :: t) : d = c ∧ ∃ front, s = front ++ c :: t ∧ c ∉ front := by
  induction s with
  | nil => cases h
  | cons e s ih =>
    by_cases he : e = c
    · rw [List.dropWhile_cons_of_neg (by simpa using he)] at h
      cases h
      exact ⟨he, [], by rw [he]; rfl, List.not_mem_nil⟩
    · rw [List.dropWhile_cons_of_pos (by simpa using he)] at h
      obtain ⟨hd, front, hs, hfront⟩ := ih h
      refine ⟨hd, e :: front, congrArg (e :: ·) hs, fun hmem => ?_⟩
      rcases List.mem_cons.mp hmem with hce | hmem
      · exact he hce.symm
      · exact hfront hmem

namespace Workflow

/-- The span of an object goes from the first opening brace to the last closing one. -/
theorem objectSpan?_eq_some_iff {text span : List Char} :
    objectSpan? text = some span ↔
      ∃ pre body post, text = pre ++ '\x7b' :: (body ++ '\x7d' :: post) ∧ '\x7b' ∉ pre ∧
        '\x7d' ∉ post ∧ span = '\x7b' :: (body ++ ['\x7d']) := by
  constructor
  · intro h
    unfold objectSpan? at h
    split at h
    · cases h
    · rename_i c cs hopen
      obtain ⟨rfl, pre, rfl, hpre⟩ := dropWhile_bne_eq_cons hopen
      split at h
      · cases h
      · rename_i d ds hclose
        obtain ⟨rfl, post, hcs, hpost⟩ := dropWhile_bne_eq_cons hclose
        cases h
        refine ⟨pre, ds.reverse, post.reverse, ?_, hpre, mt List.mem_reverse.mp hpost, ?_⟩
        · rw [← List.reverse_reverse cs, hcs]
          simp
        · rw [List.reverse_cons]
  · rintro ⟨pre, body, post, rfl, hpre, hpost, rfl⟩
    have hbehind : (body ++ '\x7d' :: post).reverse.dropWhile (· != '\x7d') =
        '\x7d' :: body.reverse := by
      have hreverse :
          (body ++ '\x7d' :: post).reverse = post.reverse ++ '\x7d' :: body.reverse := by
        simp
      rw [hreverse, dropWhile_bne_append (mt List.mem_reverse.mp hpost)]
    simp only [objectSpan?, dropWhile_bne_append hpre, hbehind]
    simp

/-- An accepted text is read from the span of its object alone, whatever stands around it. -/
theorem objectSpan?_of_parse {j : String} {w : Workflow} (h : parse j = .ok w)
    {pre post : List Char} (hpre : '\x7b' ∉ pre) (hpost : '\x7d' ∉ post) :
    ∃ span, objectSpan? (pre ++ j.toList ++ post) = some span ∧
      parse (String.ofList span) = .ok w := by
  obtain ⟨ms, hms⟩ := parse_eq_ok_iff.mp ⟨w, h⟩
  obtain ⟨front, body, rest, hj, hfront, hrest, hspan⟩ := Json.exists_span_of_read hms
  have hopen : '\x7b' ∉ pre ++ front := by
    intro hmem
    rcases List.mem_append.mp hmem with hmem | hmem
    · exact hpre hmem
    · exact absurd (hfront _ hmem) (by decide)
  have hclose : '\x7d' ∉ rest ++ post := by
    intro hmem
    rcases List.mem_append.mp hmem with hmem | hmem
    · exact absurd (hrest _ hmem) (by decide)
    · exact hpost hmem
  have hparse : parse (String.ofList ('\x7b' :: (body ++ ['\x7d']))) = .ok w := by
    rw [parse, hms] at h
    rw [parse, hspan, h]
  refine ⟨_, objectSpan?_eq_some_iff.mpr ⟨_, body, _, ?_, hopen, hclose, rfl⟩, hparse⟩
  rw [hj]
  simp

/-- What stands between braces is read as a text of its own, if it is JSON. -/
theorem extract_of_read {text : String} {span : List Char} {j : Json}
    (hspan : objectSpan? text.toList = some span) (hread : Json.read (String.ofList span) = .ok j) :
    extract text = parse (String.ofList span) := by
  simp only [extract, parse, hspan, hread]

theorem code_of_extract_error {text : String} {i : Issue} (h : extract text = .error i) :
    i.diagnostic.code = "P002" := by
  cases hspan : objectSpan? text.toList with
  | none =>
    simp only [extract, hspan] at h
    obtain rfl := Except.error.inj h
    rfl
  | some span =>
    cases hread : Json.read (String.ofList span) with
    | error f =>
      simp only [extract, hspan, hread] at h
      obtain rfl := Except.error.inj h
      rfl
    | ok j =>
      -- What begins with a brace is an object, and no object is refused.
      obtain ⟨pre, body, post, -, -, -, rfl⟩ := objectSpan?_eq_some_iff.mp hspan
      obtain ⟨ms, rfl⟩ := Json.exists_object_of_read hread
      rw [extract_of_read hspan hread, parse, hread] at h
      cases h

/-- A workflow is found in a text just if the text holds an accepted one with no opening brace in
front of it and no closing brace behind it. -/
theorem extract_eq_ok_iff {text : String} {w : Workflow} :
    extract text = .ok w ↔
      ∃ pre j post : String, text = pre ++ j ++ post ∧ '\x7b' ∉ pre.toList ∧
        '\x7d' ∉ post.toList ∧ parse j = .ok w := by
  constructor
  · intro h
    obtain ⟨span, hspan, hparse⟩ := exists_of_extract h
    obtain ⟨pre, body, post, htext, hpre, hpost, rfl⟩ := objectSpan?_eq_some_iff.mp hspan
    refine ⟨.ofList pre, .ofList ('\x7b' :: (body ++ ['\x7d'])), .ofList post, ?_, ?_, ?_, hparse⟩
    · rw [← String.ofList_append, ← String.ofList_append, ← String.ofList_toList (s := text), htext]
      simp
    · rwa [String.toList_ofList]
    · rwa [String.toList_ofList]
  · rintro ⟨pre, j, post, rfl, hpre, hpost, hparse⟩
    obtain ⟨span, hspan, hparse'⟩ := objectSpan?_of_parse hparse hpre hpost
    rw [← String.toList_append, ← String.toList_append] at hspan
    obtain ⟨ms, hms⟩ := parse_eq_ok_iff.mp ⟨w, hparse'⟩
    rw [extract_of_read hspan hms, hparse']

/-- A text that is said around another one, without an opening brace in front and without a closing
one behind, makes no difference. -/
theorem extract_around {text : String} {w : Workflow} (h : extract text = .ok w) {pre post : String}
    (hpre : '\x7b' ∉ pre.toList) (hpost : '\x7d' ∉ post.toList) :
    extract (pre ++ text ++ post) = .ok w := by
  obtain ⟨pre', j, post', rfl, hpre', hpost', hparse⟩ := extract_eq_ok_iff.mp h
  refine extract_eq_ok_iff.mpr ⟨pre ++ pre', j, post' ++ post, ?_, ?_, ?_, hparse⟩
  · simp only [String.append_assoc]
  · rw [String.toList_append]
    exact fun hmem => (List.mem_append.mp hmem).elim hpre hpre'
  · rw [String.toList_append]
    exact fun hmem => (List.mem_append.mp hmem).elim hpost' hpost

theorem extract_of_parse {text : String} {w : Workflow} (h : parse text = .ok w) :
    extract text = .ok w := by
  refine extract_eq_ok_iff.mpr ⟨"", text, "", ?_, List.not_mem_nil, List.not_mem_nil, h⟩
  rw [String.empty_append, String.append_empty]

/-- A workflow is found in a generated text just if the text holds an accepted one, with no opening
brace in front of it and no closing brace behind it. So an accepted text is found in itself, and
what is said around a text does not count. Where nothing is found, there is no object that is JSON:
what stands between braces is an object if it is JSON, and whatever an object holds, also the
conversion that may fail makes a workflow of it. -/
theorem extract_recovers_embedded_object (text : String) :
    (∀ w, extract text = .ok w ↔
      ∃ pre j post : String, text = pre ++ j ++ post ∧ '\x7b' ∉ pre.toList ∧
        '\x7d' ∉ post.toList ∧ parse j = .ok w) ∧
      (∀ w, parse text = .ok w → extract text = parse text) ∧
      (∀ w, extract text = .ok w → ∀ pre post : String, '\x7b' ∉ pre.toList →
        '\x7d' ∉ post.toList → extract (pre ++ text ++ post) = extract text) ∧
      (∀ i, extract text = .error i → i.diagnostic.code = "P002") ∧
      ∀ span j, objectSpan? text.toList = some span → Json.read (String.ofList span) = .ok j →
        convert j = extract text := by
  refine ⟨fun w => extract_eq_ok_iff, ?_, ?_, fun i => code_of_extract_error, ?_⟩
  · intro w h
    rw [extract_of_parse h, h]
  · intro w h pre post hpre hpost
    rw [extract_around h hpre hpost, h]
  · intro span j hspan hread
    rw [convert_of_read hread, extract_of_read hspan hread]

theorem extract_recovers_embedded_object_braces :
    let text := (Json.object [("name", .string "\x7d\x7b")]).compact
    extract ("\x7d" ++ text ++ "\x7b") = .ok { name := "\x7d\x7b" } ∧
      (∃ pre j post : String, text = pre ++ j ++ post ∧ '\x7b' ∉ pre.toList ∧
        '\x7d' ∉ post.toList ∧ parse j = .ok { name := "\x7d\x7b" }) ∧
      (∃ i, extract "no object" = .error i ∧ i.diagnostic.code = "P002") ∧
      convert (.object [("name", .string "\x7d\x7b")]) = .ok { name := "\x7d\x7b" } := by
  intro text
  have hread : Json.read text = .ok (.object [("name", .string "\x7d\x7b")]) := by
    refine Json.read_compact ?_ (by decide) rfl
    simp [Json.Regular, Json.RegularMembers, Members.keys]
  have hparse : parse text = .ok { name := "\x7d\x7b" } := by
    rw [parse, hread]
    rfl
  obtain ⟨hiff, hself, haround, -, hconvert⟩ := extract_recovers_embedded_object text
  obtain ⟨-, -, -, hcode, -⟩ := extract_recovers_embedded_object "no object"
  have hextract := (hself _ hparse).trans hparse
  have hspan : objectSpan? text.toList = some text.toList := by decide
  have hfail : extract "no object" = .error .noObject := rfl
  refine ⟨?_, (hiff _).mp hextract, ⟨_, hfail, hcode _ hfail⟩, ?_⟩
  · rw [haround _ hextract "\x7d" "\x7b" (by decide) (by decide), hextract]
  · have hreadSpan : Json.read (String.ofList text.toList) =
        .ok (.object [("name", .string "\x7d\x7b")]) := by
      rw [String.ofList_toList, hread]
    rw [hconvert _ _ hspan hreadSpan, hextract]

end Workflow

end Flowline
