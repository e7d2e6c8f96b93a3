import Flowline.Proofs.Lowering.Layout
import Flowline.Proofs.Names.Collisions
import Flowline.Proofs.Validation.Codes
import Flowline.Proofs.Workflow.Extraction
import Flowline.Proofs.Workflow.Printing

/-!
# How deep traversals nest

A traversal goes through siblings, and calls itself for the steps below each of them. `Traversal`
says how a traversal is put together from these calls, and `Traversal.within` runs it as long as
the calls nest no deeper than so many levels; a call for no steps does not count. The result is the
one without a bound as soon as there are as many levels as the visited steps take up, and there is
none before.

A text has room for 63 levels of steps, so that no traversal of a workflow that was read from a
text nests deeper, and some do nest as deep.
-/

namespace Flowline

/-! ## Traversals with a bound -/

/-- How a traversal goes through siblings. It hands an argument down to the steps below the first
of them, and one on to the others, and joins what comes of both. -/
structure Traversal (ι ρ : Type) where
  empty : ι → ρ
  /-- Whether the steps below a step are left out. -/
  stops : ι → Step → Bool := fun _ _ => false
  down : ι → Step → ι
  next : ι → Step → ρ → ι
  join : ι → Step → ρ → ρ → ρ

namespace Traversal

variable {ι ρ : Type} (t : Traversal ι ρ) {f : ι → List Step → ρ}

/-- The steps below a step that are not left out. -/
def below (i : ι) (s : Step) : List Step := if t.stops i s then [] else s.children

/-- A function that goes through siblings in this way. -/
structure Computes (f : ι → List Step → ρ) : Prop where
  nil : ∀ i, f i [] = t.empty i
  cons : ∀ i s ss, f i (s :: ss) =
    let below := f (t.down i s) (t.below i s)
    t.join i s below (f (t.next i s below) ss)

/-- One call, given what the calls that it makes give. -/
def across (deeper : ι → List Step → Option ρ) : ι → List Step → Option ρ
  | i, [] => some (t.empty i)
  | i, s :: ss => do
    let below ← deeper (t.down i s) (t.below i s)
    let rest ← across deeper (t.next i s below) ss
    some (t.join i s below rest)

/-- What a traversal gives if its calls nest no deeper than so many levels. -/
def within : Nat → ι → List Step → Option ρ
  | 0, i, [] => some (t.empty i)
  | 0, _, _ :: _ => none
  | n + 1, i, ss => t.across (within n) i ss

variable {t}

@[simp] theorem within_nil (n : Nat) (i : ι) : t.within n i [] = some (t.empty i) := by
  cases n with
  | zero => rfl
  | succ n => rfl

theorem within_succ_cons (n : Nat) (i : ι) (s : Step) (ss : List Step) :
    t.within (n + 1) i (s :: ss) =
      (t.within n (t.down i s) (t.below i s)).bind fun below =>
        (t.within (n + 1) (t.next i s below) ss).map (t.join i s below) := by
  rw [within, across]
  cases t.within n (t.down i s) (t.below i s) with
  | none => rfl
  | some below => cases h : t.across (t.within n) (t.next i s below) ss <;> simp [within, h]

/-- The levels of the visited steps are enough. -/
theorem within_eq_some (h : t.Computes f) {n : Nat} {ss : List Step} (hn : Step.depthAll ss ≤ n)
    (i : ι) : t.within n i ss = some (f i ss) := by
  induction ss using Step.siblings_induction generalizing n i with
  | nil => rw [within_nil, h.nil]
  | cons s ss below rest =>
    rw [Step.depthAll, Step.depth_eq, Nat.max_le] at hn
    obtain ⟨hs, hss⟩ := hn
    obtain ⟨m, rfl⟩ := Nat.exists_eq_add_of_le' (Nat.le_of_add_right_le hs)
    have hbelow : t.within m (t.down i s) (t.below i s) =
        some (f (t.down i s) (t.below i s)) := by
      unfold Traversal.below
      split
      · rw [within_nil, h.nil]
      · exact below (by omega) _
    rw [within_succ_cons, hbelow, Option.bind_some, rest hss, Option.map_some, h.cons]

/-- A traversal that leaves nothing out needs all of them. -/
theorem depthAll_le_of_within (hstops : ∀ i s, t.stops i s = false) {n : Nat} {i : ι}
    {ss : List Step} {r : ρ} (h : t.within n i ss = some r) : Step.depthAll ss ≤ n := by
  induction ss using Step.siblings_induction generalizing n i r with
  | nil => exact Nat.zero_le n
  | cons s ss below rest =>
    cases n with
    | zero => cases h
    | succ n =>
      have hall : t.below i s = s.children := by rw [Traversal.below, hstops]; rfl
      rw [within_succ_cons, hall, Option.bind_eq_some_iff] at h
      obtain ⟨b, hbelow, hrest⟩ := h
      obtain ⟨r', hrest, -⟩ := Option.map_eq_some_iff.mp hrest
      rw [Step.depthAll, Step.depth_eq, Nat.max_le, Nat.add_comm 1]
      exact ⟨Nat.succ_le_succ (below hbelow), rest hrest⟩

/-- A traversal that leaves nothing out gives its result just if it may nest as deep as the visited
steps do. -/
theorem within_eq_some_iff (h : t.Computes f) (hstops : ∀ i s, t.stops i s = false) {n : Nat}
    {i : ι} {ss : List Step} : t.within n i ss = some (f i ss) ↔ Step.depthAll ss ≤ n :=
  ⟨depthAll_le_of_within hstops, fun hn => within_eq_some h hn i⟩

/-! ## The traversals of a workflow -/

/-- How steps are counted. -/
def counting : Traversal Unit Nat where
  empty _ := 0
  down _ _ := ()
  next _ _ _ := ()
  join _ _ below rest := 1 + below + rest

theorem counting_computes : counting.Computes fun _ => Step.countAll :=
  ⟨fun _ => rfl, fun _ => Step.countAll_cons⟩

/-- How the levels of steps are counted. -/
def measuring : Traversal Unit Nat where
  empty _ := 0
  down _ _ := ()
  next _ _ _ := ()
  join _ _ below rest := max (1 + below) rest

theorem measuring_computes : measuring.Computes fun _ => Step.depthAll := by
  refine ⟨fun _ => rfl, fun _ s ss => ?_⟩
  rw [Step.depthAll, Step.depth_eq]
  rfl

/-- Where siblings stand: the path of the step above them, the index of the first, and what else a
traversal hands on. -/
structure Place (α : Type) where
  parent : Option String := none
  index : Nat := 0
  carried : α

/-- The path of the first sibling. -/
def Place.path {α : Type} (p : Place α) : String := childPath p.parent p.index

/-- How nodes are emitted from a height on. -/
def flattening : Traversal (Place Int) (List Emitted × Int) where
  empty p := ([], p.carried)
  down p _ := ⟨some p.path, 0, rowAt p.carried 1⟩
  next p _ below := ⟨p.parent, p.index + 1, below.2⟩
  join p s below rest :=
    (s.emit p.index (some p.path) p.carried :: (below.1 ++ rest.1), rest.2)

theorem flattening_computes :
    flattening.Computes fun p => Step.flattenAll p.parent p.index p.carried :=
  ⟨fun _ => rfl, fun p => Step.flattenAll_cons p.parent p.index p.carried⟩

/-- How steps are found that lie deeper than a limit, on a level. -/
def limiting (limit : Nat) : Traversal (Place Nat) (List Issue) where
  empty _ := []
  stops p _ := decide (limit < p.carried)
  down p _ := ⟨some p.path, 0, p.carried + 1⟩
  next p _ _ := ⟨p.parent, p.index + 1, p.carried⟩
  join p _ below rest :=
    (if limit < p.carried then [.tooDeep p.carried limit p.path] else below) ++ rest

theorem limiting_computes (limit : Nat) :
    (limiting limit).Computes fun p => Step.tooDeepAll limit p.carried p.parent p.index := by
  refine ⟨fun _ => rfl, fun p s ss => ?_⟩
  by_cases h : limit < p.carried
  · simp [Step.tooDeepAll_cons, limiting, h, Place.path]
  · simp [Step.tooDeepAll_cons, limiting, below, h, Place.path]

/-- How names are found that are used twice, given the names seen so far. -/
def naming : Traversal (Place Step.Seen) (List Issue × Step.Seen) where
  empty p := ([], p.carried)
  down p s := ⟨some p.path, 0, (Step.meet p.carried (s.displayName p.index) p.path).2⟩
  next p _ below := ⟨p.parent, p.index + 1, below.2⟩
  join p s below rest :=
    ((Step.meet p.carried (s.displayName p.index) p.path).1 ++ (below.1 ++ rest.1), rest.2)

theorem naming_computes :
    naming.Computes fun p => Step.duplicatesAll p.parent p.index p.carried :=
  ⟨fun _ => rfl, fun p => Step.duplicatesAll_cons p.parent p.index p.carried⟩

/-- How questionable places are found. -/
def linting : Traversal (Place Unit) (List Issue) where
  empty _ := []
  down p _ := ⟨some p.path, 0, ()⟩
  next p _ _ := ⟨p.parent, p.index + 1, ()⟩
  join p s below rest := s.questions p.index p.path ++ (below ++ rest)

theorem linting_computes : linting.Computes fun p => Step.lintAll p.parent p.index :=
  ⟨fun _ => rfl, fun p => Step.lintAll_cons p.parent p.index⟩

end Traversal

/-! ## Workflows that were read -/

namespace Step

/-- The visited levels are among the stored ones. -/
theorem depthAll_le_storedDepthAll (ss : List Step) : depthAll ss ≤ storedDepthAll ss := by
  induction ss using siblings_induction with
  | nil => exact Nat.le_refl 0
  | cons s ss below rest =>
    have hchildren : storedDepthAll s.children ≤ storedDepthAll s.steps := by
      unfold children
      split
      · exact Nat.le_refl _
      · exact Nat.zero_le _
    rw [depthAll, storedDepthAll, depth_eq, storedDepth_eq]
    omega

end Step

namespace Workflow

open Traversal

/-- Every traversal of a workflow gives its result without nesting deeper than so many levels:
counting steps and levels, emitting nodes, the parts of a validation, and looking for what is
questionable. -/
structure NestsWithin (w : Workflow) (n : Nat) : Prop where
  stepCount : counting.within n () w.steps = some w.stepCount
  depth : measuring.within n () w.steps = some w.depth
  emit : ∀ y, flattening.within n { carried := y } w.steps =
    some (Step.flattenAll none 0 y w.steps)
  tooDeep : ∀ limits : Limits, (limiting limits.maxDepth).within n { carried := 1 } w.steps =
    some (w.tooDeep limits)
  duplicateNames : ∀ seen, naming.within n { carried := seen } w.steps =
    some (Step.duplicatesAll none 0 seen w.steps)
  lint : linting.within n { carried := () } w.steps = some (Step.lintAll none 0 w.steps)

theorem nestsWithin_iff {w : Workflow} {n : Nat} : w.NestsWithin n ↔ w.depth ≤ n := by
  constructor
  · intro h
    exact (within_eq_some_iff measuring_computes fun _ _ => rfl).mp h.depth
  · intro h
    exact {
      stepCount := within_eq_some counting_computes h _
      depth := within_eq_some measuring_computes h _
      emit := fun _ => within_eq_some flattening_computes h _
      tooDeep := fun limits => within_eq_some (limiting_computes limits.maxDepth) h _
      duplicateNames := fun _ => within_eq_some naming_computes h _
      lint := within_eq_some linting_computes h _ }

/-- The steps of a workflow that was read are stored on at most 63 levels. -/
theorem storedDepthAll_le_of_read {text : String} {w : Workflow}
    (h : parse text = .ok w ∨ extract text = .ok w) : Step.storedDepthAll w.steps ≤ 63 := by
  obtain ⟨part, hpart⟩ : ∃ part, parse part = .ok w := by
    rcases h with hparse | hextract
    · exact ⟨text, hparse⟩
    · obtain ⟨span, -, hspan⟩ := exists_of_extract hextract
      exact ⟨_, hspan⟩
  have hlevels : 2 * Step.storedDepthAll w.steps ≤ 125 + 2 := (spans_of_parse hpart).stored
  omega

/-- Every workflow that was read, from a text or inside a generated one, has at most 63 levels of
steps, stored or visited, and no traversal of it nests deeper. There is a text that fills all of
them with visited steps, which no traversal gets through on 62. -/
theorem text_bounds_nesting :
    (∀ (text : String) (w : Workflow), parse text = .ok w ∨ extract text = .ok w →
      w.depth ≤ 63 ∧ Step.storedDepthAll w.steps ≤ 63 ∧ w.NestsWithin 63) ∧
    ∃ (text : String) (w : Workflow), parse text = .ok w ∧ extract text = .ok w ∧
      w.depth = 63 ∧ Step.storedDepthAll w.steps = 63 ∧ ¬w.NestsWithin 62 := by
  constructor
  · intro text w h
    have hstored := storedDepthAll_le_of_read h
    have hdepth : w.depth ≤ 63 := Nat.le_trans (Step.depthAll_le_storedDepthAll w.steps) hstored
    exact ⟨hdepth, hstored, nestsWithin_iff.mpr hdepth⟩
  · have hparse := parse_towerText (n := 63) (by decide)
    obtain ⟨-, hdepth, hstored⟩ := levels_tower 63
    refine ⟨_, _, hparse, extract_of_parse hparse, hdepth, hstored, ?_⟩
    rw [nestsWithin_iff, hdepth]
    decide

/-- The highest tower, with something said around it. -/
theorem text_bounds_nesting_tower :
    let text := "Here you go:\n" ++ towerText 63 ++ "\nEnjoy!"
    let w := ofMembers (tower 63)
    extract text = .ok w ∧ w.depth ≤ 63 ∧ Step.storedDepthAll w.steps ≤ 63 ∧
      w.NestsWithin 63 := by
  have hparse := parse_towerText (n := 63) (by decide)
  have hextract : extract ("Here you go:\n" ++ towerText 63 ++ "\nEnjoy!") =
      .ok (ofMembers (tower 63)) :=
    extract_around (extract_of_parse hparse) (by decide) (by decide)
  exact ⟨hextract, text_bounds_nesting.1 _ _ (.inr hextract)⟩

end Workflow

end Flowline
