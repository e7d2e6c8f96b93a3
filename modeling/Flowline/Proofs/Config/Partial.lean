import Flowline.Config
import Flowline.Proofs.Json.Remains
import Flowline.Proofs.Workflow.Conversion

/-!
# Configurations that are partly written

What is left out of a configuration has its default, whether a field is missing or the section
around it. So an object of a configuration that lost sections and fields, and has its members in
another order and unknown ones among them, is read as the configuration that it was, up to what it
lost.
-/

namespace Flowline

open Json

/-! ## Sections -/

section Sections

variable {given : Members} {levels : Nat} {s rest : List Char}

namespace LoweringOptions

/-- Lowering options with some fields, and the defaults elsewhere. -/
def keeping (o : LoweringOptions) (kept : List String) : LoweringOptions where
  onNameCollision :=
    if "on_name_collision" ∈ kept then o.onNameCollision else onNameCollision {}

/-- Lowering options with a field of others. -/
def copying (o x : LoweringOptions) (key : String) (_ : Json) : LoweringOptions where
  onNameCollision := if key = "on_name_collision" then o.onNameCollision else x.onNameCollision

theorem foldl_copying (o : LoweringOptions) (given : Members) :
    (given.only record.keys).foldl (fun x m => o.copying x m.1 m.2) {} = o.keeping given.keys :=
  (mk.injEq ..).mpr (Record.foldl_copied o.copying onNameCollision "on_name_collision"
    (fun _ _ _ => rfl) (by decide) given {})

theorem decode_remains (o : LoweringOptions) (h : Members.Remains Eq o.toJson.members given)
    (hread : readTree levels s = .ok (.object given, rest)) (budget : Nat) :
    record.decode (budget + 1) s = .ok (o.keeping given.keys, rest) := by
  have hname : CollisionPolicy.named.lookup o.onNameCollision.name = some o.onNameCollision := by
    cases o.onNameCollision <;> rfl
  rw [← foldl_copying]
  refine Record.decode_remains (by decide) (by decide) (.cons ⟨rfl, ?_⟩ .nil) h hread
  rintro _ rfl levels
  exact Field.uses_of (fun s rest h => variant_of_readTree h hname budget) "on_name_collision"
    .defaulted _

end LoweringOptions

namespace Delays

/-- Delays with some fields, and the defaults elsewhere. -/
def keeping (d : Delays) (kept : List String) : Delays where
  trigger := if "trigger_delay_ms" ∈ kept then d.trigger else trigger {}
  step := if "step_delay_ms" ∈ kept then d.step else step {}
  finish := if "finish_delay_ms" ∈ kept then d.finish else finish {}

/-- Delays with a field of others. -/
def copying (d x : Delays) (key : String) (_ : Json) : Delays where
  trigger := if key = "trigger_delay_ms" then d.trigger else x.trigger
  step := if key = "step_delay_ms" then d.step else x.step
  finish := if key = "finish_delay_ms" then d.finish else x.finish

theorem foldl_copying (d : Delays) (given : Members) :
    (given.only record.keys).foldl (fun x m => d.copying x m.1 m.2) {} = d.keeping given.keys := by
  refine (mk.injEq ..).mpr ⟨?_, ?_, ?_⟩
  · exact Record.foldl_copied d.copying trigger "trigger_delay_ms" (fun _ _ _ => rfl)
      (by decide) given {}
  · exact Record.foldl_copied d.copying step "step_delay_ms" (fun _ _ _ => rfl)
      (by decide) given {}
  · exact Record.foldl_copied d.copying finish "finish_delay_ms" (fun _ _ _ => rfl)
      (by decide) given {}

theorem decode_remains (d : Delays) (h : Members.Remains Eq d.toJson.members given)
    (hread : readTree levels s = .ok (.object given, rest)) (budget : Nat) :
    record.decode (budget + 1) s = .ok (d.keeping given.keys, rest) := by
  rw [← foldl_copying]
  refine Record.decode_remains (by decide) (by decide)
    (.cons ⟨rfl, ?_⟩ (.cons ⟨rfl, ?_⟩ (.cons ⟨rfl, ?_⟩ .nil))) h hread
  all_goals rintro _ rfl levels
  · exact Field.uses_of (fun s rest h => count_of_readTree h "u64" budget) "trigger_delay_ms"
      .defaulted _
  · exact Field.uses_of (fun s rest h => count_of_readTree h "u64" budget) "step_delay_ms"
      .defaulted _
  · exact Field.uses_of (fun s rest h => count_of_readTree h "u64" budget) "finish_delay_ms"
      .defaulted _

end Delays

namespace Limits

/-- Limits with some fields, and the defaults elsewhere. -/
def keeping (l : Limits) (kept : List String) : Limits where
  maxDepth := if "max_depth" ∈ kept then l.maxDepth else maxDepth {}
  maxSteps := if "max_steps" ∈ kept then l.maxSteps else maxSteps {}

/-- Limits with a field of others. -/
def copying (l x : Limits) (key : String) (_ : Json) : Limits where
  maxDepth := if key = "max_depth" then l.maxDepth else x.maxDepth
  maxSteps := if key = "max_steps" then l.maxSteps else x.maxSteps

theorem foldl_copying (l : Limits) (given : Members) :
    (given.only record.keys).foldl (fun x m => l.copying x m.1 m.2) {} = l.keeping given.keys := by
  refine (mk.injEq ..).mpr ⟨?_, ?_⟩
  · exact Record.foldl_copied l.copying maxDepth "max_depth" (fun _ _ _ => rfl)
      (by decide) given {}
  · exact Record.foldl_copied l.copying maxSteps "max_steps" (fun _ _ _ => rfl)
      (by decide) given {}

theorem decode_remains (l : Limits) (h : Members.Remains Eq l.toJson.members given)
    (hread : readTree levels s = .ok (.object given, rest)) (budget : Nat) :
    record.decode (budget + 1) s = .ok (l.keeping given.keys, rest) := by
  rw [← foldl_copying]
  refine Record.decode_remains (by decide) (by decide)
    (.cons ⟨rfl, ?_⟩ (.cons ⟨rfl, ?_⟩ .nil)) h hread
  all_goals rintro _ rfl levels
  · exact Field.uses_of (fun s rest h => count_of_readTree h "usize" budget) "max_depth"
      .defaulted _
  · exact Field.uses_of (fun s rest h => count_of_readTree h "usize" budget) "max_steps"
      .defaulted _

end Limits

end Sections

/-! ## Configurations -/

/-- What remains of a section: an object of what remains of its fields, which are as they were. -/
def Json.SectionRemains (v w : Json) : Prop :=
  ∃ given : Members, w = .object given ∧ Members.Remains Eq v.members given

theorem Json.SectionRemains.reread {v w : Json} (hv : ∀ m ∈ v.members, m.2.reread = m.2)
    (h : SectionRemains v w) : SectionRemains v w.reread := by
  obtain ⟨given, rfl, hgiven⟩ := h
  refine ⟨rereadMembers given, rfl, ?_⟩
  rw [rereadMembers_eq_map]
  refine hgiven.map fun m hm w hw => ?_
  rw [← hw, hv m hm]

theorem Json.members_reread (j : Json) : j.reread.members = rereadMembers j.members := by
  cases j <;> rfl

theorem Members.keys_reread (ms : Members) : keys (rereadMembers ms) = ms.keys := by
  rw [rereadMembers_eq_map, keys, List.map_map]
  rfl

theorem Members.get?_reread (ms : Members) (key : String) :
    get? (rereadMembers ms) key = (ms.get? key).map Json.reread := by
  induction ms with
  | nil => rfl
  | cons m ms ih =>
    rcases m with ⟨k, v⟩
    rw [rereadMembers, get?, get?, ih]
    split <;> rfl

theorem Members.keys_object_reread (ms : Members) (key : String) :
    (object (rereadMembers ms) key).keys = (ms.object key).keys := by
  rw [object_eq, object_eq, get?_reread]
  cases ms.get? key with
  | none => rfl
  | some v =>
    show keys v.reread.members = keys v.members
    rw [members_reread, keys_reread]

namespace Config

/-- A configuration with the fields that sections of an object have, and the defaults elsewhere. -/
def keeping (c : Config) (given : Members) : Config where
  lowering := c.lowering.keeping (given.object "lower").keys
  delays := c.delays.keeping (given.object "interpreter").keys
  limits := c.limits.keeping (given.object "limits").keys

/-- A configuration with what a value leaves of a section of another. -/
def copying (c x : Config) (key : String) (v : Json) : Config where
  lowering := if key = "lower" then c.lowering.keeping v.members.keys else x.lowering
  delays := if key = "interpreter" then c.delays.keeping v.members.keys else x.delays
  limits := if key = "limits" then c.limits.keeping v.members.keys else x.limits

theorem foldl_copying (c : Config) {given : Members} (h : (given.only record.keys).keys.Nodup) :
    (given.only record.keys).foldl (fun x m => c.copying x m.1 m.2) {} = c.keeping given := by
  have hsection {α : Type} {get : Config → α} {key : String} (keeping : List String → α)
      (hkey : key ∈ record.keys) (hself : ∀ x v, get (c.copying x key v) = keeping v.members.keys)
      (hother : ∀ x k v, k ≠ key → get (c.copying x k v) = get x)
      (hnone : get {} = keeping []) :
      get ((given.only record.keys).foldl (fun x m => c.copying x m.1 m.2) {}) =
        keeping (given.object key).keys := by
    rw [foldl_field c.copying get (fun v => keeping v.members.keys) key hself hother h,
      Members.get?_only hkey, Members.object_eq, hnone]
    cases given.get? key <;> rfl
  refine (mk.injEq ..).mpr ⟨?_, ?_, ?_⟩
  · exact hsection c.lowering.keeping (by decide) (fun _ _ => rfl) (fun _ _ _ h => if_neg h) rfl
  · exact hsection c.delays.keeping (by decide) (fun _ _ => rfl) (fun _ _ _ h => if_neg h) rfl
  · exact hsection c.limits.keeping (by decide) (fun _ _ => rfl) (fun _ _ _ h => if_neg h) rfl

theorem decode_remains (c : Config) {given : Members} {levels : Nat} {s rest : List Char}
    (h : Members.Remains SectionRemains c.toJson.members given)
    (hread : readTree levels s = .ok (.object given, rest)) (budget : Nat) :
    record.decode (budget + 2) s = .ok (c.keeping given, rest) := by
  have hkeys : c.toJson.members.keys.Nodup := show record.keys.Nodup by decide
  rw [← foldl_copying c (h.nodup_keys hkeys)]
  refine Record.decode_remains (by decide) (by decide)
    (.cons ⟨rfl, ?_⟩ (.cons ⟨rfl, ?_⟩ (.cons ⟨rfl, ?_⟩ .nil))) h hread
  all_goals rintro _ ⟨fields, rfl, hfields⟩ levels
  · exact Field.uses_of (fun s rest h => c.lowering.decode_remains hfields h budget) "lower"
      .defaulted _
  · exact Field.uses_of (fun s rest h => c.delays.decode_remains hfields h budget) "interpreter"
      .defaulted _
  · exact Field.uses_of (fun s rest h => c.limits.decode_remains hfields h budget) "limits"
      .defaulted _

/-- A text that spells what remains of a configuration is read as what was left of it. -/
theorem ofText_of_spells (c : Config) {text : String} {given : Members}
    (h : Members.Remains SectionRemains c.toJson.members given)
    (htext : Spells text (.object given)) : ofText text = .ok (c.keeping given) := by
  obtain ⟨levels, hread⟩ := htext
  obtain ⟨rest, hobject, hrest⟩ := readText_eq_ok_iff.mp hread
  have hrun : record.decode.run text = .ok (c.keeping given) :=
    readText_eq_ok_iff.mpr ⟨rest, c.decode_remains h hobject 125, hrest⟩
  rw [ofText, hrun]

/-! ### Printed configurations -/

/-- A configuration whose numbers have at most sixty-four bits. -/
structure Fits (c : Config) : Prop where
  trigger : c.delays.trigger ≤ maxWhole
  step : c.delays.step ≤ maxWhole
  finish : c.delays.finish ≤ maxWhole
  maxDepth : c.limits.maxDepth ≤ maxWhole
  maxSteps : c.limits.maxSteps ≤ maxWhole

theorem Fits.regular {c : Config} (h : c.Fits) : c.toJson.Regular := by
  have hnumber {n : Nat} (hn : n ≤ maxWhole) : (Json.int n).Regular :=
    ⟨by omega, Int.ofNat_le.mpr hn⟩
  refine ⟨show record.keys.Nodup by decide, ⟨?_, ?_⟩, ⟨?_, ?_⟩, ⟨?_, ?_⟩, trivial⟩
  · exact show LoweringOptions.record.keys.Nodup by decide
  · exact ⟨trivial, trivial⟩
  · exact show Delays.record.keys.Nodup by decide
  · exact ⟨hnumber h.trigger, hnumber h.step, hnumber h.finish, trivial⟩
  · exact show Limits.record.keys.Nodup by decide
  · exact ⟨hnumber h.maxDepth, hnumber h.maxSteps, trivial⟩

/-- The sections are objects whose fields are read back as they are. -/
theorem sections_toJson (c : Config) : ∀ m ∈ c.toJson.members,
    m.2 = .object m.2.members ∧ ∀ f ∈ m.2.members, f.2.reread = f.2 := by
  simp only [toJson, LoweringOptions.toJson, Delays.toJson, Limits.toJson, members, reread,
    List.forall_mem_cons, List.not_mem_nil, false_imp_iff, implies_true, and_self]

theorem remains_toJson (c : Config) :
    Members.Remains SectionRemains c.toJson.members c.toJson.members :=
  .refl fun m hm => ⟨m.2.members, (c.sections_toJson m hm).1, .refl fun _ _ => rfl⟩

theorem keeping_reread (c : Config) (given : Members) :
    c.keeping (rereadMembers given) = c.keeping given := by
  simp only [keeping, Members.keys_object_reread]

/-- Each text of what remains of a configuration is read as what was left of it. -/
theorem ofText_of_printed (c : Config) {given : Members}
    (h : Members.Remains SectionRemains c.toJson.members given)
    (hgiven : (Json.object given).Regular) {text : String}
    (htext : text ∈ (Json.object given).printed) :
    ofText text = .ok (c.keeping given) := by
  have hremains : Members.Remains SectionRemains c.toJson.members (rereadMembers given) := by
    rw [rereadMembers_eq_map]
    exact h.map fun m hm w hw => hw.reread (c.sections_toJson m hm).2
  rw [← c.keeping_reread given]
  exact c.ofText_of_spells hremains (spells_printed hgiven htext)

/-- What has all fields of a configuration keeps it. -/
theorem keeping_eq_self (c : Config) {given : Members}
    (h : ∀ m ∈ c.toJson.members, ∀ key ∈ m.2.members.keys, key ∈ (given.object m.1).keys) :
    c.keeping given = c := by
  simp only [toJson, LoweringOptions.toJson, Delays.toJson, Limits.toJson, members, Members.keys,
    List.map_cons, List.forall_mem_cons] at h
  obtain ⟨⟨hname, -⟩, ⟨htrigger, hstep, hfinish, -⟩, ⟨hdepth, hsteps, -⟩, -⟩ := h
  have hlowering : c.lowering.keeping (given.object "lower").keys = c.lowering :=
    (LoweringOptions.mk.injEq ..).mpr (if_pos hname)
  have hdelays : c.delays.keeping (given.object "interpreter").keys = c.delays :=
    (Delays.mk.injEq ..).mpr ⟨if_pos htrigger, if_pos hstep, if_pos hfinish⟩
  have hlimits : c.limits.keeping (given.object "limits").keys = c.limits :=
    (Limits.mk.injEq ..).mpr ⟨if_pos hdepth, if_pos hsteps⟩
  rw [keeping, hlowering, hdelays, hlimits]

/-- A text of a configuration that lost sections and fields, whose members stand in any order and
among any unknown ones, is read as the configuration with the defaults for what it lost, and as
itself if it lost nothing. -/
theorem partial_text_means_defaults_elsewhere (c : Config) :
    (∀ (text : String) (given : Members), Members.Remains SectionRemains c.toJson.members given →
      Spells text (.object given) → ofText text = .ok (c.keeping given)) ∧
    (∀ given : Members, Members.Remains SectionRemains c.toJson.members given →
      (Json.object given).Regular →
      ∀ text ∈ (Json.object given).printed, ofText text = .ok (c.keeping given)) ∧
    (∀ given : Members,
      (∀ m ∈ c.toJson.members, ∀ key ∈ m.2.members.keys, key ∈ (given.object m.1).keys) →
      c.keeping given = c) ∧
    (c.Fits → ∀ text ∈ c.toJson.printed, ofText text = .ok c) := by
  refine ⟨fun text given => c.ofText_of_spells, fun given h hgiven text htext => ?_,
    fun given => c.keeping_eq_self, fun hfits text htext => ?_⟩
  · exact c.ofText_of_printed h hgiven htext
  · rw [c.ofText_of_printed c.remains_toJson hfits.regular htext]
    rfl

/-- A configuration that lost a section and two fields, backwards and with unknown members. -/
theorem partial_text_means_defaults_elsewhere_backwards :
    let c : Config := ⟨⟨.overwrite⟩, ⟨1, 2, 3⟩, ⟨4, 5⟩⟩
    let left : Config := { delays := ⟨1, 600, 3⟩, limits := ⟨16, 5⟩ }
    let text := "\x7b\"x\":[], \"limits\":\x7b\"max_steps\":5\x7d,\"interpreter\":" ++
      "\x7b\"y\":true,\"finish_delay_ms\":3,\"trigger_delay_ms\":1\x7d\x7d"
    let delays : Members := [("y", .bool true), ("finish_delay_ms", .int 3),
      ("trigger_delay_ms", .int 1)]
    let given : Members := [("x", .array []), ("limits", .object [("max_steps", .int 5)]),
      ("interpreter", .object delays)]
    ofText text = .ok left ∧ (∀ text ∈ (Json.object given).printed, ofText text = .ok left) ∧
      ∀ text ∈ c.toJson.printed, ofText text = .ok c := by
  intro c left text delays given
  have hdelays : SectionRemains c.delays.toJson (.object delays) := by
    refine ⟨delays, rfl, [("trigger_delay_ms", .int 1), ("finish_delay_ms", .int 3)],
      [("trigger_delay_ms", .int 1), ("finish_delay_ms", .int 3)], [("y", .bool true)],
      .cons_cons _ (.cons _ (.refl _)), .cons ⟨rfl, rfl⟩ (.cons ⟨rfl, rfl⟩ .nil), by decide, ?_⟩
    exact (List.reverse_perm delays).symm
  have hlimits : SectionRemains c.limits.toJson (.object [("max_steps", .int 5)]) :=
    ⟨_, rfl, [("max_steps", .int 5)], [("max_steps", .int 5)], [], .cons _ (.refl _),
      .cons ⟨rfl, rfl⟩ .nil, by decide, .refl _⟩
  have hgiven : Members.Remains SectionRemains c.toJson.members given := by
    refine ⟨[("interpreter", c.delays.toJson), ("limits", c.limits.toJson)],
      [("interpreter", .object delays), ("limits", .object [("max_steps", .int 5)])],
      [("x", .array [])], .cons _ (.refl _), .cons ⟨rfl, hdelays⟩ (.cons ⟨rfl, hlimits⟩ .nil),
      by decide, ?_⟩
    exact (List.reverse_perm given).symm
  have hspells : Spells text (.object given) := ⟨2, by decide +kernel⟩
  have hregular : (Json.object given).Regular := by
    simp [given, delays, Regular, RegularMembers, RegularItems, Members.keys, maxWhole,
      maxBelowZero]
  have hfits : c.Fits := by constructor <;> decide
  obtain ⟨htext, hprinted, -, hself⟩ := partial_text_means_defaults_elsewhere c
  exact ⟨htext text given hgiven hspells, hprinted given hgiven hregular, hself hfits⟩

end Config

end Flowline
