import Flowline.Proofs.Graph.Chain
import Flowline.Proofs.Json.Decoders

/-!
# Reading graphs that were exported

Every part of a graph is a record whose fields are written in the order in which they are declared,
so what is read from the document of a graph is the graph itself, up to the doubles in it. The only
part that does not come back is static data that is null, which is written like no static data.
-/

namespace Flowline

open Json

/-! ## Identifiers -/

namespace Uuid

/-- The pieces between the hyphens, put together again. -/
theorem hyphenate_pieces (ds : List Char) :
    ds.take 8 ++ ((ds.drop 8).take 4 ++ ((ds.drop 12).take 4 ++ ((ds.drop 16).take 4 ++
      ds.drop 20))) = ds := by
  have hpiece (n : Nat) : (ds.drop n).take 4 ++ ds.drop (n + 4) = ds.drop n := by
    rw [← List.drop_drop, List.take_append_drop]
  rw [hpiece 16, hpiece 12, hpiece 8, List.take_append_drop]

theorem filter_hyphenate {ds : List Char} (h : ∀ c ∈ ds, c ≠ '-') :
    (hyphenate ds).filter (· ≠ '-') = ds := by
  have hkeep {piece : List Char} (hsub : ∀ c ∈ piece, c ∈ ds) :
      piece.filter (fun c => decide (c ≠ '-')) = piece := by
    rw [List.filter_eq_self]
    intro c hc
    exact decide_eq_true (h c (hsub c hc))
  have htake {piece : List Char} (n : Nat) (hsub : ∀ c ∈ piece, c ∈ ds) :
      (piece.take n).filter (fun c => decide (c ≠ '-')) = piece.take n :=
    hkeep fun c hc => hsub c (List.mem_of_mem_take hc)
  have hdrop (n : Nat) (c : Char) (hc : c ∈ ds.drop n) : c ∈ ds := List.mem_of_mem_drop hc
  simp only [hyphenate, List.filter_append, List.filter_cons, ne_eq, not_true_eq_false,
    decide_false, Bool.false_eq_true, if_false]
  rw [htake 8 fun c hc => hc, htake 4 (hdrop 8), htake 4 (hdrop 12), htake 4 (hdrop 16),
    hkeep (hdrop 20), hyphenate_pieces]

theorem digit?_digitChar (d : Fin 16) : digit? (digitChar d) = some d := by
  decide +revert

theorem digitChar_ne_hyphen (d : Fin 16) : digitChar d ≠ '-' := by
  decide +revert

theorem ofHex?_hex (u : Uuid) : ofHex? u.hex = some u := by
  have hdigits (ds : List (Fin 16)) : (ds.map digitChar).mapM digit? = some ds := by
    induction ds with
    | nil => rfl
    | cons d ds ih =>
      rw [List.map_cons, List.mapM_cons, digit?_digitChar, ih]
      rfl
  simp [ofHex?, hex, hdigits, u.length_digits]

/-- An identifier is read back from its text. -/
theorem ofText?_text (u : Uuid) : ofText? u.text = some u := by
  have hhex : u.hex.length = 32 := by
    rw [hex, List.length_map, u.length_digits]
  have hlength : (hyphenate u.hex).length = 36 := by
    simp [hyphenate, hhex]
  have hfilter : (hyphenate u.hex).filter (· ≠ '-') = u.hex := by
    refine filter_hyphenate fun c hc => ?_
    obtain ⟨d, -, rfl⟩ := List.mem_map.mp hc
    exact digitChar_ne_hyphen d
  have hyphenated : ofHyphenated? (hyphenate u.hex) = some u := by
    simp only [ofHyphenated?, hfilter]
    rw [if_pos ⟨hhex, trivial⟩, ofHex?_hex]
  simp only [ofText?, text, String.toList_ofList, hlength]
  exact hyphenated

theorem reads_decode (u : Uuid) : decode.Reads (.string u.text) u := by
  intro budget layout level s rest hrest hskip
  have hread := Decoder.reads_string "a formatted UUID string" u.text budget layout level s rest
    hrest hskip
  refine hread.map ?_
  simp only [ofText?_text]

end Uuid

/-! ## Connections -/

/-- A link whose number has thirty-two bits. -/
def Link.Regular (l : Link) : Prop := l.index ≤ 4294967295

theorem Link.reads_decode {l : Link} (h : l.Regular) : record.decode.Reads l.toJson l := by
  have hfits : Record.Fits record.fields [.string l.node, .string l.channel, .int l.index]
      record.blank l :=
    .cons (Field.takes_of (Decoder.reads_string _ _) _ _ _ _)
      (.cons (Field.takes_of (Decoder.reads_string _ _) _ _ _ _)
        (.cons (Field.takes_of (Decoder.reads_natUpTo _ (by decide) h) _ _ _ _) (.nil _)))
  exact Record.reads_decode (by decide) hfits

/-- Outputs whose links are regular. -/
def Outputs.Regular (o : Outputs) : Prop := ∀ links ∈ o.main, ∀ l ∈ links, l.Regular

theorem Outputs.reads_decode {o : Outputs} (h : o.Regular) : record.decode.Reads o.toJson o := by
  have hlinks : ∀ links ∈ o.main, (Decoder.list Link.record.decode).Reads
      (.array (links.map Link.toJson)) links := by
    intro links hmem
    have hlist := Decoder.reads_list fun l hl => Link.reads_decode (h links hmem l hl)
    rwa [List.map_id'] at hlist
  have hmain := Decoder.reads_list hlinks
  rw [List.map_id'] at hmain
  have hfits : Record.Fits record.fields
      [.array (o.main.map fun links => .array (links.map Link.toJson))] record.blank o :=
    .cons (Field.takes_of hmain _ _ _ _) (.nil _)
  exact Record.reads_decode (by decide) hfits

/-- Connections by distinct names, whose outputs are regular. -/
structure Connections.Regular (c : Connections) : Prop where
  keys : c.keys.Nodup
  outputs : ∀ e ∈ c.entries, e.2.Regular

theorem Connections.reads_decode {c : Connections} (h : c.Regular) : decode.Reads c.toJson c := by
  refine Decoder.reads_fold _ fun budget => ?_
  have hentry : ∀ e ∈ c.entries, ∀ before : List (String × Outputs),
      e.1 ∉ before.map Prod.fst → TakesMember budget (takeEntry budget ⟨before⟩ e.1) e.2.toJson
        ⟨before ++ [(e.1, e.2)]⟩ := by
    intro e he before hnew
    rw [← put_of_not_mem hnew]
    exact takesMember_of (insert ⟨before⟩ e.1) (fun s => rfl)
      (Outputs.reads_decode (h.outputs e he) budget)
  have hfolds := folds_append mk Outputs.toJson (fun o => o) hentry [] h.keys
  rwa [List.nil_append, List.map_id'] at hfolds

/-! ## Nodes -/

/-- A place whose coordinates have sixty-four bits with a sign. -/
def Position.Regular (p : Position) : Prop :=
  (-9223372036854775808 ≤ p.x ∧ p.x ≤ 9223372036854775807) ∧
    (-9223372036854775808 ≤ p.y ∧ p.y ≤ 9223372036854775807)

theorem Position.reads_decode {p : Position} (h : p.Regular) : decode.Reads p.toJson p := by
  have hcoordinate {n : Int} (hn : -9223372036854775808 ≤ n ∧ n ≤ 9223372036854775807) :
      coordinate.Reads (.int n) n := by
    have hregular : (Json.int n).Regular := by
      simp only [Json.Regular, maxBelowZero, maxWhole]
      omega
    exact Decoder.reads_int "i64" hregular hn
  have hfits : Record.Fits record.fields [.int p.x, .int p.y] record.blank p :=
    .cons (Field.takes_of (hcoordinate h.1) _ _ _ _)
      (.cons (Field.takes_of (hcoordinate h.2) _ _ _ _) (.nil _))
  exact Record.reads_decodeArray hfits

theorem reads_decodeMembers {ms : Members} (h : (Json.object ms).Regular)
    (hd : ∀ d ∈ doublesMembers ms, d.Readable) :
    decodeMembers.Reads (.object ms) (rereadMembers ms) :=
  Decoder.reads_fold _ fun budget =>
    readsNested_readValue.folds_member h.1 fun m hm =>
      readsNested_readValue.readsAt_members ms h.2 hd m hm budget

/-- A node whose numbers are in range and whose parameters are regular. -/
structure Node.Regular (n : Node) : Prop where
  typeVersion : n.typeVersion ≤ 4294967295
  position : n.position.Regular
  parameters : (Json.object n.parameters).Regular

/-- The node with every double as its text is read. -/
def Node.reread (n : Node) : Node := { n with parameters := rereadMembers n.parameters }

theorem Node.reads_decode {n : Node} (h : n.Regular)
    (hd : ∀ d ∈ doublesMembers n.parameters, d.Readable) :
    record.decode.Reads n.toJson n.reread := by
  have hfits : Record.Fits record.fields [.string n.id.text, .string n.name, .string n.type,
      .int n.typeVersion, n.position.toJson, .object n.parameters] record.blank n.reread :=
    .cons (Field.takes_of (Uuid.reads_decode n.id) _ _ _ _)
      (.cons (Field.takes_of (Decoder.reads_string _ _) _ _ _ _)
        (.cons (Field.takes_of (Decoder.reads_string _ _) _ _ _ _)
          (.cons (Field.takes_of (Decoder.reads_natUpTo _ (by decide) h.typeVersion) _ _ _ _)
            (.cons (Field.takes_of (Position.reads_decode h.position) _ _ _ _)
              (.cons (Field.takes_of (reads_decodeMembers h.parameters hd) _ _ _ _) (.nil _))))))
  exact Record.reads_decode (by decide) hfits

/-! ## Graphs -/

namespace Graph

/-- A graph that can be held in memory: its parts are, and no key stands twice in a map. -/
structure Regular (g : Graph) : Prop where
  nodes : ∀ n ∈ g.nodes, n.Regular
  connections : g.connections.Regular
  settings : (Json.object g.settings).Regular
  staticData : ∀ j, g.staticData = some j → j.Regular

/-- The graph with every double as its text is read. -/
def reread (g : Graph) : Graph where
  name := g.name
  nodes := g.nodes.map Node.reread
  connections := g.connections
  settings := rereadMembers g.settings
  staticData := g.staticData.map Json.reread
  tags := g.tags

theorem mem_doubles {g : Graph} {d : Binary64} :
    d ∈ g.toJson.doubles ↔ (∃ n ∈ g.nodes, d ∈ doublesMembers n.parameters) ∨
      d ∈ doublesMembers g.settings ∨ d ∈ (g.staticData.getD .null).doubles := by
  have hnode (n : Node) : n.toJson.doubles = doublesMembers n.parameters := by
    simp [Node.toJson, Position.toJson, doubles, doublesMembers, doublesItems]
  have houtputs (o : Outputs) : d ∉ o.toJson.doubles := by
    simp [Outputs.toJson, Link.toJson, doubles, doublesMembers, mem_doublesItems_map]
  have hconnections (c : Connections) : d ∉ c.toJson.doubles := by
    simp [Connections.toJson, doubles, mem_doublesMembers_map, houtputs]
  simp [toJson, doubles, doublesMembers, mem_doublesItems_map, hnode, hconnections]

/-- The fields of a graph read what they are written as. -/
theorem reads_decode {g : Graph} (hg : g.Regular) (hnull : g.staticData ≠ some .null)
    (hd : ∀ d ∈ g.toJson.doubles, d.Readable) : record.decode.Reads g.toJson g.reread := by
  simp only [mem_doubles] at hd
  have hnodes := Decoder.reads_list fun n hn =>
    Node.reads_decode (hg.nodes n hn) fun d hmem => hd d (.inl ⟨n, hn, hmem⟩)
  have hsettings := reads_decodeMembers hg.settings fun d hmem => hd d (.inr (.inl hmem))
  have htags := Decoder.reads_list fun t (_ : t ∈ g.tags) => Decoder.reads_string "a string" t
  rw [List.map_id'] at htags
  have hstatic : (Decoder.option Decoder.value).Reads (g.staticData.getD .null)
      (g.staticData.map Json.reread) := by
    cases hdata : g.staticData with
    | none => exact Decoder.reads_option_null
    | some j =>
      have hne : j ≠ .null := fun heq => hnull (by rw [hdata, heq])
      refine Decoder.reads_option hne (Decoder.reads_value (hg.staticData j hdata) fun d hmem => ?_)
      exact hd d (.inr (.inr (by rwa [hdata])))
  have hfits : Record.Fits record.fields [.string g.name, .array (g.nodes.map Node.toJson),
      g.connections.toJson, .object g.settings, g.staticData.getD .null,
      .array (g.tags.map .string)] record.blank g.reread :=
    .cons (Field.takes_of (Decoder.reads_string _ _) _ _ _ _)
      (.cons (Field.takes_of hnodes _ _ _ _)
        (.cons (Field.takes_of (Connections.reads_decode hg.connections) _ _ _ _)
          (.cons (Field.takes_of hsettings _ _ _ _)
            (.cons (Field.takes_of hstatic _ _ _ _)
              (.cons (Field.takes_of htags _ _ _ _) (.nil _))))))
  exact Record.reads_decode (by decide) hfits

theorem reread_eq_self {g : Graph} (hd : ∀ d ∈ g.toJson.doubles, d.reread = d) : g.reread = g := by
  simp only [mem_doubles] at hd
  have hnode : ∀ n ∈ g.nodes, n.reread = n := by
    intro n hn
    rw [Node.reread, rereadMembers_eq_self _ fun d hmem => hd d (.inl ⟨n, hn, hmem⟩)]
  have hnodes : g.nodes.map Node.reread = g.nodes := by
    rw [List.map_congr_left hnode, List.map_id']
  have hsettings : rereadMembers g.settings = g.settings :=
    rereadMembers_eq_self _ fun d hmem => hd d (.inr (.inl hmem))
  have hstatic : g.staticData.map Json.reread = g.staticData := by
    cases hdata : g.staticData with
    | none => rfl
    | some j =>
      rw [Option.map_some, Json.reread_eq_self j fun d hmem => hd d (.inr (.inr (by rwa [hdata])))]
  rw [reread, hnodes, hsettings, hstatic]

/-- Reading the document of a graph, in either layout, undoes writing it, in every part and in the
same order: if its static data is not null, it is nested no deeper than a text may be, and its
doubles are read back from their own texts. -/
theorem reading_undoes_writing {g : Graph} (hg : g.Regular) (hnull : g.staticData ≠ some .null)
    (hdepth : g.toJson.depth ≤ maxDepth)
    (hd : ∀ d ∈ g.toJson.doubles, Json.read (String.ofList d.text) = .ok (.double d)) :
    record.decode.run g.toJson.compact = .ok g ∧ record.decode.run g.toJson.pretty = .ok g := by
  have hreads := reads_decode hg hnull fun d hmem => Binary64.readable_of_read (hd d hmem)
  rw [reread_eq_self fun d hmem => Binary64.reread_eq (hd d hmem)] at hreads
  obtain ⟨hcompact, hpretty⟩ := Decoder.run_write hreads
  exact ⟨hcompact.value hdepth, hpretty.value hdepth⟩

theorem reading_undoes_writing_negative :
    let g : Graph := {
      name := "Balance"
      nodes := [
        ⟨.ofSeed 1, "Trigger", "n8n-nodes-base.webhook", 1, ⟨250, -250⟩,
          [("least", .double ⟨true, Binary64.one⟩), ("marks", .array [.null, .int (-3)])]⟩,
        ⟨.ofSeed 2, "Mail", "n8n-nodes-base.emailSend", 1, ⟨250, -100⟩, []⟩]
      connections := ⟨[("Trigger", .single "Mail")]⟩
      settings := [("retry", .bool true)]
      staticData := some (.object [])
      tags := ["draft"] }
    record.decode.run g.toJson.compact = .ok g ∧ record.decode.run g.toJson.pretty = .ok g := by
  intro g
  have hnodes : ∀ n ∈ g.nodes, n.Regular := by
    simp only [g, List.forall_mem_cons]
    refine ⟨⟨by decide, ?_, ?_⟩, ⟨by decide, ?_, ?_⟩, fun _ hmem => absurd hmem List.not_mem_nil⟩
    · simp [Position.Regular]
    · simp [Json.Regular, RegularItems, RegularMembers, Members.keys, maxBelowZero, maxWhole]
      decide +kernel
    · simp [Position.Regular]
    · simp [Json.Regular, RegularMembers, Members.keys]
  have hconnections : g.connections.Regular := by
    refine ⟨by decide, ?_⟩
    simp [g, Outputs.Regular, Outputs.single, Link.Regular]
  have hsettings : (Json.object g.settings).Regular := by
    simp [g, Json.Regular, RegularMembers, Members.keys]
  have hstatic : ∀ j, g.staticData = some j → j.Regular := by
    rintro _ ⟨⟩
    simp [Json.Regular, RegularMembers, Members.keys]
  have hread : Json.read (String.ofList (Binary64.text ⟨true, Binary64.one⟩)) =
      .ok (.double ⟨true, Binary64.one⟩) := by
    have hoption : (Json.read (String.ofList (Binary64.text ⟨true, Binary64.one⟩))).toOption =
        some (.double ⟨true, Binary64.one⟩) := by
      decide +kernel
    cases hresult : Json.read (String.ofList (Binary64.text ⟨true, Binary64.one⟩)) with
    | error f =>
      rw [hresult] at hoption
      cases hoption
    | ok j =>
      rw [hresult] at hoption
      exact congrArg Except.ok (Option.some.inj hoption)
  have hd : ∀ d ∈ g.toJson.doubles, Json.read (String.ofList d.text) = .ok (.double d) := by
    have hdoubles : g.toJson.doubles = [⟨true, Binary64.one⟩] := rfl
    rw [hdoubles, List.forall_mem_singleton]
    exact hread
  have hnull : g.staticData ≠ some .null := by
    simp [g]
  exact reading_undoes_writing ⟨hnodes, hconnections, hsettings, hstatic⟩ hnull (by decide) hd

end Graph

end Flowline
