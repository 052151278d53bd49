import BlockSketch.Device.PortList
import BlockSketch.Proofs.Json.Written
import Mathlib.Data.List.Forall2

/-!
What is listed. A list of ports has one of four forms, and the reader tells them apart
by trying them in turn. As long as nothing is given by position, no form is taken for
another one: in a list that has its form, each entry is read on its own, from the port
that it holds if that has an address and else from itself, and the list is refused as a
whole if one of its entries has none (`ports_listed`).
-/

namespace BlockSketch.PortList

open Json

/-! ### What a list says -/

def Addressed (v : Json) (a : String) : Prop :=
  ∃ members, v = .object members ∧ ("address", .string a) ∈ members

def Nested (e : Json) (a : String) : Prop :=
  ∃ members port, e = .object members ∧ ("port", port) ∈ members ∧ Addressed port a

/-- An entry is for the address of the port in it, or if that has none for its own. -/
def Names (e : Json) (a : String) : Prop :=
  Nested e a ∨ (∀ b, ¬ Nested e b) ∧ Addressed e a

/-- An object in which no port is given by position. -/
def IsEntry (e : Json) : Prop :=
  ∃ members, e = .object members ∧ ∀ items, ("port", .array items) ∉ members

/-- The entries of a list, which stand in it or in one of its members. -/
inductive Lists : Json → List Json → Prop
  | bare (entries : List Json) : Lists (.array entries) entries
  | detected {members : List (String × Json)} {entries : List Json} :
      ("detected_ports", .array entries) ∈ members → Lists (.object members) entries

theorem exists_names_iff {e : Json} :
    (∃ a, Names e a) ↔ ∃ a, Nested e a ∨ Addressed e a := by
  constructor
  · rintro ⟨a, h | ⟨-, h⟩⟩
    · exact ⟨a, .inl h⟩
    · exact ⟨a, .inr h⟩
  · rintro ⟨a, h⟩
    by_cases hnested : ∃ b, Nested e b
    · obtain ⟨b, hb⟩ := hnested
      exact ⟨b, .inl hb⟩
    · have hnone := not_exists.1 hnested
      exact ⟨a, .inr ⟨hnone, h.resolve_left (hnone a)⟩⟩

/-! ### The reader on values -/

mutual

theorem isUsable_ofValue : ∀ value : Json, isUsable (.ofValue value) = true
  | .null | .bool _ | .number _ | .string _ => by rw [Document.ofValue]; rfl
  | .array items => by rw [Document.ofValue, isUsable, areUsable_ofItems items]
  | .object members => by rw [Document.ofValue, isUsable, areUsableMembers_ofMembers members]

theorem areUsable_ofItems : ∀ items : List Json, areUsable (Document.ofItems items) = true
  | [] => rfl
  | item :: rest => by
    rw [Document.ofItems, areUsable, isUsable_ofValue item, areUsable_ofItems rest]
    rfl

theorem areUsableMembers_ofMembers : ∀ members : List (String × Json),
    areUsableMembers (Document.ofMembers members) = true
  | [] => rfl
  | (name, value) :: rest => by
    rw [Document.ofMembers, areUsableMembers, isUsable_ofValue value,
      areUsableMembers_ofMembers rest]
    rfl

end

variable {members : List (String × Json)} {value e : Json} {entries : List Json} {a : String}

theorem member?_object (h : (object members).Distinct) (name : String) :
    member? name (.ofValue (.object members)) =
      (Entries.get? members name).map Document.ofValue := by
  rw [Document.ofValue, member?, Document.atMostOnce_ofMembers h.names, if_pos rfl,
    Document.lookup_ofMembers]

theorem string?_ofValue : (Document.ofValue value).string? = some a ↔ value = .string a := by
  cases value <;> simp [Document.ofValue, Document.string?]

/-- Unless it is given by position, an address is read exactly where there is one. -/
theorem address?_eq_some (hd : value.Distinct) (harray : ∀ items, value ≠ .array items) :
    address? (.ofValue value) = some a ↔ Addressed value a := by
  cases value with
  | null | bool | number | string =>
    simp [address?, Addressed, Document.ofValue, Document.record?]
  | array items => exact absurd rfl (harray items)
  | object members =>
    have hread : address? (.ofValue (.object members)) =
        required? Document.string? ((Entries.get? members "address").map Document.ofValue) := by
      rw [← Document.lookup_ofMembers]
      simp [address?, Document.ofValue, Document.record?, Document.atMostOnce_ofMembers hd.names]
    have hmember : Addressed (.object members) a ↔
        Entries.get? members "address" = some (.string a) := by
      rw [Entries.get?_eq_some hd.names]
      simp [Addressed]
    rw [hread, hmember]
    cases Entries.get? members "address" with
    | none => simp [required?]
    | some v => simp [required?, string?_ofValue]

/-- The port in an entry is read exactly where it has an address. -/
theorem nested?_eq_some (hd : e.Distinct) (he : IsEntry e) :
    (member? "port" (.ofValue e)).bind address? = some a ↔ Nested e a := by
  obtain ⟨members, rfl, hport⟩ := he
  rw [member?_object hd, Option.bind_map, Option.bind_eq_some_iff]
  constructor
  · rintro ⟨port, hget, hread⟩
    have hmem := (Entries.get?_eq_some hd.names).1 hget
    have harray : ∀ items, port ≠ .array items := fun items heq => hport items (heq ▸ hmem)
    exact ⟨members, port, rfl, hmem, (address?_eq_some (hd.of_mem hmem) harray).1 hread⟩
  · rintro ⟨_, port, ⟨⟩, hmem, haddress⟩
    have harray : ∀ items, port ≠ .array items := fun items heq => hport items (heq ▸ hmem)
    exact ⟨port, (Entries.get?_eq_some hd.names).2 hmem,
      (address?_eq_some (hd.of_mem hmem) harray).2 haddress⟩

theorem entry?_eq_some (hd : e.Distinct) (he : IsEntry e) :
    entry? (.ofValue e) = some a ↔ Names e a := by
  have hnested := fun b => nested?_eq_some (a := b) hd he
  unfold entry?
  cases hport : (member? "port" (.ofValue e)).bind address? with
  | some b =>
    have hb := (hnested b).1 hport
    have hsame : Names e a ↔ Nested e a := or_iff_left fun h => h.1 b hb
    rw [hsame, ← hnested a, hport]
    rfl
  | none =>
    have hnone : ∀ b, ¬ Nested e b := fun b hb => nomatch hport.symm.trans ((hnested b).2 hb)
    have hsame : Names e a ↔ Addressed e a :=
      ⟨fun h => (h.resolve_left (hnone a)).2, fun h => .inr ⟨hnone, h⟩⟩
    obtain ⟨members, rfl, -⟩ := he
    rw [hsame, ← address?_eq_some hd nofun]
    rfl

/-- The entries of a list are read one by one, in their order. -/
theorem mapM_entry?_eq_some {ports : List String} (hd : DistinctItems entries)
    (he : ∀ e ∈ entries, IsEntry e) :
    (Document.ofItems entries).mapM entry? = some ports ↔ List.Forall₂ Names entries ports := by
  induction entries generalizing ports with
  | nil => simp [Document.ofItems, eq_comm]
  | cons e rest ih =>
    rw [DistinctItems] at hd
    obtain ⟨hentry, hrest⟩ := List.forall_mem_cons.1 he
    have hfirst := fun a => entry?_eq_some (a := a) hd.1 hentry
    have hmore : ∀ more, (Document.ofItems rest).mapM entry? = some more ↔
        List.Forall₂ Names rest more := fun _ => ih hd.2 hrest
    rw [Document.ofItems, List.mapM_cons, List.forall₂_cons_left_iff]
    simp only [Option.bind_eq_bind, Option.bind_eq_some_iff, Option.pure_def, Option.some_inj,
      hfirst, hmore]
    constructor
    · rintro ⟨a, ha, more, hports, rfl⟩
      exact ⟨a, more, ha, hports, rfl⟩
    · rintro ⟨a, more, ha, hports, rfl⟩
      exact ⟨a, ha, more, hports, rfl⟩

theorem ofDocument?_ofValue (hd : value.Distinct) (h : Lists value entries) :
    ofDocument? (.ofValue value) = (Document.ofItems entries).mapM entry? := by
  rw [ofDocument?, isUsable_ofValue, if_pos rfl]
  cases h with
  | bare => rw [Document.ofValue]; rfl
  | @detected members entries hmem =>
    have hget : member? "detected_ports" (.ofValue (.object members)) =
        some (.ofValue (.array entries)) := by
      rw [member?_object hd, (Entries.get?_eq_some hd.names).2 hmem, Option.map_some]
    rw [hget, Document.ofValue, Document.ofValue]
    show ((Document.ofItems entries).mapM entry? <|> none) = _
    cases (Document.ofItems entries).mapM entry? <;> rfl

/-! ### What the tool has written -/

variable {output : List UInt8} {text : String}

theorem ofOutput_eq (htext : Text.decode? output = some text) (hwritten : value.Written text)
    (hdepth : value.depth ≤ nestingLimit) :
    ofOutput output =
      (ofDocument? (.ofValue value)).elim (.error (.bridge .unreadablePortList)) .ok := by
  rw [ofOutput, htext, Option.bind_some, hwritten.ofText?_eq hdepth, Option.bind_some]
  cases ofDocument? (.ofValue value) <;> rfl

theorem distinctItems_of_lists (hd : value.Distinct) (h : Lists value entries) :
    DistinctItems entries := by
  cases h with
  | bare => exact hd.items
  | detected hmem => exact (hd.of_mem hmem).items

theorem exists_forall₂_names_iff :
    (∃ ports, List.Forall₂ Names entries ports) ↔
      ∀ e ∈ entries, ∃ a, Nested e a ∨ Addressed e a := by
  induction entries with
  | nil => exact ⟨fun _ => nofun, fun _ => ⟨[], .nil⟩⟩
  | cons e rest ih =>
    rw [List.forall_mem_cons, ← ih, ← exists_names_iff]
    constructor
    · rintro ⟨_, hports⟩
      cases hports with
      | cons hfirst hrest => exact ⟨⟨_, hfirst⟩, ⟨_, hrest⟩⟩
    · rintro ⟨⟨a, ha⟩, ports, hports⟩
      exact ⟨a :: ports, .cons ha hports⟩

/-- A list whose objects have no member twice, and in which no port is given by
position, is read exactly if each of its entries has an address, in its port or of its
own. What is read is one port for each entry, in the order of the entries, and where
there are both addresses it is the one in the port. Otherwise nothing is read, and the
bridge is at fault. -/
theorem ports_listed (htext : Text.decode? output = some text) (hwritten : value.Written text)
    (hdepth : value.depth ≤ nestingLimit) (hdistinct : value.Distinct)
    (hlist : Lists value entries) (hentries : ∀ e ∈ entries, IsEntry e) :
    ((∃ ports, ofOutput output = .ok ports) ↔ ∀ e ∈ entries, ∃ a, Nested e a ∨ Addressed e a) ∧
    (∀ ports, ofOutput output = .ok ports ↔ List.Forall₂ Names entries ports) ∧
    ((¬ ∀ e ∈ entries, ∃ a, Nested e a ∨ Addressed e a) →
      ofOutput output = .error (.bridge .unreadablePortList)) := by
  have hread := ofOutput_eq htext hwritten hdepth
  rw [ofDocument?_ofValue hdistinct hlist] at hread
  have hports : ∀ ports, ofOutput output = .ok ports ↔ List.Forall₂ Names entries ports := by
    intro ports
    rw [← mapM_entry?_eq_some (distinctItems_of_lists hdistinct hlist) hentries, hread]
    cases (Document.ofItems entries).mapM entry? <;> simp
  have hexists := (exists_congr hports).trans exists_forall₂_names_iff
  refine ⟨hexists, hports, fun hnone => ?_⟩
  cases hresult : (Document.ofItems entries).mapM entry? with
  | none => rw [hread, hresult, Option.elim_none]
  | some ports =>
    rw [hresult, Option.elim_some] at hread
    exact absurd (hexists.1 ⟨ports, hread⟩) hnone

/-- A list with an entry that has two addresses, and one whose port has none. -/
theorem ports_listed_of_mixed :
    let text := "\x7b\"detected_ports\": [" ++
      "\x7b\"port\":\x7b\"address\":\"A\"\x7d,\"address\":\"B\"\x7d," ++
      "\x7b\"address\":\"A\", \"port\":1\x7d]\x7d"
    let first : Json :=
      .object [("port", .object [("address", .string "A")]), ("address", .string "B")]
    let second : Json := .object [("address", .string "A"), ("port", .number (.nonneg 1))]
    let value : Json := .object [("detected_ports", .array [first, second])]
    Text.decode? text.toUTF8.toList = some text ∧ value.Written text ∧
      value.depth ≤ nestingLimit ∧ value.Distinct ∧ Lists value [first, second] ∧
      (∀ e ∈ [first, second], IsEntry e) ∧ ofOutput text.toUTF8.toList = .ok ["A", "A"] := by
  intro text first second value
  have htext : Text.decode? text.toUTF8.toList = some text := by decide +kernel
  have hwritten : value.Written text := by
    show tokens? text.toList = some (words value)
    decide +kernel
  have hdepth : value.depth ≤ nestingLimit := by decide +kernel
  have hdistinct : value.Distinct := by
    simp [value, first, second, Json.Distinct, DistinctItems, DistinctMembers, Entries.Distinct,
      Entries.names]
  have hlist : Lists value [first, second] := .detected List.mem_cons_self
  have hentries : ∀ e ∈ [first, second], IsEntry e := by
    intro e he
    simp only [List.mem_cons, List.not_mem_nil, or_false] at he
    rcases he with rfl | rfl
    · exact ⟨_, rfl, by simp⟩
    · exact ⟨_, rfl, by simp⟩
  have hnested : Nested first "A" :=
    ⟨_, _, rfl, List.mem_cons_self, _, rfl, List.mem_cons_self⟩
  have hflat : Names second "A" := by
    refine .inr ⟨?_, _, rfl, List.mem_cons_self⟩
    rintro b ⟨members, port, heq, hport, inner, rfl, -⟩
    obtain rfl := Json.object.inj heq
    simp at hport
  have hports := (ports_listed htext hwritten hdepth hdistinct hlist hentries).2.1 ["A", "A"]
  exact ⟨htext, hwritten, hdepth, hdistinct, hlist, hentries,
    hports.2 (.cons (.inl hnested) (.cons hflat .nil))⟩

end BlockSketch.PortList
