import BlockSketch.Proofs.Snapshot.Codec
import Mathlib.Data.List.Perm.Basic

/-!
Snapshots as values. A value has the members of every object in the order of
their names, so what comes back from the value of a snapshot is the snapshot with
its fields and slots in this order (`Snapshot.sorted`), at any depth.
-/

namespace BlockSketch

open Json

/-! ### Entries in the order of their names -/

namespace Entries

variable {α β : Type}

theorem insertSorted_map (entries : Entries α) (name : String) (value : α) (f : α → β) :
    insertSorted (entries.map fun e => (e.1, f e.2)) name (f value) =
      (insertSorted entries name value).map fun e => (e.1, f e.2) := by
  induction entries with
  | nil => rfl
  | cons entry rest ih =>
    rw [List.map_cons, insertSorted, insertSorted]
    split
    · rfl
    · split
      · rfl
      · rw [List.map_cons, ih]

/-- Sorting looks at the names alone. -/
theorem sorted_map (pairs : List (String × α)) (f : α → β) :
    sorted (pairs.map fun e => (e.1, f e.2)) = (sorted pairs).map fun e => (e.1, f e.2) := by
  suffices ∀ entries : Entries α,
      (pairs.map fun e => (e.1, f e.2)).foldl
        (fun entries pair => insertSorted entries pair.1 pair.2)
        (entries.map fun e => (e.1, f e.2)) =
      (pairs.foldl (fun entries pair => insertSorted entries pair.1 pair.2) entries).map
        fun e => (e.1, f e.2) from this []
  induction pairs with
  | nil => exact fun _ => rfl
  | cons pair rest ih =>
    intro entries
    rw [List.map_cons, List.foldl_cons, List.foldl_cons, insertSorted_map]
    exact ih _

theorem insertSorted_perm {entries : Entries α} {name : String} (value : α)
    (h : name ∉ names entries) :
    (insertSorted entries name value).Perm ((name, value) :: entries) := by
  induction entries with
  | nil => exact .refl _
  | cons entry rest ih =>
    obtain ⟨k, v⟩ := entry
    rw [names_cons, List.mem_cons, not_or] at h
    rw [insertSorted, if_neg (Ne.symm h.1)]
    split
    · exact .refl _
    · exact ((ih h.2).cons _).trans (.swap ..)

/-- Entries with different names are the same ones in another order. -/
theorem sorted_perm {pairs : List (String × α)} (h : Distinct pairs) :
    (sorted pairs).Perm pairs := by
  suffices ∀ entries : Entries α, Distinct (entries ++ pairs) →
      (pairs.foldl (fun entries pair => insertSorted entries pair.1 pair.2) entries).Perm
        (entries ++ pairs) from this [] h
  clear h
  induction pairs with
  | nil => exact fun entries _ => by rw [List.append_nil]; exact .refl _
  | cons pair rest ih =>
    intro entries h
    have hnew : pair.1 ∉ names entries := by
      intro hmem
      rw [Distinct, names_append, List.nodup_append] at h
      exact h.2.2 pair.1 hmem pair.1 (List.mem_cons_self ..) rfl
    have hperm := (insertSorted_perm pair.2 hnew).append_right rest
    have hmiddle : (entries ++ pair :: rest).Perm ((pair.1, pair.2) :: (entries ++ rest)) :=
      List.perm_middle
    rw [List.cons_append] at hperm
    have hall := hperm.trans hmiddle.symm
    exact (ih _ ((hall.map Prod.fst).nodup_iff.2 h)).trans hall

theorem distinct_congr {entries : Entries α} {entries' : Entries β}
    (h : names entries' = names entries) : Distinct entries' ↔ Distinct entries := by
  rw [Distinct, Distinct, h]

theorem distinct_perm {entries entries' : Entries α} (h : entries.Perm entries') :
    Distinct entries' ↔ Distinct entries :=
  (h.map Prod.fst).nodup_iff.symm

/-- Where no name occurs twice, what a name leads to does not depend on the order. -/
theorem get?_perm {entries entries' : Entries α} (hd : Distinct entries)
    (h : entries.Perm entries') : get? entries' = get? entries := by
  funext name
  apply Option.ext
  intro value
  rw [get?_eq_some hd, get?_eq_some ((distinct_perm h).2 hd), h.mem_iff]

theorem distinct_sorted {pairs : List (String × α)} (h : Distinct pairs) :
    Distinct (sorted pairs) :=
  (distinct_perm (sorted_perm h)).1 h

theorem distinct_map {entries : Entries α} {f : α → β} :
    Distinct (entries.map fun e => (e.1, f e.2)) ↔ Distinct entries :=
  distinct_congr (names_map ..)

end Entries

/-! ### Sorted snapshots -/

namespace StoredBlock

mutual

/-- The same block with fields and slots in the order of their names. -/
def sorted : StoredBlock → StoredBlock
  | ⟨kind, fields, statements, values⟩ =>
    ⟨kind, Entries.sorted fields, Entries.sorted (sortedSlots statements),
      Entries.sorted (sortedValues values)⟩

def sortedChain : List StoredBlock → List StoredBlock
  | [] => []
  | b :: rest => b.sorted :: sortedChain rest

def sortedSlots : List (String × List StoredBlock) → List (String × List StoredBlock)
  | [] => []
  | (slot, chain) :: rest => (slot, sortedChain chain) :: sortedSlots rest

def sortedValues : List (String × StoredBlock) → List (String × StoredBlock)
  | [] => []
  | (slot, b) :: rest => (slot, b.sorted) :: sortedValues rest

end

theorem sortedSlots_eq_map (slots : List (String × List StoredBlock)) :
    sortedSlots slots = slots.map fun e => (e.1, sortedChain e.2) := by
  induction slots with
  | nil => rfl
  | cons entry rest ih => rw [sortedSlots, ih, List.map_cons]

theorem sortedValues_eq_map (values : List (String × StoredBlock)) :
    sortedValues values = values.map fun e => (e.1, e.2.sorted) := by
  induction values with
  | nil => rfl
  | cons entry rest ih => rw [sortedValues, ih, List.map_cons]

end StoredBlock

def StoredStack.sorted (stack : StoredStack) : StoredStack :=
  { stack with blocks := StoredBlock.sortedChain stack.blocks }

def Snapshot.sorted (s : Snapshot) : Snapshot :=
  { s with canvas := s.canvas.map StoredStack.sorted }

namespace StoredBlock

theorem distinct_sortedSlots {slots : List (String × List StoredBlock)} :
    Entries.Distinct (sortedSlots slots) ↔ Entries.Distinct slots := by
  rw [sortedSlots_eq_map, Entries.distinct_map]

theorem distinct_sortedValues {values : List (String × StoredBlock)} :
    Entries.Distinct (sortedValues values) ↔ Entries.Distinct values := by
  rw [sortedValues_eq_map, Entries.distinct_map]

end StoredBlock

/-! ### Reading a value -/

namespace Json.Document

theorem ofMembers_eq_map (members : List (String × Json)) :
    ofMembers members = members.map fun m => (m.1, ofValue m.2) := by
  induction members with
  | nil => rfl
  | cons m rest ih => rw [ofMembers, ih, List.map_cons]

/-- The members of an object are read in the order of their names. -/
theorem mapM_ofMembers {α β : Type} (write : α → Json) (read : Document → Option β) (f : α → β)
    {entries : Entries α} (hd : entries.Distinct)
    (h : ∀ e ∈ entries, read (ofValue (write e.2).sorted) = some (f e.2)) :
    (ofMembers (Entries.sorted (sortedMembers (entries.map fun e => (e.1, write e.2))))).mapM
        (fun m => (read m.2).map fun v => (m.1, v)) =
      some (Entries.sorted (entries.map fun e => (e.1, f e.2))) := by
  have hmembers : ofMembers (Entries.sorted (sortedMembers
      (entries.map fun e => (e.1, write e.2)))) =
        (Entries.sorted entries).map fun e => (e.1, ofValue (write e.2).sorted) := by
    rw [ofMembers_eq_map, sortedMembers_eq_map, List.map_map]
    show List.map _ (Entries.sorted (entries.map fun e => (e.1, (write e.2).sorted))) = _
    rw [Entries.sorted_map entries fun a => (write a).sorted, List.map_map]
    rfl
  have hsorted : ∀ e ∈ Entries.sorted entries, read (ofValue (write e.2).sorted) = some (f e.2) :=
    fun e he => h e ((Entries.sorted_perm hd).mem_iff.1 he)
  rw [hmembers, Entries.sorted_map]
  generalize Entries.sorted entries = pairs at hsorted
  induction pairs with
  | nil => rfl
  | cons pair rest ih =>
    obtain ⟨hfirst, hrest⟩ := List.forall_mem_cons.1 hsorted
    rw [List.map_cons, List.mapM_cons, ih hrest, hfirst]
    rfl

end Json.Document

namespace StoredBlock

open Document

def valuePart : List (String × Json) → Option Document
  | [] => none
  | members => some (.ofValue (Json.object members).sorted)

/-- A block is read from its parts in whatever order they are given. -/
theorem ofDocument?_sorted (kind : String) (fields statements values : List (String × Json)) :
    ofDocument? (.ofValue (Json.object (("type", .string kind) ::
        (memberUnlessEmpty "fields" fields ++ memberUnlessEmpty "statements" statements ++
          memberUnlessEmpty "values" values))).sorted) =
      assemble? (some (.string kind)) (valuePart fields)
        ((valuePart statements).elim (some []) slots?)
        ((valuePart values).elim (some []) values?) := by
  cases fields <;> cases statements <;> cases values <;>
    simp only [memberUnlessEmpty, List.cons_append, List.nil_append, List.append_nil, Json.sorted,
      sortedMembers, Entries.sorted, List.foldl_cons, List.foldl_nil, Entries.insertSorted,
      String.reduceEq, String.reduceLT, ↓reduceIte] <;>
    rfl

theorem slotMembers?_eq_mapM (members : List (String × Document)) :
    slotMembers? members = members.mapM fun m => (chainOf? m.2).map fun chain => (m.1, chain) := by
  induction members with
  | nil => rfl
  | cons m rest ih =>
    rw [slotMembers?, List.mapM_cons, ih]
    cases chainOf? m.2 <;> rfl

theorem valueMembers?_eq_mapM (members : List (String × Document)) :
    valueMembers? members = members.mapM fun m => (ofDocument? m.2).map fun b => (m.1, b) := by
  induction members with
  | nil => rfl
  | cons m rest ih =>
    rw [valueMembers?, List.mapM_cons, ih]
    cases ofDocument? m.2 <;> rfl

theorem slotsToJson_eq_map (slots : List (String × List StoredBlock)) :
    slotsToJson slots = slots.map fun e => (e.1, .array (chainToJson e.2)) := by
  induction slots with
  | nil => rfl
  | cons entry rest ih => rw [slotsToJson, ih, List.map_cons]

theorem valuesToJson_eq_map (values : List (String × StoredBlock)) :
    valuesToJson values = values.map fun e => (e.1, e.2.toJson) := by
  induction values with
  | nil => rfl
  | cons entry rest ih => rw [valuesToJson, ih, List.map_cons]

/-- A part whose entries are read one by one is read with its names in order. -/
theorem elim_valuePart {α β : Type} (write : α → Json) {one? : Document → Option β} (f : α → β)
    {read : Document → Option (Entries β)} {entries : Entries α} (hd : entries.Distinct)
    (hread : ∀ members, read (.object members) =
      (members.mapM fun m => (one? m.2).map fun v => (m.1, v)).map Entries.ofList)
    (h : ∀ e ∈ entries, one? (ofValue (write e.2).sorted) = some (f e.2)) :
    (valuePart (entries.map fun e => (e.1, write e.2))).elim (some []) read =
      some (Entries.sorted (entries.map fun e => (e.1, f e.2))) := by
  have hmembers := mapM_ofMembers write one? f hd h
  cases entries with
  | nil => rfl
  | cons entry rest =>
    show read (.object (ofMembers (Entries.sorted (sortedMembers
      ((entry :: rest).map fun e => (e.1, write e.2)))))) = _
    rw [hread, hmembers, Option.map_some,
      Entries.ofList_of_distinct (Entries.distinct_sorted (Entries.distinct_map.2 hd))]

theorem fields_valuePart {fields : List (String × FieldValue)} (hd : Entries.Distinct fields) :
    (valuePart (fields.map fun f => (f.1, f.2.toJson))).elim (some []) FieldValue.mapOfDocument? =
      some (Entries.sorted fields) := by
  have hscalar : ∀ f ∈ fields, FieldValue.ofDocument? (ofValue f.2.toJson.sorted) = some f.2 := by
    rintro ⟨_, value⟩ _
    cases value <;> rfl
  have hsame : (fields.map fun f => (f.1, id f.2)) = fields := List.map_id fields
  refine (elim_valuePart FieldValue.toJson id hd (fun _ => ?_) hscalar).trans ?_
  · simp only [FieldValue.mapOfDocument?, members?, Option.bind_eq_bind, Option.bind_some,
      Option.map_eq_bind]
    rfl
  · rw [hsame]

theorem statements_valuePart {slots : List (String × List StoredBlock)}
    (hd : Entries.Distinct slots)
    (h : ∀ e ∈ slots, chainOf? (ofValue (Json.array (chainToJson e.2)).sorted) =
      some (sortedChain e.2)) :
    (valuePart (slotsToJson slots)).elim (some []) slots? =
      some (Entries.sorted (sortedSlots slots)) := by
  rw [slotsToJson_eq_map, sortedSlots_eq_map]
  refine elim_valuePart (fun chain => .array (chainToJson chain)) sortedChain hd (fun _ => ?_) h
  rw [slots?, slotMembers?_eq_mapM]

theorem values_valuePart {values : List (String × StoredBlock)}
    (hd : Entries.Distinct values)
    (h : ∀ e ∈ values, ofDocument? (ofValue e.2.toJson.sorted) = some e.2.sorted) :
    (valuePart (valuesToJson values)).elim (some []) values? =
      some (Entries.sorted (sortedValues values)) := by
  rw [valuesToJson_eq_map, sortedValues_eq_map]
  refine elim_valuePart toJson sorted hd (fun _ => ?_) h
  rw [values?, valueMembers?_eq_mapM]

mutual

/-- A block is read back from its value, with its names in order. -/
theorem ofDocument?_ofValue : ∀ {b : StoredBlock}, b.Named →
    ofDocument? (ofValue b.toJson.sorted) = some b.sorted
  | ⟨kind, fields, statements, values⟩, ⟨hfields, hds, hslots, hdv, hvalues⟩ => by
    have hs := statements_valuePart hds (chainOf?_ofValue_of_slots hslots)
    have hv := values_valuePart hdv (ofDocument?_ofValue_of_values hvalues)
    rw [toJson, ofDocument?_sorted, hs, hv, sorted]
    simp only [assemble?, defaulted?_eq_elim, fields_valuePart hfields]
    rfl

theorem chainOf?_ofValue : ∀ {chain : List StoredBlock}, NamedChain chain →
    chainOf? (ofValue (Json.array (chainToJson chain)).sorted) = some (sortedChain chain)
  | [], _ => rfl
  | b :: rest, ⟨hb, hrest⟩ => by
    have hread : chain? (ofItems (sortedItems (chainToJson rest))) = some (sortedChain rest) :=
      chainOf?_ofValue hrest
    show chain? (ofValue b.toJson.sorted :: ofItems (sortedItems (chainToJson rest))) = _
    rw [chain?, ofDocument?_ofValue hb, hread]
    rfl

theorem chainOf?_ofValue_of_slots : ∀ {slots : List (String × List StoredBlock)},
    NamedSlots slots → ∀ e ∈ slots,
      chainOf? (ofValue (Json.array (chainToJson e.2)).sorted) = some (sortedChain e.2)
  | [], _ => by simp
  | (_, _) :: _, ⟨hchain, hrest⟩ =>
    List.forall_mem_cons.2 ⟨chainOf?_ofValue hchain, chainOf?_ofValue_of_slots hrest⟩

theorem ofDocument?_ofValue_of_values : ∀ {values : List (String × StoredBlock)},
    NamedValues values → ∀ e ∈ values, ofDocument? (ofValue e.2.toJson.sorted) = some e.2.sorted
  | [], _ => by simp
  | (_, _) :: _, ⟨hb, hrest⟩ =>
    List.forall_mem_cons.2 ⟨ofDocument?_ofValue hb, ofDocument?_ofValue_of_values hrest⟩

end

end StoredBlock

/-! ### Stacks and snapshots -/

theorem StoredStack.ofDocument?_ofValue {stack : StoredStack}
    (h : StoredBlock.NamedChain stack.blocks) :
    ofDocument? (.ofValue stack.toJson.sorted) = some stack.sorted := by
  obtain ⟨x, y, blocks⟩ := stack
  obtain ⟨kx, hx, htx, _⟩ := Json.exists_ofInt32 x
  obtain ⟨ky, hy, hty, _⟩ := Json.exists_ofInt32 y
  let chain := Json.array (StoredBlock.chainToJson blocks)
  have hrecord : (Document.ofValue (toJson ⟨x, y, blocks⟩).sorted).record? ["x", "y", "blocks"] =
      some ⟨false, [some (.number kx), some (.number ky), some (.ofValue chain.sorted)]⟩ := by
    rw [toJson, hx, hy]
    simp only [Json.sorted, sortedMembers, Entries.sorted, List.foldl_cons, List.foldl_nil,
      Entries.insertSorted, String.reduceEq, String.reduceLT, ↓reduceIte]
    rfl
  have hblocks := StoredBlock.chainOf?_ofValue h
  rw [ofDocument?, hrecord]
  simp only [Option.bind_eq_bind, Option.bind_some, defaulted?, required?, int32?_number htx,
    int32?_number hty, chain, hblocks]
  rfl

namespace Snapshot

theorem canvas?_ofValue {canvas : List StoredStack}
    (h : ∀ stack ∈ canvas, StoredBlock.NamedChain stack.blocks) :
    canvas? (.ofValue (Json.array (canvas.map StoredStack.toJson)).sorted) =
      some (canvas.map StoredStack.sorted) := by
  show (Document.ofItems (sortedItems (canvas.map StoredStack.toJson))).mapM
    StoredStack.ofDocument? = _
  induction canvas with
  | nil => rfl
  | cons stack rest ih =>
    obtain ⟨hfirst, hrest⟩ := List.forall_mem_cons.1 h
    rw [List.map_cons, sortedItems, Document.ofItems, List.mapM_cons,
      StoredStack.ofDocument?_ofValue hfirst, ih hrest]
    rfl

/-- A snapshot is read back from its value, with its names in order. -/
theorem ofValue?_toValue {s : Snapshot} (h : s.Named) : ofValue? s.toValue = some s.sorted := by
  obtain ⟨version, board, canvas⟩ := s
  have hrecord : (Document.ofValue (toJson ⟨version, board, canvas⟩).sorted).record?
      ["version", "board", "stacks"] =
      some ⟨false, [some (.number (.nonneg (UInt64.ofNat version.toNat))), some (.string board),
        some (.ofValue (Json.array (canvas.map StoredStack.toJson)).sorted)]⟩ := by
    simp only [toJson, Json.sorted, sortedMembers, Entries.sorted, List.foldl_cons,
      List.foldl_nil, Entries.insertSorted, String.reduceEq, String.reduceLT, ↓reduceIte]
    rfl
  rw [ofValue?, toValue, ofDocument?, hrecord]
  simp only [Option.bind_eq_bind, Option.bind_some, defaulted?, uint32?_ofNat, Document.string?,
    canvas?_ofValue h]
  rfl

end Snapshot

end BlockSketch
