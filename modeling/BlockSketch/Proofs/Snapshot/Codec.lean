import BlockSketch.Proofs.Json.Clipped
import BlockSketch.Snapshot.Json

/-!
Snapshots as text. A snapshot in which no name comes twice is read back from its
own text if there is room for it, and is not read at all otherwise: nothing in a
snapshot is skipped, so a container for which there is no room is always met.
Both are one equation, proved along the snapshot for all its parts together.
-/

namespace BlockSketch

open Json

namespace StoredBlock

mutual

/-- No field and no slot is named twice. -/
def Named : StoredBlock → Prop
  | ⟨_, fields, statements, values⟩ =>
    Entries.Distinct fields ∧ Entries.Distinct statements ∧ NamedSlots statements ∧
      Entries.Distinct values ∧ NamedValues values

def NamedChain : List StoredBlock → Prop
  | [] => True
  | b :: rest => b.Named ∧ NamedChain rest

def NamedSlots : List (String × List StoredBlock) → Prop
  | [] => True
  | (_, chain) :: rest => NamedChain chain ∧ NamedSlots rest

def NamedValues : List (String × StoredBlock) → Prop
  | [] => True
  | (_, b) :: rest => b.Named ∧ NamedValues rest

end

/-! ### Whole numbers -/

theorem wholeMembers_append {members more : List (String × Json)} :
    WholeMembers (members ++ more) ↔ WholeMembers members ∧ WholeMembers more := by
  induction members with
  | nil => simp [WholeMembers]
  | cons m rest ih =>
    rw [List.cons_append, WholeMembers, WholeMembers, ih, and_assoc]

theorem wholeMembers_unlessEmpty {name : String} {members : List (String × Json)}
    (h : WholeMembers members) : WholeMembers (memberUnlessEmpty name members) := by
  cases members with
  | nil => trivial
  | cons m rest => exact ⟨h, trivial⟩

theorem wholeMembers_fields (fields : List (String × FieldValue)) :
    WholeMembers (fields.map fun f => (f.1, f.2.toJson)) := by
  induction fields with
  | nil => trivial
  | cons f rest ih =>
    refine ⟨?_, ih⟩
    cases f.2 <;> trivial

mutual

theorem whole_toJson : ∀ b : StoredBlock, b.toJson.Whole
  | ⟨kind, fields, statements, values⟩ => by
    refine ⟨trivial, ?_⟩
    rw [wholeMembers_append, wholeMembers_append]
    exact ⟨⟨wholeMembers_unlessEmpty (wholeMembers_fields fields),
      wholeMembers_unlessEmpty (whole_slotsToJson statements)⟩,
      wholeMembers_unlessEmpty (whole_valuesToJson values)⟩

theorem whole_chainToJson : ∀ chain : List StoredBlock, WholeItems (chainToJson chain)
  | [] => trivial
  | b :: rest => ⟨whole_toJson b, whole_chainToJson rest⟩

theorem whole_slotsToJson : ∀ slots : List (String × List StoredBlock),
    WholeMembers (slotsToJson slots)
  | [] => trivial
  | (_, chain) :: rest => ⟨whole_chainToJson chain, whole_slotsToJson rest⟩

theorem whole_valuesToJson : ∀ values : List (String × StoredBlock),
    WholeMembers (valuesToJson values)
  | [] => trivial
  | (_, b) :: rest => ⟨whole_toJson b, whole_valuesToJson rest⟩

end

/-! ### The parts of a block -/

theorem depthMembers_append (members more : List (String × Json)) :
    depthMembers (members ++ more) = max (depthMembers members) (depthMembers more) := by
  induction members with
  | nil => simp [depthMembers]
  | cons m rest ih => rw [List.cons_append, depthMembers, depthMembers, ih, Nat.max_assoc]

theorem clippedMembers_append (n : Nat) (members more : List (String × Json)) :
    Document.clippedMembers n (members ++ more) =
      Document.clippedMembers n members ++ Document.clippedMembers n more := by
  induction members with
  | nil => rfl
  | cons m rest ih => exact congrArg ((m.1, Document.clipped n m.2) :: ·) ih

/-- What is read of a member that is left out when there is nothing in it. -/
def partOf (n : Nat) : List (String × Json) → Option Document
  | [] => none
  | members => some (Document.clipped n (.object members))

theorem clippedMembers_unlessEmpty (n : Nat) (name : String) (members : List (String × Json)) :
    Document.clippedMembers n (memberUnlessEmpty name members) =
      ((partOf n members).map fun d => (name, d)).toList := by
  cases members <;> rfl

/-- There is room for a member that is left out when there is nothing in it. -/
def Room (n : Nat) (members : List (String × Json)) : Prop :=
  members = [] ∨ depthMembers members < n

instance (n : Nat) (members : List (String × Json)) : Decidable (Room n members) :=
  match members with
  | [] => isTrue (.inl rfl)
  | m :: rest =>
    if h : depthMembers (m :: rest) < n then isTrue (.inr h)
    else isFalse fun hr => hr.elim nofun h

theorem depthMembers_unlessEmpty {n : Nat} (name : String) {members : List (String × Json)} :
    depthMembers (memberUnlessEmpty name members) ≤ n ↔ Room n members := by
  cases members with
  | nil => simp [memberUnlessEmpty, depthMembers, Room]
  | cons m rest =>
    simp only [memberUnlessEmpty, depthMembers, Room, depth, reduceCtorEq, false_or]
    omega

/-- A block is read from the members that it has. -/
theorem ofDocument?_members (kind : String) (fields statements values : Option Document) :
    ofDocument? (.object (("type", .string kind) ::
        ((fields.map fun d => ("fields", d)).toList ++
          (statements.map fun d => ("statements", d)).toList ++
          (values.map fun d => ("values", d)).toList))) =
      assemble? (some (.string kind)) fields (statements.elim (some []) slots?)
        (values.elim (some []) values?) := by
  cases fields <;> cases statements <;> cases values <;>
    simp [ofDocument?, names, Document.atMostOnce, slotsIn?, valuesIn?, List.lookup_cons]

theorem defaulted?_eq_elim {α : Type} (read : Document → Option α) (missing : α)
    (d : Option Document) : defaulted? read missing d = d.elim (some missing) read := by
  cases d <;> rfl

/-- A part is read if there is room for it. It is read as `missing` if it is left out, and
otherwise as what its members are read as. -/
theorem elim_partOf {α : Type} {read : Document → Option α} {missing whole : α}
    {members : List (String × Json)} (hnil : members = [] → missing = whole)
    (hunreadable : read .unreadable = none)
    (hread : ∀ k, read (.object (Document.clippedMembers k members)) =
      if depthMembers members ≤ k then some whole else none) (n : Nat) :
    (partOf n members).elim (some missing) read =
      if Room n members then some whole else none := by
  cases members with
  | nil =>
    rw [if_pos (.inl rfl), ← hnil rfl]
    rfl
  | cons m rest =>
    have hroom : Room n (m :: rest) ↔ depthMembers (m :: rest) < n := or_iff_right nofun
    show read (Document.clipped n (.object (m :: rest))) = _
    cases n with
    | zero =>
      rw [if_neg (by rw [hroom]; exact Nat.not_lt_zero _)]
      exact hunreadable
    | succ k =>
      rw [Document.clipped, hread]
      simp only [hroom, Nat.lt_succ_iff]

/-- The fields are values in which nothing is nested. -/
theorem depthMembers_fields (fields : List (String × FieldValue)) :
    depthMembers (fields.map fun f => (f.1, f.2.toJson)) = 0 := by
  induction fields with
  | nil => rfl
  | cons f rest ih =>
    have hscalar : f.2.toJson.depth = 0 := by cases f.2 <;> rfl
    simp only [List.map_cons, depthMembers, ih, hscalar, Nat.max_self]

theorem mapM_clipped_fields (k : Nat) (fields : List (String × FieldValue)) :
    (Document.clippedMembers k (fields.map fun f => (f.1, f.2.toJson))).mapM
      (fun m => (FieldValue.ofDocument? m.2).map fun v => (m.1, v)) = some fields := by
  induction fields with
  | nil => rfl
  | cons f rest ih =>
    have hscalar : FieldValue.ofDocument? (Document.clipped k f.2.toJson) = some f.2 := by
      cases f.2 <;> rfl
    rw [List.map_cons, Document.clippedMembers, List.mapM_cons, ih, hscalar]
    rfl

theorem fields_partOf {fields : List (String × FieldValue)} (hd : Entries.Distinct fields)
    (n : Nat) :
    (partOf n (fields.map fun f => (f.1, f.2.toJson))).elim (some []) FieldValue.mapOfDocument? =
      if Room n (fields.map fun f => (f.1, f.2.toJson)) then some fields else none := by
  refine elim_partOf (fun h => (List.map_eq_nil_iff.1 h).symm) rfl (fun k => ?_) n
  rw [depthMembers_fields, if_pos (Nat.zero_le k)]
  simp only [FieldValue.mapOfDocument?, Document.members?, Option.bind_eq_bind, Option.bind_some,
    mapM_clipped_fields, Entries.ofList_of_distinct hd]
  rfl

theorem assemble?_eq (kind : String) {fields : List (String × FieldValue)}
    {statements : List (String × List StoredBlock)} {values : List (String × StoredBlock)}
    {f : Option Document} {s : Option (List (String × List StoredBlock))}
    {v : Option (List (String × StoredBlock))} {p q r : Prop} [Decidable p] [Decidable q]
    [Decidable r]
    (hf : f.elim (some []) FieldValue.mapOfDocument? = if p then some fields else none)
    (hs : s = if q then some statements else none) (hv : v = if r then some values else none) :
    assemble? (some (.string kind)) f s v =
      if p ∧ q ∧ r then some ⟨kind, fields, statements, values⟩ else none := by
  have hkind : required? Document.string? (some (.string kind)) = some kind := rfl
  simp only [assemble?, defaulted?_eq_elim, hkind, hf, hs, hv, Option.bind_eq_bind, Option.bind_some]
  by_cases hp : p <;> by_cases hq : q <;> by_cases hr : r <;> simp [hp, hq, hr]

/-! ### Blocks -/

/-- Two parts are read if there is room for both. -/
theorem bind_ite {α β γ : Type} {a : α} {b : β} (f : α → β → γ) {p q : Prop} [Decidable p]
    [Decidable q] :
    ((if p then some a else none).bind fun a => (if q then some b else none).bind fun b =>
      some (f a b)) = if p ∧ q then some (f a b) else none := by
  by_cases hp : p <;> by_cases hq : q <;> simp [hp, hq]

theorem statements_partOf {slots : List (String × List StoredBlock)}
    (hd : Entries.Distinct slots) (n : Nat)
    (h : ∀ k, slotMembers? (Document.clippedMembers k (slotsToJson slots)) =
      if depthMembers (slotsToJson slots) ≤ k then some slots else none) :
    (partOf n (slotsToJson slots)).elim (some []) slots? =
      if Room n (slotsToJson slots) then some slots else none := by
  refine elim_partOf (fun hnil => ?_) (by rw [slots?]; exact nofun) (fun k => ?_) n
  · cases slots with
    | nil => rfl
    | cons => exact absurd hnil (by rw [slotsToJson]; exact nofun)
  · rw [slots?, h k, apply_ite (Option.map Entries.ofList), Option.map_some, Option.map_none,
      Entries.ofList_of_distinct hd]

theorem values_partOf {values : List (String × StoredBlock)}
    (hd : Entries.Distinct values) (n : Nat)
    (h : ∀ k, valueMembers? (Document.clippedMembers k (valuesToJson values)) =
      if depthMembers (valuesToJson values) ≤ k then some values else none) :
    (partOf n (valuesToJson values)).elim (some []) values? =
      if Room n (valuesToJson values) then some values else none := by
  refine elim_partOf (fun hnil => ?_) (by rw [values?]; exact nofun) (fun k => ?_) n
  · cases values with
    | nil => rfl
    | cons => exact absurd hnil (by rw [valuesToJson]; exact nofun)
  · rw [values?, h k, apply_ite (Option.map Entries.ofList), Option.map_some, Option.map_none,
      Entries.ofList_of_distinct hd]

mutual

/-- A block is read back exactly if there is room for it. A member that is left
out takes no room; any other one takes a level of its own. -/
theorem ofDocument?_clipped : ∀ {b : StoredBlock}, b.Named → ∀ n,
    ofDocument? (Document.clipped n b.toJson) = if b.toJson.depth ≤ n then some b else none
  | ⟨kind, fields, statements, values⟩, ⟨hfields, hds, hslots, hdv, hvalues⟩, n => by
    let F := fields.map fun f => (f.1, f.2.toJson)
    let S := slotsToJson statements
    let V := valuesToJson values
    let b : StoredBlock := ⟨kind, fields, statements, values⟩
    have hjson : b.toJson = .object (("type", .string kind) :: (memberUnlessEmpty "fields" F ++
        memberUnlessEmpty "statements" S ++ memberUnlessEmpty "values" V)) := by
      show toJson ⟨kind, fields, statements, values⟩ = _
      rw [toJson]
    have hdepth : ∀ k, b.toJson.depth ≤ k + 1 ↔ Room k F ∧ Room k S ∧ Room k V := by
      intro k
      rw [hjson, depth, depthMembers, depthMembers_append, depthMembers_append,
        ← depthMembers_unlessEmpty "fields", ← depthMembers_unlessEmpty "statements",
        ← depthMembers_unlessEmpty "values"]
      simp only [depth]
      omega
    cases n with
    | zero =>
      have hpositive : ¬ b.toJson.depth ≤ 0 := by
        rw [hjson, depth]
        omega
      show ofDocument? (Document.clipped 0 b.toJson) = if b.toJson.depth ≤ 0 then _ else _
      rw [if_neg hpositive, hjson, Document.clipped, ofDocument?]
      all_goals exact nofun
    | succ k =>
      have hpieces := assemble?_eq kind (fields_partOf hfields k)
        (statements_partOf hds k fun k => slotMembers?_clipped hslots k)
        (values_partOf hdv k fun k => valueMembers?_clipped hvalues k)
      show ofDocument? (Document.clipped (k + 1) b.toJson) = if b.toJson.depth ≤ k + 1 then _ else _
      rw [hjson, Document.clipped, Document.clippedMembers, clippedMembers_append,
        clippedMembers_append, clippedMembers_unlessEmpty, clippedMembers_unlessEmpty,
        clippedMembers_unlessEmpty, Document.clipped, ofDocument?_members, hpieces, ← hjson]
      simp only [hdepth]
      rfl

theorem chain?_clipped : ∀ {chain : List StoredBlock}, NamedChain chain → ∀ n,
    chain? (Document.clippedItems n (chainToJson chain)) =
      if depthItems (chainToJson chain) ≤ n then some chain else none
  | [], _, n => (if_pos (Nat.zero_le n)).symm
  | b :: rest, ⟨hb, hrest⟩, n => by
    rw [chainToJson, Document.clippedItems, chain?, ofDocument?_clipped hb n,
      chain?_clipped hrest n, depthItems]
    simp only [Nat.max_le]
    exact bind_ite fun b rest => b :: rest

theorem chainOf?_clipped {chain : List StoredBlock} (h : NamedChain chain) (n : Nat) :
    chainOf? (Document.clipped n (.array (chainToJson chain))) =
      if depthItems (chainToJson chain) < n then some chain else none := by
  cases n with
  | zero =>
    rw [if_neg (Nat.not_lt_zero _), Document.clipped, chainOf?]
    exact nofun
  | succ k =>
    rw [Document.clipped, chainOf?, chain?_clipped h k]
    simp only [Nat.lt_succ_iff]

theorem slotMembers?_clipped : ∀ {slots : List (String × List StoredBlock)}, NamedSlots slots →
    ∀ n, slotMembers? (Document.clippedMembers n (slotsToJson slots)) =
      if depthMembers (slotsToJson slots) ≤ n then some slots else none
  | [], _, n => (if_pos (Nat.zero_le n)).symm
  | (slot, chain) :: rest, ⟨hchain, hrest⟩, n => by
    rw [slotsToJson, Document.clippedMembers, slotMembers?, chainOf?_clipped hchain n,
      slotMembers?_clipped hrest n, depthMembers, depth]
    simp only [Nat.max_le, Nat.succ_le_iff]
    exact bind_ite fun chain rest => (slot, chain) :: rest

theorem valueMembers?_clipped : ∀ {values : List (String × StoredBlock)}, NamedValues values →
    ∀ n, valueMembers? (Document.clippedMembers n (valuesToJson values)) =
      if depthMembers (valuesToJson values) ≤ n then some values else none
  | [], _, n => (if_pos (Nat.zero_le n)).symm
  | (slot, b) :: rest, ⟨hb, hrest⟩, n => by
    rw [valuesToJson, Document.clippedMembers, valueMembers?, ofDocument?_clipped hb n,
      valueMembers?_clipped hrest n, depthMembers]
    simp only [Nat.max_le]
    exact bind_ite fun b rest => (slot, b) :: rest

end

end StoredBlock

/-! ### Stacks and snapshots -/

namespace Json

/-- A small integer is written as a whole number and read back. -/
theorem exists_ofInt32 (x : Int32) : ∃ k, Json.ofInt32 x = .number k ∧ k.toInt? = some x.toInt ∧
    (Json.number k).Whole := by
  have hlow := x.le_toInt
  have hhigh := x.toInt_lt
  unfold ofInt32
  cases hx : x.toInt with
  | ofNat m =>
    refine ⟨.nonneg (UInt64.ofNat m), rfl, ?_, trivial⟩
    rw [hx] at hhigh
    have hlt : m < 2 ^ 64 := by
      have : (m : Int) < 2 ^ 31 := hhigh
      omega
    show some ((UInt64.ofNat m).toNat : Int) = some (Int.ofNat m)
    rw [UInt64.toNat_ofNat_of_lt' hlt]
    rfl
  | negSucc m =>
    refine ⟨.negSucc (Fin.ofNat _ m), rfl, ?_, trivial⟩
    rw [hx] at hlow
    have hlt : m < 0x8000000000000000 := by
      have : -2 ^ 31 ≤ Int.negSucc m := hlow
      omega
    show some (Int.negSucc (Fin.ofNat 0x8000000000000000 m).val) = some (Int.negSucc m)
    rw [Fin.val_ofNat, Nat.mod_eq_of_lt hlt]

theorem int32?_number {k : Number} {x : Int32} (h : k.toInt? = some x.toInt) :
    Document.int32? (.number k) = some x := by
  have hbounds : Int32.minValue.toInt ≤ x.toInt ∧ x.toInt ≤ Int32.maxValue.toInt :=
    ⟨x.minValue_le_toInt, x.toInt_le⟩
  simp only [Document.int32?, h, Option.bind_eq_bind, Option.bind_some, if_pos hbounds,
    Int32.ofInt_toInt]

/-- A version is written as a whole number and read back. -/
theorem uint32?_ofNat (n : UInt32) :
    Document.uint32? (.number (.nonneg (UInt64.ofNat n.toNat))) = some n := by
  have hlt : n.toNat < UInt32.size := n.toNat_lt
  have hnat : (UInt64.ofNat n.toNat).toNat = n.toNat :=
    UInt64.toNat_ofNat_of_lt' (Nat.lt_trans hlt (by decide))
  simp only [Document.uint32?, Document.uint64?, Option.bind_eq_bind, Option.bind_some, hnat,
    if_pos hlt, UInt32.ofNat_toNat]

end Json

namespace StoredStack

theorem whole_toJson (stack : StoredStack) : stack.toJson.Whole := by
  obtain ⟨kx, hx, _, hwx⟩ := Json.exists_ofInt32 stack.x
  obtain ⟨ky, hy, _, hwy⟩ := Json.exists_ofInt32 stack.y
  rw [toJson, hx, hy]
  exact ⟨hwx, hwy, StoredBlock.whole_chainToJson stack.blocks, trivial⟩

theorem ofDocument?_clipped {stack : StoredStack} (h : StoredBlock.NamedChain stack.blocks)
    (n : Nat) :
    ofDocument? (Document.clipped n stack.toJson) =
      if stack.toJson.depth ≤ n then some stack else none := by
  obtain ⟨x, y, blocks⟩ := stack
  obtain ⟨kx, hx, htx, _⟩ := Json.exists_ofInt32 x
  obtain ⟨ky, hy, hty, _⟩ := Json.exists_ofInt32 y
  have hjson : toJson ⟨x, y, blocks⟩ = .object [("x", .number kx), ("y", .number ky),
      ("blocks", .array (StoredBlock.chainToJson blocks))] := by
    rw [toJson, hx, hy]
  have hdepth : (toJson ⟨x, y, blocks⟩).depth = depthItems (StoredBlock.chainToJson blocks) + 2 := by
    rw [hjson]
    simp [depth, depthMembers]
  rw [hdepth, hjson]
  cases n with
  | zero =>
    rw [if_neg (by omega), Document.clipped]
    rfl
  | succ k =>
    have hblocks := StoredBlock.chainOf?_clipped h k
    have hrecord : (Document.object (Document.clippedMembers k [("x", .number kx),
        ("y", .number ky), ("blocks", .array (StoredBlock.chainToJson blocks))])).record?
          ["x", "y", "blocks"] = some ⟨false, [some (.number kx), some (.number ky),
            some (Document.clipped k (.array (StoredBlock.chainToJson blocks)))]⟩ := rfl
    rw [Document.clipped, ofDocument?, hrecord]
    simp only [Option.bind_eq_bind, Option.bind_some, defaulted?, required?, int32?_number htx,
      int32?_number hty, hblocks]
    by_cases hroom : depthItems (StoredBlock.chainToJson blocks) < k
    · rw [if_pos hroom, if_pos (by omega)]
      rfl
    · rw [if_neg hroom, if_neg (by omega)]
      rfl

end StoredStack

namespace Snapshot

def Named (s : Snapshot) : Prop :=
  ∀ stack ∈ s.canvas, StoredBlock.NamedChain stack.blocks

theorem whole_toJson (s : Snapshot) : s.toJson.Whole := by
  have hitems : ∀ canvas : List StoredStack, WholeItems (canvas.map StoredStack.toJson) := by
    intro canvas
    induction canvas with
    | nil => trivial
    | cons stack rest ih => exact ⟨stack.whole_toJson, ih⟩
  exact ⟨trivial, trivial, hitems s.canvas, trivial⟩

theorem canvas?_clipped {canvas : List StoredStack}
    (h : ∀ stack ∈ canvas, StoredBlock.NamedChain stack.blocks) (n : Nat) :
    canvas? (Document.clipped n (.array (canvas.map StoredStack.toJson))) =
      if depthItems (canvas.map StoredStack.toJson) < n then some canvas else none := by
  cases n with
  | zero =>
    rw [if_neg (Nat.not_lt_zero _), Document.clipped]
    rfl
  | succ k =>
    rw [Document.clipped]
    show (Document.clippedItems k _).mapM StoredStack.ofDocument? = _
    simp only [Nat.lt_succ_iff]
    induction canvas with
    | nil => exact (if_pos (Nat.zero_le k)).symm
    | cons stack rest ih =>
      have hrest := ih fun s hs => h s (List.mem_cons_of_mem _ hs)
      rw [List.map_cons, Document.clippedItems, List.mapM_cons, hrest,
        StoredStack.ofDocument?_clipped (h stack (List.mem_cons_self ..)) k, depthItems]
      simp only [Nat.max_le]
      exact StoredBlock.bind_ite fun stack rest => stack :: rest

/-- A snapshot is read back exactly if there is room for it. -/
theorem ofDocument?_clipped {s : Snapshot} (h : s.Named) (n : Nat) :
    ofDocument? (Document.clipped n s.toJson) = if s.toJson.depth ≤ n then some s else none := by
  obtain ⟨version, board, canvas⟩ := s
  have hnamed : ∀ stack ∈ canvas, StoredBlock.NamedChain stack.blocks := h
  have hdepth : (toJson ⟨version, board, canvas⟩).depth =
      depthItems (canvas.map StoredStack.toJson) + 2 := by
    simp [toJson, Json.ofNat, Json.ofUInt64, depth, depthMembers]
  rw [hdepth, toJson]
  cases n with
  | zero =>
    rw [if_neg (by omega), Document.clipped]
    rfl
  | succ k =>
    have hrecord : (Document.object (Document.clippedMembers k
        [("version", .ofNat version.toNat), ("board", .string board),
          ("stacks", .array (canvas.map StoredStack.toJson))])).record?
          ["version", "board", "stacks"] =
        some ⟨false, [some (.number (.nonneg (UInt64.ofNat version.toNat))), some (.string board),
          some (Document.clipped k (.array (canvas.map StoredStack.toJson)))]⟩ := rfl
    rw [Document.clipped, ofDocument?, hrecord]
    simp only [Option.bind_eq_bind, Option.bind_some, defaulted?, uint32?_ofNat, Document.string?,
      canvas?_clipped hnamed]
    by_cases hroom : depthItems (canvas.map StoredStack.toJson) < k
    · rw [if_pos hroom, if_pos (by omega)]
      rfl
    · rw [if_neg hroom, if_neg (by omega)]
      rfl

/-- A snapshot is read back from its text exactly if the text does not nest too
deeply. -/
theorem ofText?_text {s : Snapshot} (h : s.Named) :
    ofText? s.text = if s.toJson.depth ≤ nestingLimit then some s else none := by
  rw [ofText?, text, ofText?_compact s.whole_toJson]
  exact ofDocument?_clipped h nestingLimit

theorem ofText?_prettyText {s : Snapshot} (h : s.Named) :
    ofText? s.prettyText = if s.toJson.depth ≤ nestingLimit then some s else none := by
  rw [ofText?, prettyText, ofText?_pretty s.whole_toJson]
  exact ofDocument?_clipped h nestingLimit

end Snapshot

end BlockSketch
