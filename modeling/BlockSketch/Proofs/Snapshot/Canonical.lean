import BlockSketch.Proofs.Snapshot.Layout
import BlockSketch.Proofs.Snapshot.Walk
import BlockSketch.Proofs.Typing.Admitted

/-!
The form in which a snapshot is stored. A snapshot may leave out fields, name
slots in any order and carry empty chains; rebuilding it and storing what came
out puts it into canonical form. The layout says where each block has come to
lie, so that the walk from there can be followed part by part: a block, a chain
and the slots are read off together, by induction on the snapshot.
-/

namespace BlockSketch

namespace StoredBlock

open Workspace

variable (registry : Registry) (board : Board)

/-- All declared fields in the order of their declaration, with the value that is
stored for what is given, or else with the default. -/
def canonicalFields (type : BlockType) (fields : List (String × FieldValue)) :
    Entries FieldValue :=
  type.fields.map fun spec => (spec.name,
    ((Entries.get? (restoredFields type board fields) spec.name).getD (spec.defaultValue board)))

mutual

/-- Fields and slots in the order of their declaration, without empty chains. -/
def canonical : StoredBlock → StoredBlock
  | ⟨kind, fields, statements, values⟩ =>
    match registry.get? kind with
    | none => ⟨kind, fields, statements, values⟩
    | some type =>
      { kind := kind
        fields := canonicalFields board type fields
        statements := Entries.collect type.sockets.statementSlots
          (Entries.get? (canonicalSlots statements))
        values := Entries.collect (type.sockets.valueSlots.map ValueSlot.name)
          (Entries.get? (canonicalValues values)) }

def canonicalChain : List StoredBlock → List StoredBlock
  | [] => []
  | b :: rest => canonical b :: canonicalChain rest

def canonicalSlots : List (String × List StoredBlock) → List (String × List StoredBlock)
  | [] => []
  | (_, []) :: rest => canonicalSlots rest
  | (slot, b :: chain) :: rest => (slot, canonical b :: canonicalChain chain) :: canonicalSlots rest

def canonicalValues : List (String × StoredBlock) → List (String × StoredBlock)
  | [] => []
  | (slot, b) :: rest => (slot, canonical b) :: canonicalValues rest

end

end StoredBlock

def StoredStack.canonical (registry : Registry) (board : Board) (stack : StoredStack) :
    StoredStack :=
  { stack with blocks := StoredBlock.canonicalChain registry board stack.blocks }

/-! ### Slots in order -/

namespace Arena

/-- The slots of a block are stored in the order in which it has them. -/
theorem Forest.tree_eq_collect {arena : Arena} {x : BlockId} {b : Block} (h : arena.Forest)
    (hb : arena.find? x = some b) :
    arena.tree b =
      { kind := b.kind
        fields := b.fields
        statements := Entries.collect b.statements.names fun slot =>
          (arena.linked? x (.statement slot)).map arena.chain
        values := Entries.collect b.values.names fun slot =>
          ((arena.linked? x (.value slot)).bind arena.find?).map arena.tree } := by
  have htidy := h.tidy b (mem_of_find? hb)
  have hstatements : b.statements.filterMap (fun entry =>
      entry.2.map fun head => (entry.1, arena.chain head)) =
      Entries.collect b.statements.names fun slot =>
        (arena.linked? x (.statement slot)).map arena.chain := by
    have hsplit := Entries.filterMap_eq_collect htidy.statements fun o => o.map arena.chain
    simp only [Option.map_map] at hsplit
    refine Eq.trans hsplit (Entries.collect_congr fun slot _ => ?_)
    rw [linked?_of_find? hb]
    show _ = ((b.statements.get? slot).join).map _
    cases b.statements.get? slot <;> rfl
  have hvalues : b.values.filterMap (fun entry =>
      (entry.2.bind arena.find?).map fun child => (entry.1, arena.tree child)) =
      Entries.collect b.values.names fun slot =>
        ((arena.linked? x (.value slot)).bind arena.find?).map arena.tree := by
    have hsplit := Entries.filterMap_eq_collect htidy.values fun o =>
      (o.bind arena.find?).map arena.tree
    simp only [Option.map_map] at hsplit
    refine Eq.trans hsplit (Entries.collect_congr fun slot _ => ?_)
    rw [linked?_of_find? hb]
    show _ = (((b.values.get? slot).join).bind _).map _
    cases b.values.get? slot <;> rfl
  rw [h.tree_eq hb, hstatements, hvalues]

/-- The blocks of a layout are found where they have been laid. -/
def Holds (arena layout : Arena) : Prop :=
  ∀ b ∈ layout, arena.find? b.id = some b

theorem Holds.left {arena L M : Arena} (h : arena.Holds (L ++ M)) : arena.Holds L :=
  fun b hb => h b (List.mem_append.2 (.inl hb))

theorem Holds.right {arena L M : Arena} (h : arena.Holds (L ++ M)) : arena.Holds M :=
  fun b hb => h b (List.mem_append.2 (.inr hb))

end Arena

/-! ### One block -/

namespace Workspace

open StoredBlock

variable {registry : Registry} {board : Board} {type : BlockType} {A : Arena} {n : Nat}
  {position : Position} {next : Option BlockId}

theorem names_heads (n : Nat) (slots : List (String × List StoredBlock)) :
    (Entries.names (heads n slots)).Sublist (Entries.names slots) := by
  induction slots generalizing n with
  | nil => exact .slnil
  | cons entry rest ih =>
    obtain ⟨slot, chain⟩ := entry
    cases chain with
    | nil => exact (ih n).cons _
    | cons b chain => exact (ih _).cons_cons _

theorem names_plugs (n : Nat) (values : List (String × StoredBlock)) :
    Entries.names (plugs n values) = Entries.names values := by
  induction values generalizing n with
  | nil => rfl
  | cons entry rest ih => exact congrArg (entry.1 :: ·) (ih _)

/-- A slot that is filled is one that the type has. -/
theorem mem_of_slotsFit {slots : List (String × List StoredBlock)}
    (h : SlotsFit registry board type slots) {slot : String}
    (hslot : slot ∈ Entries.names (heads n slots)) : slot ∈ type.sockets.statementSlots := by
  induction slots generalizing n with
  | nil => cases hslot
  | cons entry rest ih =>
    obtain ⟨name, chain⟩ := entry
    obtain ⟨hchain, hrest⟩ := h
    cases chain with
    | nil => exact ih hrest hslot
    | cons b chain =>
      obtain rfl | hslot := List.mem_cons.1 hslot
      · exact hchain.1
      · exact ih hrest hslot

theorem mem_of_valuesFit {values : List (String × StoredBlock)}
    (h : ValuesFit registry board type values) {slot : String}
    (hslot : slot ∈ Entries.names values) :
    slot ∈ type.sockets.valueSlots.map ValueSlot.name := by
  induction values with
  | nil => cases hslot
  | cons entry rest ih =>
    obtain ⟨hfirst, _, _, hrest⟩ := h
    obtain rfl | hslot := List.mem_cons.1 hslot
    · exact hfirst
    · exact ih hrest hslot

/-- The fields of a block that is read back are in canonical form. -/
theorem fields_layOne (ht : type.DeclaresOnce) {fields : List (String × FieldValue)}
    (hf : FieldsFit type board fields) (statements values : List (String × Option BlockId)) :
    (layOne type board n position next fields statements values).fields =
      canonicalFields board type fields := by
  have hnames : Entries.names (restoredFields type board fields) = Entries.names fields := by
    rw [restoredFields, Entries.names_map]
    rfl
  have hdistinct : Entries.Distinct (restoredFields type board fields) := by
    rw [Entries.Distinct, hnames]
    exact hf.1
  have hcanonical : Entries.names (canonicalFields board type fields) =
      type.fields.map FieldSpec.name := Entries.names_map ..
  have hfresh : Entries.ofList (type.fields.map fun spec => (spec.name, spec.defaultValue board)) =
      type.fields.map fun spec => (spec.name, spec.defaultValue board) :=
    Entries.ofList_map ht.fields _
  have hget : ∀ (g : FieldSpec → FieldValue), ∀ spec ∈ type.fields,
      Entries.get? (type.fields.map fun spec => (spec.name, g spec)) spec.name = some (g spec) := by
    intro g spec hspec
    rw [Entries.get?_eq_some]
    · exact List.mem_map_of_mem (f := fun spec => (FieldSpec.name spec, g spec)) hspec
    · rw [Entries.Distinct, Entries.names_map]
      exact ht.fields
  show Entries.write (Entries.ofList _) _ = _
  rw [hfresh]
  apply Entries.eq_of_get?
  · rw [Entries.Distinct, hcanonical]
    exact ht.fields
  · rw [hcanonical, Entries.names_write, Entries.names_map]
    intro name hname
    rw [hnames] at hname
    obtain ⟨⟨given, value⟩, hmem, rfl⟩ := List.mem_map.1 hname
    obtain ⟨spec, _, hspec, _⟩ := hf.2 given value hmem
    have hsame : spec.name = given := by simpa using List.find?_some hspec
    rw [Entries.names_map, ← hsame]
    exact List.mem_map_of_mem (List.mem_of_find?_eq_some hspec)
  · intro name hname
    rw [hcanonical] at hname
    obtain ⟨spec, hspec, rfl⟩ := List.mem_map.1 hname
    rw [Entries.get?_write hdistinct, hget _ spec hspec, canonicalFields, hget _ spec hspec]
    cases Entries.get? (restoredFields type board fields) spec.name <;> rfl

theorem names_layOne (ht : type.DeclaresOnce) {fields : List (String × FieldValue)}
    {statements values : List (String × Option BlockId)}
    (hs : ∀ slot ∈ Entries.names statements, slot ∈ type.sockets.statementSlots)
    (hv : ∀ slot ∈ Entries.names values, slot ∈ type.sockets.valueSlots.map ValueSlot.name) :
    (layOne type board n position next fields statements values).statements.names =
        type.sockets.statementSlots ∧
      (layOne type board n position next fields statements values).values.names =
        type.sockets.valueSlots.map ValueSlot.name := by
  have hstatements : (freshBlock type board ⟨n⟩ position).statements.names =
      type.sockets.statementSlots := by
    show Entries.names (Entries.ofList _) = _
    rw [Entries.ofList_map (f := fun slot => slot) (by simpa using ht.statementSlots),
      Entries.names_map]
    exact List.map_id _
  have hvalues : (freshBlock type board ⟨n⟩ position).values.names =
      type.sockets.valueSlots.map ValueSlot.name := by
    show Entries.names (Entries.ofList _) = _
    rw [Entries.ofList_map ht.valueSlots, Entries.names_map]
  constructor
  · show Entries.names (Entries.write _ _) = _
    rw [Entries.names_write (by rwa [hstatements]), hstatements]
  · show Entries.names (Entries.write _ _) = _
    rw [Entries.names_write (by rwa [hvalues]), hvalues]

theorem linked?_statement_layOne {fields : List (String × FieldValue)}
    {statements : List (String × Option BlockId)} (values : List (String × Option BlockId))
    (hd : Entries.Distinct statements) (slot : String) :
    (layOne type board n position next fields statements values).linked? (.statement slot) =
      (Entries.get? statements slot).join := by
  show (Entries.get? (Entries.write (Entries.ofList _) statements) slot).join = _
  rw [Entries.get?_write hd]
  cases Entries.get? statements slot with
  | some c => rfl
  | none => exact linked?_freshBlock type board ⟨n⟩ position (.statement slot)

theorem linked?_value_layOne {fields : List (String × FieldValue)}
    (statements : List (String × Option BlockId)) {values : List (String × Option BlockId)}
    (hd : Entries.Distinct values) (slot : String) :
    (layOne type board n position next fields statements values).linked? (.value slot) =
      (Entries.get? values slot).join := by
  show (Entries.get? (Entries.write (Entries.ofList _) values) slot).join = _
  rw [Entries.get?_write hd]
  cases Entries.get? values slot with
  | some c => rfl
  | none => exact linked?_freshBlock type board ⟨n⟩ position (.value slot)

/-! ### Reading off the layout -/

/-- The tree of a restored block is the block in canonical form, if what is attached
to it is. -/
theorem tree_layOne (hA : A.Forest) (ht : type.DeclaresOnce) {kind : String}
    (hget : registry.get? kind = some type) {fields : List (String × FieldValue)}
    (hfields : FieldsFit type board fields) {hs vs : List (String × Option BlockId)}
    (hfind : A.find? ⟨n⟩ = some (layOne type board n position next fields hs vs))
    (hdhs : Entries.Distinct hs) (hdvs : Entries.Distinct vs)
    (hslots : ∀ slot ∈ Entries.names hs, slot ∈ type.sockets.statementSlots)
    (hvalues : ∀ slot ∈ Entries.names vs, slot ∈ type.sockets.valueSlots.map ValueSlot.name)
    {statements : List (String × List StoredBlock)} {values : List (String × StoredBlock)}
    (hchains : ∀ slot, (Entries.get? hs slot).join.map A.chain =
      Entries.get? (canonicalSlots registry board statements) slot)
    (htrees : ∀ slot, ((Entries.get? vs slot).join.bind A.find?).map A.tree =
      Entries.get? (canonicalValues registry board values) slot) :
    A.tree (layOne type board n position next fields hs vs) =
      canonical registry board ⟨kind, fields, statements, values⟩ := by
  obtain ⟨hstatementNames, hvalueNames⟩ :
      (layOne type board n position next fields hs vs).statements.names =
          type.sockets.statementSlots ∧
        (layOne type board n position next fields hs vs).values.names =
          type.sockets.valueSlots.map ValueSlot.name := names_layOne ht hslots hvalues
  rw [hA.tree_eq_collect hfind, canonical, hget]
  congr 1
  · exact Registry.kind_of_get? hget
  · exact fields_layOne ht hfields hs vs
  · rw [hstatementNames]
    apply Entries.collect_congr
    intro slot _
    rw [Arena.linked?_of_find? hfind, linked?_statement_layOne vs hdhs slot]
    exact hchains slot
  · rw [hvalueNames]
    apply Entries.collect_congr
    intro slot _
    rw [Arena.linked?_of_find? hfind, linked?_value_layOne hs hdvs slot]
    exact htrees slot

mutual

/-- The tree of a block that has been laid out is the block in canonical form. -/
theorem tree_layBlock (hA : A.Forest) (hr : registry.DeclaresOnce) {n : Nat}
    {position : Position} {next : Option BlockId} :
    ∀ {s : StoredBlock}, s.Fits registry board →
      A.Holds (layBlock registry board n position next s) →
      ∃ d, A.find? ⟨n⟩ = some d ∧ d.next = next ∧ d.position = position ∧
        A.tree d = canonical registry board s
  | ⟨kind, fields, statements, values⟩, hfits, hholds => by
    obtain ⟨type, hget, hfields, hds, hslots, hdv, hvalues⟩ := hfits
    have hget : registry.get? kind = some type := hget
    have ht := hr hget
    rw [layBlock, hget] at hholds
    have hfirst := hholds _ (List.mem_cons_self ..)
    have hparts : A.Holds (laySlots registry board (n + 1) statements ++
        layValues registry board (n + 1 + countSlots statements) values) :=
      fun b hb => hholds b (List.mem_cons_of_mem _ hb)
    have hdvs : Entries.Distinct (plugs (n + 1 + countSlots statements) values) := by
      rw [Entries.Distinct, names_plugs]
      exact hdv
    refine ⟨_, hfirst, rfl, rfl, ?_⟩
    exact tree_layOne hA ht hget hfields hfirst (hds.sublist (names_heads _ _)) hdvs
      (fun slot h => mem_of_slotsFit hslots h)
      (fun slot h => mem_of_valuesFit hvalues (by rwa [names_plugs] at h))
      (chain_laySlots hA hr hslots hparts.left) (tree_layValues hA hr hvalues hparts.right)

theorem chain_layChain (hA : A.Forest) (hr : registry.DeclaresOnce) {n : Nat}
    {position : Position} : ∀ {chain : List StoredBlock} {place : Prop},
      ChainFits registry board place chain → A.Holds (layChain registry board n position chain) →
      ∀ x, first? n chain = some x → A.chain x = canonicalChain registry board chain
  | [], _, _, _, _, hx => by cases hx
  | b :: rest, _, hfits, hholds, x, hx => by
    obtain ⟨_, _, hb, hrest⟩ := hfits
    rw [layChain] at hholds
    obtain rfl := Option.some_inj.1 hx
    obtain ⟨d, hd, hnext, _, htree⟩ := tree_layBlock hA hr hb hholds.left
    have htail := chain_layChain hA hr hrest hholds.right
    rw [hA.chain_eq hd, htree, canonicalChain, Arena.rest, hnext]
    cases rest with
    | nil => rfl
    | cons c rest => exact congrArg _ (htail _ rfl)

theorem chain_laySlots (hA : A.Forest) (hr : registry.DeclaresOnce) {type : BlockType} {n : Nat} :
    ∀ {slots : List (String × List StoredBlock)}, SlotsFit registry board type slots →
      A.Holds (laySlots registry board n slots) → ∀ slot,
      (Entries.get? (heads n slots) slot).join.map A.chain =
        Entries.get? (canonicalSlots registry board slots) slot
  | [], _, _, _ => rfl
  | (_, []) :: rest, hfits, hholds, slot => by
    rw [laySlots] at hholds
    have hrest := chain_laySlots hA hr hfits.2 hholds.right slot
    rw [heads, canonicalSlots]
    exact hrest
  | (name, b :: chain) :: rest, hfits, hholds, slot => by
    rw [laySlots] at hholds
    have hchain := chain_layChain hA hr hfits.1 hholds.left _ rfl
    have hrest := chain_laySlots hA hr hfits.2 hholds.right slot
    rw [heads, canonicalSlots, Entries.get?_cons, Entries.get?_cons]
    split
    · show some (A.chain _) = _
      rw [hchain, canonicalChain]
    · exact hrest

theorem tree_layValues (hA : A.Forest) (hr : registry.DeclaresOnce) {type : BlockType} {n : Nat} :
    ∀ {values : List (String × StoredBlock)}, ValuesFit registry board type values →
      A.Holds (layValues registry board n values) → ∀ slot,
      ((Entries.get? (plugs n values) slot).join.bind A.find?).map A.tree =
        Entries.get? (canonicalValues registry board values) slot
  | [], _, _, _ => rfl
  | (name, b) :: rest, hfits, hholds, slot => by
    obtain ⟨_, _, hb, hrestFits⟩ := hfits
    rw [layValues] at hholds
    obtain ⟨d, hd, _, _, htree⟩ := tree_layBlock hA hr hb hholds.left
    have hrest := tree_layValues hA hr hrestFits hholds.right slot
    rw [plugs, canonicalValues, Entries.get?_cons, Entries.get?_cons]
    split
    · show (A.find? _).map _ = _
      rw [hd, Option.map_some, htree]
    · exact hrest

end

/-- Stacks that have been laid out are stored in canonical form. -/
theorem stacks_layCanvas (hA : A.Forest) (hr : registry.DeclaresOnce)
    {canvas : List StoredStack} (hfits : ∀ stack ∈ canvas, stack.Fits registry board)
    (hholds : A.Holds (layCanvas registry board n canvas)) :
    (stackHeads n canvas).map A.storedStack? = canvas.map fun stack =>
      some (stack.canonical registry board) := by
  induction canvas generalizing n with
  | nil => rfl
  | cons stack rest ih =>
    obtain ⟨first, chain, hblocks, hfirst, hchain⟩ := hfits stack (List.mem_cons_self ..)
    rw [layCanvas, hblocks] at hholds
    have hlaid := hholds.left
    rw [layChain] at hlaid
    obtain ⟨d, hd, hnext, hposition, htree⟩ := tree_layBlock hA hr hfirst hlaid.left
    have htail : A.rest d = canonicalChain registry board chain := by
      rw [Arena.rest, hnext]
      cases chain with
      | nil => rfl
      | cons b chain => exact chain_layChain hA hr hchain hlaid.right _ rfl
    have hrest := ih (fun s hs => hfits s (List.mem_cons_of_mem _ hs)) hholds.right
    rw [stackHeads, hblocks, List.map_cons, List.map_cons, hrest, storedStack?_eq_some hd,
      hA.chain_eq hd, htree, htail, hposition, StoredStack.canonical, hblocks, canonicalChain]

end Workspace

end BlockSketch
