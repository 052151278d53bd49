import BlockSketch.Proofs.Snapshot.Reload
import BlockSketch.Proofs.Snapshot.Reordered
import BlockSketch.Proofs.Typing.Taken

/-!
Which snapshots are programs. `Snapshot.WellFormed` says it without the reader,
as a list of rules about the snapshot alone: the version, the board, every block
by itself, what comes after what in a stack, and where the roots are. With the
builtin types these are the snapshots that are rebuilt; from the value of any
other one, a new program is begun.
-/

namespace BlockSketch

/-- How the graph treats blocks of a kind, if the kind is registered. -/
def Registry.category? (registry : Registry) (kind : String) : Option Category :=
  (registry.get? kind).map BlockType.category

namespace StoredBlock

def IsStatement (b : StoredBlock) : Prop :=
  Registry.builtin.category? b.kind = some .statement

def IsValue (b : StoredBlock) : Prop :=
  Registry.builtin.category? b.kind = some .value

def IsRoot (b : StoredBlock) : Prop :=
  ∃ root, Registry.builtin.category? b.kind = some (.root root)

mutual

def inside : StoredBlock → List StoredBlock
  | ⟨_, _, statements, values⟩ => slotsInside statements ++ valuesInside values

def chainInside : List StoredBlock → List StoredBlock
  | [] => []
  | b :: rest => b :: (b.inside ++ chainInside rest)

def slotsInside : List (String × List StoredBlock) → List StoredBlock
  | [] => []
  | (_, chain) :: rest => chainInside chain ++ slotsInside rest

def valuesInside : List (String × StoredBlock) → List StoredBlock
  | [] => []
  | (_, b) :: rest => b :: (b.inside ++ valuesInside rest)

end

/-- What a type asks of its blocks: fields are declared and take their values,
chains of statements are in statement slots, and values in value slots. -/
structure Obeys (b : StoredBlock) (type : BlockType) : Prop where
  fields : ∀ field ∈ b.fields, ∃ spec, type.field? field.1 = some spec ∧ spec.Takes field.2
  statements : ∀ slot ∈ b.statements, slot.2 ≠ [] →
    slot.1 ∈ type.sockets.statementSlots ∧ ∀ c ∈ slot.2, c.IsStatement
  values : ∀ slot ∈ b.values,
    slot.1 ∈ type.sockets.valueSlots.map ValueSlot.name ∧ slot.2.IsValue

def Proper (b : StoredBlock) : Prop :=
  ∃ type, Registry.builtin.get? b.kind = some type ∧ b.Obeys type

end StoredBlock

/-- A stack whose blocks may stand where they do: after the first one, each is a
statement and comes after one; a root is the only block of its stack, and none is
inside another block. -/
structure StoredStack.WellFormed (stack : StoredStack) : Prop where
  filled : stack.blocks ≠ []
  proper : ∀ b ∈ StoredBlock.chainInside stack.blocks, b.Proper
  chained : stack.blocks.IsChain fun a b => a.IsStatement ∧ b.IsStatement
  rootsAlone : ∀ b ∈ stack.blocks, b.IsRoot → stack.blocks = [b]
  rootsOutside : ∀ b ∈ stack.blocks, ∀ c ∈ b.inside, ¬ c.IsRoot

/-- A snapshot that is a program. No root begins two of its stacks. -/
structure Snapshot.WellFormed (s : Snapshot) : Prop where
  version : s.version ≤ 1
  board : ∃ board ∈ Board.all, board.id = s.board
  canvas : ∀ stack ∈ s.canvas, stack.WellFormed
  rootsOnce : s.canvas.Pairwise fun earlier later =>
    ∀ a ∈ earlier.blocks, ∀ b ∈ later.blocks, a.IsRoot → b.kind ≠ a.kind

/-! ### Kinds -/

namespace Library

/-- What the category of a builtin type says about its sockets. -/
theorem sockets_of_category : ∀ type ∈ types,
    (type.isChainable = true ↔ type.category = .statement) ∧
    (type.isPluggable = true ↔ type.category = .value) ∧
    (type.sockets.next = true ↔ type.category = .statement) ∧
    (type.category = .statement ∨ type.category = .value →
      RootKind.ofKindName? type.kind = none) := by
  decide

end Library

namespace StoredBlock

variable {b : StoredBlock} {type : BlockType}

theorem builtin_category {kind : String} {category : Category} :
    Registry.builtin.category? kind = some category ↔
      ∃ type, Registry.builtin.get? kind = some type ∧ type.category = category :=
  Option.map_eq_some_iff

/-- The category of a kind is told by what the builtin types of this category have
and no others. -/
theorem exists_type_iff {kind : String} {category : Category} {has : BlockType → Bool}
    (h : ∀ type ∈ Library.types, has type = true ↔ type.category = category) :
    (∃ type, Registry.builtin.get? kind = some type ∧ has type = true) ↔
      Registry.builtin.category? kind = some category := by
  rw [builtin_category]
  exact exists_congr fun type =>
    and_congr_right fun hget => h type (Registry.mem_of_get?_ofList hget)

theorem ofKindName?_of_category {kind : String} {category : Category}
    (h : Registry.builtin.category? kind = some category)
    (hcategory : category = .statement ∨ category = .value) :
    RootKind.ofKindName? kind = none := by
  obtain ⟨type, hget, rfl⟩ := builtin_category.1 h
  rw [← Registry.kind_of_get? hget]
  exact (Library.sockets_of_category type (Registry.mem_of_get?_ofList hget)).2.2.2 hcategory

theorem chains_iff : Registry.builtin.Chains b.kind ↔ b.IsStatement := by
  rw [Registry.Chains, exists_type_iff fun type h => (Library.sockets_of_category type h).1]
  exact and_iff_right_of_imp fun h => ofKindName?_of_category h (.inl rfl)

theorem plugs_iff : Registry.builtin.Plugs b.kind ↔ b.IsValue := by
  rw [Registry.Plugs, exists_type_iff fun type h => (Library.sockets_of_category type h).2.1]
  exact and_iff_right_of_imp fun h => ofKindName?_of_category h (.inr rfl)

theorem continues_iff : Registry.builtin.Continues b.kind ↔ b.IsStatement :=
  exists_type_iff fun type h => (Library.sockets_of_category type h).2.2.1

theorem IsStatement.not_isRoot (h : b.IsStatement) : ¬ b.IsRoot := by
  rintro ⟨root, hroot⟩
  cases h.symm.trans hroot

theorem IsValue.not_isRoot (h : b.IsValue) : ¬ b.IsRoot := by
  rintro ⟨root, hroot⟩
  cases h.symm.trans hroot

/-- The roots are the blocks of the two root kinds. -/
theorem isRoot_iff : b.IsRoot ↔ ∃ root : RootKind, b.kind = root.kindName := by
  constructor
  · rintro ⟨root, hroot⟩
    obtain ⟨type, hget, hcategory⟩ := builtin_category.1 hroot
    refine ⟨root, ?_⟩
    rw [← Registry.kind_of_get? hget]
    exact (Registry.regular_builtin hget).roots root (by rw [BlockType.rootKind?, hcategory])
  · rintro ⟨root, hkind⟩
    obtain ⟨type, hget, hcategory⟩ := Workspace.hasRoots_builtin root
    exact ⟨root, by rw [hkind, Registry.category?, hget, Option.map_some, hcategory]⟩

/-! ### Blocks -/

theorem fieldsFit_iff {board : Board} {fields : List (String × FieldValue)}
    (h : Entries.Distinct fields) : FieldsFit type board fields ↔
      ∀ field ∈ fields, ∃ spec, type.field? field.1 = some spec ∧ spec.Takes field.2 := by
  simp only [FieldsFit, iff_true_intro h, true_and, Prod.forall, exists_and_left,
    FieldSpec.restorable_iff_takes]

def AllInside (blocks : List StoredBlock) : Prop :=
  ∀ b ∈ blocks, b.Proper ∧ ¬ b.IsRoot

theorem allInside_append {blocks more : List StoredBlock} :
    AllInside (blocks ++ more) ↔ AllInside blocks ∧ AllInside more :=
  List.forall_mem_append

theorem allInside_cons {blocks : List StoredBlock} :
    AllInside (b :: blocks) ↔ (b.Proper ∧ ¬ b.IsRoot) ∧ AllInside blocks :=
  List.forall_mem_cons

mutual

/-- A block fits if it and what is inside it is proper, and no root is inside it. -/
theorem fits_iff {board : Board} : ∀ {b : StoredBlock}, b.Named →
    (b.Fits .builtin board ↔ b.Proper ∧ AllInside b.inside)
  | ⟨kind, fields, statements, values⟩, ⟨hfields, hds, hslots, hdv, hvalues⟩ => by
    have hparts : ∀ type, FieldsFit type board fields ∧ Entries.Distinct statements ∧
        SlotsFit .builtin board type statements ∧ Entries.Distinct values ∧
        ValuesFit .builtin board type values ↔
        Obeys ⟨kind, fields, statements, values⟩ type ∧
          AllInside (slotsInside statements ++ valuesInside values) := by
      intro type
      rw [fieldsFit_iff hfields, slotsFit_iff_inside hslots, valuesFit_iff_inside hvalues,
        allInside_append]
      constructor
      · rintro ⟨hf, _, ⟨hs, hsin⟩, _, hv, hvin⟩
        exact ⟨⟨hf, hs, hv⟩, hsin, hvin⟩
      · rintro ⟨⟨hf, hs, hv⟩, hsin, hvin⟩
        exact ⟨hf, hds, ⟨hs, hsin⟩, hdv, hv, hvin⟩
    simp only [Fits, hparts, Proper, inside]
    simp only [← and_assoc, exists_and_right]

theorem chainFits_iff {board : Board} : ∀ {chain : List StoredBlock} {place : Prop},
    NamedChain chain → (ChainFits .builtin board place chain ↔
      (chain ≠ [] → place) ∧ (∀ b ∈ chain, b.IsStatement) ∧ AllInside (chainInside chain))
  | [], _, _ => by simp [ChainFits, chainInside, AllInside]
  | b :: rest, place, ⟨hb, hrest⟩ => by
    rw [ChainFits, chains_iff, continues_iff, fits_iff hb, chainFits_iff hrest, chainInside,
      allInside_cons, allInside_append, List.forall_mem_cons]
    constructor
    · rintro ⟨hplace, hstatement, ⟨hproper, hin⟩, _, hall, hinRest⟩
      exact ⟨fun _ => hplace, ⟨hstatement, hall⟩, ⟨hproper, hstatement.not_isRoot⟩, hin, hinRest⟩
    · rintro ⟨hplace, ⟨hstatement, hall⟩, ⟨hproper, _⟩, hin, hinRest⟩
      exact ⟨hplace (List.cons_ne_nil _ _), hstatement, ⟨hproper, hin⟩, fun _ => hstatement, hall,
        hinRest⟩

theorem slotsFit_iff_inside {board : Board} : ∀ {slots : List (String × List StoredBlock)}
    {type : BlockType}, NamedSlots slots → (SlotsFit .builtin board type slots ↔
      (∀ slot ∈ slots, slot.2 ≠ [] →
        slot.1 ∈ type.sockets.statementSlots ∧ ∀ b ∈ slot.2, b.IsStatement) ∧
      AllInside (slotsInside slots))
  | [], _, _ => by simp [SlotsFit, slotsInside, AllInside]
  | (slot, chain) :: rest, type, ⟨hchain, hrest⟩ => by
    rw [SlotsFit, chainFits_iff hchain, slotsFit_iff_inside hrest, slotsInside, allInside_append,
      List.forall_mem_cons]
    have hempty : (chain ≠ [] → slot ∈ type.sockets.statementSlots ∧ ∀ b ∈ chain, b.IsStatement) ↔
        (chain ≠ [] → slot ∈ type.sockets.statementSlots) ∧ ∀ b ∈ chain, b.IsStatement := by
      cases chain <;> simp
    rw [hempty]
    constructor
    · rintro ⟨⟨hplace, hstatements, hin⟩, hslots, hinRest⟩
      exact ⟨⟨⟨hplace, hstatements⟩, hslots⟩, hin, hinRest⟩
    · rintro ⟨⟨⟨hplace, hstatements⟩, hslots⟩, hin, hinRest⟩
      exact ⟨⟨hplace, hstatements, hin⟩, hslots, hinRest⟩

theorem valuesFit_iff_inside {board : Board} : ∀ {values : List (String × StoredBlock)}
    {type : BlockType}, NamedValues values → (ValuesFit .builtin board type values ↔
      (∀ slot ∈ values,
        slot.1 ∈ type.sockets.valueSlots.map ValueSlot.name ∧ slot.2.IsValue) ∧
      AllInside (valuesInside values))
  | [], _, _ => by simp [ValuesFit, valuesInside, AllInside]
  | (slot, b) :: rest, type, ⟨hb, hrest⟩ => by
    rw [ValuesFit, plugs_iff, fits_iff hb, valuesFit_iff_inside hrest, valuesInside,
      allInside_cons, allInside_append, List.forall_mem_cons]
    constructor
    · rintro ⟨hplace, hvalue, ⟨hproper, hin⟩, hslots, hinRest⟩
      exact ⟨⟨⟨hplace, hvalue⟩, hslots⟩, ⟨hproper, hvalue.not_isRoot⟩, hin, hinRest⟩
    · rintro ⟨⟨⟨hplace, hvalue⟩, hslots⟩, ⟨hproper, _⟩, hin, hinRest⟩
      exact ⟨hplace, hvalue, ⟨hproper, hin⟩, hslots, hinRest⟩

end

end StoredBlock

/-! ### Stacks and snapshots -/

namespace StoredBlock

variable {chain : List StoredBlock} {b c : StoredBlock}

theorem mem_chainInside : c ∈ chainInside chain ↔ ∃ b ∈ chain, c = b ∨ c ∈ b.inside := by
  induction chain with
  | nil => simp [chainInside]
  | cons b rest ih =>
    rw [chainInside, List.mem_cons, List.mem_append, ih, List.exists_mem_cons_iff, or_assoc]

theorem isChain_cons_iff :
    (b :: chain).IsChain (fun a b => a.IsStatement ∧ b.IsStatement) ↔
      (chain ≠ [] → b.IsStatement) ∧ ∀ c ∈ chain, c.IsStatement := by
  induction chain generalizing b with
  | nil => simp
  | cons c rest ih =>
    rw [List.isChain_cons_cons, ih, List.forall_mem_cons]
    constructor
    · rintro ⟨⟨hb, hc⟩, _, hrest⟩
      exact ⟨fun _ => hb, hc, hrest⟩
    · rintro ⟨hb, hc, hrest⟩
      exact ⟨⟨hb (List.cons_ne_nil _ _), hc⟩, fun _ => hc, hrest⟩

end StoredBlock

open StoredBlock

/-- A stack fits if its blocks may stand where they do. -/
theorem StoredStack.fits_iff_wellFormed {stack : StoredStack} {board : Board}
    (h : NamedChain stack.blocks) :
    stack.Fits .builtin board ↔ stack.WellFormed := by
  obtain ⟨x, y, blocks⟩ := stack
  cases blocks with
  | nil => exact ⟨fun ⟨_, _, hblocks, _⟩ => (by cases hblocks), fun hw => absurd rfl hw.filled⟩
  | cons first chain =>
    rw [fits_cons, fits_iff h.1, continues_iff, chainFits_iff h.2]
    constructor
    · rintro ⟨⟨hfirst, hin⟩, hcontinues, hstatements, hrest⟩
      constructor
      case filled => exact List.cons_ne_nil _ _
      case proper =>
        refine List.forall_mem_cons.2 ⟨hfirst, List.forall_mem_append.2 ⟨?_, ?_⟩⟩
        · exact fun c hc => (hin c hc).1
        · exact fun c hc => (hrest c hc).1
      case chained => exact isChain_cons_iff.2 ⟨hcontinues, hstatements⟩
      case rootsAlone =>
        refine List.forall_mem_cons.2 ⟨fun hroot => ?_, fun b hb hroot => ?_⟩
        · by_contra hmore
          exact (hcontinues fun hnil => hmore (by rw [hnil])).not_isRoot hroot
        · exact absurd hroot (hstatements b hb).not_isRoot
      case rootsOutside =>
        refine List.forall_mem_cons.2 ⟨fun c hc => (hin c hc).2, fun b hb c hc => ?_⟩
        exact (hrest c (mem_chainInside.2 ⟨b, hb, .inr hc⟩)).2
    · rintro ⟨_, hproper, hchained, _, hout⟩
      obtain ⟨hcontinues, hstatements⟩ := isChain_cons_iff.1 hchained
      obtain ⟨hfirst, hproper⟩ := List.forall_mem_cons.1 hproper
      obtain ⟨hin, hrest⟩ := List.forall_mem_append.1 hproper
      obtain ⟨houtFirst, hout⟩ := List.forall_mem_cons.1 hout
      refine ⟨⟨hfirst, fun c hc => ⟨hin c hc, houtFirst c hc⟩⟩, hcontinues, hstatements,
        fun c hc => ⟨hrest c hc, ?_⟩⟩
      obtain ⟨b, hb, rfl | hc⟩ := mem_chainInside.1 hc
      · exact (hstatements c hb).not_isRoot
      · exact hout b hb c hc

namespace Snapshot

/-- In stacks that are well formed, a root comes twice if two of them begin with it. -/
theorem rootsOnce_iff {canvas : List StoredStack} (h : ∀ stack ∈ canvas, stack.WellFormed) :
    RootsOnce canvas ↔ canvas.Pairwise fun earlier later =>
      ∀ a ∈ earlier.blocks, ∀ b ∈ later.blocks, a.IsRoot → b.kind ≠ a.kind := by
  rw [RootsOnce, List.pairwise_map]
  refine List.Pairwise.iff_of_mem fun {earlier later} hearlier hlater => ⟨?_, ?_⟩
  · intro honce a ha b hb haroot hsame
    obtain ⟨root, hkind⟩ := isRoot_iff.1 haroot
    have hbroot : b.IsRoot := isRoot_iff.2 ⟨root, hsame.trans hkind⟩
    refine honce root ?_ ?_
    · rw [StoredStack.headKind?, (h earlier hearlier).rootsAlone a ha haroot, ← hkind]
      rfl
    · rw [StoredStack.headKind?, (h later hlater).rootsAlone b hb hbroot, ← hkind, ← hsame]
      rfl
  · intro honce root hearlier' hlater'
    obtain ⟨a, ha, hakind⟩ := Option.map_eq_some_iff.1 hearlier'
    obtain ⟨b, hb, hbkind⟩ := Option.map_eq_some_iff.1 hlater'
    exact honce a (List.mem_of_mem_head? ha) b (List.mem_of_mem_head? hb)
      (isRoot_iff.2 ⟨root, hakind⟩) (hbkind.trans hakind.symm)

theorem wellFormed_iff_fits {s : Snapshot} (h : s.Named) :
    s.WellFormed ↔ s.version ≤ currentVersion ∧ ∃ board, Board.find? s.board = some board ∧
      (∀ stack ∈ s.canvas, stack.Fits .builtin board) ∧ RootsOnce s.canvas := by
  have hfits : ∀ board, (∀ stack ∈ s.canvas, stack.Fits .builtin board) ↔
      ∀ stack ∈ s.canvas, stack.WellFormed :=
    fun board => forall₂_congr fun stack hmem => StoredStack.fits_iff_wellFormed (h stack hmem)
  simp only [hfits]
  constructor
  · rintro ⟨hversion, ⟨board, hboard, hid⟩, hstacks, honce⟩
    have hknown : (Board.find? s.board).isSome := by
      rw [Board.find?, List.find?_isSome]
      exact ⟨board, hboard, by simpa using hid⟩
    obtain ⟨found, hfound⟩ := Option.isSome_iff_exists.1 hknown
    exact ⟨hversion, found, hfound, hstacks, (rootsOnce_iff hstacks).2 honce⟩
  · rintro ⟨hversion, board, hboard, hstacks, hroots⟩
    exact ⟨hversion, ⟨board, Board.mem_all_of_find? hboard, Board.id_of_find? hboard⟩, hstacks,
      (rootsOnce_iff hstacks).1 hroots⟩

end Snapshot

namespace Workspace

variable {registry : Registry} {s : Snapshot}

/-- A snapshot is rebuilt or not, whatever the order of its names. -/
theorem restores_sorted (hr : registry.HasRoots) (hregular : registry.Regular) (h : s.Named) :
    (∃ w, restore registry s.sorted = .ok w) ↔ ∃ w, restore registry s = .ok w := by
  have hsorted := Snapshot.reordered_sorted h
  rw [restores_iff_fits hr hregular (hsorted.named_iff.2 h), restores_iff_fits hr hregular h,
    Snapshot.RootsOnce, Snapshot.RootsOnce, hsorted.headKinds]
  simp only [hsorted.fits_iff]
  rfl

/-- A snapshot is rebuilt if and only if it is well formed. From the value of any
other one, a new program is begun: the two roots on the default board, and
nothing in them. Fields and slots of a stored block are kept by name, so that no
name comes twice (`Snapshot.Named`). -/
theorem restores_iff_wellFormed (h : s.Named) :
    ((∃ w, restore .builtin s = .ok w) ↔ s.WellFormed) ∧
      (¬ s.WellFormed → loadValue .builtin s.toValue = onDefaultBoard .builtin ∧
        (loadValue .builtin s.toValue).board = Board.default ∧
        (loadValue .builtin s.toValue).arena.map Block.kind =
          [RootKind.setup.kindName, RootKind.loop.kindName] ∧
        ∀ b ∈ (loadValue .builtin s.toValue).arena, b.children = []) := by
  have hiff : (∃ w, restore .builtin s = .ok w) ↔ s.WellFormed :=
    (restores_iff_fits hasRoots_builtin Registry.regular_builtin h).trans
      (Snapshot.wellFormed_iff_fits h).symm
  refine ⟨hiff, fun hnot => ?_⟩
  rw [← hiff, ← restores_sorted hasRoots_builtin Registry.regular_builtin h] at hnot
  have hload : loadValue .builtin s.toValue = onDefaultBoard .builtin := by
    rw [loadValue, Snapshot.ofValue?_toValue h, restoreOrNew]
    split
    · exact absurd ⟨_, ‹_›⟩ hnot
    · rfl
  rw [hload]
  exact ⟨rfl, rfl, by decide, by decide⟩

/-- Repetitions inside each other are rebuilt; two loops are not, and from their
value a new program is begun. -/
theorem restores_iff_wellFormed_of_loops :
    let loop : StoredBlock := ⟨"root_loop", [], [], []⟩
    let twice : Snapshot := ⟨1, "nano", [⟨0, 0, [loop]⟩, ⟨0, 90, [loop]⟩]⟩
    (Snapshot.nested 2).Named ∧ (Snapshot.nested 2).WellFormed ∧ twice.Named ∧
      ¬ twice.WellFormed ∧ (¬ ∃ w, restore .builtin twice = .ok w) ∧
      loadValue .builtin twice.toValue = onDefaultBoard .builtin := by
  intro loop twice
  have hsettled := Snapshot.settled_nested 2
  obtain ⟨w, hw, _⟩ := restore_of_settled hsettled Registry.regular_builtin.declaresOnce
  have hnamed : twice.Named := by
    simp [twice, loop, Snapshot.Named, NamedChain, Named, NamedSlots, NamedValues,
      Entries.distinct_nil]
  have hnot : ¬ twice.WellFormed := by
    intro h
    have honce := (List.pairwise_cons.1 h.rootsOnce).1 _ (List.mem_singleton_self _)
    exact honce loop (List.mem_singleton_self _) loop (List.mem_singleton_self _)
      (isRoot_iff.2 ⟨.loop, rfl⟩) rfl
  exact ⟨hsettled.named, (restores_iff_wellFormed hsettled.named).1.1 ⟨w, hw⟩, hnamed, hnot,
    fun h => hnot ((restores_iff_wellFormed hnamed).1.1 h),
    ((restores_iff_wellFormed hnamed).2 hnot).1⟩

end Workspace

end BlockSketch
