import BlockSketch.Proofs.Snapshot.Canonical
import BlockSketch.Proofs.Snapshot.Sorted
import BlockSketch.Proofs.Snapshot.Vetted

/-!
Snapshots whose names come in another order. A text gives the fields and slots of
a block in the order in which they were written, a value in the order of their
names, so that one program arrives as different snapshots. What differs is said
by `Reordered`: at any depth, the fields of a block, its statement slots and its
value slots may each stand in another order; chains and stacks may not. Whether a
snapshot fits, and what its canonical form is, stays the same.
-/

namespace BlockSketch

mutual

/-- The same block with its fields and slots in another order, at any depth. -/
inductive StoredBlock.Reordered : StoredBlock → StoredBlock → Prop
  | block {kind : String} {fields fields' : List (String × FieldValue)}
      {statements slots statements' : List (String × List StoredBlock)}
      {values expressions values' : List (String × StoredBlock)}
      (hfields : fields.Perm fields')
      (hslots : SlotsReordered statements slots) (hstatements : slots.Perm statements')
      (hexpressions : ValuesReordered values expressions) (hvalues : expressions.Perm values') :
      StoredBlock.Reordered ⟨kind, fields, statements, values⟩
        ⟨kind, fields', statements', values'⟩

inductive StoredBlock.ChainReordered : List StoredBlock → List StoredBlock → Prop
  | nil : ChainReordered [] []
  | cons {b b' : StoredBlock} {rest rest' : List StoredBlock} (hb : b.Reordered b')
      (hrest : ChainReordered rest rest') : ChainReordered (b :: rest) (b' :: rest')

inductive StoredBlock.SlotsReordered :
    List (String × List StoredBlock) → List (String × List StoredBlock) → Prop
  | nil : SlotsReordered [] []
  | cons {slot : String} {chain chain' : List StoredBlock}
      {rest rest' : List (String × List StoredBlock)} (hchain : ChainReordered chain chain')
      (hrest : SlotsReordered rest rest') :
      SlotsReordered ((slot, chain) :: rest) ((slot, chain') :: rest')

inductive StoredBlock.ValuesReordered :
    List (String × StoredBlock) → List (String × StoredBlock) → Prop
  | nil : ValuesReordered [] []
  | cons {slot : String} {b b' : StoredBlock} {rest rest' : List (String × StoredBlock)}
      (hb : b.Reordered b') (hrest : ValuesReordered rest rest') :
      ValuesReordered ((slot, b) :: rest) ((slot, b') :: rest')

end

namespace StoredBlock

theorem Reordered.kind {b b' : StoredBlock} (h : b.Reordered b') : b'.kind = b.kind := by
  cases h
  rfl

theorem SlotsReordered.names : ∀ {slots slots' : List (String × List StoredBlock)},
    SlotsReordered slots slots' → Entries.names slots' = Entries.names slots
  | _, _, .nil => rfl
  | _, _, .cons _ hrest => by rw [Entries.names_cons, Entries.names_cons, hrest.names]

theorem ValuesReordered.names : ∀ {values values' : List (String × StoredBlock)},
    ValuesReordered values values' → Entries.names values' = Entries.names values
  | _, _, .nil => rfl
  | _, _, .cons _ hrest => by rw [Entries.names_cons, Entries.names_cons, hrest.names]

end StoredBlock

structure StoredStack.Reordered (stack stack' : StoredStack) : Prop where
  x : stack'.x = stack.x
  y : stack'.y = stack.y
  blocks : StoredBlock.ChainReordered stack.blocks stack'.blocks

/-- The same snapshot with the fields and slots of its blocks in another order, at
any depth. -/
structure Snapshot.Reordered (s s' : Snapshot) : Prop where
  version : s'.version = s.version
  board : s'.board = s.board
  canvas : List.Forall₂ StoredStack.Reordered s.canvas s'.canvas

/-! ### Sorting is a reordering -/

namespace StoredBlock

mutual

theorem reordered_sorted : ∀ {b : StoredBlock}, b.Named → b.Reordered b.sorted
  | ⟨_, _, _, _⟩, ⟨hfields, hds, hslots, hdv, hvalues⟩ =>
    .block (Entries.sorted_perm hfields).symm
      (slotsReordered_sorted hslots) (Entries.sorted_perm (distinct_sortedSlots.2 hds)).symm
      (valuesReordered_sorted hvalues) (Entries.sorted_perm (distinct_sortedValues.2 hdv)).symm

theorem chainReordered_sorted : ∀ {chain : List StoredBlock}, NamedChain chain →
    ChainReordered chain (sortedChain chain)
  | [], _ => .nil
  | _ :: _, ⟨hb, hrest⟩ => .cons (reordered_sorted hb) (chainReordered_sorted hrest)

theorem slotsReordered_sorted : ∀ {slots : List (String × List StoredBlock)}, NamedSlots slots →
    SlotsReordered slots (sortedSlots slots)
  | [], _ => .nil
  | (_, _) :: _, ⟨hchain, hrest⟩ =>
    .cons (chainReordered_sorted hchain) (slotsReordered_sorted hrest)

theorem valuesReordered_sorted : ∀ {values : List (String × StoredBlock)}, NamedValues values →
    ValuesReordered values (sortedValues values)
  | [], _ => .nil
  | (_, _) :: _, ⟨hb, hrest⟩ => .cons (reordered_sorted hb) (valuesReordered_sorted hrest)

end

end StoredBlock

theorem Snapshot.reordered_sorted {s : Snapshot} (h : s.Named) : s.Reordered s.sorted := by
  refine ⟨rfl, rfl, List.forall₂_map_right_iff.2 (List.forall₂_same.2 fun stack hmem => ?_)⟩
  exact ⟨rfl, rfl, StoredBlock.chainReordered_sorted (h stack hmem)⟩

/-! ### Names -/

namespace StoredBlock

theorem namedSlots_iff {slots : List (String × List StoredBlock)} :
    NamedSlots slots ↔ ∀ e ∈ slots, NamedChain e.2 := by
  induction slots with
  | nil => simp [NamedSlots]
  | cons entry rest ih => rw [NamedSlots, ih, List.forall_mem_cons]

theorem namedValues_iff {values : List (String × StoredBlock)} :
    NamedValues values ↔ ∀ e ∈ values, e.2.Named := by
  induction values with
  | nil => simp [NamedValues]
  | cons entry rest ih => rw [NamedValues, ih, List.forall_mem_cons]

theorem namedSlots_perm {slots slots' : List (String × List StoredBlock)}
    (h : slots.Perm slots') : NamedSlots slots' ↔ NamedSlots slots := by
  simp only [namedSlots_iff, h.mem_iff]

theorem namedValues_perm {values values' : List (String × StoredBlock)}
    (h : values.Perm values') : NamedValues values' ↔ NamedValues values := by
  simp only [namedValues_iff, h.mem_iff]

theorem SlotsReordered.distinct_iff
    {statements slots statements' : List (String × List StoredBlock)}
    (h : SlotsReordered statements slots) (hperm : slots.Perm statements') :
    Entries.Distinct statements' ↔ Entries.Distinct statements :=
  (Entries.distinct_perm hperm).trans (Entries.distinct_congr h.names)

theorem ValuesReordered.distinct_iff {values expressions values' : List (String × StoredBlock)}
    (h : ValuesReordered values expressions) (hperm : expressions.Perm values') :
    Entries.Distinct values' ↔ Entries.Distinct values :=
  (Entries.distinct_perm hperm).trans (Entries.distinct_congr h.names)

mutual

/-- Names that come once come once in another order. -/
theorem Reordered.named_iff : ∀ {b b' : StoredBlock}, b.Reordered b' → (b'.Named ↔ b.Named)
  | _, _, .block hperm hs hps hv hpv => by
    simp only [Named, Entries.distinct_perm hperm, hs.distinct_iff hps, hv.distinct_iff hpv,
      namedSlots_perm hps, namedValues_perm hpv, hs.named_iff, hv.named_iff]

theorem ChainReordered.named_iff : ∀ {chain chain' : List StoredBlock},
    ChainReordered chain chain' → (NamedChain chain' ↔ NamedChain chain)
  | _, _, .nil => Iff.rfl
  | _, _, .cons hb hrest => by rw [NamedChain, NamedChain, hb.named_iff, hrest.named_iff]

theorem SlotsReordered.named_iff : ∀ {slots slots' : List (String × List StoredBlock)},
    SlotsReordered slots slots' → (NamedSlots slots' ↔ NamedSlots slots)
  | _, _, .nil => Iff.rfl
  | _, _, .cons hchain hrest => by
    rw [NamedSlots, NamedSlots, hchain.named_iff, hrest.named_iff]

theorem ValuesReordered.named_iff : ∀ {values values' : List (String × StoredBlock)},
    ValuesReordered values values' → (NamedValues values' ↔ NamedValues values)
  | _, _, .nil => Iff.rfl
  | _, _, .cons hb hrest => by rw [NamedValues, NamedValues, hb.named_iff, hrest.named_iff]

end

end StoredBlock

namespace Snapshot.Reordered

variable {s s' : Snapshot}

/-- What holds of a stack whatever the order of its names holds of all stacks in
either order. -/
theorem forall_stacks_iff (h : s.Reordered s') {P : StoredStack → Prop}
    (hP : ∀ {stack stack' : StoredStack}, stack.Reordered stack' → (P stack' ↔ P stack)) :
    (∀ stack ∈ s'.canvas, P stack) ↔ ∀ stack ∈ s.canvas, P stack := by
  obtain ⟨_, _, hcanvas⟩ := h
  generalize s.canvas = canvas, s'.canvas = canvas' at hcanvas
  induction hcanvas with
  | nil => exact Iff.rfl
  | cons hstack _ ih => rw [List.forall_mem_cons, List.forall_mem_cons, hP hstack, ih]

theorem named_iff (h : s.Reordered s') : s'.Named ↔ s.Named :=
  h.forall_stacks_iff fun hstack => hstack.blocks.named_iff

end Snapshot.Reordered

/-! ### Fitting -/

namespace StoredBlock

open Workspace

variable {registry : Registry} {board : Board} {type : BlockType}

theorem slotsFit_iff {slots : List (String × List StoredBlock)} :
    SlotsFit registry board type slots ↔
      ∀ e ∈ slots, ChainFits registry board (e.1 ∈ type.sockets.statementSlots) e.2 := by
  induction slots with
  | nil => simp [SlotsFit]
  | cons entry rest ih => rw [SlotsFit, ih, List.forall_mem_cons]

theorem valuesFit_iff {values : List (String × StoredBlock)} :
    ValuesFit registry board type values ↔
      ∀ e ∈ values, e.1 ∈ type.sockets.valueSlots.map ValueSlot.name ∧ registry.Plugs e.2.kind ∧
        e.2.Fits registry board := by
  induction values with
  | nil => simp [ValuesFit]
  | cons entry rest ih => rw [ValuesFit, ih, List.forall_mem_cons, and_assoc, and_assoc]

theorem slotsFit_perm {slots slots' : List (String × List StoredBlock)} (h : slots.Perm slots') :
    SlotsFit registry board type slots' ↔ SlotsFit registry board type slots := by
  simp only [slotsFit_iff, h.mem_iff]

theorem valuesFit_perm {values values' : List (String × StoredBlock)} (h : values.Perm values') :
    ValuesFit registry board type values' ↔ ValuesFit registry board type values := by
  simp only [valuesFit_iff, h.mem_iff]

theorem fieldsFit_perm {fields fields' : List (String × FieldValue)} (h : fields.Perm fields') :
    FieldsFit type board fields' ↔ FieldsFit type board fields := by
  simp only [FieldsFit, Entries.distinct_perm h, h.mem_iff]

mutual

/-- Whether a block fits has nothing to do with the order of its names. -/
theorem Reordered.fits_iff : ∀ {b b' : StoredBlock}, b.Reordered b' →
    (b'.Fits registry board ↔ b.Fits registry board)
  | _, _, .block hperm hs hps hv hpv => by
    simp only [Fits, fieldsFit_perm hperm, hs.distinct_iff hps, hv.distinct_iff hpv,
      slotsFit_perm hps, valuesFit_perm hpv, hs.fit_iff, hv.fit_iff]

theorem ChainReordered.fits_iff : ∀ {chain chain' : List StoredBlock} {place : Prop},
    ChainReordered chain chain' →
    (ChainFits registry board place chain' ↔ ChainFits registry board place chain)
  | _, _, _, .nil => Iff.rfl
  | _, _, _, .cons hb hrest => by
    rw [ChainFits, ChainFits, hb.kind, hb.fits_iff, hrest.fits_iff]

theorem SlotsReordered.fit_iff : ∀ {slots slots' : List (String × List StoredBlock)}
    {type : BlockType}, SlotsReordered slots slots' →
    (SlotsFit registry board type slots' ↔ SlotsFit registry board type slots)
  | _, _, _, .nil => Iff.rfl
  | _, _, _, .cons hchain hrest => by
    rw [SlotsFit, SlotsFit, hchain.fits_iff, hrest.fit_iff]

theorem ValuesReordered.fit_iff : ∀ {values values' : List (String × StoredBlock)}
    {type : BlockType}, ValuesReordered values values' →
    (ValuesFit registry board type values' ↔ ValuesFit registry board type values)
  | _, _, _, .nil => Iff.rfl
  | _, _, _, .cons hb hrest => by
    rw [ValuesFit, ValuesFit, hb.kind, hb.fits_iff, hrest.fit_iff]

end

/-! ### The canonical form -/

theorem canonicalSlots_eq (registry : Registry) (board : Board)
    (slots : List (String × List StoredBlock)) :
    canonicalSlots registry board slots = (slots.filter fun e => !e.2.isEmpty).map fun e =>
      (e.1, canonicalChain registry board e.2) := by
  induction slots with
  | nil => rfl
  | cons entry rest ih =>
    obtain ⟨slot, chain⟩ := entry
    cases chain with
    | nil => exact ih
    | cons b chain => exact congrArg _ ih

theorem canonicalValues_eq (registry : Registry) (board : Board)
    (values : List (String × StoredBlock)) :
    canonicalValues registry board values = values.map fun e =>
      (e.1, e.2.canonical registry board) := by
  induction values with
  | nil => rfl
  | cons entry rest ih => exact congrArg _ ih

theorem distinct_canonicalSlots {slots : List (String × List StoredBlock)}
    (h : Entries.Distinct slots) : Entries.Distinct (canonicalSlots registry board slots) := by
  rw [canonicalSlots_eq, Entries.distinct_map]
  exact h.sublist (List.filter_sublist.map _)

theorem distinct_canonicalValues {values : List (String × StoredBlock)}
    (h : Entries.Distinct values) : Entries.Distinct (canonicalValues registry board values) := by
  rw [canonicalValues_eq, Entries.distinct_map]
  exact h

theorem get?_canonicalSlots_perm {slots slots' : List (String × List StoredBlock)}
    (hd : Entries.Distinct slots) (h : slots.Perm slots') :
    Entries.get? (canonicalSlots registry board slots') =
      Entries.get? (canonicalSlots registry board slots) := by
  refine Entries.get?_perm (distinct_canonicalSlots hd) ?_
  rw [canonicalSlots_eq, canonicalSlots_eq]
  exact (h.filter _).map _

theorem get?_canonicalValues_perm {values values' : List (String × StoredBlock)}
    (hd : Entries.Distinct values) (h : values.Perm values') :
    Entries.get? (canonicalValues registry board values') =
      Entries.get? (canonicalValues registry board values) := by
  refine Entries.get?_perm (distinct_canonicalValues hd) ?_
  rw [canonicalValues_eq, canonicalValues_eq]
  exact h.map _

theorem canonicalFields_perm {fields fields' : List (String × FieldValue)}
    (hd : Entries.Distinct fields) (h : fields.Perm fields') :
    canonicalFields board type fields' = canonicalFields board type fields := by
  have hrestored : Entries.get? (restoredFields type board fields') =
      Entries.get? (restoredFields type board fields) := by
    refine Entries.get?_perm ?_ (h.map _)
    exact (Entries.distinct_congr (Entries.names_map ..)).2 hd
  rw [canonicalFields, canonicalFields, hrestored]

mutual

/-- The canonical form of a block has nothing to do with the order of its names. -/
theorem Reordered.canonical : ∀ {b b' : StoredBlock}, b.Reordered b' → b.Fits registry board →
    b'.canonical registry board = b.canonical registry board
  | _, _, .block hperm hs hps hv hpv, hfits => by
    obtain ⟨type, hget, hfields, hds, hslots, hdv, hvalues⟩ := hfits
    simp only [StoredBlock.canonical, hget]
    rw [canonicalFields_perm hfields.1 hperm,
      get?_canonicalSlots_perm ((Entries.distinct_congr hs.names).2 hds) hps, hs.canonical hslots,
      get?_canonicalValues_perm ((Entries.distinct_congr hv.names).2 hdv) hpv,
      hv.canonical hvalues]

theorem ChainReordered.canonical : ∀ {chain chain' : List StoredBlock} {place : Prop},
    ChainReordered chain chain' → ChainFits registry board place chain →
    canonicalChain registry board chain' = canonicalChain registry board chain
  | _, _, _, .nil, _ => rfl
  | _, _, _, .cons hb hrest, ⟨_, _, hfits, hfitsRest⟩ => by
    rw [canonicalChain, canonicalChain, hb.canonical hfits, hrest.canonical hfitsRest]

theorem SlotsReordered.canonical : ∀ {slots slots' : List (String × List StoredBlock)}
    {type : BlockType}, SlotsReordered slots slots' → SlotsFit registry board type slots →
    canonicalSlots registry board slots' = canonicalSlots registry board slots
  | _, _, _, .nil, _ => rfl
  | _, _, _, .cons .nil hrest, ⟨_, hfitsRest⟩ => by
    rw [canonicalSlots, canonicalSlots, hrest.canonical hfitsRest]
  | _, _, _, .cons (.cons hb hchain) hrest, ⟨⟨_, _, hfits, hfitsChain⟩, hfitsRest⟩ => by
    rw [canonicalSlots, canonicalSlots, hb.canonical hfits, hchain.canonical hfitsChain,
      hrest.canonical hfitsRest]

theorem ValuesReordered.canonical : ∀ {values values' : List (String × StoredBlock)}
    {type : BlockType}, ValuesReordered values values' → ValuesFit registry board type values →
    canonicalValues registry board values' = canonicalValues registry board values
  | _, _, _, .nil, _ => rfl
  | _, _, _, .cons hb hrest, ⟨_, _, hfits, hfitsRest⟩ => by
    rw [canonicalValues, canonicalValues, hb.canonical hfits, hrest.canonical hfitsRest]

end

end StoredBlock

namespace StoredStack

variable {registry : Registry} {board : Board}

theorem fits_cons {x y : Int32} {first : StoredBlock} {chain : List StoredBlock} :
    Fits registry board ⟨x, y, first :: chain⟩ ↔ first.Fits registry board ∧
      StoredBlock.ChainFits registry board (registry.Continues first.kind) chain := by
  simp [Fits]

theorem Reordered.fits_iff : ∀ {stack stack' : StoredStack}, stack.Reordered stack' →
    (stack'.Fits registry board ↔ stack.Fits registry board)
  | ⟨_, _, _⟩, ⟨_, _, _⟩, ⟨_, _, .nil⟩ => by simp [Fits]
  | ⟨_, _, _⟩, ⟨_, _, _⟩, ⟨_, _, .cons hfirst hchain⟩ => by
    rw [fits_cons, fits_cons, hfirst.fits_iff, hfirst.kind, hchain.fits_iff]

theorem Reordered.canonical {stack stack' : StoredStack} (h : stack.Reordered stack')
    (hfits : stack.Fits registry board) :
    stack'.canonical registry board = stack.canonical registry board := by
  obtain ⟨first, chain, hblocks, hfirst, hchain⟩ := hfits
  obtain ⟨hx, hy, hreordered⟩ := h
  rw [hblocks] at hreordered
  rw [StoredStack.canonical, StoredStack.canonical, hx, hy, hblocks]
  generalize stack'.blocks = blocks at hreordered
  cases hreordered with
  | cons hb hrest =>
    rw [StoredBlock.canonicalChain, StoredBlock.canonicalChain, hb.canonical hfirst,
      hrest.canonical hchain]

theorem Reordered.headKind? : ∀ {stack stack' : StoredStack}, stack.Reordered stack' →
    stack'.headKind? = stack.headKind?
  | ⟨_, _, _⟩, ⟨_, _, _⟩, ⟨_, _, .nil⟩ => rfl
  | ⟨_, _, _⟩, ⟨_, _, _⟩, ⟨_, _, .cons hfirst _⟩ => congrArg some hfirst.kind

end StoredStack

/-! ### Snapshots -/

namespace Snapshot.Reordered

variable {registry : Registry} {s s' : Snapshot}

theorem headKinds (h : s.Reordered s') :
    s'.canvas.map StoredStack.headKind? = s.canvas.map StoredStack.headKind? := by
  obtain ⟨_, _, hcanvas⟩ := h
  generalize s.canvas = canvas, s'.canvas = canvas' at hcanvas
  induction hcanvas with
  | nil => rfl
  | cons hstack _ ih => rw [List.map_cons, List.map_cons, hstack.headKind?, ih]

theorem fits_iff (h : s.Reordered s') (board : Board) :
    (∀ stack ∈ s'.canvas, stack.Fits registry board) ↔
      ∀ stack ∈ s.canvas, stack.Fits registry board :=
  h.forall_stacks_iff fun hstack => hstack.fits_iff

/-- A snapshot is rebuilt or not, whatever the order of its names. -/
theorem restores_iff (h : s.Reordered s') (hnamed : s.Named) :
    (∃ w, Workspace.restore registry s' = .ok w) ↔ ∃ w, Workspace.restore registry s = .ok w := by
  rw [Workspace.restores_iff hnamed, Workspace.restores_iff (h.named_iff.2 hnamed),
    rootsFit_iff_heads, rootsFit_iff_heads, h.headKinds, h.version, h.board]
  simp only [h.fits_iff]

end Snapshot.Reordered

namespace Snapshot

/-- A snapshot comes back from what is written of it. Either text gives it back with
everything in its order, exactly if it does not nest too deeply. Its value gives it
back at any depth, but for the order of the names in its blocks. -/
theorem comes_back {s : Snapshot} (hnamed : s.Named) :
    (ofText? s.text = if s.toJson.depth ≤ Json.nestingLimit then some s else none) ∧
    (ofText? s.prettyText = if s.toJson.depth ≤ Json.nestingLimit then some s else none) ∧
    ∃ s', ofValue? s.toValue = some s' ∧ s.Reordered s' :=
  ⟨ofText?_text hnamed, ofText?_prettyText hnamed, s.sorted, ofValue?_toValue hnamed,
    reordered_sorted hnamed⟩

/-- A snapshot of no program at all, with a number and its digits as a text, the
largest numbers, an empty chain, an empty stack and names out of order. -/
theorem comes_back_unheard_of :
    let operand : StoredBlock := ⟨"\u0000\t\"\\", [("NUM", .text "0"), ("", .number 0)], [], []⟩
    let first : StoredBlock := ⟨"ωhile", [("b", .number 5), ("a", .text "5"),
      ("\x7f", .number 18446744073709551615)], [("DO", []), ("DID", [operand])], [("A", operand)]⟩
    let s : Snapshot := ⟨4294967295, "\n", [⟨-2147483648, 2147483647, [first, operand]⟩, ⟨0, 0, []⟩]⟩
    s.Named ∧ s.toJson.depth ≤ Json.nestingLimit ∧ ofText? s.text = some s ∧
      ofText? s.prettyText = some s ∧ ∃ s', ofValue? s.toValue = some s' ∧ s.Reordered s' := by
  intro operand first s
  have hoperand : operand.Named := by
    refine ⟨?_, List.nodup_nil, trivial, List.nodup_nil, trivial⟩
    show List.Nodup ["NUM", ""]
    decide
  have hfirst : first.Named := by
    refine ⟨?_, ?_, ⟨trivial, ⟨hoperand, trivial⟩, trivial⟩, List.nodup_singleton _, hoperand,
      trivial⟩
    · show List.Nodup ["b", "a", "\x7f"]
      decide
    · show List.Nodup ["DO", "DID"]
      decide
  have hnamed : s.Named := List.forall_mem_cons.2
    ⟨⟨hfirst, hoperand, trivial⟩, List.forall_mem_singleton.2 trivial⟩
  have hroom : s.toJson.depth ≤ Json.nestingLimit := by decide
  obtain ⟨htext, hpretty, hvalue⟩ := comes_back hnamed
  rw [if_pos hroom] at htext hpretty
  exact ⟨hnamed, hroom, htext, hpretty, hvalue⟩

end Snapshot

end BlockSketch
