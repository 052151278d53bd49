import BlockSketch.Proofs.Typing.Typed

/-!
What is found in a typed program. `Typed` speaks of values that can be read back
and of links that sockets offer, because that is what edits keep. A reader of
the program asks for something plainer: which fields and slots a block has, what
stands in a field, and what hangs where. This module says the first in terms of
the second, for every kind of field and every kind of link.
-/

namespace BlockSketch

/-- What a declared field may hold: a number, a text, the value of an entry of
its list, or a pin of some board. -/
def FieldSpec.Holds (spec : FieldSpec) (value : FieldValue) : Prop :=
  match spec.kind with
  | .number _ => ∃ n, value = .number n
  | .text _ => ∃ s, value = .text s
  | .dropdown (.fixed options) => ∃ option ∈ options, value = .text option.value
  | .dropdown (.onBoard _) => ∃ board ∈ Board.all, ∃ pin ∈ board.pins, value = .text pin.value

/-- A value that can be read back on any board is of the declared form. -/
theorem FieldSpec.Admits.holds {spec : FieldSpec} {value : FieldValue} (h : spec.Admits value) :
    spec.Holds value := by
  have hback := h Board.default
  obtain ⟨name, kind⟩ := spec
  cases kind with
  | dropdown source =>
    cases source with
    | fixed options =>
      have hback : (if options.any fun option => option.value == value.display then
          Except.ok (FieldValue.text value.display)
        else .error (FieldFault.notAnOption value.display)) = .ok value := hback
      split at hback
      · rename_i hany
        obtain ⟨option, hoption, hvalue⟩ := List.any_eq_true.1 hany
        refine ⟨option, hoption, ?_⟩
        rw [← Except.ok.inj hback, beq_iff_eq.1 hvalue]
      · cases hback
    | onBoard resolve =>
      have hback : (if Board.isPinOfAny value.display then
          Except.ok (FieldValue.text value.display)
        else .error (FieldFault.notAPin value.display)) = .ok value := hback
      split at hback
      · rename_i hany
        obtain ⟨board, hboard, hpin⟩ := List.any_eq_true.1 hany
        obtain ⟨pin, hpin, hvalue⟩ := List.any_eq_true.1 hpin
        refine ⟨board, hboard, pin, hpin, ?_⟩
        rw [← Except.ok.inj hback, beq_iff_eq.1 hvalue]
      · cases hback
  | number initial =>
    cases value with
    | number n => exact ⟨n, rfl⟩
    | text s =>
      have hback : FieldSpec.validate ⟨name, .number initial⟩ (.text s) Board.default =
          .ok (.text s) := hback
      simp only [FieldSpec.validate] at hback
      split at hback <;> cases hback
  | text initial => exact ⟨value.display, (Except.ok.inj hback).symm⟩

/-- A block has the fields and slots that the type declares, in that order and no
others, and each field holds what it may. -/
structure BlockType.Shapes (type : BlockType) (b : Block) : Prop where
  fields : b.fields.names = type.fields.map FieldSpec.name
  statements : b.statements.names = type.sockets.statementSlots
  values : b.values.names = type.sockets.valueSlots.map ValueSlot.name
  holds : ∀ spec ∈ type.fields, ∃ value, b.fields.get? spec.name = some value ∧ spec.Holds value

theorem BlockType.Describes.shapes {type : BlockType} {b : Block} (h : type.Describes b)
    (hd : type.DeclaresOnce) : type.Shapes b := by
  refine ⟨h.fields, h.statements, h.values, fun spec hspec => ?_⟩
  have hname : spec.name ∈ b.fields.names := by
    rw [h.fields]
    exact List.mem_map_of_mem hspec
  obtain ⟨⟨_, value⟩, hmem, rfl⟩ := List.mem_map.1 hname
  have hdistinct : b.fields.Distinct := by
    rw [Entries.Distinct, h.fields]
    exact hd.fields
  have hget := (Entries.get?_eq_some hdistinct).2 hmem
  exact ⟨value, hget, (h.admits spec hspec value hget).holds⟩

namespace Workspace

variable {w : Workspace} {a c : BlockId} {b : Block} {k : Link}

def IsStatement (w : Workspace) (c : BlockId) : Prop :=
  ∃ type, w.typeOf c = .ok type ∧ type.category = .statement ∧ type.sockets.previous = true

def IsExpression (w : Workspace) (c : BlockId) : Prop :=
  ∃ type, w.typeOf c = .ok type ∧ type.category = .value ∧ type.sockets.output = true

/-- Blocks hold what their kinds declare, and what hangs from them belongs where
it hangs. -/
structure Faithful (w : Workspace) : Prop where
  blocks : ∀ b ∈ w.arena, ∃ type, w.registry.get? b.kind = some type ∧ type.Shapes b ∧
    (b.next.isSome = true → type.sockets.next = true)
  next : ∀ b ∈ w.arena, ∀ c, b.next = some c → w.IsStatement c
  statements : ∀ b ∈ w.arena, ∀ slot c, (slot, some c) ∈ b.statements → w.IsStatement c
  values : ∀ b ∈ w.arena, ∀ slot c, (slot, some c) ∈ b.values → w.IsExpression c

theorem isStatement_of_chainable {type : BlockType} (ht : w.typeOf c = .ok type)
    (h : type.isChainable = true) : w.IsStatement c := by
  rw [BlockType.isChainable, Bool.and_eq_true, beq_iff_eq] at h
  exact ⟨type, ht, h⟩

theorem isExpression_of_pluggable {type : BlockType} (ht : w.typeOf c = .ok type)
    (h : type.isPluggable = true) : w.IsExpression c := by
  rw [BlockType.isPluggable, Bool.and_eq_true, beq_iff_eq] at h
  exact ⟨type, ht, h⟩

theorem Typed.faithful (h : w.Typed) (hc : w.Coherent) (hr : w.registry.DeclaresOnce) :
    w.Faithful := by
  have hlink : ∀ b ∈ w.arena, ∀ k c, b.linked? k = some c →
      w.arena.linked? b.id k = some c := by
    intro b hb k c hk
    rwa [Arena.linked?_of_find? (Arena.find?_of_mem hc.numbered.nodup hb)]
  constructor
  case blocks =>
    intro b hb
    obtain ⟨type, ht, hdescribes⟩ := h.described b hb
    refine ⟨type, ht, hdescribes.shapes (hr ht), fun hsome => ?_⟩
    obtain ⟨c, hnext⟩ := Option.isSome_iff_exists.1 hsome
    obtain ⟨⟨type', ht', hhas⟩, _⟩ := h.links (hlink b hb .next c hnext)
    have hsame := typeOf_of_find? (Arena.find?_of_mem hc.numbered.nodup hb) ht
    rwa [typeOf_unique ht' hsame] at hhas
  case next =>
    intro b hb c hnext
    obtain ⟨_, child, hchild, hfits⟩ := h.links (hlink b hb .next c hnext)
    exact isStatement_of_chainable hchild hfits
  case statements =>
    intro b hb slot c hslot
    have hk := (Block.join_get?_eq_some (hc.forest.tidy b hb).statements).2 hslot
    obtain ⟨_, child, hchild, hfits⟩ := h.links (hlink b hb (.statement slot) c hk)
    exact isStatement_of_chainable hchild hfits
  case values =>
    intro b hb slot c hslot
    have hk := (Block.join_get?_eq_some (hc.forest.tidy b hb).values).2 hslot
    obtain ⟨_, child, hchild, hfits⟩ := h.links (hlink b hb (.value slot) c hk)
    exact isExpression_of_pluggable hchild hfits

/-- In every program that can come about from the builtin blocks, each block has
what its kind declares, and everything hangs where it belongs. -/
theorem reached_faithful (h : Reached .builtin w) : w.registry = .builtin ∧ w.Faithful := by
  obtain ⟨hreg, hc, _⟩ := h.coherent hasRoots_builtin
  have ht := h.typed hasRoots_builtin Registry.regular_builtin
  exact ⟨hreg, ht.faithful hc (hreg ▸ Registry.regular_builtin.declaresOnce)⟩

/-- A pin of another board is read back, a comparison is plugged into a condition,
and the block around it is deleted in the middle of a chain. -/
theorem reached_faithful_of_switched :
    let w := (onDefaultBoard .builtin).afterAll
      [.edit (.create "if_then" .origin), .edit (.create "digital_write" .origin),
        .edit (.create "compare" .origin), .edit (.plug ⟨3⟩ "CONDITION" ⟨5⟩),
        .edit (.connect ⟨2⟩ (.slot "DO") ⟨3⟩), .edit (.connect ⟨3⟩ .next ⟨4⟩),
        .edit (.setField ⟨4⟩ "PIN" (.text "13")), .setBoard "esp32", .edit (.delete ⟨3⟩)]
    Reached .builtin w ∧ w.registry = .builtin ∧ w.Faithful := by
  intro w
  have hreached : Reached .builtin w := ⟨_, .onDefaultBoard, _, rfl⟩
  exact ⟨hreached, reached_faithful hreached⟩

end Workspace

end BlockSketch
