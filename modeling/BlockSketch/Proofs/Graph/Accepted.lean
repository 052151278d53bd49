import BlockSketch.Proofs.Graph.Rewire
import BlockSketch.Workspace.Edit

/-!
When an edit is accepted, and what it does then. Each edit is a sequence of
checks with a change at its end; here the checks are read off once, as a
condition, beside the workspace that comes out. Every later proof about edits
starts from one of these and opens no edit again.
-/

namespace BlockSketch

/-- A computation succeeds if its parts do. -/
theorem bind_eq_ok {ε α β : Type} {x : Except ε α} {f : α → Except ε β} {b : β} :
    (x >>= f) = .ok b ↔ ∃ a, x = .ok a ∧ f a = .ok b := by
  cases x <;> simp [bind, Except.bind]

theorem then_eq_ok {ε α : Type} {x : Except ε Unit} {y : Except ε α} {a : α} :
    (x >>= fun _ => y) = .ok a ↔ x = .ok () ∧ y = .ok a := by
  cases x <;> simp [bind, Except.bind]

theorem pure_eq_ok {ε α : Type} {a b : α} : (pure a : Except ε α) = .ok b ↔ b = a := by
  simp [pure, Except.pure, eq_comm]

/-- A guard at the front of a computation. -/
theorem guard_eq_ok {ε α : Type} {p : Prop} [Decidable p] {e : ε} {x : Except ε α} {a : α} :
    (if p then throw e >>= fun _ : PUnit => x else x) = .ok a ↔ ¬ p ∧ x = .ok a := by
  split <;> simp_all [throw, throwThe, MonadExceptOf.throw, bind, Except.bind]

namespace Registry

theorem lookup_eq_ok {registry : Registry} {kind : String} {type : BlockType} :
    registry.lookup kind = .ok type ↔ registry.get? kind = some type := by
  unfold lookup
  split <;> simp_all

end Registry

namespace Workspace

variable {w w' : Workspace} {id parent child : BlockId}

/-! ### Looking up -/

theorem block_eq_ok {b : Block} : w.block id = .ok b ↔ w.arena.find? id = some b := by
  unfold block block?
  split <;> simp_all

/-- What a block is, by the registry. -/
theorem typeOf_eq_ok {type : BlockType} :
    w.typeOf id = .ok type ↔
      ∃ b, w.arena.find? id = some b ∧ w.registry.get? b.kind = some type := by
  simp only [typeOf, bind_eq_ok, block_eq_ok, Registry.lookup_eq_ok]

/-! ### Blocks that come and go -/

/-- A block is created if its kind is registered, unless it is a root that is
there already. -/
theorem create_eq_ok {kind : String} {position : Position} :
    w.create kind position = .ok (w', id) ↔
      ∃ type, w.registry.get? kind = some type ∧ type.rootKind?.bind w.arena.root? = none ∧
        w' = w.add type position ∧ id = ⟨w.nextId⟩ := by
  simp only [create, bind_eq_ok, Registry.lookup_eq_ok]
  constructor
  · rintro ⟨type, ht, h⟩
    split at h
    · cases h
    · rename_i hroot
      cases h
      exact ⟨type, ht, hroot, rfl, rfl⟩
  · rintro ⟨type, ht, hroot, rfl, rfl⟩
    refine ⟨type, ht, ?_⟩
    rw [hroot]
    rfl

/-- What a deletion takes away beside the block itself. -/
def doomed (w : Workspace) (b : Block) : List BlockId :=
  b.plugged.flatMap w.arena.descendants

/-- A block is deleted if its type is no root and no root hangs from its slots. -/
theorem delete_eq_ok :
    w.delete id = .ok w' ↔
      ∃ b type, w.arena.find? id = some b ∧ w.registry.get? b.kind = some type ∧
        type.rootKind? = none ∧ (∀ d ∈ w.doomed b, w.arena.isRoot d = false) ∧
        w' = w.withArena ((closeGap w.arena b).remove (id :: w.doomed b)) := by
  simp only [delete, bind_eq_ok, block_eq_ok, Registry.lookup_eq_ok, guard_eq_ok, pure_eq_ok]
  constructor
  · rintro ⟨b, hb, type, ht, hroot, hdoomed, rfl⟩
    refine ⟨b, type, hb, ht, by simpa using hroot, ?_, rfl⟩
    intro d hd
    simpa using fun h => hdoomed (List.any_eq_true.2 ⟨d, hd, h⟩)
  · rintro ⟨b, type, hb, ht, hroot, hdoomed, rfl⟩
    refine ⟨b, hb, type, ht, by simp [hroot], ?_, rfl⟩
    intro h
    obtain ⟨d, hd, hr⟩ := List.any_eq_true.1 h
    rw [hdoomed d hd] at hr
    cases hr

/-! ### Fields -/

theorem fieldSpec_eq_ok {name : String} {spec : FieldSpec} :
    w.fieldSpec id name = .ok spec ↔
      ∃ type, w.typeOf id = .ok type ∧ type.field? name = some spec := by
  simp only [fieldSpec, bind_eq_ok]
  constructor
  · rintro ⟨type, ht, h⟩
    refine ⟨type, ht, ?_⟩
    split at h
    · rename_i hspec
      cases h
      exact hspec
    · cases h
  · rintro ⟨type, ht, hspec⟩
    refine ⟨type, ht, ?_⟩
    rw [hspec]
    rfl

theorem storeChecked_eq_ok {name : String} {checked : Except FieldFault FieldValue} :
    w.storeChecked id name checked = .ok w' ↔
      ∃ value, checked = .ok value ∧ w' = w.storeField id name value := by
  cases checked with
  | error fault => simp [storeChecked]
  | ok value => simp [storeChecked, eq_comm]

/-- A field is set to a value that its declaration allows on the active board. -/
theorem setField_eq_ok {name : String} {value : FieldValue} :
    w.setField id name value = .ok w' ↔
      ∃ spec stored, w.fieldSpec id name = .ok spec ∧
        spec.validate value w.board = .ok stored ∧ w' = w.storeField id name stored := by
  simp only [setField, bind_eq_ok, storeChecked_eq_ok]
  grind

/-- A field that is read back takes what it may hold on any board. -/
theorem restoreField_eq_ok {name : String} {value : FieldValue} :
    w.restoreField id name value = .ok w' ↔
      ∃ spec stored, w.fieldSpec id name = .ok spec ∧
        restorable spec value w.board = .ok stored ∧ w' = w.storeField id name stored := by
  simp only [restoreField, bind_eq_ok, storeChecked_eq_ok]
  grind

/-- The board is switched to one that there is. -/
theorem setBoard_eq_ok {board : String} :
    w.setBoard board = .ok w' ↔
      ∃ found, Board.find? board = some found ∧ w' = { w with board := found } := by
  simp only [setBoard, bind_eq_ok, Board.resolve_eq_ok, pure_eq_ok]

/-! ### Connections -/

/-- A block may hang from another one: both are there, it is no root, and the
other one does not hang from it. -/
structure Connectable (w : Workspace) (parent child : BlockId) : Prop where
  parent_mem : parent ∈ w.arena.ids
  child_mem : child ∈ w.arena.ids
  notRoot : w.arena.isRoot child = false
  notBelow : ¬ w.arena.Reachable child parent

theorem checkConnectable_eq_ok :
    w.checkConnectable parent child = .ok () ↔ w.Connectable parent child := by
  simp only [checkConnectable, bind_eq_ok, block_eq_ok]
  constructor
  · rintro ⟨b, hb, d, hd, h⟩
    split at h
    · cases h
    · rename_i hroot
      split at h
      · cases h
      · rename_i hbelow
        rw [Arena.mem_descendants] at hbelow
        exact ⟨Arena.mem_ids_of_find? hb, Arena.mem_ids_of_find? hd, by simpa using hroot, hbelow⟩
  · rintro ⟨hp, hc, hroot, hbelow⟩
    obtain ⟨b, hb⟩ := Arena.exists_find? hp
    obtain ⟨d, hd⟩ := Arena.exists_find? hc
    refine ⟨b, hb, d, hd, ?_⟩
    rw [← Arena.mem_descendants] at hbelow
    rw [if_neg (by simp [hroot]), if_neg hbelow]
    rfl

/-- What attaching a chain does, once it is allowed. What hangs there already
needs a place at the end of the chain. -/
def Chained (w : Workspace) (parent : BlockId) (link : Link) (child : BlockId) (w' : Workspace) :
    Prop :=
  match w.arena.linked? parent link with
  | none => w' = w.withArena (attach w.arena parent link child)
  | some displaced =>
    if displaced = child then w' = w
    else
      (∃ type, w.typeOf (w.arena.chainTail child) = .ok type ∧ type.sockets.next = true) ∧
        w' = w.withArena ((attach w.arena parent link child).setLink (w.arena.chainTail child)
          .next (some displaced))

/-- A chain is attached where the types of both blocks have sockets for it. -/
theorem connectStatement_eq_ok {target : StatementTarget} :
    w.connectStatement parent target child = .ok w' ↔
      w.Connectable parent child ∧
        (∃ type, w.typeOf parent = .ok type ∧ hasTarget type target = true) ∧
        (∃ type, w.typeOf child = .ok type ∧ type.isChainable = true) ∧
        w.Chained parent target.link child w' := by
  rw [connectStatement, then_eq_ok, checkConnectable_eq_ok]
  simp only [bind_eq_ok, guard_eq_ok, Bool.not_eq_true', Bool.not_eq_false, ← and_assoc,
    exists_and_right]
  apply and_congr_right
  intro _
  unfold Chained
  cases hfree : w.arena.linked? parent target.link with
  | none => simp only [pure_eq_ok]
  | some displaced =>
    by_cases hsame : displaced = child
    · simp only [if_pos hsame, pure_eq_ok]
    · simp only [if_neg hsame, bind_eq_ok, guard_eq_ok, pure_eq_ok, Bool.not_eq_false,
        ← and_assoc, exists_and_right]

/-- An expression is plugged in where both types have sockets for it. -/
theorem connectValue_eq_ok {slot : String} :
    w.connectValue parent slot child = .ok w' ↔
      w.Connectable parent child ∧
        (∃ type, w.typeOf parent = .ok type ∧ (type.sockets.valueSlot? slot).isSome = true) ∧
        (∃ type, w.typeOf child = .ok type ∧ type.isPluggable = true) ∧
        w' = if w.arena.linked? parent (.value slot) = some child then w
          else w.withArena (attach w.arena parent (.value slot) child) := by
  rw [connectValue, then_eq_ok, checkConnectable_eq_ok]
  simp only [bind_eq_ok, guard_eq_ok, Bool.not_eq_true', Bool.not_eq_false, ← and_assoc,
    exists_and_right, Option.isNone_iff_eq_none, ← Option.isSome_iff_ne_none, ← ne_eq]
  apply and_congr_right
  intro _
  by_cases hsame : w.arena.linked? parent (.value slot) = some child
  · simp only [if_pos hsame, pure_eq_ok]
  · simp only [if_neg hsame, pure_eq_ok]

theorem disconnect_eq_ok :
    w.disconnect id = .ok w' ↔ id ∈ w.arena.ids ∧ w' = w.withArena (w.arena.detach id) := by
  simp only [disconnect, bind_eq_ok, block_eq_ok, pure_eq_ok]
  constructor
  · rintro ⟨b, hb, rfl⟩
    exact ⟨Arena.mem_ids_of_find? hb, rfl⟩
  · rintro ⟨hid, rfl⟩
    obtain ⟨b, hb⟩ := Arena.exists_find? hid
    exact ⟨b, hb, rfl⟩

/-! ### Bare blocks -/

/-- A block with nothing attached to it can hang from any other block. -/
theorem connectable_of_bare {parent child : BlockId} {b : Block}
    (hb : w.arena.find? child = some b) (hbare : b.children = []) (hp : parent ∈ w.arena.ids)
    (hne : parent ≠ child) (hroot : w.arena.isRoot child = false) : w.Connectable parent child := by
  have honly : ∀ y, w.arena.Reachable child y → y = child := by
    intro y hreach
    induction hreach with
    | refl => rfl
    | step _ hlink ih =>
      obtain ⟨d, hd, hmem⟩ := hlink
      rw [ih, hb, Option.some_inj] at hd
      rw [← hd, hbare] at hmem
      cases hmem
  exact ⟨hp, Arena.mem_ids_of_find? hb, hroot, fun hreach => hne (honly parent hreach)⟩

/-- A bare block goes where there is room for it. -/
theorem after_connect_of_bare (parent : BlockId) (target : StatementTarget) (child : BlockId)
    {b : Block} {type childType : BlockType} (hb : w.arena.find? child = some b)
    (hbare : b.children = [])
    (hne : parent ≠ child) (hroot : w.arena.isRoot child = false)
    (ht : w.typeOf parent = .ok type) (htarget : hasTarget type target = true)
    (hct : w.typeOf child = .ok childType) (hchain : childType.isChainable = true)
    (hroom : w.arena.linked? parent target.link = none) :
    w.after (.edit (.connect parent target child)) =
      w.withArena (attach w.arena parent target.link child) := by
  obtain ⟨d, hd, _⟩ := typeOf_eq_ok.1 ht
  have hconnect := connectStatement_eq_ok.2 ⟨connectable_of_bare hb hbare
    (Arena.mem_ids_of_find? hd) hne hroot, ⟨type, ht, htarget⟩, ⟨childType, hct, hchain⟩,
    (by unfold Chained; rw [hroom])⟩
  simp only [after, perform, hconnect]
  rfl

/-- A bare expression is plugged into any slot but its own. -/
theorem connectValue_of_bare (parent : BlockId) (slot : String) (child : BlockId)
    {b : Block} {type childType : BlockType} (hb : w.arena.find? child = some b)
    (hbare : b.children = [])
    (hne : parent ≠ child) (hroot : w.arena.isRoot child = false)
    (ht : w.typeOf parent = .ok type) (hslot : (type.sockets.valueSlot? slot).isSome = true)
    (hct : w.typeOf child = .ok childType) (hplug : childType.isPluggable = true)
    (helse : w.arena.linked? parent (.value slot) ≠ some child) :
    w.connectValue parent slot child =
      .ok (w.withArena (attach w.arena parent (.value slot) child)) := by
  obtain ⟨d, hd, _⟩ := typeOf_eq_ok.1 ht
  exact connectValue_eq_ok.2 ⟨connectable_of_bare hb hbare (Arena.mem_ids_of_find? hd) hne hroot,
    ⟨type, ht, hslot⟩, ⟨childType, hct, hplug⟩, (if_neg helse).symm⟩

theorem after_plug_of_ok {slot : String} (h : w.connectValue parent slot child = .ok w') :
    w.after (.edit (.plug parent slot child)) = w' := by
  simp only [after, perform, h]
  rfl

end Workspace

end BlockSketch
