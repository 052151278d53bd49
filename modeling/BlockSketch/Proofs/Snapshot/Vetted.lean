import BlockSketch.Proofs.Graph.Grounded
import BlockSketch.Proofs.Snapshot.Codec
import BlockSketch.Proofs.Snapshot.RoundTrip

/-!
What has been read back fits. `Layout` says what it takes for a snapshot to be
rebuilt; here it is shown that nothing less will do. A half-read program is never
taken for something else: as it grows, the blocks that are there keep their
numbers and kinds (`Growing`), so each check on the way looks at the kinds that
the snapshot gives, and no root is forgotten. None of this takes the registry to
be a sensible one.
-/

namespace BlockSketch

namespace Arena

variable {arena arena' : Arena} {id : BlockId} {kind : String}

/-- A block that is listed with its kind is found with it. -/
theorem find?_of_mem_outline (hd : arena.ids.Nodup) (h : (id, kind) ∈ arena.outline) :
    ∃ b, arena.find? id = some b ∧ b.kind = kind := by
  obtain ⟨b, hb, heq⟩ := List.mem_map.1 h
  cases heq
  exact ⟨b, find?_of_mem hd hb, rfl⟩

theorem rootCount_le_of_outline (h : arena.outline <+: arena'.outline) (root : RootKind) :
    arena.rootCount root ≤ arena'.rootCount root := by
  have hcount : ∀ arena : Arena, arena.rootCount root =
      arena.outline.countP fun entry => entry.2 = root.kindName := by
    intro arena
    rw [rootCount, outline, List.countP_map]
    rfl
  rw [hcount, hcount]
  exact h.sublist.countP_le

theorem rootCount_pos_of_mem_outline {root : RootKind} (h : (id, root.kindName) ∈ arena.outline) :
    0 < arena.rootCount root := by
  obtain ⟨b, hb, heq⟩ := List.mem_map.1 h
  rw [rootCount, List.countP_pos_iff]
  exact ⟨b, hb, by simpa using congrArg Prod.snd heq⟩

end Arena

namespace Workspace

variable {registry : Registry} {board : Board} {w w' : Workspace} {id parent child : BlockId}
  {kind childKind : String} {type : BlockType}

/-- A program that is being read back. -/
structure Growing (registry : Registry) (board : Board) (w : Workspace) : Prop where
  registry : w.registry = registry
  board : w.board = board
  grounded : w.Grounded

theorem outline_add (w : Workspace) (type : BlockType) (position : Position) :
    (w.add type position).arena.outline = w.arena.outline ++ [(⟨w.nextId⟩, type.kind)] := by
  simp [add, Arena.outline, freshBlock]

theorem Growing.rewired (h : Growing registry board w) (hr : w.Rewired w') :
    Growing registry board w' ∧ w.arena.outline <+: w'.arena.outline := by
  obtain ⟨hreg, hgrounded⟩ := h.grounded.rewired hr
  obtain ⟨arena, rfl, ho, _⟩ := hr
  exact ⟨⟨hreg.trans h.registry, h.board, hgrounded⟩, ho ▸ List.prefix_rfl⟩

/-- Nothing is lost or changed in kind as a program grows. -/
theorem buildwise_growing (registry : Registry) (board : Board) :
    Buildwise fun w w' => Growing registry board w →
      Growing registry board w' ∧ w.arena.outline <+: w'.arena.outline where
  refl w h := ⟨h, List.prefix_rfl⟩
  trans h₁ h₂ h := by
    obtain ⟨h, hp⟩ := h₁ h
    obtain ⟨h, hp'⟩ := h₂ h
    exact ⟨h, hp.trans hp'⟩
  create {w w' kind position id} ha h := by
    obtain ⟨hreg, rfl, hg⟩ := h
    obtain ⟨type, ht, _, rfl, _⟩ := create_eq_ok.1 ha
    refine ⟨⟨hreg, rfl, hg.add ht position⟩, ?_⟩
    rw [outline_add]
    exact List.prefix_append _ _
  restoreField ha h := h.rewired (rewired_restoreField h.grounded.forest ha)
  connectStatement ha h :=
    h.rewired (rewired_connectStatement h.grounded.forest h.grounded.numbered.nodup ha)
  connectValue ha h :=
    h.rewired (rewired_connectValue h.grounded.forest h.grounded.numbered.nodup ha)

namespace Growing

/-- A block of a half-read program is of the kind that it was read with. -/
theorem get?_of_typeOf (h : Growing registry board w) (hmem : (id, kind) ∈ w.arena.outline)
    (ht : w.typeOf id = .ok type) : registry.get? kind = some type := by
  obtain ⟨b, hb, hget⟩ := typeOf_eq_ok.1 ht
  obtain ⟨c, hc, rfl⟩ := Arena.find?_of_mem_outline h.grounded.numbered.nodup hmem
  rw [hb, Option.some_inj] at hc
  rw [← h.registry, ← hc]
  exact hget

theorem ofKindName?_of_isRoot (h : Growing registry board w)
    (hmem : (id, kind) ∈ w.arena.outline) (hroot : w.arena.isRoot id = false) :
    RootKind.ofKindName? kind = none := by
  obtain ⟨b, hb, rfl⟩ := Arena.find?_of_mem_outline h.grounded.numbered.nodup hmem
  simpa [Arena.isRoot, hb, Block.rootKind?] using hroot

/-- A chain can only have been attached to a place that there is. -/
theorem chains_of_connectStatement (h : Growing registry board w) {target : StatementTarget}
    (hparent : (parent, kind) ∈ w.arena.outline) (hchild : (child, childKind) ∈ w.arena.outline)
    (ha : w.connectStatement parent target child = .ok w') :
    (∃ type, registry.get? kind = some type ∧ hasTarget type target = true) ∧
      registry.Chains childKind := by
  obtain ⟨hconnect, ⟨type, ht, htarget⟩, ⟨childType, hct, hchain⟩, _⟩ := connectStatement_eq_ok.1 ha
  exact ⟨⟨type, h.get?_of_typeOf hparent ht, htarget⟩,
    h.ofKindName?_of_isRoot hchild hconnect.notRoot, childType, h.get?_of_typeOf hchild hct, hchain⟩

theorem plugs_of_connectValue (h : Growing registry board w) {slot : String}
    (hparent : (parent, kind) ∈ w.arena.outline) (hchild : (child, childKind) ∈ w.arena.outline)
    (ha : w.connectValue parent slot child = .ok w') :
    (∃ type, registry.get? kind = some type ∧ (type.sockets.valueSlot? slot).isSome = true) ∧
      registry.Plugs childKind := by
  obtain ⟨hconnect, ⟨type, ht, hslot⟩, ⟨childType, hct, hplug⟩, _⟩ := connectValue_eq_ok.1 ha
  exact ⟨⟨type, h.get?_of_typeOf hparent ht, hslot⟩,
    h.ofKindName?_of_isRoot hchild hconnect.notRoot, childType, h.get?_of_typeOf hchild hct, hplug⟩

/-- A block that has been created is there with its kind, which is registered. -/
theorem mem_of_create (h : Growing registry board w) {position : Position}
    (ha : w.create kind position = .ok (w', id)) :
    (id, kind) ∈ w'.arena.outline ∧ ∃ type, registry.get? kind = some type := by
  obtain ⟨type, hget, _, rfl, rfl⟩ := create_eq_ok.1 ha
  rw [outline_add, Registry.kind_of_get? hget]
  exact ⟨List.mem_append_right _ (List.mem_singleton_self _), type, h.registry ▸ hget⟩

/-- A block that has been read is there with its kind. -/
theorem restoreBlock (h : Growing registry board w) {position : Position}
    {b : StoredBlock} (ha : w.restoreBlock position b = .ok (w', id)) :
    Growing registry board w' ∧ w.arena.outline <+: w'.arena.outline ∧
      (id, b.kind) ∈ w'.arena.outline := by
  have hgrow := buildwise_growing registry board
  obtain ⟨kind, fields, statements, values⟩ := b
  obtain ⟨hw', hkept⟩ := hgrow.restoreBlock ha h
  refine ⟨hw', hkept, ?_⟩
  simp only [Workspace.restoreBlock, bind_eq_ok, pure_eq_ok] at ha
  obtain ⟨⟨w₁, new⟩, h₁, w₂, h₂, w₃, h₃, w₄, h₄, heq⟩ := ha
  cases heq
  obtain ⟨hw₁, _⟩ := hgrow.create h₁ h
  have hparts := hgrow.trans (hgrow.restoreFields h₂)
    (hgrow.trans (hgrow.restoreSlots h₃) (hgrow.restoreValues h₄))
  exact (hparts hw₁).2.subset (h.mem_of_create h₁).1

/-- Fields that have been read are declared, and hold what they may hold. -/
theorem fit_of_restoreFields (h : Growing registry board w)
    (hmem : (id, kind) ∈ w.arena.outline) (hget : registry.get? kind = some type)
    {fields : List (String × FieldValue)}
    (ha : fields.foldlM (fun w field => w.restoreField id field.1 field.2) w = .ok w') :
    ∀ name value, (name, value) ∈ fields → ∃ spec stored,
      type.field? name = some spec ∧ restorable spec value board = .ok stored := by
  induction fields generalizing w with
  | nil => exact fun _ _ hfield => nomatch hfield
  | cons field rest ih =>
    rw [List.foldlM_cons, bind_eq_ok] at ha
    obtain ⟨w₁, h₁, ha⟩ := ha
    obtain ⟨hw₁, hkept⟩ := (buildwise_growing registry board).restoreField h₁ h
    intro name value hfield
    obtain rfl | hfield := List.mem_cons.1 hfield
    · obtain ⟨spec, stored, hspec, hstored, _⟩ := restoreField_eq_ok.1 h₁
      obtain ⟨type', ht, hspec⟩ := fieldSpec_eq_ok.1 hspec
      obtain rfl := Option.some_inj.1 (hget.symm.trans (h.get?_of_typeOf hmem ht))
      exact ⟨spec, stored, hspec, h.board ▸ hstored⟩
    · exact ih hw₁ (hkept.subset hmem) ha name value hfield

end Growing

open StoredBlock

mutual

/-- A block that has been read back fits. -/
theorem fits_of_restoreBlock : ∀ {b : StoredBlock} {w w' : Workspace}
    {id : BlockId} {position : Position}, Growing registry board w → b.Named →
    w.restoreBlock position b = .ok (w', id) → b.Fits registry board
  | ⟨kind, fields, statements, values⟩, _, _, _, _, hw, ⟨hf, hds, hslots, hdv, hvalues⟩, ha => by
    have hgrow := buildwise_growing registry board
    simp only [Workspace.restoreBlock, bind_eq_ok, pure_eq_ok] at ha
    obtain ⟨⟨w₁, new⟩, h₁, w₂, h₂, w₃, h₃, w₄, h₄, heq⟩ := ha
    obtain ⟨hw₁, _⟩ := hgrow.create h₁ hw
    obtain ⟨hw₂, hkept₂⟩ := hgrow.restoreFields h₂ hw₁
    obtain ⟨hw₃, hkept₃⟩ := hgrow.restoreSlots h₃ hw₂
    obtain ⟨hnew, type, hget⟩ := hw.mem_of_create h₁
    have hnew₂ := hkept₂.subset hnew
    exact ⟨type, hget, ⟨hf, hw₁.fit_of_restoreFields hnew hget h₂⟩,
      hds, fit_of_restoreSlots hw₂ hnew₂ hget hslots h₃,
      hdv, fit_of_restoreValues hw₃ (hkept₃.subset hnew₂) hget hvalues h₄⟩

theorem fits_of_restoreTail : ∀ {chain : List StoredBlock}
    {w w' : Workspace} {last : BlockId} {kind : String}, Growing registry board w →
    (last, kind) ∈ w.arena.outline → NamedChain chain → w.restoreTail last chain = .ok w' →
    ChainFits registry board (registry.Continues kind) chain
  | [], _, _, _, _, _, _, _, _ => trivial
  | b :: rest, _, _, _, _, hw, hlast, ⟨hb, hrest⟩, ha => by
    have hgrow := buildwise_growing registry board
    simp only [Workspace.restoreTail, bind_eq_ok] at ha
    obtain ⟨⟨w₁, new⟩, h₁, w₂, h₂, ha⟩ := ha
    obtain ⟨hw₁, hkept₁, hnew⟩ := hw.restoreBlock h₁
    obtain ⟨hw₂, hkept₂⟩ := hgrow.connectStatement h₂ hw₁
    obtain ⟨hplace, hchains⟩ := hw₁.chains_of_connectStatement (hkept₁.subset hlast) hnew h₂
    exact ⟨hplace, hchains, fits_of_restoreBlock hw hb h₁,
      fits_of_restoreTail hw₂ (hkept₂.subset hnew) hrest ha⟩

theorem fit_of_restoreSlots :
    ∀ {slots : List (String × List StoredBlock)} {w w' : Workspace} {id : BlockId} {kind : String}
    {type : BlockType}, Growing registry board w → (id, kind) ∈ w.arena.outline →
    registry.get? kind = some type → NamedSlots slots → w.restoreSlots id slots = .ok w' →
    SlotsFit registry board type slots
  | [], _, _, _, _, _, _, _, _, _, _ => trivial
  | (_, []) :: rest, _, _, _, _, _, hw, hmem, hget, ⟨_, hrest⟩, ha => by
    simp only [Workspace.restoreSlots] at ha
    exact ⟨trivial, fit_of_restoreSlots hw hmem hget hrest ha⟩
  | (slot, first :: chain) :: rest, _, _, _, _, _, hw, hmem, hget, ⟨⟨hfirst, hchain⟩, hrest⟩,
    ha => by
    have hgrow := buildwise_growing registry board
    simp only [Workspace.restoreSlots, bind_eq_ok] at ha
    obtain ⟨⟨w₁, head⟩, h₁, w₂, h₂, w₃, h₃, ha⟩ := ha
    obtain ⟨hw₁, hkept₁, hhead⟩ := hw.restoreBlock h₁
    obtain ⟨hw₂, hkept₂⟩ := hgrow.connectStatement h₂ hw₁
    obtain ⟨hw₃, hkept₃⟩ := hgrow.restoreTail h₃ hw₂
    have hmem₁ := hkept₁.subset hmem
    obtain ⟨⟨type', hget', hslot⟩, hchains⟩ := hw₁.chains_of_connectStatement hmem₁ hhead h₂
    obtain rfl := Option.some_inj.1 (hget.symm.trans hget')
    refine ⟨⟨?_, hchains, fits_of_restoreBlock hw hfirst h₁,
      fits_of_restoreTail hw₂ (hkept₂.subset hhead) hchain h₃⟩,
      fit_of_restoreSlots hw₃ (hkept₃.subset (hkept₂.subset hmem₁)) hget hrest ha⟩
    simpa [hasTarget, Sockets.hasStatementSlot] using hslot

theorem fit_of_restoreValues :
    ∀ {values : List (String × StoredBlock)} {w w' : Workspace} {id : BlockId} {kind : String}
    {type : BlockType}, Growing registry board w → (id, kind) ∈ w.arena.outline →
    registry.get? kind = some type → NamedValues values → w.restoreValues id values = .ok w' →
    ValuesFit registry board type values
  | [], _, _, _, _, _, _, _, _, _, _ => trivial
  | (slot, b) :: rest, _, _, _, _, _, hw, hmem, hget, ⟨hb, hrest⟩, ha => by
    have hgrow := buildwise_growing registry board
    simp only [Workspace.restoreValues, bind_eq_ok] at ha
    obtain ⟨⟨w₁, child⟩, h₁, w₂, h₂, ha⟩ := ha
    obtain ⟨hw₁, hkept₁, hchild⟩ := hw.restoreBlock h₁
    obtain ⟨hw₂, hkept₂⟩ := hgrow.connectValue h₂ hw₁
    have hmem₁ := hkept₁.subset hmem
    obtain ⟨⟨type', hget', hslot⟩, hplugs⟩ := hw₁.plugs_of_connectValue hmem₁ hchild h₂
    obtain rfl := Option.some_inj.1 (hget.symm.trans hget')
    refine ⟨?_, hplugs, fits_of_restoreBlock hw hb h₁,
      fit_of_restoreValues hw₂ (hkept₂.subset hmem₁) hget hrest ha⟩
    obtain ⟨found, hfound⟩ := Option.isSome_iff_exists.1 hslot
    have hname : found.name = slot := by simpa using List.find?_some hfound
    rw [← hname]
    exact List.mem_map_of_mem (List.mem_of_find?_eq_some hfound)

end

end Workspace

/-! ### Stacks -/

def StoredStack.headKind? (stack : StoredStack) : Option String :=
  stack.blocks.head?.map StoredBlock.kind

namespace Snapshot

def RootsOnce (canvas : List StoredStack) : Prop :=
  (canvas.map StoredStack.headKind?).Pairwise fun earlier later =>
    ∀ root : RootKind, earlier = some root.kindName → later ≠ some root.kindName

/-- Whether no root comes twice is told by what the stacks begin with. -/
theorem rootsFit_iff_heads {registry : Registry} {canvas : List StoredStack} :
    RootsFit registry canvas ↔
      (canvas.map StoredStack.headKind?).Pairwise fun earlier later =>
        ∀ kind type root, later = some kind → registry.get? kind = some type →
          type.rootKind? = some root → earlier ≠ some root.kindName := by
  rw [List.pairwise_map]
  refine List.Pairwise.iff fun earlier later => ⟨?_, ?_⟩
  · intro hfit kind type root hlater hget hroot hearlier
    obtain ⟨b, hb, rfl⟩ := Option.map_eq_some_iff.1 hlater
    obtain ⟨a, ha, hkind⟩ := Option.map_eq_some_iff.1 hearlier
    exact hfit b hb type root hget hroot a ha hkind
  · intro hheads b hb type root hget hroot a ha hkind
    exact hheads b.kind type root (Option.map_eq_some_iff.2 ⟨b, hb, rfl⟩) hget hroot
      (Option.map_eq_some_iff.2 ⟨a, ha, hkind⟩)

/-- Where the roots, and nothing else, are registered as roots, their types tell
the same as their kinds. -/
theorem rootsFit_iff_rootsOnce {registry : Registry} (hr : registry.HasRoots)
    (hregular : registry.Regular) {canvas : List StoredStack} :
    RootsFit registry canvas ↔ RootsOnce canvas := by
  rw [rootsFit_iff_heads]
  refine List.Pairwise.iff fun earlier later => ⟨?_, ?_⟩
  · intro hfit root hearlier hlater
    obtain ⟨type, hget, _⟩ := hr root
    exact hfit root.kindName type root hlater hget (hr.rootKind? hget) hearlier
  · intro honce kind type root hlater hget hroot hearlier
    have hkind : kind = root.kindName := by
      rw [← Registry.kind_of_get? hget]
      exact (hregular hget).roots root hroot
    exact honce root hearlier (hkind ▸ hlater)

end Snapshot

namespace Workspace

variable {registry : Registry} {board : Board} {w w' : Workspace}

open StoredBlock

/-- A stack that has been read back fits. If its first block is a root by its
type, then this root was not there before; if it is one by its kind, then it is
there now. -/
theorem fits_of_restoreStack (hw : Growing registry board w) {stack : StoredStack}
    (hnamed : NamedChain stack.blocks) (ha : w.restoreStack stack = .ok w') :
    stack.Fits registry board ∧ ∀ b ∈ stack.blocks.head?,
      (∀ type root, registry.get? b.kind = some type → type.rootKind? = some root →
        w.arena.rootCount root = 0) ∧
      ∀ root : RootKind, b.kind = root.kindName → 0 < w'.arena.rootCount root := by
  obtain ⟨first, chain, hblocks, w₁, head, h₁, ha⟩ := restoreStack_eq_ok.1 ha
  rw [hblocks] at hnamed
  obtain ⟨hw₁, _, hhead⟩ := hw.restoreBlock h₁
  obtain ⟨_, hkept⟩ := (buildwise_growing registry board).restoreTail ha hw₁
  refine ⟨⟨first, chain, hblocks, fits_of_restoreBlock hw hnamed.1 h₁,
    fits_of_restoreTail hw₁ hhead hnamed.2 ha⟩, ?_⟩
  intro b hb
  rw [hblocks] at hb
  obtain rfl := Option.some_inj.1 hb
  constructor
  · intro type root hget hroot
    obtain ⟨kind, fields, statements, values⟩ := first
    simp only [Workspace.restoreBlock, bind_eq_ok] at h₁
    obtain ⟨⟨w₂, new⟩, h₂, _⟩ := h₁
    obtain ⟨type', hget', hfree, _, _⟩ := create_eq_ok.1 h₂
    obtain rfl := Option.some_inj.1 (hget.symm.trans (hw.registry ▸ hget'))
    rw [hroot] at hfree
    exact Arena.root?_eq_none.1 hfree
  · intro root hkind
    rw [hkind] at hhead
    exact Arena.rootCount_pos_of_mem_outline (hkept.subset hhead)

/-- Stacks that have been read back fit, and no root comes twice. -/
theorem fit_of_restoreStacks {canvas : List StoredStack} (hw : Growing registry board w)
    (hnamed : ∀ stack ∈ canvas, NamedChain stack.blocks)
    (ha : canvas.foldlM restoreStack w = .ok w') :
    (∀ stack ∈ canvas, stack.Fits registry board) ∧ Snapshot.RootsFit registry canvas ∧
      ∀ stack ∈ canvas, ∀ b ∈ stack.blocks.head?, ∀ type root,
        registry.get? b.kind = some type → type.rootKind? = some root →
          w.arena.rootCount root = 0 := by
  induction canvas generalizing w with
  | nil => exact ⟨by simp, List.Pairwise.nil, by simp⟩
  | cons stack rest ih =>
    rw [List.foldlM_cons, bind_eq_ok] at ha
    obtain ⟨w₁, h₁, ha⟩ := ha
    obtain ⟨hfirst, hnamed⟩ := List.forall_mem_cons.1 hnamed
    obtain ⟨hw₁, hkept⟩ := (buildwise_growing registry board).restoreStack h₁ hw
    obtain ⟨hfits, hhead⟩ := fits_of_restoreStack hw hfirst h₁
    obtain ⟨hrest, hroots, hfree⟩ := ih hw₁ hnamed ha
    refine ⟨List.forall_mem_cons.2 ⟨hfits, hrest⟩, List.pairwise_cons.2 ⟨?_, hroots⟩,
      List.forall_mem_cons.2 ⟨fun b hb => (hhead b hb).1, ?_⟩⟩
    · intro later hlater b hb type root hget hroot a ha hkind
      have hthere := (hhead a ha).2 root hkind
      rw [hfree later hlater b hb type root hget hroot] at hthere
      exact Nat.lt_irrefl 0 hthere
    · intro later hlater b hb type root hget hroot
      have hnone := hfree later hlater b hb type root hget hroot
      have hle := Arena.rootCount_le_of_outline hkept root
      omega

theorem growing_bare (registry : Registry) (board : Board) :
    Growing registry board (bare registry board) :=
  ⟨rfl, rfl, grounded_bare registry board⟩

/-- With any registry, a snapshot is rebuilt if and only if it is not too new, its
board is known, its stacks fit, and no root comes after it is there. -/
theorem restores_iff {s : Snapshot} (hnamed : s.Named) :
    (∃ w, restore registry s = .ok w) ↔ s.version ≤ Snapshot.currentVersion ∧
      ∃ board, Board.find? s.board = some board ∧
        (∀ stack ∈ s.canvas, stack.Fits registry board) ∧ Snapshot.RootsFit registry s.canvas := by
  simp only [restore_eq_ok, Board.resolve_eq_ok, UInt32.not_lt]
  constructor
  · rintro ⟨_, hversion, board, w, hboard, ha, _⟩
    obtain ⟨hfits, hroots, _⟩ := fit_of_restoreStacks (growing_bare registry board) hnamed ha
    exact ⟨hversion, board, hboard, hfits, hroots⟩
  · rintro ⟨hversion, board, hboard, hfits, hroots⟩
    obtain ⟨ha, _⟩ := restoreStacks_eq (w := bare registry board) (laid_bare registry board)
      hfits hroots fun stack _ b _ type _ => by cases type.rootKind? <;> rfl
    exact ⟨_, hversion, board, _, hboard, ha, rfl⟩

/-- Where the roots, and nothing else, are registered as roots, a snapshot is
rebuilt if and only if it is not too new, its board is known, its stacks fit, and
no root begins two of them. -/
theorem restores_iff_fits (hr : registry.HasRoots) (hregular : registry.Regular) {s : Snapshot}
    (hnamed : s.Named) :
    (∃ w, restore registry s = .ok w) ↔ s.version ≤ Snapshot.currentVersion ∧
      ∃ board, Board.find? s.board = some board ∧
        (∀ stack ∈ s.canvas, stack.Fits registry board) ∧ Snapshot.RootsOnce s.canvas := by
  rw [restores_iff hnamed, Snapshot.rootsFit_iff_rootsOnce hr hregular]

end Workspace

end BlockSketch
