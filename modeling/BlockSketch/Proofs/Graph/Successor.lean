import BlockSketch.Proofs.Graph.Forest

/-!
Edits and what comes out of them. A workspace is coherent if its links form a
forest, its blocks are numbered in order below the counter, and no root is there
twice. Each edit that is accepted leads from a coherent workspace to a
`Successor` of it, and this module has one lemma for each edit that says so.

The registry may hold any types at all. All that is asked of it is that the two
root kinds are registered as what they are (`Registry.HasRoots`); otherwise a
root could be created twice, or deleted.
-/

namespace BlockSketch

def Registry.HasRoots (registry : Registry) : Prop :=
  ∀ root : RootKind, ∃ type, registry.get? root.kindName = some type ∧ type.category = .root root

theorem Registry.HasRoots.rootKind? {registry : Registry} (h : registry.HasRoots) {root : RootKind}
    {type : BlockType} (ht : registry.get? root.kindName = some type) :
    type.rootKind? = some root := by
  obtain ⟨type', ht', hcat⟩ := h root
  rw [ht, Option.some_inj] at ht'
  rw [ht', BlockType.rootKind?, hcat]

namespace Workspace

variable {w w' w'' : Workspace} {id : BlockId}

/-- What holds of a program whatever has been done to it, also while it is being
read back: no root is there twice. -/
structure Coherent (w : Workspace) : Prop where
  forest : w.arena.Forest
  numbered : w.arena.Numbered w.nextId
  rootCount_le : ∀ root, w.arena.rootCount root ≤ 1

/-- Two blocks of a root kind are the same block. -/
theorem Coherent.eq_of_rootKind (h : w.Coherent) {root : RootKind} {a b : Block}
    (ha : a ∈ w.arena) (hb : b ∈ w.arena) (hka : a.kind = root.kindName)
    (hkb : b.kind = root.kindName) : a = b := by
  have hle := h.rootCount_le root
  rw [Arena.rootCount, List.countP_eq_length_filter] at hle
  have hmem : ∀ {d : Block}, d ∈ w.arena → d.kind = root.kindName →
      d ∈ w.arena.filter fun b => b.kind = root.kindName :=
    fun hd hk => List.mem_filter.2 ⟨hd, by simpa using hk⟩
  have ha' := hmem ha hka
  have hb' := hmem hb hkb
  generalize w.arena.filter (fun b => b.kind = root.kindName) = roots at hle ha' hb'
  cases roots with
  | nil => cases ha'
  | cons d rest =>
    cases rest with
    | nil =>
      rw [List.mem_singleton] at ha' hb'
      rw [ha', hb']
    | cons c others => simp at hle

/-- A root is the block of its kind. -/
theorem Coherent.root?_eq_some (h : w.Coherent) {root : RootKind} :
    w.arena.root? root = some id ↔ ∃ b, w.arena.find? id = some b ∧ b.kind = root.kindName := by
  have hnodup := h.numbered.nodup
  refine ⟨Arena.find?_of_root? hnodup, ?_⟩
  rintro ⟨b, hb, hkind⟩
  cases hroot : w.arena.root? root with
  | none =>
    simp only [Arena.root?, Option.map_eq_none_iff, List.find?_eq_none] at hroot
    exact absurd hkind (by simpa using hroot b (Arena.mem_of_find? hb))
  | some x =>
    obtain ⟨d, hd, hdkind⟩ := Arena.find?_of_root? hnodup hroot
    have hsame := h.eq_of_rootKind (Arena.mem_of_find? hd) (Arena.mem_of_find? hb) hdkind hkind
    rw [← Arena.id_of_find? hd, hsame, Arena.id_of_find? hb]

/-- A workspace that an edit has made out of another one. No root has gone, and
blocks that are new have new numbers. -/
structure Successor (w w' : Workspace) : Prop where
  registry : w'.registry = w.registry
  coherent : w'.Coherent
  rootCount_ge : ∀ root, w.arena.rootCount root ≤ w'.arena.rootCount root
  nextId_le : w.nextId ≤ w'.nextId
  fresh : ∀ id ∈ w'.arena.ids, id ∈ w.arena.ids ∨ w.nextId ≤ id.index

namespace Successor

theorem refl (h : w.Coherent) : w.Successor w where
  registry := rfl
  coherent := h
  rootCount_ge _ := Nat.le_refl _
  nextId_le := Nat.le_refl _
  fresh _ hid := .inl hid

theorem trans (h : w.Successor w') (h' : w'.Successor w'') : w.Successor w'' where
  registry := h'.registry.trans h.registry
  coherent := h'.coherent
  rootCount_ge root := Nat.le_trans (h.rootCount_ge root) (h'.rootCount_ge root)
  nextId_le := Nat.le_trans h.nextId_le h'.nextId_le
  fresh id hid := by
    obtain hid | hid := h'.fresh id hid
    · exact h.fresh id hid
    · exact .inr (Nat.le_trans h.nextId_le hid)

/-- A number that was given and is not in use stays out of use. -/
theorem not_mem (h : w.Successor w') (hid : id ∉ w.arena.ids) (hlt : id.index < w.nextId) :
    id ∉ w'.arena.ids := by
  intro hmem
  obtain hmem | hge := h.fresh id hmem
  · exact hid hmem
  · exact absurd hlt (Nat.not_lt.2 hge)

end Successor

/-! ### Edits that leave the outline alone

These put another arena in the place of the one that was there, with the same
numbers and kinds, and with links that are those of a forest again. -/

/-- The same program with other links or other values in its fields. -/
def Rewired (w w' : Workspace) : Prop :=
  ∃ arena, w' = w.withArena arena ∧ arena.outline = w.arena.outline ∧ arena.Forest

theorem rewired_self (hf : w.arena.Forest) : w.Rewired w :=
  ⟨w.arena, rfl, rfl, hf⟩

theorem rewired_storeField (hf : w.arena.Forest) (id : BlockId) (name : String)
    (value : FieldValue) : w.Rewired (w.storeField id name value) := by
  refine ⟨_, rfl, Arena.outline_modify _ _ (fun _ => rfl) fun _ => rfl, ?_⟩
  apply hf.modify (f := fun b => { b with fields := b.fields.insert name value })
    (fun _ => rfl) (fun _ => rfl)
  · exact fun b hb => ⟨hb.statements, hb.values⟩
  · intro b k
    cases k <;> rfl

theorem rewired_setField (hf : w.arena.Forest) {name : String} {value : FieldValue}
    (ha : w.setField id name value = .ok w') : w.Rewired w' := by
  obtain ⟨_, stored, _, _, rfl⟩ := setField_eq_ok.1 ha
  exact rewired_storeField hf id name stored

theorem rewired_restoreField (hf : w.arena.Forest) {name : String} {value : FieldValue}
    (ha : w.restoreField id name value = .ok w') : w.Rewired w' := by
  obtain ⟨_, stored, _, _, rfl⟩ := restoreField_eq_ok.1 ha
  exact rewired_storeField hf id name stored

theorem rewired_disconnect (hf : w.arena.Forest) (hd : w.arena.ids.Nodup)
    (ha : w.disconnect id = .ok w') : w.Rewired w' := by
  obtain ⟨_, rfl⟩ := disconnect_eq_ok.1 ha
  exact ⟨_, rfl, Arena.outline_detach .., hf.detach hd id⟩

theorem rewired_connectStatement (hf : w.arena.Forest) (hd : w.arena.ids.Nodup)
    {parent child : BlockId} {target : StatementTarget}
    (ha : w.connectStatement parent target child = .ok w') : w.Rewired w' := by
  obtain ⟨⟨hp, hc, hroot, hbelow⟩, _, _, hchained⟩ := connectStatement_eq_ok.1 ha
  unfold Chained at hchained
  split at hchained
  · exact ⟨_, hchained, Arena.outline_attach .., hf.attach hd hp hc hroot hbelow _⟩
  · rename_i displaced hdisplaced
    split at hchained
    · rw [hchained]
      exact rewired_self hf
    · rename_i hne
      refine ⟨_, hchained.2, ?_, hf.splice hd hp hc hroot hbelow hdisplaced hne⟩
      rw [Arena.outline_setLink, Arena.outline_attach]

theorem rewired_connectValue (hf : w.arena.Forest) (hd : w.arena.ids.Nodup)
    {parent child : BlockId} {slot : String}
    (ha : w.connectValue parent slot child = .ok w') : w.Rewired w' := by
  obtain ⟨⟨hp, hc, hroot, hbelow⟩, _, _, hw'⟩ := connectValue_eq_ok.1 ha
  split at hw'
  · rw [hw']
    exact rewired_self hf
  · exact ⟨_, hw', Arena.outline_attach .., hf.attach hd hp hc hroot hbelow _⟩

/-- Rewiring makes a successor. -/
theorem Coherent.rewired (h : w.Coherent) (hr : w.Rewired w') : w.Successor w' := by
  obtain ⟨arena, rfl, ho, hf⟩ := hr
  refine ⟨rfl, ⟨hf, h.numbered.of_outline ho, fun root => ?_⟩,
    fun root => Nat.le_of_eq (Arena.rootCount_of_outline ho root).symm, Nat.le_refl _,
    fun id hid => .inl (Arena.ids_of_outline ho ▸ hid)⟩
  show arena.rootCount root ≤ 1
  rw [Arena.rootCount_of_outline ho]
  exact h.rootCount_le root

theorem Coherent.setField (h : w.Coherent) {name : String} {value : FieldValue}
    (ha : w.setField id name value = .ok w') : w.Successor w' :=
  h.rewired (rewired_setField h.forest ha)

theorem Coherent.restoreField (h : w.Coherent) {name : String} {value : FieldValue}
    (ha : w.restoreField id name value = .ok w') : w.Successor w' :=
  h.rewired (rewired_restoreField h.forest ha)

theorem Coherent.disconnect (h : w.Coherent) (ha : w.disconnect id = .ok w') : w.Successor w' :=
  h.rewired (rewired_disconnect h.forest h.numbered.nodup ha)

theorem Coherent.connectStatement (h : w.Coherent) {parent child : BlockId}
    {target : StatementTarget} (ha : w.connectStatement parent target child = .ok w') :
    w.Successor w' :=
  h.rewired (rewired_connectStatement h.forest h.numbered.nodup ha)

theorem Coherent.connectValue (h : w.Coherent) {parent child : BlockId} {slot : String}
    (ha : w.connectValue parent slot child = .ok w') : w.Successor w' :=
  h.rewired (rewired_connectValue h.forest h.numbered.nodup ha)

theorem Coherent.setBoard (h : w.Coherent) {board : String} (ha : w.setBoard board = .ok w') :
    w.Successor w' := by
  obtain ⟨board, _, rfl⟩ := setBoard_eq_ok.1 ha
  exact ⟨rfl, ⟨h.forest, h.numbered, h.rootCount_le⟩, fun _ => Nat.le_refl _, Nat.le_refl _,
    fun _ hid => .inl hid⟩

/-! ### Blocks that come -/

theorem tidy_freshBlock (type : BlockType) (board : Board) (id : BlockId) (position : Position) :
    (freshBlock type board id position).Tidy :=
  ⟨Entries.distinct_ofList _, Entries.distinct_ofList _⟩

/-- Nothing is attached to a new block. -/
theorem linked?_freshBlock (type : BlockType) (board : Board) (id : BlockId) (position : Position)
    (k : Link) : (freshBlock type board id position).linked? k = none := by
  have hempty : ∀ (slots : List String) (slot : String),
      ((Entries.ofList (slots.map fun slot => (slot, (none : Option BlockId)))).get? slot).join =
        none := by
    intro slots slot
    rw [Option.eq_none_iff_forall_not_mem]
    intro c hc
    have hmem := Entries.mem_of_mem_ofList
      ((Block.join_get?_eq_some (Entries.distinct_ofList _)).1 hc)
    obtain ⟨_, _, heq⟩ := List.mem_map.1 hmem
    cases heq
  cases k with
  | next => rfl
  | statement slot => exact hempty _ slot
  | value slot =>
    have := hempty (type.sockets.valueSlots.map ValueSlot.name) slot
    rwa [List.map_map] at this

theorem rootCount_add (w : Workspace) (type : BlockType) (position : Position) (root : RootKind) :
    (w.add type position).arena.rootCount root =
      w.arena.rootCount root + if type.kind = root.kindName then 1 else 0 := by
  simp [add, Arena.rootCount, List.countP_append, freshBlock, List.countP_cons]

theorem ids_add (w : Workspace) (type : BlockType) (position : Position) :
    (w.add type position).arena.ids = w.arena.ids ++ [⟨w.nextId⟩] := by
  simp [add, Arena.ids, freshBlock]

/-- A block is added, which must not be a root that is there. -/
theorem Coherent.add (h : w.Coherent) {type : BlockType}
    (hroot : ∀ root : RootKind, type.kind = root.kindName → w.arena.rootCount root = 0)
    (position : Position) : w.Successor (w.add type position) where
  registry := rfl
  coherent := by
    refine ⟨h.forest.add (tidy_freshBlock ..) (linked?_freshBlock _ _ _ _), h.numbered.add rfl, ?_⟩
    intro root
    rw [rootCount_add]
    split
    · rename_i hkind
      exact Nat.le_of_eq (congrArg (· + 1) (hroot root hkind))
    · exact h.rootCount_le root
  rootCount_ge root := by
    rw [rootCount_add]
    exact Nat.le_add_right ..
  nextId_le := Nat.le_succ _
  fresh id hid := by
    rw [ids_add] at hid
    obtain hid | hid := List.mem_append.1 hid
    · exact .inl hid
    · rw [List.mem_singleton.1 hid]
      exact .inr (Nat.le_refl _)

theorem Coherent.create (h : w.Coherent) (hr : w.registry.HasRoots) {kind : String}
    {position : Position} (ha : w.create kind position = .ok (w', id)) : w.Successor w' := by
  obtain ⟨type, ht, hroot, rfl, _⟩ := create_eq_ok.1 ha
  apply h.add
  intro root hkind
  rw [Registry.kind_of_get? ht] at hkind
  rw [hr.rootKind? (hkind ▸ ht)] at hroot
  exact Arena.root?_eq_none.1 hroot

theorem Coherent.ensureRoot (h : w.Coherent) (hr : w.registry.HasRoots) (root : RootKind) :
    w.Successor (w.ensureRoot root) ∧ (w.ensureRoot root).arena.rootCount root = 1 := by
  unfold Workspace.ensureRoot
  split
  · rename_i type hnone ht
    have hkind := Registry.kind_of_get? ht
    have hzero := Arena.root?_eq_none.1 hnone
    refine ⟨h.add ?_ _, ?_⟩
    · intro other hother
      have : other = root := by
        rw [hkind] at hother
        cases other <;> cases root <;> first | rfl | exact absurd hother (by decide)
      rwa [this]
    · rw [rootCount_add, hzero, if_pos hkind]
  · rename_i hnot
    refine ⟨.refl h, Nat.le_antisymm (h.rootCount_le root) (Nat.pos_of_ne_zero ?_)⟩
    intro hzero
    obtain ⟨type, ht, _⟩ := hr root
    exact hnot type (Arena.root?_eq_none.2 hzero) ht

def Rooted (w : Workspace) : Prop :=
  ∀ root, w.arena.rootCount root = 1

theorem Successor.rooted (h : w.Successor w') (hw : w.Rooted) : w'.Rooted := by
  intro root
  have := h.rootCount_ge root
  rw [hw root] at this
  exact Nat.le_antisymm (h.coherent.rootCount_le root) this

theorem Coherent.ensureRoots (h : w.Coherent) (hr : w.registry.HasRoots) :
    w.Successor w.ensureRoots ∧ w.ensureRoots.Rooted := by
  obtain ⟨hsetup, hone⟩ := h.ensureRoot hr .setup
  obtain ⟨hloop, htwo⟩ := hsetup.coherent.ensureRoot (hsetup.registry ▸ hr) .loop
  refine ⟨hsetup.trans hloop, fun root => ?_⟩
  cases root with
  | setup =>
    have := hloop.rootCount_ge .setup
    rw [hone] at this
    exact Nat.le_antisymm (hloop.coherent.rootCount_le .setup) this
  | loop => exact htwo

/-! ### Blocks that go -/

/-- Blocks of which none is a root are taken away, and the roots are counted as before. -/
theorem rootCount_remove {arena : Arena} {gone : List BlockId} (hd : arena.ids.Nodup)
    (hgone : ∀ x ∈ gone, arena.isRoot x = false) (root : RootKind) :
    (arena.remove gone).rootCount root = arena.rootCount root := by
  rw [Arena.rootCount, Arena.rootCount, Arena.remove, List.countP_filter]
  apply List.countP_congr
  intro b hb
  suffices b.kind = root.kindName → b.id ∉ gone by simpa using this
  intro hkind hmem
  have hroot := hgone b.id hmem
  rw [Arena.isRoot, Arena.find?_of_mem hd hb, Option.bind_some, Block.rootKind?, hkind,
    RootKind.ofKindName?_kindName] at hroot
  cases hroot

/-- A block whose type is not that of a root is not a root. -/
theorem isRoot_eq_false_of_rootKind? (hr : w.registry.HasRoots) {b : Block} {type : BlockType}
    (hb : w.arena.find? id = some b) (ht : w.registry.get? b.kind = some type)
    (hroot : type.rootKind? = none) : w.arena.isRoot id = false := by
  rw [Arena.isRoot, hb, Option.bind_some, Option.isSome_eq_false_iff, Option.isNone_iff_eq_none,
    Option.eq_none_iff_forall_ne_some]
  intro root hkind
  rw [hr.rootKind? (RootKind.ofKindName?_eq_some.1 hkind ▸ ht)] at hroot
  cases hroot

theorem Coherent.delete (h : w.Coherent) (hr : w.registry.HasRoots)
    (ha : w.delete id = .ok w') : w.Successor w' := by
  obtain ⟨b, type, hb, ht, hroot, hdoomed, rfl⟩ := delete_eq_ok.1 ha
  have hid := Arena.id_of_find? hb
  subst hid
  have hsame := Arena.outline_closeGap w.arena b
  have hnum := h.numbered.of_outline hsame
  have hgone : ∀ x ∈ b.id :: w.doomed b, (closeGap w.arena b).isRoot x = false := by
    intro x hx
    rw [Arena.isRoot_of_outline hsame]
    obtain rfl | hx := List.mem_cons.1 hx
    · exact isRoot_eq_false_of_rootKind? hr hb ht hroot
    · exact hdoomed x hx
  have hcount : ∀ root, ((closeGap w.arena b).remove (b.id :: w.doomed b)).rootCount root =
      w.arena.rootCount root := fun root =>
    (rootCount_remove hnum.nodup hgone root).trans (Arena.rootCount_of_outline hsame root)
  refine ⟨rfl, ⟨h.forest.delete h.numbered.nodup hb, hnum.remove _, ?_⟩, ?_, Nat.le_refl _, ?_⟩
  · intro root
    show ((closeGap w.arena b).remove (b.id :: w.doomed b)).rootCount root ≤ 1
    rw [hcount root]
    exact h.rootCount_le root
  · exact fun root => Nat.le_of_eq (hcount root).symm
  · intro x hx
    have hx : x ∈ Arena.ids ((closeGap w.arena b).remove (b.id :: w.doomed b)) := hx
    rw [Arena.ids_remove, Arena.ids_of_outline hsame] at hx
    exact .inl (List.mem_filter.1 hx).1

end Workspace

end BlockSketch
