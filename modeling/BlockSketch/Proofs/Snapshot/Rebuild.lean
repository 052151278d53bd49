import BlockSketch.Proofs.Graph.Shape
import BlockSketch.Proofs.Snapshot.Parts

/-!
Rebuilding meets no refusal. If a stored block fits, restoring it lays it out at
the top level; a chain, the chains in slots and the blocks in slots are laid out
and attached. The four statements are proved together, by induction on the
snapshot: each begins in an arena that is laid out, at a block where the links
are free, and leaves one. Stacks are restored one after the other, each behind
the ones before.
-/

namespace BlockSketch

namespace Workspace

open StoredBlock

variable {w : Workspace} {id parent child : BlockId} {type : BlockType} {k : Link}
  {free : Link → Prop}

/-! ### One field, one connection -/

/-- The fields of a block are stored one after the other. -/
theorem restoreFields_eq {fields : List (String × FieldValue)} (ht : w.typeOf id = .ok type)
    (hf : ∀ name value, (name, value) ∈ fields → ∃ spec stored,
      type.field? name = some spec ∧ restorable spec value w.board = .ok stored) :
    fields.foldlM (fun w field => w.restoreField id field.1 field.2) w =
      .ok (w.withArena (w.arena.modify id fun b =>
        { b with fields := b.fields.write (restoredFields type w.board fields) })) := by
  induction fields generalizing w with
  | nil =>
    show Except.ok w = .ok (w.withArena (w.arena.modify id fun b => b))
    rw [Arena.modify_id]
    rfl
  | cons field rest ih =>
    obtain ⟨name, value⟩ := field
    obtain ⟨spec, stored, hspec, hstored⟩ := hf name value (List.mem_cons_self ..)
    have hvalue : restoredValue type w.board name value = stored := by
      rw [restoredValue, hspec]
      simp only [hstored]
    have hfirst : w.restoreField id name value = .ok (w.storeField id name stored) :=
      restoreField_eq_ok.2 ⟨spec, stored, fieldSpec_eq_ok.2 ⟨type, ht, hspec⟩, hstored, rfl⟩
    have ho : Arena.outline (w.arena.modify id fun b =>
        { b with fields := b.fields.insert name stored }) = w.arena.outline :=
      Arena.outline_modify _ _ (fun _ => rfl) fun _ => rfl
    have hrest := ih (w := w.storeField id name stored) ((typeOf_of_outline ho id).trans ht)
      fun name value hmem => hf name value (List.mem_cons_of_mem _ hmem)
    rw [List.foldlM_cons, hfirst]
    show List.foldlM _ (w.storeField id name stored) rest = _
    rw [hrest]
    simp only [storeField, withArena, restoredFields, List.map_cons, hvalue, Entries.write_cons]
    rw [Arena.modify_modify (f := fun b => { b with fields := b.fields.insert name stored }) _ _ _
      fun _ => rfl]

theorem isRoot_of_kind {b : Block} (hb : w.arena.find? child = some b)
    (hroot : RootKind.ofKindName? b.kind = none) : w.arena.isRoot child = false := by
  rw [Arena.isRoot, hb, Option.bind_some, Block.rootKind?, hroot]
  rfl

theorem connectable_top (h : w.arena.Laid w.nextId) (hp : parent ∈ w.arena.ids)
    (hc : w.arena.Top child) (hlt : parent.index < child.index)
    (hroot : w.arena.isRoot child = false) : w.Connectable parent child := by
  refine ⟨hp, hc.1, hroot, fun hr => ?_⟩
  have := h.le_of_reach (h.forest.tidy.reachable_iff.1 hr)
  omega

/-- A block at the top level is attached to an earlier one where nothing is. -/
theorem connectStatement_top (h : w.arena.Laid w.nextId) {target : StatementTarget}
    (hready : w.Ready parent type free) (hfree : free target.link)
    (htarget : hasTarget type target = true) (hc : w.arena.Top child)
    (hlt : parent.index < child.index) {b : Block} (hb : w.arena.find? child = some b)
    (hchains : w.registry.Chains b.kind) :
    w.connectStatement parent target child =
      .ok (w.withArena (w.arena.setLink parent target.link (some child))) := by
  obtain ⟨hroot, childType, hget, hchain⟩ := hchains
  refine connectStatement_eq_ok.2
    ⟨connectable_top h hready.mem hc hlt (isRoot_of_kind hb hroot),
      ⟨type, hready.typeOf_eq, htarget⟩, ⟨childType, typeOf_of_find? hb hget, hchain⟩, ?_⟩
  rw [Chained, hready.linked?_eq hfree]
  show w.withArena _ = w.withArena _
  rw [attach, h.detach_of_free hc.2]

theorem connectValue_top (h : w.arena.Laid w.nextId) {slot : String}
    (hready : w.Ready parent type free) (hfree : free (.value slot))
    (hslot : slot ∈ type.sockets.valueSlots.map ValueSlot.name) (hc : w.arena.Top child)
    (hlt : parent.index < child.index) {b : Block} (hb : w.arena.find? child = some b)
    (hplugs : w.registry.Plugs b.kind) :
    w.connectValue parent slot child =
      .ok (w.withArena (w.arena.setLink parent (.value slot) (some child))) := by
  obtain ⟨hroot, childType, hget, hplug⟩ := hplugs
  refine connectValue_eq_ok.2
    ⟨connectable_top h hready.mem hc hlt (isRoot_of_kind hb hroot),
      ⟨type, hready.typeOf_eq, ?_⟩, ⟨childType, typeOf_of_find? hb hget, hplug⟩, ?_⟩
  · simpa [Sockets.valueSlot?] using hslot
  · rw [hready.linked?_eq hfree, if_neg nofun, attach, h.detach_of_free hc.2]

/-- The fields of a new block are set. -/
theorem createFields_eq {kind : String} {fields : List (String × FieldValue)}
    {position : Position} (h : w.arena.Laid w.nextId) (hget : w.registry.get? kind = some type)
    (hf : ∀ name value, (name, value) ∈ fields → ∃ spec stored,
      type.field? name = some spec ∧ restorable spec value w.board = .ok stored) :
    fields.foldlM (fun v field => v.restoreField ⟨w.nextId⟩ field.1 field.2)
        (w.add type position) = .ok (w.newBlock type position fields) := by
  have ht : (w.add type position).typeOf ⟨w.nextId⟩ = .ok type :=
    (ready_newBlock h hget position []).typeOf_eq
  rw [restoreFields_eq ht hf]
  exact congrArg (fun arena => Except.ok (w.grown arena 1)) (modify_new h rfl (by simp) _)

/-! ### A block that is attached -/

section Attached

variable {s : StoredBlock} (h : w.arena.Laid w.nextId)
  (hgrown : w.GrowsTo (w.laidBlock .origin s) (· = ⟨w.nextId⟩)) (hready : w.Ready parent type free)

include h hgrown hready

/-- A block that is no root and has been laid out is attached to another one. -/
theorem growsTo_hungBlock {childType : BlockType} (hget : w.registry.get? s.kind = some childType)
    (hroot : RootKind.ofKindName? s.kind = none) (hfree : free k) :
    (w.laidBlock .origin s).withArena
          ((w.laidBlock .origin s).arena.setLink parent k (some ⟨w.nextId⟩)) =
        w.hungBlock parent k s ∧
      w.GrowsTo (w.hungBlock parent k s) fun _ => False := by
  obtain ⟨b, hb, hkind, _⟩ := find?_layBlock w.board hget (h.numbered.not_mem (Nat.le_refl _))
    .origin none
  have hnotRoot := isRoot_of_kind (w := w.laidBlock .origin s) hb (by rw [hkind]; exact hroot)
  obtain ⟨hsplit, hgrown'⟩ := h.attach_grown hgrown hready.mem (hready.linked?_eq hfree) hnotRoot
  exact ⟨congrArg (w.grown · s.count) hsplit, hgrown'⟩

theorem connectStatement_laid (target : StatementTarget) (hchains : w.registry.Chains s.kind)
    (hfree : free target.link) (htarget : hasTarget type target = true) :
    (w.laidBlock .origin s).connectStatement parent target ⟨w.nextId⟩ =
        .ok (w.hungBlock parent target.link s) ∧
      w.GrowsTo (w.hungBlock parent target.link s) fun _ => False := by
  have hchild := hchains
  obtain ⟨hroot, childType, hget, _⟩ := hchains
  obtain ⟨b, hb, hkind, _⟩ := find?_layBlock w.board hget (h.numbered.not_mem (Nat.le_refl _))
    .origin none
  obtain ⟨hsplit, hgrown'⟩ := growsTo_hungBlock h hgrown hready hget hroot hfree
  refine ⟨?_, hgrown'⟩
  rw [← hsplit]
  exact connectStatement_top hgrown.laid (hready.append _ _) hfree htarget
    ((hgrown.top _).2 (.inr rfl)) (h.numbered.below _ hready.mem) hb (by rw [hkind]; exact hchild)

theorem connectValue_laid {slot : String} (hplugs : w.registry.Plugs s.kind)
    (hfree : free (.value slot)) (hslot : slot ∈ type.sockets.valueSlots.map ValueSlot.name) :
    (w.laidBlock .origin s).connectValue parent slot ⟨w.nextId⟩ =
        .ok (w.hungBlock parent (.value slot) s) ∧
      w.GrowsTo (w.hungBlock parent (.value slot) s) fun _ => False := by
  have hchild := hplugs
  obtain ⟨hroot, childType, hget, _⟩ := hplugs
  obtain ⟨b, hb, hkind, _⟩ := find?_layBlock w.board hget (h.numbered.not_mem (Nat.le_refl _))
    .origin none
  obtain ⟨hsplit, hgrown'⟩ := growsTo_hungBlock h hgrown hready hget hroot hfree
  refine ⟨?_, hgrown'⟩
  rw [← hsplit]
  exact connectValue_top hgrown.laid (hready.append _ _) hfree hslot
    ((hgrown.top _).2 (.inr rfl)) (h.numbered.below _ hready.mem) hb (by rw [hkind]; exact hchild)

end Attached

/-! ### The parts of a snapshot -/

/-- Blocks that are attached to others are no roots, and can be there any number
of times. -/
theorem root?_of_chains {kind : String} (h : w.registry.Chains kind) :
    ∀ type, w.registry.get? kind = some type → type.rootKind?.bind w.arena.root? = none := by
  intro type hget
  obtain ⟨_, type', hget', hchain⟩ := h
  rw [hget, Option.some_inj] at hget'
  rw [← hget', BlockType.isChainable, Bool.and_eq_true, beq_iff_eq] at hchain
  rw [BlockType.rootKind?, hchain.1]
  rfl

theorem root?_of_plugs {kind : String} (h : w.registry.Plugs kind) :
    ∀ type, w.registry.get? kind = some type → type.rootKind?.bind w.arena.root? = none := by
  intro type hget
  obtain ⟨_, type', hget', hplug⟩ := h
  rw [hget, Option.some_inj] at hget'
  rw [← hget', BlockType.isPluggable, Bool.and_eq_true, beq_iff_eq] at hplug
  rw [BlockType.rootKind?, hplug.1]
  rfl

theorem next_of_continues {kind : String} (hget : w.registry.get? kind = some type)
    (h : w.registry.Continues kind) : type.sockets.next = true := by
  obtain ⟨type', hget', hnext⟩ := h
  rw [hget, Option.some_inj] at hget'
  rw [hget']
  exact hnext

/-- A step succeeds, and so does what comes after it. -/
theorem bind_of_ok {ε α β : Type} {x : Except ε α} {f : α → Except ε β} {a : α} {b : β}
    (hx : x = .ok a) (hf : f a = .ok b) : (x >>= f) = .ok b :=
  bind_eq_ok.2 ⟨a, hx, hf⟩

mutual

theorem restoreBlock_eq {w : Workspace} (h : w.arena.Laid w.nextId) (position : Position) :
    ∀ {s : StoredBlock}, s.Fits w.registry w.board →
      (∀ type, w.registry.get? s.kind = some type → type.rootKind?.bind w.arena.root? = none) →
      w.restoreBlock position s = .ok (w.laidBlock position s, ⟨w.nextId⟩) ∧
        w.GrowsTo (w.laidBlock position s) (· = ⟨w.nextId⟩)
  | ⟨kind, fields, statements, values⟩, hfits, hroot => by
    obtain ⟨type, hget, ⟨_, hfields⟩, hds, hslots, hdv, hvalues⟩ := hfits
    have hcreate : w.create kind position = .ok (w.add type position, ⟨w.nextId⟩) :=
      create_eq_ok.2 ⟨type, hget, hroot type hget, rfl, rfl⟩
    have hnew := growsTo_newBlock h type position fields
    have hready := ready_newBlock h hget position fields
    obtain ⟨hslotsEq, hslotsGrown⟩ := restoreSlots_eq hnew.laid hready hslots hds
      fun _ _ => trivial
    obtain ⟨hvaluesEq, hvaluesGrown⟩ := restoreValues_eq hslotsGrown.laid
      (hready.filledSlots statements) hvalues hdv fun slot _ => ⟨trivial, slot, rfl⟩
    rw [newBlock_filled h hget] at hvaluesEq hvaluesGrown
    rw [Workspace.restoreBlock]
    exact ⟨bind_of_ok hcreate (bind_of_ok (createFields_eq h hget hfields)
        (bind_of_ok hslotsEq (bind_of_ok hvaluesEq rfl))),
      hnew.trans (hslotsGrown.trans hvaluesGrown)⟩

theorem restoreTail_eq {w : Workspace} (h : w.arena.Laid w.nextId) {last : BlockId}
    {type : BlockType} (hready : w.Ready last type (· = .next)) :
    ∀ {place : Prop} {chain : List StoredBlock}, ChainFits w.registry w.board place chain →
      (place → type.sockets.next = true) →
      w.restoreTail last chain = .ok (w.hungChain last .next chain) ∧
        w.GrowsTo (w.hungChain last .next chain) fun _ => False
  | _, [], _, _ => by
    rw [hungChain_nil h.numbered.nodup (hready.linked?_eq rfl)]
    exact ⟨rfl, .refl h⟩
  | _, b :: rest, hfits, hplace => by
    obtain ⟨hp, hchains, hb, hrest⟩ := hfits
    obtain ⟨hblock, hgrown⟩ := restoreBlock_eq h .origin hb (root?_of_chains hchains)
    obtain ⟨hconnect, hgrown'⟩ := connectStatement_laid h hgrown hready .next hchains rfl
      (hplace hp)
    obtain ⟨_, childType, hget, _⟩ := hchains
    obtain ⟨htail, hgrown''⟩ := restoreTail_eq hgrown'.laid (ready_hungBlock h hget last .next)
      hrest (next_of_continues hget)
    rw [hungBlock_hungChain h hget] at htail hgrown''
    rw [Workspace.restoreTail]
    exact ⟨bind_of_ok hblock (bind_of_ok hconnect htail), hgrown'.trans hgrown''⟩

theorem restoreSlots_eq {w : Workspace} (h : w.arena.Laid w.nextId) {x : BlockId}
    {type : BlockType} {free : Link → Prop} (hready : w.Ready x type free) :
    ∀ {slots : List (String × List StoredBlock)}, SlotsFit w.registry w.board type slots →
      Entries.Distinct slots → (∀ slot ∈ Entries.names slots, free (.statement slot)) →
      w.restoreSlots x slots = .ok (w.filledSlots x slots) ∧
        w.GrowsTo (w.filledSlots x slots) fun _ => False
  | [], _, _, _ => by
    rw [filledSlots_nil]
    exact ⟨rfl, .refl h⟩
  | (slot, []) :: rest, hfits, hd, hfree => by
    rw [Workspace.restoreSlots, filledSlots_nil_cons]
    exact restoreSlots_eq h hready hfits.2 (List.nodup_cons.1 hd).2
      fun slot hslot => hfree slot (List.mem_cons_of_mem _ hslot)
  | (slot, b :: chain) :: rest, hfits, hd, hfree => by
    obtain ⟨⟨hslot, hchains, hb, hchain⟩, hrest⟩ := hfits
    have htarget : hasTarget type (.slot slot) = true := by
      simpa [hasTarget, Sockets.hasStatementSlot] using hslot
    obtain ⟨hblock, hgrown⟩ := restoreBlock_eq h .origin hb (root?_of_chains hchains)
    obtain ⟨hconnect, hgrown'⟩ := connectStatement_laid h hgrown hready (.slot slot)
      hchains (hfree slot (List.mem_cons_self ..)) htarget
    obtain ⟨_, childType, hget, _⟩ := hchains
    obtain ⟨htail, hgrown''⟩ := restoreTail_eq hgrown'.laid
      (ready_hungBlock h hget x (.statement slot)) hchain (next_of_continues hget)
    have hsame : (w.hungBlock x (StatementTarget.slot slot).link b).hungChain ⟨w.nextId⟩ .next
        chain = w.hungChain x (.statement slot) (b :: chain) := hungBlock_hungChain h hget ..
    rw [hsame] at htail hgrown''
    have hhung := hgrown'.trans hgrown''
    -- The other slots are as free as they were.
    obtain ⟨hnot, hd'⟩ := List.nodup_cons.1 hd
    obtain ⟨hslotsEq, hslotsGrown⟩ := restoreSlots_eq hhung.laid (hready.setLink _ _ _ _) hrest hd'
      fun other hother => ⟨hfree other (List.mem_cons_of_mem _ hother), by
        rintro heq
        cases heq
        exact hnot hother⟩
    rw [hungChain_filledSlots hready.mem hhung.laid.numbered.nodup] at hslotsEq hslotsGrown
    rw [Workspace.restoreSlots]
    exact ⟨bind_of_ok hblock (bind_of_ok hconnect (bind_of_ok htail hslotsEq)),
      hhung.trans hslotsGrown⟩

theorem restoreValues_eq {w : Workspace} (h : w.arena.Laid w.nextId) {x : BlockId}
    {type : BlockType} {free : Link → Prop} (hready : w.Ready x type free) :
    ∀ {values : List (String × StoredBlock)}, ValuesFit w.registry w.board type values →
      Entries.Distinct values → (∀ slot ∈ Entries.names values, free (.value slot)) →
      w.restoreValues x values = .ok (w.filledValues x values) ∧
        w.GrowsTo (w.filledValues x values) fun _ => False
  | [], _, _, _ => by
    rw [filledValues_nil]
    exact ⟨rfl, .refl h⟩
  | (slot, b) :: rest, hfits, hd, hfree => by
    obtain ⟨hslot, hplugs, hb, hrest⟩ := hfits
    obtain ⟨hblock, hgrown⟩ := restoreBlock_eq h .origin hb (root?_of_plugs hplugs)
    obtain ⟨hconnect, hgrown'⟩ := connectValue_laid h hgrown hready hplugs
      (hfree slot (List.mem_cons_self ..)) hslot
    obtain ⟨hnot, hd'⟩ := List.nodup_cons.1 hd
    obtain ⟨hrestEq, hrestGrown⟩ := restoreValues_eq hgrown'.laid (hready.setLink _ _ _ _) hrest hd'
      fun other hother => ⟨hfree other (List.mem_cons_of_mem _ hother), by
        rintro heq
        cases heq
        exact hnot hother⟩
    rw [hungBlock_filledValues hready.mem hgrown'.laid.numbered.nodup] at hrestEq hrestGrown
    rw [Workspace.restoreValues]
    exact ⟨bind_of_ok hblock (bind_of_ok hconnect hrestEq), hgrown'.trans hrestGrown⟩

end

/-! ### Stacks -/

/-- A root that is there is at the top level, so it was there before or begins
the stack that has been added. -/
theorem root?_grown {A L : Arena} {n m : Nat} {root : RootKind}
    (h : A.Grown (A ++ L) m (· = ⟨n⟩)) (hroot : A.root? root = none)
    (hhead : ∀ b, Arena.find? (A ++ L) ⟨n⟩ = some b → b.kind ≠ root.kindName) :
    Arena.root? (A ++ L) root = none := by
  have hnone : ∀ {B : Arena}, B.root? root = none ↔ ∀ b ∈ B, b.kind ≠ root.kindName := by
    intro B
    simp [Arena.root?]
  rw [hnone] at hroot ⊢
  intro b hb hkind
  have hfind := Arena.find?_of_mem h.laid.numbered.nodup hb
  have htop : Arena.Top (A ++ L) b.id := by
    refine ⟨Arena.mem_ids_of_find? hfind, fun a k hk => ?_⟩
    have hnot := h.laid.forest.rootsFree hk
    rw [Arena.isRoot, hfind, Option.bind_some, Block.rootKind?, hkind,
      RootKind.ofKindName?_kindName] at hnot
    cases hnot
  obtain htop | hid := (h.top b.id).1 htop
  · obtain ⟨c, hc⟩ := Arena.exists_find? htop.1
    have hsame := Arena.find?_append_left htop.1 L
    rw [hfind, hc, Option.some_inj] at hsame
    exact hroot c (Arena.mem_of_find? hc) (hsame ▸ hkind)
  · rw [hid] at hfind
    exact hhead b hfind hkind

theorem topLevel_eq_filter (A : Arena) : A.topLevel = A.ids.filter fun x => x ∈ A.topLevel := by
  rw [Arena.topLevel]
  apply List.filter_congr
  intro x hx
  simp [List.mem_filter, hx]

/-- What has been laid out behind others comes after them at the top level. -/
theorem topLevel_grown {A L : Arena} {n m : Nat} (hA : A.Laid n)
    (h : A.Grown (A ++ L) m (· = ⟨n⟩)) : Arena.topLevel (A ++ L) = A.topLevel ++ [⟨n⟩] := by
  have hmem : ∀ {B : Arena} {k : Nat}, B.Laid k → ∀ x, x ∈ B.topLevel ↔ B.Top x :=
    fun hB x => Arena.Tidy.mem_topLevel hB.forest.tidy hB.numbered.nodup
  have hnew : (⟨n⟩ : BlockId) ∉ A.ids := hA.numbered.not_mem (Nat.le_refl n)
  have hthere : (⟨n⟩ : BlockId) ∈ L.ids := by
    have hids := ((h.top ⟨n⟩).2 (.inr rfl)).1
    rw [Arena.ids_append, List.mem_append] at hids
    exact hids.resolve_left hnew
  have hnodup := h.laid.numbered.nodup
  rw [Arena.ids_append, List.nodup_append] at hnodup
  have hleft : A.ids.filter (fun x => x ∈ Arena.topLevel (A ++ L)) = A.topLevel := by
    rw [topLevel_eq_filter A]
    apply List.filter_congr
    intro x hx
    rw [decide_eq_decide, hmem h.laid, h.top, hmem hA]
    refine or_iff_left ?_
    rintro rfl
    exact hnew hx
  have hright : L.ids.filter (fun x => x ∈ Arena.topLevel (A ++ L)) = [⟨n⟩] := by
    have hone : L.ids.filter (fun x => x ∈ Arena.topLevel (A ++ L)) = L.ids.filter (· == ⟨n⟩) := by
      apply List.filter_congr
      intro x hx
      refine decide_eq_decide.2 ?_
      rw [hmem h.laid, h.top]
      exact or_iff_right fun htop => hnodup.2.2 x htop.1 x hx rfl
    rw [hone, List.filter_beq, List.Nodup.count hnodup.2.1, if_pos hthere]
    rfl
  rw [topLevel_eq_filter (A ++ L), Arena.ids_append, List.filter_append, hleft, hright]

def laidStack (w : Workspace) (stack : StoredStack) : Workspace :=
  w.grown (w.arena ++ layChain w.registry w.board w.nextId ⟨stack.x, stack.y⟩ stack.blocks)
    (countChain stack.blocks)

/-- If the stack begins with a root, this root is not there yet. -/
def RootFree (w : Workspace) (stack : StoredStack) : Prop :=
  ∀ b ∈ stack.blocks.head?, ∀ type, w.registry.get? b.kind = some type →
    type.rootKind?.bind w.arena.root? = none

section Stacks

variable {stack : StoredStack}

/-- A stack that fits is added at the end of the top level. -/
theorem restoreStack_eq (h : w.arena.Laid w.nextId) (hfits : stack.Fits w.registry w.board)
    (hroot : w.RootFree stack) :
    w.restoreStack stack = .ok (w.laidStack stack) ∧
      w.GrowsTo (w.laidStack stack) (· = ⟨w.nextId⟩) := by
  obtain ⟨first, chain, hblocks, hfirst, hchain⟩ := hfits
  obtain ⟨hblock, hgrown⟩ := restoreBlock_eq h ⟨stack.x, stack.y⟩ hfirst
    (hroot first (by rw [hblocks]; rfl))
  obtain ⟨type, hget⟩ := hfirst.registered
  obtain ⟨htail, hgrown'⟩ := restoreTail_eq hgrown.laid
    (ready_head (h.numbered.not_mem (Nat.le_refl _)) hget _ _) hchain (next_of_continues hget)
  have hsame : (w.laidBlock ⟨stack.x, stack.y⟩ first).hungChain ⟨w.nextId⟩ .next chain =
      w.laidStack stack := by
    rw [laidStack, hblocks]
    exact laidBlock_hungChain h hget ⟨stack.x, stack.y⟩ chain
  rw [hsame] at htail hgrown'
  exact ⟨restoreStack_eq_ok.2 ⟨first, chain, hblocks, _, _, hblock, htail⟩, hgrown.trans hgrown'⟩

/-- The stack begins with its first block. -/
theorem find?_laidStack (h : w.arena.Laid w.nextId) (hfits : stack.Fits w.registry w.board) :
    ∃ first b, stack.blocks.head? = some first ∧
      (w.laidStack stack).arena.find? ⟨w.nextId⟩ = some b ∧ b.kind = first.kind := by
  obtain ⟨first, chain, hblocks, hfirst, _⟩ := hfits
  obtain ⟨type, hget⟩ := hfirst.registered
  obtain ⟨b, hb, hkind, _⟩ := find?_layBlock w.board hget (h.numbered.not_mem (Nat.le_refl _))
    ⟨stack.x, stack.y⟩ (first? (w.nextId + first.count) chain)
  refine ⟨first, b, by rw [hblocks]; rfl, ?_, hkind⟩
  rw [laidStack, hblocks, layChain, ← List.append_assoc]
  exact (Arena.find?_append_left (Arena.mem_ids_of_find? hb) _).trans hb

/-- A stack that begins with another root leaves the root of a later one free. -/
theorem RootFree.laidStack {later : StoredStack} (h : w.arena.Laid w.nextId)
    (hfits : stack.Fits w.registry w.board)
    (hgrown : w.GrowsTo (w.laidStack stack) (· = ⟨w.nextId⟩))
    (hother : ∀ b ∈ later.blocks.head?, ∀ type root, w.registry.get? b.kind = some type →
      type.rootKind? = some root → ∀ a ∈ stack.blocks.head?, a.kind ≠ root.kindName)
    (hfree : w.RootFree later) : (w.laidStack stack).RootFree later := by
  intro b hb type hget
  have hold := hfree b hb type hget
  cases hroot : type.rootKind? with
  | none => rfl
  | some root =>
    rw [hroot, Option.bind_some] at hold
    rw [Option.bind_some]
    refine root?_grown hgrown hold fun d hd => ?_
    obtain ⟨first, d', hfirst, hd', hkind⟩ := find?_laidStack h hfits
    have hsame : d = d' := Option.some_inj.1 (hd.symm.trans hd')
    rw [hsame, hkind]
    exact hother b hb type root hget hroot first hfirst

end Stacks

/-- A canvas whose stacks fit is rebuilt without being refused. -/
theorem restoreStacks_eq {canvas : List StoredStack} {w : Workspace}
    (h : w.arena.Laid w.nextId) (hfits : ∀ stack ∈ canvas, stack.Fits w.registry w.board)
    (hroots : Snapshot.RootsFit w.registry canvas) (hfree : ∀ stack ∈ canvas, w.RootFree stack) :
    canvas.foldlM restoreStack w =
        .ok (w.grown (w.arena ++ layCanvas w.registry w.board w.nextId canvas)
          (countCanvas canvas)) ∧
      Arena.Laid (w.arena ++ layCanvas w.registry w.board w.nextId canvas)
        (w.nextId + countCanvas canvas) ∧
      Arena.topLevel (w.arena ++ layCanvas w.registry w.board w.nextId canvas) =
        w.arena.topLevel ++ stackHeads w.nextId canvas := by
  induction canvas generalizing w with
  | nil =>
    rw [layCanvas, List.append_nil]
    exact ⟨rfl, h, by rw [stackHeads, List.append_nil]⟩
  | cons stack rest ih =>
    obtain ⟨hpair, hroots⟩ := List.pairwise_cons.1 hroots
    have hfit := hfits stack (List.mem_cons_self ..)
    obtain ⟨heq, hgrown⟩ := restoreStack_eq h hfit (hfree stack (List.mem_cons_self ..))
    have hfree' : ∀ s ∈ rest, (w.laidStack stack).RootFree s := fun s hs =>
      (hfree s (List.mem_cons_of_mem _ hs)).laidStack h hfit hgrown (hpair s hs)
    obtain ⟨hrest, hlaid, htop⟩ := ih hgrown.laid
      (fun s hs => hfits s (List.mem_cons_of_mem _ hs)) hroots hfree'
    have harena : (w.laidStack stack).arena ++ layCanvas (w.laidStack stack).registry
        (w.laidStack stack).board (w.laidStack stack).nextId rest =
        w.arena ++ layCanvas w.registry w.board w.nextId (stack :: rest) :=
      List.append_assoc ..
    have hold : (w.laidStack stack).arena.topLevel = w.arena.topLevel ++ [⟨w.nextId⟩] :=
      topLevel_grown h hgrown
    rw [harena] at hrest hlaid htop
    have hcount : countCanvas (stack :: rest) = countChain stack.blocks + countCanvas rest := rfl
    rw [hcount]
    refine ⟨?_, ?_, ?_⟩
    · rw [List.foldlM_cons]
      exact bind_of_ok heq (hrest.trans (congrArg Except.ok (grown_grown ..)))
    · rw [← Nat.add_assoc]
      exact hlaid
    · rw [htop, hold, List.append_assoc]
      rfl

end Workspace

end BlockSketch
