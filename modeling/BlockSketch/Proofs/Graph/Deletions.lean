import BlockSketch.Proofs.Graph.Grounded
import BlockSketch.Proofs.Graph.Shape

/-!
Deleting a block, all of it. What goes is found by following links from the slots
of the block, and what stays is repaired in one place: the link that held the
block, or, for a block on the canvas, the place of what came after it. In a forest
the two have nothing to do with each other. Nothing that goes is a root, the block
that holds the deleted one stays, and so does what comes after it; so a deletion
is refused for no other reason than that the block is missing or is a root.
-/

namespace BlockSketch

namespace Arena

/-- What becomes of a block when another one is deleted. -/
def healed (arena : Arena) (b d : Block) : Block :=
  match arena.parent? b.id with
  | some (p, k) => if d.id = p then d.withLink k b.next else d
  | none => if b.next = some d.id then { d with position := b.position } else d

theorem closeGap_eq_map (arena : Arena) (b : Block) :
    Workspace.closeGap arena b = arena.map (arena.healed b) := by
  unfold Workspace.closeGap healed
  cases arena.parent? b.id with
  | some parent => rfl
  | none =>
    cases b.next with
    | none => simp
    | some n =>
      apply List.map_congr_left
      intro d _
      simp [eq_comm]

@[simp] theorem id_healed (arena : Arena) (b d : Block) : (arena.healed b d).id = d.id := by
  unfold healed
  split
  · split <;> simp
  · split <;> rfl

theorem find?_closeGap (arena : Arena) (b : Block) (x : BlockId) :
    (Workspace.closeGap arena b).find? x = (arena.find? x).map (arena.healed b) := by
  rw [closeGap_eq_map, find?, List.find?_map]
  simp only [Function.comp_def, id_healed]
  rfl

end Arena

namespace Workspace

variable {registry : Registry} {w : Workspace} {id p x : BlockId} {k : Link} {b : Block}

/-! ### What is said of a deletion -/

/-- What goes when a block is deleted: the block, and what hangs from its slots. -/
def Goes (w : Workspace) (id x : BlockId) : Prop :=
  x = id ∨ ∃ k, k ≠ .next ∧ ∃ c, w.arena.linked? id k = some c ∧ w.arena.Reachable c x

/-- What comes out when a block is deleted. Where it hung, or lay on the canvas,
there is now what came after it; every other block that is left is as it was. -/
structure Deleted (w : Workspace) (b : Block) (w' : Workspace) : Prop where
  removed : ∀ x, x ∈ w'.arena.ids ↔ x ∈ w.arena.ids ∧ ¬ w.Goes b.id x
  inOrder : w'.arena.ids.Sublist w.arena.ids
  held : ∀ p k, w.arena.linked? p k = some b.id →
    ∃ d, w.block? p = some d ∧ w'.block? p = some (d.withLink k b.next)
  lay : b.id ∈ w.arena.topLevel → ∀ n, b.next = some n →
    n ∈ w'.arena.topLevel ∧
      ∃ d, w.block? n = some d ∧ w'.block? n = some { d with position := b.position }
  kept : ∀ x ∈ w'.arena.ids, (∀ k, w.arena.linked? x k ≠ some b.id) →
    (b.id ∈ w.arena.topLevel → b.next ≠ some x) → w'.block? x = w.block? x
  present : ∀ a k c, w'.arena.linked? a k = some c → c ∈ w'.arena.ids
  registry : w'.registry = w.registry
  board : w'.board = w.board
  nextId : w'.nextId = w.nextId

structure DeletesExactly (w : Workspace) (id : BlockId) : Prop where
  missing : id ∉ w.arena.ids → w.delete id = .error (.blockNotFound id)
  root : ∀ type root, w.typeOf id = .ok type → type.category = .root root →
    w.delete id = .error (.protectedBlock id)
  refused : ∀ e, w.delete id = .error e → w.after (.edit (.delete id)) = w
  deleted : ∀ b, w.block? id = some b →
    (∀ type root, w.typeOf id = .ok type → type.category ≠ .root root) →
      ∃ w', w.delete id = .ok w' ∧ w.Deleted b w'

theorem rootKind?_eq_none {type : BlockType} :
    type.rootKind? = none ↔ ∀ root, type.category ≠ .root root := by
  unfold BlockType.rootKind?
  split <;> simp_all

/-! ### When a block is deleted -/

theorem delete_of_not_mem (hid : id ∉ w.arena.ids) :
    w.delete id = .error (.blockNotFound id) := by
  rw [delete, block, block?, Arena.find?_eq_none.2 hid]
  rfl

theorem delete_of_root {type : BlockType} {root : RootKind} (ht : w.typeOf id = .ok type)
    (hroot : type.category = .root root) : w.delete id = .error (.protectedBlock id) := by
  obtain ⟨d, hd, hget⟩ := typeOf_eq_ok.1 ht
  have hkind : type.rootKind? = some root := by rw [BlockType.rootKind?, hroot]
  rw [delete, block_eq_ok.2 hd]
  show (w.registry.lookup d.kind >>= _) = _
  rw [Registry.lookup_eq_ok.2 hget]
  show (if type.rootKind?.isSome = true then _ else _) = _
  rw [hkind]
  rfl

def leftOf (w : Workspace) (b : Block) : Arena :=
  (closeGap w.arena b).remove (b.id :: w.doomed b)

/-- In a forest a block is deleted if its type is no root. -/
theorem Grounded.delete_eq (h : w.Grounded) (hb : w.block? b.id = some b)
    (hroot : ∀ type root, w.typeOf b.id = .ok type → type.category ≠ .root root) :
    w.delete b.id = .ok (w.withArena (w.leftOf b)) := by
  obtain ⟨type, ht⟩ := h.known b (Arena.mem_of_find? hb)
  have hdoomed : ∀ d ∈ w.doomed b, w.arena.isRoot d = false := by
    intro d hd
    have hnone := h.forest.any_isRoot_plugged hb
    rw [List.any_eq_true, not_exists] at hnone
    simpa using fun hd' => hnone d ⟨hd, hd'⟩
  exact delete_eq_ok.2 ⟨b, type, hb, ht,
    rootKind?_eq_none.2 fun root => hroot type root (typeOf_of_find? hb ht), hdoomed, rfl⟩

/-! ### What is left -/

namespace Grounded

theorem mem_doomed (h : w.Grounded) (hb : w.block? b.id = some b) :
    x ∈ b.id :: w.doomed b ↔ w.Goes b.id x := by
  rw [List.mem_cons, doomed, h.forest.mem_flatMap_plugged hb, Goes]
  simp only [h.forest.tidy.reachable_iff]

theorem mem_ids_leftOf (h : w.Grounded) (hb : w.block? b.id = some b) :
    x ∈ (w.leftOf b).ids ↔ x ∈ w.arena.ids ∧ ¬ w.Goes b.id x := by
  rw [leftOf, Arena.ids_remove, Arena.ids_of_outline (Arena.outline_closeGap w.arena b),
    List.mem_filter, decide_eq_true_eq, h.mem_doomed hb]

theorem find?_leftOf (h : w.Grounded) (hb : w.block? b.id = some b) (hx : ¬ w.Goes b.id x) :
    (w.leftOf b).find? x = (w.arena.find? x).map (w.arena.healed b) := by
  rw [leftOf, Arena.find?_remove, if_neg (mt (h.mem_doomed hb).1 hx), Arena.find?_closeGap]

/-- The block that holds another one stays when that is deleted. -/
theorem not_goes_holder (h : w.Grounded) (hk : w.arena.linked? p k = some b.id) :
    ¬ w.Goes b.id p := by
  have hf := h.forest
  rintro (rfl | ⟨j, -, c, hc, hr⟩)
  · exact hf.treelike.not_reach_of_edge ⟨k, hk⟩ .refl
  · exact hf.treelike.not_reach_of_edge ⟨j, hc⟩ ((hf.tidy.reachable_iff.1 hr).tail ⟨k, hk⟩)

/-- What comes after a block stays when the block is deleted. -/
theorem not_goes_next (h : w.Grounded) (hb : w.block? b.id = some b) {n : BlockId}
    (hn : b.next = some n) : ¬ w.Goes b.id n := by
  rw [← h.mem_doomed hb, List.mem_cons, not_or]
  exact h.forest.next_not_below_slots hb hn

/-- What came after a block on the canvas lies on the canvas when the block is gone: the
one link that led to it started from there. -/
theorem next_mem_topLevel (h : w.Grounded) (hb : w.block? b.id = some b)
    (hfree : LinkMap.Free w.arena.linked? b.id) {n : BlockId}
    (hn : b.next = some n) : n ∈ (w.leftOf b).topLevel := by
  have hf := h.forest
  have hd := h.numbered.nodup
  have hlink : w.arena.linked? b.id .next = some n := (Arena.linked?_next_of_find? hb).trans hn
  have hleft : (w.leftOf b).Forest := hf.delete hd hb
  have hd' : (w.leftOf b).ids.Nodup :=
    ((h.numbered.of_outline (Arena.outline_closeGap w.arena b)).remove _).nodup
  refine (hleft.tidy.mem_topLevel hd').2
    ⟨(h.mem_ids_leftOf hb).2 ⟨hf.present hlink, h.not_goes_next hb hn⟩, fun a k hk => ?_⟩
  obtain ⟨⟨hgone, -⟩, ⟨hab, -⟩ | ⟨hac, -⟩⟩ := hf.linked?_delete hd b hk
  · exact hfree a k hab
  · exact hgone (hf.treelike.single hac hlink).1

/-- Where the block hung, there hangs now what came after it. -/
theorem healed_holder (h : w.Grounded) {d : Block} (hp : w.arena.find? p = some d)
    (hk : w.arena.linked? p k = some b.id) : w.arena.healed b d = d.withLink k b.next := by
  rw [Arena.healed, (h.forest.tidy.parent?_eq_some h.numbered.nodup h.forest.treelike).2 hk]
  simp only [Arena.id_of_find? hp, if_true]

/-- Where the block lay on the canvas, there lies now what came after it. -/
theorem healed_next (h : w.Grounded) (hfree : LinkMap.Free w.arena.linked? b.id) {n : BlockId}
    (hn : b.next = some n) {d : Block} (hd : w.arena.find? n = some d) :
    w.arena.healed b d = { d with position := b.position } := by
  have hnone : w.arena.parent? b.id = none := by
    cases hp : w.arena.parent? b.id with
    | none => rfl
    | some parent =>
      exact absurd (h.forest.tidy.linked?_of_parent? h.numbered.nodup hp) (hfree _ _)
  rw [Arena.healed, hnone]
  simp only [Arena.id_of_find? hd, hn, if_true]

/-- Every other block is as it was. -/
theorem healed_rest (h : w.Grounded) (hb : w.block? b.id = some b) {d : Block}
    (hx : w.arena.find? x = some d) (hfree : ∀ k, w.arena.linked? x k ≠ some b.id)
    (hnext : b.id ∈ w.arena.topLevel → b.next ≠ some x) : w.arena.healed b d = d := by
  have hf := h.forest
  have hd := h.numbered.nodup
  obtain rfl := Arena.id_of_find? hx
  rw [Arena.healed]
  split
  next p k hp =>
    rw [if_neg]
    rintro rfl
    exact hfree k (hf.tidy.linked?_of_parent? hd hp)
  next hp =>
    have htop : b.id ∈ w.arena.topLevel := (hf.tidy.mem_topLevel hd).2
      ⟨Arena.mem_ids_of_find? hb, hf.tidy.free_of_parent?_eq_none hp⟩
    rw [if_neg (hnext htop)]

/-- A block is deleted with what hangs from its slots, and the gap that it leaves is
closed. -/
theorem deleted (h : w.Grounded) (hb : w.block? b.id = some b) :
    w.Deleted b (w.withArena (w.leftOf b)) := by
  have hf := h.forest
  have hd := h.numbered.nodup
  have hfind {x d} (hx : ¬ w.Goes b.id x) (hxd : w.arena.find? x = some d) :
      (w.leftOf b).find? x = some (w.arena.healed b d) := by
    rw [h.find?_leftOf hb hx, hxd, Option.map_some]
  constructor
  case removed => exact fun x => h.mem_ids_leftOf hb
  case inOrder =>
    show (w.leftOf b).ids.Sublist w.arena.ids
    rw [leftOf, Arena.ids_remove, Arena.ids_of_outline (Arena.outline_closeGap w.arena b)]
    exact List.filter_sublist
  case held =>
    intro p k hk
    obtain ⟨d, hp⟩ := Arena.exists_find? (Arena.mem_ids_of_linked? hk)
    refine ⟨d, hp, (hfind (h.not_goes_holder hk) hp).trans ?_⟩
    rw [h.healed_holder hp hk]
  case lay =>
    intro htop n hn
    have hfree := ((hf.tidy.mem_topLevel hd).1 htop).2
    have hlink : w.arena.linked? b.id .next = some n := (Arena.linked?_next_of_find? hb).trans hn
    obtain ⟨d, hnd⟩ := Arena.exists_find? (hf.present hlink)
    refine ⟨h.next_mem_topLevel hb hfree hn, d, hnd,
      (hfind (h.not_goes_next hb hn) hnd).trans ?_⟩
    rw [h.healed_next hfree hn hnd]
  case kept =>
    intro x hx hfree hnext
    obtain ⟨hmem, hstays⟩ := (h.mem_ids_leftOf hb).1 hx
    obtain ⟨d, hxd⟩ := Arena.exists_find? hmem
    refine (hfind hstays hxd).trans (.trans ?_ hxd.symm)
    rw [h.healed_rest hb hxd hfree hnext]
  case present => exact fun a k c hk => (hf.delete hd hb).present hk
  case registry => rfl
  case board => rfl
  case nextId => rfl

end Grounded

/-- Any attempt to delete a block, with any registry and any program that can come
about: when it is refused, and what comes out when it is not. -/
theorem reached_deletesExactly (h : Reached registry w) (id : BlockId) :
    w.DeletesExactly id := by
  obtain ⟨-, hw⟩ := h.grounded
  refine ⟨delete_of_not_mem, fun type root => delete_of_root, fun e he => ?_,
    fun b hb hroot => ?_⟩
  · simp only [after, perform, he]
    rfl
  · obtain rfl := Arena.id_of_find? hb
    exact ⟨_, hw.delete_eq hb hroot, hw.deleted hb⟩

/-- A repetition in the middle of a chain is deleted with the block inside it. -/
theorem reached_deletesExactly_in_chain :
    let w := (onDefaultBoard .builtin).afterAll
      [.edit (.create "repeat_times" .origin), .edit (.create "delay_ms" .origin),
        .edit (.create "delay_ms" .origin), .edit (.connect ⟨3⟩ (.slot "DO") ⟨4⟩),
        .edit (.connect ⟨3⟩ .next ⟨5⟩)]
    Reached .builtin w ∧ w.arena.linked? ⟨3⟩ (.statement "DO") = some ⟨4⟩ ∧
      w.arena.linked? ⟨3⟩ .next = some ⟨5⟩ ∧ w.DeletesExactly ⟨3⟩ := by
  intro w
  have hreached : Reached .builtin w := ⟨_, .onDefaultBoard, _, rfl⟩
  have hlinks : w.arena.linked? ⟨3⟩ (.statement "DO") = some ⟨4⟩ ∧
      w.arena.linked? ⟨3⟩ .next = some ⟨5⟩ := by
    unfold w
    simp only [afterAll_cons, afterAll_nil]
    rw [after_connect_of_bare ⟨3⟩ (.slot "DO") ⟨4⟩ rfl rfl (by decide) rfl rfl rfl rfl rfl rfl,
      after_connect_of_bare ⟨3⟩ .next ⟨5⟩ rfl rfl (by decide) rfl rfl rfl rfl rfl rfl]
    exact ⟨rfl, rfl⟩
  exact ⟨hreached, hlinks.1, hlinks.2, reached_deletesExactly hreached _⟩

end Workspace

end BlockSketch
