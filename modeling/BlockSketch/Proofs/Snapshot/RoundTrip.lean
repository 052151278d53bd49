import BlockSketch.Proofs.Snapshot.Fitting
import BlockSketch.Proofs.Snapshot.Rebuild
import BlockSketch.Proofs.Snapshot.Twin

/-!
Storing a program and reading it back. What is stored of a program that has come
about fits, so it is rebuilt without being refused; what comes out has the same
stacks, because they were in canonical form before; and with the same stacks it
is the same program up to the numbers of its blocks.
-/

namespace BlockSketch

/-- A snapshot that is rebuilt as it stands: its stacks fit and are in canonical
form, and each root begins one of them. -/
structure Snapshot.Settled (registry : Registry) (board : Board) (s : Snapshot) : Prop where
  version : s.version = Snapshot.currentVersion
  known : Board.find? s.board = some board
  fits : ∀ stack ∈ s.canvas, stack.Fits registry board
  canonical : ∀ stack ∈ s.canvas,
    StoredBlock.canonicalChain registry board stack.blocks = stack.blocks
  roots : RootsFit registry s.canvas
  rooted : ∀ root : RootKind, ∃ stack ∈ s.canvas, ∃ b ∈ stack.blocks.head?, b.kind = root.kindName

namespace Workspace

open StoredBlock

variable {registry : Registry} {w : Workspace} {x y : BlockId} {a b : Block}

/-! ### What is stored -/

theorem Typed.ended (h : w.Typed) (hr : w.registry.Regular) : w.arena.Ended := by
  intro a slot c hk
  obtain ⟨_, type, ht, hplug⟩ := h.links hk
  cases hnext : w.arena.linked? c .next with
  | none => rfl
  | some next =>
    obtain ⟨⟨type', ht', hhas⟩, _⟩ := h.links hnext
    rw [typeOf_unique ht' ht, BlockType.HasLink] at hhas
    obtain ⟨_, _, hget⟩ := typeOf_eq_ok.1 ht
    rw [(hr hget).ends hplug] at hhas
    cases hhas

theorem storedStack?_eq_some_iff {stack : StoredStack} :
    w.arena.storedStack? x = some stack ↔
      ∃ b, w.arena.find? x = some b ∧ stack = ⟨b.position.x, b.position.y, w.arena.chain x⟩ := by
  rw [Arena.storedStack?, Option.map_eq_some_iff]
  exact exists_congr fun b => and_congr_right fun _ => eq_comm

/-- Every block at the top level begins a stack. -/
theorem canvas_save (hc : w.Coherent) :
    w.save.canvas.map some = w.arena.topLevel.map w.arena.storedStack? := by
  have hstack : ∀ x ∈ w.arena.topLevel, ∃ stack, w.arena.storedStack? x = some stack := by
    intro x hx
    have hmem := ((hc.forest.tidy.mem_topLevel hc.numbered.nodup).1 hx).1
    obtain ⟨b, hb⟩ := Arena.exists_find? hmem
    exact ⟨_, storedStack?_eq_some hb⟩
  show (w.arena.topLevel.filterMap w.arena.storedStack?).map some = _
  revert hstack
  induction w.arena.topLevel with
  | nil => exact fun _ => rfl
  | cons x rest ih =>
    intro hstack
    obtain ⟨stack, hx⟩ := hstack x (List.mem_cons_self ..)
    rw [List.filterMap_cons_some hx, List.map_cons, List.map_cons, hx,
      ih fun y hy => hstack y (List.mem_cons_of_mem _ hy)]

theorem fits_save (h : w.Typed) (hc : w.Coherent) (hr : w.registry.Regular) :
    ∀ stack ∈ w.save.canvas, stack.Fits w.registry w.board ∧
      canonicalChain w.registry w.board stack.blocks = stack.blocks := by
  intro stack hmem
  obtain ⟨x, _, hstack⟩ := List.mem_filterMap.1 hmem
  obtain ⟨b, hb, rfl⟩ := storedStack?_eq_some_iff.1 hstack
  obtain ⟨htree, hrest⟩ := h.tree_settled hc hr x (Arena.mem_ids_of_find? hb) b hb
  have hchain := hc.forest.chain_eq hb
  constructor
  · refine ⟨_, _, hchain, htree.fits, ?_⟩
    rw [Typed.kind_tree hc hb]
    exact hrest.fits
  · show canonicalChain _ _ (w.arena.chain x) = w.arena.chain x
    rw [hchain, canonicalChain, htree.canonical, hrest.canonical]

theorem rootsFit_save (hc : w.Coherent) (hr : w.registry.Regular) :
    Snapshot.RootsFit w.registry w.save.canvas := by
  have hnodup : w.arena.topLevel.Nodup := hc.numbered.nodup.filter _
  apply List.Pairwise.filterMap _ _ hnodup
  intro x y hne earlier hx later hy b hb type root hget hroot a ha hkind
  obtain ⟨d, hd, rfl⟩ := storedStack?_eq_some_iff.1 hx
  obtain ⟨e, he, rfl⟩ := storedStack?_eq_some_iff.1 hy
  simp only [hc.forest.chain_eq hd, hc.forest.chain_eq he, List.head?_cons, Option.mem_some_iff]
    at ha hb
  subst ha hb
  rw [Typed.kind_tree hc hd] at hkind
  rw [Typed.kind_tree hc he] at hget
  have hlater : e.kind = root.kindName := by
    rw [← Registry.kind_of_get? hget]
    exact (hr hget).roots root hroot
  have hsame := hc.eq_of_rootKind (Arena.mem_of_find? hd) (Arena.mem_of_find? he) hkind hlater
  rw [← Arena.id_of_find? hd, ← Arena.id_of_find? he, hsame] at hne
  exact hne rfl

theorem find?_of_mem_all : ∀ board ∈ Board.all, Board.find? board.id = some board := by
  decide

/-- A root is at the top level, so it begins a stack. -/
theorem rooted_save (hc : w.Coherent) (hw : w.Rooted) (root : RootKind) :
    ∃ stack ∈ w.save.canvas, ∃ b ∈ stack.blocks.head?, b.kind = root.kindName := by
  have hone : 0 < w.arena.rootCount root := by
    rw [hw root]
    exact Nat.one_pos
  obtain ⟨b, hb, hkind⟩ := List.countP_pos_iff.1 hone
  have hkind : b.kind = root.kindName := by simpa using hkind
  have hfind := Arena.find?_of_mem hc.numbered.nodup hb
  have htop : b.id ∈ w.arena.topLevel := by
    rw [hc.forest.tidy.mem_topLevel hc.numbered.nodup]
    refine ⟨Arena.mem_ids_of_find? hfind, fun a k hk => ?_⟩
    have hfree := Typed.rootKind?_of_linked hc hk hfind
    rw [hkind, RootKind.ofKindName?_kindName] at hfree
    cases hfree
  refine ⟨_, List.mem_filterMap.2 ⟨b.id, htop, storedStack?_eq_some hfind⟩, w.arena.tree b, ?_, ?_⟩
  · show w.arena.tree b ∈ (w.arena.chain b.id).head?
    rw [hc.forest.chain_eq hfind]
    rfl
  · rw [Typed.kind_tree hc hfind, hkind]

/-- What is stored of a typed program with its roots is rebuilt as it stands. -/
theorem settled_save (h : w.Typed) (hc : w.Coherent) (hw : w.Rooted) (hr : w.registry.Regular) :
    w.save.Settled w.registry w.board where
  version := rfl
  known := find?_of_mem_all _ h.board
  fits stack hmem := (fits_save h hc hr stack hmem).1
  canonical stack hmem := (fits_save h hc hr stack hmem).2
  roots := rootsFit_save hc hr
  rooted := rooted_save hc hw

/-! ### What comes back -/

theorem laid_bare (registry : Registry) (board : Board) : (bare registry board).arena.Laid 1 :=
  ⟨(coherent_bare registry board).forest, (coherent_bare registry board).numbered,
    fun hk => by cases hk⟩

/-- Roots that are there are not added again. -/
theorem ensureRoots_eq_self (h : ∀ root, w.arena.root? root ≠ none) : w.ensureRoots = w := by
  have hone : ∀ root, w.ensureRoot root = w := by
    intro root
    unfold ensureRoot
    split
    · rename_i hnone _
      exact absurd hnone (h root)
    · rfl
  show (w.ensureRoot .setup).ensureRoot .loop = w
  rw [hone, hone]

/-- A root that begins a stack is there. -/
theorem root?_of_storedStack? {A : Arena} (hA : A.Forest) {stack : StoredStack}
    (hx : A.storedStack? x = some stack) {s : StoredBlock} (hs : s ∈ stack.blocks.head?)
    {root : RootKind} (hkind : s.kind = root.kindName) : A.root? root ≠ none := by
  intro hnone
  obtain ⟨d, hd, rfl⟩ := Option.map_eq_some_iff.1 hx
  have hchain := hA.chain_eq hd
  rw [Arena.chain] at hchain
  simp only [hchain, List.head?_cons, Option.mem_some_iff] at hs
  rw [← hs, hA.tree_eq hd] at hkind
  simp only [Arena.root?, Option.map_eq_none_iff, List.find?_eq_none] at hnone
  exact hnone d (Arena.mem_of_find? hd) (by simpa using hkind)

/-- A settled snapshot is rebuilt, and the stacks are those of the snapshot. -/
theorem restore_of_settled {s : Snapshot} {board : Board} (h : s.Settled registry board)
    (hr : registry.DeclaresOnce) :
    ∃ w, restore registry s = .ok w ∧ w.board = board ∧
      w.arena.topLevel.map w.arena.storedStack? = s.canvas.map some := by
  obtain ⟨hrestore, hlaid, htop⟩ := restoreStacks_eq (w := bare registry board)
    (laid_bare registry board) h.fits h.roots (by
      intro stack _ b _ type _
      cases type.rootKind? <;> rfl)
  let L := layCanvas registry board 1 s.canvas
  have hforest : L.Forest := hlaid.forest
  have hnodup : L.ids.Nodup := hlaid.numbered.nodup
  have hholds : L.Holds L := fun b hb => Arena.find?_of_mem hnodup hb
  have hstacks : L.topLevel.map L.storedStack? = s.canvas.map some := by
    have hL : L.topLevel = stackHeads 1 s.canvas := htop
    rw [hL, stacks_layCanvas hforest hr h.fits hholds]
    apply List.map_congr_left
    intro stack hmem
    rw [StoredStack.canonical, h.canonical stack hmem]
  have hroots : ∀ root, L.root? root ≠ none := by
    intro root
    obtain ⟨stack, hstack, b, hb, hkind⟩ := h.rooted root
    have hmem : some stack ∈ L.topLevel.map L.storedStack? := by
      rw [hstacks]
      exact List.mem_map_of_mem hstack
    obtain ⟨x, _, hx⟩ := List.mem_map.1 hmem
    exact root?_of_storedStack? hforest hx hb hkind
  refine ⟨(bare registry board).grown L (countCanvas s.canvas), ?_, rfl, hstacks⟩
  have hversion : ¬ Snapshot.currentVersion < s.version := by
    rw [h.version]
    decide
  rw [restore_eq_ok]
  exact ⟨hversion, board, _, Board.resolve_eq_ok.2 h.known, hrestore,
    (ensureRoots_eq_self hroots).symm⟩

/-- A program with the stacks of a settled snapshot is stored as this snapshot. -/
theorem save_of_settled {s : Snapshot} (h : s.Settled registry w.board)
    (hs : w.arena.topLevel.map w.arena.storedStack? = s.canvas.map some) : w.save = s := by
  have hcanvas : w.save.canvas = s.canvas := by
    have hsame := congrArg (List.filterMap id) hs
    rw [List.filterMap_map, List.filterMap_map] at hsame
    exact hsame.trans List.filterMap_some
  have hboard : w.board.id = s.board := Board.id_of_find? h.known
  show Snapshot.mk _ w.board.id w.save.canvas = s
  rw [hcanvas, hboard, ← h.version]

/-! ### There and back -/

/-- Blocks at the top level of a twin have been created in the same order. -/
theorem Twin.created_in_order {w' : Workspace} {f : BlockId → BlockId} (h : w.Twin f w')
    (hc : w.Coherent) (hc' : w'.Coherent) :
    ∀ x ∈ w.arena.topLevel, ∀ y ∈ w.arena.topLevel, x.index < y.index ↔
      (f x).index < (f y).index := by
  have hup : ∀ {v : Workspace}, v.Coherent →
      v.arena.topLevel.Pairwise fun a b => a.index < b.index :=
    fun hv => hv.numbered.increasing.filter _
  have himage := hup hc'
  rw [h.topLevel, List.pairwise_map] at himage
  have hboth := List.pairwise_and_iff.2 ⟨hup hc, himage⟩
  have hforward : w.arena.topLevel.Pairwise fun x y =>
      x.index < y.index ↔ (f x).index < (f y).index :=
    hboth.imp fun hlt => iff_of_true hlt.1 hlt.2
  have hbackward : w.arena.topLevel.Pairwise fun x y =>
      y.index < x.index ↔ (f y).index < (f x).index :=
    hboth.imp fun hlt => iff_of_false (Nat.lt_asymm hlt.1) (Nat.lt_asymm hlt.2)
  have hself : ∀ x ∈ w.arena.topLevel, x.index < x.index ↔ (f x).index < (f x).index :=
    fun x _ => iff_of_false (Nat.lt_irrefl _) (Nat.lt_irrefl _)
  intro x hx y hy
  exact List.Pairwise.forall_of_forall_of_flip
    (R := fun x y : BlockId => x.index < y.index ↔ (f x).index < (f y).index)
    hself hforward hbackward hx hy

/-- What holds of a program that has come about with the types of the library. -/
theorem Reached.settled (h : Reached .builtin w) :
    w.registry = .builtin ∧ w.Coherent ∧ w.Rooted ∧ w.Typed ∧ w.arena.Ended := by
  obtain ⟨hreg, hc, hw⟩ := h.coherent hasRoots_builtin
  have ht := h.typed hasRoots_builtin Registry.regular_builtin
  exact ⟨hreg, hc, hw, ht, ht.ended (hreg ▸ Registry.regular_builtin)⟩

/-- Programs that have come about with the types of the library and are stored
alike are twins. -/
theorem Reached.twin_of_save {w' : Workspace} (h : Reached .builtin w) (h' : Reached .builtin w')
    (hsave : w'.save = w.save) : ∃ f, w.Twin f w' := by
  obtain ⟨_, hc, _, ht, hended⟩ := h.settled
  obtain ⟨_, hc', _, ht', hended'⟩ := h'.settled
  have hcanvas : w'.save.canvas = w.save.canvas := congrArg Snapshot.canvas hsave
  have hstacks : w.arena.topLevel.map w.arena.storedStack? =
      w'.arena.topLevel.map w'.arena.storedStack? := by
    rw [← canvas_save hc, ← canvas_save hc', hcanvas]
  have hboard : w'.board = w.board := by
    have hid : w'.board.id = w.board.id := congrArg Snapshot.board hsave
    rw [← Option.some_inj, ← find?_of_mem_all _ ht.board, ← find?_of_mem_all _ ht'.board, hid]
  exact Workspace.exists_twin ⟨hc.forest, hc.numbered.nodup, hended, hc'.forest,
    hc'.numbered.nodup, hended', hstacks⟩ hboard

/-- A program that has come about is rebuilt from its snapshot as a twin, which
has the same snapshot. -/
theorem Reached.exists_twin (h : Reached .builtin w) :
    ∃ w' f, restore .builtin w.save = .ok w' ∧ w.Twin f w' ∧ w'.save = w.save := by
  obtain ⟨hreg, hc, hw, ht, _⟩ := h.settled
  have hsettled := settled_save ht hc hw (hreg ▸ Registry.regular_builtin)
  rw [hreg] at hsettled
  obtain ⟨w', hrestore, hboard, hstacks⟩ :=
    restore_of_settled hsettled Registry.regular_builtin.declaresOnce
  have hsave : w'.save = w.save := save_of_settled (hboard ▸ hsettled) hstacks
  obtain ⟨f, htwin⟩ := h.twin_of_save (Begins.restored hrestore).reached hsave
  exact ⟨w', f, hrestore, htwin, hsave⟩

/-- A snapshot of a program that has come about holds every block once. It is
rebuilt without being refused, the outcome is the same program up to the numbers
of its blocks, and has the same snapshot. -/
theorem reached_round_trip (h : Reached .builtin w) :
    (w.arena.visited.Perm w.arena.ids ∧
        w.save.written = w.arena.visited.filterMap w.arena.label? ∧
        w.save.blockCount = w.size) ∧
      ∃ w' f, restore .builtin w.save = .ok w' ∧ w.Twin f w' ∧
        (∀ x ∈ w.arena.topLevel, ∀ y ∈ w.arena.topLevel, x.index < y.index ↔
          (f x).index < (f y).index) ∧
        w'.save = w.save ∧ w'.save.text = w.save.text := by
  obtain ⟨_, hc, _, _, hended⟩ := h.settled
  have hperm := hc.forest.visited_perm hc.numbered.nodup hended
  refine ⟨⟨hperm, written_save w, ?_⟩, ?_⟩
  · have hlabel : ∀ x ∈ w.arena.visited, (w.arena.label? x).isSome := by
      intro x hx
      obtain ⟨b, hb⟩ := Arena.exists_find? (hperm.mem_iff.1 hx)
      rw [Arena.label?, hb]
      rfl
    rw [← Snapshot.length_written, written_save, List.length_filterMap_eq_countP,
      List.countP_eq_length.2 hlabel, hperm.length_eq]
    exact List.length_map ..
  · obtain ⟨w', f, hrestore, htwin, hsave⟩ := h.exists_twin
    obtain ⟨_, hc', _⟩ := Reached.settled ⟨w', .restored hrestore, [], rfl⟩
    exact ⟨w', f, hrestore, htwin, htwin.created_in_order hc hc', hsave, by rw [hsave]⟩

/-- A program with an expression in a block in a slot of a block. -/
theorem reached_round_trip_of_nested :
    let w := (onDefaultBoard .builtin).afterAll
      [.edit (.create "if_then" ⟨60, 60⟩), .edit (.create "compare" .origin),
        .edit (.create "delay_ms" .origin), .edit (.plug ⟨3⟩ "CONDITION" ⟨4⟩),
        .edit (.connect ⟨3⟩ (.slot "DO") ⟨5⟩), .edit (.connect ⟨2⟩ (.slot "DO") ⟨3⟩)]
    w.save.blockCount = w.size ∧ ∃ w' f, restore .builtin w.save = .ok w' ∧ w.Twin f w' ∧
      w'.save = w.save := by
  intro w
  have hreached : Reached .builtin w := ⟨_, .onDefaultBoard, _, rfl⟩
  obtain ⟨⟨_, _, hcount⟩, w', f, hrestore, htwin, _, hsave, _⟩ := reached_round_trip hreached
  exact ⟨hcount, w', f, hrestore, htwin, hsave⟩

end Workspace

end BlockSketch
