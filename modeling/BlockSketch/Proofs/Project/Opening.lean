import BlockSketch.Project.Request
import BlockSketch.Proofs.Project.Saving
import BlockSketch.Proofs.Snapshot.Untouched

/-!
Opening a project. A record may hold anything where its snapshot should be, and
anything as the name of its board, and it is opened all the same. Three things
can be wanting: the snapshot cannot be read or not be rebuilt in full, the board
that it names is not known, or the board of the record is not known. Only the
first two cost the program, and then there is a new one (`OnlyRoots`); the board
of the record is laid over what has been opened and touches no block.
-/

namespace BlockSketch

namespace Workspace

variable {registry : Registry} {w : Workspace}

/-- Nothing but the roots, as they come out of their types on the default board,
and nothing in them. -/
structure OnlyRoots (registry : Registry) (arena : Arena) : Prop where
  roots : ∃ setup loop, registry.get? RootKind.setup.kindName = some setup ∧
    registry.get? RootKind.loop.kindName = some loop ∧
      arena = [freshBlock setup Board.default ⟨1⟩ (rootPosition .setup),
        freshBlock loop Board.default ⟨2⟩ (rootPosition .loop)]
  empty : ∀ b ∈ arena, b.children = []

/-- A new program has nothing but the roots. -/
theorem onlyRoots_onDefaultBoard (hr : registry.HasRoots) :
    OnlyRoots registry (onDefaultBoard registry).arena := by
  obtain ⟨setup, hsetup, _⟩ := hr .setup
  obtain ⟨loop, hloop, _⟩ := hr .loop
  have huntouched : Untouched registry Board.default (onDefaultBoard registry) :=
    Untouched.bare.ensureRoots hr
  have hkind : setup.kind = RootKind.setup.kindName := Registry.kind_of_get? hsetup
  have hfirst : (bare registry Board.default).ensureRoot .setup =
      (bare registry Board.default).add setup (rootPosition .setup) := by
    simp only [ensureRoot, bare, hsetup]
    rfl
  have hnone : ((bare registry Board.default).add setup (rootPosition .setup)).arena.root? .loop =
      none := by
    have hne : ¬ setup.kind = RootKind.loop.kindName := by
      rw [hkind]
      decide
    simp [add, bare, freshBlock, Arena.root?, hne]
  have hsecond : onDefaultBoard registry =
      ((bare registry Board.default).add setup (rootPosition .setup)).add loop
        (rootPosition .loop) := by
    have hregistry : ((bare registry Board.default).add setup (rootPosition .setup)).registry =
        registry := rfl
    rw [onDefaultBoard, ensureRoots, RootKind.all, List.foldl_cons, hfirst, List.foldl_cons,
      ensureRoot, hnone, hregistry, hloop]
    rfl
  exact ⟨⟨setup, loop, hsetup, hloop, by rw [hsecond]; rfl⟩,
    fun b hb => (huntouched.isBare hb).children⟩

theorem board_ensureRoots (w : Workspace) : w.ensureRoots.board = w.board := by
  have hroot : ∀ (w : Workspace) (root : RootKind), (w.ensureRoot root).board = w.board := by
    intro w root
    unfold ensureRoot
    split <;> rfl
  exact (hroot (w.ensureRoot .setup) .loop).trans (hroot w .setup)

/-- What is rebuilt is on the board of its snapshot. -/
theorem board_restore {s : Snapshot} (h : restore registry s = .ok w) :
    Board.find? s.board = some w.board := by
  obtain ⟨_, board, built, hboard, hbuilt, rfl⟩ := restore_eq_ok.1 h
  have hgrowing := ((buildwise_growing registry board).restoreStacks hbuilt
    (growing_bare registry board)).1
  rw [board_ensureRoots, hgrowing.board]
  exact Board.resolve_eq_ok.1 hboard

/-- Either a value holds a snapshot that is rebuilt in full, or there is a new
program. -/
theorem loadValue_cases (registry : Registry) (value : Json) :
    (∃ s w, Snapshot.ofValue? value = some s ∧ restore registry s = .ok w ∧
      loadValue registry value = w) ∨
    ((∀ s w, Snapshot.ofValue? value = some s → restore registry s ≠ .ok w) ∧
      loadValue registry value = onDefaultBoard registry) := by
  rw [loadValue]
  cases hread : Snapshot.ofValue? value with
  | none =>
    refine .inr ⟨fun s w hs => ?_, rfl⟩
    cases hs
  | some s =>
    cases hrestore : restore registry s with
    | ok w => exact .inl ⟨s, w, rfl, hrestore, by rw [restoreOrNew, hrestore]⟩
    | error fault =>
      refine .inr ⟨fun t w ht hw => ?_, by rw [restoreOrNew, hrestore]⟩
      obtain rfl := Option.some_inj.1 ht
      rw [hrestore] at hw
      cases hw

end Workspace

namespace ProjectStore

variable {registry : Registry} {store : ProjectStore} {record : ProjectRecord} {id : String}

/-- What a person gets to see of a record that is opened. It is what the snapshot
gives, but for the board. A snapshot that can be rebuilt in full is; of any other
nothing is left. The board of the record counts if it is known, else that of the
snapshot if it was rebuilt. -/
structure Opened (registry : Registry) (record : ProjectRecord) (w : Workspace) : Prop where
  validates : w.validate = .ok ()
  loaded : w = { Workspace.loadValue registry record.snapshot with board := w.board }
  rebuilt : ∀ s u, Snapshot.ofValue? record.snapshot = some s →
    Workspace.restore registry s = .ok u →
      w.arena = u.arena ∧ (Board.find? record.boardId = none → Board.find? s.board = some w.board)
  discarded : (∀ s u, Snapshot.ofValue? record.snapshot = some s →
    Workspace.restore registry s ≠ .ok u) →
      Workspace.OnlyRoots registry w.arena ∧
        (Board.find? record.boardId = none → w.board = Board.default)
  board : ∀ board, Board.find? record.boardId = some board → w.board = board

/-- The board of the record is laid over what its snapshot gives. -/
theorem workspaceOf_eq_setBoard (registry : Registry) (record : ProjectRecord) :
    workspaceOf registry record =
      { Workspace.loadValue registry record.snapshot with
        board := (Board.find? record.boardId).getD
          (Workspace.loadValue registry record.snapshot).board } := by
  unfold workspaceOf
  simp only [Workspace.setBoard, Board.resolve]
  cases Board.find? record.boardId <;> rfl

theorem opened_workspaceOf (hr : registry.HasRoots) (record : ProjectRecord) :
    Opened registry record (workspaceOf registry record) := by
  let loaded := Workspace.loadValue registry record.snapshot
  have hboard := workspaceOf_eq_setBoard registry record
  have hvalid : loaded.validate = .ok () := by
    have hreached : Workspace.Reached registry loaded := (Workspace.Begins.loadedValue _).reached
    obtain ⟨_, hcoherent, hrooted⟩ := hreached.coherent hr
    exact hcoherent.forest.check_eq_ok hcoherent.numbered.nodup hrooted
  constructor
  case validates =>
    rw [hboard]
    exact hvalid
  case loaded => rw [hboard]
  case rebuilt =>
    intro s u hread hrestore
    obtain ⟨s', u', hread', hrestore', hu'⟩ | ⟨hnone, _⟩ :=
      Workspace.loadValue_cases registry record.snapshot
    · obtain rfl := Option.some_inj.1 (hread'.symm.trans hread)
      obtain rfl := Except.ok.inj (hrestore'.symm.trans hrestore)
      rw [hboard, hu']
      refine ⟨rfl, fun hunknown => ?_⟩
      rw [hunknown]
      exact Workspace.board_restore hrestore
    · exact absurd hrestore (hnone s u hread)
  case discarded =>
    intro hnone
    obtain ⟨s, u, hread, hrestore, _⟩ | ⟨_, hnew⟩ :=
      Workspace.loadValue_cases registry record.snapshot
    · exact absurd hrestore (hnone s u hread)
    · rw [hboard, hnew]
      refine ⟨Workspace.onlyRoots_onDefaultBoard hr, fun hunknown => ?_⟩
      rw [hunknown]
      exact Workspace.board_ensureRoots _
  case board =>
    intro board hknown
    rw [hboard, hknown]
    rfl

/-- Whatever a record holds, it is opened as it is, together with a program that a
person can go on with, and the store stays what it was. -/
theorem opens_usable (hr : registry.HasRoots) (hget : store.get? id = some record)
    (now : Timestamp) :
    ∃ w, store.openProject registry id = .ok (record, w) ∧
      store.serve (.program registry id) now = (store, .ok (.program record w)) ∧
        Opened registry record w := by
  have hopen : store.openProject registry id = .ok (record, workspaceOf registry record) := by
    rw [openProject, get_eq_ok.2 hget]
    rfl
  refine ⟨_, hopen, ?_, opened_workspaceOf hr record⟩
  rw [serve, perform, hopen]
  rfl

/-- A snapshot with one statement, on a board that is not the default one. -/
def probeOnEsp32 : Json :=
  .object [("board", .string "esp32"),
    ("stacks", .array [.object [("blocks", .array [.object [("type", .string "probe")]])]])]

/-- Two records that lack something, with a registry that knows more than the builtin
blocks. The first one names a board that nobody knows and keeps its program, on the
board of its snapshot; the second one holds no snapshot and keeps its board. -/
theorem opens_usable_of_unknown :
    let registry := Workspace.withProbe Workspace.pinFields
    let store := empty.serveAll [(.create ⟨"ana", "Blink", "abacus", probeOnEsp32⟩, ⟨0, 0⟩),
      (.create ⟨"ana", "Other", "uno", .string "junk"⟩, ⟨1, 0⟩)]
    registry.HasRoots ∧
      (∃ record w, store.get? "project-1" = some record ∧
        store.openProject registry "project-1" = .ok (record, w) ∧ w.validate = .ok () ∧
          w.board = .esp32 ∧ w.arena.map Block.kind = ["probe", "root_setup", "root_loop"]) ∧
      ∃ record w, store.get? "project-2" = some record ∧
        store.openProject registry "project-2" = .ok (record, w) ∧ w.validate = .ok () ∧
          w.board = .uno ∧ w.arena.length = 2 := by
  intro registry store
  have hr : registry.HasRoots := Workspace.hasRoots_withProbe _
  let first : ProjectRecord := ⟨"project-1", "ana", "Blink", "abacus", probeOnEsp32, ⟨0, 0⟩⟩
  let second : ProjectRecord := ⟨"project-2", "ana", "Other", "uno", .string "junk", ⟨1, 0⟩⟩
  have hrecords : store.records = [first, second] := rfl
  have hfirst : store.get? "project-1" = some first := rfl
  have hsecond : store.get? "project-2" = some second := by
    rw [get?, hrecords, List.find?_cons_of_neg (by decide), List.find?_cons_of_pos (by decide)]
  obtain ⟨w, hopen, _, hw⟩ := opens_usable hr hfirst ⟨2, 0⟩
  obtain ⟨v, hopen', _, hv⟩ := opens_usable hr hsecond ⟨2, 0⟩
  obtain ⟨s, u, hread, hrestore, hboard, hkinds⟩ : ∃ s u,
      Snapshot.ofValue? probeOnEsp32 = some s ∧ Workspace.restore registry s = .ok u ∧
        Board.find? s.board = some .esp32 ∧
        u.arena.map Block.kind = ["probe", "root_setup", "root_loop"] :=
    ⟨_, _, rfl, rfl, rfl, rfl⟩
  obtain ⟨hkept, hown⟩ := hw.rebuilt s u hread hrestore
  obtain ⟨⟨⟨_, _, _, _, hroots⟩, _⟩, _⟩ := hv.discarded fun _ _ hjunk => by cases hjunk
  exact ⟨hr, ⟨first, w, hfirst, hopen, hw.validates,
      Option.some_inj.1 ((hown rfl).symm.trans hboard), by rw [hkept, hkinds]⟩,
    second, v, hsecond, hopen', hv.validates, hv.board _ rfl, by rw [hroots]; rfl⟩

end ProjectStore

end BlockSketch
