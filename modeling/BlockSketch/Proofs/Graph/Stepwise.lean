import BlockSketch.Library.Types
import BlockSketch.Proofs.Graph.Accepted
import BlockSketch.Snapshot.Restore

/-!
Programs along a session. A program begins new, or is read back from a
snapshot, a text or a value; from then on anything may happen to it, and what is
refused changes nothing. Reading back goes through the edits themselves, so a
program that is half read has come about like every other; the only thing it
lacks are the roots, which come last.

A relation between workspaces is `Stepwise` if single edits lead along it, and
is then carried through whole sessions and through reading back once and for
all. What is proved about programs that can come about is proved about single
edits, and this module does the rest. For reading back alone it is enough that
the edits which build something lead along it (`Buildwise`).
-/

namespace BlockSketch.Workspace

variable {registry : Registry} {R : Workspace → Workspace → Prop} {w w' : Workspace}

inductive Begins (registry : Registry) : Workspace → Prop
  | new {board : String} {w : Workspace} : Workspace.new registry board = .ok w → Begins registry w
  | onDefaultBoard : Begins registry (Workspace.onDefaultBoard registry)
  | restored {s : Snapshot} {w : Workspace} : restore registry s = .ok w → Begins registry w
  | loaded (text : String) : Begins registry (load registry text)
  | loadedValue (value : Json) : Begins registry (loadValue registry value)

/-- The programs that can come about: some beginning, and then anything. -/
def Reached (registry : Registry) (w : Workspace) : Prop :=
  ∃ start, Begins registry start ∧ ∃ actions, w = start.afterAll actions

theorem Begins.reached (h : Begins registry w) : Reached registry w :=
  ⟨w, h, [], rfl⟩

/-- Every edit that is accepted leads along the relation. -/
structure Stepwise (R : Workspace → Workspace → Prop) : Prop where
  refl : ∀ w, R w w
  trans : ∀ {u v w}, R u v → R v w → R u w
  create : ∀ {w w' kind position id}, w.create kind position = .ok (w', id) → R w w'
  delete : ∀ {w w' id}, w.delete id = .ok w' → R w w'
  setField : ∀ {w w' id name value}, w.setField id name value = .ok w' → R w w'
  restoreField : ∀ {w w' id name value}, w.restoreField id name value = .ok w' → R w w'
  connectStatement : ∀ {w w' parent target child},
    w.connectStatement parent target child = .ok w' → R w w'
  connectValue : ∀ {w w' parent slot child}, w.connectValue parent slot child = .ok w' → R w w'
  disconnect : ∀ {w w' id}, w.disconnect id = .ok w' → R w w'
  setBoard : ∀ {w w' board}, w.setBoard board = .ok w' → R w w'
  ensureRoots : ∀ w, R w w.ensureRoots

namespace Stepwise

/-! ### Actions -/

theorem perform (h : Stepwise R) {edit : Edit} {result : EditResult}
    (ha : w.perform edit = .ok (w', result)) : R w w' := by
  cases edit <;> simp only [Workspace.perform, bind_eq_ok, pure_eq_ok] at ha <;>
    obtain ⟨_, hc, heq⟩ := ha <;> cases heq
  case create => exact h.create hc
  case delete => exact h.delete hc
  case setField => exact h.setField hc
  case connect => exact h.connectStatement hc
  case plug => exact h.connectValue hc
  case disconnect => exact h.disconnect hc
  case options => exact h.refl _
  case validate => exact h.refl _

theorem after (h : Stepwise R) (w : Workspace) (a : Action) : R w (w.after a) := by
  cases a with
  | edit edit =>
    simp only [Workspace.after]
    split
    · exact h.perform ‹_›
    · exact h.refl _
  | setBoard board =>
    simp only [Workspace.after]
    split
    · exact h.setBoard ‹_›
    · exact h.refl _
  | ensureRoots => exact h.ensureRoots w

/-- Whatever happens leads along the relation. -/
theorem afterAll (h : Stepwise R) (w : Workspace) (actions : List Action) :
    R w (w.afterAll actions) := by
  induction actions generalizing w with
  | nil => exact h.refl _
  | cons a rest ih => exact h.trans (h.after w a) (ih (w.after a))

end Stepwise

/-! ### Reading back -/

/-- Every edit by which a program is read back leads along the relation. -/
structure Buildwise (R : Workspace → Workspace → Prop) : Prop where
  refl : ∀ w, R w w
  trans : ∀ {u v w}, R u v → R v w → R u w
  create : ∀ {w w' kind position id}, w.create kind position = .ok (w', id) → R w w'
  restoreField : ∀ {w w' id name value}, w.restoreField id name value = .ok w' → R w w'
  connectStatement : ∀ {w w' parent target child},
    w.connectStatement parent target child = .ok w' → R w w'
  connectValue : ∀ {w w' parent slot child}, w.connectValue parent slot child = .ok w' → R w w'

theorem Stepwise.buildwise (h : Stepwise R) : Buildwise R :=
  ⟨h.refl, h.trans, h.create, h.restoreField, h.connectStatement, h.connectValue⟩

namespace Buildwise

theorem restoreFields (h : Buildwise R) {id : BlockId} {fields : List (String × FieldValue)}
    (ha : fields.foldlM (fun w field => w.restoreField id field.1 field.2) w = .ok w') :
    R w w' := by
  induction fields generalizing w with
  | nil =>
    cases ha
    exact h.refl _
  | cons field rest ih =>
    rw [List.foldlM_cons, bind_eq_ok] at ha
    obtain ⟨w₁, h₁, ha⟩ := ha
    exact h.trans (h.restoreField h₁) (ih ha)

mutual

theorem restoreBlock (h : Buildwise R) {w w' : Workspace} {id : BlockId} {position : Position} :
    ∀ {b : StoredBlock}, w.restoreBlock position b = .ok (w', id) → R w w'
  | ⟨kind, fields, statements, values⟩, ha => by
    simp only [Workspace.restoreBlock, bind_eq_ok, pure_eq_ok] at ha
    obtain ⟨⟨w₁, new⟩, h₁, w₂, h₂, w₃, h₃, w₄, h₄, heq⟩ := ha
    cases heq
    have hfields := h.trans (h.create h₁) (h.restoreFields h₂)
    have hslots := h.trans hfields (h.restoreSlots h₃)
    exact h.trans hslots (h.restoreValues h₄)

theorem restoreTail (h : Buildwise R) {w w' : Workspace} {last : BlockId} :
    ∀ {chain : List StoredBlock}, w.restoreTail last chain = .ok w' → R w w'
  | [], ha => by
    simp only [Workspace.restoreTail, pure_eq_ok] at ha
    subst ha
    exact h.refl _
  | b :: rest, ha => by
    simp only [Workspace.restoreTail, bind_eq_ok] at ha
    obtain ⟨⟨w₁, new⟩, h₁, w₂, h₂, ha⟩ := ha
    have hblock := h.trans (h.restoreBlock h₁) (h.connectStatement h₂)
    exact h.trans hblock (h.restoreTail ha)

theorem restoreSlots (h : Buildwise R) {w w' : Workspace} {id : BlockId} :
    ∀ {slots : List (String × List StoredBlock)}, w.restoreSlots id slots = .ok w' → R w w'
  | [], ha => by
    simp only [Workspace.restoreSlots, pure_eq_ok] at ha
    subst ha
    exact h.refl _
  | (_, []) :: rest, ha => by
    simp only [Workspace.restoreSlots] at ha
    exact h.restoreSlots ha
  | (slot, first :: chain) :: rest, ha => by
    simp only [Workspace.restoreSlots, bind_eq_ok] at ha
    obtain ⟨⟨w₁, head⟩, h₁, w₂, h₂, w₃, h₃, ha⟩ := ha
    have hhead := h.trans (h.restoreBlock h₁) (h.connectStatement h₂)
    have hchain := h.trans hhead (h.restoreTail h₃)
    exact h.trans hchain (h.restoreSlots ha)

theorem restoreValues (h : Buildwise R) {w w' : Workspace} {id : BlockId} :
    ∀ {slots : List (String × StoredBlock)}, w.restoreValues id slots = .ok w' → R w w'
  | [], ha => by
    simp only [Workspace.restoreValues, pure_eq_ok] at ha
    subst ha
    exact h.refl _
  | (slot, b) :: rest, ha => by
    simp only [Workspace.restoreValues, bind_eq_ok] at ha
    obtain ⟨⟨w₁, child⟩, h₁, w₂, h₂, ha⟩ := ha
    have hchild := h.trans (h.restoreBlock h₁) (h.connectValue h₂)
    exact h.trans hchild (h.restoreValues ha)

end

end Buildwise

theorem mapError_eq_ok {ε ε' α : Type} {f : ε → ε'} {x : Except ε α} {a : α} :
    x.mapError f = .ok a ↔ x = .ok a := by
  cases x with
  | error e => exact ⟨fun h => (by cases h), fun h => (by cases h)⟩
  | ok b => exact ⟨fun h => (by cases h; rfl), fun h => (by cases h; rfl)⟩

/-- A stack is its first block and then the tail of its chain. -/
theorem restoreStack_eq_ok {stack : StoredStack} :
    w.restoreStack stack = .ok w' ↔
      ∃ first chain, stack.blocks = first :: chain ∧ ∃ w₁ head,
        w.restoreBlock ⟨stack.x, stack.y⟩ first = .ok (w₁, head) ∧
          w₁.restoreTail head chain = .ok w' := by
  unfold restoreStack
  cases hblocks : stack.blocks with
  | nil => simp
  | cons first chain =>
    simp only [mapError_eq_ok, bind_eq_ok, Prod.exists, List.cons.injEq]
    constructor
    · rintro ⟨w₁, head, h₁, h₂⟩
      exact ⟨first, chain, ⟨rfl, rfl⟩, w₁, head, h₁, h₂⟩
    · rintro ⟨_, _, ⟨rfl, rfl⟩, h⟩
      exact h

/-- A snapshot is rebuilt on an empty arena, and the roots come last. -/
theorem restore_eq_ok {s : Snapshot} :
    restore registry s = .ok w ↔
      ¬ Snapshot.currentVersion < s.version ∧ ∃ board w₁, Board.resolve s.board = .ok board ∧
        s.canvas.foldlM restoreStack (bare registry board) = .ok w₁ ∧ w = w₁.ensureRoots := by
  simp only [restore, guard_eq_ok, bind_eq_ok, mapError_eq_ok, pure_eq_ok, exists_and_left]

namespace Buildwise

theorem restoreStack (h : Buildwise R) {stack : StoredStack}
    (ha : w.restoreStack stack = .ok w') : R w w' := by
  obtain ⟨first, chain, _, w₁, head, h₁, ha⟩ := restoreStack_eq_ok.1 ha
  exact h.trans (h.restoreBlock h₁) (h.restoreTail ha)

theorem restoreStacks (h : Buildwise R) {canvas : List StoredStack}
    (ha : canvas.foldlM Workspace.restoreStack w = .ok w') : R w w' := by
  induction canvas generalizing w with
  | nil =>
    cases ha
    exact h.refl _
  | cons stack rest ih =>
    rw [List.foldlM_cons, bind_eq_ok] at ha
    obtain ⟨w₁, h₁, ha⟩ := ha
    exact h.trans (h.restoreStack h₁) (ih ha)

end Buildwise

namespace Stepwise

/-! ### Beginnings -/

theorem default_mem_all : Board.default ∈ Board.all := by
  decide

/-- A program that begins has come about from nothing, on a board that there is,
and got the roots last. -/
theorem begins (h : Stepwise R) (hw : Begins registry w) :
    ∃ board ∈ Board.all, ∃ w₁, R (bare registry board) w₁ ∧ w = w₁.ensureRoots := by
  have hnew : ∀ board ∈ Board.all, ∃ board' ∈ Board.all, ∃ w₁, R (bare registry board') w₁ ∧
      (bare registry board).ensureRoots = w₁.ensureRoots :=
    fun board hboard => ⟨board, hboard, bare registry board, h.refl _, rfl⟩
  have hrestored : ∀ {s : Snapshot} {w}, restore registry s = .ok w →
      ∃ board ∈ Board.all, ∃ w₁, R (bare registry board) w₁ ∧ w = w₁.ensureRoots := by
    intro s w ha
    obtain ⟨_, board, w₁, hboard, h₁, rfl⟩ := restore_eq_ok.1 ha
    exact ⟨board, Board.mem_all_of_find? (Board.resolve_eq_ok.1 hboard), w₁,
      h.buildwise.restoreStacks h₁, rfl⟩
  have hloaded : ∀ s : Option Snapshot, ∃ board ∈ Board.all, ∃ w₁,
      R (bare registry board) w₁ ∧ restoreOrNew registry s = w₁.ensureRoots := by
    intro s
    unfold restoreOrNew
    split
    · exact hnew _ default_mem_all
    · split
      · exact hrestored ‹_›
      · exact hnew _ default_mem_all
  cases hw with
  | new ha =>
    simp only [Workspace.new, bind_eq_ok, pure_eq_ok] at ha
    obtain ⟨board, hboard, rfl⟩ := ha
    exact hnew board (Board.mem_all_of_find? (Board.resolve_eq_ok.1 hboard))
  | onDefaultBoard => exact hnew _ default_mem_all
  | restored ha => exact hrestored ha
  | loaded text => exact hloaded _
  | loadedValue value => exact hloaded _

/-- Every program that can come about has come about from nothing. -/
theorem reached (h : Stepwise R) (hw : Reached registry w) :
    ∃ board ∈ Board.all, R (bare registry board) w := by
  obtain ⟨start, hstart, actions, rfl⟩ := hw
  obtain ⟨board, hboard, w₁, h₁, rfl⟩ := h.begins hstart
  exact ⟨board, hboard, h.trans (h.trans h₁ (h.ensureRoots w₁)) (h.afterAll _ actions)⟩

end Stepwise

theorem afterAll_append (w : Workspace) (first later : List Action) :
    w.afterAll (first ++ later) = (w.afterAll first).afterAll later :=
  List.foldl_append

theorem Reached.afterAll (h : Reached registry w) (actions : List Action) :
    Reached registry (w.afterAll actions) := by
  obtain ⟨start, hstart, first, rfl⟩ := h
  exact ⟨start, hstart, first ++ actions, (afterAll_append ..).symm⟩

end BlockSketch.Workspace
