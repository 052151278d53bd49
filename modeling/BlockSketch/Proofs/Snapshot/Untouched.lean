import BlockSketch.Proofs.Snapshot.Vetted
import BlockSketch.Proofs.Typing.Stale

/-!
Programs of untouched blocks. A program in which blocks have been created and
nothing else has been done is a row of new blocks, each added to those before it
(`Untouched`). Nothing hangs from anything, so every block is stored as a stack of
its own, and reading back adds the same blocks with the same numbers again.

What a new block holds is made in one place and checked in two: by the list of the
active board when it is set, and by the pins of all boards when it is read back.
Nothing is asked of the types of blocks beforehand, and neither check need be
passed: a choice may offer nothing, or something that is no pin, and a name may be
declared twice. Where a name is declared once, it is said exactly which of the two
checks are passed.
-/

namespace BlockSketch

namespace FieldSpec

variable {spec : FieldSpec} {board : Board}

/-- What a new block starts with may be read back: it is a pin of some board where the
choice asks the board, and an entry of the choice elsewhere. -/
def ComesBack (spec : FieldSpec) (board : Board) : Prop :=
  if spec.isBoardDependent then Board.isPinOfAny (spec.defaultValue board).display = true
  else spec.Offers board

/-- What a new block starts with may be set, and is then stored as it is, if and only
if the choice offers anything. -/
theorem validate_defaultValue_eq_ok {stored : FieldValue} :
    spec.validate (spec.defaultValue board) board = .ok stored ↔
      stored = spec.defaultValue board ∧ spec.Offers board := by
  constructor
  · intro h
    have hoffers : spec.Offers board := by
      intro source hkind hnone
      simp [validate, hkind, hnone] at h
    rw [hoffers.validate_defaultValue] at h
    exact ⟨(Except.ok.inj h).symm, hoffers⟩
  · rintro ⟨rfl, h⟩
    exact h.validate_defaultValue

/-- A choice starts with a text. -/
theorem text_display_defaultValue (h : spec.isBoardDependent = true) :
    .text (spec.defaultValue board).display = spec.defaultValue board := by
  obtain ⟨_, hkind⟩ := exists_resolver h
  unfold defaultValue
  rw [hkind]
  cases spec.options board <;> rfl

theorem restorable_defaultValue_eq_ok {stored : FieldValue} :
    Workspace.restorable spec (spec.defaultValue board) board = .ok stored ↔
      stored = spec.defaultValue board ∧ spec.ComesBack board := by
  unfold Workspace.restorable ComesBack
  split
  · rename_i hdep
    rw [text_display_defaultValue hdep]
    split
    · rename_i hpin
      rw [Except.ok.injEq, eq_comm, and_iff_left hpin]
    · rename_i hpin
      simp [hpin]
  · exact validate_defaultValue_eq_ok

theorem Regular.comesBack (h : spec.Regular) (hb : board ∈ Board.all) : spec.ComesBack board :=
  (restorable_defaultValue_eq_ok.1 (h.admits_defaultValue hb board)).2

end FieldSpec

namespace BlockType

variable {type : BlockType} {spec : FieldSpec}

def DeclaresAlone (type : BlockType) (spec : FieldSpec) : Prop :=
  spec ∈ type.fields ∧ ∀ other ∈ type.fields, other.name = spec.name → other = spec

theorem declaresAlone_of_nodup (hd : (type.fields.map FieldSpec.name).Nodup)
    (hs : spec ∈ type.fields) : type.DeclaresAlone spec := by
  refine ⟨hs, fun other hother hname => ?_⟩
  have hfirst := field?_of_mem hd hother
  rw [hname, field?_of_mem hd hs, Option.some_inj] at hfirst
  exact hfirst.symm

theorem DeclaresAlone.field?_eq (h : type.DeclaresAlone spec) :
    type.field? spec.name = some spec := by
  have hsome : (type.field? spec.name).isSome = true := by
    rw [field?, List.find?_isSome]
    exact ⟨spec, h.1, beq_self_eq_true _⟩
  obtain ⟨other, hother⟩ := Option.isSome_iff_exists.1 hsome
  rw [hother, h.2 other (List.mem_of_find?_eq_some hother) (by simpa using List.find?_some hother)]

end BlockType

namespace Workspace

variable {registry : Registry} {board : Board} {w w' : Workspace} {b : Block} {type : BlockType}

/-! ### Rows of new blocks -/

/-- A program to which blocks have been added, and nothing else has been done. -/
inductive Untouched (registry : Registry) (board : Board) : Workspace → Prop
  | bare : Untouched registry board (bare registry board)
  | add {w : Workspace} {type : BlockType} {position : Position} : Untouched registry board w →
    registry.get? type.kind = some type → type.rootKind?.bind w.arena.root? = none →
      Untouched registry board (w.add type position)

namespace Untouched

theorem registry_eq (h : Untouched registry board w) : w.registry = registry := by
  induction h with
  | bare => rfl
  | add _ _ _ ih => exact ih

theorem board_eq (h : Untouched registry board w) : w.board = board := by
  induction h with
  | bare => rfl
  | add _ _ _ ih => exact ih

theorem grounded (h : Untouched registry board w) : w.Grounded := by
  induction h with
  | bare => exact grounded_bare registry board
  | add h hget _ ih => exact ih.add (h.registry_eq ▸ hget) _

theorem create (h : Untouched registry board w) {kind : String} {position : Position}
    {id : BlockId} (ha : w.create kind position = .ok (w', id)) : Untouched registry board w' := by
  obtain ⟨type, hget, hroot, rfl, -⟩ := create_eq_ok.1 ha
  rw [h.registry_eq] at hget
  exact h.add (by rwa [Registry.kind_of_get? hget]) hroot

theorem ensureRoot (h : Untouched registry board w) (hr : registry.HasRoots) (root : RootKind) :
    Untouched registry board (w.ensureRoot root) := by
  unfold Workspace.ensureRoot
  split
  · rename_i type hnone hget
    rw [h.registry_eq] at hget
    refine h.add (by rwa [Registry.kind_of_get? hget]) ?_
    rw [hr.rootKind? hget, Option.bind_some, hnone]
  · exact h

/-- A new program is a row of new blocks, and creating more of them keeps it one. -/
theorem ensureRoots (h : Untouched registry board w) (hr : registry.HasRoots) :
    Untouched registry board w.ensureRoots :=
  (h.ensureRoot hr .setup).ensureRoot hr .loop

theorem afterAll_create (h : Untouched registry board w) (calls : List (String × Position)) :
    Untouched registry board
      (w.afterAll (calls.map fun call => .edit (.create call.1 call.2))) := by
  induction calls generalizing w with
  | nil => exact h
  | cons call rest ih =>
    rw [List.map_cons, afterAll_cons]
    apply ih
    simp only [after, perform, bind, Except.bind]
    cases hcreate : w.create call.1 call.2 with
    | error e => exact h
    | ok made => exact h.create hcreate

/-- Each block is as it came out of its type. -/
theorem exists_freshBlock (h : Untouched registry board w) (hb : b ∈ w.arena) :
    ∃ type id position, registry.get? type.kind = some type ∧
      b = freshBlock type board id position := by
  induction h with
  | bare => cases hb
  | @add w type position h hget _ ih =>
    obtain hb | hb := List.mem_append.1 hb
    · exact ih hb
    · exact ⟨type, _, position, hget, by rw [List.mem_singleton.1 hb, h.board_eq]⟩

end Untouched

/-! ### How they are stored -/

def bareStack (b : Block) : StoredStack :=
  ⟨b.position.x, b.position.y, [⟨b.kind, b.fields, [], []⟩]⟩

/-- Nothing is attached to a new block. -/
structure IsBare (b : Block) : Prop where
  next : b.next = none
  statements : ∀ entry ∈ b.statements, entry.2 = none
  values : ∀ entry ∈ b.values, entry.2 = none

theorem isBare_freshBlock (type : BlockType) (board : Board) (id : BlockId) (position : Position) :
    IsBare (freshBlock type board id position) := by
  refine ⟨rfl, fun entry hentry => ?_, fun entry hentry => ?_⟩
  · obtain ⟨_, _, rfl⟩ := List.mem_map.1 (Entries.mem_of_mem_ofList hentry)
    rfl
  · obtain ⟨_, _, rfl⟩ := List.mem_map.1 (Entries.mem_of_mem_ofList hentry)
    rfl

theorem IsBare.children (h : IsBare b) : b.children = [] := by
  have hnone : ∀ entries : Entries (Option BlockId), (∀ entry ∈ entries, entry.2 = none) →
      entries.filterMap Prod.snd = [] :=
    fun entries hentries => List.filterMap_eq_nil_iff.2 hentries
  rw [Block.children, Block.plugged, h.next, hnone _ h.statements, hnone _ h.values]
  rfl

theorem IsBare.storedBlock (h : IsBare b) (arena : Arena) (steps : Nat) :
    arena.storedBlock steps b = ⟨b.kind, b.fields, [], []⟩ := by
  cases steps with
  | zero => rfl
  | succ steps =>
    rw [Arena.storedBlock, StoredBlock.mk.injEq]
    refine ⟨rfl, rfl, List.filterMap_eq_nil_iff.2 fun entry hentry => ?_,
      List.filterMap_eq_nil_iff.2 fun entry hentry => ?_⟩
    · rw [h.statements entry hentry]
      rfl
    · rw [h.values entry hentry]
      rfl

theorem IsBare.storedStack? (h : IsBare b) {arena : Arena} (hb : arena.find? b.id = some b) :
    arena.storedStack? b.id = some (bareStack b) := by
  rw [Arena.storedStack?, hb, Option.map_some, Arena.walkBound, Arena.storedChain]
  simp only [hb, h.next, h.storedBlock]
  rfl

namespace Untouched

theorem isBare (h : Untouched registry board w) (hb : b ∈ w.arena) : IsBare b := by
  obtain ⟨type, id, position, _, rfl⟩ := h.exists_freshBlock hb
  exact isBare_freshBlock type board id position

/-- Every block is stored as a stack of its own. -/
theorem canvas_save (h : Untouched registry board w) :
    w.save.canvas = w.arena.map bareStack := by
  have htop : w.arena.topLevel = w.arena.ids := by
    have hnone : w.arena.flatMap Block.children = [] :=
      List.flatMap_eq_nil_iff.2 fun b hb => (h.isBare hb).children
    rw [Arena.topLevel, hnone]
    exact List.filter_eq_self.2 fun _ _ => by simp
  show w.arena.topLevel.filterMap w.arena.storedStack? = _
  rw [htop, Arena.ids, List.filterMap_map, ← List.filterMap_eq_map]
  exact List.filterMap_congr fun b hb =>
    (h.isBare hb).storedStack? (Arena.find?_of_mem h.grounded.numbered.nodup hb)

end Untouched

/-! ### What they hold -/

/-- In a field with a name of its own there is what a new block starts with. -/
theorem Untouched.get?_fields (h : Untouched registry board w) (hb : b ∈ w.arena)
    (ht : registry.get? b.kind = some type) {spec : FieldSpec} (hs : type.DeclaresAlone spec) :
    b.fields.get? spec.name = some (spec.defaultValue board) := by
  obtain ⟨type', id, position, hget, rfl⟩ := h.exists_freshBlock hb
  obtain rfl := Option.some_inj.1 (hget.symm.trans ht)
  have hname : spec.name ∈ Entries.names
      (type'.fields.map fun spec => (spec.name, spec.defaultValue board)) := by
    rw [Entries.names_map]
    exact List.mem_map_of_mem hs.1
  -- The last declaration of the name has won, which is this one.
  obtain ⟨value, hvalue, hmem⟩ := Entries.exists_get?_ofList hname
  obtain ⟨other, hother, heq⟩ := List.mem_map.1 hmem
  obtain ⟨hsame, rfl⟩ := Prod.mk.inj heq
  rw [hs.2 other hother hsame] at hvalue
  exact hvalue

theorem Untouched.fieldSpec_eq (h : Untouched registry board w) (hb : b ∈ w.arena)
    (ht : registry.get? b.kind = some type) {spec : FieldSpec} (hs : type.DeclaresAlone spec) :
    w.fieldSpec b.id spec.name = .ok spec := by
  have hfind := Arena.find?_of_mem h.grounded.numbered.nodup hb
  exact fieldSpec_eq_ok.2 ⟨type, typeOf_of_find? hfind (h.registry_eq ▸ ht), hs.field?_eq⟩

/-- What a new block holds in a field can be set if the field offers anything, and is
there already. -/
theorem Untouched.setField_default (h : Untouched registry board w) (hb : b ∈ w.arena)
    (ht : registry.get? b.kind = some type) {spec : FieldSpec} (hs : type.DeclaresAlone spec) :
    w.setField b.id spec.name (spec.defaultValue board) = .ok w' ↔
      w' = w ∧ spec.Offers board := by
  have hself := storeField_self h.grounded.numbered.nodup hb (h.get?_fields hb ht hs)
  simp only [setField_eq_ok, h.fieldSpec_eq hb ht hs, h.board_eq, Except.ok.injEq]
  constructor
  · rintro ⟨_, _, rfl, hstored, rfl⟩
    obtain ⟨rfl, hoffers⟩ := FieldSpec.validate_defaultValue_eq_ok.1 hstored
    exact ⟨hself, hoffers⟩
  · rintro ⟨rfl, hoffers⟩
    exact ⟨spec, _, rfl, hoffers.validate_defaultValue, hself.symm⟩

/-- The same when it is read back. -/
theorem Untouched.restoreField_default (h : Untouched registry board w) (hb : b ∈ w.arena)
    (ht : registry.get? b.kind = some type) {spec : FieldSpec} (hs : type.DeclaresAlone spec) :
    w.restoreField b.id spec.name (spec.defaultValue board) = .ok w' ↔
      w' = w ∧ spec.ComesBack board := by
  have hself := storeField_self h.grounded.numbered.nodup hb (h.get?_fields hb ht hs)
  simp only [restoreField_eq_ok, h.fieldSpec_eq hb ht hs, h.board_eq, Except.ok.injEq]
  constructor
  · rintro ⟨_, _, rfl, hstored, rfl⟩
    obtain ⟨rfl, hback⟩ := FieldSpec.restorable_defaultValue_eq_ok.1 hstored
    exact ⟨hself, hback⟩
  · rintro ⟨rfl, hback⟩
    exact ⟨spec, _, rfl, FieldSpec.restorable_defaultValue_eq_ok.2 ⟨rfl, hback⟩, hself.symm⟩

theorem Untouched.restoreFields_default (h : Untouched registry board w) (hb : b ∈ w.arena)
    (ht : registry.get? b.kind = some type) {specs : List FieldSpec}
    (hs : ∀ spec ∈ specs, type.DeclaresAlone spec) :
    (specs.map fun spec => (spec.name, spec.defaultValue board)).foldlM
        (fun w field => w.restoreField b.id field.1 field.2) w = .ok w' ↔
      w' = w ∧ ∀ spec ∈ specs, spec.ComesBack board := by
  induction specs with
  | nil =>
    show Except.ok w = .ok w' ↔ _
    simp [eq_comm]
  | cons spec rest ih =>
    obtain ⟨hspec, hrest⟩ := List.forall_mem_cons.1 hs
    rw [List.map_cons, List.foldlM_cons, bind_eq_ok, List.forall_mem_cons]
    constructor
    · rintro ⟨w₁, hfirst, hlater⟩
      obtain ⟨rfl, hback⟩ := (h.restoreField_default hb ht hspec).1 hfirst
      obtain ⟨rfl, hbacks⟩ := (ih hrest).1 hlater
      exact ⟨rfl, hback, hbacks⟩
    · rintro ⟨rfl, hback, hbacks⟩
      exact ⟨_, (h.restoreField_default hb ht hspec).2 ⟨rfl, hback⟩,
        (ih hrest).2 ⟨rfl, hbacks⟩⟩

/-! ### Reading back -/

/-- Each type of a block declares a field only once. -/
def FieldsApart (registry : Registry) (arena : Arena) : Prop :=
  ∀ b ∈ arena, ∀ type, registry.get? b.kind = some type →
    (type.fields.map FieldSpec.name).Nodup

def AllComeBack (registry : Registry) (board : Board) (arena : Arena) : Prop :=
  ∀ b ∈ arena, ∀ type, registry.get? b.kind = some type →
    ∀ spec ∈ type.fields, spec.ComesBack board

/-- A block is read back as it was added, if its fields may be read back. -/
theorem Untouched.restoreStack_eq (h : Untouched registry board w) {position : Position}
    (hget : registry.get? type.kind = some type)
    (hroot : type.rootKind?.bind w.arena.root? = none)
    (hd : (type.fields.map FieldSpec.name).Nodup) :
    w.restoreStack (bareStack (freshBlock type board ⟨w.nextId⟩ position)) = .ok w' ↔
      w' = w.add type position ∧ ∀ spec ∈ type.fields, spec.ComesBack board := by
  have hadd : Untouched registry board (w.add type position) := h.add hget hroot
  have hb : freshBlock type board ⟨w.nextId⟩ position ∈ (w.add type position).arena := by
    rw [← h.board_eq]
    exact List.mem_append_right _ (List.mem_singleton_self _)
  have hcreate : w.create type.kind position = .ok (w.add type position, ⟨w.nextId⟩) :=
    create_eq_ok.2 ⟨type, h.registry_eq ▸ hget, hroot, rfl, rfl⟩
  have hfields : (freshBlock type board ⟨w.nextId⟩ position).fields =
      type.fields.map fun spec => (spec.name, spec.defaultValue board) := Entries.ofList_map hd _
  rw [← hadd.restoreFields_default hb hget fun _ => BlockType.declaresAlone_of_nodup hd,
    ← hfields, restoreStack_eq_ok]
  constructor
  · rintro ⟨first, chain, hblocks, w₁, head, hblock, htail⟩
    obtain ⟨rfl, rfl⟩ := List.cons.inj hblocks
    simp only [restoreBlock, bind_eq_ok, pure_eq_ok, restoreSlots, restoreValues] at hblock
    obtain ⟨⟨w₂, id⟩, hmade, w₃, hread, _, rfl, _, rfl, heq⟩ := hblock
    obtain ⟨rfl, rfl⟩ := Prod.mk.inj (Except.ok.inj (hcreate.symm.trans hmade))
    obtain ⟨rfl, rfl⟩ := Prod.mk.inj heq
    simp only [restoreTail, pure_eq_ok] at htail
    rw [htail]
    exact hread
  · intro hread
    refine ⟨_, [], rfl, w', ⟨w.nextId⟩, ?_, rfl⟩
    simp only [restoreBlock, bind_eq_ok, pure_eq_ok, restoreSlots, restoreValues]
    exact ⟨_, hcreate, w', hread, w', rfl, w', rfl, rfl⟩

/-- The stacks of a row of new blocks are read back as the same row, if its fields may
be read back. -/
theorem Untouched.restoreStacks_eq (h : Untouched registry board w)
    (hd : FieldsApart registry w.arena) :
    (w.arena.map bareStack).foldlM restoreStack (Workspace.bare registry board) = .ok w' ↔
      w' = w ∧ AllComeBack registry board w.arena := by
  induction h generalizing w' with
  | bare =>
    show Except.ok _ = .ok w' ↔ _
    simp [AllComeBack, Workspace.bare, eq_comm]
  | @add w type position h hget hroot ih =>
    have harena : (w.add type position).arena =
        w.arena ++ [freshBlock type board ⟨w.nextId⟩ position] := by
      rw [← h.board_eq]
      rfl
    rw [harena] at hd ⊢
    obtain ⟨hd, hnew⟩ := List.forall_mem_append.1 hd
    have hback : AllComeBack registry board
          (w.arena ++ [freshBlock type board ⟨w.nextId⟩ position]) ↔
        AllComeBack registry board w.arena ∧ ∀ spec ∈ type.fields, spec.ComesBack board := by
      refine List.forall_mem_append.trans (and_congr_right' ?_)
      rw [List.forall_mem_singleton]
      exact ⟨fun h => h type hget, fun h type' hget' =>
        Option.some_inj.1 (hget.symm.trans hget') ▸ h⟩
    have hstack {w₁ : Workspace} :
        w.restoreStack (bareStack (freshBlock type board ⟨w.nextId⟩ position)) = .ok w₁ ↔
          w₁ = w.add type position ∧ ∀ spec ∈ type.fields, spec.ComesBack board :=
      h.restoreStack_eq hget hroot (List.forall_mem_singleton.1 hnew type hget)
    rw [List.map_append, List.foldlM_append, hback, List.map_singleton]
    simp only [bind_eq_ok, ih hd, List.foldlM_cons, List.foldlM_nil, pure_eq_ok]
    constructor
    · rintro ⟨_, ⟨rfl, hbacks⟩, _, hread, rfl⟩
      obtain ⟨rfl, hlast⟩ := hstack.1 hread
      exact ⟨rfl, hbacks, hlast⟩
    · rintro ⟨rfl, hbacks, hlast⟩
      exact ⟨w, ⟨rfl, hbacks⟩, _, hstack.2 ⟨rfl, hlast⟩, rfl⟩

/-- Blocks that are created on a new program, and left as they are, with any types
beside the roots. A field that has its name for itself holds what its declaration
says, and can be set to that, which changes nothing, if and only if it offers
anything. If all fields of all blocks have their names for themselves, the program is
read back from its snapshot if and only if each choice that asks the board begins with
a pin and each other choice offers anything, and it is read back as it is. -/
theorem created_restores_iff (hr : registry.HasRoots) {name : String} {start : Workspace}
    (hnew : Workspace.new registry name = .ok start) {calls : List (String × Position)}
    (hw : w = start.afterAll (calls.map fun call => .edit (.create call.1 call.2))) :
    (∀ b ∈ w.arena, ∀ type, registry.get? b.kind = some type →
      ∀ spec, type.DeclaresAlone spec →
        b.fields.get? spec.name = some (spec.defaultValue w.board) ∧
          ∀ w', w.setField b.id spec.name (spec.defaultValue w.board) = .ok w' ↔
            w' = w ∧ spec.Offers w.board) ∧
    (FieldsApart registry w.arena →
      ∀ w', restore registry w.save = .ok w' ↔
        w' = w ∧ AllComeBack registry w.board w.arena) := by
  obtain ⟨board, hboard, rfl⟩ : ∃ board, Board.find? name = some board ∧
      start = (Workspace.bare registry board).ensureRoots := by
    simpa only [Workspace.new, bind_eq_ok, Board.resolve_eq_ok, pure_eq_ok] using hnew
  have hu : Untouched registry board w :=
    hw ▸ (Untouched.bare.ensureRoots hr).afterAll_create calls
  rw [hu.board_eq]
  refine ⟨fun b hb type ht spec hs => ⟨hu.get?_fields hb ht hs,
    fun _ => hu.setField_default hb ht hs⟩, fun hd w' => ?_⟩
  have hroots := Reached.root?_ne_none hr (w := w) ⟨_, .new hnew, _, hw⟩
  have hresolve : Board.resolve w.save.board = .ok board := by
    show Board.resolve w.board.id = _
    rw [hu.board_eq, Board.resolve_eq_ok]
    exact find?_of_mem_all _ (Board.mem_all_of_find? hboard)
  have hversion : ¬ Snapshot.currentVersion < w.save.version := by
    show ¬ Snapshot.currentVersion < Snapshot.currentVersion
    decide
  rw [restore_eq_ok, hu.canvas_save]
  constructor
  · rintro ⟨-, board', w₁, hboard', hstacks, rfl⟩
    obtain rfl := Except.ok.inj (hresolve.symm.trans hboard')
    obtain ⟨rfl, hback⟩ := (hu.restoreStacks_eq hd).1 hstacks
    exact ⟨ensureRoots_eq_self hroots, hback⟩
  · rintro ⟨rfl, hback⟩
    exact ⟨hversion, board, _, hresolve, (hu.restoreStacks_eq hd).2 ⟨rfl, hback⟩,
      (ensureRoots_eq_self hroots).symm⟩

/-! ### Types that ask for too much, and one that does not -/

/-- A statement of which only the fields matter. -/
def probe (fields : List FieldSpec) : BlockType :=
  ⟨"probe", "", 0, .statement, fields, Library.inChain, Library.delayCode⟩

def withProbe (fields : List FieldSpec) : Registry :=
  Registry.builtin.register (probe fields)

theorem hasRoots_withProbe (fields : List FieldSpec) : (withProbe fields).HasRoots := by
  intro root
  cases root <;> exact ⟨_, rfl, rfl⟩

def probed (fields : List FieldSpec) : Workspace :=
  (bare (withProbe fields) .uno).ensureRoots.afterAll [.edit (.create "probe" .origin)]

def HoldsInProbe (fields : List FieldSpec) (name : String) (value : FieldValue) : Prop :=
  ((probed fields).block? ⟨3⟩).bind (fun b => b.fields.get? name) = some value

/-- Untouched programs that are refused. A choice that offers nothing, whether fixed
or asked from the board, is empty at first, and neither can be set so nor read back
so. A choice that offers what is no pin of any board can be set to it but not read
back. Of two declarations of a name the last one is stored and the first one checked. -/
theorem created_refused :
    (∀ fields, (withProbe fields).HasRoots ∧ ∃ start,
      Workspace.new (withProbe fields) "uno" = .ok start ∧
        probed fields = start.afterAll [.edit (.create "probe" .origin)]) ∧
    (let fields : List FieldSpec := [⟨"MODE", .dropdown (.fixed [])⟩]
     let fault : GraphError := .invalidField ⟨3⟩ "MODE" (.notAnOption "")
     HoldsInProbe fields "MODE" (.text "") ∧
       (probed fields).setField ⟨3⟩ "MODE" (.text "") = .error fault ∧
       restore (withProbe fields) (probed fields).save = .error (.graph fault)) ∧
    (let fields : List FieldSpec := [⟨"AT", .dropdown (.onBoard fun _ => [])⟩]
     HoldsInProbe fields "AT" (.text "") ∧
       (probed fields).setField ⟨3⟩ "AT" (.text "") =
         .error (.invalidField ⟨3⟩ "AT" (.notAnOption "")) ∧
       restore (withProbe fields) (probed fields).save =
         .error (.graph (.invalidField ⟨3⟩ "AT" (.notAPin "")))) ∧
    (let fields : List FieldSpec := [⟨"AT", .dropdown (.onBoard fun _ => [⟨"far", "A99"⟩])⟩]
     HoldsInProbe fields "AT" (.text "A99") ∧
       (probed fields).setField ⟨3⟩ "AT" (.text "A99") = .ok (probed fields) ∧
       restore (withProbe fields) (probed fields).save =
         .error (.graph (.invalidField ⟨3⟩ "AT" (.notAPin "A99")))) ∧
    (let fields : List FieldSpec := [⟨"N", .number 5⟩, ⟨"N", .dropdown (.fixed [⟨"a", "a"⟩])⟩]
     let fault : GraphError := .invalidField ⟨3⟩ "N" (.notANumber "a")
     HoldsInProbe fields "N" (.text "a") ∧
       (probed fields).setField ⟨3⟩ "N" (.text "a") = .error fault ∧
       restore (withProbe fields) (probed fields).save = .error (.graph fault)) := by
  refine ⟨fun fields => ⟨hasRoots_withProbe fields, _, rfl, rfl⟩, ⟨rfl, rfl, rfl⟩,
    ⟨rfl, rfl, rfl⟩, ⟨rfl, rfl, rfl⟩, ⟨rfl, rfl, rfl⟩⟩

def pinFields : List FieldSpec :=
  [⟨"N", .number 5⟩, .onBoard "AT" FieldSpec.pinOptions]

theorem regular_probe : (probe pinFields).Regular where
  fields := by decide
  statementSlots := by decide
  valueSlots := by decide
  specs := List.forall_mem_cons.2 ⟨Library.regular_number "N" 5,
    List.forall_mem_singleton.2 ⟨fun _ _ => by decide, fun _ => by decide⟩⟩
  ends := by decide
  roots := nofun

/-- Kinds of which one is no kind and one is that of a root that is there already. -/
def mixedCalls : List (String × Position) :=
  [("probe", ⟨60, 60⟩), ("nothing", .origin), ("root_loop", .origin), ("digital_write", .origin)]

def pinProbed : Workspace :=
  (bare (withProbe pinFields) .uno).ensureRoots.afterAll
    (mixedCalls.map fun call => .edit (.create call.1 call.2))

theorem created_restores_iff_of_probe :
    (withProbe pinFields).HasRoots ∧
      Workspace.new (withProbe pinFields) "uno" =
        .ok (bare (withProbe pinFields) .uno).ensureRoots ∧
      pinProbed.arena.length = 4 ∧
      pinProbed.setField ⟨3⟩ "AT" (.text "2") = .ok pinProbed ∧
      restore (withProbe pinFields) pinProbed.save = .ok pinProbed := by
  have hroots := hasRoots_withProbe pinFields
  have hregular : (withProbe pinFields).Regular :=
    Registry.regular_builtin.register regular_probe
  have hnew : Workspace.new (withProbe pinFields) "uno" =
    .ok (bare (withProbe pinFields) .uno).ensureRoots := rfl
  have hboard : pinProbed.board = .uno := by decide +kernel
  have huno : Board.uno ∈ Board.all := List.mem_cons_self
  obtain ⟨hset, hrestore⟩ := created_restores_iff hroots hnew (w := pinProbed) rfl
  rw [hboard] at hset hrestore
  refine ⟨hroots, hnew, by decide +kernel, ?_, ?_⟩
  · have hb : freshBlock (probe pinFields) .uno ⟨3⟩ ⟨60, 60⟩ ∈ pinProbed.arena := by
      decide +kernel
    have hs : .onBoard "AT" FieldSpec.pinOptions ∈ (probe pinFields).fields := .tail _ (.head _)
    have hdefault := hset _ hb _ rfl _ (BlockType.declaresAlone_of_nodup regular_probe.fields hs)
    exact (hdefault.2 _).2 ⟨rfl, (regular_probe.specs _ hs).offers_on huno⟩
  · refine (hrestore (fun _ _ _ ht => (hregular ht).fields) _).2 ⟨rfl, ?_⟩
    exact fun _ _ _ ht _ hs => ((hregular ht).specs _ hs).comesBack huno

end Workspace

end BlockSketch
