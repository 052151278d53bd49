import BlockSketch.Editor
import BlockSketch.Project.Store
import BlockSketch.Proofs.Sketch.Tree
import BlockSketch.Proofs.Snapshot.Restored

/-!
The ways in which a program arrives. A text gives names in the order in which they
were written, a value gives them in their own order. Blocks are then created in
another order and have other numbers, but the order of names has no part in the
canonical form of a snapshot; and what is rebuilt is told by the canonical form.
So both ways lead to the same program (`SameProgram`): it is stored as the same
text, and has the same code. They part where a text nests too deeply to be read,
which a value never does.
-/

namespace BlockSketch

open Json StoredBlock

/-! ### The same blocks in another order -/

namespace StoredBlock

theorem slotsInside_eq_flatMap (slots : List (String × List StoredBlock)) :
    slotsInside slots = slots.flatMap fun e => chainInside e.2 := by
  induction slots with
  | nil => rfl
  | cons entry rest ih => rw [slotsInside, ih, List.flatMap_cons]

theorem valuesInside_eq_flatMap (values : List (String × StoredBlock)) :
    valuesInside values = values.flatMap fun e => e.2 :: e.2.inside := by
  induction values with
  | nil => rfl
  | cons entry rest ih => rw [valuesInside, ih, List.flatMap_cons, List.cons_append]

mutual

/-- Reordering moves the blocks in a block, and does nothing else to them. -/
theorem Reordered.kinds_perm : ∀ {b b' : StoredBlock}, b.Reordered b' →
    (b.inside.map StoredBlock.kind).Perm (b'.inside.map StoredBlock.kind)
  | _, _, .block _ hs hps hv hpv => by
    have hslots := (hps.flatMap_right fun e => chainInside e.2).map StoredBlock.kind
    have hvalues := (hpv.flatMap_right fun e => e.2 :: e.2.inside).map StoredBlock.kind
    rw [← slotsInside_eq_flatMap, ← slotsInside_eq_flatMap] at hslots
    rw [← valuesInside_eq_flatMap, ← valuesInside_eq_flatMap] at hvalues
    rw [inside, inside, List.map_append, List.map_append]
    exact (hs.kinds_perm.trans hslots).append (hv.kinds_perm.trans hvalues)

theorem ChainReordered.kinds_perm : ∀ {chain chain' : List StoredBlock},
    ChainReordered chain chain' →
    ((chainInside chain).map StoredBlock.kind).Perm ((chainInside chain').map StoredBlock.kind)
  | _, _, .nil => .refl _
  | _, _, .cons hb hrest => by
    rw [chainInside, chainInside, List.map_cons, List.map_cons, List.map_append, List.map_append,
      hb.kind]
    exact (hb.kinds_perm.append hrest.kinds_perm).cons _

theorem SlotsReordered.kinds_perm : ∀ {slots slots' : List (String × List StoredBlock)},
    SlotsReordered slots slots' →
    ((slotsInside slots).map StoredBlock.kind).Perm ((slotsInside slots').map StoredBlock.kind)
  | _, _, .nil => .refl _
  | _, _, .cons hchain hrest => by
    rw [slotsInside, slotsInside, List.map_append, List.map_append]
    exact hchain.kinds_perm.append hrest.kinds_perm

theorem ValuesReordered.kinds_perm : ∀ {values values' : List (String × StoredBlock)},
    ValuesReordered values values' →
    ((valuesInside values).map StoredBlock.kind).Perm ((valuesInside values').map StoredBlock.kind)
  | _, _, .nil => .refl _
  | _, _, .cons hb hrest => by
    rw [valuesInside, valuesInside, List.map_cons, List.map_cons, List.map_append, List.map_append,
      hb.kind]
    exact (hb.kinds_perm.append hrest.kinds_perm).cons _

end

end StoredBlock

namespace Snapshot.Reordered

variable {registry : Registry} {board : Board} {s s' : Snapshot}

theorem kinds_perm (h : s.Reordered s') :
    (s.blocks.map StoredBlock.kind).Perm (s'.blocks.map StoredBlock.kind) := by
  obtain ⟨_, _, hcanvas⟩ := h
  rw [blocks, blocks]
  generalize s.canvas = canvas, s'.canvas = canvas' at hcanvas
  induction hcanvas with
  | nil => exact .refl _
  | cons hstack _ ih =>
    rw [canvasInside, canvasInside, List.flatMap_cons, List.flatMap_cons, List.map_append,
      List.map_append]
    exact hstack.blocks.kinds_perm.append ih

theorem blockCount (h : s.Reordered s') : s'.blockCount = s.blockCount := by
  have hlength := h.kinds_perm.length_eq
  rw [List.length_map, List.length_map, length_blocks, length_blocks] at hlength
  exact hlength.symm

theorem missing (h : s.Reordered s') : s'.missing registry = s.missing registry := by
  apply List.filter_congr
  intro root _
  refine decide_eq_decide.2 (and_congr_right fun _ => ?_)
  have hkinds : ∀ s : Snapshot, (∀ b ∈ canvasInside s.canvas, b.kind ≠ root.kindName) ↔
      root.kindName ∉ s.blocks.map StoredBlock.kind := by
    intro s
    rw [List.mem_map]
    exact ⟨fun hnone ⟨b, hb, hkind⟩ => hnone b hb hkind,
      fun hnone b hb hkind => hnone ⟨b, hb, hkind⟩⟩
  rw [hkinds, hkinds, h.kinds_perm.mem_iff]

/-- The canonical form of a snapshot has nothing to do with the order of its names. -/
theorem canonical (h : s.Reordered s') (hfits : ∀ stack ∈ s.canvas, stack.Fits registry board) :
    s'.canonical registry board = s.canonical registry board := by
  have hcanvas : s'.canvas.map (StoredStack.canonical registry board) =
      s.canvas.map (StoredStack.canonical registry board) := by
    obtain ⟨_, _, hcanvas⟩ := h
    generalize s.canvas = canvas, s'.canvas = canvas' at hcanvas hfits
    induction hcanvas with
    | nil => rfl
    | cons hstack _ ih =>
      obtain ⟨hfirst, hrest⟩ := List.forall_mem_cons.1 hfits
      rw [List.map_cons, List.map_cons, ih hrest, hstack.canonical hfirst]
  rw [Snapshot.canonical, Snapshot.canonical, completed, completed, List.map_append,
    List.map_append, hcanvas, h.missing, h.board]

end Snapshot.Reordered

/-! ### The same program -/

namespace Workspace

variable {registry : Registry} {s s' : Snapshot} {w w' : Workspace}

/-- Programs that nobody can tell apart but by the numbers of their blocks. -/
structure SameProgram (w w' : Workspace) : Prop where
  registry : w'.registry = w.registry
  board : w'.board = w.board
  size : w'.size = w.size
  save : w'.save = w.save
  text : w'.save.text = w.save.text
  compile : w.registry.IgnoresNumbers → w'.compile = w.compile

theorem SameProgram.refl (w : Workspace) : w.SameProgram w :=
  ⟨rfl, rfl, rfl, rfl, rfl, fun _ => rfl⟩

/-- On another board they are the same program again. -/
theorem SameProgram.setBoard (h : w.SameProgram w') (board : String) :
    (w.after (.setBoard board)).SameProgram (w'.after (.setBoard board)) := by
  simp only [Workspace.after, Workspace.setBoard]
  cases Board.resolve board with
  | error e => exact h
  | ok board =>
    have hcanvas : w'.save.canvas = w.save.canvas := congrArg Snapshot.canvas h.save
    have hsave : (Snapshot.mk Snapshot.currentVersion board.id w'.save.canvas) =
        ⟨Snapshot.currentVersion, board.id, w.save.canvas⟩ := by rw [hcanvas]
    exact ⟨h.registry, rfl, h.size, hsave, congrArg Snapshot.text hsave, h.compile⟩

/-- What is rebuilt from snapshots that differ in the order of their names is the
same program. -/
theorem sameProgram_of_reordered (hr : registry.DeclaresOnce) (hnamed : s.Named)
    (h : s.Reordered s') (hw : restore registry s = .ok w) (hw' : restore registry s' = .ok w') :
    w.SameProgram w' := by
  have hgrounded : w.Grounded := (Begins.restored hw).reached.grounded.2
  have hgrounded' : w'.Grounded := (Begins.restored hw').reached.grounded.2
  obtain ⟨board, hboard, hgiven, hall, rfl⟩ := restore_eq_rebuilt hnamed hw
  obtain ⟨board', hboard', _, hall', rfl⟩ := restore_eq_rebuilt (h.named_iff.2 hnamed) hw'
  obtain rfl : board = board' := by
    rw [h.board, hboard] at hboard'
    exact Option.some_inj.1 hboard'
  have hsave := (save_rebuilt hr hboard' hall').trans
    ((h.canonical hgiven.fits).trans (save_rebuilt hr hboard hall).symm)
  refine ⟨rfl, rfl, ?_, hsave, congrArg Snapshot.text hsave, fun hi => ?_⟩
  · rw [size_rebuilt hall, size_rebuilt hall', h.missing, h.blockCount]
  · exact hgrounded.compile_congr hgrounded' rfl hr.slotsOnce hi fun kind => by rw [hsave]

/-- They are the same program also where a new one is begun instead. -/
theorem sameProgram_restoreOrNew (hr : registry.DeclaresOnce) (hnamed : s.Named)
    (h : s.Reordered s') :
    (restoreOrNew registry (some s)).SameProgram (restoreOrNew registry (some s')) := by
  have hiff : (∃ w, restore registry s' = .ok w) ↔ ∃ w, restore registry s = .ok w :=
    h.restores_iff hnamed
  cases hw : restore registry s with
  | ok w =>
    obtain ⟨w', hw'⟩ := hiff.2 ⟨w, hw⟩
    rw [restoreOrNew, restoreOrNew, hw, hw']
    exact sameProgram_of_reordered hr hnamed h hw hw'
  | error fault =>
    cases hw' : restore registry s' with
    | ok w' =>
      obtain ⟨w, hok⟩ := hiff.1 ⟨w', hw'⟩
      rw [hw] at hok
      cases hok
    | error fault' =>
      rw [restoreOrNew, restoreOrNew, hw, hw']
      exact .refl _

end Workspace

/-! ### Texts and values -/

/-- A text and a value are the same program wherever a program is opened: when it
is loaded, in a session that begins with it, and in a project that holds it. -/
structure OpenAlike (registry : Registry) (text : String) (value : Json) : Prop where
  load : (Workspace.load registry text).SameProgram (Workspace.loadValue registry value)
  session : (Editor.ofWorkspace (Workspace.load registry text)).workspace.SameProgram
    (Editor.ofSnapshot registry value).workspace
  display : registry.IgnoresNumbers → (Editor.ofSnapshot registry value).live =
    (Editor.ofWorkspace (Workspace.load registry text)).live
  project : ∀ (store : ProjectStore) (id : String) (record : ProjectRecord) (w : Workspace),
    store.openProject registry id = .ok (record, w) → record.snapshot = value →
      ((Workspace.load registry text).after (.setBoard record.boardId)).SameProgram w

theorem openAlike_of_load {registry : Registry} {text : String} {value : Json}
    (h : (Workspace.load registry text).SameProgram (Workspace.loadValue registry value)) :
    OpenAlike registry text value where
  load := h
  session := h
  display hi := by
    have hreg : (Workspace.load registry text).registry = registry :=
      (Workspace.Begins.loaded text).reached.grounded.1
    have hcompile := h.compile (by rw [hreg]; exact hi)
    exact congrArg (LiveCode.display .start) hcompile
  project store id record w hopen hvalue := by
    simp only [ProjectStore.openProject, bind_eq_ok, pure_eq_ok] at hopen
    obtain ⟨_, _, heq⟩ := hopen
    cases heq
    rw [ProjectStore.workspaceOf, hvalue]
    exact h.setBoard record.boardId

namespace Workspace

variable {registry : Registry} {s s' : Snapshot}

/-- The order of names decides neither whether a snapshot is rebuilt nor what the
program is: it is stored as the same text, and has the same code if generators do
not look at the numbers of blocks. So a program is the same whether it arrives as
a text or as a value, as long as the text can be read. The texts of a snapshot
itself can be read if they do not nest too deeply. Beyond the limit they begin a
new program, while the value is still the program of the snapshot. -/
theorem opens_alike (hr : registry.DeclaresOnce) (hnamed : s.Named) (h : s.Reordered s') :
    ((∃ w, restore registry s = .ok w) ↔ ∃ w, restore registry s' = .ok w) ∧
    (∀ w w', restore registry s = .ok w → restore registry s' = .ok w' → w.SameProgram w') ∧
    (∀ text value, Snapshot.ofText? text = some s → Snapshot.ofValue? value = some s' →
      OpenAlike registry text value) ∧
    (s.toJson.depth ≤ nestingLimit → OpenAlike registry s.text s.toValue ∧
      OpenAlike registry s.prettyText s.toValue) ∧
    (nestingLimit < s.toJson.depth →
      load registry s.text = onDefaultBoard registry ∧
      load registry s.prettyText = onDefaultBoard registry ∧
      ∀ w, restore registry s = .ok w → w.SameProgram (loadValue registry s.toValue)) := by
  have hown := sameProgram_restoreOrNew hr hnamed (Snapshot.reordered_sorted hnamed)
  have hvalue := Snapshot.ofValue?_toValue hnamed
  refine ⟨(h.restores_iff hnamed).symm,
    fun w w' => sameProgram_of_reordered hr hnamed h, ?_, ?_, ?_⟩
  · intro text value htext hread
    apply openAlike_of_load
    rw [load, loadValue, htext, hread]
    exact sameProgram_restoreOrNew hr hnamed h
  · intro hroom
    constructor <;> apply openAlike_of_load
    · rw [load, loadValue, Snapshot.ofText?_text hnamed, if_pos hroom, hvalue]
      exact hown
    · rw [load, loadValue, Snapshot.ofText?_prettyText hnamed, if_pos hroom, hvalue]
      exact hown
  · intro hdeep
    have hnot := Nat.not_le_of_lt hdeep
    refine ⟨?_, ?_, fun w hw => ?_⟩
    · rw [load, Snapshot.ofText?_text hnamed, if_neg hnot, restoreOrNew]
    · rw [load, Snapshot.ofText?_prettyText hnamed, if_neg hnot, restoreOrNew]
    · rw [restoreOrNew, hw] at hown
      rw [loadValue, hvalue]
      exact hown

/-- The fields of a block the other way round. -/
theorem opens_alike_of_swapped :
    let mode : String × FieldValue := ("MODE", .text "INPUT")
    let pin : String × FieldValue := ("PIN", .text "4")
    let s : Snapshot := ⟨1, "uno", [⟨60, 60, [⟨"pin_mode", [mode, pin], [], []⟩]⟩]⟩
    let s' : Snapshot := ⟨1, "uno", [⟨60, 60, [⟨"pin_mode", [pin, mode], [], []⟩]⟩]⟩
    s.Named ∧ s.Reordered s' ∧ s.toJson.depth ≤ nestingLimit ∧
      (∃ w w', restore .builtin s = .ok w ∧ restore .builtin s' = .ok w' ∧
        w'.save.text = w.save.text ∧ w'.compile = w.compile) ∧
      OpenAlike .builtin s.text s.toValue := by
  intro mode pin s s'
  have hreordered : s.Reordered s' :=
    ⟨rfl, rfl, .cons ⟨rfl, rfl, .cons (.block (.swap ..) .nil (.refl _) .nil (.refl _)) .nil⟩ .nil⟩
  have hfields : FieldsFit Library.pinMode .uno [mode, pin] := by
    refine ⟨?_, fun name value hmem => ?_⟩
    · show List.Nodup ["MODE", "PIN"]
      decide
    · simp only [mode, pin, List.mem_cons, List.not_mem_nil, or_false, Prod.mk.injEq] at hmem
      obtain ⟨rfl, rfl⟩ | ⟨rfl, rfl⟩ := hmem
      · exact ⟨_, .text "INPUT", rfl, rfl⟩
      · exact ⟨_, .text "4", rfl, rfl⟩
  have hfits : (⟨"pin_mode", [mode, pin], [], []⟩ : StoredBlock).Fits .builtin .uno :=
    ⟨Library.pinMode, rfl, hfields, Entries.distinct_nil, trivial, Entries.distinct_nil, trivial⟩
  have hnamed : s.Named := List.forall_mem_singleton.2 ⟨named_of_fits hfits, trivial⟩
  have hroom : s.toJson.depth ≤ nestingLimit := by decide
  obtain ⟨w, hw⟩ := (restores_iff hnamed).2 ⟨by decide, .uno, rfl,
    List.forall_mem_singleton.2 (StoredStack.fits_cons.2 ⟨hfits, trivial⟩),
    List.pairwise_singleton ..⟩
  obtain ⟨hiff, hsame, _, hshallow, _⟩ :=
    opens_alike Registry.regular_builtin.declaresOnce hnamed hreordered
  obtain ⟨w', hw'⟩ := hiff.1 ⟨w, hw⟩
  have hprogram := hsame w w' hw hw'
  have hreg : w.registry = .builtin := (Begins.restored hw).reached.grounded.1
  exact ⟨hnamed, hreordered, hroom, ⟨w, w', hw, hw', hprogram.text,
    hprogram.compile (hreg ▸ Registry.ignoresNumbers_builtin)⟩, (hshallow hroom).1⟩

/-- Forty-one repetitions inside each other are a program as a value, and none as
a text. -/
theorem opens_apart_nested :
    (Snapshot.nested 40).Named ∧
      (∃ w, restore .builtin (Snapshot.nested 40) = .ok w ∧ w.save = Snapshot.nested 40) ∧
      (loadValue .builtin (Snapshot.nested 40).toValue).save = Snapshot.nested 40 ∧
      load .builtin (Snapshot.nested 40).text = onDefaultBoard .builtin ∧
      ¬ OpenAlike .builtin (Snapshot.nested 40).text (Snapshot.nested 40).toValue := by
  have hsettled := Snapshot.settled_nested 40
  have hdeclares := Registry.regular_builtin.declaresOnce
  obtain ⟨w, hw, hboard, hstacks⟩ := restore_of_settled hsettled hdeclares
  have hsave : w.save = Snapshot.nested 40 := save_of_settled (hboard ▸ hsettled) hstacks
  have hdeep : ¬ (Snapshot.nested 40).toJson.depth ≤ nestingLimit := by
    rw [Snapshot.depth_nested]
    decide
  have hown := sameProgram_restoreOrNew hdeclares hsettled.named
    (Snapshot.reordered_sorted hsettled.named)
  have hvalue : (loadValue .builtin (Snapshot.nested 40).toValue).save = Snapshot.nested 40 := by
    rw [restoreOrNew, hw] at hown
    rw [loadValue, Snapshot.ofValue?_toValue hsettled.named]
    exact hown.save.trans hsave
  have hload := load_eq (Snapshot.ofText?_text hsettled.named) hw
  rw [if_neg hdeep] at hload
  refine ⟨hsettled.named, ⟨w, hw, hsave⟩, hvalue, hload, fun halike => ?_⟩
  have hsame := halike.load.save
  rw [hload, hvalue] at hsame
  rw [hsame] at hdeep
  exact hdeep depth_onDefaultBoard

end Workspace

end BlockSketch
