import BlockSketch.Proofs.Snapshot.RoundTrip
import BlockSketch.Proofs.Typing.Faithful

/-!
The report of stale fields. Three checks look at the pin in a field: the report
asks whether the active board has it, setting a field asks whether the list of
the field offers it, and reading back asks whether any board has it. What a
field of a program holds can be read back, on whatever board (`Admits`), so
it is in the form in which it is stored, and to set it again is refused by the
list or changes nothing. The list of a pin field is the list of pins, which makes
the report the list of the refusals.

A switch of the board touches nothing that the report is made of but the board
itself. So whatever boards a program has been on, on its own board it is the
program that it was.
-/

namespace BlockSketch

/-! ### Choices among pins -/

namespace FieldSpec

variable {spec : FieldSpec} {value : FieldValue}

/-- A choice that asks the board offers its pins. -/
def OffersPins (spec : FieldSpec) : Prop :=
  spec.isBoardDependent = true → ∀ board, spec.options board = pinOptions board

theorem offersPins_of_not_isBoardDependent (h : spec.isBoardDependent = false) :
    spec.OffersPins :=
  fun hdep => absurd hdep (Bool.eq_false_iff.1 h)

theorem any_pinOptions (board : Board) (value : String) :
    ((pinOptions board).any fun option => option.value == value) = board.hasPin value := by
  rw [pinOptions, List.any_map]
  rfl

/-- To set what can be read back is refused if it is a pin that the board lacks,
and gives the same value otherwise. -/
theorem Admits.validate_eq (h : spec.Admits value) (hp : spec.OffersPins) (board : Board) :
    spec.validate value board =
      if spec.isBoardDependent && !board.hasPin value.display then
        .error (.notAnOption value.display)
      else .ok value := by
  have hback := h board
  unfold Workspace.restorable at hback
  by_cases hdep : spec.isBoardDependent = true
  · rw [if_pos hdep] at hback
    split at hback
    · have htext : .text value.display = value := Except.ok.inj hback
      obtain ⟨_, hkind⟩ := exists_resolver hdep
      simp only [validate, hkind, hp hdep, any_pinOptions, hdep, htext]
      cases board.hasPin value.display <;> rfl
    · cases hback
  · rw [if_neg hdep] at hback
    rw [hback, Bool.eq_false_iff.2 hdep, Bool.false_and, if_neg Bool.false_ne_true]

end FieldSpec

def Registry.OffersPins (registry : Registry) : Prop :=
  ∀ ⦃kind type⦄, registry.get? kind = some type → ∀ spec ∈ type.fields, spec.OffersPins

theorem Library.offersPins_types : ∀ type ∈ types, ∀ spec ∈ type.fields, spec.OffersPins := by
  have hpins : pinField.OffersPins := fun _ _ => rfl
  simp only [types, List.forall_mem_cons, setup, loop, root, pinMode, digitalWrite, analogWrite,
    delay, repeatTimes, ifThen, serialBegin, serialPrint, number, text, digitalRead, analogRead,
    compare, plainChoice, FieldSpec.choice, List.not_mem_nil, false_imp_iff, implies_true, and_true,
    true_and, hpins]
  refine ⟨?_, ?_, ?_, ?_, ?_, ?_, ?_, ?_⟩ <;>
    exact FieldSpec.offersPins_of_not_isBoardDependent rfl

theorem Registry.offersPins_builtin : Registry.builtin.OffersPins :=
  fun _ _ h => Library.offersPins_types _ (Registry.mem_of_get?_ofList h)

/-! ### Fields with their values -/

structure FieldEntry where
  block : BlockId
  field : String
  value : FieldValue
deriving DecidableEq, Repr

def FieldEntry.shown (entry : FieldEntry) : StaleField :=
  ⟨entry.block, entry.field, entry.value.display⟩

namespace Workspace

variable {w w' : Workspace} {b : Block} {type : BlockType} {id : BlockId}

def entriesOf (w : Workspace) (b : Block) : List FieldEntry :=
  match w.registry.get? b.kind with
  | none => []
  | some type =>
    type.fields.filterMap fun spec =>
      (b.fields.get? spec.name).map fun value => ⟨b.id, spec.name, value⟩

/-- The declared fields of all blocks, in the order of the blocks. -/
def entries (w : Workspace) : List FieldEntry :=
  w.arena.flatMap w.entriesOf

/-- Whether a field cannot be set to the value that it holds. -/
def refuses (w : Workspace) (entry : FieldEntry) : Bool :=
  !(w.setField entry.block entry.field entry.value).isOk

/-- What the report of stale fields says about a program. Blocks stand in the
order of their creation, and every declared field holds a value. The report has
the fields that cannot be set to the value that they hold, each once; to set any
other field to the value that it holds changes nothing. -/
structure ReportsStale (w : Workspace) : Prop where
  ordered : w.arena.ids.Pairwise fun a b => a.index < b.index
  complete : ∀ b ∈ w.arena, ∃ type, w.registry.get? b.kind = some type ∧
    (w.entriesOf b).map FieldEntry.field = type.fields.map FieldSpec.name
  listed : w.staleFields = (w.entries.filter w.refuses).map FieldEntry.shown
  once : (w.staleFields.map fun stale => (stale.block, stale.field)).Nodup
  kept : ∀ entry ∈ w.entries, w.refuses entry = false →
    w.setField entry.block entry.field entry.value = .ok w

/-- To store what a field holds changes nothing. -/
theorem storeField_self (hd : w.arena.ids.Nodup) (hb : b ∈ w.arena) {name : String}
    {value : FieldValue} (h : b.fields.get? name = some value) :
    w.storeField b.id name value = w := by
  have hsame : w.arena.modify b.id (fun b => { b with fields := b.fields.insert name value }) =
      w.arena := by
    rw [Arena.modify, List.map_congr_left (g := id), List.map_id]
    intro d hmem
    split
    · rename_i hid
      have hfind := Arena.find?_of_mem hd hmem
      rw [hid, Arena.find?_of_mem hd hb, Option.some_inj] at hfind
      rw [← hfind, Entries.insert_of_get? h]
      rfl
    · rfl
  rw [storeField, hsame, withArena]

namespace Typed

/-- To set a declared field to the value that it holds: a pin that the board lacks
is refused, and everything else is there already. -/
theorem setField_self (h : w.Typed) (hc : w.Coherent) (hp : w.registry.OffersPins)
    (hr : w.registry.DeclaresOnce) (hb : b ∈ w.arena) (ht : w.registry.get? b.kind = some type)
    {spec : FieldSpec} (hs : spec ∈ type.fields) {value : FieldValue}
    (hv : b.fields.get? spec.name = some value) :
    w.setField b.id spec.name value =
      if spec.isBoardDependent && !w.board.hasPin value.display then
        .error (.invalidField b.id spec.name (.notAnOption value.display))
      else .ok w := by
  have hd := hc.numbered.nodup
  have htype : w.typeOf b.id = .ok type := typeOf_of_find? (Arena.find?_of_mem hd hb) ht
  have hspec : w.fieldSpec b.id spec.name = .ok spec :=
    fieldSpec_eq_ok.2 ⟨type, htype, BlockType.field?_of_mem (hr ht).fields hs⟩
  have hadmits : spec.Admits value := by
    obtain ⟨type', ht', hdescribes⟩ := h.described b hb
    obtain rfl := Option.some_inj.1 (ht.symm.trans ht')
    exact hdescribes.admits spec hs value hv
  rw [Workspace.setField, hspec]
  show w.storeChecked b.id spec.name (spec.validate value w.board) = _
  rw [hadmits.validate_eq (hp ht spec hs)]
  split
  · rfl
  · rw [storeChecked, storeField_self hd hb hv]

/-- Of one block, the report lists what cannot be set to the value that it holds. -/
theorem staleOf_eq (h : w.Typed) (hc : w.Coherent) (hp : w.registry.OffersPins)
    (hr : w.registry.DeclaresOnce) (hb : b ∈ w.arena) :
    w.staleOf b = ((w.entriesOf b).filter w.refuses).map FieldEntry.shown := by
  obtain ⟨type, ht, _⟩ := h.described b hb
  rw [staleOf, entriesOf, ht]
  simp only [List.filter_filterMap, List.map_filterMap, List.filterMap_filter]
  apply List.filterMap_congr
  intro spec hs
  cases hv : b.fields.get? spec.name with
  | none => simp
  | some value =>
    have hset := h.setField_self hc hp hr hb ht hs hv
    cases hdep : spec.isBoardDependent <;> cases hpin : w.board.hasPin value.display <;>
      simp_all [refuses, FieldEntry.shown, Except.isOk, Except.toBool]

/-- What a declared field of a typed program holds stands among the entries, once. -/
theorem complete (h : w.Typed) (hr : w.registry.DeclaresOnce) (hb : b ∈ w.arena) :
    ∃ type, w.registry.get? b.kind = some type ∧
      (w.entriesOf b).map FieldEntry.field = type.fields.map FieldSpec.name := by
  obtain ⟨type, ht, hdescribes⟩ := h.described b hb
  refine ⟨type, ht, ?_⟩
  have hshapes := hdescribes.shapes (hr ht)
  rw [entriesOf, ht]
  show (type.fields.filterMap _).map _ = _
  rw [List.map_filterMap, ← List.filterMap_eq_map]
  apply List.filterMap_congr
  intro spec hs
  obtain ⟨value, hv, _⟩ := hshapes.holds spec hs
  rw [hv]
  rfl

/-- No declared field has two entries. -/
theorem nodup_entries (h : w.Typed) (hc : w.Coherent) (hr : w.registry.DeclaresOnce) :
    (w.entries.map fun entry => (entry.block, entry.field)).Nodup := by
  have hblock : ∀ b, ∀ entry ∈ w.entriesOf b, entry.block = b.id := by
    intro b entry hentry
    unfold entriesOf at hentry
    split at hentry
    · cases hentry
    · obtain ⟨spec, _, hentry⟩ := List.mem_filterMap.1 hentry
      obtain ⟨value, _, rfl⟩ := Option.map_eq_some_iff.1 hentry
      rfl
  rw [entries, List.map_flatMap, List.nodup_flatMap]
  constructor
  · intro b hb
    obtain ⟨type, ht, hfields⟩ := h.complete hr hb
    have hnames : ((w.entriesOf b).map FieldEntry.field).Nodup := hfields ▸ (hr ht).fields
    refine List.Nodup.of_map Prod.snd ?_
    rwa [List.map_map]
  · -- Entries of different blocks differ in their blocks.
    refine (List.pairwise_map.1 hc.numbered.nodup).imp ?_
    intro b d hne pair hpair hpair'
    obtain ⟨entry, hentry, rfl⟩ := List.mem_map.1 hpair
    obtain ⟨entry', hentry', heq⟩ := List.mem_map.1 hpair'
    rw [Prod.mk.injEq, hblock b entry hentry, hblock d entry' hentry'] at heq
    exact hne heq.1.symm

theorem listed (h : w.Typed) (hc : w.Coherent) (hp : w.registry.OffersPins)
    (hr : w.registry.DeclaresOnce) :
    w.staleFields = (w.entries.filter w.refuses).map FieldEntry.shown := by
  rw [entries, List.filter_flatMap, List.map_flatMap]
  exact List.flatMap_congr fun b hb => h.staleOf_eq hc hp hr hb

theorem kept (h : w.Typed) (hc : w.Coherent) (hp : w.registry.OffersPins)
    (hr : w.registry.DeclaresOnce) {entry : FieldEntry} (hentry : entry ∈ w.entries)
    (hset : w.refuses entry = false) :
    w.setField entry.block entry.field entry.value = .ok w := by
  obtain ⟨b, hb, hentry⟩ := List.mem_flatMap.1 hentry
  obtain ⟨type, ht, _⟩ := h.described b hb
  rw [entriesOf, ht] at hentry
  obtain ⟨spec, hs, hentry⟩ := List.mem_filterMap.1 hentry
  obtain ⟨value, hv, rfl⟩ := Option.map_eq_some_iff.1 hentry
  rw [refuses, h.setField_self hc hp hr hb ht hs hv] at hset
  rw [h.setField_self hc hp hr hb ht hs hv]
  split at hset
  · cases hset
  · rw [if_neg ‹_›]

theorem reportsStale (h : w.Typed) (hc : w.Coherent) (hp : w.registry.OffersPins)
    (hr : w.registry.DeclaresOnce) : w.ReportsStale where
  ordered := hc.numbered.increasing
  complete _ hb := h.complete hr hb
  listed := h.listed hc hp hr
  once := by
    rw [h.listed hc hp hr, List.map_map]
    exact (h.nodup_entries hc hr).sublist (List.filter_sublist.map _)
  kept _ hentry hset := h.kept hc hp hr hentry hset

end Typed

/-! ### Switches of the board -/

theorem switchBoard_of_known {board : Board} {name : String} (h : Board.find? name = some board) :
    w.switchBoard name =
      .ok ({ w with board := board }, ({ w with board := board } : Workspace).staleFields) := by
  rw [switchBoard, setBoard_eq_ok.2 ⟨board, h, rfl⟩]
  rfl

theorem setBoard_of_unknown {name : String} (h : Board.find? name = none) :
    w.setBoard name = .error (.unknownBoard name) := by
  rw [setBoard, Board.resolve, h]
  rfl

/-- To switch to the board that a program is on changes nothing. -/
theorem setBoard_self (h : w.board ∈ Board.all) : w.setBoard w.board.id = .ok w :=
  setBoard_eq_ok.2 ⟨w.board, find?_of_mem_all _ h, rfl⟩

/-- Whatever boards are switched to, known or not, only the board changes. -/
theorem afterAll_setBoard (names : List String) :
    ∃ board, w.afterAll (names.map .setBoard) = { w with board := board } := by
  induction names generalizing w with
  | nil => exact ⟨w.board, rfl⟩
  | cons name rest ih =>
    have hstep : ∃ board, w.after (.setBoard name) = { w with board := board } := by
      cases hfound : Board.find? name with
      | none => exact ⟨w.board, by rw [after, setBoard_of_unknown hfound]⟩
      | some board => exact ⟨board, by rw [after, setBoard_eq_ok.2 ⟨board, hfound, rfl⟩]⟩
    obtain ⟨board, hboard⟩ := hstep
    obtain ⟨last, hlast⟩ := ih (w := w.after (.setBoard name))
    refine ⟨last, ?_⟩
    rw [List.map_cons, afterAll_cons, hlast, hboard]

/-- A program of the library reports as stale exactly the fields that could not be
set to what they hold; setting any other field so changes nothing. A switch to a
known board gives the report for that board and changes nothing else, a switch to
an unknown one is refused, and after any switches the way back leads to the same
program. -/
theorem reached_reportsStale (h : Reached .builtin w) :
    w.ReportsStale ∧
    (∀ name board, Board.find? name = some board →
      ∃ w' : Workspace, w' = { w with board := board } ∧
        w.switchBoard name = .ok (w', w'.staleFields) ∧ w'.ReportsStale) ∧
    (∀ name, Board.find? name = none →
      w.switchBoard name = .error (.unknownBoard name) ∧ w.after (.setBoard name) = w) ∧
    ∀ names : List String, (w.afterAll (names.map .setBoard)).after (.setBoard w.board.id) = w := by
  have hreports : ∀ {w}, Reached .builtin w → w.ReportsStale := fun {w} h => by
    obtain ⟨hreg, hc, _, ht, _⟩ := h.settled
    exact ht.reportsStale hc (hreg ▸ Registry.offersPins_builtin)
      (hreg ▸ Registry.regular_builtin.declaresOnce)
  refine ⟨hreports h, fun name board hfound => ?_, fun name hnone => ?_, fun names => ?_⟩
  · have hswitched : w.afterAll [.setBoard name] = { w with board := board } := by
      rw [afterAll_cons, after, setBoard_eq_ok.2 ⟨board, hfound, rfl⟩, afterAll_nil]
    exact ⟨_, rfl, switchBoard_of_known hfound, hswitched ▸ hreports (h.afterAll _)⟩
  · refine ⟨?_, by rw [after, setBoard_of_unknown hnone]⟩
    rw [switchBoard, setBoard_of_unknown hnone]
    rfl
  · obtain ⟨_, _, _, ht, _⟩ := h.settled
    obtain ⟨board, hboard⟩ := afterAll_setBoard (w := w) names
    rw [hboard, after, setBoard_eq_ok.2 ⟨w.board, find?_of_mem_all _ ht.board, rfl⟩]

/-- Two of three pins are not on the board that is switched to. -/
theorem reached_reportsStale_of_switched :
    let w := (onDefaultBoard .builtin).afterAll
      [.edit (.create "digital_write" .origin), .edit (.create "pin_mode" .origin),
        .edit (.create "digital_read" .origin), .edit (.setField ⟨3⟩ "PIN" (.text "13")),
        .edit (.setField ⟨5⟩ "PIN" (.text "12")), .setBoard "esp32"]
    Reached .builtin w ∧ w.ReportsStale ∧
      w.staleFields = [⟨⟨3⟩, "PIN", "13"⟩, ⟨⟨5⟩, "PIN", "12"⟩] ∧
      w.switchBoard "uno" = .ok ({ w with board := .uno }, []) ∧
      w.switchBoard "mega" = .error (.unknownBoard "mega") ∧
      (w.afterAll [.setBoard "uno", .setBoard "mega"]).after (.setBoard "esp32") = w := by
  intro w
  have hreached : Reached .builtin w := ⟨_, .onDefaultBoard, _, rfl⟩
  obtain ⟨hreports, hknown, hunknown, hback⟩ := reached_reportsStale hreached
  obtain ⟨w', rfl, hswitch, _⟩ := hknown "uno" .uno (by decide)
  have hstale : ({ w with board := .uno } : Workspace).staleFields = [] := by decide
  rw [hstale] at hswitch
  exact ⟨hreached, hreports, by decide, hswitch, (hunknown "mega" (by decide)).1,
    hback ["uno", "mega"]⟩

end Workspace

end BlockSketch
