import BlockSketch.Proofs.Mirror.Session
import BlockSketch.Proofs.Snapshot.Paths
import BlockSketch.Proofs.Typing.Stale

/-!
Saving a program in a project, and opening it again. A store gives every project
a number of its own (`Numbered`), so that saving finds one record and changes
this one alone (`exists_update`). What it puts there is the snapshot as a value,
in which names are sorted and nothing is lost: the value has no limit on how
deeply a program may nest, and a rebuilt program takes the pins of every board.
So the program that is opened has the snapshot of the one that was saved. Then
the board of the record is the board it has already, and programs of the library
with the same snapshot are twins (`Reached.twin_of_save`), whose stale fields
correspond.
-/

namespace BlockSketch

/-! ### Stale fields -/

def StaleField.renumbered (f : BlockId → BlockId) (stale : StaleField) : StaleField :=
  { stale with block := f stale.block }

namespace Workspace

variable {w w' : Workspace} {f : BlockId → BlockId}

def staleAt (w : Workspace) (x : BlockId) : List StaleField :=
  (w.arena.find? x).elim [] w.staleOf

theorem staleFields_eq_flatMap (hd : w.arena.ids.Nodup) :
    w.staleFields = w.arena.ids.flatMap w.staleAt := by
  rw [Arena.ids, List.flatMap_map, staleFields]
  apply List.flatMap_congr
  intro b hb
  rw [staleAt, Arena.find?_of_mem hd hb]
  rfl

/-- The counterpart of a block has the same stale fields. -/
theorem Mirror.staleAt_eq (m : w.Mirror f w') {x : BlockId} (hx : x ∈ w.arena.ids) :
    w'.staleAt (f x) = (w.staleAt x).map (StaleField.renumbered f) := by
  obtain ⟨b, hb⟩ := Arena.exists_find? hx
  obtain ⟨b', hb', hkind, hfields⟩ := m.arena.find hb
  have hid : b.id = x := Arena.id_of_find? hb
  have hid' : b'.id = f x := Arena.id_of_find? hb'
  rw [staleAt, staleAt, hb, hb']
  show w'.staleOf b' = (w.staleOf b).map _
  rw [staleOf, staleOf, m.registry, m.board, hkind, hfields, hid, hid']
  cases w.registry.get? b.kind with
  | none => rfl
  | some type =>
    simp only [List.map_filterMap]
    apply List.filterMap_congr
    intro spec _
    cases b.fields.get? spec.name with
    | none => rfl
    | some value =>
      by_cases hpin : w.board.hasPin value.display = true
      · simp [hpin]
      · simp [hpin, StaleField.renumbered]

/-- Both sides of a mirror have the same stale fields, up to their order and to the
numbers of the blocks. -/
theorem Mirror.staleFields_perm (m : w.Mirror f w') (hd : w.arena.ids.Nodup)
    (hd' : w'.arena.ids.Nodup) :
    w'.staleFields.Perm (w.staleFields.map (StaleField.renumbered f)) := by
  have hsame : (w.arena.ids.map f).flatMap w'.staleAt =
      w.staleFields.map (StaleField.renumbered f) := by
    rw [List.flatMap_map, staleFields_eq_flatMap hd, List.map_flatMap]
    exact List.flatMap_congr fun x hx => m.staleAt_eq hx
  rw [staleFields_eq_flatMap hd', ← hsame]
  exact (m.arena.ids_perm hd hd').flatMap_right w'.staleAt

/-! ### Reading back -/

/-- A program of the library is stored as before when it has been read from its
own snapshot as a value. -/
theorem save_loadValue (h : Reached .builtin w) :
    (loadValue .builtin w.save.toValue).save = w.save := by
  obtain ⟨hreg, hc, hroots, ht, _⟩ := h.settled
  have hsettled := settled_save ht hc hroots (hreg ▸ Registry.regular_builtin)
  have hsame := sameProgram_restoreOrNew Registry.regular_builtin.declaresOnce
    hsettled.named (Snapshot.reordered_sorted hsettled.named)
  obtain ⟨u, _, hu, _, hsave⟩ := h.exists_twin
  rw [loadValue, Snapshot.ofValue?_toValue hsettled.named, hsame.save, restoreOrNew, hu, hsave]

end Workspace

/-! ### Stores -/

namespace ProjectStore

variable {store : ProjectStore} {id : String} {record : ProjectRecord} {w : Workspace}

inductive Action
  | create (project : NewProject) (now : Timestamp)
  | update (id : String) (update : ProjectUpdate) (now : Timestamp)
  | delete (id : String)
  | save (id : String) (w : Workspace) (now : Timestamp)

def after (store : ProjectStore) : Action → ProjectStore
  | .create project now => (store.create project now).1
  | .update id update now =>
    match store.update id update now with
    | .ok (store, _) => store
    | .error _ => store
  | .delete id =>
    match store.delete id with
    | .ok store => store
    | .error _ => store
  | .save id w now =>
    match store.saveProject id w now with
    | .ok (store, _) => store
    | .error _ => store

def Reached (store : ProjectStore) : Prop :=
  ∃ actions : List Action, store = actions.foldl after empty

/-- No two projects have the same id, and every id has been given. -/
structure Numbered (store : ProjectStore) : Prop where
  distinct : (store.records.map ProjectRecord.id).Nodup
  given : ∀ r ∈ store.records, ∃ n ≤ store.created, r.id = idOf n

theorem idOf_injective {m n : Nat} (h : idOf m = idOf n) : m = n :=
  Text.toString_injective ((String.append_right_inj "project-").1 h)

theorem get_eq_ok : store.get id = .ok record ↔ store.get? id = some record := by
  unfold get
  split <;> simp_all

theorem id_of_get? (h : store.get? id = some record) : record.id = id := by
  simpa using List.find?_some h

/-- What an update puts in the place of the records. -/
theorem update_eq_ok {u : ProjectUpdate} {now : Timestamp} {store' : ProjectStore}
    {updated : ProjectRecord} :
    store.update id u now = .ok (store', updated) ↔
      ∃ record, store.get? id = some record ∧ updated = record.updated u now ∧
        store' = ⟨store.records.map fun r => if r.id = id then updated else r, store.created⟩ := by
  simp only [update, bind_eq_ok, get_eq_ok, pure_eq_ok, Prod.mk.injEq]
  constructor
  · rintro ⟨record, hget, rfl, rfl⟩
    exact ⟨record, hget, rfl, rfl⟩
  · rintro ⟨record, hget, rfl, rfl⟩
    exact ⟨record, hget, rfl, rfl⟩

theorem update_eq_error (h : store.get? id = none) (u : ProjectUpdate) (now : Timestamp) :
    store.update id u now = .error (.notFound id) := by
  rw [update, get, h]
  rfl

namespace Numbered

theorem create (h : store.Numbered) (p : NewProject) (now : Timestamp) :
    (store.create p now).1.Numbered := by
  constructor
  · show ((store.records ++ [_]).map ProjectRecord.id).Nodup
    rw [List.map_append, List.map_singleton, List.nodup_append]
    refine ⟨h.distinct, List.nodup_singleton _, fun old hold new hnew heq => ?_⟩
    obtain ⟨r, hr, rfl⟩ := List.mem_map.1 hold
    obtain ⟨n, hn, hid⟩ := h.given r hr
    rw [List.mem_singleton.1 hnew, hid] at heq
    have hnumber : n = store.created + 1 := idOf_injective heq
    omega
  · intro r hr
    obtain hr | hr := List.mem_append.1 hr
    · obtain ⟨n, hn, hid⟩ := h.given r hr
      exact ⟨n, Nat.le_succ_of_le hn, hid⟩
    · rw [List.mem_singleton.1 hr]
      exact ⟨_, Nat.le_refl _, rfl⟩

theorem update (h : store.Numbered) {u : ProjectUpdate} {now : Timestamp}
    {store' : ProjectStore} {updated : ProjectRecord}
    (ha : store.update id u now = .ok (store', updated)) : store'.Numbered := by
  obtain ⟨record, hget, rfl, rfl⟩ := update_eq_ok.1 ha
  have hid : ∀ r : ProjectRecord, (if r.id = id then record.updated u now else r).id = r.id := by
    intro r
    split
    · rename_i heq
      exact (id_of_get? hget).trans heq.symm
    · rfl
  constructor
  · rw [List.map_map, show (ProjectRecord.id ∘ _) = ProjectRecord.id from funext hid]
    exact h.distinct
  · intro r hr
    obtain ⟨old, hold, rfl⟩ := List.mem_map.1 hr
    rw [hid]
    exact h.given old hold

theorem delete (h : store.Numbered) {store' : ProjectStore}
    (ha : store.delete id = .ok store') : store'.Numbered := by
  simp only [ProjectStore.delete, bind_eq_ok, pure_eq_ok] at ha
  obtain ⟨_, _, rfl⟩ := ha
  exact ⟨h.distinct.sublist (List.filter_sublist.map _),
    fun r hr => h.given r (List.mem_filter.1 hr).1⟩

theorem after (h : store.Numbered) (a : Action) : (store.after a).Numbered := by
  cases a with
  | create p now => exact h.create p now
  | update id u now =>
    simp only [ProjectStore.after]
    split
    · exact h.update ‹_›
    · exact h
  | delete id =>
    simp only [ProjectStore.after]
    split
    · exact h.delete ‹_›
    · exact h
  | save id w now =>
    simp only [ProjectStore.after]
    split
    · exact h.update ‹_›
    · exact h

theorem foldl_after (h : store.Numbered) (actions : List Action) :
    (actions.foldl ProjectStore.after store).Numbered := by
  induction actions generalizing store with
  | nil => exact h
  | cons a rest ih => exact ih (h.after a)

end Numbered

theorem numbered_empty : empty.Numbered :=
  ⟨List.nodup_nil, fun _ hr => absurd hr List.not_mem_nil⟩

theorem Reached.numbered (h : store.Reached) : store.Numbered := by
  obtain ⟨actions, rfl⟩ := h
  exact numbered_empty.foldl_after actions

/-- With distinct ids, an update changes one record in its place. -/
theorem Numbered.exists_update (h : store.Numbered) (hget : store.get? id = some record)
    (u : ProjectUpdate) (now : Timestamp) :
    ∃ before after, store.records = before ++ record :: after ∧
      (∀ r ∈ before, r.id ≠ id) ∧
        store.update id u now = .ok (⟨before ++ record.updated u now :: after, store.created⟩,
          record.updated u now) := by
  obtain ⟨hid, before, after, hrecords, hbefore⟩ := List.find?_eq_some_iff_append.1 hget
  have hid : record.id = id := by simpa using hid
  have hbefore : ∀ r ∈ before, r.id ≠ id := by simpa using hbefore
  have hafter : ∀ r ∈ after, r.id ≠ id := by
    have hdistinct := h.distinct
    rw [hrecords, List.map_append, List.map_cons] at hdistinct
    have hnot := (List.nodup_cons.1 (List.nodup_append.1 hdistinct).2.1).1
    intro r hr heq
    exact hnot (List.mem_map.2 ⟨r, hr, heq.trans hid.symm⟩)
  refine ⟨before, after, hrecords, hbefore, update_eq_ok.2 ⟨record, hget, rfl, ?_⟩⟩
  have hsame : ∀ {l : List ProjectRecord}, (∀ r ∈ l, r.id ≠ id) →
      l.map (fun r => if r.id = id then record.updated u now else r) = l := by
    intro l hl
    rw [List.map_congr_left fun r hr => if_neg (hl r hr), List.map_id']
  rw [hrecords, List.map_append, List.map_cons, hsame hbefore, hsame hafter, if_pos hid]

/-! ### Programs in a store -/

/-- The program of a record that holds a program of the library on its own board is
what has been read. -/
theorem workspaceOf_eq (h : Workspace.Reached .builtin w) (hboard : record.boardId = w.board.id)
    (hvalue : record.snapshot = w.save.toValue) :
    workspaceOf .builtin record = Workspace.loadValue .builtin w.save.toValue := by
  obtain ⟨_, htwin⟩ :=
    h.twin_of_save (Workspace.Begins.loadedValue _).reached (Workspace.save_loadValue h)
  have hknown : (Workspace.loadValue .builtin w.save.toValue).board ∈ Board.all := by
    rw [htwin.board]
    exact (h.typed Workspace.hasRoots_builtin Registry.regular_builtin).board
  simp only [workspaceOf, hvalue, hboard, ← htwin.board, Workspace.setBoard_self hknown]

/-- One record has been replaced in its place, and nothing else has changed. -/
structure Replaced (store : ProjectStore) (id : String) (old new : ProjectRecord)
    (store' : ProjectStore) : Prop where
  found : store'.get? id = some new
  others : ∀ other, other ≠ id → store'.get? other = store.get? other
  inPlace : ∃ before after, store.records = before ++ old :: after ∧
    store'.records = before ++ new :: after
  created : store'.created = store.created

theorem Numbered.replaced (h : store.Numbered) (hget : store.get? id = some record)
    (u : ProjectUpdate) (now : Timestamp) :
    ∃ store', store.update id u now = .ok (store', record.updated u now) ∧
      store.Replaced id record (record.updated u now) store' := by
  have hid := id_of_get? hget
  obtain ⟨before, after, hrecords, hbefore, hupdate⟩ := h.exists_update hget u now
  have hnone : before.find? (fun r => r.id == id) = none :=
    List.find?_eq_none.2 fun r hr heq => hbefore r hr (beq_iff_eq.1 heq)
  refine ⟨_, hupdate, ?_, fun other hne => ?_, ⟨before, after, hrecords, rfl⟩, rfl⟩
  · show (before ++ _ :: after).find? _ = _
    rw [List.find?_append, hnone, Option.none_or, List.find?_cons_of_pos]
    exact beq_iff_eq.2 hid
  · show (before ++ record.updated u now :: after).find? _ = store.records.find? _
    have hdrop : ∀ r : ProjectRecord, r.id = id →
        (r :: after).find? (fun r => r.id == other) = after.find? (fun r => r.id == other) :=
      fun r hr => List.find?_cons_of_neg fun heq => hne ((beq_iff_eq.1 heq).symm.trans hr)
    rw [hrecords, List.find?_append, List.find?_append, hdrop record hid,
      hdrop (record.updated u now) hid]

/-- A program of the library comes back from the project that it was saved in:
with the same snapshot, on the same board, and with the same stale fields up to
the numbers of the blocks. Saving changes the board, the snapshot and the time of
this project, and nothing else. Where there is no such project, saving and
opening say so, and nothing changes. -/
theorem reached_save_open (hstore : store.Reached) (h : Workspace.Reached .builtin w)
    (id : String) (now : Timestamp) :
    (∀ record, store.get? id = some record → ∃ store' saved w' f,
      saved = { record with
        boardId := w.board.id, snapshot := w.save.toValue, updatedAt := now } ∧
      store.saveProject id w now = .ok (store', saved) ∧
      store.Replaced id record saved store' ∧
      store'.openProject .builtin id = .ok (saved, w') ∧
      w'.save = w.save ∧ w'.save.text = w.save.text ∧ w'.board = w.board ∧ w.Twin f w' ∧
      w'.staleFields.Perm (w.staleFields.map (StaleField.renumbered f))) ∧
    (store.get? id = none →
      store.saveProject id w now = .error (.notFound id) ∧ store.after (.save id w now) = store ∧
        ∀ registry, store.openProject registry id = .error (.notFound id)) := by
  constructor
  · intro record hget
    obtain ⟨store', hupdate, hreplaced⟩ :=
      hstore.numbered.replaced hget ⟨none, some w.board.id, some w.save.toValue⟩ now
    let saved : ProjectRecord :=
      { record with boardId := w.board.id, snapshot := w.save.toValue, updatedAt := now }
    let w' := Workspace.loadValue .builtin w.save.toValue
    have hreached : Workspace.Reached .builtin w' := (Workspace.Begins.loadedValue _).reached
    have hsave : w'.save = w.save := Workspace.save_loadValue h
    obtain ⟨f, htwin⟩ := h.twin_of_save hreached hsave
    obtain ⟨hreg, hc, _⟩ := h.settled
    obtain ⟨hreg', hc', _⟩ := hreached.settled
    have hopen : store'.openProject .builtin id = .ok (saved, w') := by
      have hw' : workspaceOf .builtin saved = w' := workspaceOf_eq h rfl rfl
      rw [← hw', openProject, get_eq_ok.2 hreplaced.found]
      rfl
    exact ⟨store', saved, w', f, rfl, hupdate, hreplaced, hopen, hsave, by rw [hsave], htwin.board,
      htwin, (htwin.mirror (hreg'.trans hreg.symm)).staleFields_perm hc.numbered.nodup
        hc'.numbered.nodup⟩
  · intro hnone
    have hget : store.get id = .error (.notFound id) := by rw [get, hnone]
    have hsave : store.saveProject id w now = .error (.notFound id) := by
      rw [saveProject, update, hget]
      rfl
    refine ⟨hsave, by rw [ProjectStore.after, hsave], fun registry => ?_⟩
    rw [openProject, hget]
    rfl

/-- A program with a pin that its board does not have, in the first of two
projects. -/
theorem reached_save_open_of_stale :
    let store := [Action.create ⟨"ana", "Blink", "uno", .null⟩ ⟨0, 0⟩,
      .create ⟨"rui", "Other", "nano", .null⟩ ⟨1, 0⟩].foldl after empty
    let w := (Workspace.onDefaultBoard .builtin).afterAll
      [.edit (.create "digital_write" ⟨60, 60⟩), .edit (.setField ⟨3⟩ "PIN" (.text "13")),
        .setBoard "esp32"]
    store.Reached ∧ Workspace.Reached .builtin w ∧
      (∃ record, store.get? "project-1" = some record ∧ ∃ store' saved w',
        store.saveProject "project-1" w ⟨2, 0⟩ = .ok (store', saved) ∧
        store'.get? "project-2" = store.get? "project-2" ∧
        store'.openProject .builtin "project-1" = .ok (saved, w') ∧ w'.save = w.save ∧
        w'.staleFields.length = 1) ∧
      store.get? "project-3" = none ∧
      store.saveProject "project-3" w ⟨2, 0⟩ = .error (.notFound "project-3") := by
  intro store w
  have hstore : store.Reached := ⟨_, rfl⟩
  have hw : Workspace.Reached .builtin w := ⟨_, .onDefaultBoard, _, rfl⟩
  have hnone : store.get? "project-3" = none := by decide
  have hstale : w.staleFields.length = 1 := by decide
  obtain ⟨record, hget⟩ : ∃ record, store.get? "project-1" = some record := ⟨_, rfl⟩
  obtain ⟨store', saved, w', f, _, hsave, hreplaced, hopen, hsame, _, _, _, hperm⟩ :=
    (reached_save_open hstore hw "project-1" ⟨2, 0⟩).1 record hget
  refine ⟨hstore, hw, ⟨record, hget, store', saved, w', hsave,
    hreplaced.others "project-2" (by decide), hopen, hsame, ?_⟩, hnone,
    ((reached_save_open hstore hw "project-3" ⟨2, 0⟩).2 hnone).1⟩
  rw [hperm.length_eq, List.length_map, hstale]

end ProjectStore

end BlockSketch
