import BlockSketch.Proofs.Json.Clipped
import BlockSketch.Proofs.Project.Saving

/-!
Updates as texts. An update is written with all its fields, and what it leaves out
is written as `null`. A snapshot may be `null` as well, and this is where the text
says less than the update: to clear a snapshot is written like to keep it, and is
read as the latter (`written`). Everything else comes back, as far as there is
room: the text has one container more than the snapshot. What a store makes of an
update is compared apart from the times of its records (`outcome`).
-/

namespace BlockSketch

open Json

namespace ProjectUpdate

def text (u : ProjectUpdate) : String :=
  u.toJson.compact

def prettyText (u : ProjectUpdate) : String :=
  u.toJson.pretty

def ofText? (text : String) : Option ProjectUpdate := do
  ofDocument? (← Document.ofText? text)

/-- The snapshot, if there is one, is a value with its members in order and has no
fractions in it. -/
def Exact (u : ProjectUpdate) : Prop :=
  ∀ value, u.snapshot = some value → value.Whole ∧ value.sorted = value

def depth (u : ProjectUpdate) : Nat :=
  u.snapshot.elim 0 Json.depth

/-- What is read of an update that has been written. -/
def written (u : ProjectUpdate) : ProjectUpdate :=
  match u.snapshot with
  | some .null => { u with snapshot := none }
  | _ => u

variable {u : ProjectUpdate}

theorem written_of_ne (h : u.snapshot ≠ some .null) : u.written = u := by
  unfold written
  split
  · exact absurd ‹_› h
  · rfl

theorem written_of_null (h : u.snapshot = some .null) :
    u.written = { u with snapshot := none } := by
  rw [written, h]

theorem whole_toJson (h : u.Exact) : u.toJson.Whole := by
  have hstring : ∀ s : Option String, (Json.ofOption .string s).Whole := by
    intro s
    cases s <;> trivial
  have hsnapshot : (Json.ofOption id u.snapshot).Whole := by
    cases hs : u.snapshot with
    | none => trivial
    | some value => exact (h value hs).1
  exact ⟨hstring u.name, hstring u.boardId, hsnapshot, trivial⟩

/-- The field that holds the snapshot, or nothing. -/
theorem snapshot_cell (h : u.Exact) (n : Nat) :
    (Document.clipped n (.ofOption id u.snapshot)).orNull? Document.toValue? =
      if u.depth ≤ n then some u.written.snapshot else none := by
  rw [depth]
  cases hs : u.snapshot with
  | none =>
    rw [written_of_ne (by rw [hs]; exact nofun), hs, Option.elim_none, if_pos (Nat.zero_le n)]
    simp [Json.ofOption, Document.clipped, Document.orNull?]
  | some value =>
    by_cases hnull : value = .null
    · subst hnull
      have hroom : Json.depth .null ≤ n := Nat.zero_le n
      rw [written_of_null hs, Option.elim_some, if_pos hroom]
      simp [Json.ofOption, Document.clipped, Document.orNull?]
    · have hread : (Document.clipped n value).orNull? Document.toValue? =
          (Document.clipped n value).toValue?.map some := by
        have hne : Document.clipped n value ≠ .null := mt Document.clipped_eq_null.1 hnull
        cases hd : Document.clipped n value <;> first | rfl | exact absurd hd hne
      rw [written_of_ne (by rw [hs]; simpa using hnull), hs, Option.elim_some]
      show (Document.clipped n value).orNull? Document.toValue? = _
      rw [hread, Document.toValue?_clipped, (h value hs).2]
      split <;> rfl

/-- Of an update that has been written, `written` is read if there is room for it. -/
theorem ofDocument?_clipped (h : u.Exact) (n : Nat) :
    ofDocument? (Document.clipped (n + 1) u.toJson) =
      if u.depth ≤ n then some u.written else none := by
  have hrecord : (Document.clipped (n + 1) u.toJson).record? names =
      some ⟨false, [some (Document.clipped n (.ofOption .string u.name)),
        some (Document.clipped n (.ofOption .string u.boardId)),
        some (Document.clipped n (.ofOption id u.snapshot))]⟩ := rfl
  have hkept : ⟨u.name, u.boardId, u.written.snapshot⟩ = u.written := by
    unfold written
    split <;> rfl
  rw [ofDocument?, hrecord]
  simp only [Option.bind_eq_bind, Option.bind_some, defaulted?, Document.orNull?_clipped,
    snapshot_cell h, Bool.false_eq_true, false_and, if_false]
  by_cases hroom : u.depth ≤ n
  · rw [if_pos hroom, if_pos hroom, ← hkept]
    rfl
  · rw [if_neg hroom, if_neg hroom]
    rfl

theorem ofText?_text (h : u.Exact) :
    ofText? u.text = if u.depth < nestingLimit then some u.written else none := by
  rw [ofText?, text, ofText?_compact (whole_toJson h)]
  simp only [nestingLimit, Nat.lt_succ_iff]
  exact ofDocument?_clipped h 126

theorem ofText?_prettyText (h : u.Exact) :
    ofText? u.prettyText = if u.depth < nestingLimit then some u.written else none := by
  rw [ofText?, prettyText, ofText?_pretty (whole_toJson h)]
  simp only [nestingLimit, Nat.lt_succ_iff]
  exact ofDocument?_clipped h 126

end ProjectUpdate

/-- A record apart from its time. -/
def ProjectRecord.timeless (r : ProjectRecord) : ProjectRecord :=
  { r with updatedAt := ⟨0, 0⟩ }

namespace ProjectStore

def timeless (store : ProjectStore) : ProjectStore :=
  ⟨store.records.map ProjectRecord.timeless, store.created⟩

/-- What comes of an update, in the store and as its answer, apart from the times. -/
def outcome (store : ProjectStore) (id : String) (u : ProjectUpdate) (now : Timestamp) :
    Except PersistenceError (ProjectStore × ProjectRecord) :=
  (store.update id u now).map fun granted => (granted.1.timeless, granted.2.timeless)

variable {store : ProjectStore} {id : String} {u : ProjectUpdate} {record : ProjectRecord}

theorem outcome_of_none (h : store.get? id = none) (u : ProjectUpdate) (now : Timestamp) :
    store.outcome id u now = .error (.notFound id) := by
  rw [outcome, update_eq_error h]
  rfl

theorem outcome_of_some (h : store.get? id = some record) (u : ProjectUpdate) (now : Timestamp) :
    store.outcome id u now =
      .ok (⟨store.records.map fun r =>
          if r.id = id then (record.updated u now).timeless else r.timeless, store.created⟩,
        (record.updated u now).timeless) := by
  have hrecords : (store.records.map fun r =>
      if r.id = id then record.updated u now else r).map ProjectRecord.timeless =
        store.records.map fun r =>
          if r.id = id then (record.updated u now).timeless else r.timeless := by
    rw [List.map_map]
    exact List.map_congr_left fun r _ => apply_ite ProjectRecord.timeless _ _ _
  rw [outcome, update_eq_ok.2 ⟨record, h, rfl, rfl⟩, ← hrecords]
  rfl

/-- What a store makes of two updates is the same if they make the same of the record. -/
theorem outcome_eq_iff (h : store.get? id = some record) (u v : ProjectUpdate)
    (now now' : Timestamp) : store.outcome id u now = store.outcome id v now' ↔
      (record.updated u now).timeless = (record.updated v now').timeless := by
  rw [outcome_of_some h, outcome_of_some h]
  constructor
  · intro hsame
    exact (Prod.mk.inj (Except.ok.inj hsame)).2
  · intro hsame
    rw [hsame]

/-- To write an update and read it again makes a difference only where it clears a
snapshot that is not clear yet. -/
theorem outcome_written_iff (store : ProjectStore) (id : String) (u : ProjectUpdate)
    (now now' : Timestamp) :
    store.outcome id u.written now' = store.outcome id u now ↔
      (u.snapshot = some .null → ∀ r, store.get? id = some r → r.snapshot = .null) := by
  cases hget : store.get? id with
  | none =>
    rw [outcome_of_none hget, outcome_of_none hget]
    exact ⟨fun _ _ => nofun, fun _ => rfl⟩
  | some record =>
    rw [outcome_eq_iff hget]
    by_cases hnull : u.snapshot = some .null
    · rw [ProjectUpdate.written_of_null hnull]
      simp [ProjectRecord.updated, ProjectRecord.timeless, hnull]
    · rw [ProjectUpdate.written_of_ne hnull]
      exact ⟨fun _ h => absurd h hnull, fun _ => rfl⟩

/-- An update that is exact comes back from its text, in both layouts, whenever there is
room for its snapshot and one container more. Then it does to any store what the update
does that was written, at whatever times, unless it is to clear a snapshot: it does not,
and this makes a difference where the project is there and its snapshot is not clear. -/
theorem written_does_alike (h : u.Exact) :
    (u.depth < nestingLimit → ∃ v, ProjectUpdate.ofText? u.text = some v ∧
      ProjectUpdate.ofText? u.prettyText = some v ∧
      (u.snapshot ≠ some .null → v = u) ∧
      ∀ (store : ProjectStore) (id : String) (now now' : Timestamp),
        store.outcome id v now' = store.outcome id u now ↔
          (u.snapshot = some .null → ∀ r, store.get? id = some r → r.snapshot = .null)) ∧
    (nestingLimit ≤ u.depth →
      ProjectUpdate.ofText? u.text = none ∧ ProjectUpdate.ofText? u.prettyText = none) := by
  rw [ProjectUpdate.ofText?_text h, ProjectUpdate.ofText?_prettyText h]
  constructor
  · intro hroom
    refine ⟨u.written, if_pos hroom, if_pos hroom, ProjectUpdate.written_of_ne, ?_⟩
    exact fun store id now now' => outcome_written_iff store id u now now'
  · intro hroom
    exact ⟨if_neg (Nat.not_lt.2 hroom), if_neg (Nat.not_lt.2 hroom)⟩

/-- A project that still has no program gets another name and a snapshot in which
something is `null`. -/
theorem written_does_alike_of_replaced :
    let store := (empty.create ⟨"ana", "Blink", "uno", .null⟩ ⟨0, 0⟩).1
    let u : ProjectUpdate :=
      ⟨some "Fade", none, some (.object [("board", .null), ("stacks", .array [.bool true])])⟩
    u.Exact ∧ u.depth < nestingLimit ∧ ∃ v, ProjectUpdate.ofText? u.text = some v ∧ v = u ∧
      store.outcome "project-1" v ⟨2, 0⟩ = store.outcome "project-1" u ⟨1, 0⟩ := by
  intro store u
  have hexact : u.Exact := by
    rintro _ ⟨⟩
    exact ⟨⟨trivial, ⟨trivial, trivial⟩, trivial⟩, rfl⟩
  have hroom : u.depth < nestingLimit := by decide
  obtain ⟨v, htext, _, hsame, houtcome⟩ := (written_does_alike hexact).1 hroom
  exact ⟨hexact, hroom, v, htext, hsame nofun,
    (houtcome store "project-1" ⟨1, 0⟩ ⟨2, 0⟩).2 nofun⟩

/-- To clear the snapshot of a project, said in a text, leaves it as it is. -/
theorem cleared_is_kept :
    let store := (empty.create ⟨"ana", "Blink", "uno", .ofNat 1⟩ ⟨0, 0⟩).1
    let clear : ProjectUpdate := ⟨none, none, some .null⟩
    clear.Exact ∧ clear.depth < nestingLimit ∧
      ¬ ∃ v, ProjectUpdate.ofText? clear.text = some v ∧
        store.outcome "project-1" v ⟨1, 0⟩ = store.outcome "project-1" clear ⟨1, 0⟩ := by
  intro store clear
  have hexact : clear.Exact := by
    rintro _ ⟨⟩
    exact ⟨trivial, rfl⟩
  have hroom : clear.depth < nestingLimit := by decide
  refine ⟨hexact, hroom, fun ⟨v, htext, hsame⟩ => ?_⟩
  rw [ProjectUpdate.ofText?_text hexact, if_pos hroom] at htext
  obtain rfl := Option.some.inj htext
  have hclear := (outcome_written_iff store "project-1" clear ⟨1, 0⟩ ⟨1, 0⟩).1 hsame rfl _ rfl
  cases hclear

end ProjectStore

end BlockSketch
