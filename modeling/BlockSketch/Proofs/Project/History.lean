import BlockSketch.Project.Request
import BlockSketch.Proofs.Project.Saving

/-!
Stores and their histories. What a store holds is told from what it has been
asked alone: a project is what it was created as, with the updates that came
since, as long as it has not been deleted (`recordOf?`), and the records stand in
the order in which their ids were given. This store is `told`. A request that is
met by the store that a history tells of leads to the one that the longer history
tells of (`serve_told`), so every store that begins empty is the one that is told
(`serveAll_empty`), and all its answers can be read off the history; `Answers`
lists them. The clock may stand still or go back: nothing here asks for more than
that each request has some time.
-/

namespace BlockSketch

/-! ### Points in time -/

namespace Timestamp

variable {a b c : Timestamp}

theorem notAfter_iff : a.notAfter b = true ↔
    a.second < b.second ∨ a.second = b.second ∧ a.fraction ≤ b.fraction := by
  simp [notAfter]

theorem notAfter_refl (a : Timestamp) : a.notAfter a = true :=
  notAfter_iff.2 (.inr ⟨rfl, Nat.le_refl _⟩)

theorem notAfter_trans (hab : a.notAfter b = true) (hbc : b.notAfter c = true) :
    a.notAfter c = true := by
  rw [notAfter_iff] at *
  omega

theorem notAfter_total (a b : Timestamp) : (a.notAfter b || b.notAfter a) = true := by
  rw [Bool.or_eq_true, notAfter_iff, notAfter_iff]
  omega

end Timestamp

/-- Sorting keeps the order of what is equal. -/
theorem filter_mergeSort {α : Type} {le : α → α → Bool}
    (trans : ∀ a b c, le a b = true → le b c = true → le a c = true)
    (total : ∀ a b, (le a b || le b a) = true) {p : α → Bool}
    (hp : ∀ a b, p a = true → p b = true → le a b = true) (l : List α) :
    (l.mergeSort le).filter p = l.filter p := by
  have hsorted : (l.filter p).Pairwise fun a b => le a b = true :=
    List.pairwise_of_forall_mem_list fun a ha b hb =>
      hp a b (List.mem_filter.1 ha).2 (List.mem_filter.1 hb).2
  have hsub := (List.sublist_mergeSort trans total hsorted List.filter_sublist).filter p
  simp only [List.filter_filter, Bool.and_self] at hsub
  exact (hsub.eq_of_length ((List.mergeSort_perm l le).filter p).length_eq.symm).symm

/-! ### Records and what is asked of them -/

namespace ProjectStore.Request

def creates : Request → Bool
  | .create _ => true
  | _ => false

/-- The update that is asked for of the project with this id. Saving a program is one. -/
def change? (id : String) : Request → Option ProjectUpdate
  | .update other u => if other = id then some u else none
  | .save other w => if other = id then some ⟨none, some w.board.id, some w.save.toValue⟩ else none
  | _ => none

def deletes (id : String) : Request → Bool
  | .delete other => other = id
  | _ => false

end ProjectStore.Request

namespace ProjectRecord

/-- A record after some updates, each with its time: where several of them set the same
thing, the last one counts. -/
def changed (r : ProjectRecord) (changes : List (ProjectUpdate × Timestamp)) : ProjectRecord :=
  { r with
    name := (changes.reverse.findSome? fun c => c.1.name).getD r.name
    boardId := (changes.reverse.findSome? fun c => c.1.boardId).getD r.boardId
    snapshot := (changes.reverse.findSome? fun c => c.1.snapshot).getD r.snapshot
    updatedAt := (changes.getLast?.map Prod.snd).getD r.updatedAt }

theorem changed_concat (r : ProjectRecord) (changes : List (ProjectUpdate × Timestamp))
    (u : ProjectUpdate) (now : Timestamp) :
    r.changed (changes ++ [(u, now)]) = (r.changed changes).updated u now := by
  simp only [changed, updated, List.reverse_append, List.reverse_singleton, List.singleton_append,
    List.findSome?_cons, List.getLast?_concat, Option.map_some, Option.getD_some]
  cases u.name <;> cases u.boardId <;> cases u.snapshot <;> rfl

/-- What a request makes of a record that is there when it comes. -/
def after? (r : ProjectRecord) (request : ProjectStore.Request) (now : Timestamp) :
    Option ProjectRecord :=
  if request.deletes r.id then none
  else match request.change? r.id with
    | some u => some (r.updated u now)
    | none => some r

end ProjectRecord

namespace ProjectStore

/-! ### What a history says -/

def creations (history : History) : Nat :=
  history.countP fun asked => asked.1.creates

def idsOf (history : History) : List String :=
  (List.range (creations history)).map fun n => idOf (n + 1)

/-- The record that was created with this id, where so many projects had been created
before, and what the store was asked after that. -/
def creation? (id : String) : Nat → History → Option (ProjectRecord × History)
  | _, [] => none
  | n, (.create p, now) :: later =>
    if idOf (n + 1) = id then
      some (⟨id, p.ownerId, p.name, p.boardId, p.snapshot, now⟩, later)
    else creation? id (n + 1) later
  | n, _ :: later => creation? id n later

def changes (id : String) (history : History) : List (ProjectUpdate × Timestamp) :=
  history.filterMap fun asked => (asked.1.change? id).map fun u => (u, asked.2)

/-- The record of the project with this id after a history: as it was created, with the
updates that came after that, unless it was deleted since or never created. -/
def recordOf? (history : History) (id : String) : Option ProjectRecord :=
  match creation? id 0 history with
  | none => none
  | some (first, later) =>
    if later.any fun asked => asked.1.deletes id then none
    else some (first.changed (changes id later))

def told (history : History) : ProjectStore :=
  ⟨(idsOf history).filterMap (recordOf? history), creations history⟩

variable {store : ProjectStore} {history : History} {request : Request} {now : Timestamp}
  {id : String} {record first : ProjectRecord} {n : Nat} {later : History}

theorem creation?_cons_of_not_creates (h : request.creates = false) (n : Nat) (now : Timestamp)
    (later : History) : creation? id n ((request, now) :: later) = creation? id n later := by
  cases request
  case create => cases h
  all_goals rfl

theorem creations_concat (history : History) (request : Request) (now : Timestamp) :
    creations (history ++ [(request, now)]) =
      creations history + if request.creates then 1 else 0 := by
  rw [creations, List.countP_append, List.countP_singleton]
  rfl

theorem creations_cons (request : Request) (now : Timestamp) (later : History) :
    creations ((request, now) :: later) =
      creations later + if request.creates then 1 else 0 := by
  rw [creations, List.countP_cons]
  rfl

theorem mem_idsOf : id ∈ idsOf history ↔ ∃ k < creations history, idOf (k + 1) = id := by
  simp [idsOf]

theorem nodup_idsOf (history : History) : (idsOf history).Nodup :=
  List.nodup_range.map fun _ _ h => Nat.succ_injective (idOf_injective h)

theorem idsOf_concat (history : History) (request : Request) (now : Timestamp) :
    idsOf (history ++ [(request, now)]) =
      idsOf history ++ if request.creates then [idOf (creations history + 1)] else [] := by
  rw [idsOf, creations_concat]
  cases request.creates
  · simp [idsOf]
  · simp [idsOf, List.range_succ]

/-- What has been created once is found in any longer history. -/
theorem creation?_append (n : Nat) (history more : History) :
    creation? id n (history ++ more) =
      match creation? id n history with
      | some (first, later) => some (first, later ++ more)
      | none => creation? id (n + creations history) more := by
  induction history generalizing n with
  | nil => rfl
  | cons asked rest ih =>
    obtain ⟨request, now⟩ := asked
    rw [creations_cons, List.cons_append]
    by_cases hcreates : request.creates = true
    · cases request with
      | create p =>
        by_cases hid : idOf (n + 1) = id
        · simp only [creation?, if_pos hid]
        · simp only [creation?, if_neg hid, ih, Request.creates, if_true]
          rw [Nat.add_right_comm, Nat.add_assoc n]
      | _ => cases hcreates
    · have hcreates : request.creates = false := Bool.not_eq_true _ ▸ hcreates
      rw [creation?_cons_of_not_creates hcreates, creation?_cons_of_not_creates hcreates, ih,
        hcreates]
      rfl

/-- A record is created with its id, which is one of the numbers that were given. -/
theorem id_of_creation? (h : creation? id n history = some (first, later)) :
    first.id = id ∧ ∃ k < creations history, idOf (n + k + 1) = id := by
  induction history generalizing n with
  | nil => cases h
  | cons asked rest ih =>
    obtain ⟨request, now⟩ := asked
    rw [creations_cons]
    by_cases hcreates : request.creates = true
    · cases request with
      | create p =>
        rw [if_pos hcreates]
        by_cases hid : idOf (n + 1) = id
        · simp only [creation?, if_pos hid, Option.some.injEq, Prod.mk.injEq] at h
          obtain ⟨rfl, rfl⟩ := h
          exact ⟨rfl, 0, Nat.succ_pos _, hid⟩
        · simp only [creation?, if_neg hid] at h
          obtain ⟨hfirst, k, hk, hid⟩ := ih h
          exact ⟨hfirst, k + 1, Nat.succ_lt_succ hk, by rw [← hid, Nat.add_right_comm n 1]; rfl⟩
      | _ => cases hcreates
    · have hcreates : request.creates = false := Bool.not_eq_true _ ▸ hcreates
      rw [creation?_cons_of_not_creates hcreates] at h
      obtain ⟨hfirst, k, hk, hid⟩ := ih h
      exact ⟨hfirst, k, Nat.lt_add_right _ hk, hid⟩

theorem recordOf?_eq_some : recordOf? history id = some record ↔
    ∃ first later, creation? id 0 history = some (first, later) ∧
      (∀ asked ∈ later, asked.1.deletes id = false) ∧
        record = first.changed (changes id later) := by
  unfold recordOf?
  cases creation? id 0 history with
  | none => simp
  | some found =>
    obtain ⟨first, later⟩ := found
    simp only [Option.ite_none_left_eq_some, List.any_eq_true, not_exists, not_and,
      Bool.not_eq_true, Option.some.injEq, Prod.mk.injEq]
    constructor
    · rintro ⟨hkept, rfl⟩
      exact ⟨first, later, ⟨rfl, rfl⟩, hkept, rfl⟩
    · rintro ⟨_, _, ⟨rfl, rfl⟩, hkept, rfl⟩
      exact ⟨hkept, rfl⟩

theorem id_of_recordOf? (h : recordOf? history id = some record) : record.id = id := by
  obtain ⟨first, later, hfirst, _, rfl⟩ := recordOf?_eq_some.1 h
  exact (id_of_creation? hfirst).1

theorem mem_idsOf_of_recordOf? (h : recordOf? history id = some record) : id ∈ idsOf history := by
  obtain ⟨first, later, hfirst, _⟩ := recordOf?_eq_some.1 h
  obtain ⟨_, k, hk, hid⟩ := id_of_creation? hfirst
  exact mem_idsOf.2 ⟨k, hk, by rw [← hid, Nat.zero_add]⟩

theorem changes_concat (id : String) (later : History) (request : Request) (now : Timestamp) :
    changes id (later ++ [(request, now)]) =
      changes id later ++ ((request.change? id).map fun u => (u, now)).toList := by
  rw [changes, List.filterMap_append]
  cases hchange : request.change? id <;> simp [changes, hchange]

/-- What a longer history says about a project that is not new. -/
theorem recordOf?_concat (history : History) (now : Timestamp)
    (hnew : ∀ p, request = .create p → id ≠ idOf (creations history + 1)) :
    recordOf? (history ++ [(request, now)]) id =
      (recordOf? history id).bind fun r => r.after? request now := by
  unfold recordOf?
  rw [creation?_append]
  cases hfirst : creation? id 0 history with
  | none =>
    have hnone : creation? id (0 + creations history) [(request, now)] = none := by
      cases request with
      | create p => simp only [creation?, Nat.zero_add, if_neg (hnew p rfl).symm]
      | _ => rfl
    simp only [hnone, Option.bind_none]
  | some found =>
    obtain ⟨first, later⟩ := found
    have hid : first.id = id := (id_of_creation? hfirst).1
    have hchanged : (first.changed (changes id later)).id = id := hid
    simp only [List.any_append, List.any_cons, List.any_nil, Bool.or_false, changes_concat]
    cases hdeleted : later.any fun asked => asked.1.deletes id with
    | true => simp
    | false =>
      simp only [Bool.false_or, Bool.false_eq_true, if_false, Option.bind_some,
        ProjectRecord.after?, hchanged]
      cases request.deletes id with
      | true => simp
      | false =>
        cases request.change? id with
        | none => simp
        | some u => simp [ProjectRecord.changed_concat]

/-- What a history says about a project that was created in it. -/
theorem recordOf?_create (history : History) (p : NewProject) (now : Timestamp)
    (later : History) :
    recordOf? (history ++ (.create p, now) :: later) (idOf (creations history + 1)) =
      if later.any fun asked => asked.1.deletes (idOf (creations history + 1)) then none
      else some (ProjectRecord.changed
        ⟨idOf (creations history + 1), p.ownerId, p.name, p.boardId, p.snapshot, now⟩
        (changes (idOf (creations history + 1)) later)) := by
  have hnone : creation? (idOf (creations history + 1)) 0 history = none := by
    cases hfirst : creation? (idOf (creations history + 1)) 0 history with
    | none => rfl
    | some found =>
      obtain ⟨_, k, hk, hid⟩ := id_of_creation? hfirst
      have := idOf_injective hid
      omega
  unfold recordOf?
  simp only [creation?_append, hnone, creation?, Nat.zero_add, if_true]

/-- A project keeps its id and its owner, whatever happens to it. -/
theorem recordOf?_append {more : History} {record' : ProjectRecord}
    (h : recordOf? history id = some record)
    (h' : recordOf? (history ++ more) id = some record') :
    record'.id = record.id ∧ record'.ownerId = record.ownerId := by
  obtain ⟨first, later, hfirst, _, rfl⟩ := recordOf?_eq_some.1 h
  obtain ⟨first', later', hfirst', _, rfl⟩ := recordOf?_eq_some.1 h'
  rw [creation?_append, hfirst] at hfirst'
  obtain ⟨rfl, _⟩ := Prod.mk.inj (Option.some.inj hfirst')
  exact ⟨rfl, rfl⟩

/-! ### One request -/

/-- The records of the store that is told are those that the history tells of. -/
theorem mem_told : record ∈ (told history).records ↔ recordOf? history record.id = some record := by
  constructor
  · intro h
    obtain ⟨id, _, hrecord⟩ := List.mem_filterMap.1 h
    rwa [id_of_recordOf? hrecord]
  · intro h
    exact List.mem_filterMap.2 ⟨record.id, mem_idsOf_of_recordOf? h, h⟩

theorem get?_told (history : History) (id : String) :
    (told history).get? id = recordOf? history id := by
  cases hget : (told history).get? id with
  | some r =>
    have hid := id_of_get? hget
    rw [← mem_told.1 (List.mem_of_find?_eq_some hget), hid]
  | none =>
    cases hrecord : recordOf? history id with
    | none => rfl
    | some r =>
      have hid := id_of_recordOf? hrecord
      have hmem : r ∈ (told history).records := mem_told.2 (hid ▸ hrecord)
      have hnot := List.find?_eq_none.1 hget r hmem
      simp [hid] at hnot

/-- A request that is refused because there is no such project concerns no record. -/
theorem ne_of_get?_eq_none (hown : ∀ r ∈ store.records, store.get? r.id = some r)
    (hget : store.get? id = none) (hr : record ∈ store.records) : id ≠ record.id := by
  rintro rfl
  rw [hown record hr] at hget
  cases hget

/-- What a store is in which no record is touched. -/
theorem eq_filterMap_after? (h : ∀ r ∈ store.records, r.after? request now = some r) :
    store = ⟨store.records.filterMap fun r => r.after? request now, store.created⟩ := by
  rw [List.filterMap_congr h, List.filterMap_some]

theorem serve_update_eq (hown : ∀ r ∈ store.records, store.get? r.id = some r) (id : String)
    (u : ProjectUpdate) (now : Timestamp) :
    (store.serve (.update id u) now).1 =
      ⟨store.records.filterMap fun r => r.after? (.update id u) now, store.created⟩ := by
  rw [serve, perform]
  cases hget : store.get? id with
  | none =>
    rw [update_eq_error hget]
    refine eq_filterMap_after? fun r hr => ?_
    have hne := ne_of_get?_eq_none hown hget hr
    simp [ProjectRecord.after?, Request.deletes, Request.change?, hne]
  | some found =>
    rw [update_eq_ok.2 ⟨found, hget, rfl, rfl⟩]
    have hmap : ∀ r ∈ store.records, r.after? (.update id u) now =
        some (if r.id = id then found.updated u now else r) := by
      intro r hr
      by_cases hid : r.id = id
      · subst hid
        obtain rfl : r = found := Option.some.inj ((hown r hr).symm.trans hget)
        simp [ProjectRecord.after?, Request.deletes, Request.change?]
      · simp [ProjectRecord.after?, Request.deletes, Request.change?, hid, Ne.symm hid]
    rw [List.filterMap_congr hmap, List.filterMap_eq_map']
    rfl

theorem serve_delete_eq (hown : ∀ r ∈ store.records, store.get? r.id = some r) (id : String)
    (now : Timestamp) :
    (store.serve (.delete id) now).1 =
      ⟨store.records.filterMap fun r => r.after? (.delete id) now, store.created⟩ := by
  rw [serve, perform]
  cases hget : store.get? id with
  | none =>
    have hrefused : store.delete id = .error (.notFound id) := by
      rw [delete, get, hget]
      rfl
    rw [hrefused]
    refine eq_filterMap_after? fun r hr => ?_
    have hne := ne_of_get?_eq_none hown hget hr
    simp [ProjectRecord.after?, Request.deletes, Request.change?, hne]
  | some found =>
    have hgranted : store.delete id =
        .ok { store with records := store.records.filter fun r => r.id != id } := by
      rw [delete, get, hget]
      rfl
    rw [hgranted]
    have hfilter : ∀ r ∈ store.records, r.after? (.delete id) now =
        Option.guard (fun r : ProjectRecord => r.id != id) r := by
      intro r _
      by_cases hid : r.id = id
      · simp [ProjectRecord.after?, Request.deletes, Option.guard, hid]
      · simp [ProjectRecord.after?, Request.deletes, Request.change?, hid, Ne.symm hid]
    rw [List.filterMap_congr hfilter, List.filterMap_eq_filter]
    rfl

/-- What a request makes of the records of a store whose ids are distinct, if nothing is
created. -/
theorem serve_eq_of_not_creates (hown : ∀ r ∈ store.records, store.get? r.id = some r)
    (hrequest : request.creates = false) (now : Timestamp) :
    (store.serve request now).1 =
      ⟨store.records.filterMap fun r => r.after? request now, store.created⟩ := by
  have hkept : (store.serve request now).1 = store →
      (∀ r : ProjectRecord, r.after? request now = some r) →
        (store.serve request now).1 =
          ⟨store.records.filterMap fun r => r.after? request now, store.created⟩ :=
    fun hstore h => hstore.trans (eq_filterMap_after? fun r _ => h r)
  cases request with
  | create p => cases hrequest
  | update id u => exact serve_update_eq hown id u now
  | delete id => exact serve_delete_eq hown id now
  | save id w => exact serve_update_eq hown id ⟨none, some w.board.id, some w.save.toValue⟩ now
  | list owner => exact hkept rfl fun r => rfl
  | get id =>
    refine hkept ?_ fun r => rfl
    rw [serve, perform]
    cases store.get id <;> rfl
  | program registry id =>
    refine hkept ?_ fun r => rfl
    rw [serve, perform]
    cases store.openProject registry id <;> rfl

/-- What is told of a history is met by a request, and then it is what is told of the
longer history. -/
theorem serve_told (history : History) (request : Request) (now : Timestamp) :
    ((told history).serve request now).1 = told (history ++ [(request, now)]) := by
  by_cases hcreates : request.creates = true
  · cases request with
    | create p =>
      have hold : ∀ id ∈ idsOf history,
          recordOf? (history ++ [(.create p, now)]) id = recordOf? history id := by
        intro id hid
        have hne : id ≠ idOf (creations history + 1) := by
          rintro rfl
          obtain ⟨k, hk, hsame⟩ := mem_idsOf.1 hid
          have := idOf_injective hsame
          omega
        rw [recordOf?_concat history now fun _ _ => hne]
        cases recordOf? history id <;> rfl
      simp only [told, idsOf_concat, creations_concat, List.filterMap_append,
        List.filterMap_congr hold, Request.creates, if_true, List.filterMap_cons,
        recordOf?_create history p now [], List.filterMap_nil]
      rfl
    | _ => cases hcreates
  · have hcreates : request.creates = false := Bool.not_eq_true _ ▸ hcreates
    have hown : ∀ r ∈ (told history).records, (told history).get? r.id = some r := by
      intro r hr
      rw [get?_told]
      exact mem_told.1 hr
    have hconcat : ∀ id, recordOf? (history ++ [(request, now)]) id =
        (recordOf? history id).bind fun r => r.after? request now := by
      intro id
      refine recordOf?_concat history now fun p hp => ?_
      rw [hp] at hcreates
      cases hcreates
    rw [serve_eq_of_not_creates hown hcreates]
    simp only [told, idsOf_concat, creations_concat, hcreates, List.filterMap_filterMap]
    simp [funext hconcat]

theorem serveAll_told (history later : History) :
    (told history).serveAll later = told (history ++ later) := by
  induction later generalizing history with
  | nil => rw [List.append_nil, serveAll_nil]
  | cons asked rest ih =>
    obtain ⟨request, now⟩ := asked
    rw [List.append_cons, ← ih, ← serve_told]
    rfl

/-- A store that begins empty is what its history tells of. -/
theorem serveAll_empty (history : History) : empty.serveAll history = told history :=
  serveAll_told [] history

end ProjectStore

end BlockSketch
