import BlockSketch.Proofs.Project.History

/-!
What a store answers. A store that begins empty is the one that its history tells
of, so each answer is read off the history: what was created, what came since, and
what is gone. Projects that were changed at the same time are listed in the order
of their creation because sorting keeps the order of what is equal, and because
neither updates nor deletions move a record.
-/

namespace BlockSketch.ProjectStore

/-- The id that is given to a new project, as it is answered. -/
def newId? : Request → Except PersistenceError Answer → Option String
  | .create _, .ok (.record r) => some r.id
  | _, _ => none

def given (store : ProjectStore) : History → List String
  | [] => []
  | (request, now) :: later =>
    (newId? request (store.serve request now).2).toList ++
      (store.serve request now).1.given later

/-- The answer of one who knows only the history to the question for a project. -/
def answerOf (history : History) (id : String) : Except PersistenceError Answer :=
  match recordOf? history id with
  | some r => .ok (.record r)
  | none => .error (.notFound id)

/-- The projects of an owner after a history: each one once, the one changed last first,
and those that were changed at the same time in the order in which their ids were given. -/
structure Lists (history : History) (owner : String) (listed : List ProjectRecord) : Prop where
  mem_iff : ∀ r, r ∈ listed ↔ r.ownerId = owner ∧ recordOf? history r.id = some r
  once : (listed.map ProjectRecord.id).Nodup
  latestFirst : listed.Pairwise fun a b => b.updatedAt.notAfter a.updatedAt = true
  oldestFirst : listed.Pairwise fun a b => a.updatedAt = b.updatedAt →
    [a.id, b.id].Sublist (empty.given history)

/-- All that a store answers after a history, told from the history alone. No id
is given twice, whatever has been deleted. Of a new project the later requests
tell everything; whatever happens to it, its id and its owner stay. -/
structure Answers (history : History) (store : ProjectStore) : Prop where
  distinct : (empty.given history).Nodup
  creates : ∀ p now, ∃ r next, store.serve (.create p) now = (next, .ok (.record r)) ∧
    r = ⟨r.id, p.ownerId, p.name, p.boardId, p.snapshot, now⟩ ∧
      empty.given (history ++ [(.create p, now)]) = empty.given history ++ [r.id] ∧
        ∀ later, recordOf? (history ++ (.create p, now) :: later) r.id =
          if later.any fun asked => asked.1.deletes r.id then none
          else some (r.changed (changes r.id later))
  unknown : ∀ id, id ∉ empty.given history → recordOf? history id = none
  gets : ∀ id now, store.serve (.get id) now = (store, answerOf history id)
  updates : ∀ id u now, (store.serve (.update id u) now).2 =
    answerOf (history ++ [(.update id u, now)]) id
  saves : ∀ id w now, (store.serve (.save id w) now).2 =
    answerOf (history ++ [(.save id w, now)]) id
  opens : ∀ registry id now, store.serve (.program registry id) now =
    (store, match recordOf? history id with
      | some r => .ok (.program r (workspaceOf registry r))
      | none => .error (.notFound id))
  deletes : ∀ id now, (store.serve (.delete id) now).2 =
    if (recordOf? history id).isSome then .ok .done else .error (.notFound id)
  lists : ∀ owner now, ∃ listed, store.serve (.list owner) now = (store, .ok (.records listed)) ∧
    Lists history owner listed
  refusals : ∀ request now e, (store.serve request now).2 = .error e →
    (store.serve request now).1 = store
  constant : ∀ later id r r', store.get? id = some r → (store.serveAll later).get? id = some r' →
    r'.id = r.id ∧ r'.ownerId = r.ownerId

variable {history later : History} {id owner : String} {now : Timestamp}

/-- The ids that are given are those that the history tells of. -/
theorem idsOf_append (history later : History) :
    idsOf (history ++ later) = idsOf history ++ (told history).given later := by
  induction later generalizing history with
  | nil => rw [List.append_nil, given, List.append_nil]
  | cons asked rest ih =>
    obtain ⟨request, now⟩ := asked
    rw [List.append_cons, ih, idsOf_concat, given, serve_told, List.append_assoc]
    cases request <;> rfl

theorem given_empty (history : History) : empty.given history = idsOf history :=
  (idsOf_append [] history).symm

/-- The store finds what the history tells of. -/
theorem get_told (history : History) (id : String) :
    (told history).get id = match recordOf? history id with
      | some r => .ok r
      | none => .error (.notFound id) := by
  cases hrecord : recordOf? history id with
  | none => rw [get, get?_told, hrecord]
  | some r => rw [get, get?_told, hrecord]

/-- The records stand in the order in which their ids were given. -/
theorem ids_told_sublist (history : History) :
    ((told history).records.map ProjectRecord.id).Sublist (idsOf history) := by
  have hids : (told history).records.map ProjectRecord.id =
      (idsOf history).filter fun id => (recordOf? history id).isSome := by
    rw [told, List.map_filterMap, ← List.filterMap_eq_filter]
    refine List.filterMap_congr fun id _ => ?_
    cases hrecord : recordOf? history id with
    | none => simp [Option.guard, hrecord]
    | some r => simp [Option.guard, hrecord, id_of_recordOf? hrecord]
  rw [hids]
  exact List.filter_sublist

/-- What is listed is sorted by time alone, so that those that were changed at the
same time stand in the list as they stand in the store. -/
theorem lists_told (history : History) (owner : String) :
    Lists history owner ((told history).listByOwner owner) := by
  let le : ProjectRecord → ProjectRecord → Bool := fun a b => b.updatedAt.notAfter a.updatedAt
  have trans : ∀ a b c, le a b = true → le b c = true → le a c = true :=
    fun a b c hab hbc => Timestamp.notAfter_trans hbc hab
  have total : ∀ a b, (le a b || le b a) = true :=
    fun a b => Timestamp.notAfter_total b.updatedAt a.updatedAt
  have hids := ids_told_sublist history
  constructor
  · intro r
    rw [listByOwner, List.mem_mergeSort, List.mem_filter, beq_iff_eq, mem_told, and_comm]
  · have hperm : ((told history).listByOwner owner).Perm
        ((told history).records.filter fun r => r.ownerId == owner) := List.mergeSort_perm _ _
    refine (hperm.map ProjectRecord.id).nodup_iff.2 ?_
    exact (nodup_idsOf history).sublist ((List.filter_sublist.map _).trans hids)
  · exact List.pairwise_mergeSort trans total _
  · rw [given_empty]
    refine List.pairwise_iff_forall_sublist.2 fun {a b} hpair htime => ?_
    let same : ProjectRecord → Bool := fun r => r.updatedAt = a.updatedAt
    have hsame : ∀ r s, same r = true → same s = true → le r s = true := by
      intro r s hr hs
      rw [decide_eq_true_iff] at hr hs
      show s.updatedAt.notAfter r.updatedAt = true
      rw [hr, hs]
      exact Timestamp.notAfter_refl _
    have hboth : [a, b].filter same = [a, b] := by
      simp [same, htime]
    have hkept := hpair.filter same
    rw [hboth, listByOwner, filter_mergeSort trans total hsame] at hkept
    exact ((hkept.trans (List.filter_sublist.trans List.filter_sublist)).map _).trans hids

theorem serve_update_told (history : History) (id : String) (u : ProjectUpdate)
    (now : Timestamp) :
    ((told history).serve (.update id u) now).2 = match recordOf? history id with
      | some r => .ok (.record (r.updated u now))
      | none => .error (.notFound id) := by
  rw [serve, perform, update, get_told]
  cases recordOf? history id <;> rfl

/-- What is answered once a project has been updated. -/
theorem answerOf_concat {request : Request} {u : ProjectUpdate}
    (h : request.change? id = some u) (history : History) (now : Timestamp) :
    answerOf (history ++ [(request, now)]) id = match recordOf? history id with
      | some r => .ok (.record (r.updated u now))
      | none => .error (.notFound id) := by
  have hkept : request.deletes id = false := by
    cases request with
    | delete other => cases h
    | _ => rfl
  rw [answerOf, recordOf?_concat history now fun p hp => by rw [hp] at h; cases h]
  cases hrecord : recordOf? history id with
  | none => rfl
  | some r => simp [ProjectRecord.after?, id_of_recordOf? hrecord, hkept, h]

/-- Along any history, with any clock, all answers of a store that begins empty are those
that the history tells of. -/
theorem serveAll_answers (history : History) : Answers history (empty.serveAll history) := by
  rw [serveAll_empty]
  constructor
  case distinct => exact given_empty history ▸ nodup_idsOf history
  case creates =>
    intro p now
    refine ⟨_, _, rfl, rfl, ?_, recordOf?_create history p now⟩
    rw [given_empty, given_empty, idsOf_concat]
    rfl
  case unknown =>
    intro id hid
    rw [given_empty] at hid
    exact Option.eq_none_iff_forall_ne_some.2 fun r hr => hid (mem_idsOf_of_recordOf? hr)
  case gets =>
    intro id now
    rw [serve, perform, answerOf, get_told]
    cases recordOf? history id <;> rfl
  case updates =>
    intro id u now
    have hchange : (Request.update id u).change? id = some u := if_pos rfl
    rw [serve_update_told, answerOf_concat hchange]
  case saves =>
    intro id w now
    have hchange : (Request.save id w).change? id =
        some ⟨none, some w.board.id, some w.save.toValue⟩ := if_pos rfl
    rw [answerOf_concat hchange]
    exact serve_update_told history id _ now
  case opens =>
    intro registry id now
    rw [serve, perform, openProject, get_told]
    cases recordOf? history id <;> rfl
  case deletes =>
    intro id now
    rw [serve, perform, delete, get_told]
    cases recordOf? history id <;> rfl
  case lists => exact fun owner now => ⟨_, rfl, lists_told history owner⟩
  case refusals =>
    intro request now e hrefused
    cases hperform : (told history).perform request now with
    | ok granted =>
      rw [serve, hperform] at hrefused
      cases hrefused
    | error fault => rw [serve, hperform]
  case constant =>
    intro later id r r' hr hr'
    rw [serveAll_told, get?_told] at hr'
    rw [get?_told] at hr
    exact recordOf?_append hr hr'

end BlockSketch.ProjectStore
