import BlockSketch.Workspace.Reach

/-!
What the searches find. `descendants` keeps a list of what it has seen and a
stack of what it has yet to look at. Two facts about a single search carry
everything: what it returns was seen before or can be reached from the stack,
and, as long as every link out of a block that has been seen leads to one that
has been seen or is on the stack, the result has no links out of it at all. The
arena may be any arena; nothing here asks for a forest.
-/

namespace BlockSketch.Arena

variable {arena : Arena} {a b c : BlockId}

theorem Reachable.trans (hab : arena.Reachable a b) (hbc : arena.Reachable b c) :
    arena.Reachable a c := by
  induction hbc with
  | refl => exact hab
  | step _ hstep ih => exact ih.step hstep

theorem Linked.reachable (h : arena.Linked a b) : arena.Reachable a b :=
  .step .refl h

/-- Links out of what has been seen lead to what has been seen, or wait on the
stack. -/
def Frontier (arena : Arena) (seen stack : List BlockId) : Prop :=
  ∀ ⦃a c⦄, a ∈ seen → arena.Linked a c → c ∈ seen ∨ c ∈ stack

theorem Frontier.skip {seen rest : List BlockId} {id : BlockId}
    (h : arena.Frontier seen (id :: rest)) (hid : id ∈ seen) : arena.Frontier seen rest := by
  intro a c ha hc
  obtain hs | hs := h ha hc
  · exact .inl hs
  · obtain rfl | hs := List.mem_cons.1 hs
    · exact .inl hid
    · exact .inr hs

/-- A block is looked at: it is seen, and what hangs from it goes on the stack. -/
theorem Frontier.look {seen rest next : List BlockId} {id : BlockId}
    (h : arena.Frontier seen (id :: rest)) (hnext : ∀ c, arena.Linked id c → c ∈ next) :
    arena.Frontier (id :: seen) (next ++ rest) := by
  intro a c ha hc
  obtain rfl | ha := List.mem_cons.1 ha
  · exact .inr (List.mem_append.2 (.inl (hnext c hc)))
  · obtain hs | hs := h ha hc
    · exact .inl (List.mem_cons_of_mem _ hs)
    · obtain rfl | hs := List.mem_cons.1 hs
      · exact .inl (List.mem_cons_self ..)
      · exact .inr (List.mem_append.2 (.inr hs))

/-! ### One search -/

theorem subset_collect (arena : Arena) (seen stack : List BlockId) :
    seen ⊆ arena.collect seen stack ∧ stack ⊆ arena.collect seen stack := by
  fun_induction collect arena seen stack with
  | case1 seen => simp
  | case2 seen id rest hid ih =>
    exact ⟨ih.1, List.cons_subset.2 ⟨ih.1 hid, ih.2⟩⟩
  | case3 seen id rest hid hb ih =>
    obtain ⟨hseen, hrest⟩ := ih
    rw [List.cons_subset] at hseen
    exact ⟨hseen.2, List.cons_subset.2 ⟨hseen.1, hrest⟩⟩
  | case4 seen id rest hid b hb ih =>
    obtain ⟨hseen, hrest⟩ := ih
    rw [List.cons_subset] at hseen
    exact ⟨hseen.2, List.cons_subset.2 ⟨hseen.1, (List.append_subset.1 hrest).2⟩⟩

theorem reachable_of_mem_collect {seen stack : List BlockId} {x : BlockId}
    (h : x ∈ arena.collect seen stack) : x ∈ seen ∨ ∃ s ∈ stack, arena.Reachable s x := by
  fun_induction collect arena seen stack with
  | case1 seen => exact .inl h
  | case2 seen id rest hid ih =>
    obtain hs | ⟨s, hs, hr⟩ := ih h
    · exact .inl hs
    · exact .inr ⟨s, List.mem_cons_of_mem _ hs, hr⟩
  | case3 seen id rest hid hb ih =>
    obtain hs | ⟨s, hs, hr⟩ := ih h
    · obtain rfl | hs := List.mem_cons.1 hs
      · exact .inr ⟨x, List.mem_cons_self .., .refl⟩
      · exact .inl hs
    · exact .inr ⟨s, List.mem_cons_of_mem _ hs, hr⟩
  | case4 seen id rest hid b hb ih =>
    obtain hs | ⟨s, hs, hr⟩ := ih h
    · obtain rfl | hs := List.mem_cons.1 hs
      · exact .inr ⟨x, List.mem_cons_self .., .refl⟩
      · exact .inl hs
    · obtain hs | hs := List.mem_append.1 hs
      · have hlink : arena.Linked id s := ⟨b, hb, hs⟩
        exact .inr ⟨id, List.mem_cons_self .., hlink.reachable.trans hr⟩
      · exact .inr ⟨s, List.mem_cons_of_mem _ hs, hr⟩

theorem frontier_collect {seen stack : List BlockId} (h : arena.Frontier seen stack) :
    arena.Frontier (arena.collect seen stack) [] := by
  fun_induction collect arena seen stack with
  | case1 seen => exact h
  | case2 seen id rest hid ih => exact ih (h.skip hid)
  | case3 seen id rest hid hb ih =>
    have hnone : ∀ c, arena.Linked id c → c ∈ ([] : List BlockId) := by
      rintro c ⟨b, hb', _⟩
      rw [hb] at hb'
      cases hb'
    exact ih (h.look hnone)
  | case4 seen id rest hid b hb ih =>
    refine ih (h.look ?_)
    rintro c ⟨b', hb', hc⟩
    rw [hb, Option.some_inj] at hb'
    rwa [hb']

/-! ### The whole search -/

/-- `descendants` is exactly what can be reached, the block itself included. -/
theorem mem_descendants : b ∈ arena.descendants a ↔ arena.Reachable a b := by
  constructor
  · intro h
    obtain h | ⟨s, hs, hr⟩ := reachable_of_mem_collect h
    · cases h
    · rwa [List.mem_singleton.1 hs] at hr
  · intro h
    induction h with
    | refl => exact (subset_collect arena [] [a]).2 (List.mem_singleton_self a)
    | step _ hstep ih =>
      have hfrontier : arena.Frontier [] [a] := fun _ _ h => by cases h
      obtain h | h := frontier_collect hfrontier ih hstep
      · exact h
      · cases h

/-! ### Along a chain -/

theorem reachable_lastFrom (arena : Arena) (seen : List BlockId) (id : BlockId) :
    arena.Reachable id (arena.lastFrom seen id) := by
  fun_induction lastFrom arena seen id with
  | case1 | case2 | case3 => exact .refl
  | case4 seen id b hb next hnext hseen ih =>
    have hlink : arena.Linked id next := ⟨b, hb, by simp [Block.children, hnext]⟩
    exact hlink.reachable.trans ih

/-- The end of a chain lies below its head. -/
theorem reachable_chainTail (arena : Arena) (head : BlockId) :
    arena.Reachable head (arena.chainTail head) :=
  reachable_lastFrom arena [] head

end BlockSketch.Arena
