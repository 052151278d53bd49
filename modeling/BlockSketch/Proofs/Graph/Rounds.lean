import BlockSketch.Proofs.Graph.Rewire
import BlockSketch.Workspace.Check
import Mathlib.Data.List.Flatten
import Mathlib.Logic.Relation

/-!
The searches, round by round. Both go on as long as there is something to do, and
on an arena with circles it is not plain that this ever ends. What a search has
yet to do is therefore bounded by a potential, from which every round takes: the
links out of blocks that it has not seen, and what lies on its stack. A block
that is seen for the first time puts what hangs from it on the stack, but its
links no longer count. So a search has at most one round for each link and one
more, and a walk along a chain at most one for each block.

Nothing depends on which number is taken from the stack next. A round may take
any of them, and wherever the rounds stop, the same blocks have been seen.
-/

namespace BlockSketch

inductive Rounds {α : Type} (step : α → α → Prop) : Nat → α → α → Prop
  | zero {s : α} : Rounds step 0 s s
  | succ {n : Nat} {s t u : α} : step s t → Rounds step n t u → Rounds step (n + 1) s u

namespace Rounds

variable {α : Type} {step : α → α → Prop} {n : Nat} {s u : α}

/-- Steps that each take something from a potential. -/
theorem add_le (potential : α → Nat) (hpay : ∀ s t, step s t → potential t < potential s)
    (h : Rounds step n s u) : n + potential u ≤ potential s := by
  induction h with
  | zero => omega
  | succ hstep _ ih =>
    have hless := hpay _ _ hstep
    omega

theorem keeps (inv : α → Prop) (hkeep : ∀ s t, step s t → inv s → inv t)
    (h : Rounds step n s u) (hs : inv s) : inv u := by
  induction h with
  | zero => exact hs
  | succ hstep _ ih => exact ih (hkeep _ _ hstep hs)

end Rounds

namespace Arena

open Relation

variable {arena : Arena} {a b x : BlockId} {seen stack rest : List BlockId} {n : Nat}

/-! ### What counts -/

def below (arena : Arena) (id : BlockId) : List BlockId :=
  ((arena.find? id).map Block.children).getD []

theorem mem_below : b ∈ arena.below a ↔ arena.Linked a b := by
  unfold below Linked
  cases arena.find? a <;> simp

theorem length_links (arena : Arena) :
    arena.links.length = (arena.flatMap Block.children).length := by
  simp [links, List.length_flatMap]

theorem length_links_filter (arena : Arena) (p : Block → Bool) :
    (links (arena.filter p)).length + (links (arena.filter fun b => !p b)).length =
      arena.links.length := by
  have hperm := (List.filter_append_perm p arena).flatMap_right Block.children
  rw [length_links, length_links, length_links, ← List.length_append, ← List.flatMap_append]
  exact hperm.length_eq

theorem length_children_le {block : Block} (h : block ∈ arena) :
    block.children.length ≤ arena.links.length := by
  rw [length_links, List.flatMap_def]
  exact (List.sublist_flatten_of_mem (List.mem_map_of_mem h)).length_le

/-- When a block has been seen, its links no longer count. -/
theorem length_links_look (arena : Arena) (ha : a ∉ seen) :
    (arena.remove (a :: seen)).links.length + (arena.below a).length ≤
      (arena.remove seen).links.length := by
  have hsplit := length_links_filter (arena.remove seen) fun b => decide (b.id ≠ a)
  have hothers : (arena.remove seen).filter (fun b => decide (b.id ≠ a)) =
      arena.remove (a :: seen) := by
    rw [remove, List.filter_filter]
    refine List.filter_congr fun b _ => ?_
    simp
  have hown : (arena.below a).length ≤
      (links ((arena.remove seen).filter fun b => !decide (b.id ≠ a))).length := by
    cases hb : arena.find? a with
    | none => simp [below, hb]
    | some block =>
      have hmem : block ∈ (arena.remove seen).filter fun b => !decide (b.id ≠ a) := by
        simp [remove, mem_of_find? hb, id_of_find? hb, ha]
      simpa [below, hb] using length_children_le hmem
  rw [hothers] at hsplit
  omega

/-! ### Searching -/

/-- In which order the stack lies does not matter. -/
theorem Frontier.perm (h : arena.Frontier seen stack) (hperm : stack.Perm rest) :
    arena.Frontier seen rest :=
  fun _ _ ha hlink => (h ha hlink).imp_right hperm.mem_iff.1

structure Search where
  seen : List BlockId
  stack : List BlockId

/-- One round of a search. Some number is taken from the stack, wherever in it it
lies; if it has not been seen, then it is now, and what hangs from it goes on the
stack. -/
inductive Round (arena : Arena) : Search → Search → Prop
  | skip {seen stack rest : List BlockId} {a : BlockId} :
      stack.Perm (a :: rest) → a ∈ seen → Round arena ⟨seen, stack⟩ ⟨seen, rest⟩
  | look {seen stack rest : List BlockId} {a : BlockId} :
      stack.Perm (a :: rest) → a ∉ seen →
        Round arena ⟨seen, stack⟩ ⟨a :: seen, arena.below a ++ rest⟩

namespace Search

/-- What a search has yet to do at most. -/
def potential (arena : Arena) (s : Search) : Nat :=
  (arena.remove s.seen).links.length + s.stack.length

/-- What is seen or waits can be reached from a block, which is seen or waits itself,
and what has been seen leads to nothing else. -/
structure Sound (arena : Arena) (a : BlockId) (s : Search) : Prop where
  seen : ∀ x ∈ s.seen, arena.Reachable a x
  stack : ∀ x ∈ s.stack, arena.Reachable a x
  begun : a ∈ s.seen ∨ a ∈ s.stack
  frontier : arena.Frontier s.seen s.stack

theorem Sound.start (arena : Arena) (a : BlockId) : Sound arena a ⟨[], [a]⟩ where
  seen := nofun
  stack _ hx := List.mem_singleton.1 hx ▸ .refl
  begun := .inr (List.mem_singleton_self a)
  frontier _ _ h := nomatch h

/-- A search whose stack is empty has seen exactly what can be reached. -/
theorem Sound.mem_seen_iff {s : Search} (h : Sound arena a s) (hs : s.stack = []) :
    x ∈ s.seen ↔ arena.Reachable a x := by
  refine ⟨h.seen x, fun hx => ?_⟩
  have hwaits : ∀ y, y ∉ s.stack := by simp [hs]
  induction hx with
  | refl => exact h.begun.resolve_right (hwaits a)
  | step _ hlink ih => exact (h.frontier ih hlink).resolve_right (hwaits _)

end Search

namespace Round

theorem potential_lt {s t : Search} (h : arena.Round s t) :
    t.potential arena < s.potential arena := by
  cases h with
  | skip hstack ha =>
    have hlength := hstack.length_eq
    simp only [Search.potential, List.length_cons] at hlength ⊢
    omega
  | look hstack ha =>
    have hlength := hstack.length_eq
    have hlinks := length_links_look arena ha
    simp only [Search.potential, List.length_cons, List.length_append] at hlength ⊢
    omega

theorem sound {s t : Search} (h : arena.Round s t) (hs : s.Sound arena x) : t.Sound arena x := by
  cases h with
  | @skip seen stack rest a hstack ha =>
    have hmem : ∀ y, y ∈ stack ↔ y ∈ a :: rest := fun _ => hstack.mem_iff
    refine ⟨hs.seen, fun y hy => hs.stack y ((hmem y).2 (List.mem_cons_of_mem a hy)), ?_,
      (hs.frontier.perm hstack).skip ha⟩
    rcases hs.begun with hx | hx
    · exact .inl hx
    · rcases List.mem_cons.1 ((hmem x).1 hx) with rfl | hx
      · exact .inl ha
      · exact .inr hx
  | @look seen stack rest a hstack ha =>
    have hmem : ∀ y, y ∈ stack ↔ y ∈ a :: rest := fun _ => hstack.mem_iff
    have hreach : arena.Reachable x a := hs.stack a ((hmem a).2 List.mem_cons_self)
    refine ⟨?_, ?_, ?_, (hs.frontier.perm hstack).look fun c hc => mem_below.2 hc⟩
    · exact List.forall_mem_cons.2 ⟨hreach, hs.seen⟩
    · intro y hy
      rcases List.mem_append.1 hy with hy | hy
      · exact hreach.step (mem_below.1 hy)
      · exact hs.stack y ((hmem y).2 (List.mem_cons_of_mem a hy))
    · rcases hs.begun with hx | hx
      · exact .inl (List.mem_cons_of_mem a hx)
      · rcases List.mem_cons.1 ((hmem x).1 hx) with rfl | hx
        · exact .inl List.mem_cons_self
        · exact .inr (List.mem_append_right _ hx)

/-- As long as the stack is not empty, there is another round. -/
theorem exists_of_ne_nil {s : Search} (hs : s.stack ≠ []) : ∃ t, arena.Round s t := by
  obtain ⟨seen, stack⟩ := s
  obtain ⟨a, rest, rfl⟩ := List.exists_cons_of_ne_nil hs
  by_cases ha : a ∈ seen
  · exact ⟨_, .skip (.refl _) ha⟩
  · exact ⟨_, .look (.refl _) ha⟩

end Round

/-- `collect` goes on in rounds until its stack is empty. -/
theorem rounds_collect (arena : Arena) (seen stack : List BlockId) :
    ∃ n, Rounds arena.Round n ⟨seen, stack⟩ ⟨arena.collect seen stack, []⟩ := by
  fun_induction collect arena seen stack with
  | case1 seen => exact ⟨0, .zero⟩
  | case2 seen a rest ha ih =>
    obtain ⟨n, h⟩ := ih
    exact ⟨n + 1, .succ (.skip (.refl _) ha) h⟩
  | case3 seen a rest ha hb ih =>
    obtain ⟨n, h⟩ := ih
    have hbelow : arena.below a = [] := by simp [below, hb]
    refine ⟨n + 1, .succ (.look (.refl _) ha) ?_⟩
    rwa [hbelow]
  | case4 seen a rest ha b hb ih =>
    obtain ⟨n, h⟩ := ih
    have hbelow : arena.below a = b.children := by simp [below, hb]
    refine ⟨n + 1, .succ (.look (.refl _) ha) ?_⟩
    rwa [hbelow]

/-! ### Going along a chain -/

structure Walk where
  seen : List BlockId
  place : BlockId

def Follows (arena : Arena) (a b : BlockId) : Prop :=
  arena.linked? a .next = some b

def InChain (arena : Arena) : BlockId → BlockId → Prop :=
  ReflTransGen arena.Follows

/-- The chain that begins with a block does not come back to itself. -/
def ChainAcyclic (arena : Arena) (a : BlockId) : Prop :=
  ∀ x, arena.InChain a x → ¬ TransGen arena.Follows x x

/-- One round of a walk: to the next block, from one that has not been seen. -/
inductive Hop (arena : Arena) : Walk → Walk → Prop
  | mk {seen : List BlockId} {a b : BlockId} :
      arena.Follows a b → a ∉ seen → Hop arena ⟨seen, a⟩ ⟨a :: seen, b⟩

theorem Hop.unseen_lt {v w : Walk} (h : arena.Hop v w) :
    arena.unseen w.seen < arena.unseen v.seen := by
  cases h with
  | mk hnext ha =>
    obtain ⟨block, hb⟩ := exists_find? (mem_ids_of_linked? hnext)
    exact unseen_cons_lt hb ha

/-- The walk comes to where it comes to from the next block. -/
theorem Hop.lastFrom_eq {v w : Walk} (h : arena.Hop v w) :
    arena.lastFrom v.seen v.place = arena.lastFrom w.seen w.place := by
  cases h with
  | @mk seen a b hnext ha =>
    obtain ⟨block, hb⟩ := exists_find? (mem_ids_of_linked? hnext)
    have hafter : block.next = some b := (linked?_next_of_find? hb).symm.trans hnext
    rw [lastFrom]
    split
    next hnone => rw [hb] at hnone; cases hnone
    next other hother =>
      obtain rfl := Option.some_inj.1 (hb.symm.trans hother)
      split
      next hnone => rw [hafter] at hnone; cases hnone
      next c hc =>
        obtain rfl := Option.some_inj.1 (hafter.symm.trans hc)
        rw [dif_neg ha]

/-- A walk that cannot go on has come to its end. -/
theorem lastFrom_eq_place {w : Walk} (h : ¬ ∃ w', arena.Hop w w') :
    arena.lastFrom w.seen w.place = w.place := by
  obtain ⟨seen, a⟩ := w
  rw [lastFrom]
  split
  next => rfl
  next block hb =>
    split
    next => rfl
    next b hnext =>
      split
      next => rfl
      next ha => exact absurd ⟨_, .mk ((linked?_next_of_find? hb).trans hnext) ha⟩ h

theorem inChain_lastFrom (arena : Arena) (seen : List BlockId) (a : BlockId) :
    arena.InChain a (arena.lastFrom seen a) := by
  fun_induction lastFrom arena seen a with
  | case1 | case2 | case3 => exact .refl
  | case4 seen a block hb b hnext ha ih =>
    exact .head ((linked?_next_of_find? hb).trans hnext) ih

/-- Where the chain does not come back to a block, the walk does not come to one that
it has seen, and ends where nothing follows. -/
theorem linked?_lastFrom (hseen : ∀ x ∈ seen, TransGen arena.Follows x a)
    (hacyclic : arena.ChainAcyclic a) : arena.linked? (arena.lastFrom seen a) .next = none := by
  fun_induction lastFrom arena seen a with
  | case1 seen a hb => exact linked?_eq_none_of_not_mem (find?_eq_none.1 hb) .next
  | case2 seen a block hb hnext => exact (linked?_next_of_find? hb).trans hnext
  | case3 seen a block hb b hnext ha => exact absurd (hseen a ha) (hacyclic a .refl)
  | case4 seen a block hb b hnext ha ih =>
    have hfollows : arena.Follows a b := (linked?_next_of_find? hb).trans hnext
    refine ih ?_ fun x hx => hacyclic x (.head hfollows hx)
    exact List.forall_mem_cons.2 ⟨.single hfollows, fun x hx => (hseen x hx).tail hfollows⟩

theorem rightUnique_follows (arena : Arena) : Relator.RightUnique arena.Follows :=
  fun _ _ _ h h' => Option.some_inj.1 (h.symm.trans h')

/-- Behind the last block of a chain there is nothing more. -/
theorem InChain.eq_of_none (h : arena.InChain a b) (ha : arena.linked? a .next = none) :
    a = b := by
  rcases ReflTransGen.cases_head h with heq | ⟨c, hc, _⟩
  · exact heq
  · exact nomatch ha.symm.trans hc

/-- Of all blocks in a chain, at most one has nothing after it. -/
theorem InChain.eq_of_last (ha : arena.InChain x a) (hb : arena.InChain x b)
    (hla : arena.linked? a .next = none) (hlb : arena.linked? b .next = none) : a = b := by
  rcases ReflTransGen.total_of_right_unique arena.rightUnique_follows ha hb with h | h
  · exact InChain.eq_of_none h hla
  · exact (InChain.eq_of_none h hlb).symm

/-- Whoever comes onto a circle stays on it. -/
theorem InChain.back (h : arena.InChain a b) (ha : TransGen arena.Follows a a) :
    TransGen arena.Follows b b := by
  induction h with
  | refl => exact ha
  | tail _ hnext ih =>
    obtain ⟨c, hc, hback⟩ := TransGen.head'_iff.1 ih
    obtain rfl := arena.rightUnique_follows hc hnext
    exact TransGen.tail' hback hnext

/-- A chain that ends does not come back to itself. -/
theorem ChainAcyclic.of_last (hb : arena.InChain a b) (hlast : arena.linked? b .next = none) :
    arena.ChainAcyclic a := by
  intro x hx hback
  have hend : arena.InChain x b := by
    rcases ReflTransGen.total_of_right_unique arena.rightUnique_follows hx hb with h | h
    · exact h
    · exact InChain.eq_of_none h hlast ▸ .refl
  obtain ⟨c, hc, _⟩ := TransGen.head'_iff.1 (hend.back hback)
  exact nomatch hlast.symm.trans hc

/-! ### Both searches -/

/-- However the stack is worked off, a search ends, and what it has seen then is what
can be reached. -/
theorem Search.ends {s : Search} (h : Rounds arena.Round n ⟨[], [a]⟩ s) :
    n ≤ arena.links.length + 1 ∧
      ((∃ t, arena.Round s t) ∨ s.stack = [] ∧ ∀ x, x ∈ s.seen ↔ arena.Reachable a x) := by
  constructor
  · have hpaid := h.add_le (potential arena) fun _ _ hround => hround.potential_lt
    have hall : arena.remove [] = arena := by simp [remove]
    simp only [potential, hall, List.length_singleton] at hpaid
    omega
  · have hsound := h.keeps (Sound arena a) (fun _ _ hround => hround.sound) (Sound.start arena a)
    by_cases hs : s.stack = []
    · exact .inr ⟨hs, fun x => hsound.mem_seen_iff hs⟩
    · exact .inl (Round.exists_of_ne_nil hs)

/-- A walk along a chain ends at its tail. -/
theorem Walk.ends {w : Walk} (h : Rounds arena.Hop n ⟨[], a⟩ w) :
    n ≤ arena.length ∧ ((∃ w', arena.Hop w w') ∨ w.place = arena.chainTail a) := by
  constructor
  · have hpaid := h.add_le (fun w => arena.unseen w.seen) fun _ _ hhop => hhop.unseen_lt
    have hall : arena.unseen [] ≤ arena.length := List.countP_le_length
    calc n ≤ n + arena.unseen w.seen := Nat.le_add_right ..
      _ ≤ arena.unseen [] := hpaid
      _ ≤ arena.length := hall
  · have hsame := h.keeps (fun w => arena.lastFrom w.seen w.place = arena.chainTail a)
      (fun _ _ hhop hv => hhop.lastFrom_eq.symm.trans hv) rfl
    by_cases hhop : ∃ w', arena.Hop w w'
    · exact .inl hhop
    · exact .inr ((lastFrom_eq_place hhop).symm.trans hsame)

theorem ChainAcyclic.linked?_chainTail (h : arena.ChainAcyclic a) :
    arena.linked? (arena.chainTail a) .next = none :=
  linked?_lastFrom nofun h

theorem inChain_chainTail (arena : Arena) (a : BlockId) : arena.InChain a (arena.chainTail a) :=
  inChain_lastFrom arena [] a

/-- The tail of a chain is there if its head and all that follow are. -/
theorem chainTail_mem_ids (ha : a ∈ arena.ids)
    (hthere : ∀ x y, arena.InChain a x → arena.Follows x y → y ∈ arena.ids) :
    arena.chainTail a ∈ arena.ids := by
  rcases ReflTransGen.cases_tail (inChain_chainTail arena a) with heq | ⟨y, hy, hnext⟩
  · rwa [heq]
  · exact hthere y _ hy hnext

/-- On any arena and from any number, however the stack is worked off, a search ends
within one round for each link and one more, has then seen exactly what can be
reached, and `descendants` is what one such search has seen. A walk along a chain
ends within one round for each block, at `chainTail`; if the chain does not come back
to itself, that is the only block in it with nothing after it, and it is there if the
first one and all that follow are. -/
theorem searches_exact (arena : Arena) (id : BlockId) :
    (∀ n s, Rounds arena.Round n ⟨[], [id]⟩ s →
      n ≤ arena.links.length + 1 ∧
        ((∃ t, arena.Round s t) ∨ s.stack = [] ∧ ∀ x, x ∈ s.seen ↔ arena.Reachable id x)) ∧
    (∃ n, Rounds arena.Round n ⟨[], [id]⟩ ⟨arena.descendants id, []⟩) ∧
    (∀ x, x ∈ arena.descendants id ↔ arena.Reachable id x) ∧
    (∀ n w, Rounds arena.Hop n ⟨[], id⟩ w →
      n ≤ arena.length ∧ ((∃ w', arena.Hop w w') ∨ w.place = arena.chainTail id)) ∧
    (arena.ChainAcyclic id →
      arena.InChain id (arena.chainTail id) ∧
        (∀ x, arena.InChain id x →
          (arena.linked? x .next = none ↔ x = arena.chainTail id)) ∧
        (id ∈ arena.ids → (∀ x y, arena.InChain id x → arena.Follows x y → y ∈ arena.ids) →
          arena.chainTail id ∈ arena.ids)) := by
  refine ⟨fun n s => Search.ends, rounds_collect arena [] [id], fun x => mem_descendants,
    fun n w => Walk.ends, fun hacyclic => ?_⟩
  have hchain := inChain_chainTail arena id
  have hlast := hacyclic.linked?_chainTail
  refine ⟨hchain, fun x hx => ⟨fun hnone => hx.eq_of_last hchain hnone hlast, ?_⟩,
    chainTail_mem_ids⟩
  rintro rfl
  exact hlast

/-- A chain of three blocks, and beside it two that follow each other. Both parts
share a block, one link leads nowhere, and the search goes around the circle. -/
theorem searches_exact_of_tangled :
    let block (id : Nat) (next operand : Option BlockId) : Block :=
      ⟨⟨id⟩, "compare", [], .origin, next, [], [("A", operand)]⟩
    let arena : Arena := [block 1 (some ⟨2⟩) (some ⟨4⟩), block 2 (some ⟨3⟩) (some ⟨4⟩),
      block 3 none none, block 4 (some ⟨5⟩) (some ⟨9⟩), block 5 (some ⟨4⟩) none]
    arena.ChainAcyclic ⟨1⟩ ∧ arena.chainTail ⟨1⟩ = ⟨3⟩ ∧ ¬ arena.ChainAcyclic ⟨4⟩ ∧
      (∃ n ≤ 8, Rounds arena.Round n ⟨[], [⟨1⟩]⟩ ⟨arena.descendants ⟨1⟩, []⟩) ∧
      ⟨9⟩ ∈ arena.descendants ⟨1⟩ := by
  intro block arena
  have htwo : arena.Follows ⟨1⟩ ⟨2⟩ := rfl
  have hthree : arena.Follows ⟨2⟩ ⟨3⟩ := rfl
  have hround : arena.Follows ⟨4⟩ ⟨5⟩ := rfl
  have hback : arena.Follows ⟨5⟩ ⟨4⟩ := rfl
  have hend : arena.InChain ⟨1⟩ ⟨3⟩ := .tail (.tail .refl htwo) hthree
  have hacyclic : arena.ChainAcyclic ⟨1⟩ := .of_last hend rfl
  have hfour : arena.Linked ⟨1⟩ ⟨4⟩ := ⟨_, rfl, by decide⟩
  have hnine : arena.Linked ⟨4⟩ ⟨9⟩ := ⟨_, rfl, by decide⟩
  obtain ⟨hends, ⟨n, hrun⟩, hmem, -, hchain⟩ := searches_exact arena ⟨1⟩
  refine ⟨hacyclic, ?_, ?_, ⟨n, (hends n _ hrun).1, hrun⟩, ?_⟩
  · exact (((hchain hacyclic).2.1 ⟨3⟩ hend).1 rfl).symm
  · exact fun h => h ⟨4⟩ .refl (.tail (.single hround) hback)
  · exact (hmem ⟨9⟩).2 (.step (.step .refl hfour) hnine)

end Arena

end BlockSketch
