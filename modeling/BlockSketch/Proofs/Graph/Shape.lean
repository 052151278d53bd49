import BlockSketch.Proofs.Graph.Forest
import BlockSketch.Workspace.Check
import Mathlib.Data.List.Nodup
import Mathlib.Data.List.Perm.Subperm
import Mathlib.Logic.ExistsUnique

/-!
The check for the shape of a program. `check` goes over lists and counts; what
it accepts is read off here part by part, and is `WellShaped`, on any arena in
which no number is given twice. Slots may be there twice, links may be shared,
go in circles or lead nowhere.

The part with content is the last one, which only counts what hangs from blocks
at the top level. Where nothing leads back, every block hangs from one of them:
going up from a block, fewer and fewer blocks do not hang from where one is, so
that the way up ends. And where no block has two parents, none of them leads
into a circle: who comes to a block of a circle was on it before. A forest with
each root once passes the check, and each of its blocks hangs from exactly one
block at the top level.
-/

namespace BlockSketch.Arena

open LinkMap

variable {arena : Arena} {a b c x : BlockId} {k : Link}

/-! ### The parts of the check -/

theorem checkRoots_eq_ok : arena.checkRoots = .ok () ↔ ∀ root, arena.rootCount root = 1 := by
  have hall : (∀ root, arena.rootCount root = 1) ↔
      arena.rootCount .setup = 1 ∧ arena.rootCount .loop = 1 :=
    ⟨fun h => ⟨h .setup, h .loop⟩, fun h root => by cases root <;> simp [h]⟩
  rw [hall]
  unfold checkRoots RootKind.all rootCount
  by_cases hs : arena.countP (fun b => b.kind = RootKind.setup.kindName) = 1 <;>
    by_cases hl : arena.countP (fun b => b.kind = RootKind.loop.kindName) = 1 <;>
      simp [hs, hl, bind, Except.bind, pure, Except.pure]

theorem checkLinks_eq_ok {seen : List BlockId} {links : List (BlockId × BlockId)} :
    arena.checkLinks seen links = .ok () ↔
      (∀ l ∈ links, l.2 ∈ arena.ids ∧ arena.isRoot l.2 = false ∧ l.2 ∉ seen) ∧
        (links.map Prod.snd).Nodup := by
  induction links generalizing seen with
  | nil => simp [checkLinks]
  | cons l rest ih =>
    obtain ⟨parent, child⟩ := l
    rw [checkLinks]
    split
    · rename_i hnone
      rw [Option.isNone_iff_eq_none, find?_eq_none] at hnone
      simp [hnone]
    · rename_i hsome
      rw [Option.isNone_iff_eq_none, find?_eq_none, Decidable.not_not] at hsome
      split
      · rename_i hroot
        simp [hroot]
      · rename_i hroot
        split
        · rename_i hseen
          simp [hseen]
        · rename_i hseen
          rw [ih]
          simp only [List.forall_mem_cons, List.map_cons, List.nodup_cons]
          grind

theorem check_eq_ok :
    arena.check = .ok () ↔
      arena.checkRoots = .ok () ∧ arena.checkLinks [] arena.links = .ok () ∧
        arena.checkReach = .ok () := by
  rw [check, then_eq_ok, then_eq_ok]

/-! ### Links as a list -/

theorem targets_eq (arena : Arena) : arena.links.map Prod.snd = arena.flatMap Block.children := by
  rw [links, List.map_flatMap]
  simp [Function.comp_def]

theorem mem_links : (a, c) ∈ arena.links ↔ ∃ b ∈ arena, b.id = a ∧ c ∈ b.children := by
  simp only [links, List.mem_flatMap, List.mem_map, Prod.mk.injEq]
  grind

theorem mem_links_iff_linked (hd : arena.ids.Nodup) :
    (a, c) ∈ arena.links ↔ arena.Linked a c := by
  rw [mem_links]
  constructor
  · rintro ⟨b, hb, rfl, hc⟩
    exact ⟨b, find?_of_mem hd hb, hc⟩
  · rintro ⟨b, hb, hc⟩
    exact ⟨b, mem_of_find? hb, id_of_find? hb, hc⟩

/-- What is at the top level is there and hangs from nothing. -/
theorem mem_topLevel_iff (hd : arena.ids.Nodup) :
    c ∈ arena.topLevel ↔ c ∈ arena.ids ∧ ∀ a, ¬ arena.Linked a c := by
  have hfree : c ∉ arena.flatMap Block.children ↔ ∀ a, ¬ arena.Linked a c := by
    rw [← targets_eq, List.mem_map]
    constructor
    · intro hnone a hl
      exact hnone ⟨(a, c), (mem_links_iff_linked hd).2 hl, rfl⟩
    · rintro hnone ⟨⟨a, _⟩, hl, rfl⟩
      exact hnone a ((mem_links_iff_linked hd).1 hl)
  simp only [topLevel, List.mem_filter, decide_eq_true_eq, hfree]

/-- Links as a list are links as a function, where numbers and slots occur once. -/
theorem Tidy.mem_links (h : arena.Tidy) (hd : arena.ids.Nodup) :
    (a, c) ∈ arena.links ↔ ∃ k, arena.linked? a k = some c :=
  (mem_links_iff_linked hd).trans h.linked_iff

theorem Tidy.mem_topLevel (h : arena.Tidy) (hd : arena.ids.Nodup) :
    c ∈ arena.topLevel ↔ c ∈ arena.ids ∧ LinkMap.Free arena.linked? c := by
  rw [mem_topLevel_iff hd]
  simp only [h.linked_iff, LinkMap.Edge, not_exists, LinkMap.Free, ne_eq]

/-! ### Going up -/

theorem mem_ids_of_linked (h : arena.Linked a c) : a ∈ arena.ids := by
  obtain ⟨b, hb, _⟩ := h
  exact mem_ids_of_find? hb

theorem unseen_anti (arena : Arena) {seen more : List BlockId} (h : seen ⊆ more) :
    arena.unseen more ≤ arena.unseen seen := by
  apply List.countP_mono_left
  intro b _ hb
  simp only [decide_eq_true_eq] at hb ⊢
  exact fun hs => hb (h hs)

/-- Fewer blocks are out of reach of a block than of one that hangs from it and
does not lead back to it. -/
theorem unseen_descendants_lt (hl : arena.Linked a c) (hup : ¬ arena.Reachable c a) :
    arena.unseen (arena.descendants a) < arena.unseen (arena.descendants c) := by
  obtain ⟨b, hb⟩ := exists_find? (mem_ids_of_linked hl)
  have hsub : a :: arena.descendants c ⊆ arena.descendants a := by
    rw [List.cons_subset]
    exact ⟨mem_descendants.2 .refl,
      fun x hx => mem_descendants.2 (hl.reachable.trans (mem_descendants.1 hx))⟩
  calc arena.unseen (arena.descendants a)
      ≤ arena.unseen (a :: arena.descendants c) := unseen_anti arena hsub
    _ < arena.unseen (arena.descendants c) :=
      unseen_cons_lt hb fun hmem => hup (mem_descendants.1 hmem)

/-- Where nothing leads back, every block hangs from a block at the top level. -/
theorem exists_top_of_acyclic (hd : arena.ids.Nodup)
    (hacyclic : ∀ a b, arena.Linked a b → ¬ arena.Reachable b a) (hx : x ∈ arena.ids) :
    ∃ top ∈ arena.topLevel, arena.Reachable top x := by
  induction hn : arena.unseen (arena.descendants x) using Nat.strongRecOn generalizing x with
  | _ n ih =>
    subst hn
    by_cases htop : ∀ p, ¬ arena.Linked p x
    · exact ⟨x, (mem_topLevel_iff hd).2 ⟨hx, htop⟩, .refl⟩
    · obtain ⟨p, hl⟩ := Classical.not_forall_not.1 htop
      have hlt := unseen_descendants_lt hl (hacyclic p x hl)
      obtain ⟨top, htop, hr⟩ := ih _ hlt (mem_ids_of_linked hl) rfl
      exact ⟨top, htop, hr.step hl⟩

/-! ### Going in circles -/

/-- A block to which what hangs from it leads back is attached to such a block. -/
theorem exists_linked_of_back (hl : arena.Linked a c) (hback : arena.Reachable c a) :
    ∃ p, arena.Linked p a ∧ arena.Reachable a p := by
  cases hback with
  | refl => exact ⟨a, hl, .refl⟩
  | step hr hstep => exact ⟨_, hstep, hl.reachable.trans hr⟩

/-- Where no block has two parents, nothing that hangs from a block at the top
level lies on a circle: whoever leads into the circle is the parent, and so on the
circle. -/
theorem not_back_of_top (hsingle : ∀ {a b c}, arena.Linked a c → arena.Linked b c → a = b)
    {top : BlockId} (htop : ∀ p, ¬ arena.Linked p top) (hr : arena.Reachable top x) :
    ∀ p, arena.Linked p x → ¬ arena.Reachable x p := by
  induction hr with
  | refl => exact fun p hl => absurd hl (htop p)
  | @step b c _ hbc ih =>
    intro p hl hback
    obtain rfl := hsingle hl hbc
    obtain ⟨q, hq, hpq⟩ := exists_linked_of_back hl hback
    exact ih q hq hpq

/-! ### Counting -/

theorem nodup_eraseDups {α : Type} [BEq α] [LawfulBEq α] (l : List α) : l.eraseDups.Nodup := by
  induction hn : l.length using Nat.strongRecOn generalizing l with
  | _ n ih =>
    subst hn
    cases l with
    | nil => simp
    | cons x rest =>
      have hlt : (rest.filter fun y => !y == x).length < (x :: rest).length :=
        Nat.lt_succ_of_le (List.length_filter_le ..)
      rw [List.eraseDups_cons, List.nodup_cons, List.mem_eraseDups, List.mem_filter]
      exact ⟨by simp, ih _ hlt _ rfl⟩

theorem mem_hanging : x ∈ arena.hanging ↔ ∃ top ∈ arena.topLevel, arena.Reachable top x := by
  simp only [hanging, List.mem_eraseDups, List.mem_flatMap, mem_descendants]

/-- Where links lead to blocks that are there, what is reached is there. -/
theorem hanging_subset (hd : arena.ids.Nodup)
    (hpresent : ∀ a c, arena.Linked a c → c ∈ arena.ids) : arena.hanging ⊆ arena.ids := by
  intro x hx
  obtain ⟨top, htop, hr⟩ := mem_hanging.1 hx
  cases hr with
  | refl => exact ((mem_topLevel_iff hd).1 htop).1
  | step _ hl => exact hpresent _ _ hl

/-- There are as many blocks as are reached only if each is reached. -/
theorem checkReach_eq_ok (hd : arena.ids.Nodup)
    (hpresent : ∀ a c, arena.Linked a c → c ∈ arena.ids) :
    arena.checkReach = .ok () ↔ ∀ x ∈ arena.ids, ∃ top ∈ arena.topLevel, arena.Reachable top x := by
  have hsubperm : arena.hanging.Subperm arena.ids :=
    (nodup_eraseDups _).subperm (hanging_subset hd hpresent)
  have hlength : arena.ids.length = arena.length := List.length_map _
  have hcount : arena.hanging.length = arena.length ↔ ∀ x ∈ arena.ids, x ∈ arena.hanging := by
    constructor
    · intro heq x hx
      have hperm := hsubperm.perm_of_length_le (Nat.le_of_eq (hlength.trans heq.symm))
      exact hperm.mem_iff.2 hx
    · intro hall
      have hperm := hsubperm.antisymm (hd.subperm hall)
      rw [hperm.length_eq, hlength]
  simp only [checkReach, ← mem_hanging, ← hcount]
  split <;> simp_all

/-! ### The check is exact -/

/-- Where no two links lead to the same block, no block has two parents. -/
theorem eq_of_nodup_targets (hd : arena.ids.Nodup) (hsingle : (arena.links.map Prod.snd).Nodup)
    (ha : arena.Linked a c) (hb : arena.Linked b c) : a = b := by
  have heq := List.inj_on_of_nodup_map hsingle ((mem_links_iff_linked hd).2 ha)
    ((mem_links_iff_linked hd).2 hb) rfl
  exact congrArg Prod.fst heq

/-- What is in shape passes the check. -/
theorem WellShaped.check_eq_ok (h : arena.WellShaped) (hd : arena.ids.Nodup) :
    arena.check = .ok () := by
  have hpresent : ∀ a c, arena.Linked a c → c ∈ arena.ids :=
    fun a c hl => h.present a c ((mem_links_iff_linked hd).2 hl)
  rw [Arena.check_eq_ok, checkRoots_eq_ok, checkLinks_eq_ok, checkReach_eq_ok hd hpresent]
  refine ⟨h.roots, ⟨?_, h.single⟩, fun x hx => exists_top_of_acyclic hd h.acyclic hx⟩
  rintro ⟨a, c⟩ hl
  exact ⟨h.present a c hl, h.rootsFree a c hl, List.not_mem_nil⟩

/-- What passes the check is in shape. -/
theorem wellShaped_of_check (hd : arena.ids.Nodup) (h : arena.check = .ok ()) :
    arena.WellShaped := by
  obtain ⟨hroots, hlinks, hreach⟩ := check_eq_ok.1 h
  obtain ⟨hlinks, hsingle⟩ := checkLinks_eq_ok.1 hlinks
  have hpresent : ∀ a c, arena.Linked a c → c ∈ arena.ids :=
    fun a c hl => (hlinks _ ((mem_links_iff_linked hd).2 hl)).1
  refine ⟨checkRoots_eq_ok.1 hroots, fun a c hl => (hlinks _ hl).1, fun a c hl => (hlinks _ hl).2.1,
    hsingle, fun a b hl hback => ?_⟩
  obtain ⟨top, htop, hr⟩ := (checkReach_eq_ok hd hpresent).1 hreach b (hpresent a b hl)
  exact not_back_of_top (eq_of_nodup_targets hd hsingle) ((mem_topLevel_iff hd).1 htop).2 hr a hl
    hback

/-! ### Forests -/

namespace Forest

/-- A block of a forest is the target of at most one link. -/
theorem nodup_targets (h : arena.Forest) (hd : arena.ids.Nodup) :
    (arena.links.map Prod.snd).Nodup := by
  rw [targets_eq, List.Nodup, List.pairwise_flatMap]
  constructor
  · intro b hb
    apply (h.tidy b hb).nodup_children
    intro k j c hk hj
    rw [← linked?_of_find? (find?_of_mem hd hb)] at hk hj
    exact (h.treelike.single hk hj).2
  · rw [ids, List.Nodup, List.pairwise_map] at hd
    have hdup : arena.ids.Nodup := List.pairwise_map.2 hd
    apply hd.imp_of_mem
    rintro b d hb hd hne c hc _ hc' rfl
    obtain ⟨k, hk⟩ := (h.tidy b hb).mem_children.1 hc
    obtain ⟨j, hj⟩ := (h.tidy d hd).mem_children.1 hc'
    rw [← linked?_of_find? (find?_of_mem hdup hb)] at hk
    rw [← linked?_of_find? (find?_of_mem hdup hd)] at hj
    exact hne (h.treelike.single hk hj).1

theorem acyclic (h : arena.Forest) (hl : arena.Linked a b) : ¬ arena.Reachable b a := by
  rw [h.tidy.linked_iff] at hl
  rw [h.tidy.reachable_iff]
  exact h.treelike.not_reach_of_edge hl

/-- Every block hangs from a block at the top level. -/
theorem exists_top (h : arena.Forest) (hd : arena.ids.Nodup) (hx : x ∈ arena.ids) :
    ∃ top ∈ arena.topLevel, arena.Reachable top x :=
  exists_top_of_acyclic hd (fun _ _ => h.acyclic) hx

/-- Every block hangs from exactly one block at the top level. -/
theorem existsUnique_top (h : arena.Forest) (hd : arena.ids.Nodup) (hx : x ∈ arena.ids) :
    ∃! top, top ∈ arena.topLevel ∧ arena.Reachable top x := by
  obtain ⟨top, htop, hr⟩ := h.exists_top hd hx
  refine ⟨top, ⟨htop, hr⟩, ?_⟩
  rintro other ⟨hother, hr'⟩
  rw [h.tidy.mem_topLevel hd] at htop hother
  rw [h.tidy.reachable_iff] at hr hr'
  exact h.treelike.eq_of_free hother.2 htop.2 hr' hr

theorem wellShaped (h : arena.Forest) (hd : arena.ids.Nodup)
    (hroots : ∀ root, arena.rootCount root = 1) : arena.WellShaped where
  roots := hroots
  present a c hl := by
    obtain ⟨k, hk⟩ := (h.tidy.mem_links hd).1 hl
    exact h.present hk
  rootsFree a c hl := by
    obtain ⟨k, hk⟩ := (h.tidy.mem_links hd).1 hl
    exact h.rootsFree hk
  single := h.nodup_targets hd
  acyclic _ _ hl := h.acyclic hl

/-- `check` finds no fault in a forest with each root once. -/
theorem check_eq_ok (h : arena.Forest) (hd : arena.ids.Nodup)
    (hroots : ∀ root, arena.rootCount root = 1) : arena.check = .ok () :=
  (h.wellShaped hd hroots).check_eq_ok hd

end Forest

end BlockSketch.Arena

namespace BlockSketch.Workspace

open Arena

/-- A program in which no number is given twice is found without fault exactly if
it is in shape. -/
theorem validates_iff_wellShaped (w : Workspace) (hd : w.arena.ids.Nodup) :
    w.validate = .ok () ↔ w.arena.WellShaped :=
  ⟨wellShaped_of_check hd, fun h => h.check_eq_ok hd⟩

/-- Two blocks that follow each other, beside the roots. Everything about single
links is in order, and the count finds the circle. -/
theorem validates_iff_wellShaped_ring :
    let block (id : Nat) (kind : String) (next : Option BlockId) : Block :=
      ⟨⟨id⟩, kind, [], .origin, next, [], []⟩
    let w : Workspace := ⟨.empty, .default, [block 1 "root_setup" none, block 2 "root_loop" none,
      block 3 "delay_ms" (some ⟨4⟩), block 4 "delay_ms" (some ⟨3⟩)], 5⟩
    w.arena.ids.Nodup ∧ w.arena.checkRoots = .ok () ∧
      w.arena.checkLinks [] w.arena.links = .ok () ∧ w.validate ≠ .ok () := by
  intro block w
  have hd : w.arena.ids.Nodup := by decide
  have hthere : w.arena.Linked ⟨3⟩ ⟨4⟩ := ⟨_, rfl, by decide⟩
  have hback : w.arena.Linked ⟨4⟩ ⟨3⟩ := ⟨_, rfl, by decide⟩
  refine ⟨hd, rfl, rfl, fun hok => ?_⟩
  exact ((validates_iff_wellShaped w hd).1 hok).acyclic _ _ hthere hback.reachable

end BlockSketch.Workspace
