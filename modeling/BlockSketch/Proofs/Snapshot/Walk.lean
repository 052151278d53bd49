import BlockSketch.Proofs.Graph.Shape
import BlockSketch.Snapshot.Save
import Mathlib.Data.List.Nodup

/-!
The walk that takes a snapshot. It goes down links with a bound on its steps. In
a forest each link leads to a block below which fewer blocks lie (`rank`), so
the bound is never reached and the walk is plain recursion along links:
`tree_eq` and `chain_eq` are all that later modules know about it. That a walk
has steps enough is counted once, by `walk_induct`, and every walk of this form
is dealt with by this induction.

Which blocks the walk meets is told by a second walk of the same form that keeps
their numbers (`visited`). What is stored is what is found at these numbers, in
the same order, and in a forest in which expressions have nothing after them
every number is met exactly once.
-/

namespace BlockSketch

namespace Arena

variable {arena : Arena} {a b c d x y : BlockId} {k j : Link}

/-! ### Going down comes to an end -/

/-- How many blocks hang from a block, itself included. -/
def rank (arena : Arena) (x : BlockId) : Nat :=
  arena.length - arena.unseen (arena.descendants x)

theorem rank_le (arena : Arena) (x : BlockId) : arena.rank x ≤ arena.length :=
  Nat.sub_le ..

/-- The bound of a walk is enough for every block. -/
theorem rank_bound (arena : Arena) (x : BlockId) : 2 * arena.rank x + 2 ≤ arena.walkBound := by
  have := arena.rank_le x
  unfold walkBound
  omega

theorem Forest.rank_lt (h : arena.Forest) (hk : arena.linked? a k = some c) :
    arena.rank c < arena.rank a := by
  have hl := h.tidy.linked_iff.2 ⟨k, hk⟩
  have hlt := unseen_descendants_lt hl (h.acyclic hl)
  have hle : arena.unseen (arena.descendants c) ≤ arena.length := List.countP_le_length
  unfold rank
  omega

/-- A block as it is stored, with everything plugged into it. -/
def tree (arena : Arena) (b : Block) : StoredBlock :=
  arena.storedBlock arena.walkBound b

def chain (arena : Arena) (x : BlockId) : List StoredBlock :=
  arena.storedChain arena.walkBound x

def rest (arena : Arena) (b : Block) : List StoredBlock :=
  match b.next with
  | none => []
  | some next => arena.chain next

namespace Forest

/-- A link of a block, as it is found in its slots. -/
theorem linked?_statement (h : arena.Forest) {b : Block} (hb : arena.find? x = some b)
    {slot : String} (hs : (slot, some c) ∈ b.statements) :
    arena.linked? x (.statement slot) = some c := by
  rw [linked?_of_find? hb]
  exact (Block.join_get?_eq_some (h.tidy b (mem_of_find? hb)).statements).2 hs

theorem linked?_value (h : arena.Forest) {b : Block} (hb : arena.find? x = some b)
    {slot : String} (hs : (slot, some c) ∈ b.values) :
    arena.linked? x (.value slot) = some c := by
  rw [linked?_of_find? hb]
  exact (Block.join_get?_eq_some (h.tidy b (mem_of_find? hb)).values).2 hs

/-- Induction along links: what is handed on to a block from the blocks that are
attached to it holds of all. -/
theorem link_induct (h : arena.Forest) {P : BlockId → Prop}
    (step : ∀ x b, arena.find? x = some b → (∀ k c, arena.linked? x k = some c → P c) → P x) :
    ∀ x ∈ arena.ids, P x := by
  intro x hx
  induction hn : arena.rank x using Nat.strongRecOn generalizing x with
  | _ n ih =>
    subst hn
    obtain ⟨b, hb⟩ := exists_find? hx
    exact step x b hb fun k c hk => ih _ (h.rank_lt hk) c (h.present hk) rfl

/-- Induction along a walk. A block and its chain need two steps more than what
hangs from the block. So with enough steps something holds of all blocks and all
chains, if one step more hands it on from what hangs from them. -/
theorem walk_induct (h : arena.Forest) {P Q : Nat → BlockId → Prop}
    (hblock : ∀ n x b, arena.find? x = some b → 2 * arena.rank x ≤ n →
      (∀ slot c, arena.linked? x (.statement slot) = some c → Q n c) →
      (∀ slot c, arena.linked? x (.value slot) = some c → P n c) → P (n + 1) x)
    (hchain : ∀ n x b, arena.find? x = some b → 2 * arena.rank x + 1 ≤ n → P n x →
      (∀ c, arena.linked? x .next = some c → Q n c) → Q (n + 1) x) (n : Nat) :
    (∀ x ∈ arena.ids, 2 * arena.rank x + 1 ≤ n → P n x) ∧
      (∀ x ∈ arena.ids, 2 * arena.rank x + 2 ≤ n → Q n x) := by
  induction n with
  | zero => exact ⟨fun x _ hn => by omega, fun x _ hn => by omega⟩
  | succ n ih =>
    obtain ⟨ihBlock, ihChain⟩ := ih
    constructor
    · intro x hx hn
      obtain ⟨b, hb⟩ := exists_find? hx
      refine hblock n x b hb (by omega) (fun slot c hk => ?_) fun slot c hk => ?_
      · have hlt := h.rank_lt hk
        exact ihChain c (h.present hk) (by omega)
      · have hlt := h.rank_lt hk
        exact ihBlock c (h.present hk) (by omega)
    · intro x hx hn
      obtain ⟨b, hb⟩ := exists_find? hx
      refine hchain n x b hb (by omega) (ihBlock x hx (by omega)) fun c hk => ?_
      have hlt := h.rank_lt hk
      exact ihChain c (h.present hk) (by omega)

/-- More steps than are needed make no difference. -/
theorem stored_stable (h : arena.Forest) (n : Nat) :
    (∀ x ∈ arena.ids, 2 * arena.rank x + 1 ≤ n → ∀ b, arena.find? x = some b →
      ∀ m, 2 * arena.rank x + 1 ≤ m → arena.storedBlock n b = arena.storedBlock m b) ∧
    (∀ x ∈ arena.ids, 2 * arena.rank x + 2 ≤ n → ∀ m, 2 * arena.rank x + 2 ≤ m →
      arena.storedChain n x = arena.storedChain m x) := by
  apply h.walk_induct
  · intro n x b hb _ hchains hblocks b' hb' m hm
    obtain rfl := Option.some_inj.1 (hb.symm.trans hb')
    obtain ⟨m, rfl⟩ : ∃ m', m = m' + 1 := ⟨m - 1, by omega⟩
    simp only [storedBlock, StoredBlock.mk.injEq, true_and]
    constructor
    · apply List.filterMap_congr
      rintro ⟨slot, head⟩ hentry
      cases head with
      | none => rfl
      | some head =>
        have hk := h.linked?_statement hb hentry
        have hlt := h.rank_lt hk
        simp only [Option.map_some, hchains slot head hk m (by omega)]
    · apply List.filterMap_congr
      rintro ⟨slot, child⟩ hentry
      cases child with
      | none => rfl
      | some child =>
        have hk := h.linked?_value hb hentry
        have hlt := h.rank_lt hk
        obtain ⟨d, hd⟩ := exists_find? (h.present hk)
        simp only [Option.bind_some, hd, Option.map_some, hblocks slot child hk d hd m (by omega)]
  · intro n x b hb _ hblock hnext m hm
    obtain ⟨m, rfl⟩ : ∃ m', m = m' + 1 := ⟨m - 1, by omega⟩
    simp only [storedChain, hb, hblock b hb m (by omega), List.cons.injEq, true_and]
    cases hn : b.next with
    | none => rfl
    | some next =>
      have hk : arena.linked? x .next = some next := (linked?_next_of_find? hb).trans hn
      have hlt := h.rank_lt hk
      exact hnext next hk m (by omega)

theorem tree_eq (h : arena.Forest) {b : Block} (hb : arena.find? x = some b) :
    arena.tree b =
      { kind := b.kind
        fields := b.fields
        statements := b.statements.filterMap fun entry =>
          entry.2.map fun head => (entry.1, arena.chain head)
        values := b.values.filterMap fun entry =>
          (entry.2.bind arena.find?).map fun child => (entry.1, arena.tree child) } := by
  have hbound := arena.rank_bound x
  have hup := (h.stored_stable arena.walkBound).1 x (mem_ids_of_find? hb) (by omega) b hb
    (arena.walkBound + 1) (by omega)
  rw [tree, hup, storedBlock]
  rfl

theorem mem_statements (h : arena.Forest) {b : Block} (hb : arena.find? x = some b)
    {slot : String} {stored : List StoredBlock} :
    (slot, stored) ∈ (arena.tree b).statements ↔
      ∃ c, arena.linked? x (.statement slot) = some c ∧ arena.chain c = stored := by
  rw [h.tree_eq hb, List.mem_filterMap]
  constructor
  · rintro ⟨⟨n, o⟩, hentry, heq⟩
    obtain ⟨c, rfl, heq⟩ := Option.map_eq_some_iff.1 heq
    cases heq
    exact ⟨c, h.linked?_statement hb hentry, rfl⟩
  · rintro ⟨c, hc, rfl⟩
    rw [linked?_of_find? hb] at hc
    exact ⟨(slot, some c),
      (Block.join_get?_eq_some (h.tidy b (mem_of_find? hb)).statements).1 hc, rfl⟩

theorem mem_values (h : arena.Forest) {b : Block} (hb : arena.find? x = some b)
    {slot : String} {stored : StoredBlock} :
    (slot, stored) ∈ (arena.tree b).values ↔
      ∃ c d, arena.linked? x (.value slot) = some c ∧ arena.find? c = some d ∧
        arena.tree d = stored := by
  rw [h.tree_eq hb, List.mem_filterMap]
  constructor
  · rintro ⟨⟨n, o⟩, hentry, heq⟩
    obtain ⟨d, hd, heq⟩ := Option.map_eq_some_iff.1 heq
    obtain ⟨c, rfl, hd⟩ := Option.bind_eq_some_iff.1 hd
    cases heq
    exact ⟨c, d, h.linked?_value hb hentry, hd, rfl⟩
  · rintro ⟨c, d, hc, hd, rfl⟩
    rw [linked?_of_find? hb] at hc
    refine ⟨(slot, some c),
      (Block.join_get?_eq_some (h.tidy b (mem_of_find? hb)).values).1 hc, ?_⟩
    rw [Option.bind_some, hd]
    rfl

/-- No slot is stored twice. -/
theorem distinct_tree (h : arena.Forest) {b : Block} (hb : arena.find? x = some b) :
    Entries.Distinct (arena.tree b).statements ∧ Entries.Distinct (arena.tree b).values := by
  have htidy := h.tidy b (mem_of_find? hb)
  rw [h.tree_eq hb]
  constructor
  · apply Entries.distinct_filterMap htidy.statements
    rintro ⟨n, o⟩ r hr
    obtain ⟨_, _, rfl⟩ := Option.map_eq_some_iff.1 hr
    rfl
  · apply Entries.distinct_filterMap htidy.values
    rintro ⟨n, o⟩ r hr
    obtain ⟨_, _, rfl⟩ := Option.map_eq_some_iff.1 hr
    rfl

theorem chain_eq (h : arena.Forest) {b : Block} (hb : arena.find? x = some b) :
    arena.chain x = arena.tree b :: arena.rest b := by
  have hbound := arena.rank_bound x
  have hup := (h.stored_stable arena.walkBound).2 x (mem_ids_of_find? hb) hbound
    (arena.walkBound + 1) (by omega)
  rw [chain, hup, storedChain, hb]
  rfl

theorem chain_ne_nil (h : arena.Forest) (hx : x ∈ arena.ids) : arena.chain x ≠ [] := by
  obtain ⟨b, hb⟩ := exists_find? hx
  rw [h.chain_eq hb]
  exact List.cons_ne_nil _ _

end Forest

/-! ### What the walk meets -/

mutual

/-- The numbers of a block and of what is plugged into it, in the order of the
walk. -/
def visitedBlock (arena : Arena) : Nat → Block → List BlockId
  | 0, b => [b.id]
  | steps + 1, b =>
    b.id :: ((b.statements.filterMap Prod.snd).flatMap (visitedChain arena steps) ++
      (b.values.filterMap fun entry => entry.2.bind arena.find?).flatMap
        (visitedBlock arena steps))

def visitedChain (arena : Arena) : Nat → BlockId → List BlockId
  | 0, _ => []
  | steps + 1, id =>
    match arena.find? id with
    | none => []
    | some b =>
      visitedBlock arena steps b ++
        match b.next with
        | none => []
        | some next => visitedChain arena steps next

end

def visited (arena : Arena) : List BlockId :=
  arena.topLevel.flatMap (arena.visitedChain arena.walkBound)

end Arena

namespace StoredBlock

mutual

/-- What is written about the blocks in a block, itself first. -/
def written : StoredBlock → List (String × List (String × FieldValue))
  | ⟨kind, fields, statements, values⟩ =>
    (kind, fields) :: (writtenSlots statements ++ writtenValues values)

def writtenChain : List StoredBlock → List (String × List (String × FieldValue))
  | [] => []
  | b :: rest => b.written ++ writtenChain rest

def writtenSlots : List (String × List StoredBlock) → List (String × List (String × FieldValue))
  | [] => []
  | (_, chain) :: rest => writtenChain chain ++ writtenSlots rest

def writtenValues : List (String × StoredBlock) → List (String × List (String × FieldValue))
  | [] => []
  | (_, b) :: rest => b.written ++ writtenValues rest

end

mutual

theorem length_written : ∀ b : StoredBlock, b.written.length = b.count
  | ⟨kind, fields, statements, values⟩ => by
    rw [written, count, List.length_cons, List.length_append, length_writtenSlots,
      length_writtenValues]
    omega

theorem length_writtenChain : ∀ chain, (writtenChain chain).length = countChain chain
  | [] => rfl
  | b :: rest => by
    rw [writtenChain, countChain, List.length_append, length_written b, length_writtenChain rest]

theorem length_writtenSlots : ∀ slots, (writtenSlots slots).length = countSlots slots
  | [] => rfl
  | (_, chain) :: rest => by
    rw [writtenSlots, countSlots, List.length_append, length_writtenChain chain,
      length_writtenSlots rest]

theorem length_writtenValues : ∀ values, (writtenValues values).length = countValues values
  | [] => rfl
  | (_, b) :: rest => by
    rw [writtenValues, countValues, List.length_append, length_written b,
      length_writtenValues rest]

end

end StoredBlock

def Snapshot.written (s : Snapshot) : List (String × List (String × FieldValue)) :=
  s.canvas.flatMap fun stack => StoredBlock.writtenChain stack.blocks

theorem Snapshot.length_written (s : Snapshot) : s.written.length = s.blockCount := by
  rw [written, blockCount]
  induction s.canvas with
  | nil => rfl
  | cons stack rest ih =>
    rw [List.flatMap_cons, List.length_append, List.foldr_cons, ih,
      StoredBlock.length_writtenChain]

namespace Arena

variable {arena : Arena} {a b c d x y : BlockId} {k j : Link}

/-- What a snapshot tells about the block with a number. -/
def label? (arena : Arena) (x : BlockId) : Option (String × List (String × FieldValue)) :=
  (arena.find? x).map fun b => (b.kind, b.fields)

theorem writtenSlots_filterMap (slots : Entries (Option BlockId))
    (chainOf : BlockId → List StoredBlock) :
    StoredBlock.writtenSlots (slots.filterMap fun entry =>
        entry.2.map fun head => (entry.1, chainOf head)) =
      (slots.filterMap Prod.snd).flatMap fun head => StoredBlock.writtenChain (chainOf head) := by
  induction slots with
  | nil => rfl
  | cons entry rest ih =>
    obtain ⟨slot, head⟩ := entry
    cases head with
    | none => exact ih
    | some head => exact congrArg (StoredBlock.writtenChain (chainOf head) ++ ·) ih

theorem writtenValues_filterMap (values : Entries (Option BlockId))
    (treeOf : Block → StoredBlock) :
    StoredBlock.writtenValues (values.filterMap fun entry =>
        (entry.2.bind arena.find?).map fun child => (entry.1, treeOf child)) =
      (values.filterMap fun entry => entry.2.bind arena.find?).flatMap fun child =>
        (treeOf child).written := by
  induction values with
  | nil => rfl
  | cons entry rest ih =>
    rw [List.filterMap_cons, List.filterMap_cons]
    cases entry.2.bind arena.find? with
    | none => exact ih
    | some child => exact congrArg ((treeOf child).written ++ ·) ih

/-- The walk writes what is found at the numbers that it meets. -/
theorem written_stored (arena : Arena) (n : Nat) :
    (∀ b, arena.find? b.id = some b →
      (arena.storedBlock n b).written = (arena.visitedBlock n b).filterMap arena.label?) ∧
    (∀ x, StoredBlock.writtenChain (arena.storedChain n x) =
      (arena.visitedChain n x).filterMap arena.label?) := by
  induction n with
  | zero =>
    refine ⟨fun b hb => ?_, fun x => rfl⟩
    rw [storedBlock, visitedBlock, List.filterMap_cons, label?, hb]
    rfl
  | succ n ih =>
    obtain ⟨ihBlock, ihChain⟩ := ih
    constructor
    · intro b hb
      have hlabel : arena.label? b.id = some (b.kind, b.fields) := by rw [label?, hb]; rfl
      rw [storedBlock, visitedBlock, List.filterMap_cons_some hlabel, StoredBlock.written,
        writtenSlots_filterMap, writtenValues_filterMap, List.filterMap_append,
        List.filterMap_flatMap, List.filterMap_flatMap]
      simp only [ihChain]
      congr 2
      rw [List.flatMap_def, List.flatMap_def]
      congr 1
      apply List.map_congr_left
      intro child hchild
      obtain ⟨entry, _, hfind⟩ := List.mem_filterMap.1 hchild
      obtain ⟨c, _, hc⟩ := Option.bind_eq_some_iff.1 hfind
      exact ihBlock child (by rw [id_of_find? hc]; exact hc)
    · intro x
      rw [storedChain, visitedChain]
      cases hb : arena.find? x with
      | none => rfl
      | some b =>
        simp only [StoredBlock.writtenChain, List.filterMap_append]
        rw [ihBlock b (by rw [id_of_find? hb]; exact hb)]
        cases b.next with
        | none => rfl
        | some next => simp only [ihChain]

def Ended (arena : Arena) : Prop :=
  ∀ ⦃a slot c⦄, arena.linked? a (.value slot) = some c → arena.linked? c .next = none

namespace Forest

theorem mem_filled (h : arena.Forest) {b : Block} (hb : arena.find? x = some b) :
    c ∈ b.statements.filterMap Prod.snd ↔ ∃ slot, arena.linked? x (.statement slot) = some c := by
  have htidy := h.tidy b (mem_of_find? hb)
  simp only [linked?_of_find? hb, List.mem_filterMap]
  constructor
  · rintro ⟨⟨slot, _⟩, hentry, rfl⟩
    exact ⟨slot, (Block.join_get?_eq_some htidy.statements).2 hentry⟩
  · rintro ⟨slot, hslot⟩
    exact ⟨(slot, some c), (Block.join_get?_eq_some htidy.statements).1 hslot, rfl⟩

theorem mem_expressions (h : arena.Forest) {b d : Block} (hb : arena.find? x = some b) :
    d ∈ (b.values.filterMap fun entry => entry.2.bind arena.find?) ↔
      arena.find? d.id = some d ∧ ∃ slot, arena.linked? x (.value slot) = some d.id := by
  have htidy := h.tidy b (mem_of_find? hb)
  simp only [linked?_of_find? hb, List.mem_filterMap]
  constructor
  · rintro ⟨⟨slot, child⟩, hentry, hfind⟩
    obtain ⟨c, rfl, hc⟩ := Option.bind_eq_some_iff.1 hfind
    have hid := id_of_find? hc
    subst hid
    exact ⟨hc, slot, (Block.join_get?_eq_some htidy.values).2 hentry⟩
  · rintro ⟨hd, slot, hslot⟩
    exact ⟨(slot, some d.id), (Block.join_get?_eq_some htidy.values).1 hslot, hd⟩

/-- An expression has no chain, so that what is plugged into it is all that lies
below it. -/
theorem reach_expression (he : arena.Ended) {slot : String}
    (hslot : arena.linked? x (.value slot) = some d) :
    LinkMap.Reach arena.linked? d y ↔ y = d ∨ ∃ k c, k ≠ .next ∧
      arena.linked? d k = some c ∧ LinkMap.Reach arena.linked? c y := by
  rw [LinkMap.reach_iff_head]
  refine or_congr_right (exists_congr fun k => exists_congr fun c => ?_)
  refine ⟨fun ⟨hk, hr⟩ => ⟨?_, hk, hr⟩, fun ⟨_, hk, hr⟩ => ⟨hk, hr⟩⟩
  rintro rfl
  rw [he hslot] at hk
  cases hk

section Meeting

variable {n : Nat} {b : Block} (h : arena.Forest) (hb : arena.find? x = some b)

include h hb

theorem mem_visited_statements (hchains : ∀ slot c, arena.linked? x (.statement slot) = some c →
      ∀ y, y ∈ arena.visitedChain n c ↔ LinkMap.Reach arena.linked? c y) :
    y ∈ (b.statements.filterMap Prod.snd).flatMap (arena.visitedChain n) ↔
      ∃ slot c, arena.linked? x (.statement slot) = some c ∧ LinkMap.Reach arena.linked? c y := by
  rw [List.mem_flatMap]
  constructor
  · rintro ⟨c, hc, hy⟩
    obtain ⟨slot, hslot⟩ := (h.mem_filled hb).1 hc
    exact ⟨slot, c, hslot, (hchains slot c hslot y).1 hy⟩
  · rintro ⟨slot, c, hslot, hr⟩
    exact ⟨c, (h.mem_filled hb).2 ⟨slot, hslot⟩, (hchains slot c hslot y).2 hr⟩

theorem mem_visited_values (hblocks : ∀ slot c, arena.linked? x (.value slot) = some c →
      ∀ d, arena.find? c = some d → ∀ y,
        y ∈ arena.visitedBlock n d ↔ LinkMap.Reach arena.linked? c y) :
    y ∈ (b.values.filterMap fun entry => entry.2.bind arena.find?).flatMap
        (arena.visitedBlock n) ↔
      ∃ slot c, arena.linked? x (.value slot) = some c ∧ LinkMap.Reach arena.linked? c y := by
  rw [List.mem_flatMap]
  constructor
  · rintro ⟨d, hd, hy⟩
    obtain ⟨hfind, slot, hslot⟩ := (h.mem_expressions hb).1 hd
    exact ⟨slot, d.id, hslot, (hblocks slot d.id hslot d hfind y).1 hy⟩
  · rintro ⟨slot, c, hslot, hr⟩
    obtain ⟨d, hd⟩ := exists_find? (h.present hslot)
    have hid := id_of_find? hd
    subst hid
    exact ⟨d, (h.mem_expressions hb).2 ⟨hd, slot, hslot⟩, (hblocks slot d.id hslot d hd y).2 hr⟩

end Meeting

/-- With enough steps the walk meets what hangs from a block, and nothing else. -/
theorem mem_visited_iff (h : arena.Forest) (he : arena.Ended) (n : Nat) :
    (∀ x ∈ arena.ids, 2 * arena.rank x + 1 ≤ n → ∀ b, arena.find? x = some b → ∀ y,
      y ∈ arena.visitedBlock n b ↔
        y = x ∨ ∃ k c, k ≠ .next ∧ arena.linked? x k = some c ∧
          LinkMap.Reach arena.linked? c y) ∧
    (∀ x ∈ arena.ids, 2 * arena.rank x + 2 ≤ n → ∀ y,
      y ∈ arena.visitedChain n x ↔ LinkMap.Reach arena.linked? x y) := by
  apply h.walk_induct
  · intro n x _ _ _ hchains hblocks b hb y
    have hvalues : ∀ slot c, arena.linked? x (.value slot) = some c → ∀ d,
        arena.find? c = some d → ∀ y,
          y ∈ arena.visitedBlock n d ↔ LinkMap.Reach arena.linked? c y := by
      intro slot c hslot d hd y
      rw [reach_expression he hslot]
      exact hblocks slot c hslot d hd y
    rw [visitedBlock, List.mem_cons, List.mem_append, h.mem_visited_statements hb hchains,
      h.mem_visited_values hb hvalues, id_of_find? hb]
    apply or_congr_right
    constructor
    · rintro (⟨slot, c, hk, hr⟩ | ⟨slot, c, hk, hr⟩)
      · exact ⟨.statement slot, c, nofun, hk, hr⟩
      · exact ⟨.value slot, c, nofun, hk, hr⟩
    · rintro ⟨k, c, hne, hk, hr⟩
      cases k with
      | next => exact absurd rfl hne
      | statement slot => exact .inl ⟨slot, c, hk, hr⟩
      | value slot => exact .inr ⟨slot, c, hk, hr⟩
  · intro n x b hb _ hblock hrest y
    have hnext := linked?_next_of_find? hb
    rw [visitedChain, hb, List.mem_append, hblock b hb y, LinkMap.reach_iff_head]
    constructor
    · rintro ((rfl | ⟨k, c, _, hk, hr⟩) | hy)
      · exact .inl rfl
      · exact .inr ⟨k, c, hk, hr⟩
      · cases hn : b.next with
        | none =>
          rw [hn] at hy
          cases hy
        | some next =>
          rw [hn] at hy hnext
          exact .inr ⟨.next, next, hnext, (hrest next hnext y).1 hy⟩
    · rintro (rfl | ⟨k, c, hk, hr⟩)
      · exact .inl (.inl rfl)
      · -- What comes after the block is met by the chain, and everything else by the block.
        by_cases hkn : k = .next
        · subst hkn
          rw [← hnext, hk]
          exact .inr ((hrest c hk y).2 hr)
        · exact .inl (.inr ⟨k, c, hkn, hk, hr⟩)

/-- What is plugged into a block are different blocks. -/
theorem nodup_plugged (h : arena.Forest) {b : Block} (hb : arena.find? x = some b) :
    (b.statements.filterMap Prod.snd).Nodup ∧
      (b.values.filterMap fun entry => entry.2.bind arena.find?).Pairwise
        (fun d e => d.id ≠ e.id) := by
  have hchildren : b.children.Nodup := by
    apply (h.tidy b (mem_of_find? hb)).nodup_children
    intro k j c hk hj
    rw [← linked?_of_find? hb] at hk hj
    exact (h.treelike.single hk hj).2
  rw [Block.children, Block.plugged] at hchildren
  have hplugged := List.nodup_append.1 (List.nodup_append.1 hchildren).2.1
  refine ⟨hplugged.1, ?_⟩
  have hids : (b.values.filterMap fun entry => entry.2.bind arena.find?).map Block.id =
      b.values.filterMap Prod.snd := by
    rw [List.map_filterMap]
    apply List.filterMap_congr
    rintro ⟨slot, child⟩ hentry
    cases child with
    | none => rfl
    | some c =>
      obtain ⟨d, hd⟩ := exists_find? (h.present (h.linked?_value hb hentry))
      rw [Option.bind_some, hd, Option.map_some, id_of_find? hd]
  have hnodup := hplugged.2.1
  rw [← hids, List.Nodup, List.pairwise_map] at hnodup
  exact hnodup

section Twice

variable {n : Nat} {b : Block} (h : arena.Forest) (he : arena.Ended)
  (hb : arena.find? x = some b)

include h he hb

theorem reach_of_mem_statement (hn : 2 * arena.rank x ≤ n)
    (hc : c ∈ b.statements.filterMap Prod.snd) (hy : y ∈ arena.visitedChain n c) :
    ∃ slot, arena.linked? x (.statement slot) = some c ∧ LinkMap.Reach arena.linked? c y := by
  obtain ⟨slot, hslot⟩ := (h.mem_filled hb).1 hc
  have hlt := h.rank_lt hslot
  exact ⟨slot, hslot, ((h.mem_visited_iff he n).2 c (h.present hslot) (by omega) y).1 hy⟩

theorem reach_of_mem_value (hn : 2 * arena.rank x ≤ n) {d : Block}
    (hd : d ∈ b.values.filterMap fun entry => entry.2.bind arena.find?)
    (hy : y ∈ arena.visitedBlock n d) :
    ∃ slot, arena.linked? x (.value slot) = some d.id ∧ LinkMap.Reach arena.linked? d.id y := by
  obtain ⟨hfind, slot, hslot⟩ := (h.mem_expressions hb).1 hd
  have hlt := h.rank_lt hslot
  refine ⟨slot, hslot, (reach_expression he hslot).2 ?_⟩
  exact ((h.mem_visited_iff he n).1 d.id (h.present hslot) (by omega) d hfind y).1 hy

/-- What is plugged into a block is met in different places. -/
theorem nodup_visitedBlock (hn : 2 * arena.rank x ≤ n)
    (hchains : ∀ slot c, arena.linked? x (.statement slot) = some c →
      (arena.visitedChain n c).Nodup)
    (hblocks : ∀ slot c, arena.linked? x (.value slot) = some c → ∀ d, arena.find? c = some d →
      (arena.visitedBlock n d).Nodup) : (arena.visitedBlock (n + 1) b).Nodup := by
  obtain ⟨hheads, hexpressions⟩ := h.nodup_plugged hb
  rw [visitedBlock, List.nodup_cons, List.nodup_append, List.nodup_flatMap, List.nodup_flatMap]
  refine ⟨?_, ⟨?_, ?_⟩, ⟨?_, ?_⟩, ?_⟩
  · rw [List.mem_append, List.mem_flatMap, List.mem_flatMap, id_of_find? hb]
    rintro (⟨c, hc, hx⟩ | ⟨d, hd, hx⟩)
    · obtain ⟨slot, hslot, hr⟩ := h.reach_of_mem_statement he hb hn hc hx
      exact h.treelike.not_reach_of_edge ⟨_, hslot⟩ hr
    · obtain ⟨slot, hslot, hr⟩ := h.reach_of_mem_value he hb hn hd hx
      exact h.treelike.not_reach_of_edge ⟨_, hslot⟩ hr
  · intro c hc
    obtain ⟨slot, hslot⟩ := (h.mem_filled hb).1 hc
    exact hchains slot c hslot
  · apply hheads.imp_of_mem
    intro c d hc hd hne y hyc hyd
    obtain ⟨_, hslot, hr⟩ := h.reach_of_mem_statement he hb hn hc hyc
    obtain ⟨_, hslot', hr'⟩ := h.reach_of_mem_statement he hb hn hd hyd
    exact hne (h.treelike.eq_of_siblings hslot hslot' hr hr')
  · intro d hd
    obtain ⟨hfind, slot, hslot⟩ := (h.mem_expressions hb).1 hd
    exact hblocks slot d.id hslot d hfind
  · apply hexpressions.imp_of_mem
    intro d e hd he' hne y hyd hye
    obtain ⟨_, hslot, hr⟩ := h.reach_of_mem_value he hb hn hd hyd
    obtain ⟨_, hslot', hr'⟩ := h.reach_of_mem_value he hb hn he' hye
    exact hne (h.treelike.eq_of_siblings hslot hslot' hr hr')
  · intro y hy z hz heq
    subst heq
    obtain ⟨c, hc, hyc⟩ := List.mem_flatMap.1 hy
    obtain ⟨d, hd, hyd⟩ := List.mem_flatMap.1 hz
    obtain ⟨slot, hslot, hr⟩ := h.reach_of_mem_statement he hb hn hc hyc
    obtain ⟨slot', hslot', hr'⟩ := h.reach_of_mem_value he hb hn hd hyd
    have hsame := h.treelike.eq_of_siblings hslot hslot' hr hr'
    rw [hsame] at hslot
    cases (h.treelike.single hslot hslot').2

/-- What comes after a block is not met in it. -/
theorem nodup_visitedChain (hn : 2 * arena.rank x + 1 ≤ n)
    (hblock : (arena.visitedBlock n b).Nodup)
    (hrest : ∀ c, arena.linked? x .next = some c → (arena.visitedChain n c).Nodup) :
    (arena.visitedChain (n + 1) x).Nodup := by
  have hlink := linked?_next_of_find? hb
  simp only [visitedChain, hb]
  cases hnext : b.next with
  | none => rwa [List.append_nil]
  | some next =>
    have hk : arena.linked? x .next = some next := hlink.trans hnext
    have hlt := h.rank_lt hk
    refine List.nodup_append.2 ⟨hblock, hrest next hk, ?_⟩
    intro y hy z hz heq
    subst heq
    obtain ⟨memBlock, memChain⟩ := h.mem_visited_iff he n
    have hbelow := (memChain next (h.present hk) (by omega) y).1 hz
    obtain rfl | ⟨j, c, hne, hj, hr⟩ := (memBlock x (mem_ids_of_find? hb) hn b hb y).1 hy
    · exact h.treelike.not_reach_of_edge ⟨_, hk⟩ hbelow
    · have hsame := h.treelike.eq_of_siblings hj hk hr hbelow
      rw [hsame] at hj
      exact hne (h.treelike.single hj hk).2

end Twice

/-- The walk meets no block twice. -/
theorem nodup_visited_of_le (h : arena.Forest) (he : arena.Ended) (n : Nat) :
    (∀ x ∈ arena.ids, 2 * arena.rank x + 1 ≤ n → ∀ b, arena.find? x = some b →
      (arena.visitedBlock n b).Nodup) ∧
    (∀ x ∈ arena.ids, 2 * arena.rank x + 2 ≤ n → (arena.visitedChain n x).Nodup) := by
  apply h.walk_induct
  · exact fun n x _ _ hn hchains hblocks b hb => h.nodup_visitedBlock he hb hn hchains hblocks
  · exact fun n x b hb hn hblock hrest => h.nodup_visitedChain he hb hn (hblock b hb) hrest

/-- The walk meets every block exactly once. -/
theorem visited_perm (h : arena.Forest) (hd : arena.ids.Nodup) (he : arena.Ended) :
    arena.visited.Perm arena.ids := by
  have htop : ∀ {x}, x ∈ arena.topLevel → x ∈ arena.ids ∧ LinkMap.Free arena.linked? x :=
    (h.tidy.mem_topLevel hd).1
  have hmem : ∀ {x y}, x ∈ arena.topLevel →
      (y ∈ arena.visitedChain arena.walkBound x ↔ LinkMap.Reach arena.linked? x y) :=
    fun {x y} hx => (h.mem_visited_iff he _).2 x (htop hx).1 (arena.rank_bound x) y
  rw [List.perm_ext_iff_of_nodup _ hd]
  · intro y
    rw [visited, List.mem_flatMap]
    constructor
    · rintro ⟨x, hx, hy⟩
      obtain rfl | ⟨p, _, k, hk⟩ := ((hmem hx).1 hy).cases_tail
      · exact (htop hx).1
      · exact h.present hk
    · intro hy
      obtain ⟨x, hx, hr⟩ := h.exists_top hd hy
      exact ⟨x, hx, (hmem hx).2 (h.tidy.reachable_iff.1 hr)⟩
  · rw [visited, List.nodup_flatMap]
    refine ⟨fun x hx => (h.nodup_visited_of_le he _).2 x (htop hx).1 (arena.rank_bound x), ?_⟩
    have hnodup : arena.topLevel.Nodup := hd.filter _
    apply hnodup.imp_of_mem
    intro x y hx hy hne z hzx hzy
    exact hne (h.treelike.eq_of_free (htop hx).2 (htop hy).2 ((hmem hx).1 hzx) ((hmem hy).1 hzy))

end Forest

end Arena

namespace Workspace

theorem storedStack?_eq_some {arena : Arena} {x : BlockId} {b : Block}
    (hb : arena.find? x = some b) :
    arena.storedStack? x = some ⟨b.position.x, b.position.y, arena.chain x⟩ := by
  rw [Arena.storedStack?, hb]
  rfl

/-- A snapshot tells about the blocks that the walk meets, in its order. -/
theorem written_save (w : Workspace) :
    w.save.written = w.arena.visited.filterMap w.arena.label? := by
  have hstack : ∀ x, ((w.arena.storedStack? x).toList.flatMap fun stack =>
      StoredBlock.writtenChain stack.blocks) =
      (w.arena.visitedChain w.arena.walkBound x).filterMap w.arena.label? := by
    intro x
    rw [← (Arena.written_stored w.arena w.arena.walkBound).2 x, Arena.storedStack?]
    cases hb : w.arena.find? x with
    | none =>
      show [] = _
      rw [show w.arena.walkBound = 2 * w.arena.length + 1 + 1 from rfl, Arena.storedChain, hb]
      rfl
    | some b => simp
  rw [Snapshot.written, save, Arena.visited, List.filterMap_flatMap]
  simp only [← hstack]
  induction w.arena.topLevel with
  | nil => rfl
  | cons x rest ih =>
    rw [List.filterMap_cons, List.flatMap_cons, ← ih]
    cases w.arena.storedStack? x with
    | none => rfl
    | some stack => simp

end Workspace

end BlockSketch
