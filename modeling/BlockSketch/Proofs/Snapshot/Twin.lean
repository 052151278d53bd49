import BlockSketch.Proofs.Snapshot.Walk
import Mathlib.Data.List.Zip
import Mathlib.Data.Set.Function

/-!
Programs with the same snapshot. Two such programs are the same up to the
numbers of their blocks, and up to the places of blocks that are inside others,
which mean nothing (`Workspace.Twin`). The correspondence is found from above:
the first block at the top level on one side belongs to the first one on the
other side, the second to the second, and what is attached to two blocks that
belong together at the same link belongs together (`Arena.Paired`). That a block
is attached in one place only makes this a function, in both directions.
-/

namespace BlockSketch

namespace Arena

variable {A A' : Arena} {x x' y y' c c' : BlockId} {k : Link}

/-- Two blocks that stand in the same place. -/
inductive Paired (A A' : Arena) : BlockId → BlockId → Prop
  | top {x x' : BlockId} : (x, x') ∈ A.topLevel.zip A'.topLevel → Paired A A' x x'
  | link {x x' c c' : BlockId} {k : Link} :
    Paired A A' x x' → A.linked? x k = some c → A'.linked? x' k = some c' → Paired A A' c c'

structure Alike (A A' : Arena) : Prop where
  forest : A.Forest
  nodup : A.ids.Nodup
  ended : A.Ended
  forest' : A'.Forest
  nodup' : A'.ids.Nodup
  ended' : A'.Ended
  same_stacks : A.topLevel.map A.storedStack? = A'.topLevel.map A'.storedStack?

theorem mem_zip_swap {α β : Type} {l : List α} {l' : List β} {a : α} {b : β}
    (h : (a, b) ∈ l.zip l') : (b, a) ∈ l'.zip l := by
  rw [← List.zip_swap]
  exact List.mem_map.2 ⟨(a, b), h, rfl⟩

theorem eq_of_mem_zip {α β : Type} {l : List α} {l' : List β} (hd : l.Nodup) {a : α} {b b' : β}
    (h : (a, b) ∈ l.zip l') (h' : (a, b') ∈ l.zip l') : b = b' := by
  induction l generalizing l' with
  | nil => cases h
  | cons first rest ih =>
    cases l' with
    | nil => cases h
    | cons first' rest' =>
      rw [List.nodup_cons] at hd
      rw [List.zip_cons_cons, List.mem_cons, Prod.mk.injEq] at h h'
      obtain ⟨rfl, rfl⟩ | h := h
      · obtain ⟨_, rfl⟩ | h' := h'
        · rfl
        · exact absurd (List.of_mem_zip h').1 hd.1
      · obtain ⟨rfl, _⟩ | h' := h'
        · exact absurd (List.of_mem_zip h).1 hd.1
        · exact ih hd.2 h h'

theorem eq_of_mem_zip_self {α : Type} {l : List α} {a b : α} (h : (a, b) ∈ l.zip l) : a = b := by
  induction l with
  | nil => cases h
  | cons first rest ih =>
    rw [List.zip_cons_cons, List.mem_cons, Prod.mk.injEq] at h
    obtain ⟨rfl, rfl⟩ | h := h
    · rfl
    · exact ih h

theorem exists_mem_zip {α β : Type} {l : List α} {l' : List β} (hlen : l.length = l'.length)
    {a : α} (h : a ∈ l) : ∃ b, (a, b) ∈ l.zip l' := by
  rw [← List.map_fst_zip (Nat.le_of_eq hlen)] at h
  obtain ⟨⟨_, b⟩, hmem, rfl⟩ := List.mem_map.1 h
  exact ⟨b, hmem⟩

theorem map_eq_of_mem_zip {α β : Type} {l : List α} {l' : List β} (hlen : l.length = l'.length)
    {f : α → β} (h : ∀ a b, (a, b) ∈ l.zip l' → f a = b) : l' = l.map f := by
  calc l' = (l.zip l').map Prod.snd := (List.map_snd_zip (Nat.le_of_eq hlen.symm)).symm
    _ = (l.zip l').map (f ∘ Prod.fst) := List.map_congr_left fun p hp => (h p.1 p.2 hp).symm
    _ = l.map f := by rw [← List.map_map, List.map_fst_zip (Nat.le_of_eq hlen)]

theorem Paired.symm (h : Paired A A' x x') : Paired A' A x' x := by
  induction h with
  | top h => exact .top (mem_zip_swap h)
  | link _ hk hk' ih => exact .link ih hk' hk

namespace Alike

theorem symm (h : Alike A A') : Alike A' A :=
  ⟨h.forest', h.nodup', h.ended', h.forest, h.nodup, h.ended, h.same_stacks.symm⟩

theorem length_topLevel (h : Alike A A') : A.topLevel.length = A'.topLevel.length := by
  have := congrArg List.length h.same_stacks
  rwa [List.length_map, List.length_map] at this

/-- Two blocks look the same from where they stand downwards. -/
def Same (A A' : Arena) (x x' : BlockId) : Prop :=
  ∃ b b', A.find? x = some b ∧ A'.find? x' = some b' ∧ A.tree b = A'.tree b' ∧ A.rest b = A'.rest b'

theorem same_of_chain_eq (h : Alike A A') (hx : x ∈ A.ids) (hx' : x' ∈ A'.ids)
    (hc : A.chain x = A'.chain x') : Same A A' x x' := by
  obtain ⟨b, hb⟩ := exists_find? hx
  obtain ⟨b', hb'⟩ := exists_find? hx'
  rw [h.forest.chain_eq hb, h.forest'.chain_eq hb', List.cons.injEq] at hc
  exact ⟨b, b', hb, hb', hc⟩

/-- The stacks at two corresponding places are the same. -/
theorem stack_eq (h : Alike A A') (hx : (x, x') ∈ A.topLevel.zip A'.topLevel) :
    A.storedStack? x = A'.storedStack? x' := by
  have hzip : (A.storedStack? x, A'.storedStack? x') ∈
      (A.topLevel.map A.storedStack?).zip (A'.topLevel.map A'.storedStack?) := by
    rw [List.zip_map]
    exact List.mem_map.2 ⟨(x, x'), hx, rfl⟩
  rw [h.same_stacks] at hzip
  exact eq_of_mem_zip_self hzip

theorem mem_ids_of_mem_zip (h : Alike A A') (hx : (x, x') ∈ A.topLevel.zip A'.topLevel) :
    x ∈ A.ids ∧ x' ∈ A'.ids := by
  obtain ⟨hx, hx'⟩ := List.of_mem_zip hx
  exact ⟨((h.forest.tidy.mem_topLevel h.nodup).1 hx).1,
    ((h.forest'.tidy.mem_topLevel h.nodup').1 hx').1⟩

/-- What is attached to two blocks that look the same looks the same. -/
theorem same_link (h : Alike A A') (hs : Same A A' x x') (hk : A.linked? x k = some c)
    (hk' : A'.linked? x' k = some c') : Same A A' c c' := by
  obtain ⟨b, b', hb, hb', htree, hrest⟩ := hs
  have hc := h.forest.present hk
  have hc' := h.forest'.present hk'
  obtain ⟨hstatements, hvalues⟩ := h.forest'.distinct_tree hb'
  cases k with
  | next =>
    apply h.same_of_chain_eq hc hc'
    rw [linked?_of_find? hb] at hk
    rw [linked?_of_find? hb'] at hk'
    have hnext : b.next = some c := hk
    have hnext' : b'.next = some c' := hk'
    rwa [rest, rest, hnext, hnext'] at hrest
  | statement slot =>
    apply h.same_of_chain_eq hc hc'
    have hmem := (h.forest.mem_statements hb).2 ⟨c, hk, rfl⟩
    have hmem' := (h.forest'.mem_statements hb').2 ⟨c', hk', rfl⟩
    rw [htree] at hmem
    exact Entries.eq_of_mem hstatements hmem hmem'
  | value slot =>
    obtain ⟨d, hd⟩ := exists_find? hc
    obtain ⟨d', hd'⟩ := exists_find? hc'
    have hmem := (h.forest.mem_values hb).2 ⟨c, d, hk, hd, rfl⟩
    have hmem' := (h.forest'.mem_values hb').2 ⟨c', d', hk', hd', rfl⟩
    rw [htree] at hmem
    refine ⟨d, d', hd, hd', Entries.eq_of_mem hvalues hmem hmem', ?_⟩
    -- Nothing comes after an expression, so that only the trees need to be compared.
    have hend : d.next = none := by
      have := h.ended hk
      rwa [linked?_of_find? hd] at this
    have hend' : d'.next = none := by
      have := h.ended' hk'
      rwa [linked?_of_find? hd'] at this
    rw [rest, rest, hend, hend']

/-- Where something is attached on one side, something is on the other. -/
theorem exists_link (h : Alike A A') (hs : Same A A' x x') (hk : A.linked? x k = some c) :
    ∃ c', A'.linked? x' k = some c' := by
  obtain ⟨b, b', hb, hb', htree, hrest⟩ := hs
  have hc := h.forest.present hk
  cases k with
  | next =>
    rw [linked?_of_find? hb] at hk
    have hnext : b.next = some c := hk
    cases hnext' : b'.next with
    | some c' => exact ⟨c', by rw [linked?_of_find? hb']; exact hnext'⟩
    | none =>
      rw [rest, rest, hnext, hnext'] at hrest
      exact absurd hrest (h.forest.chain_ne_nil hc)
  | statement slot =>
    have hmem := (h.forest.mem_statements hb).2 ⟨c, hk, rfl⟩
    rw [htree] at hmem
    obtain ⟨c', hk', _⟩ := (h.forest'.mem_statements hb').1 hmem
    exact ⟨c', hk'⟩
  | value slot =>
    obtain ⟨d, hd⟩ := exists_find? hc
    have hmem := (h.forest.mem_values hb).2 ⟨c, d, hk, hd, rfl⟩
    rw [htree] at hmem
    obtain ⟨c', _, hk', _⟩ := (h.forest'.mem_values hb').1 hmem
    exact ⟨c', hk'⟩

theorem same_of_paired (h : Alike A A') (hp : Paired A A' x x') : Same A A' x x' := by
  induction hp with
  | @top x x' hx =>
    obtain ⟨hmem, hmem'⟩ := h.mem_ids_of_mem_zip hx
    have hstack := h.stack_eq hx
    obtain ⟨b, hb⟩ := exists_find? hmem
    obtain ⟨b', hb'⟩ := exists_find? hmem'
    rw [Workspace.storedStack?_eq_some hb, Workspace.storedStack?_eq_some hb', Option.some_inj,
      StoredStack.mk.injEq] at hstack
    exact h.same_of_chain_eq hmem hmem' hstack.2.2
  | link _ hk hk' ih => exact h.same_link ih hk hk'

/-- A block stands in the place of one other block. -/
theorem paired_unique (h : Alike A A') (hp : Paired A A' x y) (hp' : Paired A A' x y') :
    y = y' := by
  have hfree : ∀ {x x'}, (x, x') ∈ A.topLevel.zip A'.topLevel → LinkMap.Free A.linked? x :=
    fun hx => ((h.forest.tidy.mem_topLevel h.nodup).1 (List.of_mem_zip hx).1).2
  induction hp generalizing y' with
  | top hx =>
    cases hp' with
    | top hx' => exact eq_of_mem_zip (h.nodup.filter _) hx hx'
    | link _ hk _ => exact absurd hk (hfree hx _ _)
  | link hp hk hk' ih =>
    cases hp' with
    | top hx' => exact absurd hk (hfree hx' _ _)
    | link hq hj hj' =>
      obtain ⟨rfl, rfl⟩ := h.forest.treelike.single hk hj
      obtain rfl := ih hq
      rw [hk'] at hj'
      exact Option.some_inj.1 hj'

/-- Every block has one that stands in its place. -/
theorem exists_paired (h : Alike A A') (hx : x ∈ A.ids) : ∃ x', Paired A A' x x' := by
  obtain ⟨top, htop, hr⟩ := h.forest.exists_top h.nodup hx
  clear hx
  induction hr with
  | refl =>
    obtain ⟨top', hzip⟩ := exists_mem_zip h.length_topLevel htop
    exact ⟨top', .top hzip⟩
  | @step b c hab hbc ih =>
    obtain ⟨k, hk⟩ := h.forest.tidy.linked_iff.1 hbc
    obtain ⟨b', hb'⟩ := ih
    obtain ⟨c', hc'⟩ := h.exists_link (h.same_of_paired hb') hk
    exact ⟨c', .link hb' hk hc'⟩

theorem mem_ids_of_paired (h : Alike A A') (hp : Paired A A' x x') : x ∈ A.ids ∧ x' ∈ A'.ids := by
  obtain ⟨b, b', hb, hb', _⟩ := h.same_of_paired hp
  exact ⟨mem_ids_of_find? hb, mem_ids_of_find? hb'⟩

/-! ### The other side -/

/-- The block that stands in the place of one on the other side. -/
noncomputable def counterpart (A A' : Arena) (x : BlockId) : BlockId :=
  Classical.epsilon (Paired A A' x)

theorem counterpart_eq (h : Alike A A') (hp : Paired A A' x x') : counterpart A A' x = x' :=
  h.paired_unique (Classical.epsilon_spec ⟨x', hp⟩) hp

theorem paired_counterpart (h : Alike A A') (hx : x ∈ A.ids) :
    Paired A A' x (counterpart A A' x) :=
  Classical.epsilon_spec (h.exists_paired hx)

theorem bijOn_counterpart (h : Alike A A') :
    Set.BijOn (counterpart A A') {x | x ∈ A.ids} {x | x ∈ A'.ids} := by
  refine ⟨fun x hx => (h.mem_ids_of_paired (h.paired_counterpart hx)).2, ?_, ?_⟩
  · intro x hx y hy heq
    have hpaired := h.paired_counterpart hx
    rw [heq] at hpaired
    exact h.symm.paired_unique hpaired.symm (h.paired_counterpart hy).symm
  · intro x' hx'
    obtain ⟨x, hx⟩ := h.symm.exists_paired hx'
    exact ⟨x, (h.mem_ids_of_paired hx.symm).1, h.counterpart_eq hx.symm⟩

theorem find?_counterpart (h : Alike A A') {b : Block} (hb : A.find? x = some b) :
    ∃ b', A'.find? (counterpart A A' x) = some b' ∧ b'.kind = b.kind ∧ b'.fields = b.fields := by
  obtain ⟨d, d', hd, hd', htree, _⟩ :=
    h.same_of_paired (h.paired_counterpart (mem_ids_of_find? hb))
  rw [hb, Option.some_inj] at hd
  subst hd
  rw [h.forest.tree_eq hb, h.forest'.tree_eq hd', StoredBlock.mk.injEq] at htree
  exact ⟨d', hd', htree.1.symm, htree.2.1.symm⟩

theorem linked?_counterpart (h : Alike A A') (hx : x ∈ A.ids) (k : Link) :
    A'.linked? (counterpart A A' x) k = (A.linked? x k).map (counterpart A A') := by
  have hpaired := h.paired_counterpart hx
  cases hk : A.linked? x k with
  | some c =>
    obtain ⟨c', hc'⟩ := h.exists_link (h.same_of_paired hpaired) hk
    rw [hc', Option.map_some, h.counterpart_eq (.link hpaired hk hc')]
  | none =>
    cases hk' : A'.linked? (counterpart A A' x) k with
    | none => rfl
    | some c' =>
      obtain ⟨c, hc⟩ := h.symm.exists_link (h.symm.same_of_paired hpaired.symm) hk'
      rw [hk] at hc
      cases hc

theorem topLevel_counterpart (h : Alike A A') :
    A'.topLevel = A.topLevel.map (counterpart A A') :=
  map_eq_of_mem_zip h.length_topLevel fun _ _ hx => h.counterpart_eq (.top hx)

theorem position_counterpart (h : Alike A A') (hx : x ∈ A.topLevel) {b b' : Block}
    (hb : A.find? x = some b) (hb' : A'.find? (counterpart A A' x) = some b') :
    b'.position = b.position := by
  obtain ⟨x', hzip⟩ := exists_mem_zip h.length_topLevel hx
  have hstack := h.stack_eq hzip
  rw [h.counterpart_eq (.top hzip)] at hb'
  rw [Workspace.storedStack?_eq_some hb, Workspace.storedStack?_eq_some hb', Option.some_inj,
    StoredStack.mk.injEq] at hstack
  have hposition : ∀ p q : Position, p.x = q.x → p.y = q.y → q = p := by
    rintro ⟨_, _⟩ ⟨_, _⟩ rfl rfl
    rfl
  exact hposition _ _ hstack.1 hstack.2.1

end Alike

end Arena

namespace Workspace

/-- Two programs that are the same up to the numbers of their blocks, and up to
the places of blocks that are inside others. -/
structure Twin (f : BlockId → BlockId) (w w' : Workspace) : Prop where
  board : w'.board = w.board
  bijective : Set.BijOn f {x | x ∈ w.arena.ids} {x | x ∈ w'.arena.ids}
  blocks : ∀ {x b}, w.arena.find? x = some b →
    ∃ b', w'.arena.find? (f x) = some b' ∧ b'.kind = b.kind ∧ b'.fields = b.fields
  links : ∀ x ∈ w.arena.ids, ∀ k, w'.arena.linked? (f x) k = (w.arena.linked? x k).map f
  topLevel : w'.arena.topLevel = w.arena.topLevel.map f
  positions : ∀ x ∈ w.arena.topLevel, ∀ {b b'}, w.arena.find? x = some b →
    w'.arena.find? (f x) = some b' → b'.position = b.position

open Arena in
/-- Arenas with the same stacks on the same board belong to twins. -/
theorem exists_twin {w w' : Workspace} (h : Alike w.arena w'.arena) (hb : w'.board = w.board) :
    ∃ f, w.Twin f w' :=
  ⟨Alike.counterpart w.arena w'.arena, {
    board := hb
    bijective := h.bijOn_counterpart
    blocks := h.find?_counterpart
    links := fun _ hx k => h.linked?_counterpart hx k
    topLevel := h.topLevel_counterpart
    positions := fun _ hx {_ _} hb hb' => h.position_counterpart hx hb hb' }⟩

end Workspace

end BlockSketch
