import BlockSketch.Proofs.Graph.Accepted

/-!
The shape that every edit keeps. `Arena.Forest` says that the links of an arena
are those of a forest, that they lead to blocks that are there, and that none of
these is a root; `Workspace.Coherent` adds the numbering of the blocks and that
no root is there twice. Nothing is said about roots that are missing, because a
program that is being read back has none at first.

A workspace that comes out of another one by an edit is its `Successor`: it is
coherent again, has at least the roots that the first one had, and every block
in it is an old one or has a number that was not given before. Being a successor
composes, so that what holds of one edit holds of any run.
-/

namespace BlockSketch

namespace Arena

open LinkMap

variable {arena arena' : Arena} {a b c p x : BlockId} {k : Link}

/-! ### Outlines

What a target of a link is asked for is its number and its kind. Edits that
leave these alone are the same thing in this respect. -/

def outline (arena : Arena) : List (BlockId × String) :=
  arena.map fun b => (b.id, b.kind)

def rootCount (arena : Arena) (root : RootKind) : Nat :=
  arena.countP fun b => b.kind = root.kindName

theorem ids_of_outline (h : arena'.outline = arena.outline) : arena'.ids = arena.ids := by
  have := congrArg (List.map Prod.fst) h
  simpa [outline, ids, Function.comp_def] using this

theorem rootCount_of_outline (h : arena'.outline = arena.outline) (root : RootKind) :
    arena'.rootCount root = arena.rootCount root := by
  have := congrArg (List.countP fun entry => decide (entry.2 = root.kindName)) h
  simpa [outline, rootCount, List.countP_map, Function.comp_def] using this

theorem root?_of_outline (h : arena'.outline = arena.outline) (root : RootKind) :
    arena'.root? root = arena.root? root := by
  have hfirst : ∀ arena : Arena, arena.root? root =
      (arena.outline.find? fun entry => entry.2 = root.kindName).map Prod.fst := by
    intro arena
    rw [root?, outline, List.find?_map, Option.map_map]
    rfl
  rw [hfirst, hfirst, h]

theorem isRoot_eq_outline (arena : Arena) (x : BlockId) :
    arena.isRoot x =
      ((arena.outline.find? fun entry => entry.1 = x).bind fun entry =>
        RootKind.ofKindName? entry.2).isSome := by
  rw [outline, List.find?_map, isRoot, find?]
  simp only [Function.comp_def]
  cases List.find? (fun b : Block => decide (b.id = x)) arena <;> rfl

theorem isRoot_of_outline (h : arena'.outline = arena.outline) (x : BlockId) :
    arena'.isRoot x = arena.isRoot x := by
  rw [isRoot_eq_outline, isRoot_eq_outline, h]

theorem outline_modify (arena : Arena) (p : BlockId) {f : Block → Block}
    (hid : ∀ b, (f b).id = b.id) (hkind : ∀ b, (f b).kind = b.kind) :
    (arena.modify p f).outline = arena.outline := by
  rw [outline, outline, modify, List.map_map]
  apply List.map_congr_left
  intro b _
  by_cases h : b.id = p <;> simp [h, hid, hkind]

@[simp] theorem outline_setLink (arena : Arena) (p : BlockId) (k : Link) (c : Option BlockId) :
    (arena.setLink p k c).outline = arena.outline :=
  outline_modify arena p (fun b => Block.id_withLink b k c) fun b => Block.kind_withLink b k c

@[simp] theorem outline_detach (arena : Arena) (c : BlockId) :
    (arena.detach c).outline = arena.outline := by
  unfold detach
  split
  · exact outline_setLink ..
  · rfl

/-- A root is there if it is there at least once. -/
theorem root?_eq_none {root : RootKind} : arena.root? root = none ↔ arena.rootCount root = 0 := by
  simp [root?, rootCount, List.countP_eq_zero]

theorem find?_of_root? (hd : arena.ids.Nodup) {root : RootKind} (h : arena.root? root = some x) :
    ∃ b, arena.find? x = some b ∧ b.kind = root.kindName := by
  obtain ⟨b, hb, rfl⟩ := Option.map_eq_some_iff.1 h
  have hkind := List.find?_some hb
  exact ⟨b, find?_of_mem hd (List.mem_of_find?_eq_some hb), by simpa using hkind⟩

/-! ### Forests -/

/-- The links of an arena are those of a forest, and lead to blocks that are
there and are no roots. -/
structure Forest (arena : Arena) : Prop where
  tidy : arena.Tidy
  treelike : LinkMap.Treelike arena.linked?
  present : ∀ {a : BlockId} {k : Link} {c : BlockId},
    arena.linked? a k = some c → c ∈ arena.ids
  rootsFree : ∀ {a : BlockId} {k : Link} {c : BlockId},
    arena.linked? a k = some c → arena.isRoot c = false

/-- The numbers of the blocks go up and stay below a bound. -/
structure Numbered (arena : Arena) (bound : Nat) : Prop where
  increasing : arena.ids.Pairwise fun a b => a.index < b.index
  below : ∀ id ∈ arena.ids, id.index < bound

theorem Numbered.nodup {bound : Nat} (h : arena.Numbered bound) : arena.ids.Nodup := by
  apply h.increasing.imp
  rintro a b hlt rfl
  exact Nat.lt_irrefl _ hlt

theorem Numbered.not_mem {bound n : Nat} (h : arena.Numbered bound) (hn : bound ≤ n) :
    (⟨n⟩ : BlockId) ∉ arena.ids := by
  intro hmem
  exact absurd (h.below _ hmem) (Nat.not_lt.2 hn)

theorem Numbered.of_outline {bound : Nat} (h : arena.Numbered bound)
    (ho : arena'.outline = arena.outline) : arena'.Numbered bound := by
  have hids := ids_of_outline ho
  exact ⟨hids ▸ h.increasing, hids ▸ h.below⟩

/-- A new block gets the next number. -/
theorem Numbered.add {n : Nat} (h : arena.Numbered n) {b : Block} (hid : b.id = ⟨n⟩) :
    Numbered (arena ++ [b]) (n + 1) := by
  have hids : ids (arena ++ [b]) = arena.ids ++ [⟨n⟩] := by
    rw [ids, List.map_append, List.map_singleton, hid]
    rfl
  refine ⟨?_, fun x hx => ?_⟩
  · rw [hids, List.pairwise_append]
    refine ⟨h.increasing, List.pairwise_singleton .., fun a ha b hb => ?_⟩
    rw [List.mem_singleton.1 hb]
    exact h.below a ha
  · rw [hids] at hx
    obtain hx | hx := List.mem_append.1 hx
    · exact Nat.lt_succ_of_lt (h.below x hx)
    · rw [List.mem_singleton.1 hx]
      exact Nat.lt_succ_self n

/-- Taking blocks out leaves the numbers of the others. -/
theorem Numbered.remove {n : Nat} (h : arena.Numbered n) (gone : List BlockId) :
    (arena.remove gone).Numbered n := by
  have hids := ids_remove arena gone
  refine ⟨?_, fun x hx => ?_⟩
  · rw [hids]
    exact h.increasing.filter _
  · rw [hids] at hx
    exact h.below x (List.mem_filter.1 hx).1

@[simp] theorem outline_attach (arena : Arena) (p : BlockId) (k : Link) (c : BlockId) :
    (Workspace.attach arena p k c).outline = arena.outline := by
  rw [Workspace.attach, outline_setLink, outline_detach]

theorem linked?_attach (hp : p ∈ arena.ids) (k : Link) (c : BlockId) :
    (Workspace.attach arena p k c).linked? =
      LinkMap.put (arena.detach c).linked? p k (some c) := by
  rw [Workspace.attach, linked?_setLink (by rwa [ids_detach])]

theorem outline_closeGap (arena : Arena) (b : Block) :
    (Workspace.closeGap arena b).outline = arena.outline := by
  unfold Workspace.closeGap
  split
  · exact outline_setLink ..
  · split
    · exact outline_modify arena _ (fun _ => rfl) fun _ => rfl
    · rfl

namespace Forest

/-- Rewiring keeps a forest if the links do and lead to blocks that links may
lead to. -/
theorem rewire (h : arena.Forest) (ho : arena'.outline = arena.outline) (ht : arena'.Tidy)
    (hf : LinkMap.Treelike arena'.linked?)
    (hlinks : ∀ {a k c}, arena'.linked? a k = some c →
      arena.linked? a k = some c ∨ c ∈ arena.ids ∧ arena.isRoot c = false) : arena'.Forest where
  tidy := ht
  treelike := hf
  present hk := by
    rw [ids_of_outline ho]
    obtain hk | hk := hlinks hk
    · exact h.present hk
    · exact hk.1
  rootsFree hk := by
    rw [isRoot_of_outline ho]
    obtain hk | hk := hlinks hk
    · exact h.rootsFree hk
    · exact hk.2

/-- Changing what is no link. -/
theorem modify (h : arena.Forest) {f : Block → Block} (hid : ∀ b, (f b).id = b.id)
    (hkind : ∀ b, (f b).kind = b.kind) (htidy : ∀ b, b.Tidy → (f b).Tidy)
    (hlinks : ∀ b k, (f b).linked? k = b.linked? k) (p : BlockId) : (arena.modify p f).Forest := by
  have heq : (arena.modify p f).linked? = arena.linked? := linked?_modify hid hlinks p
  apply h.rewire (outline_modify arena p hid hkind) (h.tidy.modify htidy p)
  · rw [heq]
    exact h.treelike
  · intro a k c hk
    rw [heq] at hk
    exact .inl hk

theorem detach (h : arena.Forest) (hd : arena.ids.Nodup) (c : BlockId) :
    (arena.detach c).Forest := by
  have hsub := h.tidy.detach_sub hd h.treelike c
  exact h.rewire (outline_detach arena c) (h.tidy.detach c) (h.treelike.mono hsub)
    fun hk => .inl (hsub hk)

/-! #### Attaching -/

theorem tidy_attach (h : arena.Forest) (p : BlockId) (k : Link) (c : BlockId) :
    (Workspace.attach arena p k c).Tidy :=
  (h.tidy.detach c).setLink p k (some c)

/-- A block is attached, and what stood in its place is left alone. -/
theorem attach (h : arena.Forest) (hd : arena.ids.Nodup) (hp : p ∈ arena.ids) (hc : c ∈ arena.ids)
    (hroot : arena.isRoot c = false) (hbelow : ¬ arena.Reachable c p) (k : Link) :
    (Workspace.attach arena p k c).Forest := by
  have hsub := h.tidy.detach_sub hd h.treelike c
  have hfree := h.tidy.detach_free hd h.treelike c
  rw [h.tidy.reachable_iff] at hbelow
  apply h.rewire (outline_attach arena p k c) (h.tidy_attach p k c)
  · rw [linked?_attach hp]
    exact (h.treelike.mono hsub).put hfree fun hr => hbelow (hsub.reach hr)
  · intro a j d hj
    rw [linked?_attach hp] at hj
    by_cases ha : a = p ∧ j = k
    · obtain ⟨rfl, rfl⟩ := ha
      rw [put_self, Option.some_inj] at hj
      exact .inr (hj ▸ ⟨hc, hroot⟩)
    · rw [put_of_ne _ _ ha] at hj
      exact .inl (hsub hj)

/-- The end of a chain is there if its head is. -/
theorem chainTail_mem (h : arena.Forest) (hc : c ∈ arena.ids) : arena.chainTail c ∈ arena.ids := by
  have htail := h.tidy.reachable_iff.1 (reachable_chainTail arena c)
  obtain heq | ⟨q, _, j, hj⟩ := htail.cases_tail
  · rw [heq]
    exact hc
  · exact h.present hj

/-- The links after a block has been attached and something has gone to the end of
its chain. -/
theorem linked?_splice (h : arena.Forest) (hp : p ∈ arena.ids) (hc : c ∈ arena.ids) (k : Link)
    (v : Option BlockId) :
    ((Workspace.attach arena p k c).setLink (arena.chainTail c) .next v).linked? =
      LinkMap.put (LinkMap.put (arena.detach c).linked? p k (some c)) (arena.chainTail c) .next
        v := by
  have htail := h.chainTail_mem hc
  rw [← ids_of_outline (outline_attach arena p k c)] at htail
  rw [linked?_setLink htail, linked?_attach hp]

/-- A chain is attached, and what stood in its place goes to its end. -/
theorem splice (h : arena.Forest) (hd : arena.ids.Nodup) (hp : p ∈ arena.ids) (hc : c ∈ arena.ids)
    (hroot : arena.isRoot c = false) (hbelow : ¬ arena.Reachable c p)
    (hdisplaced : arena.linked? p k = some x) (hne : x ≠ c) :
    ((Workspace.attach arena p k c).setLink (arena.chainTail c) .next (some x)).Forest := by
  have hsub := h.tidy.detach_sub hd h.treelike c
  have hfree := h.tidy.detach_free hd h.treelike c
  have htail := h.tidy.reachable_iff.1 (reachable_chainTail arena c)
  rw [h.tidy.reachable_iff] at hbelow
  have hmap := h.linked?_splice hp hc k (some x)
  apply h.rewire (by rw [outline_setLink, outline_attach]) ((h.tidy_attach p k c).setLink _ _ _)
  · rw [hmap]
    exact h.treelike.splice hsub hfree hbelow hdisplaced hne htail
  · intro a j d hj
    rw [hmap] at hj
    by_cases ht : a = arena.chainTail c ∧ j = .next
    · rw [ht.1, ht.2, put_self, Option.some_inj] at hj
      exact .inr (hj ▸ ⟨h.present hdisplaced, h.rootsFree hdisplaced⟩)
    · rw [put_of_ne _ _ ht] at hj
      by_cases ha : a = p ∧ j = k
      · rw [ha.1, ha.2, put_self, Option.some_inj] at hj
        exact .inr (hj ▸ ⟨hc, hroot⟩)
      · rw [put_of_ne _ _ ha] at hj
        exact .inl (hsub hj)

/-! #### Adding and deleting -/

/-- A new block with a new number and nothing attached. -/
theorem add (h : arena.Forest) {b : Block} (htidy : b.Tidy) (hlinks : ∀ k, b.linked? k = none) :
    Forest (arena ++ [b]) := by
  have heq := linked?_append_of_free arena hlinks
  have hids : ∀ {c : BlockId}, c ∈ arena.ids → c ∈ Arena.ids (arena ++ [b]) := by
    intro c hc
    rw [ids, List.map_append]
    exact List.mem_append_left _ hc
  refine ⟨?_, by rw [heq]; exact h.treelike, ?_, ?_⟩
  · intro d hd
    obtain hd | hd := List.mem_append.1 hd
    · exact h.tidy d hd
    · rwa [List.mem_singleton.1 hd]
  · intro a k c hk
    rw [heq] at hk
    exact hids (h.present hk)
  · intro a k c hk
    rw [heq] at hk
    obtain ⟨d, hd⟩ := exists_find? (h.present hk)
    have hroot := h.rootsFree hk
    rw [isRoot, hd] at hroot
    rw [isRoot, find?_append, hd]
    exact hroot

theorem tidy_closeGap (h : arena.Forest) (b : Block) : (Workspace.closeGap arena b).Tidy := by
  unfold Workspace.closeGap
  split
  · exact h.tidy.setLink _ _ _
  · split
    · exact h.tidy.modify (f := fun n => { n with position := b.position })
        (fun _ hb => ⟨hb.statements, hb.values⟩) _
    · exact h.tidy

/-- What came after a block is attached where the block was. -/
theorem linked?_closeGap (h : arena.Forest) (hd : arena.ids.Nodup) (b : Block) (a : BlockId)
    (k : Link) :
    (Workspace.closeGap arena b).linked? a k =
      if arena.linked? a k = some b.id then b.next else arena.linked? a k := by
  unfold Workspace.closeGap
  split
  · rename_i p j hp
    have hj := h.tidy.linked?_of_parent? hd hp
    rw [linked?_setLink (mem_ids_of_linked? hj)]
    by_cases ha : a = p ∧ k = j
    · obtain ⟨rfl, rfl⟩ := ha
      rw [put_self, if_pos hj]
    · rw [put_of_ne _ _ ha, if_neg]
      exact fun hk => ha (h.treelike.single hk hj)
  · rename_i hp
    rw [if_neg (h.tidy.free_of_parent?_eq_none hp a k)]
    split
    · rw [linked?_modify (f := fun n => { n with position := b.position }) (fun _ => rfl)]
      intro n k
      cases k <;> rfl
    · rfl

/-- What hangs from the slots of a block. -/
theorem mem_flatMap_plugged (h : arena.Forest) {b : Block} (hb : arena.find? a = some b) :
    x ∈ b.plugged.flatMap arena.descendants ↔
      ∃ k, k ≠ .next ∧ ∃ c, arena.linked? a k = some c ∧ LinkMap.Reach arena.linked? c x := by
  rw [List.mem_flatMap]
  constructor
  · rintro ⟨c, hc, hx⟩
    obtain ⟨k, hne, hk⟩ := (h.tidy b (mem_of_find? hb)).mem_plugged.1 hc
    rw [← linked?_of_find? hb] at hk
    exact ⟨k, hne, c, hk, h.tidy.mem_descendants.1 hx⟩
  · rintro ⟨k, hne, c, hk, hx⟩
    rw [linked?_of_find? hb] at hk
    exact ⟨c, (h.tidy b (mem_of_find? hb)).mem_plugged.2 ⟨k, hne, hk⟩,
      h.tidy.mem_descendants.2 hx⟩

/-- No root hangs from a slot. -/
theorem any_isRoot_plugged (h : arena.Forest) {b : Block} (hb : arena.find? a = some b) :
    ¬ (b.plugged.flatMap arena.descendants).any arena.isRoot := by
  intro hany
  obtain ⟨x, hx, hroot⟩ := List.any_eq_true.1 hany
  obtain ⟨k, _, c, hk, hr⟩ := (h.mem_flatMap_plugged hb).1 hx
  obtain rfl | ⟨q, _, j, hj⟩ := hr.cases_tail
  · rw [h.rootsFree hk] at hroot
    cases hroot
  · rw [h.rootsFree hj] at hroot
    cases hroot

/-- Links out of what is left of an arena do not lead into what hangs from the
slots of a block that is gone. -/
theorem not_below_slots (h : arena.Forest) {b : Block} (hb : arena.find? b.id = some b)
    (hne : a ≠ b.id) (ha : a ∉ b.plugged.flatMap arena.descendants)
    (hk : arena.linked? a k = some c) : c ∉ b.plugged.flatMap arena.descendants := by
  rw [h.mem_flatMap_plugged hb] at ha ⊢
  rintro ⟨j, hj, d, hbd, hdc⟩
  by_cases hdne : d = c
  · subst hdne
    exact hne (h.treelike.single hk hbd).1
  · exact ha ⟨j, hj, d, hbd, h.treelike.reach_parent hdc hdne ⟨k, hk⟩⟩

/-- What comes after a block does not hang from its slots. -/
theorem next_not_below_slots (h : arena.Forest) {b : Block} (hb : arena.find? b.id = some b)
    (hnext : b.next = some c) : c ≠ b.id ∧ c ∉ b.plugged.flatMap arena.descendants := by
  have hk : arena.linked? b.id .next = some c := (linked?_next_of_find? hb).trans hnext
  constructor
  · rintro rfl
    exact h.treelike.not_reach_of_edge ⟨_, hk⟩ .refl
  · rw [h.mem_flatMap_plugged hb]
    rintro ⟨j, hj, d, hbd, hdc⟩
    by_cases hdne : d = c
    · subst hdne
      exact hj (h.treelike.single hbd hk).2
    · exact h.treelike.not_reach_of_edge ⟨j, hbd⟩ (h.treelike.reach_parent hdc hdne ⟨_, hk⟩)

/-- What a deletion leaves of the links: those of blocks that stay, with what
came after the block in its place. -/
theorem linked?_delete (h : arena.Forest) (hd : arena.ids.Nodup) (b : Block)
    (hk : ((Workspace.closeGap arena b).remove
      (b.id :: b.plugged.flatMap arena.descendants)).linked? a k = some c) :
    (a ≠ b.id ∧ a ∉ b.plugged.flatMap arena.descendants) ∧
      (arena.linked? a k = some b.id ∧ b.next = some c ∨
        arena.linked? a k = some c ∧ c ≠ b.id) := by
  rw [linked?_remove, without] at hk
  split at hk
  · cases hk
  · rename_i hgone
    rw [List.mem_cons, not_or] at hgone
    rw [h.linked?_closeGap hd] at hk
    split at hk
    · exact ⟨hgone, .inl ⟨‹_›, hk⟩⟩
    · refine ⟨hgone, .inr ⟨hk, ?_⟩⟩
      rintro rfl
      contradiction

theorem treelike_delete (h : arena.Forest) (hd : arena.ids.Nodup) {b : Block}
    (hb : arena.find? b.id = some b) :
    LinkMap.Treelike ((Workspace.closeGap arena b).remove
      (b.id :: b.plugged.flatMap arena.descendants)).linked? := by
  by_cases hpar : ∃ p j, arena.linked? p j = some b.id
  · -- The block hung at a link, which leads now to what came after it.
    obtain ⟨p, j, hj⟩ := hpar
    cases hnext : b.next with
    | none =>
      apply h.treelike.mono
      intro a k c hk
      obtain ⟨_, ⟨_, hc⟩ | ⟨hc, _⟩⟩ := h.linked?_delete hd b hk
      · rw [hnext] at hc
        cases hc
      · exact hc
    | some n =>
      have hn : arena.linked? b.id .next = some n := (linked?_next_of_find? hb).trans hnext
      apply (h.treelike.closeGap hj hn).mono
      intro a k c hk
      obtain ⟨⟨hab, _⟩, ⟨hak, hc⟩ | ⟨hac, hne⟩⟩ := h.linked?_delete hd b hk
      · obtain ⟨rfl, rfl⟩ := h.treelike.single hak hj
        rw [put_self, ← hc, hnext]
      · have hpk : ¬ (a = p ∧ k = j) := by
          rintro ⟨rfl, rfl⟩
          rw [hj, Option.some_inj] at hac
          exact hne hac.symm
        rw [put_of_ne _ _ hpk, without, if_neg (by simpa using hab)]
        exact hac
  · -- No link led to the block, so there is none to be redirected.
    apply h.treelike.mono
    intro a k c hk
    obtain ⟨_, ⟨hc, _⟩ | ⟨hc, _⟩⟩ := h.linked?_delete hd b hk
    · exact absurd ⟨a, k, hc⟩ hpar
    · exact hc

/-- A block is deleted with everything in its slots. What is linked afterwards was
linked before, and is not among what goes. -/
theorem delete (h : arena.Forest) (hd : arena.ids.Nodup) {b : Block}
    (hb : arena.find? b.id = some b) :
    ((Workspace.closeGap arena b).remove (b.id :: b.plugged.flatMap arena.descendants)).Forest := by
  have hlinks : ∀ {a k c}, ((Workspace.closeGap arena b).remove
      (b.id :: b.plugged.flatMap arena.descendants)).linked? a k = some c →
      (∃ e j, arena.linked? e j = some c) ∧
        c ∉ b.id :: b.plugged.flatMap arena.descendants := by
    intro a k c hk
    rw [List.mem_cons, not_or]
    obtain ⟨hgone, ⟨_, hnext⟩ | ⟨hac, hne⟩⟩ := h.linked?_delete hd b hk
    · exact ⟨⟨b.id, .next, (linked?_next_of_find? hb).trans hnext⟩,
        h.next_not_below_slots hb hnext⟩
    · exact ⟨⟨a, k, hac⟩, hne, h.not_below_slots hb hgone.1 hgone.2 hac⟩
  refine ⟨(h.tidy_closeGap b).remove _, h.treelike_delete hd hb, ?_, ?_⟩
  · intro a k c hk
    obtain ⟨⟨e, j, hj⟩, hc⟩ := hlinks hk
    rw [ids_remove, ids_of_outline (outline_closeGap arena b), List.mem_filter]
    exact ⟨h.present hj, decide_eq_true hc⟩
  · intro a k c hk
    obtain ⟨⟨e, j, hj⟩, hc⟩ := hlinks hk
    have hroot := h.rootsFree hj
    rw [← isRoot_of_outline (outline_closeGap arena b)] at hroot
    rw [isRoot, find?_remove, if_neg hc]
    exact hroot

end Forest

end Arena

namespace Workspace

variable {w : Workspace} {id : BlockId}

/-! ### Types of blocks -/

theorem find?_outline (arena : Arena) (x : BlockId) :
    arena.outline.find? (fun entry => entry.1 = x) =
      (arena.find? x).map fun b => (b.id, b.kind) := by
  rw [Arena.outline, List.find?_map]
  rfl

theorem typeOf_of_outline {arena : Arena} (ho : arena.outline = w.arena.outline) (x : BlockId) :
    (w.withArena arena).typeOf x = w.typeOf x := by
  have hfind : (arena.find? x).map (fun b => (b.id, b.kind)) =
      (w.arena.find? x).map fun b => (b.id, b.kind) := by
    rw [← find?_outline, ← find?_outline, ho]
  have hblock : ∀ v : Workspace, v.typeOf x = match (v.arena.find? x).map fun b => (b.id, b.kind) with
      | some entry => v.registry.lookup entry.2
      | none => .error (.blockNotFound x) := by
    intro v
    rw [typeOf, block, block?]
    cases v.arena.find? x <;> rfl
  rw [hblock, hblock, ← hfind]
  rfl

theorem typeOf_of_find? {b : Block} {type : BlockType} (hb : w.arena.find? id = some b)
    (ht : w.registry.get? b.kind = some type) : w.typeOf id = .ok type :=
  typeOf_eq_ok.2 ⟨b, hb, ht⟩

theorem typeOf_unique {type type' : BlockType} (h : w.typeOf id = .ok type)
    (h' : w.typeOf id = .ok type') : type = type' := by
  rw [h] at h'
  exact Except.ok.inj h'

end Workspace

end BlockSketch
