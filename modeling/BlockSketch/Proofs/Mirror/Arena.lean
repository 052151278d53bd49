import BlockSketch.Proofs.Snapshot.Canonical
import BlockSketch.Proofs.Snapshot.Twin

/-!
Arenas that mirror each other. One arena mirrors another if its blocks can be
numbered differently, and listed in another order, so that it becomes the other
one: the kinds, fields and links agree (`Arena.Mirror`). Places on the canvas do
not matter here.

What an edit looks at, and what it does, is told by kinds, fields and links. So
each change of an arena has a lemma here that the same change on the other side
keeps the mirror, and each question about an arena has a lemma that the answer
on the other side is the same up to the numbers. Searches go through an arena in
an order that the numbers decide; what they find does not depend on it.
-/

namespace BlockSketch

namespace Arena

variable {f g : BlockId → BlockId} {A A' B B' : Arena} {x y c p : BlockId} {k j : Link}

/-- Two arenas that are the same up to the numbers of their blocks. -/
structure Mirror (f : BlockId → BlockId) (A A' : Arena) : Prop where
  bijective : Set.BijOn f {x | x ∈ A.ids} {x | x ∈ A'.ids}
  labels : ∀ x ∈ A.ids, A'.label? (f x) = A.label? x
  links : ∀ x ∈ A.ids, ∀ k, A'.linked? (f x) k = (A.linked? x k).map f

/-! ### What is told of a block -/

theorem label?_modify {t : Block → Block} (hid : ∀ b, (t b).id = b.id)
    (hkind : ∀ b, (t b).kind = b.kind) (hfields : ∀ b, (t b).fields = b.fields) (p x : BlockId) :
    (A.modify p t).label? x = A.label? x := by
  rw [label?, label?, find?_modify _ _ _ _ hid]
  cases A.find? x with
  | none => rfl
  | some b => by_cases h : b.id = p <;> simp [h, hkind, hfields]

theorem label?_setLink (A : Arena) (p : BlockId) (k : Link) (c : Option BlockId) (x : BlockId) :
    (A.setLink p k c).label? x = A.label? x :=
  label?_modify (fun _ => Block.id_withLink ..) (fun _ => Block.kind_withLink ..)
    (fun _ => Block.fields_withLink ..) p x

theorem label?_detach (A : Arena) (c x : BlockId) : (A.detach c).label? x = A.label? x := by
  unfold detach
  split
  · exact label?_setLink ..
  · rfl

theorem label?_closeGap (A : Arena) (b : Block) (x : BlockId) :
    (Workspace.closeGap A b).label? x = A.label? x := by
  unfold Workspace.closeGap
  split
  · exact label?_setLink ..
  · split
    · exact label?_modify (t := fun n => { n with position := b.position }) (fun _ => rfl)
        (fun _ => rfl) (fun _ => rfl) _ x
    · rfl

theorem mem_ids_append {b : Block} : x ∈ Arena.ids (A ++ [b]) ↔ x ∈ A.ids ∨ x = b.id := by
  simp [ids]

theorem setOf_mem_ids_append (A : Arena) (b : Block) :
    {x | x ∈ Arena.ids (A ++ [b])} = insert b.id {x | x ∈ A.ids} :=
  Set.ext fun _ => mem_ids_append.trans or_comm

theorem label?_append_of_mem (hx : x ∈ A.ids) {b : Block} :
    Arena.label? (A ++ [b]) x = A.label? x := by
  obtain ⟨d, hd⟩ := exists_find? hx
  rw [label?, label?, find?_append, hd]
  rfl

theorem label?_append_self {b : Block} (hb : b.id ∉ A.ids) :
    Arena.label? (A ++ [b]) b.id = some (b.kind, b.fields) := by
  rw [label?, find?_append, find?_eq_none.2 hb]
  simp [find?]

namespace Mirror

/-! ### Questions -/

theorem mem (h : Mirror f A A') (hx : x ∈ A.ids) : f x ∈ A'.ids :=
  h.bijective.mapsTo hx

theorem eq_of_eq (h : Mirror f A A') (hx : x ∈ A.ids) (hy : y ∈ A.ids) (heq : f x = f y) : x = y :=
  h.bijective.injOn hx hy heq

theorem exists_mem (h : Mirror f A A') (hy : y ∈ A'.ids) : ∃ x ∈ A.ids, f x = y :=
  h.bijective.surjOn hy

theorem find (h : Mirror f A A') {b : Block} (hb : A.find? x = some b) :
    ∃ b', A'.find? (f x) = some b' ∧ b'.kind = b.kind ∧ b'.fields = b.fields := by
  have hx := mem_ids_of_find? hb
  have hlabel := h.labels x hx
  rw [label?, label?, hb] at hlabel
  obtain ⟨b', hb', heq⟩ := Option.map_eq_some_iff.1 hlabel
  exact ⟨b', hb', (Prod.mk.inj heq).1, (Prod.mk.inj heq).2⟩

/-- What comes after a block has its counterpart after the counterpart. -/
theorem find_next (h : Mirror f A A') {b : Block} (hb : A.find? x = some b) :
    ∃ b', A'.find? (f x) = some b' ∧ b'.next = b.next.map f := by
  obtain ⟨b', hb', _⟩ := h.find hb
  have hlinks := h.links x (mem_ids_of_find? hb) .next
  rw [linked?_of_find? hb, linked?_of_find? hb'] at hlinks
  exact ⟨b', hb', hlinks⟩

theorem isRoot_eq (h : Mirror f A A') (hx : x ∈ A.ids) : A'.isRoot (f x) = A.isRoot x := by
  obtain ⟨b, hb⟩ := exists_find? hx
  obtain ⟨b', hb', hkind, _⟩ := h.find hb
  simp only [isRoot, hb, hb', Option.bind_some, Block.rootKind?, hkind]

/-- A link leads to a block on one side if its counterpart does on the other. -/
theorem linked_iff (h : Mirror f A A') (hf : A.Forest) (hx : x ∈ A.ids) (hc : c ∈ A.ids) :
    A'.linked? (f x) k = some (f c) ↔ A.linked? x k = some c := by
  rw [h.links x hx]
  constructor
  · intro heq
    obtain ⟨d, hd, heq⟩ := Option.map_eq_some_iff.1 heq
    rw [hd, h.eq_of_eq (hf.present hd) hc heq]
  · intro heq
    rw [heq, Option.map_some]

theorem reach (h : Mirror f A A') (hf : A.Forest) (hx : x ∈ A.ids)
    (hr : LinkMap.Reach A.linked? x y) : y ∈ A.ids ∧ LinkMap.Reach A'.linked? (f x) (f y) := by
  induction hr with
  | refl => exact ⟨hx, .refl⟩
  | tail _ hstep ih =>
    obtain ⟨k, hk⟩ := hstep
    obtain ⟨hy, hr⟩ := ih
    have hc := hf.present hk
    exact ⟨hc, hr.tail ⟨k, (h.linked_iff hf hy hc).2 hk⟩⟩

theorem exists_reach (h : Mirror f A A') (hf : A.Forest) (hx : x ∈ A.ids)
    (hr : LinkMap.Reach A'.linked? (f x) y) :
    ∃ z ∈ A.ids, f z = y ∧ LinkMap.Reach A.linked? x z := by
  induction hr with
  | refl => exact ⟨x, hx, rfl, .refl⟩
  | tail _ hstep ih =>
    obtain ⟨z, hz, rfl, hr⟩ := ih
    obtain ⟨k, hk⟩ := hstep
    rw [h.links z hz] at hk
    obtain ⟨d, hd, rfl⟩ := Option.map_eq_some_iff.1 hk
    exact ⟨d, hf.present hd, rfl, hr.tail ⟨k, hd⟩⟩

theorem reach_iff (h : Mirror f A A') (hf : A.Forest) (hx : x ∈ A.ids) (hy : y ∈ A.ids) :
    LinkMap.Reach A'.linked? (f x) (f y) ↔ LinkMap.Reach A.linked? x y := by
  constructor
  · intro hr
    obtain ⟨z, hz, heq, hr⟩ := h.exists_reach hf hx hr
    rwa [← h.eq_of_eq hz hy heq]
  · exact fun hr => (h.reach hf hx hr).2

theorem mem_descendants_iff (h : Mirror f A A') (hf : A.Forest) (hf' : A'.Forest) (hx : x ∈ A.ids)
    (hy : y ∈ A.ids) : f y ∈ A'.descendants (f x) ↔ y ∈ A.descendants x := by
  rw [hf.tidy.mem_descendants, hf'.tidy.mem_descendants, h.reach_iff hf hx hy]

/-- The search for the end of a chain goes through counterparts. -/
theorem lastFrom_eq (h : Mirror f A A') (hf : A.Forest) (seen : List BlockId)
    (hseen : ∀ y ∈ seen, y ∈ A.ids) (hx : x ∈ A.ids) :
    A'.lastFrom (seen.map f) (f x) = f (A.lastFrom seen x) := by
  fun_induction lastFrom A seen x with
  | case1 seen x hb => exact absurd hx (find?_eq_none.1 hb)
  | case2 seen x b hb hnext =>
    obtain ⟨b', hb', hnext'⟩ := h.find_next hb
    rw [hnext] at hnext'
    rw [lastFrom, hb']
    simp only [hnext', Option.map_none]
  | case3 seen x b hb next hnext hmem =>
    obtain ⟨b', hb', hnext'⟩ := h.find_next hb
    rw [hnext] at hnext'
    rw [lastFrom, hb']
    simp only [hnext', Option.map_some, dif_pos (List.mem_map_of_mem (f := f) hmem)]
  | case4 seen x b hb next hnext hmem ih =>
    obtain ⟨b', hb', hnext'⟩ := h.find_next hb
    rw [hnext] at hnext'
    have hmem' : f x ∉ seen.map f := by
      intro himage
      obtain ⟨y, hy, heq⟩ := List.mem_map.1 himage
      exact hmem (h.eq_of_eq (hseen y hy) hx heq ▸ hy)
    have hnextMem : next ∈ A.ids := by
      apply hf.present (a := x) (k := .next)
      rw [linked?_of_find? hb]
      exact hnext
    have hseen' : ∀ y ∈ x :: seen, y ∈ A.ids := by
      intro y hy
      obtain rfl | hy := List.mem_cons.1 hy
      · exact hx
      · exact hseen y hy
    rw [lastFrom, hb']
    simp only [hnext', Option.map_some, dif_neg hmem']
    exact ih hseen' hnextMem

theorem chainTail_eq (h : Mirror f A A') (hf : A.Forest) (hx : x ∈ A.ids) :
    A'.chainTail (f x) = f (A.chainTail x) :=
  h.lastFrom_eq hf [] nofun hx

/-! ### Changes -/

/-- Changes that leave numbers, kinds and fields alone keep the mirror if the
links agree again. -/
theorem rewire (h : Mirror f A A') (hi : B.ids = A.ids) (hi' : B'.ids = A'.ids)
    (hl : ∀ x, B.label? x = A.label? x) (hl' : ∀ x, B'.label? x = A'.label? x)
    (hk : ∀ x ∈ A.ids, ∀ k, B'.linked? (f x) k = (B.linked? x k).map f) : Mirror f B B' where
  bijective := by
    rw [hi, hi']
    exact h.bijective
  labels x hx := by
    rw [hi] at hx
    rw [hl, hl', h.labels x hx]
  links x hx := hk x (hi ▸ hx)

theorem setLink (h : Mirror f A A') (hp : p ∈ A.ids) (k : Link) (c : Option BlockId) :
    Mirror f (A.setLink p k c) (A'.setLink (f p) k (c.map f)) := by
  apply h.rewire (ids_setLink ..) (ids_setLink ..) (label?_setLink A p k c)
    (label?_setLink A' (f p) k (c.map f))
  intro x hx j
  rw [linked?_setLink hp, linked?_setLink (h.mem hp)]
  by_cases hk : x = p ∧ j = k
  · obtain ⟨rfl, rfl⟩ := hk
    rw [LinkMap.put_self, LinkMap.put_self]
  · have hk' : ¬ (f x = f p ∧ j = k) := fun heq => hk ⟨h.eq_of_eq hx hp heq.1, heq.2⟩
    rw [LinkMap.put_of_ne _ _ hk, LinkMap.put_of_ne _ _ hk', h.links x hx]

theorem detach (h : Mirror f A A') (hf : A.Forest) (hf' : A'.Forest) (hd : A.ids.Nodup)
    (hd' : A'.ids.Nodup) (hc : c ∈ A.ids) : Mirror f (A.detach c) (A'.detach (f c)) := by
  apply h.rewire (ids_detach ..) (ids_detach ..) (label?_detach A c) (label?_detach A' (f c))
  intro x hx k
  rw [hf.tidy.linked?_detach hd hf.treelike, hf'.tidy.linked?_detach hd' hf'.treelike]
  by_cases hk : A.linked? x k = some c
  · rw [if_pos hk, if_pos ((h.linked_iff hf hx hc).2 hk), Option.map_none]
  · rw [if_neg hk, if_neg (fun heq => hk ((h.linked_iff hf hx hc).1 heq)), h.links x hx]

theorem attach (h : Mirror f A A') (hf : A.Forest) (hf' : A'.Forest) (hd : A.ids.Nodup)
    (hd' : A'.ids.Nodup) (hp : p ∈ A.ids) (hc : c ∈ A.ids) (k : Link) :
    Mirror f (Workspace.attach A p k c) (Workspace.attach A' (f p) k (f c)) :=
  (h.detach hf hf' hd hd' hc).setLink (by rwa [ids_detach]) k (some c)

theorem closeGap (h : Mirror f A A') (hf : A.Forest) (hf' : A'.Forest) (hd : A.ids.Nodup)
    (hd' : A'.ids.Nodup) {b b' : Block} (hb : A.find? x = some b) (hb' : A'.find? (f x) = some b') :
    Mirror f (Workspace.closeGap A b) (Workspace.closeGap A' b') := by
  have hx := mem_ids_of_find? hb
  have hnext : b'.next = b.next.map f := by
    obtain ⟨d, hd, hnext⟩ := h.find_next hb
    rw [hb', Option.some_inj] at hd
    rwa [hd]
  apply h.rewire (ids_of_outline (outline_closeGap A b)) (ids_of_outline (outline_closeGap A' b'))
    (label?_closeGap A b) (label?_closeGap A' b')
  intro y hy k
  rw [hf.linked?_closeGap hd, hf'.linked?_closeGap hd', id_of_find? hb, id_of_find? hb', hnext]
  by_cases hk : A.linked? y k = some x
  · rw [if_pos hk, if_pos ((h.linked_iff hf hy hx).2 hk)]
  · rw [if_neg hk, if_neg (fun heq => hk ((h.linked_iff hf hy hx).1 heq)), h.links y hy]

theorem remove (h : Mirror f A A') {gone gone' : List BlockId}
    (hgone : ∀ x ∈ A.ids, f x ∈ gone' ↔ x ∈ gone) : Mirror f (A.remove gone) (A'.remove gone') := by
  have hmem : ∀ {x}, x ∈ (A.remove gone).ids ↔ x ∈ A.ids ∧ x ∉ gone := by
    intro x
    rw [ids_remove, List.mem_filter, decide_eq_true_eq]
  have hmem' : ∀ {x}, x ∈ (A'.remove gone').ids ↔ x ∈ A'.ids ∧ x ∉ gone' := by
    intro x
    rw [ids_remove, List.mem_filter, decide_eq_true_eq]
  refine ⟨⟨?_, ?_, ?_⟩, ?_, ?_⟩
  · intro x hx
    obtain ⟨hx, hstays⟩ := hmem.1 hx
    exact hmem'.2 ⟨h.mem hx, fun hgo => hstays ((hgone x hx).1 hgo)⟩
  · intro x hx y hy heq
    exact h.eq_of_eq (hmem.1 hx).1 (hmem.1 hy).1 heq
  · intro y hy
    obtain ⟨hy, hstays⟩ := hmem'.1 hy
    obtain ⟨x, hx, rfl⟩ := h.exists_mem hy
    exact ⟨x, hmem.2 ⟨hx, fun hgo => hstays ((hgone x hx).2 hgo)⟩, rfl⟩
  · intro x hx
    obtain ⟨hx, hstays⟩ := hmem.1 hx
    have hstays' : f x ∉ gone' := fun hgo => hstays ((hgone x hx).1 hgo)
    have hlabel := h.labels x hx
    rw [label?, label?] at hlabel
    rw [label?, label?, find?_remove, find?_remove, if_neg hstays, if_neg hstays', hlabel]
  · intro x hx k
    obtain ⟨hx, hstays⟩ := hmem.1 hx
    have hstays' : f x ∉ gone' := fun hgo => hstays ((hgone x hx).1 hgo)
    rw [linked?_remove, linked?_remove, LinkMap.without, LinkMap.without, if_neg hstays,
      if_neg hstays', h.links x hx]

/-- Counterparts are changed in the same way. -/
theorem modify (h : Mirror f A A') {t : Block → Block} (hid : ∀ b, (t b).id = b.id)
    (hkind : ∀ b, (t b).kind = b.kind)
    (hfields : ∀ b b', b'.fields = b.fields → (t b').fields = (t b).fields)
    (hlinked : ∀ b k, (t b).linked? k = b.linked? k) (hx : x ∈ A.ids) :
    Mirror f (A.modify x t) (A'.modify (f x) t) := by
  refine ⟨?_, ?_, ?_⟩
  · rw [ids_modify _ _ _ hid, ids_modify _ _ _ hid]
    exact h.bijective
  · intro y hy
    rw [ids_modify _ _ _ hid] at hy
    obtain ⟨b, hb⟩ := exists_find? hy
    obtain ⟨b', hb', hkind', hfields'⟩ := h.find hb
    rw [label?, label?, find?_modify _ _ _ _ hid, find?_modify _ _ _ _ hid, hb, hb']
    simp only [Option.map_some, id_of_find? hb, id_of_find? hb']
    by_cases hyx : y = x
    · simp [hyx, hkind, hkind', hfields _ _ hfields']
    · have hyx' : f y ≠ f x := fun heq => hyx (h.eq_of_eq hy hx heq)
      rw [if_neg hyx, if_neg hyx', hkind', hfields']
  · intro y hy k
    rw [ids_modify _ _ _ hid] at hy
    rw [linked?_modify hid hlinked, linked?_modify hid hlinked, h.links y hy]

/-- A correspondence may be changed for numbers that no block has. -/
theorem congr (h : Mirror f A A') (hf : A.Forest) (heq : ∀ x ∈ A.ids, g x = f x) :
    Mirror g A A' where
  bijective := h.bijective.congr fun x hx => (heq x hx).symm
  labels x hx := by rw [heq x hx, h.labels x hx]
  links x hx k := by
    rw [heq x hx, h.links x hx]
    cases hk : A.linked? x k with
    | none => rfl
    | some c => rw [Option.map_some, Option.map_some, heq c (hf.present hk)]

/-- A block of the same kind is added on both sides. -/
theorem append (h : Mirror f A A') {b b' : Block} (hb : b.id ∉ A.ids)
    (hb' : b'.id ∉ A'.ids) (hid : f b.id = b'.id) (hkind : b'.kind = b.kind)
    (hfields : b'.fields = b.fields) (hfree : ∀ k, b.linked? k = none)
    (hfree' : ∀ k, b'.linked? k = none) : Mirror f (A ++ [b]) (A' ++ [b']) := by
  refine ⟨?_, ?_, ?_⟩
  · rw [setOf_mem_ids_append, setOf_mem_ids_append, ← hid]
    exact h.bijective.insert (hid ▸ hb')
  · intro x hx
    obtain hx | rfl := mem_ids_append.1 hx
    · rw [label?_append_of_mem hx, label?_append_of_mem (h.mem hx), h.labels x hx]
    · rw [hid, label?_append_self hb, label?_append_self hb', hkind, hfields]
  · intro x hx k
    rw [linked?_append_of_free _ hfree, linked?_append_of_free _ hfree']
    obtain hx | rfl := mem_ids_append.1 hx
    · exact h.links x hx k
    · rw [hid, linked?_eq_none_of_not_mem hb, linked?_eq_none_of_not_mem hb']
      rfl

end Mirror

/-! ### What is deleted -/

/-- What hangs from the slots of a block has its counterparts in the slots of the
counterpart. -/
theorem Mirror.mem_plugged_iff (h : Mirror f A A') (hf : A.Forest) (hf' : A'.Forest) {b b' : Block}
    (hb : A.find? x = some b) (hb' : A'.find? (f x) = some b') (hy : y ∈ A.ids) :
    f y ∈ b'.plugged.flatMap A'.descendants ↔ y ∈ b.plugged.flatMap A.descendants := by
  have hx := mem_ids_of_find? hb
  rw [hf.mem_flatMap_plugged hb, hf'.mem_flatMap_plugged hb']
  constructor
  · rintro ⟨k, hne, c', hk, hr⟩
    rw [h.links x hx] at hk
    obtain ⟨c, hc, rfl⟩ := Option.map_eq_some_iff.1 hk
    exact ⟨k, hne, c, hc, (h.reach_iff hf (hf.present hc) hy).1 hr⟩
  · rintro ⟨k, hne, c, hk, hr⟩
    have hc := hf.present hk
    exact ⟨k, hne, f c, (h.linked_iff hf hx hc).2 hk, (h.reach_iff hf hc hy).2 hr⟩

end Arena

end BlockSketch
