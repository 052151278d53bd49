import BlockSketch.Proofs.Graph.Links
import BlockSketch.Proofs.Graph.Search

/-!
Arenas and their link maps. What an edit does to the list of blocks is
translated here, once, into what it does to the link function: setting a link
replaces one value, taking blocks out empties theirs, a new block has none.
The other direction is needed as well, because the searches and `parent?` go
over the lists of children; it holds as long as no block has two slots of one
name, which is what `Block.Tidy` says.
-/

namespace BlockSketch

/-! ### One block -/

namespace Block

variable {b : Block} {c : BlockId} {k : Link}

/-- No two statement slots have one name, and no two value slots. -/
structure Tidy (b : Block) : Prop where
  statements : b.statements.Distinct
  values : b.values.Distinct

theorem Tidy.withLink (h : b.Tidy) (k : Link) (c : Option BlockId) : (b.withLink k c).Tidy := by
  cases k with
  | next => exact ⟨h.statements, h.values⟩
  | statement slot => exact ⟨Entries.distinct_insert h.statements slot c, h.values⟩
  | value slot => exact ⟨h.statements, Entries.distinct_insert h.values slot c⟩

/-- A filled slot of one name is what the name leads to. -/
theorem join_get?_eq_some {slots : Entries (Option BlockId)} (h : slots.Distinct) {slot : String} :
    (slots.get? slot).join = some c ↔ (slot, some c) ∈ slots := by
  rw [← Entries.get?_eq_some h]
  cases slots.get? slot <;> simp

theorem Tidy.mem_plugged (h : b.Tidy) :
    c ∈ b.plugged ↔ ∃ k, k ≠ .next ∧ b.linked? k = some c := by
  simp only [plugged, List.mem_append, List.mem_filterMap]
  constructor
  · rintro (⟨⟨slot, _⟩, hs, rfl⟩ | ⟨⟨slot, _⟩, hs, rfl⟩)
    · exact ⟨.statement slot, nofun, (join_get?_eq_some h.statements).2 hs⟩
    · exact ⟨.value slot, nofun, (join_get?_eq_some h.values).2 hs⟩
  · rintro ⟨k, hne, hk⟩
    cases k with
    | next => exact absurd rfl hne
    | statement slot =>
      exact .inl ⟨(slot, some c), (join_get?_eq_some h.statements).1 hk, rfl⟩
    | value slot =>
      exact .inr ⟨(slot, some c), (join_get?_eq_some h.values).1 hk, rfl⟩

theorem Tidy.mem_children (h : b.Tidy) : c ∈ b.children ↔ ∃ k, b.linked? k = some c := by
  rw [children, List.mem_append, Option.mem_toList, h.mem_plugged]
  constructor
  · rintro (hn | ⟨k, _, hk⟩)
    · exact ⟨.next, hn⟩
    · exact ⟨k, hk⟩
  · rintro ⟨k, hk⟩
    by_cases hn : k = .next
    · subst hn
      exact .inl hk
    · exact .inr ⟨k, hn, hk⟩

theorem nodup_filled {slots : Entries (Option BlockId)} (h : slots.Distinct)
    (hsingle : ∀ {n m c}, (n, some c) ∈ slots → (m, some c) ∈ slots → n = m) :
    (slots.filterMap Prod.snd).Nodup := by
  rw [List.Nodup, List.pairwise_filterMap]
  rw [Entries.Distinct, Entries.names, List.Nodup, List.pairwise_map] at h
  apply h.imp_of_mem
  rintro ⟨n, u⟩ ⟨m, v⟩ hn hm hne c hc d hd rfl
  have hu : u = some c := hc
  have hv : v = some c := hd
  subst hu hv
  exact hne (hsingle hn hm)

/-- The children of a block are different if its links lead to different
blocks. -/
theorem Tidy.nodup_children (h : b.Tidy)
    (hsingle : ∀ {k j c}, b.linked? k = some c → b.linked? j = some c → k = j) :
    b.children.Nodup := by
  have hs {n c} : (n, some c) ∈ b.statements → b.linked? (.statement n) = some c :=
    (join_get?_eq_some h.statements).2
  have hv {n c} : (n, some c) ∈ b.values → b.linked? (.value n) = some c :=
    (join_get?_eq_some h.values).2
  have hplugged : b.plugged.Nodup := by
    rw [plugged, List.nodup_append]
    refine ⟨nodup_filled h.statements ?_, nodup_filled h.values ?_, ?_⟩
    · intro n m c hn hm
      simpa using hsingle (hs hn) (hs hm)
    · intro n m c hn hm
      simpa using hsingle (hv hn) (hv hm)
    · intro c hc d hd heq
      obtain ⟨⟨n, _⟩, hn, rfl⟩ := List.mem_filterMap.1 hc
      obtain ⟨⟨m, _⟩, hm, rfl⟩ := List.mem_filterMap.1 hd
      subst heq
      cases hsingle (hs hn) (hv hm)
  rw [children, List.nodup_append]
  refine ⟨by cases b.next <;> simp, hplugged, ?_⟩
  intro c hc d hd heq
  subst heq
  obtain ⟨k, hne, hk⟩ := h.mem_plugged.1 hd
  exact hne (hsingle hk (Option.mem_toList.1 hc))

theorem Tidy.linked?_of_linkTo? (h : b.Tidy) (hk : b.linkTo? c = some k) :
    b.linked? k = some c := by
  unfold linkTo? at hk
  split at hk
  · rename_i hnext
    cases hk
    exact hnext
  · split at hk
    · rename_i entry hfind
      cases hk
      have hval : entry.2 = some c := by simpa using List.find?_some hfind
      exact (join_get?_eq_some h.statements).2 (hval ▸ List.mem_of_find?_eq_some hfind)
    · split at hk
      · rename_i entry hfind
        cases hk
        have hval : entry.2 = some c := by simpa using List.find?_some hfind
        exact (join_get?_eq_some h.values).2 (hval ▸ List.mem_of_find?_eq_some hfind)
      · cases hk

theorem Tidy.linkTo?_eq_none (h : b.Tidy) : b.linkTo? c = none ↔ ∀ k, b.linked? k ≠ some c := by
  constructor
  · intro hnone k hk
    unfold linkTo? at hnone
    split at hnone
    · cases hnone
    · rename_i hnext
      split at hnone
      · cases hnone
      · rename_i hs
        split at hnone
        · cases hnone
        · rename_i hv
          rw [List.find?_eq_none] at hs hv
          cases k with
          | next => exact hnext hk
          | statement slot => simpa using hs _ ((join_get?_eq_some h.statements).1 hk)
          | value slot => simpa using hv _ ((join_get?_eq_some h.values).1 hk)
  · intro hall
    cases hk : b.linkTo? c with
    | none => rfl
    | some k => exact absurd (h.linked?_of_linkTo? hk) (hall k)

end Block

namespace Arena

open LinkMap

variable {arena : Arena} {a b c p x : BlockId} {k : Link}

/-! ### Looking up after a change -/

theorem mem_ids {id : BlockId} : id ∈ arena.ids ↔ ∃ b ∈ arena, b.id = id :=
  List.mem_map

theorem mem_ids_of_find? {b : Block} (h : arena.find? x = some b) : x ∈ arena.ids :=
  mem_ids.2 ⟨b, mem_of_find? h, id_of_find? h⟩

theorem exists_find? (h : x ∈ arena.ids) : ∃ b, arena.find? x = some b :=
  Option.isSome_iff_exists.1 (find?_isSome.2 h)

theorem find?_eq_none : arena.find? x = none ↔ x ∉ arena.ids := by
  rw [← find?_isSome, Option.not_isSome_iff_eq_none]

/-- A block is what its number leads to, if numbers occur once. -/
theorem find?_of_mem (hd : arena.ids.Nodup) {b : Block} (h : b ∈ arena) :
    arena.find? b.id = some b := by
  induction arena with
  | nil => cases h
  | cons d rest ih =>
    rw [ids, List.map_cons, List.nodup_cons] at hd
    obtain rfl | h := List.mem_cons.1 h
    · simp [find?]
    · have hne : d.id ≠ b.id := fun he => hd.1 (he ▸ List.mem_map_of_mem (f := Block.id) h)
      rw [find?, List.find?_cons_of_neg (by simpa using hne)]
      exact ih hd.2 h

theorem find?_append (arena more : Arena) (x : BlockId) :
    Arena.find? (arena ++ more) x = (arena.find? x).or (Arena.find? more x) :=
  List.find?_append

theorem find?_modify (arena : Arena) (p x : BlockId) (f : Block → Block)
    (hf : ∀ b, (f b).id = b.id) :
    (arena.modify p f).find? x = (arena.find? x).map fun b => if b.id = p then f b else b := by
  have hpred : ((fun b => decide (b.id = x)) ∘ fun b => if b.id = p then f b else b) =
      fun b => decide (b.id = x) := by
    funext b
    by_cases h : b.id = p <;> simp [h, hf]
  rw [find?, modify, List.find?_map, hpred]
  rfl

theorem find?_setLink_self {b : Block} (hb : arena.find? p = some b) (k : Link)
    (c : Option BlockId) : (arena.setLink p k c).find? p = some (b.withLink k c) := by
  rw [setLink, find?_modify _ _ _ _ fun _ => Block.id_withLink .., hb, Option.map_some,
    if_pos (id_of_find? hb)]

theorem find?_setLink_of_ne (h : x ≠ p) (k : Link) (c : Option BlockId) :
    (arena.setLink p k c).find? x = arena.find? x := by
  rw [setLink, find?_modify _ _ _ _ fun _ => Block.id_withLink ..]
  cases hb : arena.find? x with
  | none => rfl
  | some b => rw [Option.map_some, if_neg (id_of_find? hb ▸ h)]

theorem find?_remove (arena : Arena) (gone : List BlockId) (x : BlockId) :
    (arena.remove gone).find? x = if x ∈ gone then none else arena.find? x := by
  rw [find?, remove, List.find?_filter]
  by_cases h : x ∈ gone
  · rw [if_pos h, List.find?_eq_none]
    intro b _ hb
    simp only [decide_eq_true_eq] at hb
    exact hb.1 (hb.2 ▸ h)
  · have hpred : (fun b : Block => decide (decide (b.id ∉ gone) = true ∧ decide (b.id = x) = true)) =
        fun b => decide (b.id = x) := by
      funext b
      by_cases hb : b.id = x <;> simp [hb, h]
    rw [if_neg h, hpred]
    rfl

theorem ids_remove (arena : Arena) (gone : List BlockId) :
    (arena.remove gone).ids = arena.ids.filter fun id => id ∉ gone := by
  rw [ids, ids, remove, List.filter_map]
  rfl

/-! ### The link map of a changed arena -/

theorem linked?_of_find? {b : Block} (h : arena.find? a = some b) (k : Link) :
    arena.linked? a k = b.linked? k := by
  rw [linked?, h]
  rfl

theorem linked?_next_of_find? {b : Block} (h : arena.find? a = some b) :
    arena.linked? a .next = b.next :=
  linked?_of_find? h .next

theorem mem_ids_of_linked? (h : arena.linked? a k = some c) : a ∈ arena.ids := by
  obtain ⟨b, hb, _⟩ := Option.bind_eq_some_iff.1 h
  exact mem_ids_of_find? hb

theorem linked?_eq_none_of_not_mem (h : a ∉ arena.ids) (k : Link) : arena.linked? a k = none := by
  rw [linked?, find?_eq_none.2 h]
  rfl

theorem linked?_setLink (hp : p ∈ arena.ids) (k : Link) (c : Option BlockId) :
    (arena.setLink p k c).linked? = LinkMap.put arena.linked? p k c := by
  funext a j
  rw [linked?, setLink, find?_modify _ _ _ _ (fun b => Block.id_withLink b k c), put]
  cases hb : arena.find? a with
  | none =>
    have ha : ¬ (a = p ∧ j = k) := fun h => find?_eq_none.1 hb (h.1 ▸ hp)
    rw [if_neg ha, linked?, hb]
    rfl
  | some b =>
    have hid := id_of_find? hb
    rw [linked?_of_find? hb]
    by_cases ha : a = p <;> simp [hid, ha]

/-- A change that leaves the links of a block as they are. -/
theorem linked?_modify {f : Block → Block} (hid : ∀ b, (f b).id = b.id)
    (hf : ∀ b k, (f b).linked? k = b.linked? k) (p : BlockId) :
    (arena.modify p f).linked? = arena.linked? := by
  funext a j
  rw [linked?, linked?, find?_modify _ _ _ _ hid]
  cases arena.find? a with
  | none => rfl
  | some b => by_cases h : b.id = p <;> simp [h, hf]

theorem linked?_remove (arena : Arena) (gone : List BlockId) :
    (arena.remove gone).linked? = LinkMap.without arena.linked? gone := by
  funext a j
  rw [linked?, find?_remove, without]
  split <;> rfl

/-- A new block without links adds none. -/
theorem linked?_append_of_free (arena : Arena) {b : Block} (hb : ∀ k, b.linked? k = none) :
    Arena.linked? (arena ++ [b]) = arena.linked? := by
  funext a j
  rw [linked?, linked?, find?_append]
  cases arena.find? a with
  | some d => rfl
  | none =>
    by_cases h : b.id = a
    · simp [find?, h, hb]
    · simp [find?, h]

/-! ### Children, parents and links -/

def Tidy (arena : Arena) : Prop :=
  ∀ b ∈ arena, b.Tidy

theorem Tidy.modify (h : arena.Tidy) {f : Block → Block} (hf : ∀ b, b.Tidy → (f b).Tidy)
    (p : BlockId) : (arena.modify p f).Tidy := by
  intro b hb
  obtain ⟨d, hd, rfl⟩ := List.mem_map.1 hb
  split
  · exact hf d (h d hd)
  · exact h d hd

theorem Tidy.setLink (h : arena.Tidy) (p : BlockId) (k : Link) (c : Option BlockId) :
    (arena.setLink p k c).Tidy :=
  h.modify (fun _ hb => hb.withLink k c) p

theorem Tidy.remove (h : arena.Tidy) (gone : List BlockId) : (arena.remove gone).Tidy :=
  fun b hb => h b (List.mem_filter.1 hb).1

theorem Tidy.linked_iff (h : arena.Tidy) : arena.Linked a c ↔ LinkMap.Edge arena.linked? a c := by
  constructor
  · rintro ⟨b, hb, hc⟩
    obtain ⟨k, hk⟩ := (h b (mem_of_find? hb)).mem_children.1 hc
    exact ⟨k, by rwa [linked?_of_find? hb]⟩
  · rintro ⟨k, hk⟩
    obtain ⟨b, hb, hk⟩ := Option.bind_eq_some_iff.1 hk
    exact ⟨b, hb, (h b (mem_of_find? hb)).mem_children.2 ⟨k, hk⟩⟩

theorem Tidy.reachable_iff (h : arena.Tidy) :
    arena.Reachable a c ↔ LinkMap.Reach arena.linked? a c := by
  constructor
  · intro hr
    induction hr with
    | refl => exact .refl
    | step _ hstep ih => exact ih.tail (h.linked_iff.1 hstep)
  · intro hr
    induction hr with
    | refl => exact .refl
    | tail _ hstep ih => exact ih.step (h.linked_iff.2 hstep)

theorem Tidy.mem_descendants (h : arena.Tidy) :
    c ∈ arena.descendants a ↔ LinkMap.Reach arena.linked? a c := by
  rw [Arena.mem_descendants, h.reachable_iff]

theorem Tidy.linked?_of_parent? (h : arena.Tidy) (hd : arena.ids.Nodup)
    (hp : arena.parent? c = some (p, k)) : arena.linked? p k = some c := by
  obtain ⟨b, hb, hk⟩ := List.exists_of_findSome?_eq_some hp
  obtain ⟨k', hk', heq⟩ := Option.map_eq_some_iff.1 hk
  cases heq
  rw [linked?_of_find? (find?_of_mem hd hb)]
  exact (h b hb).linked?_of_linkTo? hk'

theorem Tidy.free_of_parent?_eq_none (h : arena.Tidy) (hp : arena.parent? c = none) :
    LinkMap.Free arena.linked? c := by
  intro a k hk
  obtain ⟨b, hb, hk⟩ := Option.bind_eq_some_iff.1 hk
  have hmem := mem_of_find? hb
  have hnone := List.findSome?_eq_none_iff.1 hp b hmem
  rw [Option.map_eq_none_iff, (h b hmem).linkTo?_eq_none] at hnone
  exact hnone k hk

/-- The parent of a block that hangs from one place. -/
theorem Tidy.parent?_eq_some (h : arena.Tidy) (hd : arena.ids.Nodup)
    (hf : LinkMap.Treelike arena.linked?) :
    arena.parent? c = some (p, k) ↔ arena.linked? p k = some c := by
  refine ⟨h.linked?_of_parent? hd, fun hk => ?_⟩
  cases hp : arena.parent? c with
  | none => exact absurd hk (h.free_of_parent?_eq_none hp p k)
  | some parent =>
    obtain ⟨q, j⟩ := parent
    obtain ⟨rfl, rfl⟩ := hf.single (h.linked?_of_parent? hd hp) hk
    rfl

/-! ### Detaching -/

@[simp] theorem ids_detach (arena : Arena) (c : BlockId) : (arena.detach c).ids = arena.ids := by
  unfold detach
  split
  · exact ids_setLink ..
  · rfl

theorem Tidy.detach (h : arena.Tidy) (c : BlockId) : (arena.detach c).Tidy := by
  unfold Arena.detach
  split
  · exact h.setLink _ _ _
  · exact h

theorem Tidy.detach_of_free (h : arena.Tidy) (hd : arena.ids.Nodup)
    (hc : LinkMap.Free arena.linked? c) : arena.detach c = arena := by
  unfold Arena.detach
  split
  · exact absurd (h.linked?_of_parent? hd ‹_›) (hc _ _)
  · rfl

theorem Tidy.detach_of_linked? (h : arena.Tidy) (hd : arena.ids.Nodup)
    (hf : LinkMap.Treelike arena.linked?) (hk : arena.linked? p k = some c) :
    arena.detach c = arena.setLink p k none := by
  rw [Arena.detach, (h.parent?_eq_some hd hf).2 hk]

/-- Detaching a block empties the link that led to it. -/
theorem Tidy.linked?_detach (h : arena.Tidy) (hd : arena.ids.Nodup)
    (hf : LinkMap.Treelike arena.linked?) (a : BlockId) (j : Link) :
    (arena.detach c).linked? a j =
      if arena.linked? a j = some c then none else arena.linked? a j := by
  unfold Arena.detach
  split
  · rename_i p k hp
    have hk := h.linked?_of_parent? hd hp
    rw [linked?_setLink (mem_ids_of_linked? hk)]
    by_cases ha : a = p ∧ j = k
    · obtain ⟨rfl, rfl⟩ := ha
      rw [put_self, if_pos hk]
    · rw [put_of_ne _ _ ha, if_neg]
      exact fun hj => ha (hf.single hj hk)
  · rename_i hp
    rw [if_neg (h.free_of_parent?_eq_none hp a j)]

theorem Tidy.detach_sub (h : arena.Tidy) (hd : arena.ids.Nodup)
    (hf : LinkMap.Treelike arena.linked?) (c : BlockId) :
    LinkMap.Sub (arena.detach c).linked? arena.linked? := by
  intro a j d hj
  rw [h.linked?_detach hd hf] at hj
  split at hj
  · cases hj
  · exact hj

theorem Tidy.detach_free (h : arena.Tidy) (hd : arena.ids.Nodup)
    (hf : LinkMap.Treelike arena.linked?) (c : BlockId) :
    LinkMap.Free (arena.detach c).linked? c := by
  intro a j hj
  rw [h.linked?_detach hd hf] at hj
  split at hj
  · cases hj
  · contradiction

end Arena

end BlockSketch
