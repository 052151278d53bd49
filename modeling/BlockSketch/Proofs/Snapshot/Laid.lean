import BlockSketch.Proofs.Graph.Forest

/-!
Arenas that are being laid out. While a program is rebuilt, links only ever lead
to later blocks (`Arena.Laid`). So a block that has just been added is attached
nowhere, and nothing that was there before hangs from it: attaching it to an
earlier block keeps the forest, takes it from the top level, and changes nothing
else.
-/

namespace BlockSketch

namespace Arena

variable {arena : Arena} {a c p x : BlockId} {k : Link} {n : Nat}

/-! ### Changing one block among others -/

theorem modify_append (arena more : Arena) (p : BlockId) (f : Block → Block) :
    Arena.modify (arena ++ more) p f = arena.modify p f ++ Arena.modify more p f :=
  List.map_append

theorem modify_of_not_mem (h : p ∉ arena.ids) (f : Block → Block) : arena.modify p f = arena := by
  rw [modify]
  conv => rhs; rw [← List.map_id arena]
  apply List.map_congr_left
  intro b hb
  have hne : b.id ≠ p := fun heq => h (mem_ids.2 ⟨b, hb, heq⟩)
  rw [if_neg hne, id]

theorem modify_modify (arena : Arena) (p : BlockId) {f : Block → Block} (g : Block → Block)
    (hf : ∀ b, (f b).id = b.id) :
    (arena.modify p f).modify p g = arena.modify p fun b => g (f b) := by
  rw [modify, modify, List.map_map]
  apply List.map_congr_left
  intro b _
  by_cases h : b.id = p <;> simp [h, hf]

theorem modify_cons_self {b : Block} {rest : Arena} (h : b.id ∉ rest.ids) (f : Block → Block) :
    Arena.modify (b :: rest) b.id f = f b :: rest := by
  have hrest := modify_of_not_mem h f
  rw [modify] at hrest
  rw [modify, List.map_cons, if_pos rfl, hrest]

theorem modify_congr {p : BlockId} {f g : Block → Block}
    (h : ∀ b ∈ arena, b.id = p → f b = g b) : arena.modify p f = arena.modify p g := by
  apply List.map_congr_left
  intro b hb
  by_cases hid : b.id = p
  · rw [if_pos hid, if_pos hid, h b hb hid]
  · rw [if_neg hid, if_neg hid]

theorem modify_id (arena : Arena) (p : BlockId) : arena.modify p (fun b => b) = arena := by
  rw [modify]
  simp

/-- Where nothing is attached, detaching it again changes nothing. -/
theorem setLink_next_none (hd : arena.ids.Nodup) (h : arena.linked? p .next = none) :
    arena.setLink p .next none = arena := by
  rw [setLink, modify_congr (g := fun b => b)]
  · exact modify_id arena p
  · intro b hb hid
    subst hid
    rw [linked?_of_find? (find?_of_mem hd hb)] at h
    have hnext : b.next = none := h
    obtain ⟨_, _, _, _, _, _, _⟩ := b
    cases hnext
    rfl

/-! ### Links that lead to later blocks -/

/-- A forest that is being laid out: its links lead to blocks with larger
numbers. -/
structure Laid (arena : Arena) (n : Nat) : Prop where
  forest : arena.Forest
  numbered : arena.Numbered n
  later : ∀ {a k c}, arena.linked? a k = some c → a.index < c.index

def Top (arena : Arena) (x : BlockId) : Prop :=
  x ∈ arena.ids ∧ LinkMap.Free arena.linked? x

namespace Laid

theorem le_of_reach (h : arena.Laid n) (hr : LinkMap.Reach arena.linked? a c) :
    a.index ≤ c.index := by
  induction hr with
  | refl => exact Nat.le_refl _
  | tail _ hstep ih =>
    obtain ⟨k, hk⟩ := hstep
    exact Nat.le_of_lt (Nat.lt_of_le_of_lt ih (h.later hk))

theorem detach_of_free (h : arena.Laid n) (hc : LinkMap.Free arena.linked? c) :
    arena.detach c = arena :=
  h.forest.tidy.detach_of_free h.numbered.nodup hc

/-- A block that is attached nowhere is attached to an earlier one. -/
theorem setLink (h : arena.Laid n) (hp : p ∈ arena.ids) (hc : arena.Top c)
    (hroot : arena.isRoot c = false) (hlt : p.index < c.index) :
    (arena.setLink p k (some c)).Laid n := by
  have hbelow : ¬ arena.Reachable c p := by
    intro hr
    have := h.le_of_reach (h.forest.tidy.reachable_iff.1 hr)
    omega
  have hattach := h.forest.attach h.numbered.nodup hp hc.1 hroot hbelow k
  rw [Workspace.attach, h.detach_of_free hc.2] at hattach
  refine ⟨hattach, h.numbered.of_outline (outline_setLink ..), ?_⟩
  intro a j d hj
  rw [linked?_setLink hp] at hj
  by_cases hnew : a = p ∧ j = k
  · obtain ⟨rfl, rfl⟩ := hnew
    rw [LinkMap.put_self, Option.some_inj] at hj
    rw [← hj]
    exact hlt
  · rw [LinkMap.put_of_ne _ _ hnew] at hj
    exact h.later hj

/-- Attaching a block takes it from the top level, where nothing was attached
before. -/
theorem top_setLink (hp : p ∈ arena.ids) (hempty : arena.linked? p k = none) :
    (arena.setLink p k (some c)).Top x ↔ arena.Top x ∧ x ≠ c := by
  rw [Top, Top, ids_setLink, and_assoc]
  apply and_congr_right
  intro _
  rw [linked?_setLink hp]
  constructor
  · intro hfree
    refine ⟨fun a j hj => ?_, ?_⟩
    · apply hfree a j
      rw [LinkMap.put_of_ne _ _ ?_]
      · exact hj
      · rintro ⟨rfl, rfl⟩
        rw [hempty] at hj
        cases hj
    · rintro rfl
      exact hfree p k (LinkMap.put_self ..)
  · rintro ⟨hfree, hne⟩ a j hj
    by_cases hnew : a = p ∧ j = k
    · obtain ⟨rfl, rfl⟩ := hnew
      rw [LinkMap.put_self, Option.some_inj] at hj
      exact hne hj.symm
    · rw [LinkMap.put_of_ne _ _ hnew] at hj
      exact hfree a j hj

/-- A new block with the next number is added. -/
theorem add (h : arena.Laid n) {b : Block} (hid : b.id = ⟨n⟩) (htidy : b.Tidy)
    (hfree : ∀ k, b.linked? k = none) : Laid (arena ++ [b]) (n + 1) := by
  refine ⟨h.forest.add htidy hfree, h.numbered.add hid, ?_⟩
  intro a k c hk
  rw [linked?_append_of_free _ hfree] at hk
  exact h.later hk

theorem top_add (h : arena.Laid n) {b : Block} (hid : b.id = ⟨n⟩)
    (hfree : ∀ k, b.linked? k = none) :
    Top (arena ++ [b]) x ↔ arena.Top x ∨ x = ⟨n⟩ := by
  have hids : x ∈ ids (arena ++ [b]) ↔ x ∈ arena.ids ∨ x = ⟨n⟩ := by
    rw [ids, List.map_append, List.mem_append, List.map_singleton, List.mem_singleton, hid]
    rfl
  rw [Top, Top, hids, linked?_append_of_free _ hfree, or_and_right]
  apply or_congr_right
  constructor
  · exact fun h => h.1
  · rintro rfl
    refine ⟨rfl, fun a k hk => ?_⟩
    exact h.numbered.not_mem (Nat.le_refl n) (h.forest.present hk)

end Laid

end Arena

end BlockSketch
