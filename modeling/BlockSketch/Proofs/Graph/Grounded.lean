import BlockSketch.Proofs.Graph.Stepwise
import BlockSketch.Proofs.Graph.Successor

/-!
What holds with any registry. A registry may lack the roots, or register them as
something else; then a root can be missing, be there twice or be deleted, and
little of `Coherent` is left. The links still form a forest and the numbers
still go up, because the edits that make links look at the kind of a block and
not at its type. And a block only comes about through a look-up of its kind, so
that every kind in a program is registered.
-/

namespace BlockSketch.Workspace

variable {registry : Registry} {w w' : Workspace} {id : BlockId}

/-- What holds of a program whatever its registry holds. -/
structure Grounded (w : Workspace) : Prop where
  forest : w.arena.Forest
  numbered : w.arena.Numbered w.nextId
  known : ∀ b ∈ w.arena, ∃ type, w.registry.get? b.kind = some type

namespace Grounded

/-- Rewiring keeps the numbers and kinds of the blocks. -/
theorem rewired (h : w.Grounded) (hr : w.Rewired w') : w'.registry = w.registry ∧ w'.Grounded := by
  obtain ⟨arena, rfl, ho, hf⟩ := hr
  refine ⟨rfl, hf, h.numbered.of_outline ho, fun b hb => ?_⟩
  have hmem : (b.id, b.kind) ∈ arena.outline := List.mem_map_of_mem hb
  rw [ho] at hmem
  obtain ⟨d, hd, heq⟩ := List.mem_map.1 hmem
  rw [← (Prod.mk.inj heq).2]
  exact h.known d hd

theorem add (h : w.Grounded) {kind : String} {type : BlockType}
    (ht : w.registry.get? kind = some type) (position : Position) :
    (w.add type position).Grounded where
  forest := h.forest.add (tidy_freshBlock ..) (linked?_freshBlock _ _ _ _)
  numbered := h.numbered.add rfl
  known b hb := by
    obtain hb | hb := List.mem_append.1 hb
    · exact h.known b hb
    · obtain rfl := List.mem_singleton.1 hb
      refine ⟨type, ?_⟩
      rw [← Registry.kind_of_get? ht] at ht
      exact ht

theorem ensureRoot (h : w.Grounded) (root : RootKind) : (w.ensureRoot root).Grounded := by
  unfold Workspace.ensureRoot
  split
  · exact h.add ‹_› _
  · exact h

theorem delete (h : w.Grounded) (ha : w.delete id = .ok w') : w'.Grounded := by
  obtain ⟨b, _, hb, _, _, _, rfl⟩ := delete_eq_ok.1 ha
  have hid := Arena.id_of_find? hb
  subst hid
  have ho := Arena.outline_closeGap w.arena b
  refine ⟨h.forest.delete h.numbered.nodup hb, (h.numbered.of_outline ho).remove _, fun d hd => ?_⟩
  have hmem : (d.id, d.kind) ∈ (closeGap w.arena b).outline :=
    List.mem_map_of_mem (List.mem_filter.1 hd).1
  rw [ho] at hmem
  obtain ⟨e, he, heq⟩ := List.mem_map.1 hmem
  rw [← (Prod.mk.inj heq).2]
  exact h.known e he

end Grounded

/-! ### Programs that can come about -/

theorem registry_ensureRoot (w : Workspace) (root : RootKind) :
    (w.ensureRoot root).registry = w.registry := by
  unfold ensureRoot
  split <;> rfl

/-- Edits keep what holds with any registry. -/
theorem stepwise_grounded :
    Stepwise fun w w' => w.Grounded → w'.registry = w.registry ∧ w'.Grounded where
  refl _ h := ⟨rfl, h⟩
  trans h₁ h₂ h := by
    obtain ⟨hreg, h⟩ := h₁ h
    obtain ⟨hreg', h⟩ := h₂ h
    exact ⟨hreg'.trans hreg, h⟩
  create ha h := by
    obtain ⟨type, ht, _, rfl, _⟩ := create_eq_ok.1 ha
    exact ⟨rfl, h.add ht _⟩
  delete ha h := by
    have hkept := h.delete ha
    obtain ⟨_, _, _, _, _, _, rfl⟩ := delete_eq_ok.1 ha
    exact ⟨rfl, hkept⟩
  setField ha h := h.rewired (rewired_setField h.forest ha)
  restoreField ha h := h.rewired (rewired_restoreField h.forest ha)
  connectStatement ha h := h.rewired (rewired_connectStatement h.forest h.numbered.nodup ha)
  connectValue ha h := h.rewired (rewired_connectValue h.forest h.numbered.nodup ha)
  disconnect ha h := h.rewired (rewired_disconnect h.forest h.numbered.nodup ha)
  setBoard ha h := by
    obtain ⟨_, _, rfl⟩ := setBoard_eq_ok.1 ha
    exact ⟨rfl, h.forest, h.numbered, h.known⟩
  ensureRoots w h := by
    have hreg := (registry_ensureRoot (w.ensureRoot .setup) .loop).trans
      (registry_ensureRoot w .setup)
    exact ⟨hreg, (h.ensureRoot .setup).ensureRoot .loop⟩

theorem grounded_bare (registry : Registry) (board : Board) : (bare registry board).Grounded := by
  have hempty : ∀ {a : BlockId} {k : Link} {c : BlockId},
      Arena.linked? (bare registry board).arena a k ≠ some c := by
    intro a k c hk
    cases hk
  refine ⟨⟨nofun, ⟨fun hk => absurd hk hempty, ⟨fun a => ⟨a, ?_⟩⟩⟩, fun hk => absurd hk hempty,
    fun hk => absurd hk hempty⟩, ⟨List.Pairwise.nil, nofun⟩, nofun⟩
  rintro c ⟨k, hk⟩
  exact absurd hk hempty

/-- Every program that can come about is grounded, with any registry. -/
theorem Reached.grounded (h : Reached registry w) : w.registry = registry ∧ w.Grounded := by
  obtain ⟨board, _, hstep⟩ := stepwise_grounded.reached h
  exact hstep (grounded_bare registry board)

end BlockSketch.Workspace
