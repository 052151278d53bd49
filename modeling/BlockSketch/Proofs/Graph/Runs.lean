import BlockSketch.Proofs.Graph.Grounded
import BlockSketch.Proofs.Graph.Shape

/-!
What holds of every program. Each edit leads from a coherent workspace to a
successor of it, so the same is true of every session, and of reading back. The
roots come last when a program begins and are never lost after that. Together
this is all that is promised about the shape of a program (`Sound`).
-/

namespace BlockSketch.Workspace

variable {registry : Registry} {w : Workspace}

theorem hasRoots_builtin : Registry.builtin.HasRoots := by
  intro root
  cases root <;> exact ⟨_, rfl, rfl⟩

/-- Edits lead from a coherent workspace to a successor. -/
theorem stepwise_successor :
    Stepwise fun w w' => w.Coherent → w.registry.HasRoots → w.Successor w' where
  refl w h _ := .refl h
  trans h₁ h₂ h hr := by
    have hs := h₁ h hr
    exact hs.trans (h₂ hs.coherent (hs.registry ▸ hr))
  create ha h hr := h.create hr ha
  delete ha h hr := h.delete hr ha
  setField ha h _ := h.setField ha
  restoreField ha h _ := h.restoreField ha
  connectStatement ha h _ := h.connectStatement ha
  connectValue ha h _ := h.connectValue ha
  disconnect ha h _ := h.disconnect ha
  setBoard ha h _ := h.setBoard ha
  ensureRoots w h hr := (h.ensureRoots hr).1

/-- Whatever happens, the outcome is a successor. -/
theorem Coherent.afterAll (h : w.Coherent) (hr : w.registry.HasRoots) (actions : List Action) :
    w.Successor (w.afterAll actions) :=
  stepwise_successor.afterAll w actions h hr

theorem coherent_bare (registry : Registry) (board : Board) : (bare registry board).Coherent := by
  have h := grounded_bare registry board
  exact ⟨h.forest, h.numbered, fun _ => Nat.zero_le _⟩

theorem Reached.coherent (hr : registry.HasRoots) (h : Reached registry w) :
    w.registry = registry ∧ w.Coherent ∧ w.Rooted := by
  obtain ⟨start, hstart, actions, rfl⟩ := h
  obtain ⟨board, _, w₁, h₁, rfl⟩ := stepwise_successor.begins hstart
  have hs₁ := h₁ (coherent_bare registry board) hr
  have hreg : w₁.registry = registry := hs₁.registry
  obtain ⟨hs₂, hrooted⟩ := hs₁.coherent.ensureRoots (hreg ▸ hr)
  have hrun := hs₂.coherent.afterAll (hs₂.registry ▸ hreg ▸ hr) actions
  exact ⟨hrun.registry.trans (hs₂.registry.trans hreg), hrun.coherent, hrun.rooted hrooted⟩

/-- With the roots registered, both of them are always there. -/
theorem Reached.root?_ne_none (hr : registry.HasRoots) (h : Reached registry w)
    (kind : RootKind) : w.arena.root? kind ≠ none := by
  intro hnone
  have hone := (h.coherent hr).2.2 kind
  rw [Arena.root?_eq_none.1 hnone] at hone
  cases hone

/-! ### What holds at every point -/

/-- What a person may count on at every point of a session. Each root is there
once and hangs from nothing, and links lead to blocks that are there, no two to
the same one, and never back. Every block hangs from exactly one block at the top
level. Blocks are numbered in the order of their creation, below the counter. -/
structure Sound (w : Workspace) : Prop where
  validates : w.validate = .ok ()
  shape : w.arena.WellShaped
  owned : ∀ id ∈ w.arena.ids, ∃! top, top ∈ w.arena.topLevel ∧ w.arena.Reachable top id
  numbered : w.arena.Numbered w.nextId

/-- Every program that can come about is sound, whatever the registry holds
beside the roots, and the number of a block that is gone is never given to
another one. -/
theorem reached_sound (hr : registry.HasRoots) (h : Reached registry w) :
    w.Sound ∧ ∀ id ∈ w.arena.ids, ∀ first later, id ∉ (w.afterAll first).arena.ids →
      id ∉ ((w.afterAll first).afterAll later).arena.ids := by
  obtain ⟨hreg, hcoherent, hrooted⟩ := h.coherent hr
  have hnodup := hcoherent.numbered.nodup
  have hshape := hcoherent.forest.wellShaped hnodup hrooted
  refine ⟨⟨hcoherent.forest.check_eq_ok hnodup hrooted, hshape,
    fun id hid => hcoherent.forest.existsUnique_top hnodup hid, hcoherent.numbered⟩, ?_⟩
  intro id hid first later hgone
  have hfirst := hcoherent.afterAll (hreg ▸ hr) first
  have hlater := hfirst.coherent.afterAll (hfirst.registry ▸ hreg ▸ hr) later
  exact hlater.not_mem hgone (Nat.lt_of_lt_of_le (hcoherent.numbered.below id hid) hfirst.nextId_le)

/-- A block is made, deleted and made again: the second one has another number. -/
theorem reached_sound_of_deleted :
    Registry.builtin.HasRoots ∧
      ((onDefaultBoard .builtin).afterAll [.edit (.create "delay_ms" .origin)]).Sound ∧
      ⟨3⟩ ∉ (((onDefaultBoard .builtin).afterAll [.edit (.create "delay_ms" .origin)]).afterAll
        [.edit (.delete ⟨3⟩)]).arena.ids ∧
      ⟨3⟩ ∉ ((((onDefaultBoard .builtin).afterAll [.edit (.create "delay_ms" .origin)]).afterAll
        [.edit (.delete ⟨3⟩)]).afterAll [.edit (.create "delay_ms" .origin)]).arena.ids := by
  have hreached : Reached .builtin
      ((onDefaultBoard .builtin).afterAll [.edit (.create "delay_ms" .origin)]) :=
    ⟨_, .onDefaultBoard, _, rfl⟩
  have hgone : ⟨3⟩ ∉ (((onDefaultBoard .builtin).afterAll
      [.edit (.create "delay_ms" .origin)]).afterAll [.edit (.delete ⟨3⟩)]).arena.ids := by
    decide
  obtain ⟨hsound, hnever⟩ := reached_sound hasRoots_builtin hreached
  exact ⟨hasRoots_builtin, hsound, hgone, hnever ⟨3⟩ (by decide) _ _ hgone⟩

end BlockSketch.Workspace
