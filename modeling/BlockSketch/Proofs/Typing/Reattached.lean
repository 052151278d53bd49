import BlockSketch.Proofs.Graph.Chains
import BlockSketch.Proofs.Snapshot.Laid
import BlockSketch.Proofs.Typing.Typed

/-!
Taking a block out and putting it back. A link that is there could be made again:
in a typed program the block at its one end has the socket, the block at its other
end fits it, and nothing lies below itself. So a block that has been taken out of
its parent can go back where it was, and then nothing is different from before.

Plugging an expression in puts what was in the slot on the canvas. It keeps what
hangs from it, except for the expression that has come in its place, if that was a
part of it.
-/

namespace BlockSketch

namespace LinkMap

variable {f : LinkMap} {a c d p x : BlockId} {k : Link}

/-- A block that another one displaces is attached nowhere. -/
theorem Treelike.free_put_detached (hf : f.Treelike) (hd : f p k = some d) (hdc : d ≠ c) :
    ((f.detached c).put p k (some c)).Free d := by
  intro a j haj
  by_cases hnew : a = p ∧ j = k
  · obtain ⟨rfl, rfl⟩ := hnew
    rw [put_self, Option.some_inj] at haj
    exact hdc haj.symm
  · rw [put_of_ne _ _ hnew, detached] at haj
    split at haj
    · cases haj
    · exact hnew (hf.single haj hd)

theorem detached_sub (f : LinkMap) (c : BlockId) : (f.detached c).Sub f := by
  intro a j d h
  rw [detached] at h
  split at h
  · cases h
  · exact h

/-- A link changes nothing below a block if it does not start from there. -/
theorem reach_put_of_not_reach (hp : ¬ f.Reach d p) (v : Option BlockId) :
    (f.put p k v).Reach d x ↔ f.Reach d x := by
  have hkept : ∀ y j, f.Reach d y → f.put p k v y j = f y j := by
    rintro y j hy
    refine put_of_ne f v ?_
    rintro ⟨rfl, -⟩
    exact hp hy
  constructor
  · intro hr
    induction hr with
    | refl => exact .refl
    | @tail y z _ hyz ih =>
      obtain ⟨j, hj⟩ := hyz
      exact ih.tail ⟨j, hkept y j ih ▸ hj⟩
  · intro hr
    induction hr with
    | refl => exact .refl
    | @tail y z hdy hyz ih =>
      obtain ⟨j, hj⟩ := hyz
      exact ih.tail ⟨j, (hkept y j hdy).trans hj⟩

/-- Without the link to a block, what hangs from another one is what hung from it,
without what hangs from the first. -/
theorem Treelike.reach_detached (hf : f.Treelike) (hcd : ¬ f.Reach c d) :
    (f.detached c).Reach d x ↔ f.Reach d x ∧ ¬ f.Reach c x := by
  constructor
  · intro hr
    induction hr with
    | refl => exact ⟨.refl, hcd⟩
    | @tail y z _ hyz ih =>
      obtain ⟨hdy, hcy⟩ := ih
      obtain ⟨j, hj⟩ := hyz
      rw [detached] at hj
      split at hj
      next => cases hj
      next hne =>
        -- Only the link to `c` itself leads into what hangs from it, and that link is gone.
        refine ⟨hdy.tail ⟨j, hj⟩, fun hcz => hcy (hf.reach_parent hcz ?_ ⟨j, hj⟩)⟩
        rintro rfl
        exact hne hj
  · rintro ⟨hr, hcx⟩
    induction hr with
    | refl => exact .refl
    | @tail y z _ hyz ih =>
      obtain ⟨j, hj⟩ := hyz
      refine (ih fun hcy => hcx (hcy.tail ⟨j, hj⟩)).tail ⟨j, ?_⟩
      rw [detached, if_neg, hj]
      rintro heq
      rw [hj, Option.some_inj] at heq
      exact hcx (heq ▸ .refl)

/-- What hangs from a block that another one displaces is what hung from it, without
what hangs from the other one. -/
theorem Treelike.reach_put_detached (hf : f.Treelike) (hp : ¬ f.Reach c p) (hd : f p k = some d)
    (hdc : d ≠ c) :
    ((f.detached c).put p k (some c)).Reach d x ↔ f.Reach d x ∧ ¬ f.Reach c x := by
  have hcd : ¬ f.Reach c d := fun h => hp (hf.reach_parent h (Ne.symm hdc) ⟨k, hd⟩)
  have hdp : ¬ (f.detached c).Reach d p :=
    fun h => hf.not_reach_of_edge ⟨k, hd⟩ ((detached_sub f c).reach h)
  rw [reach_put_of_not_reach hdp, hf.reach_detached hcd]

end LinkMap

/-! ### A link that is emptied and made again -/

theorem Block.withLink_withLink (b : Block) (k : Link) (c d : Option BlockId) :
    (b.withLink k c).withLink k d = b.withLink k d := by
  cases k <;> simp only [withLink, Entries.insert_insert]

theorem Block.withLink_of_linked? {b : Block} {k : Link} {c : BlockId}
    (h : b.linked? k = some c) : b.withLink k (some c) = b := by
  cases k with
  | next => rw [withLink, ← h]; rfl
  | statement slot => rw [withLink, Entries.insert_of_get? (Option.join_eq_some_iff.1 h)]
  | value slot => rw [withLink, Entries.insert_of_get? (Option.join_eq_some_iff.1 h)]

theorem Arena.setLink_setLink_of_linked? {arena : Arena} {p c : BlockId} {k : Link}
    (hd : arena.ids.Nodup) (h : arena.linked? p k = some c) (d : Option BlockId) :
    (arena.setLink p k d).setLink p k (some c) = arena := by
  rw [setLink, setLink, modify_modify _ _ _ fun _ => Block.id_withLink ..,
    modify_congr (g := id), modify]
  · simp
  · rintro b hb rfl
    rw [linked?_of_find? (find?_of_mem hd hb)] at h
    rw [Block.withLink_withLink, Block.withLink_of_linked? h, id]

namespace Workspace

variable {registry : Registry} {w w' : Workspace} {p c o : BlockId} {k : Link} {slot : String}

/-! ### What is said of a block that is taken out -/

def connectAt (w : Workspace) (parent : BlockId) (link : Link) (child : BlockId) :
    Except GraphError Workspace :=
  match link with
  | .next => w.connectStatement parent .next child
  | .statement slot => w.connectStatement parent (.slot slot) child
  | .value slot => w.connectValue parent slot child

/-- What comes out when a block is taken out of its parent: what hangs from it,
directly or not, hangs from it as before. -/
structure Released (w : Workspace) (p : BlockId) (k : Link) (c : BlockId) (w' : Workspace) :
    Prop where
  onCanvas : c ∈ w'.arena.topLevel
  emptied : w'.arena.linked? p k = none
  below : ∀ x, w'.arena.Reachable c x ↔ w.arena.Reachable c x
  whole : ∀ x, w.arena.Reachable c x → w'.block? x = w.block? x

/-- What becomes of an expression in whose slot another one is plugged: what hung
from it hangs from it still, apart from what has taken its place. -/
structure Ousted (w : Workspace) (p : BlockId) (slot : String) (o c : BlockId) (w' : Workspace) :
    Prop where
  onCanvas : o ∈ w'.arena.topLevel
  plugged : w'.arena.linked? p (.value slot) = some c
  below : ∀ x, w'.arena.Reachable o x ↔ w.arena.Reachable o x ∧ ¬ w.arena.Reachable c x
  whole : ∀ x, w.arena.Reachable o x → (∀ k, w.arena.linked? x k ≠ some c) →
    w'.block? x = w.block? x
  cut : ∀ x k, w.arena.Reachable o x → w.arena.linked? x k = some c →
    ∃ d, w.block? x = some d ∧ w'.block? x = some (d.withLink k none)

/-! ### Taking out and putting back -/

theorem Coherent.released (h : w.Coherent) (hk : w.arena.linked? p k = some c) :
    w.Released p k c (w.withArena (w.arena.setLink p k none)) := by
  have hf := h.forest
  have hd := h.numbered.nodup
  have hp := Arena.mem_ids_of_linked? hk
  have hbelow : ¬ LinkMap.Reach w.arena.linked? c p := hf.treelike.not_reach_of_edge ⟨k, hk⟩
  have hdetach := hf.tidy.detach_of_linked? hd hf.treelike hk
  have htidy := hf.tidy.setLink p k none
  constructor
  case onCanvas =>
    refine (htidy.mem_topLevel (by rwa [Arena.ids_setLink])).2 ⟨?_, ?_⟩
    · rw [Arena.ids_setLink]
      exact hf.present hk
    · rw [← hdetach]
      exact hf.tidy.detach_free hd hf.treelike c
  case emptied =>
    show (w.arena.setLink p k none).linked? p k = none
    rw [Arena.linked?_setLink hp, LinkMap.put_self]
  case below =>
    intro x
    show (w.arena.setLink p k none).Reachable c x ↔ _
    rw [htidy.reachable_iff, hf.tidy.reachable_iff, Arena.linked?_setLink hp,
      LinkMap.reach_put_of_not_reach hbelow]
  case whole =>
    intro x hx
    apply Arena.find?_setLink_of_ne
    rintro rfl
    exact hbelow (hf.tidy.reachable_iff.1 hx)

/-- A block that has been taken out of its parent can be put back. -/
theorem Coherent.connectable_released (h : w.Coherent) (hk : w.arena.linked? p k = some c) :
    (w.withArena (w.arena.setLink p k none)).Connectable p c where
  parent_mem := by
    show p ∈ (w.arena.setLink p k none).ids
    rw [Arena.ids_setLink]
    exact Arena.mem_ids_of_linked? hk
  child_mem := by
    show c ∈ (w.arena.setLink p k none).ids
    rw [Arena.ids_setLink]
    exact h.forest.present hk
  notRoot := by
    show (w.arena.setLink p k none).isRoot c = false
    rw [Arena.isRoot_of_outline (Arena.outline_setLink ..)]
    exact h.forest.rootsFree hk
  notBelow := by
    rw [(h.released hk).below, h.forest.tidy.reachable_iff]
    exact h.forest.treelike.not_reach_of_edge ⟨k, hk⟩

theorem Coherent.attach_released (h : w.Coherent) (hk : w.arena.linked? p k = some c) :
    attach (w.arena.setLink p k none) p k c = w.arena := by
  have hd := h.numbered.nodup
  have hfree : LinkMap.Free (w.arena.setLink p k none).linked? c := by
    rw [← h.forest.tidy.detach_of_linked? hd h.forest.treelike hk]
    exact h.forest.tidy.detach_free hd h.forest.treelike c
  rw [attach, (h.forest.tidy.setLink p k none).detach_of_free (by rwa [Arena.ids_setLink]) hfree,
    Arena.setLink_setLink_of_linked? hd hk]

/-- In a typed program every link can be made again once it has been emptied, and
then the program is what it was. -/
theorem Typed.connectAt_released (h : w.Typed) (hc : w.Coherent)
    (hk : w.arena.linked? p k = some c) :
    (w.withArena (w.arena.setLink p k none)).connectAt p k c = .ok w := by
  have hconnectable := hc.connectable_released hk
  have hempty : (w.withArena (w.arena.setLink p k none)).arena.linked? p k = none :=
    (hc.released hk).emptied
  have hback : w = (w.withArena (w.arena.setLink p k none)).withArena
      (Workspace.attach (w.arena.setLink p k none) p k c) := by
    rw [hc.attach_released hk]
    rfl
  have htype : ∀ x, (w.withArena (w.arena.setLink p k none)).typeOf x = w.typeOf x :=
    typeOf_of_outline (Arena.outline_setLink ..)
  obtain ⟨⟨type, ht, hhas⟩, childType, hct, hfits⟩ := h.links hk
  rw [← htype] at ht hct
  have hstatement : ∀ target : StatementTarget, target.link = k →
      (w.withArena (w.arena.setLink p k none)).connectStatement p target c = .ok w := by
    rintro target rfl
    refine connectStatement_eq_ok.2 ⟨hconnectable, ⟨type, ht, BlockType.hasLink_target.1 hhas⟩,
      ⟨childType, hct, BlockType.fitsAt_target.1 hfits⟩, ?_⟩
    rw [Chained, hempty]
    exact hback
  cases k with
  | next => exact hstatement .next rfl
  | statement slot => exact hstatement (.slot slot) rfl
  | value slot =>
    refine connectValue_eq_ok.2 ⟨hconnectable, ⟨type, ht, BlockType.hasLink_value.1 hhas⟩,
      ⟨childType, hct, hfits⟩, ?_⟩
    rw [hempty, if_neg nofun]
    exact hback

/-! ### Plugging in where something is -/

theorem Coherent.ousted (h : w.Coherent) (hconnect : w.Connectable p c)
    (ho : w.arena.linked? p (.value slot) = some o) (hoc : o ≠ c) :
    w.Ousted p slot o c (w.withArena (attach w.arena p (.value slot) c)) := by
  have hf := h.forest
  have hd := h.numbered.nodup
  have hnotBelow := mt hf.tidy.reachable_iff.2 hconnect.notBelow
  have htidy := hf.tidy_attach p (.value slot) c
  have hlinks : (attach w.arena p (.value slot) c).linked? =
      (LinkMap.detached w.arena.linked? c).put p (.value slot) (some c) := by
    rw [Arena.linked?_attach hconnect.parent_mem, Arena.detached_linked? hf.tidy hd hf.treelike]
  have hids : (attach w.arena p (.value slot) c).ids = w.arena.ids :=
    Arena.ids_of_outline (Arena.outline_attach ..)
  have hfind : ∀ x, w.arena.Reachable o x →
      (attach w.arena p (.value slot) c).find? x = (w.arena.detach c).find? x := by
    intro x hx
    apply Arena.find?_setLink_of_ne
    rintro rfl
    exact hf.treelike.not_reach_of_edge ⟨_, ho⟩ (hf.tidy.reachable_iff.1 hx)
  constructor
  case onCanvas =>
    refine (htidy.mem_topLevel (by rwa [hids])).2 ⟨by rw [hids]; exact hf.present ho, ?_⟩
    rw [hlinks]
    exact hf.treelike.free_put_detached ho hoc
  case plugged =>
    show (attach w.arena p (.value slot) c).linked? p (.value slot) = some c
    rw [hlinks, LinkMap.put_self]
  case below =>
    intro x
    show (attach w.arena p (.value slot) c).Reachable o x ↔ _
    rw [htidy.reachable_iff, hf.tidy.reachable_iff, hf.tidy.reachable_iff, hlinks]
    exact hf.treelike.reach_put_detached hnotBelow ho hoc
  case whole =>
    intro x hx hfree
    refine (hfind x hx).trans ?_
    unfold Arena.detach
    split
    next q j hq =>
      apply Arena.find?_setLink_of_ne
      rintro rfl
      exact hfree j (hf.tidy.linked?_of_parent? hd hq)
    next => rfl
  case cut =>
    intro x j hx hj
    obtain ⟨d, hxd⟩ := Arena.exists_find? (Arena.mem_ids_of_linked? hj)
    refine ⟨d, hxd, (hfind x hx).trans ?_⟩
    rw [hf.tidy.detach_of_linked? hd hf.treelike hj]
    exact Arena.find?_setLink_self hxd j none

/-- In every program that can come about from the builtin blocks, a block can be taken
out of its parent and put back, and then nothing has changed; and an expression in
whose slot another one is plugged goes to the canvas with what hangs from it. -/
theorem reached_reattaches (h : Reached .builtin w) :
    (∀ c p k, w.arena.parent? c = some (p, k) →
      ∃ w', w.disconnect c = .ok w' ∧ w.Released p k c w' ∧ w'.connectAt p k c = .ok w) ∧
    ∀ p slot c o w', w.connectValue p slot c = .ok w' →
      w.arena.linked? p (.value slot) = some o → o ≠ c → w.Ousted p slot o c w' := by
  obtain ⟨-, hc, -⟩ := h.coherent hasRoots_builtin
  have ht := h.typed hasRoots_builtin Registry.regular_builtin
  have hd := hc.numbered.nodup
  constructor
  · intro c p k hparent
    have hk := hc.forest.tidy.linked?_of_parent? hd hparent
    refine ⟨_, ?_, hc.released hk, ht.connectAt_released hc hk⟩
    rw [disconnect_eq_ok, hc.forest.tidy.detach_of_linked? hd hc.forest.treelike hk]
    exact ⟨hc.forest.present hk, rfl⟩
  · intro p slot c o w' hw' ho hoc
    obtain ⟨hconnect, -, -, rfl⟩ := connectValue_eq_ok.1 hw'
    rw [if_neg]
    · exact hc.ousted hconnect ho hoc
    · rw [ho, Option.some_inj]
      exact hoc

/-- A number is the first operand of a comparison, which is a condition. The number
can be taken out and put back, and plugging it in as the condition ousts the
comparison. -/
theorem reached_reattaches_operand :
    let w := (onDefaultBoard .builtin).afterAll
      [.edit (.create "if_then" .origin), .edit (.create "compare" .origin),
        .edit (.create "number" .origin), .edit (.plug ⟨3⟩ "CONDITION" ⟨4⟩),
        .edit (.plug ⟨4⟩ "A" ⟨5⟩)]
    Reached .builtin w ∧ w.arena.parent? ⟨5⟩ = some (⟨4⟩, .value "A") ∧
      (∃ w', w.disconnect ⟨5⟩ = .ok w' ∧ w.Released ⟨4⟩ (.value "A") ⟨5⟩ w' ∧
        w'.connectAt ⟨4⟩ (.value "A") ⟨5⟩ = .ok w) ∧
      ∃ w', w.connectValue ⟨3⟩ "CONDITION" ⟨5⟩ = .ok w' ∧
        w.arena.linked? ⟨3⟩ (.value "CONDITION") = some ⟨4⟩ ∧
        w.Ousted ⟨3⟩ "CONDITION" ⟨4⟩ ⟨5⟩ w' := by
  intro w
  have hreached : Reached .builtin w := ⟨_, .onDefaultBoard, _, rfl⟩
  have hprogram : w.arena.parent? ⟨5⟩ = some (⟨4⟩, .value "A") ∧
      w.arena.linked? ⟨3⟩ (.value "CONDITION") = some ⟨4⟩ ∧
      ∃ w', w.connectValue ⟨3⟩ "CONDITION" ⟨5⟩ = .ok w' := by
    unfold w
    simp only [afterAll_cons, afterAll_nil]
    rw [after_plug_of_ok (connectValue_of_bare ⟨3⟩ "CONDITION" ⟨4⟩ rfl rfl (by decide) rfl rfl rfl
        rfl rfl (by decide)),
      after_plug_of_ok (connectValue_of_bare ⟨4⟩ "A" ⟨5⟩ rfl rfl (by decide) rfl rfl rfl rfl rfl
        (by decide))]
    exact ⟨rfl, rfl, _, connectValue_of_bare ⟨3⟩ "CONDITION" ⟨5⟩ rfl rfl (by decide) rfl rfl rfl
      rfl rfl (by decide)⟩
  obtain ⟨hparent, hoccupied, w', hplugged⟩ := hprogram
  obtain ⟨hback, houst⟩ := reached_reattaches hreached
  exact ⟨hreached, hparent, hback _ _ _ hparent, w', hplugged, hoccupied,
    houst _ _ _ _ _ hplugged hoccupied (by decide)⟩

end Workspace

end BlockSketch
