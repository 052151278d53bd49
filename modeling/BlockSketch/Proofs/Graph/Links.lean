import BlockSketch.Workspace.Arena
import Mathlib.Logic.Relation

/-!
Links as a function. An arena answers one question that matters for its shape:
which block, if any, is attached at which link of which block. This layer
forgets everything else and keeps that function, so that rewiring a program is
a matter of replacing single values of it.

`Treelike f` is the property that all of rewiring preserves: no block is
attached in two places, and going down links comes to an end. Neither half can
be kept alone. A link `p → c` may be added when `c` is attached nowhere and `p`
does not lie below `c` (`Treelike.put`); links may be taken away at any time
(`Treelike.mono`). Every edit of a program is a few such steps.
-/

namespace BlockSketch

/-- Which block is attached at which link of which block. -/
abbrev LinkMap := BlockId → Link → Option BlockId

namespace LinkMap

def Edge (f : LinkMap) (a c : BlockId) : Prop :=
  ∃ k, f a k = some c

/-- One block lies below another, or is the same. -/
def Reach (f : LinkMap) : BlockId → BlockId → Prop :=
  Relation.ReflTransGen f.Edge

/-- A block that is attached nowhere. -/
def Free (f : LinkMap) (c : BlockId) : Prop :=
  ∀ a k, f a k ≠ some c

def put (f : LinkMap) (p : BlockId) (k : Link) (c : Option BlockId) : LinkMap :=
  fun a j => if a = p ∧ j = k then c else f a j

def Sub (g f : LinkMap) : Prop :=
  ∀ ⦃a k c⦄, g a k = some c → f a k = some c

/-- The same links, except that some blocks have none. -/
def without (f : LinkMap) (gone : List BlockId) : LinkMap :=
  fun a k => if a ∈ gone then none else f a k

variable {f g : LinkMap} {a b c d p x : BlockId} {j k : Link}

@[simp] theorem put_self (f : LinkMap) (p : BlockId) (k : Link) (c : Option BlockId) :
    f.put p k c p k = c := by
  simp [put]

theorem put_of_ne (f : LinkMap) {p a : BlockId} {k j : Link} (c : Option BlockId)
    (h : ¬ (a = p ∧ j = k)) : f.put p k c a j = f a j := by
  simp [put, h]

theorem put_none_sub (f : LinkMap) (p : BlockId) (k : Link) : (f.put p k none).Sub f := by
  intro a j c h
  by_cases hk : a = p ∧ j = k
  · simp [put, hk] at h
  · rwa [put_of_ne f none hk] at h

theorem without_sub (f : LinkMap) (gone : List BlockId) : (f.without gone).Sub f := by
  intro a k c h
  unfold without at h
  split at h
  · cases h
  · exact h

/-- Changes at different places can be made in either order. -/
theorem put_comm (f : LinkMap) {p q : BlockId} {k j : Link} (c d : Option BlockId)
    (h : ¬ (p = q ∧ k = j)) : (f.put p k c).put q j d = (f.put q j d).put p k c := by
  funext a i
  by_cases hp : a = p ∧ i = k
  · obtain ⟨rfl, rfl⟩ := hp
    rw [put_of_ne _ _ h, put_self, put_self]
  · rw [put_of_ne (f.put q j d) c hp]
    by_cases hq : a = q ∧ i = j
    · obtain ⟨rfl, rfl⟩ := hq
      rw [put_self, put_self]
    · rw [put_of_ne _ _ hq, put_of_ne _ _ hq, put_of_ne _ _ hp]

/-- Only the last change at a place counts. -/
theorem put_put (f : LinkMap) (p : BlockId) (k : Link) (c d : Option BlockId) :
    (f.put p k c).put p k d = f.put p k d := by
  funext a i
  by_cases h : a = p ∧ i = k <;> simp [put, h]

theorem Sub.reach (h : g.Sub f) (hr : g.Reach a b) : f.Reach a b := by
  induction hr with
  | refl => exact .refl
  | tail _ hstep ih =>
    obtain ⟨k, hk⟩ := hstep
    exact ih.tail ⟨k, h hk⟩

/-- Whatever an added link leads to was already below its lower end. -/
theorem reach_put (h : (f.put p k (some c)).Reach a x) : f.Reach a x ∨ f.Reach c x := by
  induction h with
  | refl => exact .inl .refl
  | @tail y z _ hstep ih =>
    obtain ⟨j, hj⟩ := hstep
    by_cases hk : y = p ∧ j = k
    · obtain ⟨rfl, rfl⟩ := hk
      rw [put_self, Option.some_inj] at hj
      subst hj
      exact .inr .refl
    · rw [put_of_ne f _ hk] at hj
      exact ih.imp (fun hr => hr.tail ⟨j, hj⟩) fun hr => hr.tail ⟨j, hj⟩

/-- What lies below a block is the block or lies below something attached to it. -/
theorem reach_iff_head : f.Reach a x ↔ x = a ∨ ∃ k c, f a k = some c ∧ f.Reach c x := by
  constructor
  · intro h
    obtain rfl | ⟨c, ⟨k, hk⟩, hr⟩ := h.cases_head
    · exact .inl rfl
    · exact .inr ⟨k, c, hk, hr⟩
  · rintro (rfl | ⟨k, c, hk, hr⟩)
    · exact .refl
    · exact .head ⟨k, hk⟩ hr

/-! ### Forests -/

/-- No block is attached in two places, and going down comes to an end. -/
structure Treelike (f : LinkMap) : Prop where
  single : ∀ {a b : BlockId} {k j : Link} {c : BlockId},
    f a k = some c → f b j = some c → a = b ∧ k = j
  wellFounded : WellFounded fun c a => f.Edge a c

namespace Treelike

theorem mono (hf : f.Treelike) (h : g.Sub f) : g.Treelike where
  single ha hb := hf.single (h ha) (h hb)
  wellFounded := by
    apply Subrelation.wf _ hf.wellFounded
    rintro c a ⟨k, hk⟩
    exact ⟨k, h hk⟩

/-- Going down never leads back. -/
theorem not_reach_of_edge (hf : f.Treelike) (h : f.Edge a b) : ¬ f.Reach b a := by
  intro hr
  have hround : Relation.TransGen f.Edge a a := .head' h hr
  have hwf := hf.wellFounded.transGen
  induction a using hwf.induction generalizing b with
  | _ a ih => exact ih a (Relation.transGen_swap.2 hround) h hr hround

/-- A block that is attached lies below whatever its parent lies below. -/
theorem reach_parent (hf : f.Treelike) (hr : f.Reach a c) (hne : a ≠ c) (hp : f.Edge p c) :
    f.Reach a p := by
  obtain rfl | ⟨q, haq, j, hj⟩ := hr.cases_tail
  · exact absurd rfl hne
  · obtain ⟨k, hk⟩ := hp
    rw [(hf.single hk hj).1]
    exact haq

/-- Of two blocks above the same one, one is above the other. -/
theorem reach_total (hf : f.Treelike) (ha : f.Reach a x) (hb : f.Reach b x) :
    f.Reach a b ∨ f.Reach b a := by
  induction ha with
  | refl => exact .inr hb
  | @tail y z hay hyz ih =>
    by_cases hbz : b = z
    · subst hbz
      exact .inl (hay.tail hyz)
    · exact ih (hf.reach_parent hb hbz hyz)

/-- No block lies below two blocks that are attached to the same one. -/
theorem eq_of_siblings (hf : f.Treelike) (hc : f a k = some c) (hd : f a j = some d)
    (hcx : f.Reach c x) (hdx : f.Reach d x) : c = d := by
  by_cases hcd : c = d
  · exact hcd
  · obtain h | h := hf.reach_total hcx hdx
    · exact absurd (hf.reach_parent h hcd ⟨j, hd⟩) (hf.not_reach_of_edge ⟨k, hc⟩)
    · exact absurd (hf.reach_parent h (Ne.symm hcd) ⟨k, hc⟩) (hf.not_reach_of_edge ⟨j, hd⟩)

theorem eq_of_reach_of_free (hr : f.Reach a c) (hc : f.Free c) : a = c := by
  obtain rfl | ⟨q, _, j, hj⟩ := hr.cases_tail
  · rfl
  · exact absurd hj (hc q j)

/-- No block lies below two blocks that are attached nowhere. -/
theorem eq_of_free (hf : f.Treelike) (ha : f.Free a) (hb : f.Free b) (hax : f.Reach a x)
    (hbx : f.Reach b x) : a = b := by
  obtain h | h := hf.reach_total hax hbx
  · exact eq_of_reach_of_free h hb
  · exact (eq_of_reach_of_free h ha).symm

/-- The added link starts outside of what lies below its lower end, so there going
down comes to an end as before. -/
theorem acc_put_of_reach (hf : f.Treelike) (hp : ¬ f.Reach c p) (hx : f.Reach c x) :
    Acc (fun d a => LinkMap.Edge (f.put p k (some c)) a d) x := by
  induction x using hf.wellFounded.induction with
  | _ x ih =>
    constructor
    rintro y ⟨j, hj⟩
    have hne : ¬ (x = p ∧ j = k) := fun hk => hp (hk.1 ▸ hx)
    rw [put_of_ne f _ hne] at hj
    exact ih y ⟨j, hj⟩ (hx.tail ⟨j, hj⟩)

/-- A link may lead to a block that is attached nowhere, as long as it does not
start below it. -/
theorem put (hf : f.Treelike) (hc : f.Free c) (hp : ¬ f.Reach c p) :
    (f.put p k (some c)).Treelike where
  single := by
    intro a b i j d ha hb
    -- Of two links to the same block one may be new. Then the block is `c`, which was free.
    by_cases hi : a = p ∧ i = k <;> by_cases hj : b = p ∧ j = k
    · exact ⟨hi.1.trans hj.1.symm, hi.2.trans hj.2.symm⟩
    · rw [hi.1, hi.2, put_self, Option.some_inj] at ha
      rw [put_of_ne f _ hj, ← ha] at hb
      exact absurd hb (hc b j)
    · rw [hj.1, hj.2, put_self, Option.some_inj] at hb
      rw [put_of_ne f _ hi, ← hb] at ha
      exact absurd ha (hc a i)
    · rw [put_of_ne f _ hi] at ha
      rw [put_of_ne f _ hj] at hb
      exact hf.single ha hb
  wellFounded := by
    refine ⟨fun x => ?_⟩
    induction x using hf.wellFounded.induction with
    | _ x ih =>
      constructor
      rintro y ⟨j, hj⟩
      by_cases hk : x = p ∧ j = k
      · obtain ⟨rfl, rfl⟩ := hk
        rw [put_self, Option.some_inj] at hj
        exact hj ▸ hf.acc_put_of_reach hp .refl
      · rw [put_of_ne f _ hk] at hj
        exact ih y ⟨j, hj⟩

/-- If a block has been taken from where it was attached, what still lies above
some block below it lies below it too. -/
theorem reach_of_free (hf : f.Treelike) (hg : g.Sub f) (hc : g.Free c) (hd : g.Reach d x)
    (hx : f.Reach c x) : f.Reach c d := by
  induction hd with
  | refl => exact hx
  | @tail y z _ hyz ih =>
    obtain ⟨j, hj⟩ := hyz
    have hne : c ≠ z := by
      rintro rfl
      exact hc y j hj
    exact ih (hf.reach_parent hx hne ⟨j, hg hj⟩)

/-- A block `c` takes the place of `d` at a link of `p`, and `d` goes below some
block `t` that lies below `c`. Here `d` moves first: the other way round it would
still be attached when it is attached anew. -/
theorem splice (hf : f.Treelike) (hg : g.Sub f) (hc : g.Free c) (hp : ¬ f.Reach c p)
    (hd : f p k = some d) (hdc : d ≠ c) {t : BlockId} (ht : f.Reach c t) :
    ((g.put p k (some c)).put t j (some d)).Treelike := by
  have hdrop : (g.put p k none).Sub g := put_none_sub g p k
  have hcd : ¬ f.Reach c d := fun h => hp (hf.reach_parent h (Ne.symm hdc) ⟨k, hd⟩)
  have hpt : ¬ (p = t ∧ k = j) := by
    rintro ⟨rfl, _⟩
    exact hp ht
  have hdfree : (g.put p k none).Free d := by
    intro a i h
    obtain ⟨rfl, rfl⟩ := hf.single (hg (hdrop h)) hd
    rw [put_self] at h
    cases h
  have hlow : ((g.put p k none).put t j (some d)).Treelike := by
    apply ((hf.mono hg).mono hdrop).put hdfree
    intro h
    exact hcd (hf.reach_of_free hg hc (hdrop.reach h) ht)
  rw [put_comm g _ _ hpt, ← put_put _ p k none, ← put_comm g _ _ hpt]
  apply hlow.put
  · intro a i h
    by_cases ht : a = t ∧ i = j
    · obtain ⟨rfl, rfl⟩ := ht
      rw [put_self, Option.some_inj] at h
      exact hdc h
    · rw [put_of_ne _ _ ht] at h
      exact hc a i (hdrop h)
  · intro h
    obtain h | h := reach_put h
    · exact hp (hg.reach (hdrop.reach h))
    · exact hf.not_reach_of_edge ⟨k, hd⟩ (hg.reach (hdrop.reach h))

/-- A block `b` goes away, and what was attached at one of its links takes its
place. -/
theorem closeGap (hf : f.Treelike) (hb : f p k = some b) (hc : f b j = some c) :
    ((f.without [b]).put p k (some c)).Treelike := by
  apply (hf.mono (without_sub f [b])).put
  · intro a i h
    obtain ⟨rfl, rfl⟩ := hf.single (without_sub f [b] h) hc
    simp [without] at h
  · intro h
    have hup : f.Reach c p := (without_sub f [b]).reach h
    exact hf.not_reach_of_edge ⟨j, hc⟩ (hup.tail ⟨k, hb⟩)

end Treelike

end LinkMap

end BlockSketch
