import BlockSketch.Proofs.Graph.Rewire

/-!
Chains as lists. In a forest the blocks of a chain are a list without
repetitions, and the walk along a chain comes to the last of them. When a block
`c` is taken from where it is and attached elsewhere, it brings its chain along,
and what hung there goes to the end of that chain. If `c` was itself in what hung
there, only the part before it is left to go there.
-/

namespace BlockSketch

namespace LinkMap

/-- The blocks of a chain, from its head on. -/
inductive ChainFrom (f : LinkMap) : Option BlockId → List BlockId → Prop
  | nil : ChainFrom f none []
  | cons {a : BlockId} {rest : List BlockId} :
      ChainFrom f (f a .next) rest → ChainFrom f (some a) (a :: rest)

/-- The same links, except that nothing leads to a block. -/
def detached (f : LinkMap) (c : BlockId) : LinkMap :=
  fun a k => if f a k = some c then none else f a k

/-- A block `c` has come to the link `k` of `p`. It has brought its chain, which
ends with `t`, and the chain that hung there comes behind it, up to `c` if `c` was
in there. The link that led to `c` leads nowhere. Beside that link only the new
place is changed, and the end of the chain that came, if there was something to go
there. -/
structure Spliced (f g : LinkMap) (p : BlockId) (k : Link) (c t : BlockId)
    (own before : List BlockId) : Prop where
  brought : f.ChainFrom (some c) (own ++ [t])
  hung : f.ChainFrom (f p k) before
  hangs : g.ChainFrom (g p k) (own ++ [t] ++ before.takeWhile (· ≠ c))
  left : ∀ a j, f a j = some c → g a j = none
  others : ∀ a j, f a j ≠ some c → ¬ (a = p ∧ j = k) →
    (before = [] ∨ ¬ (a = t ∧ j = .next)) → g a j = f a j

variable {f g : LinkMap} {a c d p t x : BlockId} {k : Link} {head : Option BlockId}
  {chain init before : List BlockId}

namespace ChainFrom

theorem mem_head (h : f.ChainFrom (some a) chain) : a ∈ chain := by
  cases h
  exact List.mem_cons_self

/-- What is in a chain lies below its head. -/
theorem reach (h : f.ChainFrom (some a) chain) (hx : x ∈ chain) : f.Reach a x := by
  induction chain generalizing a with
  | nil => cases hx
  | cons b rest ih =>
    obtain ⟨⟩ | ⟨hrest⟩ := h
    rcases List.mem_cons.1 hx with rfl | hx
    · exact .refl
    · cases hnext : f b .next with
      | none =>
        rw [hnext] at hrest
        cases hrest
        cases hx
      | some n =>
        rw [hnext] at hrest
        exact .head ⟨.next, hnext⟩ (ih hrest hx)

/-- A chain depends on nothing but what comes after each of its blocks. -/
theorem congr (h : f.ChainFrom head chain) (hg : ∀ x ∈ chain, g x .next = f x .next) :
    g.ChainFrom head chain := by
  induction h with
  | nil => exact .nil
  | @cons a rest _ ih =>
    have hrest := ih fun x hx => hg x (List.mem_cons_of_mem _ hx)
    rw [← hg a List.mem_cons_self] at hrest
    exact .cons hrest

/-- What comes after the last block of a chain is changed. -/
theorem extend {more : List BlockId} (h : f.ChainFrom head (init ++ [t]))
    (hg : ∀ x ∈ init, g x .next = f x .next) (hmore : g.ChainFrom (g t .next) more) :
    g.ChainFrom head (init ++ [t] ++ more) := by
  induction init generalizing head with
  | nil =>
    obtain ⟨⟩ | ⟨-⟩ := h
    exact .cons hmore
  | cons a rest ih =>
    obtain ⟨⟩ | ⟨hrest⟩ := h
    rw [← hg a List.mem_cons_self] at hrest
    exact .cons (ih hrest fun x hx => hg x (List.mem_cons_of_mem _ hx))

/-- A chain that is cut before one of its blocks. -/
theorem cut (h : f.ChainFrom head chain) (hhead : head ≠ some c)
    (hg : ∀ x ∈ chain.takeWhile (· ≠ c), g x .next = f.detached c x .next) :
    g.ChainFrom head (chain.takeWhile (· ≠ c)) := by
  induction h with
  | nil => exact .nil
  | @cons a rest hrest ih =>
    have hac : a ≠ c := fun heq => hhead (congrArg some heq)
    have htake : (a :: rest).takeWhile (· ≠ c) = a :: rest.takeWhile (· ≠ c) := by
      simp [hac]
    rw [htake] at hg ⊢
    refine .cons ?_
    rw [hg a List.mem_cons_self, detached]
    split
    next hnext =>
      rw [hnext] at hrest
      cases hrest
      simpa using ChainFrom.nil
    next hnext => exact ih hnext fun x hx => hg x (List.mem_cons_of_mem _ hx)

end ChainFrom

namespace Treelike

theorem exists_chain (hf : f.Treelike) (head : Option BlockId) :
    ∃ chain, f.ChainFrom head chain := by
  cases head with
  | none => exact ⟨[], .nil⟩
  | some a =>
    induction a using hf.wellFounded.induction with
    | _ a ih =>
      cases hnext : f a .next with
      | none => exact ⟨[a], .cons (hnext ▸ .nil)⟩
      | some n =>
        obtain ⟨rest, hrest⟩ := ih n ⟨.next, hnext⟩
        exact ⟨a :: rest, .cons (hnext ▸ hrest)⟩

theorem nodup_chain (hf : f.Treelike) (h : f.ChainFrom head chain) : chain.Nodup := by
  induction h with
  | nil => exact List.nodup_nil
  | @cons a rest hrest ih =>
    refine List.nodup_cons.2 ⟨fun hmem => ?_, ih⟩
    cases hnext : f a .next with
    | none =>
      rw [hnext] at hrest
      cases hrest
      cases hmem
    | some n =>
      rw [hnext] at hrest
      exact hf.not_reach_of_edge ⟨.next, hnext⟩ (hrest.reach hmem)

/-- Before a block `c` in a chain that does not hang from it there is nothing that
lies below `c`. -/
theorem not_reach_before (hf : f.Treelike) (h : f.ChainFrom head chain)
    (hhead : ∀ a, head = some a → ¬ f.Reach c a) (hx : x ∈ chain.takeWhile (· ≠ c)) :
    ¬ f.Reach c x := by
  induction h with
  | nil => cases hx
  | @cons a rest hrest ih =>
    have ha : ¬ f.Reach c a := hhead a rfl
    rw [List.takeWhile_cons] at hx
    split at hx
    next =>
      rcases List.mem_cons.1 hx with rfl | hx
      · exact ha
      · refine ih (fun n hnext hcn => ?_) hx
        by_cases hne : c = n
        · -- Then the chain is cut here, and nothing is left.
          subst hne
          rw [hnext] at hrest
          cases hrest
          simp at hx
        · exact ha (hf.reach_parent hcn hne ⟨.next, hnext⟩)
    next => cases hx

/-- Links below a block are not touched when the block is attached elsewhere. -/
theorem put_detached_of_reach (hf : f.Treelike) (hp : ¬ f.Reach c p) (hx : f.Reach c x)
    (v : Option BlockId) (j : Link) : (f.detached c).put p k v x j = f x j := by
  have hxp : ¬ (x = p ∧ j = k) := fun h => hp (h.1 ▸ hx)
  rw [put_of_ne _ _ hxp, detached, if_neg fun hj => hf.not_reach_of_edge ⟨j, hj⟩ hx]

/-- A block brings its chain along. -/
theorem chain_attached (hf : f.Treelike) (hp : ¬ f.Reach c p) (hown : f.ChainFrom (some c) chain) :
    ((f.detached c).put p k (some c)).ChainFrom (some c) chain :=
  hown.congr fun _ hx => hf.put_detached_of_reach hp (hown.reach hx) ..

/-- A block brings its chain along, and what hung from its new place comes behind
it, up to the block itself if it was in there. -/
theorem chain_spliced (hf : f.Treelike) (hp : ¬ f.Reach c p)
    (hown : f.ChainFrom (some c) (init ++ [t])) (hd : f p k = some d) (hdc : d ≠ c)
    (hbefore : f.ChainFrom (some d) before) :
    (((f.detached c).put p k (some c)).put t .next (some d)).ChainFrom (some c)
      (init ++ [t] ++ before.takeWhile (· ≠ c)) := by
  have hbelow : ∀ x ∈ init ++ [t], f.Reach c x := fun x hx => hown.reach hx
  have hnotInit : ∀ x ∈ init, x ≠ t := by
    have hnodup := List.nodup_append.1 (hf.nodup_chain hown)
    exact fun x hx => hnodup.2.2 x hx t (List.mem_singleton_self t)
  have hcd : ¬ f.Reach c d := fun h => hp (hf.reach_parent h (Ne.symm hdc) ⟨k, hd⟩)
  refine hown.extend (fun x hx => ?_) ?_
  · rw [put_of_ne _ _ fun h => hnotInit x hx h.1]
    exact hf.put_detached_of_reach hp (hbelow x (List.mem_append_left _ hx)) ..
  · rw [put_self]
    refine hbefore.cut (by simpa using hdc) fun x hx => ?_
    have hxt : x ≠ t := by
      rintro rfl
      refine hf.not_reach_before hbefore ?_ hx (hbelow x (by simp))
      rintro a ⟨⟩
      exact hcd
    have hxp : x ≠ p := by
      rintro rfl
      exact hf.not_reach_of_edge ⟨k, hd⟩ (hbefore.reach (List.takeWhile_subset _ hx))
    rw [put_of_ne _ _ fun h => hxt h.1, put_of_ne _ _ fun h => hxp h.1]

/-- A block comes to a place where nothing hangs. -/
theorem spliced_of_none (hf : f.Treelike) (hp : ¬ f.Reach c p)
    (hown : f.ChainFrom (some c) (init ++ [t])) (hd : f p k = none) :
    f.Spliced ((f.detached c).put p k (some c)) p k c t init [] where
  brought := hown
  hung := hd ▸ .nil
  hangs := by
    rw [put_self, List.takeWhile_nil, List.append_nil]
    exact hf.chain_attached hp hown
  left a j haj := by
    have hne : ¬ (a = p ∧ j = k) := by
      rintro ⟨rfl, rfl⟩
      rw [hd] at haj
      cases haj
    rw [put_of_ne _ _ hne, detached, if_pos haj]
  others a j haj hne _ := by
    rw [put_of_ne _ _ hne, detached, if_neg haj]

/-- A block comes to a place where another one hangs. -/
theorem spliced_of_some (hf : f.Treelike) (hp : ¬ f.Reach c p)
    (hown : f.ChainFrom (some c) (init ++ [t])) (hd : f p k = some d) (hdc : d ≠ c)
    (hbefore : f.ChainFrom (some d) before) :
    f.Spliced (((f.detached c).put p k (some c)).put t .next (some d)) p k c t init before where
  brought := hown
  hung := hd ▸ hbefore
  hangs := by
    -- The end of the brought chain lies below `c`, and the new place does not.
    have hpt : ¬ (p = t ∧ k = .next) := by
      rintro ⟨rfl, -⟩
      exact hp (hown.reach (by simp))
    rw [put_of_ne _ _ hpt, put_self]
    exact hf.chain_spliced hp hown hd hdc hbefore
  left a j haj := by
    have hat : ¬ (a = t ∧ j = .next) := by
      rintro ⟨rfl, -⟩
      exact hf.not_reach_of_edge ⟨j, haj⟩ (hown.reach (by simp))
    have hap : ¬ (a = p ∧ j = k) := by
      rintro ⟨rfl, rfl⟩
      rw [hd, Option.some_inj] at haj
      exact hdc haj
    rw [put_of_ne _ _ hat, put_of_ne _ _ hap, detached, if_pos haj]
  others a j haj hap hat := by
    have hmem := List.ne_nil_of_mem hbefore.mem_head
    rw [put_of_ne _ _ (hat.resolve_left hmem), put_of_ne _ _ hap, detached, if_neg haj]

end Treelike

end LinkMap

namespace Arena

variable {arena : Arena} {id : BlockId} {chain : List BlockId}

theorem detached_linked? (h : arena.Tidy) (hd : arena.ids.Nodup)
    (hf : LinkMap.Treelike arena.linked?) (c : BlockId) :
    (arena.detach c).linked? = LinkMap.detached arena.linked? c :=
  funext₂ (h.linked?_detach hd hf)

/-- The walk along a chain comes to the last of its blocks. -/
theorem getLast?_lastFrom (seen : List BlockId)
    (h : LinkMap.ChainFrom arena.linked? (some id) chain) (hnodup : chain.Nodup)
    (hseen : ∀ x ∈ chain, x ∉ seen) : chain.getLast? = some (arena.lastFrom seen id) := by
  induction chain generalizing id seen with
  | nil => cases h
  | cons a rest ih =>
    obtain ⟨⟩ | ⟨hrest⟩ := h
    rw [lastFrom]
    split
    next hnone =>
      rw [linked?_eq_none_of_not_mem (find?_eq_none.1 hnone)] at hrest
      cases hrest
      rfl
    next b hb =>
      rw [linked?_of_find? hb] at hrest
      split
      next hnext =>
        have hlast : b.linked? .next = none := hnext
        rw [hlast] at hrest
        cases hrest
        rfl
      next n hnext =>
        have hmore : b.linked? .next = some n := hnext
        rw [hmore] at hrest
        obtain ⟨hnew, hnodup⟩ := List.nodup_cons.1 hnodup
        rw [dif_neg (hseen _ List.mem_cons_self), List.getLast?_cons_of_ne_nil
          (List.ne_nil_of_mem hrest.mem_head)]
        refine ih _ hrest hnodup fun x hx hmem => ?_
        rcases List.mem_cons.1 hmem with rfl | hmem
        · exact hnew hx
        · exact hseen x (List.mem_cons_of_mem _ hx) hmem

/-- The end of a chain is the last of its blocks. -/
theorem chainTail_eq_last {t : BlockId} (hf : LinkMap.Treelike arena.linked?)
    (h : LinkMap.ChainFrom arena.linked? (some id) (chain ++ [t])) : arena.chainTail id = t := by
  have hlast := getLast?_lastFrom [] h (hf.nodup_chain h) fun _ _ => List.not_mem_nil
  rw [List.getLast?_concat, Option.some_inj] at hlast
  exact hlast.symm

end Arena

end BlockSketch
