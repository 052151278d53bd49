import BlockSketch.Workspace.Arena

/-!
Searching an arena.  Two searches follow links: one collects everything that
hangs from a block, the other goes along a chain to its last block.  Both
remember where they have been, so that they come to an end on every arena: each
new block they look at is one fewer that they have not seen.
-/

namespace BlockSketch.Arena

def Linked (arena : Arena) (a b : BlockId) : Prop :=
  ∃ block, arena.find? a = some block ∧ b ∈ block.children

/-- One block can be reached from another by any number of links. -/
inductive Reachable (arena : Arena) (a : BlockId) : BlockId → Prop
  | refl : Reachable arena a a
  | step {b c : BlockId} : Reachable arena a b → Linked arena b c → Reachable arena a c

def unseen (arena : Arena) (seen : List BlockId) : Nat :=
  List.countP (fun b => b.id ∉ seen) arena

theorem unseen_cons_le (arena : Arena) (seen : List BlockId) (id : BlockId) :
    arena.unseen (id :: seen) ≤ arena.unseen seen := by
  apply List.countP_mono_left
  intro b _ h
  simp only [List.mem_cons, not_or, decide_eq_true_eq] at h ⊢
  exact h.2

theorem unseen_cons_lt {arena : Arena} {seen : List BlockId} {id : BlockId} {b : Block}
    (hb : arena.find? id = some b) (hs : id ∉ seen) :
    arena.unseen (id :: seen) < arena.unseen seen := by
  have hid := id_of_find? hb
  have hm := mem_of_find? hb
  clear hb
  induction arena with
  | nil => cases hm
  | cons c rest ih =>
    have hle := unseen_cons_le rest seen id
    simp only [unseen, List.mem_cons, not_or] at hle ih ⊢
    rcases List.mem_cons.1 hm with rfl | hm
    · simp only [List.countP_cons, hid]
      simp [hs]
      simp at hle
      omega
    · simp only [List.countP_cons]
      refine Nat.add_lt_add_of_lt_of_le (ih hm) ?_
      by_cases hc : c.id ∈ seen <;> by_cases hi : c.id = id <;> simp [hc, hi]

/-- Collects what can be reached from the blocks on a stack, beside what has
been seen already. -/
def collect (arena : Arena) (seen : List BlockId) (stack : List BlockId) : List BlockId :=
  match stack with
  | [] => seen
  | id :: rest =>
    if id ∈ seen then collect arena seen rest
    else
      match _h : arena.find? id with
      | none => collect arena (id :: seen) rest
      | some b => collect arena (id :: seen) (b.children ++ rest)
termination_by (arena.unseen seen, stack.length)
decreasing_by
  · exact Prod.Lex.right _ (by simp)
  · rcases Nat.lt_or_eq_of_le (unseen_cons_le arena seen id) with h | h
    · exact Prod.Lex.left _ _ h
    · rw [h]; exact Prod.Lex.right _ (by simp)
  · exact Prod.Lex.left _ _ (unseen_cons_lt ‹_› ‹_›)

def descendants (arena : Arena) (id : BlockId) : List BlockId :=
  arena.collect [] [id]

def lastFrom (arena : Arena) (seen : List BlockId) (id : BlockId) : BlockId :=
  match _h : arena.find? id with
  | none => id
  | some b =>
    match b.next with
    | none => id
    | some next => if _h : id ∈ seen then id else lastFrom arena (id :: seen) next
termination_by arena.unseen seen
decreasing_by exact unseen_cons_lt ‹_› ‹_›

def chainTail (arena : Arena) (head : BlockId) : BlockId :=
  arena.lastFrom [] head

end BlockSketch.Arena
