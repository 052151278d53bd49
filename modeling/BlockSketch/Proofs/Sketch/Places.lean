import BlockSketch.Proofs.Sketch.Printer

/-!
Where the statements of a program stand. A place is a statement together with how
many slots of other statements lie around it. From a place one gets to the next
statement of the chain, which is as deep, and to the first statement of a slot,
which is one deeper (`Step`); the places of a program begin in the slots of the
roots (`Placed`). Links come together nowhere, so a statement has one place.

Expressions hold no statements. So what hangs from a statement and is a statement
itself is got to by such steps alone, and along each step the page of what follows
is a part of the page of what went before.
-/

namespace BlockSketch

open Sketch

/-! ### Places -/

/-- A statement, and how many slots of other statements lie around it. -/
structure Place where
  block : BlockId
  depth : Nat
deriving DecidableEq, Repr

namespace Place

/-- From a statement to the next one of its chain, or to the first one in a slot. -/
inductive Step (arena : Arena) : Place → Place → Prop
  | next {x c : BlockId} {d : Nat} : arena.linked? x .next = some c → Step arena ⟨x, d⟩ ⟨c, d⟩
  | inner {x c : BlockId} {slot : String} {d : Nat} :
    arena.linked? x (.statement slot) = some c → Step arena ⟨x, d⟩ ⟨c, d + 1⟩

def Leads (arena : Arena) : Place → Place → Prop :=
  Relation.ReflTransGen (Step arena)

/-- The places of a program begin in the slots of the roots, which do not count. -/
inductive Placed (arena : Arena) : Place → Prop
  | first {kind : RootKind} {root c : BlockId} {slot : String} :
    arena.root? kind = some root → arena.linked? root (.statement slot) = some c →
      Placed arena ⟨c, 0⟩
  | step {p q : Place} : Placed arena p → Step arena p q → Placed arena q

variable {arena : Arena} {p q : Place}

theorem Step.depth_le (h : Step arena p q) : p.depth ≤ q.depth := by
  cases h with
  | next => exact Nat.le_refl _
  | inner => exact Nat.le_succ _

theorem Leads.depth_le (h : Leads arena p q) : p.depth ≤ q.depth := by
  induction h with
  | refl => exact Nat.le_refl _
  | tail _ hstep ih => exact Nat.le_trans ih hstep.depth_le

theorem Placed.leads (hp : Placed arena p) (h : Leads arena p q) : Placed arena q := by
  induction h with
  | refl => exact hp
  | tail _ hstep ih => exact ih.step hstep

/-- How much deeper it is at the end of a link. -/
def rise : Link → Nat
  | .next => 0
  | _ => 1

theorem Step.exists_link (h : Step arena p q) :
    ∃ k, arena.linked? p.block k = some q.block ∧ q.depth = p.depth + rise k := by
  cases h with
  | next hk => exact ⟨_, hk, rfl⟩
  | inner hk => exact ⟨_, hk, rfl⟩

/-- A root has no place. -/
theorem not_placed_root (hf : arena.Forest) (hd : arena.ids.Nodup) {kind : RootKind}
    {root : BlockId} (h : arena.root? kind = some root) (d : Nat) : ¬ Placed arena ⟨root, d⟩ := by
  have hfree := free_of_root hf hd h
  intro hp
  cases hp with
  | first _ hk => exact hfree _ _ hk
  | step _ hstep =>
    obtain ⟨k, hk, -⟩ := hstep.exists_link
    exact hfree _ k hk

/-- What a placed block is attached to is a root, or has a place itself. -/
theorem Placed.above (hf : arena.Forest) (hq : Placed arena q) {a : BlockId} {k : Link}
    (hk : arena.linked? a k = some q.block) :
    (∃ kind, arena.root? kind = some a ∧ q.depth = 0) ∨
      ∃ d, Placed arena ⟨a, d⟩ ∧ q.depth = d + rise k := by
  cases hq with
  | first hroot hk' =>
    obtain ⟨rfl, -⟩ := hf.treelike.single hk hk'
    exact .inl ⟨_, hroot, rfl⟩
  | step hp hstep =>
    obtain ⟨j, hj, hdepth⟩ := hstep.exists_link
    obtain ⟨rfl, rfl⟩ := hf.treelike.single hk hj
    exact .inr ⟨_, hp, hdepth⟩

/-- A statement stands at one depth. -/
theorem Placed.depth_eq (hf : arena.Forest) (hd : arena.ids.Nodup) (hp : Placed arena p) :
    ∀ {d}, Placed arena ⟨p.block, d⟩ → d = p.depth := by
  induction hp with
  | first hroot hk =>
    intro d hq
    obtain ⟨_, _, hdepth⟩ | ⟨e, he, _⟩ := hq.above hf hk
    · exact hdepth
    · exact absurd he (not_placed_root hf hd hroot e)
  | step hp hstep ih =>
    intro d hq
    obtain ⟨k, hk, hdepth⟩ := hstep.exists_link
    obtain ⟨_, hroot, _⟩ | ⟨e, he, hdepth'⟩ := hq.above hf hk
    · exact absurd hp (not_placed_root hf hd hroot _)
    · rw [hdepth, ← ih he]
      exact hdepth'

end Place

namespace Workspace

open Place

variable {w : Workspace} {a c x y : BlockId} {slot : String} {p q : Place}

/-! ### Statements have places -/

theorem Typed.isStatement_next (h : w.Typed) (hk : w.arena.linked? a .next = some c) :
    w.IsStatement c := by
  obtain ⟨-, type, ht, hfits⟩ := h.links hk
  exact isStatement_of_chainable ht hfits

theorem Typed.isStatement_inner (h : w.Typed)
    (hk : w.arena.linked? a (.statement slot) = some c) : w.IsStatement c := by
  obtain ⟨-, type, ht, hfits⟩ := h.links hk
  exact isStatement_of_chainable ht hfits

theorem Typed.isExpression_value (h : w.Typed)
    (hk : w.arena.linked? a (.value slot) = some c) : w.IsExpression c := by
  obtain ⟨-, type, ht, hfits⟩ := h.links hk
  exact isExpression_of_pluggable ht hfits

theorem Typed.isStatement_of_step (h : w.Typed) (hs : Step w.arena p q) :
    w.IsStatement q.block := by
  cases hs with
  | next hk => exact h.isStatement_next hk
  | inner hk => exact h.isStatement_inner hk

theorem Typed.isStatement_of_placed (h : w.Typed) (hp : Placed w.arena p) :
    w.IsStatement p.block := by
  cases hp with
  | first _ hk => exact h.isStatement_inner hk
  | step _ hs => exact h.isStatement_of_step hs

theorem typeOf_mem_types (hreg : w.registry = .builtin) {type : BlockType}
    (ht : w.typeOf x = .ok type) : type ∈ Library.types := by
  obtain ⟨b, _, hget⟩ := typeOf_eq_ok.1 ht
  exact Registry.mem_of_get?_ofList (hreg ▸ hget)

/-- From an expression there is nothing to be got to but expressions. -/
theorem Typed.isExpression_of_linked (h : w.Typed) (hreg : w.registry = .builtin)
    (ha : w.IsExpression a) {k : Link} (hk : w.arena.linked? a k = some c) :
    w.IsExpression c := by
  have hends : ∀ type ∈ Library.types, type.category = .value →
      type.sockets.next = false ∧ type.sockets.statementSlots = [] := by
    decide +kernel
  obtain ⟨type, ht, hvalue, -⟩ := ha
  obtain ⟨⟨type', ht', hhas⟩, -⟩ := h.links hk
  obtain rfl := typeOf_unique ht ht'
  obtain ⟨hnext, hslots⟩ := hends type (typeOf_mem_types hreg ht) hvalue
  cases k with
  | next => exact absurd (hnext.symm.trans hhas) (by decide)
  | statement slot =>
    have hmem : slot ∈ type.sockets.statementSlots := hhas
    rw [hslots] at hmem
    exact absurd hmem List.not_mem_nil
  | value slot => exact h.isExpression_value hk

/-- What hangs from a place is an expression, or one gets to it. -/
theorem Typed.leads_or_isExpression (h : w.Typed) (hreg : w.registry = .builtin)
    (hr : LinkMap.Reach w.arena.linked? p.block y) :
    (∃ d, Leads w.arena p ⟨y, d⟩) ∨ w.IsExpression y := by
  induction hr with
  | refl => exact .inl ⟨p.depth, .refl⟩
  | @tail y z _ hedge ih =>
    obtain ⟨k, hk⟩ := hedge
    obtain ⟨d, hd⟩ | hy := ih
    · cases k with
      | next => exact .inl ⟨d, hd.tail (.next hk)⟩
      | statement slot => exact .inl ⟨d + 1, hd.tail (.inner hk)⟩
      | value slot => exact .inr (h.isExpression_value hk)
    · exact .inr (h.isExpression_of_linked hreg hy hk)

/-- From a root one gets into the program through a slot for statements. -/
theorem Typed.slot_of_root (h : w.Typed) (hc : w.Coherent) (hreg : w.registry = .builtin)
    {kind : RootKind} {root : BlockId} (hroot : w.arena.root? kind = some root) {k : Link}
    (hk : w.arena.linked? root k = some c) : k = .statement "DO" := by
  obtain ⟨b, hb, hkind⟩ := Arena.find?_of_root? hc.numbered.nodup hroot
  have hsockets : ∀ kind : RootKind, ∃ type, Registry.builtin.get? kind.kindName = some type ∧
      type.sockets = { Sockets.none with statementSlots := ["DO"] } := by
    intro kind
    cases kind <;> exact ⟨_, rfl, rfl⟩
  obtain ⟨type, hget, hsockets⟩ := hsockets kind
  have hhas := h.hasLink_of_linked hk hb (by rw [hreg, hkind, hget])
  unfold BlockType.HasLink at hhas
  rw [hsockets] at hhas
  cases k with
  | next => cases hhas
  | statement slot => rw [List.mem_singleton.1 hhas]
  | value slot => cases hhas

/-- What hangs from a root and is no expression has a place, unless it is the root. -/
theorem Typed.exists_placed (h : w.Typed) (hc : w.Coherent) (hreg : w.registry = .builtin)
    {kind : RootKind} {root : BlockId} (hroot : w.arena.root? kind = some root)
    (hr : LinkMap.Reach w.arena.linked? root y) (hne : y ≠ root) :
    (∃ d, Placed w.arena ⟨y, d⟩) ∨ w.IsExpression y := by
  obtain rfl | ⟨k, c, hk, hcy⟩ := LinkMap.reach_iff_head.1 hr
  · exact absurd rfl hne
  · obtain rfl := h.slot_of_root hc hreg hroot hk
    exact (h.leads_or_isExpression (p := ⟨c, 0⟩) hreg hcy).imp_left fun ⟨d, hd⟩ =>
      ⟨d, (Placed.first hroot hk).leads hd⟩

/-! ### The pages of places -/

/-- The lines of a place: those of its statement and of what comes after it. -/
def pageAt (w : Workspace) (p : Place) : List PageLine :=
  StoredBlock.chainPage p.depth (p.depth + 1) (w.arena.chain p.block)

/-- A statement with a slot has a header, whatever is seen of it. -/
theorem exists_header {type : BlockType} (htype : type ∈ Library.types)
    (hstatement : type.category = .statement) (hslot : slot ∈ type.sockets.statementSlots)
    (ctx : Context) : slot = "DO" ∧ ∃ header, Library.header? ctx type.kind = some header := by
  have hall : ∀ type ∈ Library.types, type.category = .statement →
      ∀ slot ∈ type.sockets.statementSlots,
        slot = "DO" ∧ (Library.header? default type.kind).isSome = true := by
    decide +kernel
  obtain ⟨hdo, hsome⟩ := hall type htype hstatement slot hslot
  rw [StoredBlock.isSome_header? default ctx] at hsome
  exact ⟨hdo, Option.isSome_iff_exists.1 hsome⟩

/-- The page of a container has the page of its chain inside. -/
theorem page_tree (hc : w.Coherent) {b : Block} (hb : w.arena.find? x = some b) (d : Nat)
    {header : String}
    (hheader : Library.header? (StoredBlock.sight d b.kind b.fields (w.arena.tree b).values)
      b.kind = some header) :
    (w.arena.tree b).page d (d + 1) = enclosed (d + 1) header
      ((w.arena.linked? x (.statement "DO")).map fun c => w.pageAt ⟨c, d + 1⟩) := by
  have hslots := hc.forest.get?_statements_tree hb "DO"
  have hkind : (w.arena.tree b).kind = b.kind := Typed.kind_tree hc hb
  have hfields : (w.arena.tree b).fields = b.fields := by rw [hc.forest.tree_eq hb]
  rw [← hkind, ← hfields] at hheader
  generalize w.arena.tree b = s at *
  obtain ⟨kind, fields, statements, values⟩ := s
  rw [StoredBlock.page_of_header hheader, StoredBlock.get?_slotPages, hslots, Option.map_map]
  rfl

theorem pageAt_eq (hc : w.Coherent) {b : Block} (hb : w.arena.find? p.block = some b) :
    w.pageAt p = (w.arena.tree b).page p.depth (p.depth + 1) ++
      StoredBlock.chainPage p.depth (p.depth + 1) (w.arena.rest b) := by
  rw [pageAt, hc.forest.chain_eq hb, StoredBlock.chainPage]

theorem infix_enclosed (level : Nat) (header : String) (inner : List PageLine) :
    inner <:+: enclosed level header (some inner) :=
  (List.prefix_append ..).isInfix.trans (List.suffix_cons ..).isInfix

/-- After a step there is a part of the page. -/
theorem Typed.infix_of_step (h : w.Typed) (hc : w.Coherent) (hreg : w.registry = .builtin)
    (hp : w.IsStatement p.block) (hs : Step w.arena p q) : w.pageAt q <:+: w.pageAt p := by
  obtain ⟨type, ht, hstatement, -⟩ := hp
  have htype := typeOf_mem_types hreg ht
  obtain ⟨b, hb, hget⟩ := typeOf_eq_ok.1 ht
  rw [pageAt_eq hc hb]
  cases hs with
  | next hk =>
    have hnext : b.next = some _ := (Arena.linked?_next_of_find? hb).symm.trans hk
    rw [Arena.rest, hnext]
    exact (List.suffix_append ..).isInfix
  | inner hk =>
    have hslot := h.hasLink_of_linked hk hb hget
    obtain ⟨rfl, header, hheader⟩ := exists_header htype hstatement hslot
      (StoredBlock.sight _ b.kind b.fields (w.arena.tree b).values)
    rw [Registry.kind_of_get? hget] at hheader
    rw [page_tree hc hb _ hheader, hk]
    exact (infix_enclosed ..).trans (List.prefix_append ..).isInfix

theorem Typed.infix_of_leads (h : w.Typed) (hc : w.Coherent) (hreg : w.registry = .builtin)
    (hp : w.IsStatement p.block) (hl : Leads w.arena p q) : w.pageAt q <:+: w.pageAt p := by
  suffices w.IsStatement q.block ∧ w.pageAt q <:+: w.pageAt p from this.2
  induction hl with
  | refl => exact ⟨hp, List.infix_rfl⟩
  | tail _ hs ih => exact ⟨h.isStatement_of_step hs, (h.infix_of_step hc hreg ih.1 hs).trans ih.2⟩

/-- What has a place has its page in that of a root. -/
theorem Typed.infix_of_placed (h : w.Typed) (hc : w.Coherent) (hg : w.Grounded)
    (hreg : w.registry = .builtin) (hp : Placed w.arena p) :
    ∃ kind tree, w.save.rootTree? kind = some tree ∧ w.pageAt p <:+: tree.rootPage kind := by
  induction hp with
  | @first kind root c slot hroot hk =>
    obtain ⟨b, hb, hkind⟩ := Arena.find?_of_root? hc.numbered.nodup hroot
    refine ⟨kind, w.arena.tree b, ?_, ?_⟩
    · rw [rootTree?_save hg, hroot, Option.bind_some, hb, Option.map_some]
    · cases h.slot_of_root hc hreg hroot hk
      rw [StoredBlock.rootPage, StoredBlock.get?_slotPages, hc.forest.get?_statements_tree hb, hk]
      exact infix_enclosed ..
  | step hp hs ih =>
    obtain ⟨kind, tree, htree, hinfix⟩ := ih
    exact ⟨kind, tree, htree,
      (h.infix_of_step hc hreg (h.isStatement_of_placed hp) hs).trans hinfix⟩

end Workspace

end BlockSketch
