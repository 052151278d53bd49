import BlockSketch.Proofs.Graph.Chains
import BlockSketch.Proofs.Graph.Grounded

/-!
Attaching a chain, all of it. What is displaced and where the chain ends are read
off before the chain is taken from its old place, and the chain may come out of
what it displaces, out of a slot of it, or from another link of the same block.
In a forest none of this matters: when the chain may be attached depends on the
two blocks and the end of the chain alone, and what comes out is one equation
between lists.
-/

namespace BlockSketch

def BlockType.Declares (type : BlockType) : StatementTarget → Prop
  | .next => type.sockets.next = true
  | .slot name => name ∈ type.sockets.statementSlots

namespace Arena

/-- What links have no part in: the numbers, kinds, fields and places of the blocks,
in the order in which they were created. -/
def bodies (arena : Arena) : List (BlockId × String × Entries FieldValue × Position) :=
  arena.map fun b => (b.id, b.kind, b.fields, b.position)

variable {arena : Arena} {p c : BlockId} {k : Link}

@[simp] theorem bodies_setLink (arena : Arena) (p : BlockId) (k : Link) (c : Option BlockId) :
    (arena.setLink p k c).bodies = arena.bodies := by
  rw [bodies, bodies, setLink, modify, List.map_map]
  apply List.map_congr_left
  intro b _
  simp only [Function.comp_apply]
  split
  · cases k <;> rfl
  · rfl

@[simp] theorem bodies_detach (arena : Arena) (c : BlockId) :
    (arena.detach c).bodies = arena.bodies := by
  unfold detach
  split
  · exact bodies_setLink ..
  · rfl

@[simp] theorem bodies_attach (arena : Arena) (p : BlockId) (k : Link) (c : BlockId) :
    (Workspace.attach arena p k c).bodies = arena.bodies := by
  rw [Workspace.attach, bodies_setLink, bodies_detach]

/-- Which blocks are roots can be read off their kinds. -/
theorem isRoot_eq_false (hc : c ∈ arena.ids) :
    arena.isRoot c = false ↔
      ∃ b, arena.find? c = some b ∧ b.kind ≠ "root_setup" ∧ b.kind ≠ "root_loop" := by
  obtain ⟨b, hb⟩ := exists_find? hc
  have hkind : b.rootKind? = none ↔ b.kind ≠ "root_setup" ∧ b.kind ≠ "root_loop" := by
    rw [Block.rootKind?, Option.eq_none_iff_forall_ne_some]
    simp only [ne_eq, RootKind.ofKindName?_eq_some]
    refine ⟨fun h => ⟨h .setup, h .loop⟩, fun h root => ?_⟩
    cases root with
    | setup => exact h.1
    | loop => exact h.2
  rw [isRoot, hb, Option.bind_some, Option.isSome_eq_false_iff, Option.isNone_iff_eq_none, hkind]
  constructor
  · exact fun h => ⟨b, rfl, h⟩
  · rintro ⟨d, hd, h⟩
    exact Option.some.inj hd ▸ h

/-- The chain of a block, as far as its end and then its end. -/
theorem Forest.chain_chainTail (h : arena.Forest) (c : BlockId) :
    ∃ own, LinkMap.ChainFrom arena.linked? (some c) (own ++ [arena.chainTail c]) := by
  obtain ⟨chain, hchain⟩ := h.treelike.exists_chain (some c)
  have hsplit := List.dropLast_concat_getLast (List.ne_nil_of_mem hchain.mem_head)
  rw [← hsplit] at hchain
  exact ⟨chain.dropLast, chainTail_eq_last h.treelike hchain ▸ hchain⟩

end Arena

namespace Workspace

variable {registry : Registry} {w w' : Workspace} {parent child : BlockId}
  {target : StatementTarget} {link : Link}

theorem hasTarget_iff {type : BlockType} : hasTarget type target = true ↔ type.Declares target := by
  cases target <;> simp [hasTarget, BlockType.Declares, Sockets.hasStatementSlot]

theorem isChainable_iff {type : BlockType} :
    type.isChainable = true ↔ type.category = .statement ∧ type.sockets.previous = true := by
  simp [BlockType.isChainable]

/-! ### What is said of a connection -/

/-- What hangs at a link leaves room for a chain: nothing does, or the chain itself
does, or what does can go to the end of the chain. -/
def Room (w : Workspace) (parent : BlockId) (link : Link) (child : BlockId) : Prop :=
  w.arena.linked? parent link = none ∨ w.arena.linked? parent link = some child ∨
    ∃ own last type, LinkMap.ChainFrom w.arena.linked? (some child) (own ++ [last]) ∧
      w.typeOf last = .ok type ∧ type.sockets.next = true

structure Accepts (w : Workspace) (parent : BlockId) (target : StatementTarget)
    (child : BlockId) : Prop where
  parent_mem : parent ∈ w.arena.ids
  child_mem : child ∈ w.arena.ids
  notRoot : ∃ b, w.block? child = some b ∧ b.kind ≠ "root_setup" ∧ b.kind ≠ "root_loop"
  notBelow : ¬ w.arena.Reachable child parent
  parent_declares : ∃ type, w.typeOf parent = .ok type ∧ type.Declares target
  child_fits : ∃ type, w.typeOf child = .ok type ∧ type.category = .statement ∧
    type.sockets.previous = true
  room : w.Room parent target.link child

/-- What comes out when a chain is attached where it did not hang: the chains are
put together, and only links are changed. -/
structure Connected (w : Workspace) (parent : BlockId) (link : Link) (child : BlockId)
    (w' : Workspace) : Prop where
  spliced : ∃ own last before,
    LinkMap.Spliced w.arena.linked? w'.arena.linked? parent link child last own before
  bodies : w'.arena.bodies = w.arena.bodies
  registry : w'.registry = w.registry
  board : w'.board = w.board
  nextId : w'.nextId = w.nextId

structure ConnectsExactly (w : Workspace) (parent : BlockId) (target : StatementTarget)
    (child : BlockId) : Prop where
  accepted_iff : (∃ w', w.connectStatement parent target child = .ok w') ↔
    w.Accepts parent target child
  refused : ∀ e, w.connectStatement parent target child = .error e →
    w.after (.edit (.connect parent target child)) = w
  held : ∀ w', w.connectStatement parent target child = .ok w' →
    w.arena.linked? parent target.link = some child → w' = w
  connected : ∀ w', w.connectStatement parent target child = .ok w' →
    w.arena.linked? parent target.link ≠ some child → w.Connected parent target.link child w'

/-! ### When a chain is attached -/

theorem connectable_iff :
    w.Connectable parent child ↔ parent ∈ w.arena.ids ∧ child ∈ w.arena.ids ∧
      (∃ b, w.block? child = some b ∧ b.kind ≠ "root_setup" ∧ b.kind ≠ "root_loop") ∧
        ¬ w.arena.Reachable child parent := by
  constructor
  · rintro ⟨hp, hc, hroot, hbelow⟩
    exact ⟨hp, hc, (Arena.isRoot_eq_false hc).1 hroot, hbelow⟩
  · rintro ⟨hp, hc, hroot, hbelow⟩
    exact ⟨hp, hc, (Arena.isRoot_eq_false hc).2 hroot, hbelow⟩

/-- There is something to attach a chain to exactly if there is room. -/
theorem exists_chained_iff (hf : w.arena.Forest) :
    (∃ w', w.Chained parent link child w') ↔ w.Room parent link child := by
  unfold Chained Room
  cases hlink : w.arena.linked? parent link with
  | none => simp
  | some displaced =>
    by_cases hsame : displaced = child
    · simp [hsame]
    · obtain ⟨own, hown⟩ := hf.chain_chainTail child
      simp only [if_neg hsame, exists_and_left, exists_eq, and_true, reduceCtorEq, false_or,
        Option.some_inj]
      constructor
      · rintro ⟨type, ht, hnext⟩
        exact .inr ⟨own, _, hown, type, ht, hnext⟩
      · rintro (hchild | ⟨own', last, hown', type, ht, hnext⟩)
        · exact absurd hchild hsame
        · rw [← Arena.chainTail_eq_last hf.treelike hown'] at ht
          exact ⟨type, ht, hnext⟩

theorem exists_connected_iff (hf : w.arena.Forest) :
    (∃ w', w.connectStatement parent target child = .ok w') ↔ w.Accepts parent target child := by
  simp only [connectStatement_eq_ok, exists_and_left, exists_chained_iff hf, connectable_iff,
    hasTarget_iff, isChainable_iff]
  constructor
  · rintro ⟨⟨hp, hc, hroot, hbelow⟩, hparent, hchild, hroom⟩
    exact ⟨hp, hc, hroot, hbelow, hparent, hchild, hroom⟩
  · rintro ⟨hp, hc, hroot, hbelow, hparent, hchild, hroom⟩
    exact ⟨⟨hp, hc, hroot, hbelow⟩, hparent, hchild, hroom⟩

/-! ### What comes out -/

/-- A chain that is attached somewhere else is put together with what hung there. -/
theorem Chained.connected (h : w.Chained parent link child w') (hw : w.Grounded)
    (hc : w.Connectable parent child) (hne : w.arena.linked? parent link ≠ some child) :
    w.Connected parent link child w' := by
  have hf := hw.forest
  have hbelow := mt hf.tidy.reachable_iff.2 hc.notBelow
  have hdetach := Arena.detached_linked? hf.tidy hw.numbered.nodup hf.treelike child
  obtain ⟨own, hown⟩ := hf.chain_chainTail child
  unfold Chained at h
  cases hlink : w.arena.linked? parent link with
  | none =>
    rw [hlink] at h
    obtain rfl := h
    refine ⟨⟨own, w.arena.chainTail child, [], ?_⟩, Arena.bodies_attach .., rfl, rfl, rfl⟩
    show LinkMap.Spliced _ (attach w.arena parent link child).linked? ..
    rw [Arena.linked?_attach hc.parent_mem, hdetach]
    exact hf.treelike.spliced_of_none hbelow hown hlink
  | some displaced =>
    have hother : displaced ≠ child := fun heq => hne (heq ▸ hlink)
    obtain ⟨before, hbefore⟩ := hf.treelike.exists_chain (some displaced)
    simp only [hlink, if_neg hother] at h
    obtain ⟨-, rfl⟩ := h
    refine ⟨⟨own, w.arena.chainTail child, before, ?_⟩, ?_, rfl, rfl, rfl⟩
    · show LinkMap.Spliced _ ((attach w.arena parent link child).setLink _ _ _).linked? ..
      rw [hf.linked?_splice hc.parent_mem hc.child_mem, hdetach]
      exact hf.treelike.spliced_of_some hbelow hown hlink hother hbefore
    · exact (Arena.bodies_setLink ..).trans (Arena.bodies_attach ..)

/-- Any attempt to attach a chain, with any registry and any program that can come
about: when it is accepted, and what comes out. -/
theorem reached_connectsExactly (h : Reached registry w) (parent : BlockId)
    (target : StatementTarget) (child : BlockId) : w.ConnectsExactly parent target child := by
  obtain ⟨-, hw⟩ := h.grounded
  refine ⟨exists_connected_iff hw.forest, fun e he => ?_, fun w' hw' hheld => ?_,
    fun w' hw' hne => ?_⟩
  · simp only [after, perform, he]
    rfl
  · obtain ⟨-, -, -, hchained⟩ := connectStatement_eq_ok.1 hw'
    simpa [Chained, hheld] using hchained
  · obtain ⟨hc, -, -, hchained⟩ := connectStatement_eq_ok.1 hw'
    exact hchained.connected hw hc hne

/-- In a chain of five blocks the last but one is attached to the first, and so comes
out of the chain that it displaces. -/
theorem reached_connectsExactly_in_own_chain :
    let w := (onDefaultBoard .builtin).afterAll
      [.edit (.create "delay_ms" .origin), .edit (.create "delay_ms" .origin),
        .edit (.create "delay_ms" .origin), .edit (.create "delay_ms" .origin),
        .edit (.create "delay_ms" .origin), .edit (.connect ⟨3⟩ .next ⟨4⟩),
        .edit (.connect ⟨4⟩ .next ⟨5⟩), .edit (.connect ⟨5⟩ .next ⟨6⟩),
        .edit (.connect ⟨6⟩ .next ⟨7⟩)]
    Reached .builtin w ∧ w.arena.linked? ⟨3⟩ .next = some ⟨4⟩ ∧
      w.arena.linked? ⟨5⟩ .next = some ⟨6⟩ ∧ w.ConnectsExactly ⟨3⟩ .next ⟨6⟩ := by
  intro w
  have hreached : Reached .builtin w := ⟨_, .onDefaultBoard, _, rfl⟩
  have hlinks : w.arena.linked? ⟨3⟩ .next = some ⟨4⟩ ∧ w.arena.linked? ⟨5⟩ .next = some ⟨6⟩ := by
    unfold w
    simp only [afterAll_cons, afterAll_nil]
    rw [after_connect_of_bare ⟨3⟩ .next ⟨4⟩ rfl rfl (by decide) rfl rfl rfl rfl rfl rfl,
      after_connect_of_bare ⟨4⟩ .next ⟨5⟩ rfl rfl (by decide) rfl rfl rfl rfl rfl rfl,
      after_connect_of_bare ⟨5⟩ .next ⟨6⟩ rfl rfl (by decide) rfl rfl rfl rfl rfl rfl,
      after_connect_of_bare ⟨6⟩ .next ⟨7⟩ rfl rfl (by decide) rfl rfl rfl rfl rfl rfl]
    exact ⟨rfl, rfl⟩
  exact ⟨hreached, hlinks.1, hlinks.2, reached_connectsExactly hreached _ _ _⟩

end Workspace

end BlockSketch
