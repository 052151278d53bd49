import BlockSketch.Proofs.Snapshot.Canonical
import BlockSketch.Proofs.Typing.Typed

/-!
What is stored of a typed program fits the registry, and is in canonical form
already. A block, what is plugged into it and what comes after it are looked at
together; the induction is along links, from what is attached to a block to the
block.
-/

namespace BlockSketch

/-! ### Slots one by one -/

namespace StoredBlock

variable {registry : Registry} {board : Board} {type : BlockType}

theorem slotsFit_of_forall {slots : List (String × List StoredBlock)}
    (h : ∀ slot chain, (slot, chain) ∈ slots →
      ChainFits registry board (slot ∈ type.sockets.statementSlots) chain) :
    SlotsFit registry board type slots := by
  induction slots with
  | nil => trivial
  | cons entry rest ih =>
    exact ⟨h _ _ (List.mem_cons_self ..),
      ih fun slot chain hmem => h slot chain (List.mem_cons_of_mem _ hmem)⟩

theorem valuesFit_of_forall {values : List (String × StoredBlock)}
    (h : ∀ slot b, (slot, b) ∈ values → slot ∈ type.sockets.valueSlots.map ValueSlot.name ∧
      registry.Plugs b.kind ∧ b.Fits registry board) :
    ValuesFit registry board type values := by
  induction values with
  | nil => trivial
  | cons entry rest ih =>
    obtain ⟨hslot, hplugs, hfits⟩ := h _ _ (List.mem_cons_self ..)
    exact ⟨hslot, hplugs, hfits, ih fun slot b hmem => h slot b (List.mem_cons_of_mem _ hmem)⟩

theorem canonicalSlots_eq_self {slots : List (String × List StoredBlock)}
    (h : ∀ slot chain, (slot, chain) ∈ slots →
      chain ≠ [] ∧ canonicalChain registry board chain = chain) :
    canonicalSlots registry board slots = slots := by
  induction slots with
  | nil => rfl
  | cons entry rest ih =>
    obtain ⟨slot, chain⟩ := entry
    obtain ⟨hne, hsame⟩ := h slot chain (List.mem_cons_self ..)
    have hrest := ih fun slot chain hmem => h slot chain (List.mem_cons_of_mem _ hmem)
    cases chain with
    | nil => exact absurd rfl hne
    | cons b chain =>
      rw [canonicalChain] at hsame
      rw [canonicalSlots, hrest, hsame]

theorem canonicalValues_eq_self {values : List (String × StoredBlock)}
    (h : ∀ slot b, (slot, b) ∈ values → canonical registry board b = b) :
    canonicalValues registry board values = values := by
  induction values with
  | nil => rfl
  | cons entry rest ih =>
    obtain ⟨slot, b⟩ := entry
    rw [canonicalValues, h slot b (List.mem_cons_self ..),
      ih fun slot b hmem => h slot b (List.mem_cons_of_mem _ hmem)]

/-- A block that fits and is in canonical form. -/
structure Settled (registry : Registry) (board : Board) (s : StoredBlock) : Prop where
  fits : s.Fits registry board
  canonical : s.canonical registry board = s

structure ChainSettled (registry : Registry) (board : Board) (place : Prop)
    (chain : List StoredBlock) : Prop where
  fits : ChainFits registry board place chain
  canonical : canonicalChain registry board chain = chain

theorem ChainSettled.cons {place : Prop} {b : StoredBlock} {rest : List StoredBlock}
    (hplace : place) (hchains : registry.Chains b.kind) (hb : b.Settled registry board)
    (hrest : ChainSettled registry board (registry.Continues b.kind) rest) :
    ChainSettled registry board place (b :: rest) :=
  ⟨⟨hplace, hchains, hb.fits, hrest.fits⟩, by rw [canonicalChain, hb.canonical, hrest.canonical]⟩

end StoredBlock

/-! ### Typed programs -/

namespace Workspace

open StoredBlock

def SettledAt (w : Workspace) (x : BlockId) : Prop :=
  ∀ b, w.arena.find? x = some b → (w.arena.tree b).Settled w.registry w.board ∧
    ChainSettled w.registry w.board (w.registry.Continues b.kind) (w.arena.rest b)

namespace Typed

variable {w : Workspace} {a c x : BlockId} {b d : Block} {k : Link} {type : BlockType}

/-- A block that is attached is not a root. -/
theorem rootKind?_of_linked (hc : w.Coherent) (hk : w.arena.linked? a k = some c)
    (hd : w.arena.find? c = some d) : RootKind.ofKindName? d.kind = none := by
  have hroot := hc.forest.rootsFree hk
  rw [Arena.isRoot, hd, Option.bind_some, Block.rootKind?] at hroot
  simpa using hroot

theorem chains_of_linked (h : w.Typed) (hc : w.Coherent) (hk : w.arena.linked? a k = some c)
    (hfits : ∀ type : BlockType, type.FitsAt k → type.isChainable = true)
    (hd : w.arena.find? c = some d) : w.registry.Chains d.kind := by
  obtain ⟨_, type, ht, hat⟩ := h.links hk
  obtain ⟨d', hd', hget⟩ := typeOf_eq_ok.1 ht
  rw [hd, Option.some_inj] at hd'
  exact ⟨rootKind?_of_linked hc hk hd, type, hd' ▸ hget, hfits type hat⟩

theorem plugs_of_linked (h : w.Typed) (hc : w.Coherent) {slot : String}
    (hk : w.arena.linked? a (.value slot) = some c) (hd : w.arena.find? c = some d) :
    w.registry.Plugs d.kind := by
  obtain ⟨_, type, ht, hat⟩ := h.links hk
  obtain ⟨d', hd', hget⟩ := typeOf_eq_ok.1 ht
  rw [hd, Option.some_inj] at hd'
  exact ⟨rootKind?_of_linked hc hk hd, type, hd' ▸ hget, hat⟩

/-- The type of a block has a place where something is attached. -/
theorem hasLink_of_linked (h : w.Typed) (hk : w.arena.linked? a k = some c)
    (hb : w.arena.find? a = some b) (hget : w.registry.get? b.kind = some type) :
    type.HasLink k := by
  obtain ⟨⟨type', ht', hhas⟩, _⟩ := h.links hk
  rwa [typeOf_unique ht' (typeOf_of_find? hb hget)] at hhas

/-- The fields of a typed block fit, and are stored in canonical form. -/
theorem fields_settled (ht : type.DeclaresOnce) (hb : type.Describes b) (board : Board) :
    FieldsFit type board b.fields ∧ canonicalFields board type b.fields = b.fields := by
  have hd : Entries.Distinct b.fields := by
    rw [Entries.Distinct, hb.fields]
    exact ht.fields
  have hadmitted : ∀ name value, (name, value) ∈ b.fields → ∃ spec, type.field? name = some spec ∧
      restorable spec value board = .ok value := by
    intro name value hmem
    have hname := Entries.mem_names_of_mem hmem
    rw [hb.fields] at hname
    obtain ⟨spec, hspec, rfl⟩ := List.mem_map.1 hname
    exact ⟨spec, BlockType.field?_of_mem ht.fields hspec,
      hb.admits spec hspec value ((Entries.get?_eq_some hd).2 hmem) board⟩
  have hrestored : restoredFields type board b.fields = b.fields := by
    rw [restoredFields]
    conv => rhs; rw [← List.map_id b.fields]
    apply List.map_congr_left
    rintro ⟨name, value⟩ hmem
    obtain ⟨spec, hspec, hvalue⟩ := hadmitted name value hmem
    simp only [restoredValue, hspec, hvalue, id]
  constructor
  · refine ⟨hd, fun name value hmem => ?_⟩
    obtain ⟨spec, hspec, hvalue⟩ := hadmitted name value hmem
    exact ⟨spec, value, hspec, hvalue⟩
  · have hnames : Entries.names (canonicalFields board type b.fields) = Entries.names b.fields :=
      (Entries.names_map ..).trans hb.fields.symm
    apply Entries.eq_of_get? hd hnames
    intro name hname
    obtain ⟨⟨given, value⟩, hmem, rfl⟩ := List.mem_map.1 hname
    rw [(Entries.get?_eq_some hd).2 hmem, Entries.get?_eq_some]
    · obtain ⟨spec, hspec, _⟩ := hadmitted given value hmem
      have hsame : spec.name = given := by simpa using List.find?_some hspec
      refine List.mem_map.2 ⟨spec, List.mem_of_find?_eq_some hspec, ?_⟩
      rw [hrestored, hsame, (Entries.get?_eq_some hd).2 hmem]
      rfl
    · rw [Entries.Distinct, hnames]
      exact hd

theorem kind_tree (hc : w.Coherent) (hb : w.arena.find? x = some b) :
    (w.arena.tree b).kind = b.kind := by
  rw [hc.forest.tree_eq hb]

/-- A chain is settled if its first block is, and what comes after it. -/
theorem chain_settled (h : w.Typed) (hc : w.Coherent) {place : Prop}
    (hk : w.arena.linked? a k = some c)
    (hfits : ∀ type : BlockType, type.FitsAt k → type.isChainable = true) (hplace : place)
    (hsettled : w.SettledAt c) : ChainSettled w.registry w.board place (w.arena.chain c) := by
  obtain ⟨d, hd⟩ := Arena.exists_find? (hc.forest.present hk)
  obtain ⟨htree, hrest⟩ := hsettled d hd
  have hkind := kind_tree hc hd
  rw [hc.forest.chain_eq hd]
  apply ChainSettled.cons hplace _ htree
  · rw [hkind]
    exact hrest
  · rw [hkind]
    exact h.chains_of_linked hc hk hfits hd

section Parts

variable (h : w.Typed) (hc : w.Coherent) (hb : w.arena.find? x = some b)
  (hget : w.registry.get? b.kind = some type)
  (hbelow : ∀ k c, w.arena.linked? x k = some c → w.SettledAt c)

include h hc hb hget hbelow

theorem statements_settled {slot : String} {chain : List StoredBlock}
    (hmem : (slot, chain) ∈ (w.arena.tree b).statements) :
    chain ≠ [] ∧ ChainSettled w.registry w.board (slot ∈ type.sockets.statementSlots) chain := by
  obtain ⟨c, hk, rfl⟩ := (hc.forest.mem_statements hb).1 hmem
  exact ⟨hc.forest.chain_ne_nil (hc.forest.present hk),
    h.chain_settled hc hk (fun _ hat => hat) (h.hasLink_of_linked hk hb hget) (hbelow _ c hk)⟩

theorem values_settled {slot : String} {s : StoredBlock}
    (hmem : (slot, s) ∈ (w.arena.tree b).values) :
    slot ∈ type.sockets.valueSlots.map ValueSlot.name ∧ w.registry.Plugs s.kind ∧
      s.Settled w.registry w.board := by
  obtain ⟨c, d, hk, hd, rfl⟩ := (hc.forest.mem_values hb).1 hmem
  rw [kind_tree hc hd]
  exact ⟨h.hasLink_of_linked hk hb hget, h.plugs_of_linked hc hk hd, (hbelow _ c hk d hd).1⟩

theorem rest_settled :
    ChainSettled w.registry w.board (w.registry.Continues b.kind) (w.arena.rest b) := by
  unfold Arena.rest
  cases hnext : b.next with
  | none => exact ⟨trivial, rfl⟩
  | some c =>
    have hk : w.arena.linked? x .next = some c := (Arena.linked?_next_of_find? hb).trans hnext
    exact h.chain_settled hc hk (fun _ hat => hat) ⟨type, hget, h.hasLink_of_linked hk hb hget⟩
      (hbelow _ c hk)

theorem tree_fits (hfields : FieldsFit type w.board b.fields) :
    (w.arena.tree b).Fits w.registry w.board := by
  obtain ⟨hds, hdv⟩ := hc.forest.distinct_tree hb
  have hslots := slotsFit_of_forall fun slot chain hmem =>
    (h.statements_settled hc hb hget hbelow hmem).2.fits
  have hvalues := valuesFit_of_forall fun slot s hmem => by
    obtain ⟨hslot, hplugs, hs⟩ := h.values_settled hc hb hget hbelow hmem
    exact ⟨hslot, hplugs, hs.fits⟩
  have hfits : (⟨b.kind, b.fields, (w.arena.tree b).statements,
      (w.arena.tree b).values⟩ : StoredBlock).Fits w.registry w.board :=
    ⟨type, hget, hfields, hds, hslots, hdv, hvalues⟩
  rw [hc.forest.tree_eq hb] at hfits ⊢
  exact hfits

theorem tree_canonical (ht : type.DeclaresOnce) (hdescribes : type.Describes b)
    (hsame : canonicalFields w.board type b.fields = b.fields) :
    (w.arena.tree b).canonical w.registry w.board = w.arena.tree b := by
  have htree := hc.forest.tree_eq_collect hb
  rw [hdescribes.statements, hdescribes.values] at htree
  have hslots := canonicalSlots_eq_self fun slot chain hmem => by
    obtain ⟨hne, hchain⟩ := h.statements_settled hc hb hget hbelow hmem
    exact ⟨hne, hchain.canonical⟩
  have hvalues := canonicalValues_eq_self fun slot s hmem =>
    (h.values_settled hc hb hget hbelow hmem).2.2.canonical
  rw [htree] at hslots hvalues ⊢
  rw [canonical, hget]
  simp only [hsame, hslots, hvalues]
  congr 1
  · exact Entries.collect_congr fun slot hslot => Entries.get?_collect ht.statementSlots _ hslot
  · exact Entries.collect_congr fun slot hslot => Entries.get?_collect ht.valueSlots _ hslot

end Parts

theorem tree_settled (h : w.Typed) (hc : w.Coherent) (hr : w.registry.Regular) :
    ∀ x ∈ w.arena.ids, w.SettledAt x := by
  refine hc.forest.link_induct fun x _ _ hbelow b hb => ?_
  obtain ⟨type, hget, hdescribes⟩ := h.described b (Arena.mem_of_find? hb)
  have ht := (hr hget).toDeclaresOnce
  obtain ⟨hfields, hsame⟩ := fields_settled ht hdescribes w.board
  exact ⟨⟨h.tree_fits hc hb hget hbelow hfields,
      h.tree_canonical hc hb hget hbelow ht hdescribes hsame⟩,
    h.rest_settled hc hb hget hbelow⟩

end Typed

end Workspace

end BlockSketch
