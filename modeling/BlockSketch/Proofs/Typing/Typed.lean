import BlockSketch.Proofs.Graph.Runs
import BlockSketch.Proofs.Typing.Admitted

/-!
Programs keep to their types. In a typed workspace every block holds the fields
and slots that its type declares and no others, every field holds a value that
it admits, and every link goes from a socket to a block that fits it.

The kinds of blocks never change, so a link that was typed stays typed as long
as both of its ends are there. What an edit has to answer for are the links that
it makes; it checks most of them itself. Two it does not check: what comes after
a deleted block moves to where the block was, and a chain that makes room goes
to the end of another one. Both were attached as parts of a chain before, and
are again.
-/

namespace BlockSketch

namespace BlockType

variable {type : BlockType} {b : Block} {k : Link}

def HasLink (type : BlockType) : Link → Prop
  | .next => type.sockets.next = true
  | .statement slot => slot ∈ type.sockets.statementSlots
  | .value slot => slot ∈ type.sockets.valueSlots.map ValueSlot.name

/-- Blocks of the type can be attached at such a link. -/
def FitsAt (type : BlockType) : Link → Prop
  | .next => type.isChainable = true
  | .statement _ => type.isChainable = true
  | .value _ => type.isPluggable = true

/-- A block has what the type declares, in the order of the declarations. -/
structure Describes (type : BlockType) (b : Block) : Prop where
  fields : b.fields.names = type.fields.map FieldSpec.name
  statements : b.statements.names = type.sockets.statementSlots
  values : b.values.names = type.sockets.valueSlots.map ValueSlot.name
  admits : ∀ spec ∈ type.fields, ∀ value, b.fields.get? spec.name = some value → spec.Admits value

theorem hasLink_target {target : StatementTarget} :
    type.HasLink target.link ↔ Workspace.hasTarget type target = true := by
  cases target with
  | next => rfl
  | slot name =>
    simp [HasLink, StatementTarget.link, Workspace.hasTarget, Sockets.hasStatementSlot]

theorem hasLink_value {slot : String} :
    type.HasLink (.value slot) ↔ (type.sockets.valueSlot? slot).isSome = true := by
  simp [HasLink, Sockets.valueSlot?]

theorem fitsAt_target {target : StatementTarget} :
    type.FitsAt target.link ↔ type.isChainable = true := by
  cases target <;> rfl

/-- A block is described as before when something else is attached to it. -/
theorem Describes.withLink (h : type.Describes b) (hk : type.HasLink k) (c : Option BlockId) :
    type.Describes (b.withLink k c) := by
  cases k with
  | next => exact ⟨h.fields, h.statements, h.values, h.admits⟩
  | statement slot =>
    refine ⟨h.fields, ?_, h.values, h.admits⟩
    show (b.statements.insert slot c).names = _
    rw [Entries.names_insert_of_mem (by rw [h.statements]; exact hk), h.statements]
  | value slot =>
    refine ⟨h.fields, h.statements, ?_, h.admits⟩
    show (b.values.insert slot c).names = _
    rw [Entries.names_insert_of_mem (by rw [h.values]; exact hk), h.values]

/-- A declared field that is looked up is the one that is declared. -/
theorem field?_of_mem (hd : (type.fields.map FieldSpec.name).Nodup) {spec : FieldSpec}
    (hs : spec ∈ type.fields) : type.field? spec.name = some spec := by
  rw [field?]
  revert hd hs
  induction type.fields with
  | nil => exact fun _ hs => absurd hs List.not_mem_nil
  | cons first rest ih =>
    intro hd hs
    rw [List.map_cons, List.nodup_cons] at hd
    obtain rfl | hs := List.mem_cons.1 hs
    · simp
    · have hne : first.name ≠ spec.name := fun he => hd.1 (he ▸ List.mem_map_of_mem hs)
      rw [List.find?_cons_of_neg (by simpa using hne)]
      exact ih hd.2 hs

theorem Describes.storeField (h : type.Describes b) (hd : (type.fields.map FieldSpec.name).Nodup)
    {name : String} {spec : FieldSpec} (hs : type.field? name = some spec) {value : FieldValue}
    (hv : spec.Admits value) :
    type.Describes { b with fields := b.fields.insert name value } := by
  have hname : spec.name = name := by simpa using List.find?_some hs
  have hmem : spec ∈ type.fields := List.mem_of_find?_eq_some hs
  refine ⟨?_, h.statements, h.values, ?_⟩
  · have hdeclared : name ∈ b.fields.names := by
      rw [h.fields, ← hname]
      exact List.mem_map_of_mem hmem
    show (b.fields.insert name value).names = _
    rw [Entries.names_insert_of_mem hdeclared, h.fields]
  · intro other hother stored hstored
    have hstored : (b.fields.insert name value).get? other.name = some stored := hstored
    rw [Entries.get?_insert] at hstored
    split at hstored
    · rename_i hsame
      have heq : other = spec := by
        have hother := field?_of_mem hd hother
        rw [hsame, hs, Option.some_inj] at hother
        exact hother.symm
      rw [Option.some_inj] at hstored
      rw [heq, ← hstored]
      exact hv
    · exact h.admits other hother stored hstored

end BlockType

namespace Workspace

variable {registry : Registry} {w w' : Workspace} {a c id p : BlockId} {k : Link}

def Offers (w : Workspace) (a : BlockId) (k : Link) : Prop :=
  ∃ type, w.typeOf a = .ok type ∧ type.HasLink k

def Suits (w : Workspace) (c : BlockId) (k : Link) : Prop :=
  ∃ type, w.typeOf c = .ok type ∧ type.FitsAt k

def Described (registry : Registry) (arena : Arena) : Prop :=
  ∀ b ∈ arena, ∃ type, registry.get? b.kind = some type ∧ type.Describes b

/-- Blocks and links keep to the types, and the board is one that there is. -/
structure Typed (w : Workspace) : Prop where
  board : w.board ∈ Board.all
  described : Described w.registry w.arena
  links : ∀ {a k c}, w.arena.linked? a k = some c → w.Offers a k ∧ w.Suits c k

theorem Offers.mem_ids (h : w.Offers a k) : a ∈ w.arena.ids := by
  obtain ⟨_, ht, _⟩ := h
  obtain ⟨_, hb, _⟩ := typeOf_eq_ok.1 ht
  exact Arena.mem_ids_of_find? hb

theorem typeOf_remove {arena : Arena} {gone : List BlockId} {x : BlockId} {type : BlockType}
    (hx : x ∈ (arena.remove gone).ids) (h : (w.withArena arena).typeOf x = .ok type) :
    (w.withArena (arena.remove gone)).typeOf x = .ok type := by
  obtain ⟨b, hb, ht⟩ := typeOf_eq_ok.1 h
  refine typeOf_of_find? (b := b) ?_ ht
  rw [Arena.ids_remove, List.mem_filter, decide_eq_true_eq] at hx
  show (arena.remove gone).find? x = some b
  rw [Arena.find?_remove, if_neg hx.2]
  exact hb

theorem typeOf_add {type added : BlockType} {position : Position} (h : w.typeOf id = .ok type) :
    (w.add added position).typeOf id = .ok type := by
  obtain ⟨b, hb, ht⟩ := typeOf_eq_ok.1 h
  refine typeOf_of_find? (b := b) ?_ ht
  show Arena.find? (w.arena ++ _) id = some b
  rw [Arena.find?_append, hb]
  rfl

/-! ### Rewiring -/

namespace Typed

/-- Rewiring makes a typed workspace if the blocks and links it makes are typed. -/
theorem withArena (h : w.Typed) {arena : Arena} (ho : arena.outline = w.arena.outline)
    (hd : Described w.registry arena)
    (hl : ∀ {a k c}, arena.linked? a k = some c → w.Offers a k ∧ w.Suits c k) :
    (w.withArena arena).Typed where
  board := h.board
  described := hd
  links hk := by
    obtain ⟨⟨type, ht, hhas⟩, child, hc, hfits⟩ := hl hk
    rw [← typeOf_of_outline ho] at ht hc
    exact ⟨⟨type, ht, hhas⟩, child, hc, hfits⟩

theorem described_modify {arena : Arena} (ho : arena.outline = w.arena.outline)
    (ha : Described w.registry arena) (hd : w.arena.ids.Nodup) {f : Block → Block}
    (hkind : ∀ b, (f b).kind = b.kind)
    (hf : ∀ {type b}, w.typeOf p = .ok type → type.Describes b → type.Describes (f b)) :
    Described w.registry (arena.modify p f) := by
  intro b hb
  obtain ⟨d, hdmem, rfl⟩ := List.mem_map.1 hb
  obtain ⟨type, ht, hdescribes⟩ := ha d hdmem
  split
  · rename_i hid
    refine ⟨type, by rw [hkind]; exact ht, hf ?_ hdescribes⟩
    rw [← hid, ← typeOf_of_outline ho]
    refine typeOf_of_find? (w := w.withArena arena) (b := d) ?_ ht
    apply Arena.find?_of_mem _ hdmem
    show arena.ids.Nodup
    rw [Arena.ids_of_outline ho]
    exact hd
  · exact ⟨type, ht, hdescribes⟩

theorem described_setLink {arena : Arena} (ho : arena.outline = w.arena.outline)
    (ha : Described w.registry arena) (hd : w.arena.ids.Nodup) (hp : w.Offers p k)
    (c : Option BlockId) : Described w.registry (arena.setLink p k c) := by
  apply described_modify ho ha hd (fun b => Block.kind_withLink b k c)
  intro type b ht hdescribes
  obtain ⟨type', ht', hhas⟩ := hp
  rw [typeOf_unique ht' ht] at hhas
  exact hdescribes.withLink hhas c

theorem described_detach (h : w.Typed) (hc : w.Coherent) (c : BlockId) :
    Described w.registry (w.arena.detach c) := by
  unfold Arena.detach
  split
  · rename_i p k hp
    have hk := hc.forest.tidy.linked?_of_parent? hc.numbered.nodup hp
    exact described_setLink rfl h.described hc.numbered.nodup (h.links hk).1 none
  · exact h.described

theorem described_attach (h : w.Typed) (hc : w.Coherent) (hp : w.Offers p k) (c : BlockId) :
    Described w.registry (attach w.arena p k c) :=
  described_setLink (Arena.outline_detach ..) (h.described_detach hc c) hc.numbered.nodup hp _

theorem links_detach (h : w.Typed) (hc : w.Coherent) (c : BlockId) {a k d}
    (hk : (w.arena.detach c).linked? a k = some d) : w.Offers a k ∧ w.Suits d k :=
  h.links (hc.forest.tidy.detach_sub hc.numbered.nodup hc.forest.treelike c hk)

/-- Attaching a block leaves all links typed if the new one is. -/
theorem links_attach (h : w.Typed) (hc : w.Coherent) (hp : w.Offers p k) (hcs : w.Suits c k)
    {a j d} (hk : (attach w.arena p k c).linked? a j = some d) : w.Offers a j ∧ w.Suits d j := by
  rw [Arena.linked?_attach hp.mem_ids] at hk
  by_cases hnew : a = p ∧ j = k
  · obtain ⟨rfl, rfl⟩ := hnew
    rw [LinkMap.put_self, Option.some_inj] at hk
    exact ⟨hp, hk ▸ hcs⟩
  · rw [LinkMap.put_of_ne _ _ hnew] at hk
    exact h.links_detach hc c hk

theorem attach (h : w.Typed) (hc : w.Coherent) (hp : w.Offers p k) (hcs : w.Suits c k) :
    (w.withArena (Workspace.attach w.arena p k c)).Typed :=
  h.withArena (Arena.outline_attach ..) (h.described_attach hc hp c) (h.links_attach hc hp hcs)

/-! ### Connections -/

theorem disconnect (h : w.Typed) (hc : w.Coherent) (ha : w.disconnect id = .ok w') : w'.Typed := by
  obtain ⟨_, rfl⟩ := disconnect_eq_ok.1 ha
  exact h.withArena (Arena.outline_detach ..) (h.described_detach hc id) (h.links_detach hc id)

theorem connectValue (h : w.Typed) (hc : w.Coherent) {parent child : BlockId} {slot : String}
    (ha : w.connectValue parent slot child = .ok w') : w'.Typed := by
  obtain ⟨_, ⟨type, ht, hslot⟩, ⟨childType, hct, hplug⟩, hw'⟩ := connectValue_eq_ok.1 ha
  split at hw'
  · rw [hw']
    exact h
  · rw [hw']
    exact h.attach hc ⟨type, ht, BlockType.hasLink_value.2 hslot⟩ ⟨childType, hct, hplug⟩

theorem connectStatement (h : w.Typed) (hc : w.Coherent) {parent child : BlockId}
    {target : StatementTarget} (ha : w.connectStatement parent target child = .ok w') :
    w'.Typed := by
  obtain ⟨_, ⟨type, ht, htarget⟩, ⟨childType, hct, hchain⟩, hchained⟩ := connectStatement_eq_ok.1 ha
  have hoffers : w.Offers parent target.link := ⟨type, ht, BlockType.hasLink_target.2 htarget⟩
  have hsuits : w.Suits child target.link := ⟨childType, hct, BlockType.fitsAt_target.2 hchain⟩
  unfold Chained at hchained
  split at hchained
  · rw [hchained]
    exact h.attach hc hoffers hsuits
  · rename_i displaced hdisplaced
    split at hchained
    · rw [hchained]
      exact h
    · obtain ⟨⟨tailType, htail, hnext⟩, rfl⟩ := hchained
      have htailOffers : w.Offers (w.arena.chainTail child) .next := ⟨tailType, htail, hnext⟩
      have hdisplacedSuits : w.Suits displaced .next := by
        obtain ⟨displacedType, hdt, hfits⟩ := (h.links hdisplaced).2
        exact ⟨displacedType, hdt, BlockType.fitsAt_target.1 hfits⟩
      have ho := Arena.outline_attach w.arena parent target.link child
      apply h.withArena
      · rw [Arena.outline_setLink, ho]
      · exact described_setLink ho (h.described_attach hc hoffers child) hc.numbered.nodup
          htailOffers _
      · intro a k c hk
        rw [Arena.linked?_setLink (by rw [Arena.ids_of_outline ho]; exact htailOffers.mem_ids)] at hk
        by_cases hnew : a = w.arena.chainTail child ∧ k = .next
        · obtain ⟨rfl, rfl⟩ := hnew
          rw [LinkMap.put_self, Option.some_inj] at hk
          exact ⟨htailOffers, hk ▸ hdisplacedSuits⟩
        · rw [LinkMap.put_of_ne _ _ hnew] at hk
          exact h.links_attach hc hoffers hsuits hk

/-! ### Fields and the board -/

theorem storeField (h : w.Typed) (hc : w.Coherent) (hr : w.registry.Regular) {name : String}
    {spec : FieldSpec} {value : FieldValue} (hs : w.fieldSpec id name = .ok spec)
    (hv : spec.Admits value) : (w.storeField id name value).Typed := by
  obtain ⟨type, ht, hspec⟩ := fieldSpec_eq_ok.1 hs
  have ho : Arena.outline (w.arena.modify id fun b => { b with fields := b.fields.insert name value })
      = w.arena.outline := Arena.outline_modify _ _ (fun _ => rfl) fun _ => rfl
  apply h.withArena ho
  · refine described_modify (f := fun b => { b with fields := b.fields.insert name value }) rfl
      h.described hc.numbered.nodup (fun _ => rfl) ?_
    intro type' b ht' hdescribes
    obtain rfl := typeOf_unique ht ht'
    obtain ⟨_, _, hget⟩ := typeOf_eq_ok.1 ht
    exact hdescribes.storeField (hr hget).fields hspec hv
  · intro a k c hk
    apply h.links
    rwa [Arena.linked?_modify (f := fun b => { b with fields := b.fields.insert name value })
      (fun _ => rfl) (fun _ k => by cases k <;> rfl)] at hk

theorem regular_fieldSpec (hr : w.registry.Regular) {name : String} {spec : FieldSpec}
    (hs : w.fieldSpec id name = .ok spec) : spec.Regular := by
  obtain ⟨type, ht, hspec⟩ := fieldSpec_eq_ok.1 hs
  obtain ⟨_, _, hget⟩ := typeOf_eq_ok.1 ht
  exact (hr hget).specs spec (List.mem_of_find?_eq_some hspec)

theorem setField (h : w.Typed) (hc : w.Coherent) (hr : w.registry.Regular) {name : String}
    {value : FieldValue} (ha : w.setField id name value = .ok w') : w'.Typed := by
  obtain ⟨spec, stored, hs, hv, rfl⟩ := setField_eq_ok.1 ha
  exact h.storeField hc hr hs ((regular_fieldSpec hr hs).admits_of_validate h.board hv)

theorem restoreField (h : w.Typed) (hc : w.Coherent) (hr : w.registry.Regular) {name : String}
    {value : FieldValue} (ha : w.restoreField id name value = .ok w') : w'.Typed := by
  obtain ⟨spec, stored, hs, hv, rfl⟩ := restoreField_eq_ok.1 ha
  exact h.storeField hc hr hs (FieldSpec.admits_of_restorable hv)

theorem setBoard (h : w.Typed) {board : String} (ha : w.setBoard board = .ok w') : w'.Typed := by
  obtain ⟨board, hboard, rfl⟩ := setBoard_eq_ok.1 ha
  exact ⟨Board.mem_all_of_find? hboard, h.described, h.links⟩

/-! ### Blocks that come and go -/

theorem describes_freshBlock {type : BlockType} (hr : type.Regular) {board : Board}
    (hb : board ∈ Board.all) (id : BlockId) (position : Position) :
    type.Describes (freshBlock type board id position) := by
  constructor
  case fields =>
    show Entries.names (Entries.ofList _) = _
    rw [Entries.ofList_map hr.fields, Entries.names_map]
  case statements =>
    show Entries.names (Entries.ofList _) = _
    rw [Entries.ofList_map (f := fun slot => slot) (by simpa using hr.statementSlots),
      Entries.names_map]
    exact List.map_id _
  case values =>
    show Entries.names (Entries.ofList _) = _
    rw [Entries.ofList_map hr.valueSlots, Entries.names_map]
  case admits =>
    intro spec hspec value hvalue
    have hmem := Entries.mem_of_mem_ofList (Entries.mem_of_get? hvalue)
    obtain ⟨other, hother, heq⟩ := List.mem_map.1 hmem
    rw [Prod.mk.injEq] at heq
    have hsame := BlockType.field?_of_mem hr.fields hother
    rw [heq.1, BlockType.field?_of_mem hr.fields hspec, Option.some_inj] at hsame
    rw [← heq.2, ← hsame]
    exact (hr.specs spec hspec).admits_defaultValue hb

theorem add (h : w.Typed) (hr : w.registry.Regular) {kind : String} {type : BlockType}
    (ht : w.registry.get? kind = some type) (position : Position) : (w.add type position).Typed where
  board := h.board
  described := by
    intro b hb
    obtain hb | hb := List.mem_append.1 hb
    · exact h.described b hb
    · obtain rfl := List.mem_singleton.1 hb
      refine ⟨type, ?_, describes_freshBlock (hr ht) h.board _ _⟩
      rw [← Registry.kind_of_get? ht] at ht
      exact ht
  links hk := by
    have hk : Arena.linked? (w.arena ++ _) _ _ = some _ := hk
    rw [Arena.linked?_append_of_free _ (linked?_freshBlock _ _ _ _)] at hk
    obtain ⟨⟨type, ht, hhas⟩, child, hchild, hfits⟩ := h.links hk
    exact ⟨⟨type, typeOf_add ht, hhas⟩, child, typeOf_add hchild, hfits⟩

theorem create (h : w.Typed) (hr : w.registry.Regular) {kind : String} {position : Position}
    (ha : w.create kind position = .ok (w', id)) : w'.Typed := by
  obtain ⟨type, ht, _, rfl, _⟩ := create_eq_ok.1 ha
  exact h.add hr ht position

theorem ensureRoot (h : w.Typed) (hr : w.registry.Regular) (root : RootKind) :
    (w.ensureRoot root).Typed := by
  unfold Workspace.ensureRoot
  split
  · exact h.add hr ‹_› _
  · exact h

/-- What came after a block is part of a chain, and so is what comes to the
place of the block; an expression has nothing after it. -/
theorem suits_next (h : w.Typed) (hr : w.registry.Regular) {b : Block}
    (hb : w.arena.find? b.id = some b) (hk : w.arena.linked? a k = some b.id)
    (hnext : b.next = some c) : w.Suits c k := by
  have hlink : w.arena.linked? b.id .next = some c := (Arena.linked?_next_of_find? hb).trans hnext
  obtain ⟨⟨type, ht, hhas⟩, child, hchild, hchain⟩ := h.links hlink
  refine ⟨child, hchild, ?_⟩
  cases k with
  | next => exact hchain
  | statement slot => exact hchain
  | value slot =>
    obtain ⟨_, type', ht', hplug⟩ := h.links hk
    rw [typeOf_unique ht' ht] at hplug
    obtain ⟨_, _, hget⟩ := typeOf_eq_ok.1 ht
    have hend := (hr hget).ends hplug
    rw [BlockType.HasLink, hend] at hhas
    cases hhas

theorem described_closeGap (h : w.Typed) (hc : w.Coherent) (b : Block) :
    Described w.registry (closeGap w.arena b) := by
  unfold closeGap
  split
  · rename_i p k hp
    have hk := hc.forest.tidy.linked?_of_parent? hc.numbered.nodup hp
    exact described_setLink rfl h.described hc.numbered.nodup (h.links hk).1 _
  · split
    · exact described_modify (f := fun n => { n with position := b.position }) rfl h.described
        hc.numbered.nodup (fun _ => rfl) fun _ hd => ⟨hd.fields, hd.statements, hd.values, hd.admits⟩
    · exact h.described

theorem delete (h : w.Typed) (hc : w.Coherent) (hr : w.registry.Regular)
    (ha : w.delete id = .ok w') : w'.Typed := by
  obtain ⟨b, _, hb, _, _, _, rfl⟩ := delete_eq_ok.1 ha
  have hid := Arena.id_of_find? hb
  subst hid
  have ho := Arena.outline_closeGap w.arena b
  have hforest := hc.forest.delete hc.numbered.nodup hb
  refine ⟨h.board, fun d hd => h.described_closeGap hc b d (List.mem_filter.1 hd).1, ?_⟩
  intro a k c hk
  have hk : ((closeGap w.arena b).remove (b.id :: w.doomed b)).linked? a k = some c := hk
  have htyped : w.Offers a k ∧ w.Suits c k := by
    obtain ⟨_, ⟨hak, hnext⟩ | ⟨hac, _⟩⟩ := hc.forest.linked?_delete hc.numbered.nodup b hk
    · exact ⟨(h.links hak).1, h.suits_next hr hb hak hnext⟩
    · exact h.links hac
  obtain ⟨⟨type, ht, hhas⟩, child, hchild, hfits⟩ := htyped
  rw [← typeOf_of_outline ho] at ht hchild
  exact ⟨⟨type, typeOf_remove (Arena.mem_ids_of_linked? hk) ht, hhas⟩, child,
    typeOf_remove (hforest.present hk) hchild, hfits⟩

end Typed

/-! ### Programs that can come about -/

/-- Edits lead from a typed workspace to a typed one. -/
theorem stepwise_typed :
    Stepwise fun w w' => w.Coherent → w.registry.HasRoots → w.registry.Regular → w.Typed →
      w.Successor w' ∧ w'.Typed where
  refl w hc _ _ h := ⟨.refl hc, h⟩
  trans h₁ h₂ hc hroots hr h := by
    obtain ⟨hs, ht⟩ := h₁ hc hroots hr h
    obtain ⟨hs', ht'⟩ := h₂ hs.coherent (hs.registry ▸ hroots) (hs.registry ▸ hr) ht
    exact ⟨hs.trans hs', ht'⟩
  create ha hc hroots hr h := ⟨hc.create hroots ha, h.create hr ha⟩
  delete ha hc hroots hr h := ⟨hc.delete hroots ha, h.delete hc hr ha⟩
  setField ha hc _ hr h := ⟨hc.setField ha, h.setField hc hr ha⟩
  restoreField ha hc _ hr h := ⟨hc.restoreField ha, h.restoreField hc hr ha⟩
  connectStatement ha hc _ _ h := ⟨hc.connectStatement ha, h.connectStatement hc ha⟩
  connectValue ha hc _ _ h := ⟨hc.connectValue ha, h.connectValue hc ha⟩
  disconnect ha hc _ _ h := ⟨hc.disconnect ha, h.disconnect hc ha⟩
  setBoard ha hc _ _ h := ⟨hc.setBoard ha, h.setBoard ha⟩
  ensureRoots w hc hroots hr h := by
    refine ⟨(hc.ensureRoots hroots).1, ?_⟩
    have hsetup := (hc.ensureRoot hroots .setup).1
    exact (h.ensureRoot hr .setup).ensureRoot (hsetup.registry ▸ hr) .loop

theorem typed_bare {board : Board} (hb : board ∈ Board.all) : (bare registry board).Typed :=
  ⟨hb, nofun, fun hk => by cases hk⟩

/-- Every program that can come about is typed. -/
theorem Reached.typed (hroots : registry.HasRoots) (hr : registry.Regular)
    (h : Reached registry w) : w.Typed := by
  obtain ⟨board, hboard, hstep⟩ := stepwise_typed.reached h
  exact (hstep (coherent_bare registry board) hroots hr (typed_bare hboard)).2

end Workspace

end BlockSketch
