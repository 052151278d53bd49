import BlockSketch.Proofs.Snapshot.WellFormed

/-!
What is rebuilt from a snapshot. Every block that the snapshot names is there
once, at the place that the layout gives it; the roots that were missing stand
behind, as if the snapshot had listed them (`Laid.ensureRoots`). So what comes out
can be read off the snapshot alone, and is stored in its canonical form.
-/

namespace BlockSketch

open StoredBlock

/-! ### The canonical form of a snapshot -/

/-- The blocks of stacks and those in their slots, at any depth. -/
def StoredBlock.canvasInside (canvas : List StoredStack) : List StoredBlock :=
  canvas.flatMap fun stack => chainInside stack.blocks

def Snapshot.blocks (s : Snapshot) : List StoredBlock :=
  canvasInside s.canvas

/-- A root by itself, where it is put that nobody has placed. -/
def StoredStack.ofRoot (root : RootKind) : StoredStack :=
  ⟨(Workspace.rootPosition root).x, (Workspace.rootPosition root).y,
    [⟨root.kindName, [], [], []⟩]⟩

/-- A root is registered, and no block of the stacks is of its kind. -/
def Registry.Lacks (registry : Registry) (canvas : List StoredStack) (root : RootKind) : Prop :=
  (registry.get? root.kindName).isSome = true ∧ ∀ b ∈ canvasInside canvas, b.kind ≠ root.kindName

instance (registry : Registry) (canvas : List StoredStack) (root : RootKind) :
    Decidable (registry.Lacks canvas root) :=
  inferInstanceAs (Decidable (_ ∧ _))

theorem StoredBlock.canvasInside_append (canvas more : List StoredStack) :
    canvasInside (canvas ++ more) = canvasInside canvas ++ canvasInside more :=
  List.flatMap_append

theorem StoredBlock.canvasInside_ofRoot (roots : List RootKind) :
    (canvasInside (roots.map StoredStack.ofRoot)).map StoredBlock.kind =
      roots.map RootKind.kindName := by
  induction roots with
  | nil => rfl
  | cons root rest ih => exact congrArg (root.kindName :: ·) ih

theorem Registry.lacks_append_ofRoot {registry : Registry} {canvas : List StoredStack}
    {root other : RootKind} (h : other ≠ root) :
    registry.Lacks (canvas ++ [.ofRoot root]) other ↔ registry.Lacks canvas other := by
  have hkind : root.kindName ≠ other.kindName := fun hsame => h <|
    Option.some_inj.1 <| (RootKind.ofKindName?_eq_some.2 hsame).symm.trans
      (RootKind.ofKindName?_kindName root)
  have hroot : ∀ b ∈ canvasInside [.ofRoot root], b.kind ≠ other.kindName :=
    List.forall_mem_singleton.2 hkind
  rw [Lacks, Lacks, canvasInside_append, List.forall_mem_append]
  exact and_congr_right fun _ => and_iff_left hroot

/-- Stacks, and behind them those of the roots that they do not have. -/
def StoredStack.withRoots (registry : Registry) (canvas : List StoredStack)
    (roots : List RootKind) : List StoredStack :=
  canvas ++ (roots.filter fun root => registry.Lacks canvas root).map StoredStack.ofRoot

theorem StoredStack.withRoots_nil (registry : Registry) (canvas : List StoredStack) :
    withRoots registry canvas [] = canvas :=
  List.append_nil _

theorem StoredStack.withRoots_of_lacks {registry : Registry} {canvas : List StoredStack}
    {root : RootKind} (h : registry.Lacks canvas root) :
    withRoots registry canvas [root] = canvas ++ [.ofRoot root] := by
  simp [withRoots, h]

theorem StoredStack.withRoots_of_not_lacks {registry : Registry} {canvas : List StoredStack}
    {root : RootKind} (h : ¬ registry.Lacks canvas root) :
    withRoots registry canvas [root] = canvas := by
  simp [withRoots, h]

/-- A root that is put behind is no reason for another one not to be. -/
theorem StoredStack.withRoots_cons {registry : Registry} {canvas : List StoredStack}
    {root : RootKind} {rest : List RootKind} (hnew : root ∉ rest) :
    withRoots registry canvas (root :: rest) =
      withRoots registry (withRoots registry canvas [root]) rest := by
  by_cases hlacks : registry.Lacks canvas root
  · have hfilter : (rest.filter fun other => registry.Lacks (canvas ++ [.ofRoot root]) other) =
        rest.filter fun other => registry.Lacks canvas other := by
      apply List.filter_congr
      intro other hother
      refine decide_eq_decide.2 (Registry.lacks_append_ofRoot ?_)
      rintro rfl
      exact hnew hother
    rw [withRoots_of_lacks hlacks, withRoots, withRoots, hfilter, List.filter_cons,
      if_pos (decide_eq_true hlacks), List.append_assoc]
    rfl
  · rw [withRoots_of_not_lacks hlacks, withRoots, withRoots, List.filter_cons,
      if_neg (by simpa using hlacks)]

def Snapshot.missing (registry : Registry) (s : Snapshot) : List RootKind :=
  RootKind.all.filter fun root => registry.Lacks s.canvas root

def Snapshot.completed (registry : Registry) (s : Snapshot) : List StoredStack :=
  s.canvas ++ (s.missing registry).map StoredStack.ofRoot

/-- The form in which what is rebuilt from a snapshot is stored. -/
def Snapshot.canonical (registry : Registry) (board : Board) (s : Snapshot) : Snapshot where
  version := Snapshot.currentVersion
  board := s.board
  canvas := (s.completed registry).map (StoredStack.canonical registry board)

/-- What a stored block says is in its canonical form, and nothing else is but
what its type adds. All declared fields are there, those that are given with the
value in the form in which it is accepted, any other with its default. Filled
slots hold the same chains and blocks, in canonical form. Fields and slots stand
in the order of their declaration. -/
structure StoredBlock.Kept (registry : Registry) (board : Board) (type : BlockType)
    (b : StoredBlock) : Prop where
  kind : (b.canonical registry board).kind = b.kind
  declared : Entries.names (b.canonical registry board).fields = type.fields.map FieldSpec.name
  given : ∀ name value, (name, value) ∈ b.fields → ∃ spec stored, type.field? name = some spec ∧
    Workspace.restorable spec value board = .ok stored ∧
    (name, stored) ∈ (b.canonical registry board).fields
  default : ∀ spec ∈ type.fields, spec.name ∉ Entries.names b.fields →
    (spec.name, spec.defaultValue board) ∈ (b.canonical registry board).fields
  statements : ∀ slot chain, (slot, chain) ∈ (b.canonical registry board).statements ↔
    ∃ source, (slot, source) ∈ b.statements ∧ source ≠ [] ∧
      chain = source.map (StoredBlock.canonical registry board)
  values : ∀ slot c, (slot, c) ∈ (b.canonical registry board).values ↔
    ∃ source, (slot, source) ∈ b.values ∧ c = source.canonical registry board
  slots : (Entries.names (b.canonical registry board).statements).Sublist
      type.sockets.statementSlots ∧
    (Entries.names (b.canonical registry board).values).Sublist
      (type.sockets.valueSlots.map ValueSlot.name)

namespace Entries

variable {α : Type}

theorem get?_eq_none {entries : Entries α} {name : String} :
    get? entries name = none ↔ name ∉ names entries := by
  rw [get?, List.lookup_eq_none_iff, names, List.mem_map, not_exists]
  simp only [bne_iff_ne, not_and, ne_eq]
  exact forall_congr' fun entry => forall_congr' fun _ => not_congr eq_comm

theorem names_collect_sublist (order : List String) (f : String → Option α) :
    (names (collect order f)).Sublist order := by
  induction order with
  | nil => exact .slnil
  | cons name rest ih =>
    rw [collect, List.filterMap_cons]
    cases f name with
    | none => exact ih.cons _
    | some value => exact ih.cons_cons _

end Entries

namespace StoredBlock

open Workspace

variable {registry : Registry} {board : Board} {type : BlockType}

/-! ### Nothing is lost in canonical form -/

theorem names_restoredFields (fields : List (String × FieldValue)) :
    Entries.names (restoredFields type board fields) = Entries.names fields :=
  Entries.names_map ..

theorem FieldsFit.given {fields : List (String × FieldValue)} (h : FieldsFit type board fields)
    {name : String} {value : FieldValue} (hmem : (name, value) ∈ fields) :
    ∃ spec stored, type.field? name = some spec ∧ restorable spec value board = .ok stored ∧
      (name, stored) ∈ canonicalFields board type fields := by
  obtain ⟨hd, hfit⟩ := h
  obtain ⟨spec, stored, hspec, hstored⟩ := hfit name value hmem
  have hname : spec.name = name := by simpa using List.find?_some hspec
  have hvalue : restoredValue type board name value = stored := by
    simp only [restoredValue, hspec, hstored]
  have hlook : Entries.get? (restoredFields type board fields) spec.name = some stored := by
    rw [Entries.get?_eq_some ((Entries.distinct_congr (names_restoredFields fields)).2 hd), hname,
      ← hvalue]
    exact List.mem_map.2 ⟨(name, value), hmem, rfl⟩
  refine ⟨spec, stored, hspec, hstored, ?_⟩
  refine List.mem_map.2 ⟨spec, List.mem_of_find?_eq_some hspec, ?_⟩
  rw [hlook, hname]
  rfl

theorem default_mem_canonicalFields {fields : List (String × FieldValue)} {spec : FieldSpec}
    (hspec : spec ∈ type.fields) (hnot : spec.name ∉ Entries.names fields) :
    (spec.name, spec.defaultValue board) ∈ canonicalFields board type fields := by
  have hnone : Entries.get? (restoredFields type board fields) spec.name = none := by
    rw [Entries.get?_eq_none, names_restoredFields]
    exact hnot
  refine List.mem_map.2 ⟨spec, hspec, ?_⟩
  rw [hnone]
  rfl

theorem canonicalChain_eq_map (chain : List StoredBlock) :
    canonicalChain registry board chain = chain.map (canonical registry board) := by
  induction chain with
  | nil => rfl
  | cons b rest ih => exact congrArg _ ih

theorem mem_collect_canonicalSlots {slots : List (String × List StoredBlock)}
    (hd : Entries.Distinct slots) (hfits : SlotsFit registry board type slots) {slot : String}
    {chain : List StoredBlock} :
    (slot, chain) ∈ Entries.collect type.sockets.statementSlots
        (Entries.get? (canonicalSlots registry board slots)) ↔
      ∃ source, (slot, source) ∈ slots ∧ source ≠ [] ∧
        chain = source.map (canonical registry board) := by
  rw [Entries.mem_collect, Entries.get?_eq_some (distinct_canonicalSlots hd), canonicalSlots_eq,
    List.mem_map]
  constructor
  · rintro ⟨_, ⟨_, source⟩, hmem, heq⟩
    obtain ⟨hmem, hne⟩ := List.mem_filter.1 hmem
    cases heq
    exact ⟨source, hmem, by simpa using hne, canonicalChain_eq_map source⟩
  · rintro ⟨source, hmem, hne, rfl⟩
    refine ⟨?_, (slot, source), List.mem_filter.2 ⟨hmem, by simpa using hne⟩, by
      rw [canonicalChain_eq_map]⟩
    have hchain := slotsFit_iff.1 hfits _ hmem
    cases source with
    | nil => exact absurd rfl hne
    | cons b rest => exact hchain.1

theorem mem_collect_canonicalValues {values : List (String × StoredBlock)}
    (hd : Entries.Distinct values) (hfits : ValuesFit registry board type values) {slot : String}
    {c : StoredBlock} :
    (slot, c) ∈ Entries.collect (type.sockets.valueSlots.map ValueSlot.name)
        (Entries.get? (canonicalValues registry board values)) ↔
      ∃ source, (slot, source) ∈ values ∧ c = source.canonical registry board := by
  rw [Entries.mem_collect, Entries.get?_eq_some (distinct_canonicalValues hd), canonicalValues_eq]
  constructor
  · rintro ⟨_, hc⟩
    obtain ⟨⟨_, source⟩, hmem, heq⟩ := List.mem_map.1 hc
    cases heq
    exact ⟨source, hmem, rfl⟩
  · rintro ⟨source, hmem, rfl⟩
    exact ⟨(valuesFit_iff.1 hfits _ hmem).1, List.mem_map.2 ⟨(slot, source), hmem, rfl⟩⟩

/-- A block that fits loses nothing in its canonical form. -/
theorem Fits.kept : ∀ {b : StoredBlock}, b.Fits registry board →
    ∃ type, registry.get? b.kind = some type ∧ b.Kept registry board type
  | ⟨kind, fields, statements, values⟩, ⟨type, hget, hfields, hds, hslots, hdv, hvalues⟩ => by
    have hcanonical : canonical registry board ⟨kind, fields, statements, values⟩ =
        ⟨kind, canonicalFields board type fields,
          Entries.collect type.sockets.statementSlots
            (Entries.get? (canonicalSlots registry board statements)),
          Entries.collect (type.sockets.valueSlots.map ValueSlot.name)
            (Entries.get? (canonicalValues registry board values))⟩ := by
      rw [canonical, hget]
    refine ⟨type, hget, ?_⟩
    constructor
    all_goals rw [hcanonical]
    · exact Entries.names_map ..
    · exact fun name value hmem => hfields.given hmem
    · exact fun spec hspec hnot => default_mem_canonicalFields hspec hnot
    · exact fun slot chain => mem_collect_canonicalSlots hds hslots
    · exact fun slot c => mem_collect_canonicalValues hdv hvalues
    · exact ⟨Entries.names_collect_sublist .., Entries.names_collect_sublist ..⟩

end StoredBlock

namespace StoredBlock

variable {registry : Registry} {board : Board}

mutual

/-- What is inside a block that fits, fits. -/
theorem Fits.of_mem_inside : ∀ {b c : StoredBlock}, b.Fits registry board → c ∈ b.inside →
    c.Fits registry board
  | ⟨_, _, _, _⟩, _, ⟨_, _, _, _, hslots, _, hvalues⟩, hc =>
    (List.mem_append.1 hc).elim (fits_of_mem_slotsInside hslots) (fits_of_mem_valuesInside hvalues)

theorem fits_of_mem_chainInside : ∀ {chain : List StoredBlock} {c : StoredBlock} {place : Prop},
    ChainFits registry board place chain → c ∈ chainInside chain → c.Fits registry board
  | b :: rest, c, _, ⟨_, _, hb, hrest⟩, hc => by
    obtain hc | hc := List.mem_cons.1 hc
    · exact hc ▸ hb
    · exact (List.mem_append.1 hc).elim hb.of_mem_inside (fits_of_mem_chainInside hrest)

theorem fits_of_mem_slotsInside : ∀ {slots : List (String × List StoredBlock)} {c : StoredBlock}
    {type : BlockType}, SlotsFit registry board type slots → c ∈ slotsInside slots →
      c.Fits registry board
  | (_, _) :: _, _, _, ⟨hchain, hrest⟩, hc =>
    (List.mem_append.1 hc).elim (fits_of_mem_chainInside hchain) (fits_of_mem_slotsInside hrest)

theorem fits_of_mem_valuesInside : ∀ {values : List (String × StoredBlock)} {c : StoredBlock}
    {type : BlockType}, ValuesFit registry board type values → c ∈ valuesInside values →
      c.Fits registry board
  | (_, b) :: rest, c, _, ⟨_, _, hb, hrest⟩, hc => by
    obtain hc | hc := List.mem_cons.1 hc
    · exact hc ▸ hb
    · exact (List.mem_append.1 hc).elim hb.of_mem_inside (fits_of_mem_valuesInside hrest)

end

theorem fits_of_mem_canvasInside {canvas : List StoredStack} {c : StoredBlock}
    (h : ∀ stack ∈ canvas, stack.Fits registry board) (hc : c ∈ canvasInside canvas) :
    c.Fits registry board := by
  obtain ⟨stack, hstack, hc⟩ := List.mem_flatMap.1 hc
  obtain ⟨first, chain, hblocks, hfirst, hchain⟩ := h stack hstack
  rw [hblocks, chainInside] at hc
  obtain rfl | hc := List.mem_cons.1 hc
  · exact hfirst
  · exact (List.mem_append.1 hc).elim hfirst.of_mem_inside (fits_of_mem_chainInside hchain)

/-! ### Every block once -/

mutual

theorem length_inside : ∀ b : StoredBlock, b.inside.length + 1 = b.count
  | ⟨_, _, statements, values⟩ => by
    rw [inside, count, List.length_append, length_slotsInside, length_valuesInside]
    omega

theorem length_chainInside : ∀ chain : List StoredBlock,
    (chainInside chain).length = countChain chain
  | [] => rfl
  | b :: rest => by
    rw [chainInside, countChain, List.length_cons, List.length_append, length_chainInside rest,
      ← length_inside b]
    omega

theorem length_slotsInside : ∀ slots : List (String × List StoredBlock),
    (slotsInside slots).length = countSlots slots
  | [] => rfl
  | (_, chain) :: rest => by
    rw [slotsInside, countSlots, List.length_append, length_chainInside chain,
      length_slotsInside rest]

theorem length_valuesInside : ∀ values : List (String × StoredBlock),
    (valuesInside values).length = countValues values
  | [] => rfl
  | (_, b) :: rest => by
    rw [valuesInside, countValues, List.length_cons, List.length_append, length_valuesInside rest,
      ← length_inside b]
    omega

end

theorem length_canvasInside (canvas : List StoredStack) :
    (canvasInside canvas).length = Workspace.countCanvas canvas := by
  induction canvas with
  | nil => rfl
  | cons stack rest ih =>
    show (chainInside stack.blocks ++ canvasInside rest).length = _
    rw [List.length_append, length_chainInside, ih]
    rfl

end StoredBlock

theorem Snapshot.length_blocks (s : Snapshot) : s.blocks.length = s.blockCount :=
  length_canvasInside s.canvas

namespace Workspace

variable {registry : Registry} {board : Board}

mutual

/-- The blocks of a layout are those of the snapshot, in the same order. -/
theorem kinds_layBlock : ∀ {b : StoredBlock} {n : Nat} {position : Position}
    {next : Option BlockId}, b.Fits registry board →
    (layBlock registry board n position next b).map Block.kind =
      b.kind :: b.inside.map StoredBlock.kind
  | ⟨kind, _, _, _⟩, _, _, _, ⟨type, hget, _, _, hslots, _, hvalues⟩ => by
    have hget : registry.get? kind = some type := hget
    rw [layBlock, hget, inside, List.map_append, ← kinds_laySlots hslots,
      ← kinds_layValues hvalues, ← List.map_append]
    exact congrArg (· :: _) (Registry.kind_of_get? hget)

theorem kinds_layChain : ∀ {chain : List StoredBlock} {n : Nat} {position : Position}
    {place : Prop}, ChainFits registry board place chain →
    (layChain registry board n position chain).map Block.kind =
      (chainInside chain).map StoredBlock.kind
  | [], _, _, _, _ => rfl
  | b :: rest, _, _, _, ⟨_, _, hb, hrest⟩ => by
    rw [layChain, chainInside, List.map_append, kinds_layBlock hb, kinds_layChain hrest,
      List.map_cons, List.map_append, List.cons_append]

theorem kinds_laySlots : ∀ {slots : List (String × List StoredBlock)} {n : Nat}
    {type : BlockType}, SlotsFit registry board type slots →
    (laySlots registry board n slots).map Block.kind = (slotsInside slots).map StoredBlock.kind
  | [], _, _, _ => rfl
  | (_, _) :: _, _, _, ⟨hchain, hrest⟩ => by
    rw [laySlots, slotsInside, List.map_append, kinds_layChain hchain, kinds_laySlots hrest,
      List.map_append]

theorem kinds_layValues : ∀ {values : List (String × StoredBlock)} {n : Nat}
    {type : BlockType}, ValuesFit registry board type values →
    (layValues registry board n values).map Block.kind =
      (valuesInside values).map StoredBlock.kind
  | [], _, _, _ => rfl
  | (_, _) :: _, _, _, ⟨_, _, hb, hrest⟩ => by
    rw [layValues, valuesInside, List.map_append, kinds_layBlock hb, kinds_layValues hrest,
      List.map_cons, List.map_append, List.cons_append]

end

theorem kinds_layCanvas {canvas : List StoredStack} {n : Nat}
    (h : ∀ stack ∈ canvas, stack.Fits registry board) :
    (layCanvas registry board n canvas).map Block.kind =
      (canvasInside canvas).map StoredBlock.kind := by
  induction canvas generalizing n with
  | nil => rfl
  | cons stack rest ih =>
    obtain ⟨hstack, hrest⟩ := List.forall_mem_cons.1 h
    obtain ⟨first, chain, hblocks, hfirst, hchain⟩ := hstack
    show _ = (chainInside stack.blocks ++ canvasInside rest).map StoredBlock.kind
    rw [layCanvas, List.map_append, ih hrest, List.map_append, hblocks, layChain, chainInside,
      List.map_append, kinds_layBlock hfirst, kinds_layChain hchain, List.map_cons,
      List.map_append, List.cons_append]

/-! ### The missing roots -/

theorem layCanvas_append (n : Nat) (canvas more : List StoredStack) :
    layCanvas registry board n (canvas ++ more) =
      layCanvas registry board n canvas ++
        layCanvas registry board (n + countCanvas canvas) more := by
  induction canvas generalizing n with
  | nil => rfl
  | cons stack rest ih =>
    rw [List.cons_append, layCanvas, layCanvas, ih, List.append_assoc, Nat.add_assoc]
    rfl

theorem stackHeads_append (n : Nat) (canvas more : List StoredStack) :
    stackHeads n (canvas ++ more) =
      stackHeads n canvas ++ stackHeads (n + countCanvas canvas) more := by
  induction canvas generalizing n with
  | nil => rfl
  | cons stack rest ih =>
    rw [List.cons_append, stackHeads, stackHeads, ih, List.cons_append, Nat.add_assoc]
    rfl

theorem countCanvas_append (canvas more : List StoredStack) :
    countCanvas (canvas ++ more) = countCanvas canvas + countCanvas more := by
  induction canvas with
  | nil => exact (Nat.zero_add _).symm
  | cons stack rest ih =>
    show countChain stack.blocks + countCanvas (rest ++ more) =
      countChain stack.blocks + countCanvas rest + countCanvas more
    rw [ih, Nat.add_assoc]

/-- The program that the layout of stacks is. -/
def rebuilt (registry : Registry) (board : Board) (canvas : List StoredStack) : Workspace :=
  (bare registry board).grown (layCanvas registry board 1 canvas) (countCanvas canvas)

structure LaidOut (registry : Registry) (board : Board) (canvas : List StoredStack) : Prop where
  fits : ∀ stack ∈ canvas, stack.Fits registry board
  laid : (layCanvas registry board 1 canvas).Laid (1 + countCanvas canvas)
  top : (layCanvas registry board 1 canvas).topLevel = stackHeads 1 canvas

namespace LaidOut

variable {canvas : List StoredStack} {root : RootKind} {type : BlockType}

theorem root?_eq_none (h : LaidOut registry board canvas) :
    (layCanvas registry board 1 canvas).root? root = none ↔
      ∀ b ∈ canvasInside canvas, b.kind ≠ root.kindName := by
  have hkinds : ∀ kinds : List String, kinds = (layCanvas registry board 1 canvas).map Block.kind →
      ((layCanvas registry board 1 canvas).root? root = none ↔ root.kindName ∉ kinds) := by
    rintro kinds rfl
    simp [Arena.root?]
  rw [hkinds _ (kinds_layCanvas h.fits).symm, List.mem_map]
  simp

/-- A root that is added is laid out like a stack of its own. -/
theorem addRoot (h : LaidOut registry board canvas)
    (hget : registry.get? root.kindName = some type) :
    (rebuilt registry board canvas).add type (rootPosition root) =
        rebuilt registry board (canvas ++ [.ofRoot root]) ∧
      LaidOut registry board (canvas ++ [.ofRoot root]) := by
  let n := 1 + countCanvas canvas
  let b := freshBlock type board ⟨n⟩ (rootPosition root)
  have hlay : layCanvas registry board n [.ofRoot root] = [b] := by
    simp only [layCanvas, StoredStack.ofRoot, layChain, layBlock, hget, laySlots, layValues,
      List.append_nil, first?]
    rfl
  have hcount : n + 1 = 1 + countCanvas (canvas ++ [.ofRoot root]) := by
    rw [countCanvas_append, ← Nat.add_assoc]
    rfl
  have harena : layCanvas registry board 1 canvas ++ [b] =
      layCanvas registry board 1 (canvas ++ [.ofRoot root]) := by
    rw [layCanvas_append, ← hlay]
  have hfree := linked?_freshBlock type board ⟨n⟩ (rootPosition root)
  have hgrown : Arena.Grown (layCanvas registry board 1 canvas)
      (layCanvas registry board 1 canvas ++ [b]) (n + 1) (· = ⟨n⟩) :=
    ⟨h.laid.add rfl (tidy_freshBlock ..) hfree, fun x => h.laid.top_add rfl hfree⟩
  have htop := topLevel_grown h.laid hgrown
  refine ⟨?rebuilt, ?fits, ?laid, ?top⟩
  case rebuilt =>
    show Workspace.mk registry board (layCanvas registry board 1 canvas ++ [b]) (n + 1) = _
    rw [harena, hcount]
    rfl
  case fits =>
    refine List.forall_mem_append.2 ⟨h.fits, List.forall_mem_singleton.2 ?_⟩
    exact StoredStack.fits_cons.2 ⟨⟨type, hget, .nil .., Entries.distinct_nil,
      trivial, Entries.distinct_nil, trivial⟩, trivial⟩
  case laid =>
    rw [← harena, ← hcount]
    exact hgrown.laid
  case top =>
    rw [← harena, htop, h.top, stackHeads_append]
    rfl

theorem ensureRoot (h : LaidOut registry board canvas) (root : RootKind) :
    (rebuilt registry board canvas).ensureRoot root =
        rebuilt registry board (StoredStack.withRoots registry canvas [root]) ∧
      LaidOut registry board (StoredStack.withRoots registry canvas [root]) := by
  have hroot : (rebuilt registry board canvas).arena.root? root = none ↔ _ := h.root?_eq_none
  unfold Workspace.ensureRoot
  split
  · rename_i type hnone hget
    have hlacks : registry.Lacks canvas root := ⟨Option.isSome_of_eq_some hget, hroot.1 hnone⟩
    rw [StoredStack.withRoots_of_lacks hlacks]
    exact h.addRoot hget
  · rename_i hnot
    have hlacks : ¬ registry.Lacks canvas root := by
      rintro ⟨hsome, hnone⟩
      obtain ⟨type, hget⟩ := Option.isSome_iff_exists.1 hsome
      exact hnot type (hroot.2 hnone) hget
    rw [StoredStack.withRoots_of_not_lacks hlacks]
    exact ⟨rfl, h⟩

/-- The roots that are missing come behind, each as a stack of its own. -/
theorem ensureAll {roots : List RootKind} (hd : roots.Nodup) (h : LaidOut registry board canvas) :
    roots.foldl Workspace.ensureRoot (rebuilt registry board canvas) =
        rebuilt registry board (StoredStack.withRoots registry canvas roots) ∧
      LaidOut registry board (StoredStack.withRoots registry canvas roots) := by
  induction roots generalizing canvas with
  | nil =>
    rw [StoredStack.withRoots_nil]
    exact ⟨rfl, h⟩
  | cons root rest ih =>
    obtain ⟨hnew, hd⟩ := List.nodup_cons.1 hd
    obtain ⟨hfirst, hlaid⟩ := h.ensureRoot root
    rw [List.foldl_cons, hfirst, StoredStack.withRoots_cons hnew]
    exact ih hd hlaid

end LaidOut

/-- What is rebuilt from a snapshot is the layout of its stacks and of the roots that
it does not have. -/
theorem restore_eq_rebuilt {s : Snapshot} {w : Workspace} (h : s.Named)
    (hw : restore registry s = .ok w) : ∃ board, Board.find? s.board = some board ∧
      LaidOut registry board s.canvas ∧ LaidOut registry board (s.completed registry) ∧
      w = rebuilt registry board (s.completed registry) := by
  obtain ⟨_, board, hboard, hfits, hroots⟩ := (restores_iff h).1 ⟨w, hw⟩
  obtain ⟨_, board', v, hboard', hrestore, rfl⟩ := restore_eq_ok.1 hw
  obtain rfl := Option.some_inj.1 (hboard.symm.trans (Board.resolve_eq_ok.1 hboard'))
  obtain ⟨hlayout, hlaid, htop⟩ := restoreStacks_eq (w := bare registry board)
    (laid_bare registry board) hfits hroots fun stack _ b _ type _ => by
      cases type.rootKind? <;> rfl
  obtain rfl : rebuilt registry board s.canvas = v :=
    Except.ok.inj (hlayout.symm.trans hrestore)
  have hout : LaidOut registry board s.canvas := ⟨hfits, hlaid, htop⟩
  obtain ⟨heq, hall⟩ := hout.ensureAll (by decide : RootKind.all.Nodup)
  exact ⟨board, hboard, hout, hall, heq⟩

/-- What has been laid out is stored in canonical form. -/
theorem LaidOut.canvas_save {canvas : List StoredStack} (h : LaidOut registry board canvas)
    (hr : registry.DeclaresOnce) :
    (rebuilt registry board canvas).save.canvas =
      canvas.map (StoredStack.canonical registry board) := by
  let A := layCanvas registry board 1 canvas
  have hholds : A.Holds A := fun b hb => Arena.find?_of_mem h.laid.numbered.nodup hb
  have hstacks := congrArg (List.filterMap id) (stacks_layCanvas h.laid.forest hr h.fits hholds)
  rw [List.filterMap_map, List.filterMap_map] at hstacks
  show A.topLevel.filterMap A.storedStack? = _
  rw [h.top]
  exact hstacks.trans (congrFun List.filterMap_eq_map canvas)

variable {s : Snapshot} {w : Workspace}

theorem save_rebuilt (hr : registry.DeclaresOnce) (hboard : Board.find? s.board = some board)
    (h : LaidOut registry board (s.completed registry)) :
    (rebuilt registry board (s.completed registry)).save = s.canonical registry board := by
  show Snapshot.mk _ board.id (rebuilt registry board _).save.canvas = _
  rw [h.canvas_save hr, Board.id_of_find? hboard]
  rfl

theorem kinds_rebuilt (h : LaidOut registry board (s.completed registry)) :
    (rebuilt registry board (s.completed registry)).arena.map Block.kind =
      s.blocks.map StoredBlock.kind ++ (s.missing registry).map RootKind.kindName := by
  show (layCanvas registry board 1 _).map Block.kind = _
  rw [kinds_layCanvas h.fits, Snapshot.completed, canvasInside_append, List.map_append,
    canvasInside_ofRoot]
  rfl

theorem size_rebuilt (h : LaidOut registry board (s.completed registry)) :
    (rebuilt registry board (s.completed registry)).size =
      s.blockCount + (s.missing registry).length := by
  have hlength := congrArg List.length (kinds_rebuilt h)
  rw [List.length_append, List.length_map, List.length_map, List.length_map,
    Snapshot.length_blocks] at hlength
  exact hlength

/-- What is rebuilt from a snapshot is what the snapshot says. It has the blocks of
the snapshot and the roots that were missing, each block once and in this order.
Stored again, it is the snapshot in canonical form: version, board, stacks and
their places as given, and the missing roots behind; in each block all declared
fields, with the given values as they are accepted and defaults for the others,
and the filled slots in the order of their declaration. -/
theorem restore_builds (hr : registry.DeclaresOnce) (h : s.Named)
    (hw : restore registry s = .ok w) : ∃ board, Board.find? s.board = some board ∧
      w.registry = registry ∧ w.board = board ∧
      w.size = s.blockCount + (s.missing registry).length ∧
      w.arena.map Block.kind =
        s.blocks.map StoredBlock.kind ++ (s.missing registry).map RootKind.kindName ∧
      w.save = s.canonical registry board ∧
      ∀ b ∈ s.blocks, ∃ type, registry.get? b.kind = some type ∧
        b.Kept registry board type := by
  obtain ⟨board, hboard, hgiven, hall, rfl⟩ := restore_eq_rebuilt h hw
  exact ⟨board, hboard, rfl, rfl, size_rebuilt hall, kinds_rebuilt hall,
    save_rebuilt hr hboard hall, fun b hb => (fits_of_mem_canvasInside hgiven.fits hb).kept⟩

/-- A block with an unknown empty slot, a number that is a text and a state without
its pin is rebuilt, and stored as it should have been written. -/
theorem restore_builds_of_loose :
    let state : StoredBlock := ⟨"digital_write", [("STATE", .text "LOW")], [], []⟩
    let seven : StoredBlock := ⟨"number", [("NUM", .text "+7")], [], []⟩
    let s : Snapshot := ⟨0, "uno", [⟨7, 9, [⟨"if_then", [], [("ELSE", []), ("DO", [state])],
      [("CONDITION", seven)]⟩]⟩]⟩
    ∃ w, restore .builtin s = .ok w ∧ w.size = 5 ∧ w.save = ⟨1, "uno",
      [⟨7, 9, [⟨"if_then", [],
          [("DO", [⟨"digital_write", [("PIN", .text "2"), ("STATE", .text "LOW")], [], []⟩])],
          [("CONDITION", ⟨"number", [("NUM", .number 7)], [], []⟩)]⟩]⟩,
        ⟨20, 20, [⟨"root_setup", [], [], []⟩]⟩, ⟨20, 240, [⟨"root_loop", [], [], []⟩]⟩]⟩ := by
  intro state seven s
  have hstate : state.Fits .builtin .uno :=
    ⟨Library.digitalWrite, rfl, .single _ (.text "LOW") rfl rfl, Entries.distinct_nil,
      trivial, Entries.distinct_nil, trivial⟩
  have hseven : seven.Fits .builtin .uno :=
    ⟨Library.number, rfl, .single _ (.number 7) rfl rfl, Entries.distinct_nil, trivial,
      Entries.distinct_nil, trivial⟩
  have hdistinct : Entries.Distinct [("ELSE", []), ("DO", [state])] := by
    show List.Nodup ["ELSE", "DO"]
    decide
  have hfits : ∀ stack ∈ s.canvas, stack.Fits .builtin .uno := by
    refine List.forall_mem_singleton.2 (StoredStack.fits_cons.2 ⟨⟨Library.ifThen, rfl,
      .nil .., hdistinct, ⟨trivial, ⟨List.mem_singleton_self _, ?_, hstate,
        trivial⟩, trivial⟩, List.nodup_singleton _, List.mem_singleton_self _, ?_, hseven,
        trivial⟩, trivial⟩)
    · exact ⟨rfl, Library.digitalWrite, rfl, rfl⟩
    · exact ⟨rfl, Library.number, rfl, rfl⟩
  have hnamed : s.Named := by
    intro stack hmem
    obtain ⟨first, chain, hblocks, hfirst, hchain⟩ := hfits stack hmem
    rw [hblocks]
    exact ⟨named_of_fits hfirst, named_of_chainFits hchain⟩
  obtain ⟨w, hw⟩ := (restores_iff hnamed).2
    ⟨by decide, .uno, rfl, hfits, List.pairwise_singleton ..⟩
  obtain ⟨board, hboard, _, _, hsize, _, hsave, _⟩ :=
    restore_builds Registry.regular_builtin.declaresOnce hnamed hw
  obtain rfl : Board.uno = board := Option.some_inj.1 hboard
  exact ⟨w, hw, hsize, hsave⟩

end Workspace

end BlockSketch
