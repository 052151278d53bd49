import BlockSketch.Proofs.Sketch.Plain
import BlockSketch.Proofs.Graph.Runs

/-!
The code of a tree. What a snapshot holds has code of its own, by recursion on
the stored blocks alone (`StoredBlock.code?`): first the chains and expressions
in a block, then the block. There are no numbers in it, no links to follow and
nothing to remember.

The code of a program is the code of its two roots as they are stored, as long
as generators do not look at the number of a block. So nothing else in a program
has a part in its code: not where and in what order its blocks were made, not
the board, and not what lies beside the roots.
-/

namespace BlockSketch

/-! ### Entries of which each is translated -/

/-- The same names with something else for each value, if there is something for
all of them. -/
def Entries.translate {α β : Type} (f : α → Option β) (entries : Entries α) : Option (Entries β) :=
  entries.mapM fun entry => (f entry.2).map fun value => (entry.1, value)

theorem Entries.exists_translate {α β : Type} (f : α → Option β) (entries : Entries α)
    (h : ∀ entry ∈ entries, ∃ value, f entry.2 = some value) :
    ∃ result, translate f entries = some result ∧
      ∀ name, get? result name = (get? entries name).bind f := by
  induction entries with
  | nil => exact ⟨[], rfl, fun _ => rfl⟩
  | cons entry rest ih =>
    obtain ⟨value, hvalue⟩ := h entry (List.mem_cons_self ..)
    obtain ⟨result, hresult, hget⟩ := ih fun other hother => h other (List.mem_cons_of_mem _ hother)
    rw [translate] at hresult
    refine ⟨(entry.1, value) :: result, ?_, fun name => ?_⟩
    · rw [translate, List.mapM_cons, hvalue, hresult]
      rfl
    · obtain ⟨first, _⟩ := entry
      rw [get?_cons, get?_cons, hget]
      split
      · exact hvalue.symm
      · rfl

/-! ### The code of what is stored -/

namespace StoredBlock

mutual

/-- The code of a block, from the code of what is plugged into it. In the place of
its number stands one that no block has. -/
def code? (registry : Registry) (depth : Nat) : StoredBlock → Option Fragment
  | ⟨kind, fields, statements, values⟩ => do
    let type ← registry.get? kind
    let chains ← slotsCode? registry (Sketch.innerDepth type depth) statements
    let expressions ← valuesCode? registry depth values
    return type.generator
      { block := ⟨0⟩
        depth := depth
        fields := fields
        statements := Entries.collect type.sockets.statementSlots (Entries.get? chains)
        values := type.sockets.valueSlots.map fun slot =>
          (slot.name, ((Entries.get? expressions slot.name).map (Sketch.inSlot slot)).getD
            slot.empty) }

def chainCode? (registry : Registry) (depth : Nat) : List StoredBlock → Option String
  | [] => some ""
  | b :: rest => do
    let fragment ← b.code? registry depth
    let code ← chainCode? registry depth rest
    return Sketch.inChain fragment ++ code

def slotsCode? (registry : Registry) (depth : Nat) :
    List (String × List StoredBlock) → Option (Entries String)
  | [] => some []
  | (slot, chain) :: rest => do
    let code ← chainCode? registry depth chain
    let codes ← slotsCode? registry depth rest
    return (slot, code) :: codes

def valuesCode? (registry : Registry) (depth : Nat) :
    List (String × StoredBlock) → Option (Entries Fragment)
  | [] => some []
  | (slot, b) :: rest => do
    let fragment ← b.code? registry depth
    let fragments ← valuesCode? registry depth rest
    return (slot, fragment) :: fragments

end

theorem slotsCode?_eq (registry : Registry) (depth : Nat)
    (slots : List (String × List StoredBlock)) :
    slotsCode? registry depth slots = Entries.translate (chainCode? registry depth) slots := by
  induction slots with
  | nil => rfl
  | cons entry rest ih =>
    obtain ⟨slot, chain⟩ := entry
    rw [slotsCode?, ih, Entries.translate, Entries.translate, List.mapM_cons]
    cases chainCode? registry depth chain <;> rfl

theorem valuesCode?_eq (registry : Registry) (depth : Nat) (slots : List (String × StoredBlock)) :
    valuesCode? registry depth slots = Entries.translate (code? registry depth) slots := by
  induction slots with
  | nil => rfl
  | cons entry rest ih =>
    obtain ⟨slot, b⟩ := entry
    rw [valuesCode?, ih, Entries.translate, Entries.translate, List.mapM_cons]
    cases code? registry depth b <;> rfl

theorem code?_eq (registry : Registry) (depth : Nat) (s : StoredBlock) :
    s.code? registry depth = (do
      let type ← registry.get? s.kind
      let chains ←
        Entries.translate (chainCode? registry (Sketch.innerDepth type depth)) s.statements
      let expressions ← Entries.translate (code? registry depth) s.values
      return type.generator
        { block := ⟨0⟩
          depth := depth
          fields := s.fields
          statements := Entries.collect type.sockets.statementSlots (Entries.get? chains)
          values := type.sockets.valueSlots.map fun slot =>
            (slot.name, ((Entries.get? expressions slot.name).map (Sketch.inSlot slot)).getD
              slot.empty) }) := by
  obtain ⟨kind, fields, statements, values⟩ := s
  simp only [code?, slotsCode?_eq, valuesCode?_eq]

end StoredBlock

namespace Snapshot

/-- A root as it is stored: the first block of the stack that it heads. What may
stand after it there has no code. -/
def rootTree? (s : Snapshot) (kind : RootKind) : Option StoredBlock :=
  s.canvas.findSome? fun stack => stack.blocks.head?.filter fun b => b.kind = kind.kindName

def code? (s : Snapshot) (registry : Registry) : Option String := do
  let setup ← s.rootTree? .setup
  let loop ← s.rootTree? .loop
  let first ← setup.code? registry 0
  let second ← loop.code? registry 0
  return Sketch.atTop first ++ "\n" ++ Sketch.atTop second

def rootStack? (s : Snapshot) (kind : RootKind) : Option (List StoredBlock) :=
  s.canvas.findSome? fun stack =>
    if stack.blocks.head?.any fun b => b.kind = kind.kindName then some stack.blocks else none

/-- The code of the whole stacks that the roots head. -/
def stacksCode? (s : Snapshot) (registry : Registry) : Option String := do
  let setup ← s.rootStack? .setup
  let loop ← s.rootStack? .loop
  let first ← StoredBlock.chainCode? registry 0 setup
  let second ← StoredBlock.chainCode? registry 0 loop
  return first ++ "\n" ++ second

end Snapshot

/-- The generator does not look at the number of the block. -/
def BlockType.IgnoresNumbers (type : BlockType) : Prop :=
  ∀ ctx id, type.generator { ctx with block := id } = type.generator ctx

namespace Registry

def IgnoresNumbers (registry : Registry) : Prop :=
  ∀ ⦃kind type⦄, registry.get? kind = some type → type.IgnoresNumbers

theorem IgnoresNumbers.register {registry : Registry} (h : registry.IgnoresNumbers)
    {type : BlockType} (ht : type.IgnoresNumbers) : (registry.register type).IgnoresNumbers :=
  forall_register h ht

theorem ignoresNumbers_builtin : builtin.IgnoresNumbers := by
  intro kind type hget
  have htypes : ∀ type ∈ Library.types, type.IgnoresNumbers := by
    simp only [Library.types, List.forall_mem_cons, List.not_mem_nil, false_imp_iff, implies_true,
      and_true]
    refine ⟨?_, ?_, ?_, ?_, ?_, ?_, ?_, ?_, ?_, ?_, ?_, ?_, ?_, ?_, ?_⟩ <;> exact fun _ _ => rfl
  exact htypes type (mem_of_get?_ofList hget)

end Registry

/-! ### The walk over a forest -/

namespace Arena.Forest

variable {arena : Arena} {b : Block} {x : BlockId}

theorem get?_statements_tree (h : arena.Forest) (hb : arena.find? x = some b) (slot : String) :
    Entries.get? (arena.tree b).statements slot =
      (arena.linked? x (.statement slot)).map arena.chain := by
  apply Option.ext
  intro stored
  rw [Entries.get?_eq_some (h.distinct_tree hb).1, h.mem_statements hb, Option.map_eq_some_iff]

theorem get?_values_tree (h : arena.Forest) (hb : arena.find? x = some b) (slot : String) :
    Entries.get? (arena.tree b).values slot =
      ((arena.linked? x (.value slot)).bind arena.find?).map arena.tree := by
  apply Option.ext
  intro stored
  rw [Entries.get?_eq_some (h.distinct_tree hb).2, h.mem_values hb, Option.map_eq_some_iff]
  simp only [Option.bind_eq_some_iff]
  constructor
  · rintro ⟨c, d, hc, hd, rfl⟩
    exact ⟨d, ⟨c, hc, hd⟩, rfl⟩
  · rintro ⟨d, ⟨c, hc, hd⟩, rfl⟩
    exact ⟨c, d, hc, hd, rfl⟩

end Arena.Forest

namespace Sketch

variable {α β : Type} {arena : Arena} {registry : Registry} {x : BlockId}

theorem mapM_eq_ok {f : β → Except GenerationError α} {g : β → α} {l : List β}
    (h : ∀ x ∈ l, f x = .ok (g x)) : l.mapM f = .ok (l.map g) := by
  induction l with
  | nil => rfl
  | cons x rest ih =>
    rw [List.mapM_cons, h x (List.mem_cons_self ..),
      ih fun y hy => h y (List.mem_cons_of_mem _ hy)]
    rfl

theorem filterMapM_eq_ok {f : β → Except GenerationError (Option α)} {g : β → Option α}
    {l : List β} (h : ∀ x ∈ l, f x = .ok (g x)) : l.filterMapM f = .ok (l.filterMap g) := by
  rw [filterMapM_eq_map, mapM_eq_ok h]
  show Except.ok _ = _
  rw [List.filterMap_map]
  rfl

/-- The code of a block is that of what is stored of it, if that is so for what is
plugged into it. -/
theorem plainBlock_eq_tree (hf : arena.Forest) (hr : registry.SlotsOnce)
    (hi : registry.IgnoresNumbers) {n depth : Nat} {b : Block} (hb : arena.find? x = some b)
    {type : BlockType} (ht : registry.get? b.kind = some type)
    (hchain : ∀ {slot head}, arena.linked? x (.statement slot) = some head → ∃ code,
      StoredBlock.chainCode? registry (innerDepth type depth) (arena.chain head) = some code ∧
        plainChain arena registry n head (innerDepth type depth) = .ok code)
    (hvalue : ∀ {slot child d}, arena.linked? x (.value slot) = some child →
      arena.find? child = some d → ∃ fragment,
        (arena.tree d).code? registry depth = some fragment ∧
          plainBlock arena registry n child depth = .ok fragment) :
    ∃ fragment, (arena.tree b).code? registry depth = some fragment ∧
      plainBlock arena registry (n + 1) x depth = .ok fragment := by
  have hlinked : ∀ k, b.linked? k = arena.linked? x k :=
    fun k => (Arena.linked?_of_find? hb k).symm
  obtain ⟨chains, hchains, hgetChains⟩ := Entries.exists_translate
    (StoredBlock.chainCode? registry (innerDepth type depth)) (arena.tree b).statements (by
      rintro ⟨slot, chain⟩ hmem
      obtain ⟨head, hk, rfl⟩ := (hf.mem_statements hb).1 hmem
      obtain ⟨code, hcode, _⟩ := hchain hk
      exact ⟨code, hcode⟩)
  obtain ⟨expressions, hexpressions, hgetExpressions⟩ := Entries.exists_translate
    (StoredBlock.code? registry depth) (arena.tree b).values (by
      rintro ⟨slot, stored⟩ hmem
      obtain ⟨child, d, hk, hd, rfl⟩ := (hf.mem_values hb).1 hmem
      obtain ⟨fragment, hfragment, _⟩ := hvalue hk hd
      exact ⟨fragment, hfragment⟩)
  have hkind : (arena.tree b).kind = b.kind := by rw [hf.tree_eq hb]
  have hfields : (arena.tree b).fields = b.fields := by rw [hf.tree_eq hb]
  rw [StoredBlock.code?_eq, plainBlock, hkind, hfields, ht]
  simp only [hb, ht, hexpressions, Option.bind_eq_bind, Option.bind_some, hchains]
  rw [filterMapM_eq_ok (g := fun slot => (Entries.get? chains slot).map fun code => (slot, code))
    ?_, mapM_eq_ok (g := fun slot : ValueSlot =>
      (slot.name, ((Entries.get? expressions slot.name).map (inSlot slot)).getD slot.empty)) ?_]
  · refine ⟨_, rfl, ?_⟩
    have hdistinct := Entries.distinct_collect (hr ht).statementSlots (Entries.get? chains)
    show Except.ok (type.generator ⟨x, depth, b.fields,
      Entries.ofList (Entries.collect type.sockets.statementSlots (Entries.get? chains)),
      Entries.ofList (type.sockets.valueSlots.map fun slot => (slot.name, _))⟩) = _
    rw [Entries.ofList_of_distinct hdistinct, Entries.ofList_map (hr ht).valueSlots]
    exact congrArg Except.ok (hi ht ⟨⟨0⟩, depth, b.fields, _, _⟩ x)
  · intro slot _
    rw [hlinked, hgetExpressions, hf.get?_values_tree hb]
    cases hk : arena.linked? x (.value slot.name) with
    | none => rfl
    | some child =>
      obtain ⟨d, hd⟩ := Arena.exists_find? (hf.present hk)
      obtain ⟨fragment, hfragment, hplain⟩ := hvalue hk hd
      simp only [hplain, hd, Option.map_some, Option.bind_some, hfragment]
      rfl
  · intro slot _
    rw [hlinked, hgetChains, hf.get?_statements_tree hb]
    cases hk : arena.linked? x (.statement slot) with
    | none => rfl
    | some head =>
      obtain ⟨code, hcode, hplain⟩ := hchain hk
      simp only [hplain, Option.map_some, Option.bind_some, hcode]
      rfl

/-- The code of a chain is that of what is stored of it, if that is so for its
first block and for the rest of it. -/
theorem plainChain_eq_tree (hf : arena.Forest) {n depth : Nat} {b : Block}
    (hb : arena.find? x = some b)
    (hblock : ∃ fragment, (arena.tree b).code? registry depth = some fragment ∧
      plainBlock arena registry n x depth = .ok fragment)
    (hrest : ∀ {next}, arena.linked? x .next = some next → ∃ code,
      StoredBlock.chainCode? registry depth (arena.chain next) = some code ∧
        plainChain arena registry n next depth = .ok code) :
    ∃ code, StoredBlock.chainCode? registry depth (arena.chain x) = some code ∧
      plainChain arena registry (n + 1) x depth = .ok code := by
  obtain ⟨fragment, hfragment, hplain⟩ := hblock
  rw [hf.chain_eq hb, Arena.rest, StoredBlock.chainCode?, hfragment, plainChain, hplain]
  simp only [hb, Option.bind_some]
  cases hnext : b.next with
  | none =>
    exact ⟨inChain fragment ++ "", rfl, by rw [String.append_empty]; rfl⟩
  | some next =>
    have hk : arena.linked? x .next = some next := (Arena.linked?_next_of_find? hb).trans hnext
    obtain ⟨code, hcode, hplain'⟩ := hrest hk
    simp only [hcode, hplain']
    exact ⟨inChain fragment ++ code, rfl, rfl⟩

/-- With enough steps, the walk through a block or a chain finds the code of what
is stored of it. -/
theorem plain_eq_tree (hf : arena.Forest) (hr : registry.SlotsOnce)
    (hi : registry.IgnoresNumbers)
    (hknown : ∀ b ∈ arena, ∃ type, registry.get? b.kind = some type) (n : Nat) :
    (∀ x ∈ arena.ids, 2 * arena.rank x + 1 ≤ n → ∀ b, arena.find? x = some b → ∀ depth,
      ∃ fragment, (arena.tree b).code? registry depth = some fragment ∧
        plainBlock arena registry n x depth = .ok fragment) ∧
    (∀ x ∈ arena.ids, 2 * arena.rank x + 2 ≤ n → ∀ depth, ∃ code,
      StoredBlock.chainCode? registry depth (arena.chain x) = some code ∧
        plainChain arena registry n x depth = .ok code) := by
  apply hf.walk_induct
  · intro n x _ _ _ hchains hblocks b hb depth
    obtain ⟨type, ht⟩ := hknown b (Arena.mem_of_find? hb)
    exact plainBlock_eq_tree hf hr hi hb ht (fun hk => hchains _ _ hk _)
      fun hk hd => hblocks _ _ hk _ hd _
  · intro n x b hb _ hblock hrest depth
    exact plainChain_eq_tree hf hb (hblock b hb depth) fun hk => hrest _ hk depth

end Sketch

/-! ### The roots as they are stored -/

theorem findSome?_eq_map_find? {α β : Type} {g : α → Option β} {p : α → Bool} {f : α → β}
    {l : List α} (h : ∀ x ∈ l, g x = if p x then some (f x) else none) :
    l.findSome? g = (l.find? p).map f := by
  induction l with
  | nil => rfl
  | cons x rest ih =>
    rw [List.findSome?_cons, List.find?_cons, h x (List.mem_cons_self ..),
      ih fun y hy => h y (List.mem_cons_of_mem _ hy)]
    cases p x <;> rfl

namespace Workspace

variable {registry : Registry} {w w' : Workspace}

/-- A root is stored in a stack that it heads. It is at the top level, so that it
makes no difference to look for it among all blocks. -/
theorem rootTree?_save (h : w.Grounded) (kind : RootKind) :
    w.save.rootTree? kind = ((w.arena.root? kind).bind w.arena.find?).map w.arena.tree := by
  have hd := h.numbered.nodup
  have hstack : ∀ b ∈ w.arena, ((w.arena.storedStack? b.id).bind fun stack =>
      stack.blocks.head?.filter fun b => b.kind = kind.kindName) =
        if b.kind = kind.kindName then some (w.arena.tree b) else none := by
    intro b hb
    have hfind := Arena.find?_of_mem hd hb
    have hkind : (w.arena.tree b).kind = b.kind := by rw [h.forest.tree_eq hfind]
    have hchain : w.arena.storedChain w.arena.walkBound b.id = w.arena.tree b :: w.arena.rest b :=
      h.forest.chain_eq hfind
    rw [Arena.storedStack?, hfind, Option.map_some, Option.bind_some, hchain, List.head?_cons,
      Option.filter_some, hkind]
    simp
  have hroot : w.save.rootTree? kind =
      (List.find? (fun b => b.kind = kind.kindName) w.arena).map w.arena.tree := by
    rw [Snapshot.rootTree?, save, Arena.topLevel, Arena.ids, ← List.head?_filterMap,
      List.filterMap_filterMap, List.filterMap_filter, List.filterMap_map, List.head?_filterMap]
    apply findSome?_eq_map_find?
    intro b hb
    rw [Function.comp_apply, hstack b hb]
    by_cases hkind : b.kind = kind.kindName
    · have hfree := Sketch.free_of_kind h.forest (Arena.find?_of_mem hd hb) hkind
      have htop := (h.forest.tidy.mem_topLevel hd).2 ⟨List.mem_map_of_mem hb, hfree⟩
      rw [if_pos (List.mem_filter.1 htop).2]
      simp
    · simp [hkind]
  rw [hroot, Arena.root?]
  cases hfirst : List.find? (fun b => b.kind = kind.kindName) w.arena with
  | none => rfl
  | some b =>
    rw [Option.map_some, Option.map_some, Option.bind_some,
      Arena.find?_of_mem hd (List.mem_of_find?_eq_some hfirst), Option.map_some]

/-- The code of one root is that of what is stored of it. -/
theorem Grounded.plainRoot_eq (h : w.Grounded) (hs : w.registry.SlotsOnce)
    (hi : w.registry.IgnoresNumbers) {kind : RootKind} (hroot : w.arena.root? kind ≠ none) :
    ∃ stored fragment, w.save.rootTree? kind = some stored ∧
      stored.code? w.registry 0 = some fragment ∧
        Sketch.plainRoot w.arena w.registry kind = .ok (Sketch.atTop fragment) := by
  obtain ⟨x, hx⟩ := Option.ne_none_iff_exists'.1 hroot
  obtain ⟨b, hb, _⟩ := Arena.find?_of_root? h.numbered.nodup hx
  obtain ⟨fragment, hcode, hplain⟩ := (Sketch.plain_eq_tree h.forest hs hi h.known
    w.arena.walkBound).1 x (Arena.mem_ids_of_find? hb)
      (Nat.le_of_succ_le (w.arena.rank_bound x)) b hb 0
  refine ⟨w.arena.tree b, fragment, ?_, hcode, ?_⟩
  · rw [rootTree?_save h, hx, Option.bind_some, hb, Option.map_some]
  · rw [Sketch.plainRoot, hx]
    simp only [hplain]
    rfl

theorem Grounded.compile_eq_tree (h : w.Grounded) (hs : w.registry.SlotsOnce)
    (hi : w.registry.IgnoresNumbers) (hroots : ∀ kind, w.arena.root? kind ≠ none) :
    ∃ text, w.save.code? w.registry = some text ∧ w.compile = .ok text := by
  obtain ⟨setup, first, hsetup, hfirst, hplain⟩ := h.plainRoot_eq hs hi (hroots .setup)
  obtain ⟨loop, second, hloop, hsecond, hplain'⟩ := h.plainRoot_eq hs hi (hroots .loop)
  refine ⟨Sketch.atTop first ++ "\n" ++ Sketch.atTop second, ?_, ?_⟩
  · simp [Snapshot.code?, hsetup, hloop, hfirst, hsecond]
  · rw [compile, Sketch.compileWith_eq h hs, Sketch.plainProgram, hplain, hplain']
    rfl

theorem Grounded.rootTree?_eq_none (h : w.Grounded) {kind : RootKind} :
    w.save.rootTree? kind = none ↔ w.arena.root? kind = none := by
  rw [rootTree?_save h, Option.map_eq_none_iff, Option.bind_eq_none_iff]
  constructor
  · intro hnone
    by_contra hroot
    obtain ⟨x, hx⟩ := Option.ne_none_iff_exists'.1 hroot
    obtain ⟨b, hb, _⟩ := Arena.find?_of_root? h.numbered.nodup hx
    rw [hnone x hx] at hb
    cases hb
  · intro hroot x hx
    rw [hroot] at hx
    cases hx

/-- Programs in which the roots are stored alike have the same code, or the same
reason for having none: a root that is missing in one of them is missing in the
other. -/
theorem Grounded.compile_congr (h : w.Grounded) (h' : w'.Grounded)
    (hreg : w'.registry = w.registry) (hs : w.registry.SlotsOnce)
    (hi : w.registry.IgnoresNumbers)
    (hsame : ∀ kind, w'.save.rootTree? kind = w.save.rootTree? kind) : w'.compile = w.compile := by
  have hroot : ∀ kind, Sketch.plainRoot w'.arena w'.registry kind =
      Sketch.plainRoot w.arena w.registry kind := by
    intro kind
    by_cases hnone : w.arena.root? kind = none
    · have hnone' : w'.arena.root? kind = none := by
        rw [← h'.rootTree?_eq_none, hsame, h.rootTree?_eq_none]
        exact hnone
      rw [Sketch.plainRoot, Sketch.plainRoot, hnone, hnone']
    · obtain ⟨stored, fragment, hstored, hcode, hplain⟩ := h.plainRoot_eq hs hi hnone
      have hnone' : w'.arena.root? kind ≠ none := by
        rw [ne_eq, ← h'.rootTree?_eq_none, hsame, h.rootTree?_eq_none]
        exact hnone
      obtain ⟨stored', fragment', hstored', hcode', hplain'⟩ :=
        h'.plainRoot_eq (hreg ▸ hs) (hreg ▸ hi) hnone'
      obtain rfl := Option.some_inj.1 (hstored.symm.trans ((hsame kind).symm.trans hstored'))
      rw [hreg] at hcode'
      obtain rfl := Option.some_inj.1 (hcode.symm.trans hcode')
      rw [hplain, hplain']
  rw [compile, compile, Sketch.compileWith_eq h' (hreg ▸ hs), Sketch.compileWith_eq h hs,
    Sketch.plainProgram, Sketch.plainProgram, hroot, hroot]

/-- The code of a program that can come about is what recursion on its snapshot
makes of the two roots, and there always is such code. Programs in which the
roots are stored alike have the same code, whatever else is different. -/
theorem reached_compile_eq_tree (h : Reached registry w)
    (hroots : ∀ kind, w.arena.root? kind ≠ none) (hs : registry.SlotsOnce)
    (hi : registry.IgnoresNumbers) :
    (∃ text, w.save.code? registry = some text ∧ w.compile = .ok text) ∧
      ∀ w', Reached registry w' →
        (∀ kind, w'.save.rootTree? kind = w.save.rootTree? kind) → w'.compile = w.compile := by
  obtain ⟨rfl, hground⟩ := h.grounded
  obtain ⟨text, hcode, hcompile⟩ := hground.compile_eq_tree hs hi hroots
  refine ⟨⟨text, hcode, hcompile⟩, fun w' h' hsame => ?_⟩
  obtain ⟨hreg, hground'⟩ := h'.grounded
  have hroots' : ∀ kind, w'.arena.root? kind ≠ none := by
    intro kind hnone
    obtain ⟨stored, _, hstored, _⟩ := hground.plainRoot_eq hs hi (hroots kind)
    have hgone := rootTree?_save hground' kind
    rw [hnone, Option.bind_none, Option.map_none, hsame, hstored] at hgone
    cases hgone
  obtain ⟨text', hcode', hcompile'⟩ :=
    hground'.compile_eq_tree (hreg ▸ hs) (hreg ▸ hi) hroots'
  have heq : w'.save.code? w'.registry = w.save.code? w.registry := by
    rw [hreg, Snapshot.code?, Snapshot.code?, hsame, hsame]
  rw [hcode, hcode', Option.some_inj] at heq
  rw [hcompile, hcompile', heq]

/-- Two programs with one block in the loop. One of them has an expression beside
it, which was made first, and is on another board; the code is the same. -/
theorem reached_compile_eq_tree_of_beside :
    let w := (onDefaultBoard .builtin).afterAll
      [.edit (.create "delay_ms" .origin), .edit (.connect ⟨2⟩ (.slot "DO") ⟨3⟩)]
    let w' := (onDefaultBoard .builtin).afterAll
      [.edit (.create "number" .origin), .edit (.create "delay_ms" ⟨80, 80⟩),
        .edit (.connect ⟨2⟩ (.slot "DO") ⟨4⟩), .setBoard "esp32"]
    Reached .builtin w ∧ (∀ kind, w.arena.root? kind ≠ none) ∧ Registry.builtin.SlotsOnce ∧
      Registry.builtin.IgnoresNumbers ∧
      (∃ text, w.save.code? .builtin = some text ∧ w.compile = .ok text) ∧
      w'.compile = w.compile := by
  intro w w'
  have hreached : Reached .builtin w := ⟨_, .onDefaultBoard, _, rfl⟩
  have hreached' : Reached .builtin w' := ⟨_, .onDefaultBoard, _, rfl⟩
  have hroots := hreached.root?_ne_none hasRoots_builtin
  have hs := Registry.slotsOnce_builtin
  have hi := Registry.ignoresNumbers_builtin
  have hw : w = _ :=
    after_connect_of_bare ⟨2⟩ (.slot "DO") ⟨3⟩ rfl rfl (by decide) rfl rfl rfl rfl rfl rfl
  have hsetup : w.save.rootTree? .setup = some ⟨"root_setup", [], [], []⟩ := by
    rw [hw]
    rfl
  have hloop : w.save.rootTree? .loop = some ⟨"root_loop", [],
      [("DO", [⟨"delay_ms", [("MS", .number 1000)], [], []⟩])], []⟩ := by
    rw [hw]
    rfl
  have hsame : ∀ kind, w'.save.rootTree? kind = w.save.rootTree? kind := by
    unfold w'
    simp only [afterAll_cons, afterAll_nil]
    rw [after_connect_of_bare ⟨2⟩ (.slot "DO") ⟨4⟩ rfl rfl (by decide) rfl rfl rfl rfl rfl rfl]
    intro kind
    cases kind with
    | setup =>
      rw [hsetup]
      rfl
    | loop =>
      rw [hloop]
      rfl
  obtain ⟨hcode, hdepends⟩ := reached_compile_eq_tree hreached hroots hs hi
  exact ⟨hreached, hroots, hs, hi, hcode, hdepends w' hreached' hsame⟩

/-- With a registry that lets blocks stand after a root, the code of the stack is
not that of the root: what stands there has no code in the program. -/
theorem stacksCode?_ne_compile :
    let registry := Registry.builtin.register
      { Library.setup with sockets := { Library.setup.sockets with next := true } }
    let w := (onDefaultBoard registry).afterAll
      [.edit (.create "delay_ms" .origin), .edit (.connect ⟨1⟩ .next ⟨3⟩)]
    Reached registry w ∧ (∀ kind, w.arena.root? kind ≠ none) ∧ registry.SlotsOnce ∧
      registry.IgnoresNumbers ∧ ∃ text, w.save.stacksCode? registry = some text ∧
        w.compile ≠ .ok text := by
  intro registry w
  have hreached : Reached registry w := ⟨_, .onDefaultBoard, _, rfl⟩
  have hroots : registry.HasRoots := by
    intro kind
    cases kind <;> exact ⟨_, rfl, rfl⟩
  have hw : w = _ := after_connect_of_bare ⟨1⟩ .next ⟨3⟩ rfl rfl (by decide) rfl rfl rfl rfl rfl rfl
  have hstacks : w.save.stacksCode? registry = some
      "void setup() \x7b\n  // (no blocks)\n\x7d\ndelay(1000);\n\nvoid loop() \x7b\n  // (no blocks)\n\x7d\n" := by
    rw [hw]
    decide +kernel
  have hcompile : w.compile = .ok
      "void setup() \x7b\n  // (no blocks)\n\x7d\n\nvoid loop() \x7b\n  // (no blocks)\n\x7d\n" := by
    rw [hw]
    decide +kernel
  refine ⟨hreached, hreached.root?_ne_none hroots, Registry.slotsOnce_builtin.register ?_,
    Registry.ignoresNumbers_builtin.register fun _ _ => rfl, _, hstacks, fun heq => ?_⟩
  · exact ⟨by decide, by decide⟩
  · rw [hcompile] at heq
    exact absurd (Except.ok.inj heq) (by decide)

end Workspace

end BlockSketch
