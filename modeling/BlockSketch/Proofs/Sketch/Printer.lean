import BlockSketch.Proofs.Sketch.Tree
import BlockSketch.Proofs.Sketch.Wording
import BlockSketch.Proofs.Snapshot.RoundTrip

/-!
The code of a program from the top down. Generators work from the inside: each
container gets the finished code of its chain, takes it apart into lines and
moves them in. The same page can be written from the outside, by a printer that
knows how far in it is and never touches a line again (`StoredBlock.page`).

The two agree because whatever stands in the fields and slots of a builtin block,
each of its lines begins with something visible and has no line break in it.
-/

namespace BlockSketch

namespace Sketch

/-- A header, what it encloses, and a closing brace; if nothing is there to be
enclosed, a placeholder. -/
def enclosed (level : Nat) (header : String) (inner : Option (List PageLine)) : List PageLine :=
  ⟨level, header ++ " \x7b"⟩ ::
    (inner.getD [⟨level + 1, "// (no blocks)"⟩] ++ [⟨level, "\x7d"⟩])

end Sketch

/-! ### The printer -/

namespace StoredBlock

open Sketch

/-- What can be seen of a stored block: its fields, and what stands in its value
slots. -/
def sight (depth : Nat) (kind : String) (fields : List (String × FieldValue))
    (values : List (String × StoredBlock)) : Context where
  block := ⟨0⟩
  depth := depth
  fields := fields
  statements := []
  values :=
    match Registry.builtin.get? kind with
    | none => []
    | some type => type.sockets.valueSlots.map fun slot =>
      (slot.name, (((Entries.get? values slot.name).bind fun b =>
        b.code? .builtin depth).map (inSlot slot)).getD slot.empty)

mutual

/-- The lines of a block that stands at a level. -/
def page (depth level : Nat) : StoredBlock → List PageLine
  | ⟨kind, fields, statements, values⟩ =>
    match Library.header? (sight depth kind fields values) kind with
    | some header =>
      enclosed level header (Entries.get? (slotPages (depth + 1) (level + 1) statements) "DO")
    | none => [⟨level, (Library.sentence? (sight depth kind fields values) kind).getD ""⟩]

def chainPage (depth level : Nat) : List StoredBlock → List PageLine
  | [] => []
  | b :: rest => b.page depth level ++ chainPage depth level rest

def slotPages (depth level : Nat) : List (String × List StoredBlock) → Entries (List PageLine)
  | [] => []
  | (slot, chain) :: rest => (slot, chainPage depth level chain) :: slotPages depth level rest

end

def rootPage (kind : RootKind) (root : StoredBlock) : List PageLine :=
  enclosed 0 (Library.rootHeader kind) (Entries.get? (slotPages 0 1 root.statements) "DO")

end StoredBlock

def Snapshot.page? (s : Snapshot) : Option (List Sketch.PageLine) := do
  let setup ← s.rootTree? .setup
  let loop ← s.rootTree? .loop
  return setup.rootPage .setup ++ [⟨0, ""⟩] ++ loop.rootPage .loop

namespace StoredBlock

open Sketch Workspace

variable {board : Board} {type : BlockType} {depth : Nat} {kind : String}
  {fields : List (String × FieldValue)} {values : List (String × StoredBlock)}

/-- What is seen of a block that fits, if its expressions have no line breaks. -/
theorem tame_sight (hget : Registry.builtin.get? kind = some type)
    (hfields : FieldsFit type board fields)
    (hvalues : ∀ slot b, (slot, b) ∈ values → ∃ code order,
      b.code? .builtin depth = some (.value code order) ∧ OneLine code) :
    (sight depth kind fields values).Tame := by
  have htype : type ∈ Library.types := Registry.mem_of_get?_ofList hget
  constructor
  · intro name hname
    show OneLine (((Entries.get? fields name).map FieldValue.display).getD "")
    cases hvalue : Entries.get? fields name with
    | none => exact .empty
    | some value =>
      obtain ⟨spec, stored, hspec, hstored⟩ := hfields.2 name value (Entries.mem_of_get? hvalue)
      exact FieldSpec.oneLine_display (Library.isTame_of_choice htype hname hspec) hstored
  · intro name
    show OneLine ((Entries.get? (sight depth kind fields values).values name).getD "0")
    cases hcode : Entries.get? (sight depth kind fields values).values name with
    | none => exact show OneLine "0" by decide
    | some code =>
      have hmem := Entries.mem_of_get? hcode
      simp only [sight, hget] at hmem
      obtain ⟨slot, hslot, heq⟩ := List.mem_map.1 hmem
      obtain ⟨-, rfl⟩ := Prod.mk.inj heq
      show OneLine _
      cases hb : Entries.get? values slot.name with
      | none => exact Library.oneLine_empty htype slot hslot
      | some b =>
        obtain ⟨code, order, hb, hone⟩ := hvalues _ _ (Entries.mem_of_get? hb)
        rw [Option.bind_some, hb, Option.map_some, Option.getD_some, inSlot]
        split
        · exact (OneLine.append (by decide) hone).append (by decide)
        · exact hone

/-! ### Further in -/

theorem get?_slotPages (depth level : Nat) (slots : List (String × List StoredBlock))
    (name : String) : Entries.get? (slotPages depth level slots) name =
      (Entries.get? slots name).map (chainPage depth level) := by
  induction slots with
  | nil => rfl
  | cons entry rest ih =>
    obtain ⟨slot, chain⟩ := entry
    rw [slotPages, Entries.get?_cons, Entries.get?_cons, ih]
    split <;> rfl

theorem enclosed_raise (level levels : Nat) (header : String)
    (inner : Option (List PageLine)) :
    enclosed (level + levels) header (inner.map (List.map (PageLine.raise levels))) =
      (enclosed level header inner).map (PageLine.raise levels) := by
  cases inner <;> simp [enclosed, PageLine.raise, Nat.add_right_comm]

mutual

/-- Nothing but the levels of the lines depends on how far in a block stands. -/
theorem page_raise (levels depth level : Nat) : ∀ s : StoredBlock,
    s.page depth (level + levels) = (s.page depth level).map (PageLine.raise levels)
  | ⟨kind, fields, statements, values⟩ => by
    have hslots := slotPages_raise levels (depth + 1) (level + 1) statements
    rw [page, page]
    split
    · rw [Nat.add_right_comm level levels 1, hslots, enclosed_raise]
    · rfl

theorem chainPage_raise (levels depth level : Nat) : ∀ chain : List StoredBlock,
    chainPage depth (level + levels) chain =
      (chainPage depth level chain).map (PageLine.raise levels)
  | [] => rfl
  | b :: rest => by
    rw [chainPage, chainPage, page_raise levels depth level b,
      chainPage_raise levels depth level rest, List.map_append]

theorem slotPages_raise (levels depth level : Nat) : ∀ slots : List (String × List StoredBlock),
    Entries.get? (slotPages depth (level + levels) slots) "DO" =
      (Entries.get? (slotPages depth level slots) "DO").map (List.map (PageLine.raise levels))
  | [] => rfl
  | (slot, chain) :: rest => by
    rw [slotPages, slotPages, Entries.get?_cons, Entries.get?_cons,
      chainPage_raise levels depth level chain, slotPages_raise levels depth level rest]
    split <;> rfl

end

/-! ### Both printers -/

/-- The code of a block, from what is seen of it and the code of its chains. -/
theorem code?_eq_generator (depth : Nat) (s : StoredBlock)
    (hget : Registry.builtin.get? s.kind = some type)
    (hchains : ∀ slot chain, (slot, chain) ∈ s.statements → ∃ code,
      chainCode? .builtin (innerDepth type depth) chain = some code)
    (hvalues : ∀ slot b, (slot, b) ∈ s.values → ∃ fragment,
      b.code? .builtin depth = some fragment) :
    s.code? .builtin depth = some (type.generator
      ((sight depth s.kind s.fields s.values).withChains
        (Entries.collect type.sockets.statementSlots fun slot =>
          (Entries.get? s.statements slot).bind
            (chainCode? .builtin (innerDepth type depth))))) := by
  obtain ⟨chains, hchains, hgetChains⟩ :=
    Entries.exists_translate _ s.statements fun entry hentry => hchains entry.1 entry.2 hentry
  obtain ⟨expressions, hexpressions, hgetExpressions⟩ :=
    Entries.exists_translate _ s.values fun entry hentry => hvalues entry.1 entry.2 hentry
  rw [code?_eq, hget]
  simp only [hchains, hexpressions, Option.bind_eq_bind, Option.bind_some]
  simp only [funext hgetChains, hgetExpressions, sight, Context.withChains, hget]
  rfl

structure ChainAgrees (depth : Nat) (chain : List StoredBlock) : Prop where
  code : chainCode? .builtin depth chain = some (printed (chainPage depth 0 chain))
  proper : ∀ l ∈ chainPage depth 0 chain, l.Proper

/-- A statement has code, which is that of its page, and each line of it is
proper; an expression has code without line breaks. -/
structure Agrees (depth : Nat) (s : StoredBlock) : Prop where
  statement : Registry.builtin.Chains s.kind →
    s.code? .builtin depth = some (.statement (printed (s.page depth 0))) ∧
      ∀ l ∈ s.page depth 0, l.Proper
  value : Registry.builtin.Plugs s.kind →
    ∃ code order, s.code? .builtin depth = some (.value code order) ∧ OneLine code

/-- What moves its chain in writes the page of a header with that chain below it. -/
theorem container_eq (ctx : Context) {header : String}
    {statements : List (String × List StoredBlock)} (hvisible : Visible header)
    (hheader : OneLine header)
    (hchains : ∀ slot chain, (slot, chain) ∈ statements → ChainAgrees depth chain) :
    Library.container header ((ctx.withChains (Entries.collect ["DO"] fun slot =>
      (Entries.get? statements slot).bind (chainCode? .builtin depth))).statement "DO") =
      .statement (printed
        (enclosed 0 header (Entries.get? (slotPages depth 1 statements) "DO"))) ∧
    ∀ l ∈ enclosed 0 header (Entries.get? (slotPages depth 1 statements) "DO"), l.Proper := by
  have hslots := slotPages_raise 1 depth 0 statements
  rw [hslots, get?_slotPages]
  have hinner : ∃ inner : List PageLine, (ctx.withChains (Entries.collect ["DO"] fun slot =>
      (Entries.get? statements slot).bind (chainCode? .builtin depth))).statement "DO" =
        printed inner ∧ (∀ l ∈ inner, l.Proper) ∧
      enclosed 0 header (((Entries.get? statements "DO").map (chainPage depth 0)).map
        (List.map (PageLine.raise 1))) =
      ⟨0, header ++ " \x7b"⟩ :: (inner.map (PageLine.raise 1) ++ [⟨0, "\x7d"⟩]) := by
    have hget := Entries.get?_collect (show ["DO"].Nodup by decide) (fun slot =>
      (Entries.get? statements slot).bind (chainCode? .builtin depth)) List.mem_cons_self
    rw [Context.statement, Context.withChains, hget]
    cases hchain : Entries.get? statements "DO" with
    | none =>
      refine ⟨[⟨0, "// (no blocks)"⟩], ?_, ?_, rfl⟩
      · rw [printed_singleton]
        rfl
      · rintro l hl
        rw [List.mem_singleton.1 hl]
        exact ⟨by decide, by decide⟩
    | some chain =>
      have hagrees := hchains _ _ (Entries.mem_of_get? hchain)
      refine ⟨chainPage depth 0 chain, ?_, hagrees.proper, rfl⟩
      rw [Option.bind_some, hagrees.code]
      rfl
  obtain ⟨inner, hstatement, hproper, hpage⟩ := hinner
  rw [hpage]
  constructor
  · rw [Library.container, hstatement, indent_printed hproper]
    have hcons : ∀ (l : PageLine) rest, l :: rest = [l] ++ rest := fun _ _ => rfl
    rw [hcons, printed_append, printed_append, printed_singleton, printed_singleton]
    simp [String.append_assoc]
  · intro l hl
    simp only [List.mem_cons, List.mem_append, List.not_mem_nil, or_false] at hl
    rcases hl with rfl | hl | rfl
    · exact ⟨hvisible.append _, hheader.append (by decide)⟩
    · obtain ⟨x, hx, rfl⟩ := List.mem_map.1 hl
      exact (hproper x hx).raise 1
    · exact ⟨by decide, by decide⟩

theorem page_of_header {level : Nat} {header : String}
    {statements : List (String × List StoredBlock)}
    (h : Library.header? (sight depth kind fields values) kind = some header) :
    page depth level ⟨kind, fields, statements, values⟩ =
      enclosed level header (Entries.get? (slotPages (depth + 1) (level + 1) statements) "DO") := by
  simp only [page, h]

theorem page_of_sentence {level : Nat} {code : String}
    {statements : List (String × List StoredBlock)}
    (hheader : Library.header? (sight depth kind fields values) kind = none)
    (h : Library.sentence? (sight depth kind fields values) kind = some code) :
    page depth level ⟨kind, fields, statements, values⟩ = [⟨level, code⟩] := by
  simp only [page, hheader, h, Option.getD_some]

/-- A block agrees if what is plugged into it does. -/
theorem agrees_of_parts {statements : List (String × List StoredBlock)}
    (hget : Registry.builtin.get? kind = some type) (hfields : FieldsFit type board fields)
    (hchains : ∀ depth slot chain, (slot, chain) ∈ statements → ChainAgrees depth chain)
    (hvalues : ∀ slot b, (slot, b) ∈ values → ∃ code order,
      b.code? .builtin depth = some (.value code order) ∧ OneLine code) :
    Agrees depth ⟨kind, fields, statements, values⟩ := by
  have htype : type ∈ Library.types := Registry.mem_of_get?_ofList hget
  have hkind := Registry.kind_of_get? hget
  have htame : (sight depth kind fields values).Tame := tame_sight hget hfields hvalues
  have hcode := code?_eq_generator depth ⟨kind, fields, statements, values⟩ hget
    (fun slot chain hmem => ⟨_, (hchains _ slot chain hmem).code⟩)
    (fun slot b hmem => by
      obtain ⟨code, order, hb, -⟩ := hvalues slot b hmem
      exact ⟨_, hb⟩)
  constructor
  · rintro ⟨-, type', hget', hchainable⟩
    obtain rfl := Option.some.inj (hget.symm.trans hget')
    obtain ⟨hstatement, -⟩ : type.category = .statement ∧ type.sockets.previous = true := by
      simpa [BlockType.isChainable] using hchainable
    have hinner : innerDepth type depth = depth + 1 := by
      simp [innerDepth, BlockType.rootKind?, hstatement]
    rw [hcode, hinner]
    have hview := htame.withChains (Entries.collect type.sockets.statementSlots fun slot =>
      (Entries.get? statements slot).bind (chainCode? .builtin (depth + 1)))
    rcases Library.statement_cases htype hstatement hview with
      ⟨header, hheader, hvisible, hone, hslots, hgenerator⟩ |
      ⟨hheader, code, hsentence, hvisible, hone, hgenerator⟩
    · rw [hkind, Library.header?_withChains] at hheader
      obtain ⟨hcontainer, hproper⟩ := container_eq (sight depth kind fields values) hvisible hone
        (hchains (depth + 1))
      rw [← hslots] at hcontainer
      rw [page_of_header hheader]
      exact ⟨congrArg some (hgenerator.trans hcontainer), hproper⟩
    · rw [hkind, Library.header?_withChains] at hheader
      rw [hkind, Library.sentence?_withChains] at hsentence
      rw [page_of_sentence hheader hsentence, printed_singleton]
      refine ⟨congrArg some hgenerator, fun l hl => ?_⟩
      rw [List.mem_singleton.1 hl]
      exact ⟨hvisible, hone⟩
  · rintro ⟨-, type', hget', hpluggable⟩
    obtain rfl := Option.some.inj (hget.symm.trans hget')
    obtain ⟨hvalue, -⟩ : type.category = .value ∧ type.sockets.output = true := by
      simpa [BlockType.isPluggable] using hpluggable
    obtain ⟨code, order, hgenerator, hone⟩ :=
      Library.expression_cases htype hvalue (htame.withChains _)
    exact ⟨code, order, hcode.trans (congrArg some hgenerator), hone⟩

mutual

/-- The generators and the printer agree on every block that fits. -/
theorem agrees : ∀ (s : StoredBlock) (depth : Nat), s.Fits .builtin board → s.Agrees depth
  | ⟨_, _, statements, values⟩, depth, ⟨_, hget, hfields, _, hslots, _, hvalues⟩ =>
    agrees_of_parts hget hfields (fun depth => slots_agree statements depth _ hslots)
      (values_agree values depth _ hvalues)

theorem chain_agrees : ∀ (chain : List StoredBlock) (depth : Nat) (place : Prop),
    ChainFits .builtin board place chain → ChainAgrees depth chain
  | [], _, _, _ => ⟨rfl, by simp [chainPage]⟩
  | b :: rest, depth, _, ⟨_, hkind, hfits, hrest⟩ => by
    obtain ⟨hcode, hproper⟩ := (agrees b depth hfits).statement hkind
    obtain ⟨hcodes, hpropers⟩ := chain_agrees rest depth _ hrest
    refine ⟨?_, fun l hl => ?_⟩
    · rw [chainCode?, hcode, hcodes, chainPage, printed_append]
      rfl
    · rcases List.mem_append.1 hl with hl | hl
      · exact hproper l hl
      · exact hpropers l hl

theorem slots_agree : ∀ (slots : List (String × List StoredBlock)) (depth : Nat)
    (type : BlockType), SlotsFit .builtin board type slots →
      ∀ slot chain, (slot, chain) ∈ slots → ChainAgrees depth chain
  | [], _, _, _ => fun _ _ hmem => absurd hmem List.not_mem_nil
  | (_, _) :: rest, depth, _, ⟨hfirst, hrest⟩ => fun slot chain hmem => by
    rcases List.mem_cons.1 hmem with heq | hmem
    · obtain ⟨-, rfl⟩ := Prod.mk.inj heq
      exact chain_agrees chain depth _ hfirst
    · exact slots_agree rest depth _ hrest slot chain hmem

theorem values_agree : ∀ (values : List (String × StoredBlock)) (depth : Nat)
    (type : BlockType), ValuesFit .builtin board type values →
      ∀ slot b, (slot, b) ∈ values → ∃ code order,
        b.code? .builtin depth = some (.value code order) ∧ OneLine code
  | [], _, _, _ => fun _ _ hmem => absurd hmem List.not_mem_nil
  | (_, _) :: rest, depth, _, ⟨_, hkind, hfirst, hrest⟩ => fun slot b hmem => by
    rcases List.mem_cons.1 hmem with heq | hmem
    · obtain ⟨-, rfl⟩ := Prod.mk.inj heq
      exact (agrees b depth hfirst).value hkind
    · exact values_agree rest depth _ hrest slot b hmem

end

/-! ### What the levels depend on -/

mutual

/-- The kinds of the statements in a block, and nothing of what is in their fields
and value slots. -/
def bare : StoredBlock → StoredBlock
  | ⟨kind, _, statements, _⟩ => ⟨kind, [], bareSlots statements, []⟩

def bareChain : List StoredBlock → List StoredBlock
  | [] => []
  | b :: rest => b.bare :: bareChain rest

def bareSlots : List (String × List StoredBlock) → List (String × List StoredBlock)
  | [] => []
  | (slot, chain) :: rest => (slot, bareChain chain) :: bareSlots rest

end

theorem levels_enclosed {level : Nat} {header header' : String}
    {inner inner' : Option (List PageLine)}
    (h : inner'.map (List.map PageLine.level) = inner.map (List.map PageLine.level)) :
    (enclosed level header' inner').map PageLine.level =
      (enclosed level header inner).map PageLine.level := by
  cases inner <;> cases inner' <;> simp_all [enclosed]

/-- Whether a block has a header is a matter of its kind. -/
theorem isSome_header? (ctx ctx' : Context) (kind : String) :
    (Library.header? ctx kind).isSome = (Library.header? ctx' kind).isSome := by
  unfold Library.header?
  split <;> rfl

mutual

theorem levels_bare : ∀ (s : StoredBlock) (depth level : Nat),
    (s.bare.page depth level).map PageLine.level = (s.page depth level).map PageLine.level
  | ⟨kind, fields, statements, values⟩, depth, level => by
    have hslots := levels_bareSlots statements (depth + 1) (level + 1)
    have hsome := isSome_header? (sight depth kind [] []) (sight depth kind fields values) kind
    simp only [bare, page]
    cases hbare : Library.header? (sight depth kind [] []) kind with
    | none =>
      rw [hbare, Option.isSome_none, eq_comm, Option.isSome_eq_false_iff, Option.isNone_iff_eq_none]
        at hsome
      rw [hsome]
      rfl
    | some header' =>
      rw [hbare, Option.isSome_some, eq_comm, Option.isSome_iff_exists] at hsome
      obtain ⟨header, hheader⟩ := hsome
      rw [hheader]
      exact levels_enclosed hslots

theorem levels_bareChain : ∀ (chain : List StoredBlock) (depth level : Nat),
    (chainPage depth level (bareChain chain)).map PageLine.level =
      (chainPage depth level chain).map PageLine.level
  | [], _, _ => rfl
  | b :: rest, depth, level => by
    rw [bareChain, chainPage, chainPage, List.map_append, List.map_append,
      levels_bare b depth level, levels_bareChain rest depth level]

theorem levels_bareSlots : ∀ (slots : List (String × List StoredBlock)) (depth level : Nat),
    (Entries.get? (slotPages depth level (bareSlots slots)) "DO").map (List.map PageLine.level) =
      (Entries.get? (slotPages depth level slots) "DO").map (List.map PageLine.level)
  | [], _, _ => rfl
  | (slot, chain) :: rest, depth, level => by
    rw [bareSlots, slotPages, slotPages, Entries.get?_cons, Entries.get?_cons]
    split
    · exact congrArg some (levels_bareChain chain depth level)
    · exact levels_bareSlots rest depth level

end

theorem levels_rootPage_bare (kind : RootKind) (s : StoredBlock) :
    (s.bare.rootPage kind).map PageLine.level = (s.rootPage kind).map PageLine.level := by
  obtain ⟨_, _, statements, _⟩ := s
  exact levels_enclosed (levels_bareSlots statements 0 1)

theorem bareSlots_eq_map (slots : List (String × List StoredBlock)) :
    bareSlots slots = slots.map fun entry => (entry.1, bareChain entry.2) := by
  induction slots with
  | nil => rfl
  | cons entry rest ih => exact congrArg ((entry.1, bareChain entry.2) :: ·) ih

/-! ### Roots -/

/-- The code of a root is its page, and each line of it is proper. -/
theorem code?_of_root {s : StoredBlock} (h : s.Fits .builtin board) {root : RootKind}
    (hkind : s.kind = root.kindName) :
    s.code? .builtin 0 = some (.statement (printed (s.rootPage root))) ∧
      ∀ l ∈ s.rootPage root, l.Proper := by
  obtain ⟨kind, fields, statements, values⟩ := s
  obtain ⟨type, hget, _, _, hslots, _, hvalues⟩ := h
  obtain rfl : kind = root.kindName := hkind
  have hchains := slots_agree statements 0 type hslots
  have hvalues := values_agree values 0 type hvalues
  have hheader : Visible (Library.rootHeader root) ∧ OneLine (Library.rootHeader root) := by
    cases root <;> decide
  obtain ⟨hcontainer, hproper⟩ := container_eq (sight 0 root.kindName fields values) hheader.1
    hheader.2 hchains
  have htype : innerDepth type 0 = 0 ∧ type.sockets.statementSlots = ["DO"] ∧ ∀ ctx,
      type.generator ctx = Library.container (Library.rootHeader root) (ctx.statement "DO") := by
    cases root <;> (cases hget; exact ⟨rfl, rfl, fun _ => rfl⟩)
  obtain ⟨hinner, hdo, hgenerator⟩ := htype
  have hcode := code?_eq_generator 0 ⟨root.kindName, fields, statements, values⟩ hget
    (fun slot chain hmem => ⟨_, by rw [hinner]; exact (hchains slot chain hmem).code⟩)
    (fun slot b hmem => by
      obtain ⟨code, order, hb, -⟩ := hvalues slot b hmem
      exact ⟨_, hb⟩)
  rw [hcode, hinner, hdo, hgenerator, hcontainer]
  exact ⟨rfl, hproper⟩

end StoredBlock

/-! ### Programs -/

/-- What is stored of a root belongs to a stack. -/
theorem Snapshot.exists_of_rootTree? {s : Snapshot} {root : RootKind} {tree : StoredBlock}
    (h : s.rootTree? root = some tree) :
    tree.kind = root.kindName ∧ ∃ stack ∈ s.canvas, ∃ rest, stack.blocks = tree :: rest := by
  obtain ⟨stack, hstack, hhead⟩ := List.exists_of_findSome?_eq_some h
  obtain ⟨hhead, hkind⟩ := Option.filter_eq_some_iff.1 hhead
  obtain ⟨rest, hblocks⟩ := List.head?_eq_some_iff.1 hhead
  exact ⟨of_decide_eq_true hkind, stack, hstack, rest, hblocks⟩

namespace Workspace

open Sketch

variable {w w' : Workspace}

/-! ### Fields -/

/-- A change to blocks that leaves alone how statements hang together makes no
difference to the kinds of the statements that are stored. -/
theorem bare_stored {A A' : Arena} {g : Block → Block} (hkind : ∀ b, (g b).kind = b.kind)
    (hnext : ∀ b, (g b).next = b.next) (hstatements : ∀ b, (g b).statements = b.statements)
    (hfind : ∀ x, A'.find? x = (A.find? x).map g) (steps : Nat) :
    (∀ b, (A'.storedBlock steps (g b)).bare = (A.storedBlock steps b).bare) ∧
    ∀ x, StoredBlock.bareChain (A'.storedChain steps x) =
      StoredBlock.bareChain (A.storedChain steps x) := by
  induction steps with
  | zero =>
    refine ⟨fun b => ?_, fun _ => rfl⟩
    rw [Arena.storedBlock, Arena.storedBlock, StoredBlock.bare, StoredBlock.bare, hkind]
  | succ steps ih =>
    obtain ⟨ihBlock, ihChain⟩ := ih
    constructor
    · intro b
      rw [Arena.storedBlock, Arena.storedBlock, StoredBlock.bare, StoredBlock.bare, hkind,
        hstatements, StoredBlock.bareSlots_eq_map, StoredBlock.bareSlots_eq_map,
        List.map_filterMap, List.map_filterMap]
      simp only [Option.map_map, Function.comp_def, ihChain]
    · intro x
      rw [Arena.storedChain, Arena.storedChain, hfind]
      cases A.find? x with
      | none => rfl
      | some b =>
        simp only [Option.map_some, StoredBlock.bareChain, ihBlock, hnext]
        cases b.next with
        | none => rfl
        | some next => rw [ihChain]

theorem Reached.setField {registry : Registry} (h : Reached registry w) {id : BlockId}
    {name : String} {value : FieldValue} (ha : w.setField id name value = .ok w') :
    Reached registry w' := by
  have hafter : w.afterAll [.edit (.setField id name value)] = w' := by
    simp [after, perform, ha]
  rw [← hafter]
  exact h.afterAll _

/-- Whatever a field is set to, the statements are stored as before. -/
theorem bare_setField (h : Reached .builtin w) {id : BlockId} {name : String}
    {value : FieldValue} (ha : w.setField id name value = .ok w') (root : RootKind) :
    (w'.save.rootTree? root).map StoredBlock.bare =
      (w.save.rootTree? root).map StoredBlock.bare := by
  rw [rootTree?_save (h.setField ha).grounded.2, rootTree?_save h.grounded.2]
  obtain ⟨spec, stored, -, -, rfl⟩ := setField_eq_ok.1 ha
  let f (b : Block) : Block := { b with fields := b.fields.insert name stored }
  let g (b : Block) : Block := if b.id = id then f b else b
  have hg : ∀ {α : Type} (part : Block → α), (∀ b, part (f b) = part b) →
      ∀ b, part (g b) = part b := by
    intro α part hpart b
    by_cases hb : b.id = id
    · exact (congrArg part (if_pos hb)).trans (hpart b)
    · exact congrArg part (if_neg hb)
  have hfind : ∀ x, (w.arena.modify id f).find? x = (w.arena.find? x).map g :=
    fun x => Arena.find?_modify w.arena id x f fun _ => rfl
  have hbound : (w.arena.modify id f).walkBound = w.arena.walkBound := by
    simp [Arena.walkBound, Arena.modify]
  have hroot : (w.arena.modify id f).root? root = w.arena.root? root :=
    Arena.root?_of_outline (Arena.outline_modify w.arena id (f := f) (fun _ => rfl) fun _ => rfl)
      root
  have hstored := bare_stored (hg Block.kind fun _ => rfl) (hg Block.next fun _ => rfl)
    (hg Block.statements fun _ => rfl) hfind w.arena.walkBound
  show ((((w.arena.modify id f).root? root).bind (w.arena.modify id f).find?).map
    (w.arena.modify id f).tree).map StoredBlock.bare = _
  rw [hroot, Option.map_map, Option.map_map]
  cases w.arena.root? root with
  | none => rfl
  | some x =>
    rw [Option.bind_some, Option.bind_some, hfind, Option.map_map]
    refine Option.map_congr fun b _ => ?_
    show (Arena.storedBlock _ (w.arena.modify id f).walkBound (g b)).bare = _
    rw [hbound]
    exact hstored.1 b

/-- A root of a program that has come about is stored, and its code is its page. -/
theorem Reached.exists_rootPage (h : Reached .builtin w) (root : RootKind) :
    ∃ tree, w.save.rootTree? root = some tree ∧
      tree.code? .builtin 0 = some (.statement (printed (tree.rootPage root))) ∧
      ∀ l ∈ tree.rootPage root, l.Proper := by
  obtain ⟨hreg, hc, hw, ht, -⟩ := h.settled
  have hsettled := settled_save ht hc hw (hreg ▸ Registry.regular_builtin)
  obtain ⟨-, hground⟩ := h.grounded
  have hroot := h.root?_ne_none hasRoots_builtin root
  obtain ⟨tree, -, htree, -⟩ := hground.plainRoot_eq (hreg ▸ Registry.slotsOnce_builtin)
    (hreg ▸ Registry.ignoresNumbers_builtin) hroot
  obtain ⟨hkind, stack, hstack, rest, hblocks⟩ := Snapshot.exists_of_rootTree? htree
  obtain ⟨first, _, hfirst, hfits, -⟩ := hsettled.fits stack hstack
  obtain rfl : tree = first := (List.cons.inj (hblocks.symm.trans hfirst)).1
  exact ⟨tree, htree, StoredBlock.code?_of_root (hreg ▸ hfits) hkind⟩

theorem Reached.exists_rootPages (h : Reached .builtin w) :
    ∃ setup loop, w.save.rootTree? .setup = some setup ∧ w.save.rootTree? .loop = some loop ∧
      w.compile = .ok (printed (setup.rootPage .setup ++ [⟨0, ""⟩] ++ loop.rootPage .loop)) ∧
      (∀ l ∈ setup.rootPage .setup, l.Proper) ∧ ∀ l ∈ loop.rootPage .loop, l.Proper := by
  obtain ⟨setup, hsetup, hfirst, hsetupProper⟩ := h.exists_rootPage .setup
  obtain ⟨loop, hloop, hsecond, hloopProper⟩ := h.exists_rootPage .loop
  obtain ⟨hreg, hground⟩ := h.grounded
  obtain ⟨text, hcode, hcompile⟩ := hground.compile_eq_tree (hreg ▸ Registry.slotsOnce_builtin)
    (hreg ▸ Registry.ignoresNumbers_builtin) (h.root?_ne_none hasRoots_builtin)
  refine ⟨setup, loop, hsetup, hloop, ?_, hsetupProper, hloopProper⟩
  have htext : w.save.code? .builtin =
      some (printed (setup.rootPage .setup) ++ "\n" ++ printed (loop.rootPage .loop)) := by
    simp [Snapshot.code?, hsetup, hloop, hfirst, hsecond, atTop]
  rw [hreg, htext, Option.some_inj] at hcode
  rw [hcompile, ← hcode, printed_append, printed_append, printed_singleton, String.empty_append]

/-- Programs whose statements are stored alike have lines at the same levels. -/
theorem levels_eq {page page' : List PageLine} (hpage : w.save.page? = some page)
    (hpage' : w'.save.page? = some page')
    (hbare : ∀ root, (w'.save.rootTree? root).map StoredBlock.bare =
      (w.save.rootTree? root).map StoredBlock.bare) :
    page'.map PageLine.level = page.map PageLine.level := by
  have hsame : ∀ {root tree tree'}, w.save.rootTree? root = some tree →
      w'.save.rootTree? root = some tree' →
      (tree'.rootPage root).map PageLine.level = (tree.rootPage root).map PageLine.level := by
    intro root tree tree' htree htree'
    have heq := hbare root
    rw [htree, htree', Option.map_some, Option.map_some, Option.some_inj] at heq
    rw [← StoredBlock.levels_rootPage_bare, heq, StoredBlock.levels_rootPage_bare]
  simp only [Snapshot.page?, Option.bind_eq_bind, Option.bind_eq_some_iff] at hpage hpage'
  obtain ⟨setup, hsetup, loop, hloop, hpage⟩ := hpage
  obtain ⟨setup', hsetup', loop', hloop', hpage'⟩ := hpage'
  rw [← Option.some.inj hpage, ← Option.some.inj hpage']
  simp only [List.map_append, hsame hsetup hsetup', hsame hloop hloop']

/-- The code of a program that can come about from the builtin blocks is its page
as it is written from the top down. Its lines are those of the page, and each is
empty or has two blanks for each level before something visible. How many lines
there are and at which levels is a matter of the statements alone: programs that
differ in fields and expressions only have the same, and setting a field does not
change them. -/
theorem reached_compile_eq_printed (h : Reached .builtin w) :
    ∃ page, w.save.page? = some page ∧ w.compile = .ok (printed page) ∧
      Text.lines (printed page).toList = page.map PageLine.chars ∧
      (∀ l ∈ page, l = ⟨0, ""⟩ ∨ l.Proper) ∧
      (∀ (w' : Workspace) (page' : List PageLine),
        (∀ root, (w'.save.rootTree? root).map StoredBlock.bare =
          (w.save.rootTree? root).map StoredBlock.bare) →
        w'.save.page? = some page' → page'.map PageLine.level = page.map PageLine.level) ∧
      ∀ id name value w' (page' : List PageLine), w.setField id name value = .ok w' →
        w'.save.page? = some page' → page'.map PageLine.level = page.map PageLine.level := by
  obtain ⟨setup, loop, hsetup, hloop, hcompile, hsetupProper, hloopProper⟩ := h.exists_rootPages
  have hpage : w.save.page? =
      some (setup.rootPage .setup ++ [⟨0, ""⟩] ++ loop.rootPage .loop) := by
    rw [Snapshot.page?, hsetup, hloop]
    rfl
  have hproper : ∀ l ∈ setup.rootPage .setup ++ [⟨0, ""⟩] ++ loop.rootPage .loop,
      l = ⟨0, ""⟩ ∨ l.Proper := by
    intro l hl
    rw [List.mem_append, List.mem_append, List.mem_singleton] at hl
    rcases hl with (hl | rfl) | hl
    · exact .inr (hsetupProper l hl)
    · exact .inl rfl
    · exact .inr (hloopProper l hl)
  have honeLine : ∀ l ∈ setup.rootPage .setup ++ [⟨0, ""⟩] ++ loop.rootPage .loop,
      OneLine l.code := by
    intro l hl
    rcases hproper l hl with rfl | hl
    · exact .empty
    · exact hl.oneLine
  exact ⟨_, hpage, hcompile, lines_printed honeLine, hproper,
    fun w' page' hbare hpage' => levels_eq hpage hpage' hbare,
    fun id name value w' page' ha hpage' => levels_eq hpage hpage' (bare_setField h ha)⟩

/-- An `if` in a `repeat`, and a text that would end the line and the loop. -/
theorem reached_compile_eq_printed_of_broken :
    let w := (onDefaultBoard .builtin).afterAll
      [.edit (.create "repeat_times" .origin), .edit (.connect ⟨2⟩ (.slot "DO") ⟨3⟩),
        .edit (.create "if_then" .origin), .edit (.connect ⟨3⟩ (.slot "DO") ⟨4⟩),
        .edit (.create "serial_print" .origin), .edit (.connect ⟨4⟩ .next ⟨5⟩),
        .edit (.create "text" .origin), .edit (.plug ⟨5⟩ "TEXT" ⟨6⟩),
        .edit (.setField ⟨6⟩ "TEXT" (.text "\x7d\r\n  \n"))]
    Reached .builtin w ∧ ∃ page, w.save.page? = some page ∧ w.compile = .ok (printed page) ∧
      Text.lines (printed page).toList = page.map PageLine.chars := by
  intro w
  have hreached : Reached .builtin w := ⟨_, .onDefaultBoard, _, rfl⟩
  obtain ⟨page, hpage, hcompile, hlines, -⟩ := reached_compile_eq_printed hreached
  exact ⟨hreached, page, hpage, hcompile, hlines⟩

example : printed (StoredBlock.chainPage 0 1
    [⟨"repeat_times", [("TIMES", .number 3)], [("DO", [⟨"if_then", [], [], []⟩])], []⟩,
      ⟨"serial_print", [], [], [("TEXT", ⟨"text", [("TEXT", .text "\x7d\r\n")], [], []⟩)]⟩]) =
    "  for (unsigned long i = 0; i < 3; i++) \x7b\n    if (false) \x7b\n      // (no blocks)\n    \x7d\n  \x7d\n  Serial.println(\"\x7d\\r\\n\");\n" := by
  decide +kernel

end Workspace

end BlockSketch
