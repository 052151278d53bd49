import BlockSketch.Proofs.Graph.Stepwise
import BlockSketch.Proofs.Graph.Successor
import BlockSketch.Proofs.Snapshot.Laid

/-!
Where restored blocks come to lie. A snapshot whose parts fit the registry is
rebuilt without being refused, and what comes out can be written down from the
snapshot alone (`layBlock` and its companions): the blocks in the order of the
walk, numbered one after the other, each with its fields, and with links to the
numbers at which what is plugged into it begins.
-/

namespace BlockSketch

/-! ### What fits -/

namespace Registry

/-- Blocks of the kind can stand after another one. -/
def Chains (registry : Registry) (kind : String) : Prop :=
  RootKind.ofKindName? kind = none ∧
    ∃ type, registry.get? kind = some type ∧ type.isChainable = true

/-- Blocks of the kind can be plugged into a value slot. -/
def Plugs (registry : Registry) (kind : String) : Prop :=
  RootKind.ofKindName? kind = none ∧
    ∃ type, registry.get? kind = some type ∧ type.isPluggable = true

def Continues (registry : Registry) (kind : String) : Prop :=
  ∃ type, registry.get? kind = some type ∧ type.sockets.next = true

end Registry

namespace StoredBlock

/-- Every field is given once, is declared, and can hold its value. -/
def FieldsFit (type : BlockType) (board : Board) (fields : List (String × FieldValue)) : Prop :=
  Entries.Distinct fields ∧ ∀ name value, (name, value) ∈ fields → ∃ spec stored,
    type.field? name = some spec ∧ Workspace.restorable spec value board = .ok stored

theorem FieldsFit.nil (type : BlockType) (board : Board) : FieldsFit type board [] :=
  ⟨Entries.distinct_nil, fun _ _ hmem => absurd hmem List.not_mem_nil⟩

theorem FieldsFit.single {type : BlockType} {board : Board} {name : String} {value : FieldValue}
    (spec : FieldSpec) (stored : FieldValue) (hspec : type.field? name = some spec)
    (hstored : Workspace.restorable spec value board = .ok stored) :
    FieldsFit type board [(name, value)] := by
  refine ⟨List.pairwise_singleton .., fun other given hmem => ?_⟩
  cases List.mem_singleton.1 hmem
  exact ⟨spec, stored, hspec, hstored⟩

mutual

/-- A block whose parts are all declared by its type and fit there. -/
def Fits (registry : Registry) (board : Board) : StoredBlock → Prop
  | ⟨kind, fields, statements, values⟩ =>
    ∃ type, registry.get? kind = some type ∧ FieldsFit type board fields ∧
      Entries.Distinct statements ∧ SlotsFit registry board type statements ∧
      Entries.Distinct values ∧ ValuesFit registry board type values

/-- A chain whose blocks fit, below a place that is there. -/
def ChainFits (registry : Registry) (board : Board) : Prop → List StoredBlock → Prop
  | _, [] => True
  | place, b :: rest =>
    place ∧ registry.Chains b.kind ∧ b.Fits registry board ∧
      ChainFits registry board (registry.Continues b.kind) rest

def SlotsFit (registry : Registry) (board : Board) (type : BlockType) :
    List (String × List StoredBlock) → Prop
  | [] => True
  | (slot, chain) :: rest =>
    ChainFits registry board (slot ∈ type.sockets.statementSlots) chain ∧
      SlotsFit registry board type rest

def ValuesFit (registry : Registry) (board : Board) (type : BlockType) :
    List (String × StoredBlock) → Prop
  | [] => True
  | (slot, b) :: rest =>
    slot ∈ type.sockets.valueSlots.map ValueSlot.name ∧ registry.Plugs b.kind ∧
      b.Fits registry board ∧ ValuesFit registry board type rest

end

theorem Fits.registered {registry : Registry} {board : Board} :
    ∀ {s : StoredBlock}, s.Fits registry board → ∃ type, registry.get? s.kind = some type
  | ⟨_, _, _, _⟩, ⟨type, hget, _⟩ => ⟨type, hget⟩

end StoredBlock

def StoredStack.Fits (registry : Registry) (board : Board) (stack : StoredStack) : Prop :=
  ∃ first chain, stack.blocks = first :: chain ∧ first.Fits registry board ∧
    StoredBlock.ChainFits registry board (registry.Continues first.kind) chain

/-- A root does not come twice: no later stack begins with a root that an earlier
one begins with. -/
def Snapshot.RootsFit (registry : Registry) (canvas : List StoredStack) : Prop :=
  canvas.Pairwise fun earlier later => ∀ b ∈ later.blocks.head?, ∀ type root,
    registry.get? b.kind = some type → type.rootKind? = some root →
      ∀ a ∈ earlier.blocks.head?, a.kind ≠ root.kindName

/-! ### The layout -/

namespace Workspace

open StoredBlock

def restoredValue (type : BlockType) (board : Board) (name : String) (value : FieldValue) :
    FieldValue :=
  match type.field? name with
  | none => value
  | some spec =>
    match restorable spec value board with
    | .ok stored => stored
    | .error _ => value

def restoredFields (type : BlockType) (board : Board) (fields : List (String × FieldValue)) :
    List (String × FieldValue) :=
  fields.map fun field => (field.1, restoredValue type board field.1 field.2)

def first? (n : Nat) : List StoredBlock → Option BlockId
  | [] => none
  | _ :: _ => some ⟨n⟩

/-- The filled statement slots, with the first block in each. -/
def heads (n : Nat) : List (String × List StoredBlock) → List (String × Option BlockId)
  | [] => []
  | (_, []) :: rest => heads n rest
  | (slot, b :: chain) :: rest =>
    (slot, some ⟨n⟩) :: heads (n + countChain (b :: chain)) rest

def plugs (n : Nat) : List (String × StoredBlock) → List (String × Option BlockId)
  | [] => []
  | (slot, b) :: rest => (slot, some ⟨n⟩) :: plugs (n + b.count) rest

def layOne (type : BlockType) (board : Board) (n : Nat) (position : Position)
    (next : Option BlockId) (fields : List (String × FieldValue))
    (statements values : List (String × Option BlockId)) : Block :=
  let b := freshBlock type board ⟨n⟩ position
  { b with
    fields := b.fields.write (restoredFields type board fields)
    next := next
    statements := b.statements.write statements
    values := b.values.write values }

mutual

/-- A restored block and what is plugged into it, from the number `n` on. -/
def layBlock (registry : Registry) (board : Board) (n : Nat) (position : Position)
    (next : Option BlockId) : StoredBlock → Arena
  | ⟨kind, fields, statements, values⟩ =>
    match registry.get? kind with
    | none => []
    | some type =>
      layOne type board n position next fields (heads (n + 1) statements)
          (plugs (n + 1 + countSlots statements) values) ::
        (laySlots registry board (n + 1) statements ++
          layValues registry board (n + 1 + countSlots statements) values)

def layChain (registry : Registry) (board : Board) (n : Nat) (position : Position) :
    List StoredBlock → Arena
  | [] => []
  | b :: rest =>
    layBlock registry board n position (first? (n + b.count) rest) b ++
      layChain registry board (n + b.count) .origin rest

def laySlots (registry : Registry) (board : Board) (n : Nat) :
    List (String × List StoredBlock) → Arena
  | [] => []
  | (_, chain) :: rest =>
    layChain registry board n .origin chain ++
      laySlots registry board (n + countChain chain) rest

def layValues (registry : Registry) (board : Board) (n : Nat) :
    List (String × StoredBlock) → Arena
  | [] => []
  | (_, b) :: rest =>
    layBlock registry board n .origin none b ++ layValues registry board (n + b.count) rest

end

def layCanvas (registry : Registry) (board : Board) (n : Nat) : List StoredStack → Arena
  | [] => []
  | stack :: rest =>
    layChain registry board n ⟨stack.x, stack.y⟩ stack.blocks ++
      layCanvas registry board (n + countChain stack.blocks) rest

def countCanvas (canvas : List StoredStack) : Nat :=
  canvas.foldr (fun stack n => countChain stack.blocks + n) 0

def stackHeads (n : Nat) : List StoredStack → List BlockId
  | [] => []
  | stack :: rest => ⟨n⟩ :: stackHeads (n + countChain stack.blocks) rest

mutual

theorem le_of_mem_layBlock {registry : Registry} {board : Board} {n : Nat} {position : Position}
    {next : Option BlockId} : ∀ {s : StoredBlock} {b : Block},
      b ∈ layBlock registry board n position next s → n ≤ b.id.index
  | ⟨kind, fields, statements, values⟩, b, hb => by
    rw [layBlock] at hb
    split at hb
    · cases hb
    · obtain rfl | hb := List.mem_cons.1 hb
      · exact Nat.le_refl n
      · obtain hb | hb := List.mem_append.1 hb
        · have := le_of_mem_laySlots hb
          omega
        · have := le_of_mem_layValues hb
          omega

theorem le_of_mem_layChain {registry : Registry} {board : Board} {n : Nat} {position : Position} :
    ∀ {chain : List StoredBlock} {b : Block},
      b ∈ layChain registry board n position chain → n ≤ b.id.index
  | [], _, hb => by cases hb
  | s :: rest, b, hb => by
    rw [layChain] at hb
    obtain hb | hb := List.mem_append.1 hb
    · exact le_of_mem_layBlock hb
    · have := le_of_mem_layChain hb
      omega

theorem le_of_mem_laySlots {registry : Registry} {board : Board} {n : Nat} :
    ∀ {slots : List (String × List StoredBlock)} {b : Block},
      b ∈ laySlots registry board n slots → n ≤ b.id.index
  | [], _, hb => by cases hb
  | (_, chain) :: rest, b, hb => by
    rw [laySlots] at hb
    obtain hb | hb := List.mem_append.1 hb
    · exact le_of_mem_layChain hb
    · have := le_of_mem_laySlots hb
      omega

theorem le_of_mem_layValues {registry : Registry} {board : Board} {n : Nat} :
    ∀ {values : List (String × StoredBlock)} {b : Block},
      b ∈ layValues registry board n values → n ≤ b.id.index
  | [], _, hb => by cases hb
  | (_, s) :: rest, b, hb => by
    rw [layValues] at hb
    obtain hb | hb := List.mem_append.1 hb
    · exact le_of_mem_layBlock hb
    · have := le_of_mem_layValues hb
      omega

end

end Workspace

end BlockSketch
