import BlockSketch.Block.Type

/-!
Registries.  The kinds of block that a program may use, in the order in which
they were registered.  A kind that is registered again keeps its place and gets
the new type.
-/

namespace BlockSketch

/-- The kinds of block on offer. -/
structure Registry where
  types : List BlockType
deriving Inhabited

namespace Registry

def empty : Registry := ⟨[]⟩

def get? (registry : Registry) (kind : String) : Option BlockType :=
  registry.types.find? fun type => type.kind == kind

/-- Puts a type in the place of the one with its kind, or at the end. -/
def place (type : BlockType) : List BlockType → List BlockType
  | [] => [type]
  | other :: rest => if other.kind = type.kind then type :: rest else other :: place type rest

def register (registry : Registry) (type : BlockType) : Registry :=
  ⟨place type registry.types⟩

def ofList (types : List BlockType) : Registry :=
  types.foldl register empty

def kinds (registry : Registry) : List String :=
  registry.types.map BlockType.kind

/-- Keeps just the given kinds, registered in the given order. -/
def only (registry : Registry) (kinds : List String) : Registry :=
  ofList (kinds.filterMap registry.get?)

/-! ### Looking up what was registered -/

theorem kind_of_get? {registry : Registry} {kind : String} {type : BlockType}
    (h : registry.get? kind = some type) : type.kind = kind := by
  simpa using List.find?_some h

theorem get?_register (registry : Registry) (type : BlockType) (kind : String) :
    (registry.register type).get? kind =
      if type.kind = kind then some type else registry.get? kind := by
  obtain ⟨types⟩ := registry
  simp only [register, get?]
  induction types with
  | nil => by_cases h : type.kind = kind <;> simp [place, h]
  | cons other rest ih =>
    by_cases ho : other.kind = type.kind
    · by_cases h : type.kind = kind <;> simp [place, ho, h]
    · rw [place, if_neg ho]
      by_cases hk : other.kind = kind
      · have : ¬ type.kind = kind := fun h => ho (hk.trans h.symm)
        simp [hk, this]
      · simp [hk, ih]

end Registry

end BlockSketch
