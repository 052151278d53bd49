import BlockSketch.Block.Basic
import BlockSketch.Board
import BlockSketch.Text.Number

/-!
Fields.  A block type declares what a person can set on its blocks: a choice
from a list, a number or a text.  The list of a choice is either fixed or asked
from the board that is active at the time, which is how pins are offered.
-/

namespace BlockSketch

structure FieldOption where
  label : String
  value : String
deriving DecidableEq, Repr, Inhabited

/-- Where the entries of a choice come from: a fixed list, or the active board,
which is asked anew each time. -/
inductive OptionsSource
  | fixed (options : List FieldOption)
  | onBoard (resolve : Board → List FieldOption)

inductive FieldKind
  | dropdown (source : OptionsSource)
  | number (initial : UInt64)
  | text (initial : String)

structure FieldSpec where
  name : String
  kind : FieldKind

inductive FieldFault
  | notAnOption (value : String)
  | notANumber (value : String)
  | notAPin (value : String)
  | notDeclared (kind : String)
  | described (reason : String)
deriving DecidableEq, Repr, Inhabited

def FieldFault.message : FieldFault → String
  | .notAnOption value => s!"'{value}' is not one of the available options"
  | .notANumber value => s!"'{value}' is not a non-negative integer"
  | .notAPin value => s!"'{value}' is not a pin of any known board"
  | .notDeclared kind => s!"kind '{kind}' declares no such field"
  | .described reason => reason

namespace FieldSpec

def choice (name : String) (options : List (String × String)) : FieldSpec :=
  ⟨name, .dropdown (.fixed (options.map fun o => ⟨o.1, o.2⟩))⟩

def onBoard (name : String) (resolve : Board → List FieldOption) : FieldSpec :=
  ⟨name, .dropdown (.onBoard resolve)⟩

def pinOptions (board : Board) : List FieldOption :=
  board.pins.map fun pin => ⟨pin.label, pin.value⟩

/-- The entries on offer; a field that is no choice has none. -/
def options (spec : FieldSpec) (board : Board) : List FieldOption :=
  match spec.kind with
  | .dropdown (.fixed options) => options
  | .dropdown (.onBoard resolve) => resolve board
  | .number _ | .text _ => []

/-- What a new block starts with: the first entry of a choice, or the value
given in the declaration. -/
def defaultValue (spec : FieldSpec) (board : Board) : FieldValue :=
  match spec.kind with
  | .dropdown _ =>
    match spec.options board with
    | [] => .text ""
    | option :: _ => .text option.value
  | .number n => .number n
  | .text s => .text s

def isBoardDependent (spec : FieldSpec) : Bool :=
  match spec.kind with
  | .dropdown (.onBoard _) => true
  | _ => false

/-- Checks a value and brings it into the form in which it is stored. -/
def validate (spec : FieldSpec) (value : FieldValue) (board : Board) :
    Except FieldFault FieldValue :=
  match spec.kind with
  | .dropdown _ =>
    if (spec.options board).any fun o => o.value == value.display then .ok (.text value.display)
    else .error (.notAnOption value.display)
  | .number _ =>
    match value with
    | .number n => .ok (.number n)
    | .text s =>
      match Text.typedWord? s with
      | some n => .ok (.number n)
      | none => .error (.notANumber s)
  | .text _ => .ok (.text value.display)

/-! ### Stored values stay as they are -/

/-- A value that was accepted once is accepted again, unchanged. -/
theorem validate_of_validate {spec : FieldSpec} {value stored : FieldValue} {board : Board}
    (h : spec.validate value board = .ok stored) : spec.validate stored board = .ok stored := by
  unfold validate at h ⊢
  split at h
  · split at h
    · rename_i hmem
      cases h
      simpa using hmem
    · cases h
  · split at h
    · cases h; rfl
    · split at h <;> cases h
      rfl
  · cases h; rfl

end FieldSpec

end BlockSketch
