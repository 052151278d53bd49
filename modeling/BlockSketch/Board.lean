/-!
Boards.  A board is a hardware target: what it is called, how the toolchain
names it, and the pins that a pin field may offer on it.  There are three, and
every part of the library looks them up here.
-/

namespace BlockSketch

/-- A pin on offer: what the person sees, and what stands in the code. -/
structure Pin where
  label : String
  value : String
deriving DecidableEq, Repr, Inhabited

structure Board where
  id : String
  displayName : String
  fqbn : String
  pins : List Pin
deriving DecidableEq, Repr, Inhabited

inductive BoardError
  | unknownBoard (id : String)
deriving DecidableEq, Repr, Inhabited

def BoardError.message : BoardError → String
  | .unknownBoard id => s!"Unknown board '{id}'"

namespace Board

def hasPin (board : Board) (value : String) : Bool :=
  board.pins.any fun pin => pin.value == value

/-- The pins with the given numbers, labelled with a word before the number. -/
def numberedPins (word : String) (numbers : List String) : List Pin :=
  numbers.map fun n => ⟨word ++ " " ++ n, n⟩

/-- The digital pins that the two small boards share. -/
def avrPins : List Pin :=
  numberedPins "Pin" ["2", "3", "4", "5", "6", "7", "8", "9", "10", "11", "12", "13"]

def uno : Board :=
  ⟨"uno", "Arduino Uno", "arduino:avr:uno", avrPins⟩

def nano : Board :=
  ⟨"nano", "Arduino Nano", "arduino:avr:nano", avrPins⟩

def esp32 : Board :=
  ⟨"esp32", "ESP32 DevKit V1", "esp32:esp32:esp32",
    numberedPins "GPIO" ["2", "4", "5", "18", "19", "21", "22", "23"]⟩

def all : List Board :=
  [uno, nano, esp32]

def default : Board :=
  nano

def find? (id : String) : Option Board :=
  all.find? fun board => board.id == id

def resolve (id : String) : Except BoardError Board :=
  match find? id with
  | some board => .ok board
  | none => .error (.unknownBoard id)

def isPinOfAny (value : String) : Bool :=
  all.any fun board => board.hasPin value

/-! ### Look-up -/

theorem mem_all_of_find? {id : String} {board : Board} (h : find? id = some board) :
    board ∈ all :=
  List.mem_of_find?_eq_some h

theorem id_of_find? {id : String} {board : Board} (h : find? id = some board) :
    board.id = id := by
  simpa using List.find?_some h

@[simp] theorem resolve_eq_ok {id : String} {board : Board} :
    resolve id = .ok board ↔ find? id = some board := by
  unfold resolve; split <;> simp_all

end Board

end BlockSketch
