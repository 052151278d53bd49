import BlockSketch.Board
import BlockSketch.Files.Disk
import BlockSketch.Json.Printer
import BlockSketch.Json.Record
import BlockSketch.Text.Blank

/-!
Settings.  They are read from a JSON document in which anything may be left
out, and one of them can be overridden from the environment.  The sketch is
written to a file that has the name of its folder, because the toolchain asks
for that.
-/

namespace BlockSketch

open Json

/-- The settings. Without a sketch root it is left to the system where the sketch
folder lies. -/
structure Config where
  defaultBoard : String
  tool : String
  sketchName : String
  sketchRoot : Option String
  baudRate : UInt32
deriving DecidableEq, Repr, Inhabited

inductive ConfigError
  | unreadable (path : String) (fault : FileFault)
  | malformed (reason : String)
  | unknownBoard (id : String)
deriving DecidableEq, Repr, Inhabited

def ConfigError.message : ConfigError → String
  | .unreadable path fault => s!"Failed to read config file '{path}': {fault.message}"
  | .malformed reason => s!"Failed to parse config: {reason}"
  | .unknownBoard id => s!"Unknown default board '{id}'"

namespace Config

def default : Config :=
  ⟨Board.default.id, "arduino-cli", "longboard_sketch", none, 9600⟩

/-- The variable that overrides the tool. -/
def toolVariable : String := "LONGBOARD_ARDUINO_CLI"

def names : List String :=
  ["default_board", "arduino_cli", "sketch_name", "sketch_root", "monitor_baud_rate"]

def ofDocument? (d : Document) : Option Config := do
  match (← d.record? names).cells with
  | [board, tool, name, root, baud] =>
    return ⟨← defaulted? Document.string? default.defaultBoard board,
      ← defaulted? Document.string? default.tool tool,
      ← defaulted? Document.string? default.sketchName name,
      ← defaulted? (Document.orNull? Document.string?) default.sketchRoot root,
      ← defaulted? Document.uint32? default.baudRate baud⟩
  | _ => none

def toJson (c : Config) : Json :=
  .object [("default_board", .string c.defaultBoard), ("arduino_cli", .string c.tool),
    ("sketch_name", .string c.sketchName), ("sketch_root", .ofOption .string c.sketchRoot),
    ("monitor_baud_rate", .ofNat c.baudRate.toNat)]

/-- Reads settings from a text and checks their board. -/
def ofText (text : String) : Except ConfigError Config :=
  match (Document.ofText? text).bind ofDocument? with
  | none => .error (.malformed "the text does not hold settings")
  | some c =>
    if (Board.find? c.defaultBoard).isSome then .ok c else .error (.unknownBoard c.defaultBoard)

/-- Overrides the tool, unless the variable is not set or holds only blanks. -/
def withEnvironment (c : Config) (setting : Option String) : Config :=
  match setting with
  | none => c
  | some tool => if Text.isBlankLine tool.toList then c else { c with tool := tool }

def ofFile (path : String) (content : Except FileFault String) (setting : Option String) :
    Except ConfigError Config :=
  match content with
  | .error fault => .error (.unreadable path fault)
  | .ok text => (ofText text).map fun c => c.withEnvironment setting

def sketchFolderIn (c : Config) (root : String) : String :=
  Path.join root c.sketchName

def sketchFileIn (c : Config) (root : String) : String :=
  Path.join (c.sketchFolderIn root) (c.sketchName ++ ".ino")

/-- The folder of the sketch, where the settings say where it is. -/
def sketchFolder? (c : Config) : Option String :=
  c.sketchRoot.map c.sketchFolderIn

def sketchFile? (c : Config) : Option String :=
  c.sketchRoot.map c.sketchFileIn

end Config

end BlockSketch
