import BlockSketch.Config
import BlockSketch.Device.PortList
import BlockSketch.Text.Blank
import BlockSketch.Text.Lines

/-!
The tool on the command line.  Ports are listed, sketches compiled and uploaded,
and the serial port watched, by running one tool with different arguments.  What
it prints and how it ends is all that comes back; what a person is told is read
off that.

The bench is where this happens: the settings, the disk on which the sketch is
written, what the tool does each time it is run, and the output of the monitor
that was started last.
-/

namespace BlockSketch

/-- What the tool does when it is run, and whether it goes on running after its
output. -/
structure ToolRun where
  exitCode : Nat
  output : List UInt8
  errors : List UInt8
  stays : Bool
deriving DecidableEq, Repr, Inhabited

namespace ToolRun

def silent : ToolRun := ⟨0, [], [], false⟩

def report (run : ToolRun) : String :=
  Text.trim (Text.decodeLossy run.errors)

/-- The lines that can be read, up to the first that is no text. -/
def textLines : List (List UInt8) → List String
  | [] => []
  | raw :: rest =>
    match Text.decode? raw with
    | some line => line :: textLines rest
    | none => []

def endsWithinLine (output : List UInt8) : Bool :=
  output.getLast?.any fun b => b != 10

end ToolRun

inductive RunFault
  | argumentHasNul
  | argumentTooLong
  | notInstalled
deriving DecidableEq, Repr, Inhabited

namespace RunFault

def message : RunFault → String
  | .argumentHasNul => "nul byte found in provided data"
  | .argumentTooLong => "Argument list too long (os error 7)"
  | .notInstalled => FileFault.notFound.message

/-- How long an argument may be, in bytes, with the zero that ends it. -/
def argumentLimit : Nat := 131072

def of? (installed : Bool) (arguments : List String) : Option RunFault :=
  if arguments.any fun a => a.toList.contains '\x00' then some .argumentHasNul
  else if !installed then some .notInstalled
  else if arguments.any fun a => argumentLimit ≤ a.utf8ByteSize then some .argumentTooLong
  else none

end RunFault

/-- The output of a monitor: lines that have not been read, the beginning of a
line that has not ended, and whether more may come. -/
structure MonitorOutput where
  lines : List String
  begun : Option String
  running : Bool
deriving DecidableEq, Repr, Inhabited

namespace MonitorOutput

/-- Nothing more will come.  A line that has not ended is a line now. -/
def atEnd (m : MonitorOutput) : MonitorOutput :=
  ⟨m.lines ++ m.begun.toList, none, false⟩

/-- The output of a run.  What is no text ends it. -/
def ofRun (run : ToolRun) : MonitorOutput :=
  let raw := Text.byteLines run.output
  let lines := ToolRun.textLines raw
  if !run.stays || lines.length < raw.length then ⟨lines, none, false⟩
  else if ToolRun.endsWithinLine run.output then ⟨lines.dropLast, lines.getLast?, true⟩
  else ⟨lines, none, true⟩

end MonitorOutput

/-- Where the tool is run, with what it will do, the next run first, and the
arguments of the runs so far, the first first. -/
structure Bench where
  config : Config
  root : String
  disk : Disk
  installed : Bool
  runs : List ToolRun
  invocations : List (List String)
  monitor : Option MonitorOutput
deriving Inhabited

namespace Bench

def run (b : Bench) (arguments : List String) : Except RunFault ToolRun × Bench :=
  match RunFault.of? b.installed arguments with
  | some fault => (.error fault, b)
  | none =>
    (.ok (b.runs.headD .silent),
      { b with runs := b.runs.tail, invocations := b.invocations ++ [arguments] })

/-- Runs the tool and waits for its end.  A tool that cannot be run is a fault of
the bridge. -/
def runToEnd (b : Bench) (arguments : List String) : Except DeviceError ToolRun × Bench :=
  let (result, b) := b.run arguments
  (result.mapError fun fault =>
    .bridge (.reported s!"failed to run {b.config.tool}: {fault.message}"), b)

/-! ### Ports -/

def listPorts (b : Bench) : Except DeviceError (List String) × Bench :=
  match b.runToEnd ["board", "list", "--format", "json"] with
  | (.error e, b) => (.error e, b)
  | (.ok run, b) =>
    if run.exitCode = 0 then (PortList.ofOutput run.output, b)
    else (.error (.bridge (.reported run.report)), b)

/-! ### Uploading -/

def sketchFolder (b : Bench) : String :=
  b.config.sketchFolderIn b.root

def sketchFile (b : Bench) : String :=
  b.config.sketchFileIn b.root

/-- Writes the sketch.  A folder that was made stays, even if the file cannot be
written. -/
def writeSketch (b : Bench) (source : String) : Except DeviceError Unit × Bench :=
  match b.disk.makeFoldersAt b.sketchFolder with
  | .error fault => (.error (.ofFile fault), b)
  | .ok disk =>
    match disk.writeAt b.sketchFile source with
    | .error fault => (.error (.ofFile fault), { b with disk := disk })
    | .ok disk => (.ok (), { b with disk := disk })

def occursIn (part : List Char) : List Char → Bool
  | [] => part.isEmpty
  | c :: rest => part.isPrefixOf (c :: rest) || occursIn part rest

/-- What uploaders say when they cannot open the port. -/
def portComplaints : List String :=
  ["can't open device", "could not open port", "port not found", "no device found on",
    "port is busy"]

/-- Whether a report is about the port.  The complaints are in plain small
letters, and large ones count as well. -/
def isAboutPort (report : String) : Bool :=
  let small := report.toList.map Char.toLower
  portComplaints.any fun complaint => occursIn complaint.toList small

def uploadError (port report : String) : DeviceError :=
  if isAboutPort report then .portUnavailable port else .upload port report

def upload (b : Bench) (source : String) (board : Board) (port : String) :
    Except DeviceError Unit × Bench :=
  match b.writeSketch source with
  | (.error e, b) => (.error e, b)
  | (.ok (), b) =>
    match b.runToEnd ["compile", "-b", board.fqbn, b.sketchFolder] with
    | (.error e, b) => (.error e, b)
    | (.ok compiled, b) =>
      if compiled.exitCode ≠ 0 then (.error (.compile compiled.report), b)
      else
        match b.runToEnd ["upload", "-b", board.fqbn, "-p", port, b.sketchFolder] with
        | (.error e, b) => (.error e, b)
        | (.ok uploaded, b) =>
          if uploaded.exitCode ≠ 0 then (.error (uploadError port uploaded.report), b)
          else (.ok (), b)

/-! ### Watching -/

/-- Ends the monitor; what it has printed can still be read. -/
def stopSerial (b : Bench) : Bench :=
  { b with monitor := b.monitor.map MonitorOutput.atEnd }

def startSerial (b : Bench) (port : String) : Except DeviceError Unit × Bench :=
  let rate := "baudrate=" ++ toString b.config.baudRate.toNat
  match b.stopSerial.run ["monitor", "-p", port, "--config", rate, "--quiet"] with
  | (.error fault, b) => (.error (.monitor port fault.message), b)
  | (.ok run, b) => (.ok (), { b with monitor := some (.ofRun run) })

/-- Reads up to so many lines of the monitor, or all there are: the lines, and
whether the end was met. -/
def readLines (b : Bench) (count : Option Nat) : (List String × Bool) × Bench :=
  match b.monitor with
  | none => (([], true), b)
  | some m =>
    let n := count.getD m.lines.length
    let ended := (count.all fun n => m.lines.length < n) && !m.running
    ((m.lines.take n, ended), { b with monitor := some { m with lines := m.lines.drop n } })

end Bench

end BlockSketch
