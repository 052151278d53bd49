import BlockSketch.Board
import BlockSketch.Files.Disk

/-!
What can go wrong with a board.  All of it is told to the person in front of
the screen, who can mend it and try again.
-/

namespace BlockSketch

/-- Why the bridge to the board gave no answer: the tool reported a fault, or it
listed the ports in a form that nobody knows. -/
inductive BridgeFault
  | reported (details : String)
  | unreadablePortList
deriving DecidableEq, Repr, Inhabited

def BridgeFault.message : BridgeFault → String
  | .reported details => details
  | .unreadablePortList => "unexpected board list output"

inductive DeviceError
  | busy (reason : String)
  | unknownBoard (id : String)
  | portUnavailable (port : String)
  | compile (details : String)
  | upload (port details : String)
  | monitor (port details : String)
  | bridge (fault : BridgeFault)
  | io (details : String)
deriving DecidableEq, Repr, Inhabited

namespace DeviceError

def message : DeviceError → String
  | .busy reason => s!"Device session is busy ({reason})"
  | .unknownBoard id => s!"Unknown board '{id}'"
  | .portUnavailable port => s!"Port {port} is not available"
  | .compile details => "Your code has an error:\n" ++ details
  | .upload port details =>
    s!"Upload to port {port} failed. Is the board connected?" ++ "\nDetails: " ++ details
  | .monitor port details => s!"Could not open serial monitor on {port}: {details}"
  | .bridge fault => s!"Device bridge error: {fault.message}"
  | .io details => s!"I/O error: {details}"

def ofBoard : BoardError → DeviceError
  | .unknownBoard id => .unknownBoard id

def ofFile (fault : FileFault) : DeviceError :=
  .io fault.message

end DeviceError

end BlockSketch
