import BlockSketch.Device.Error
import BlockSketch.Json.Record
import BlockSketch.Text.Utf8

/-!
Lists of ports.  The tool lists the ports as JSON, and the form has changed over
time: the entries stand in an array, or in a member of an object; the address
of a port stands in an entry itself, or in a part of it.  All forms are read,
the newer one first where both would do.
-/

namespace BlockSketch.PortList

open Json

mutual

/-- Whether everything in a document can be used.  To tell the forms apart the
whole document is looked at. -/
def isUsable : Document → Bool
  | .array items => areUsable items
  | .object members => areUsableMembers members
  | .unreadable => false
  | _ => true

def areUsable : List Document → Bool
  | [] => true
  | d :: rest => isUsable d && areUsable rest

def areUsableMembers : List (String × Document) → Bool
  | [] => true
  | (_, d) :: rest => isUsable d && areUsableMembers rest

end

def member? (name : String) : Document → Option Document
  | .object members =>
    if Document.atMostOnce members name then members.lookup name else none
  | _ => none

/-- The address in a port record: an object with an address, or an array that
consists of one. -/
def address? (d : Document) : Option String := do
  match (← d.record? ["address"]).cells with
  | [address] => required? Document.string? address
  | _ => none

/-- The address of an entry, which may have it in a part of its own. -/
def entry? (d : Document) : Option String :=
  (member? "port" d).bind address? <|> address? d

def entries? (d : Document) : Option (List String) := do
  (← d.items?).mapM entry?

def ofDocument? (d : Document) : Option (List String) :=
  if isUsable d then (member? "detected_ports" d).bind entries? <|> entries? d else none

def ofOutput (output : List UInt8) : Except DeviceError (List String) :=
  match ((Text.decode? output).bind Document.ofText?).bind ofDocument? with
  | some ports => .ok ports
  | none => .error (.bridge .unreadablePortList)

end BlockSketch.PortList
