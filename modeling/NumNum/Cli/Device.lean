import NumNum.Channel.Sink
import NumNum.Channel.Source

/-!
# Devices

Files of the system that keep no content: what is written to one goes elsewhere or
nowhere, and what is read from one comes from elsewhere or nowhere. Each of them has a
place of its own, which `Device.at?_place` finds again.
-/

namespace NumNum.Cli

/-- The names that lead to a file or a directory. -/
abbrev Place := List String

/-- A file of the system. -/
inductive Device where
  /-- Is empty, and takes whatever is written. -/
  | null
  /-- Has no room for anything. -/
  | full
  /-- The input of the command line. -/
  | input
  /-- The output of the command line. -/
  | output
  /-- The messages of the command line. -/
  | messages
deriving DecidableEq

namespace Device

/-- All devices. -/
def all : List Device :=
  [.null, .full, .input, .output, .messages]

/-- The name of a device in the directory of devices. -/
def name : Device → String
  | .null => "null"
  | .full => "full"
  | .input => "stdin"
  | .output => "stdout"
  | .messages => "stderr"

/-- Where a device is. -/
def place (device : Device) : Place :=
  ["/", "dev", device.name]

/-- The device at a place. -/
def at? (p : Place) : Option Device :=
  all.find? (·.place = p)

theorem at?_place (device : Device) : at? device.place = some device := by
  cases device <;> decide

theorem at?_eq_some_iff {p : Place} {device : Device} :
    at? p = some device ↔ p = device.place := by
  refine ⟨fun h => ?_, fun h => h ▸ at?_place device⟩
  have := List.find?_some h
  simpa [eq_comm] using this

/-- What a device has for a reader, given the input of the command line. -/
def source (input : List UInt8) : Device → Source
  | .input => Source.ofBytes input
  | _ => []

/-- How many bytes are held back before they are passed on to a file. -/
def heldBack : Nat := 8192

/-- What a device without room reports. -/
def noSpace : IoFault := ⟨.other, "No space left on device (os error 28)"⟩

/-- What a writer to a device writes to. Without room, the bytes that are held back still
fit, and flushing them fails. -/
def sink : Device → Sink
  | .full => { limit := some heldBack, full := noSpace, flushFails := true, flushFailed := noSpace }
  | _ => {}

end Device

end NumNum.Cli
