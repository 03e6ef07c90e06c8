import NumNum.Cli.Arguments
import NumNum.Cli.Directory
import NumNum.Interpreter
import NumNum.Lua.Generator

/-!
# Executing an invocation

What the command line does to the files it can reach, and what it prints. The file for
generated Lua is emptied before the source is read, and keeps what was written to it
when the source turns out to be no program. Either file may be a device.
-/

namespace NumNum.Cli

/-- What is left when the command line is done. -/
structure Report where
  status : Nat
  stdout : List UInt8 := []
  stderr : String := ""
  directory : Directory

/-- The file for generated Lua unless another one is named. -/
def defaultOutput : String := "a.lua"

/-- The message for a failure, with what was attempted. -/
def failureText (attempt path cause : String) : String :=
  "error: " ++ attempt ++ " " ++ path ++ ": " ++ cause ++ "\n"

/-- The source that the file at a place delivers; a directory delivers a failure. -/
def sourceAt (input : List UInt8) (d : Directory) (place : Place) : Source :=
  match Device.at? place with
  | some device => device.source input
  | none =>
    match d.content? place with
    | some content => Source.ofBytes content
    | none => [.failure ⟨.other, AccessError.isDirectory.message⟩]

/-- What a writer to the file at a place writes to. -/
def sinkAt (place : Place) : Sink :=
  match Device.at? place with
  | some device => device.sink
  | none => {}

/-- The input that is left for the program when its source was read from a place. -/
def inputAfter (place : Place) (input : List UInt8) : List UInt8 :=
  if place = Device.input.place then [] else input

/-- The listing that is shown ahead, if it is asked for and the source can be decoded. -/
def Invocation.tokensText (i : Invocation) (source : Source) : String :=
  if i.showTokens then
    match Program.ofSource source with
    | .ok p => p.text ++ "\n"
    | .error _ => ""
  else ""

/-- The exit status and the message for how the program's calls ended. -/
def closing (attempt : String) (i : Invocation) : Outcome → Nat × String
  | .done => (0, "")
  | .failed e => (1, failureText ("failed to " ++ attempt) i.file e.message)
  | .unfinished => (1, failureText ("failed to " ++ attempt) i.file "step limit reached")

/-- Passes on what was written to the file at a place: to the directory, or to where the
device leads. -/
def Report.deliver (place : Place) (written : List UInt8) (r : Report) : Report :=
  match Device.at? place with
  | none => { r with directory := r.directory.put place written }
  | some .output => { r with stdout := r.stdout ++ written }
  | some .messages => { r with stderr := r.stderr ++ (Utf8.decodeText? written).getD "" }
  | some _ => r

namespace Invocation

/-- Writes the source as Lua text to the output file. -/
def translate (input : List UInt8) (i : Invocation) (place : Place) (d : Directory) : Report :=
  let path := i.output.getD defaultOutput
  match d.create path with
  | .error e =>
    { status := 1, stderr := failureText "cannot create" path e.message, directory := d }
  | .ok (target, d) =>
    let source := sourceAt input d place
    let handled := Lua.Generator.backend.compile source { output := sinkAt target }
    let (status, message) := closing "translate" i handled.outcome
    let shown : Report := { status, stderr := i.tokensText source, directory := d }
    let report := shown.deliver target handled.state.output.written.toList
    { report with stderr := report.stderr ++ message }

/-- Runs the source on the given input, for at most `fuel` steps. -/
def interpret (fuel : Nat) (input : List UInt8) (i : Invocation) (place : Place)
    (d : Directory) : Report :=
  let source := sourceAt input d place
  let left := Source.ofBytes (inputAfter place input)
  let (outcome, m) := Machine.interpret fuel source { input := left, output := {} }
  let (status, message) := closing "run" i outcome
  { status
    stdout := m.output.written.toList
    stderr := i.tokensText source ++ message
    directory := d }

/-- Opens the source and runs or translates it. -/
def execute (fuel : Nat) (input : List UInt8) (i : Invocation) (d : Directory) : Report :=
  match d.locate i.file with
  | .error e =>
    { status := 1, stderr := failureText "cannot open" i.file e.message, directory := d }
  | .ok place =>
    if i.lua then i.translate input place d else i.interpret fuel input place d

end Invocation

/-- Does what the arguments ask for. -/
def respond (fuel : Nat) (arguments : List String) (input : List UInt8) (d : Directory) : Report :=
  match Request.ofArguments arguments with
  | .help => { status := 0, stdout := Utf8.encodeText helpText, directory := d }
  | .version => { status := 0, stdout := Utf8.encodeText versionText, directory := d }
  | .refuse e => { status := 2, stderr := usageText e, directory := d }
  | .execute i => i.execute fuel input d

end NumNum.Cli
