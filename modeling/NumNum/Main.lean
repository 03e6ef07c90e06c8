import NumNum.Cli.Execute

/-!
# The program

The command line at work on real files and streams. Input is fetched line by line, when
the running program asks for it and nothing is left of what was fetched before.
-/

namespace NumNum.Cli

/-- The wording of a failed access to a file: the reason and its number. -/
def accessText : IO.Error → String
  | .noFileOrDirectory _ code details
  | .inappropriateType _ code details
  | .permissionDenied _ code details
  | .invalidArgument _ code details
  | .resourceExhausted _ code details =>
    details ++ " (os error " ++ Numeral.text code.toNat ++ ")"
  | e => toString e

/-- Prints to standard error and gives the exit status of a failure. -/
def fail (message : String) : IO UInt32 := do
  IO.eprint message
  return 1

/-- The source behind an open file. -/
def sourceOf (file : IO.FS.Handle) : IO Source := do
  match ← (file.readBinToEnd).toBaseIO with
  | .ok content => return Source.ofBytes content.data.toList
  | .error e => return [.failure ⟨.other, accessText e⟩]

/-- Prints what closes an invocation and gives its exit status. -/
def conclude (attempt : String) (i : Invocation) (outcome : Outcome) : IO UInt32 := do
  let (status, message) := closing attempt i outcome
  IO.eprint message
  return UInt32.ofNat status

/-- Writes the source as Lua text to the output file. When the file refuses the text, a fault
of the program is reported all the same if the text before it could be held back. -/
def translateFile (i : Invocation) (file : IO.FS.Handle) : IO UInt32 := do
  let path := i.output.getD defaultOutput
  match ← (IO.FS.Handle.mk path .write).toBaseIO with
  | .error e => fail (failureText "cannot create" path (accessText e))
  | .ok target =>
    let source ← sourceOf file
    IO.eprint (i.tokensText source)
    let handled := Lua.Generator.backend.compile source { output := {} }
    let written := handled.state.output.written
    match ← (do target.write ⟨written⟩; target.flush).toBaseIO with
    | .ok () => conclude "translate" i handled.outcome
    | .error e =>
      match handled.outcome with
      | .done => fail (failureText "failed to translate" i.file (accessText e))
      | outcome =>
        if Device.heldBack < written.size then
          fail (failureText "failed to translate" i.file (accessText e))
        else conclude "translate" i outcome

/-- The bytes through the next newline, or up to the end. -/
partial def fetchLine (stdin : IO.FS.Stream) (line : Array UInt8) : IO (Array UInt8) := do
  let bytes ← stdin.read 1
  if bytes.isEmpty then return line
  let line := line ++ bytes.data
  if line.back? = some 10 then return line
  fetchLine stdin line

/-- Whether an action asks the input for bytes. -/
def asksForInput : Action → Bool
  | .readCharacter | .readInteger => true
  | _ => false

/-- Runs codes from a position on, with the standard streams behind the machine's channels. -/
partial def drive (stdin stdout : IO.FS.Stream) (codes : Codes) (position : Nat) (m : Machine) :
    IO Outcome := do
  let pass (m : Machine) : IO Machine := do
    stdout.write ⟨m.output.written⟩
    return { m with output := {} }
  match codes[position]? with
  | none =>
    discard (pass m)
    stdout.flush
    return .done
  | some code =>
    let mut m := m
    if asksForInput code.instruction.operator.action && m.input.bytes.isEmpty then
      m ← pass m
      stdout.flush
      m := { m with input := Source.ofBytes (← fetchLine stdin #[]).toList }
    let step := m.step code position
    m := step.machine
    if 4096 ≤ m.output.written.size then m ← pass m
    match step.outcome with
    | .ok next => drive stdin stdout codes next m
    | .error fault =>
      discard (pass m)
      stdout.flush
      return .failed (.machine fault)

/-- Runs the source on the standard streams. -/
def interpretFile (i : Invocation) (file : IO.FS.Handle) : IO UInt32 := do
  let source ← sourceOf file
  IO.eprint (i.tokensText source)
  match Program.ofSource source with
  | .error e => conclude "run" i (.failed e)
  | .ok p =>
    match p.assemble with
    | .error e => conclude "run" i (.failed (.structural e))
    | .ok codes =>
      let outcome ← drive (← IO.getStdin) (← IO.getStdout) codes 0 { input := [], output := {} }
      conclude "run" i outcome

/-- Does what the arguments ask for, and gives the exit status. -/
def perform (arguments : List String) : IO UInt32 := do
  match Request.ofArguments arguments with
  | .help =>
    IO.print helpText
    return 0
  | .version =>
    IO.print versionText
    return 0
  | .refuse e =>
    IO.eprint (usageText e)
    return 2
  | .execute i =>
    match ← (IO.FS.Handle.mk i.file .read).toBaseIO with
    | .error e => fail (failureText "cannot open" i.file (accessText e))
    | .ok file => if i.lua then translateFile i file else interpretFile i file

end NumNum.Cli

def main (arguments : List String) : IO UInt32 :=
  NumNum.Cli.perform arguments
