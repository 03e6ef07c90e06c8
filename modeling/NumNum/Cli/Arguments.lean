/-!
# Command-line arguments

The arguments choose between running a program and translating it, and name the files.
They are read from left to right, and the first one that cannot be accepted, or that
asks for help or for the version, decides.
-/

namespace NumNum.Cli

/-- What is to be done with which files. -/
structure Invocation where
  lua : Bool := false
  showTokens : Bool := false
  file : String
  output : Option String := none
deriving DecidableEq

/-- Why the arguments are no invocation. -/
inductive UsageError where
  /-- No option has this name, or there is a file already. -/
  | unexpected (argument : String)
  /-- The option is given a second time. -/
  | repeated (option : String)
  /-- The option takes no value. -/
  | valued (option : String)
  /-- The option or the file lacks its value, or the value is empty. -/
  | missing (what : String)
  /-- Two options exclude each other. -/
  | conflicting (option other : String)
deriving DecidableEq

/-- What the arguments ask for. -/
inductive Request where
  | help
  | version
  | execute (i : Invocation)
  | refuse (e : UsageError)
deriving DecidableEq

/-- The arguments read so far. -/
structure Arguments where
  run : Bool := false
  lua : Bool := false
  showTokens : Bool := false
  file : Option String := none
  output : Option String := none

/-- What one argument turns out to be. -/
inductive Reading where
  /-- Two hyphens: only files follow. -/
  | separator
  /-- A name behind two hyphens, and the value behind an equals sign. -/
  | long (name : String) (value : Option String)
  /-- A letter behind one hyphen, and what follows it. -/
  | short (letter : Char) (rest : List Char)
  | plain

/-- Tells options from other arguments. A single hyphen is no option. -/
def Reading.of (argument : String) : Reading :=
  match argument.toList with
  | ['-', '-'] => .separator
  | '-' :: '-' :: name =>
    let value := name.dropWhile (· ≠ '=')
    .long (String.ofList (name.takeWhile (· ≠ '=')))
      (if value = [] then none else some (String.ofList value.tail))
  | '-' :: letter :: rest => .short letter rest
  | _ => .plain

namespace Arguments

/-- Takes the source file. -/
def setFile (file : String) (a : Arguments) : Except UsageError Arguments :=
  if a.file.isSome then .error (.unexpected file)
  else if file = "" then .error (.missing "FILE")
  else .ok { a with file := some file }

/-- Takes the output file. -/
def setOutput (output : String) (a : Arguments) : Except UsageError Arguments :=
  if output = "" then .error (.missing "-o")
  else if a.output.isSome then .error (.repeated "-o")
  else .ok { a with output := some output }

/-- Takes a flag by its name. -/
def setFlag (name : String) (a : Arguments) : Except UsageError Arguments :=
  match name with
  | "run" => if a.run then .error (.repeated "--run") else .ok { a with run := true }
  | "lua" => if a.lua then .error (.repeated "--lua") else .ok { a with lua := true }
  | "show-tokens" =>
    if a.showTokens then .error (.repeated "--show-tokens")
    else .ok { a with showTokens := true }
  | _ => .error (.unexpected ("--" ++ name))

/-- What the arguments ask for when all are read. -/
def complete (a : Arguments) : Request :=
  match a.file with
  | none => .refuse (.missing "FILE")
  | some file =>
    if a.run && a.lua then .refuse (.conflicting "--run" "--lua")
    else .execute ⟨a.lua, a.showTokens, file, a.output⟩

/-- Reads the arguments behind the separator. -/
def readFiles : Arguments → List String → Request
  | a, [] => a.complete
  | a, file :: rest =>
    match a.setFile file with
    | .error e => .refuse e
    | .ok a => readFiles a rest

/-- Reads arguments up to the first that decides. -/
def read : Arguments → List String → Request
  | a, [] => a.complete
  | a, argument :: rest =>
    match Reading.of argument with
    | .separator => readFiles a rest
    | .plain =>
      match a.setFile argument with
      | .error e => .refuse e
      | .ok a => read a rest
    | .long name (some _) =>
      if name ∈ ["help", "version", "run", "lua", "show-tokens"] then
        .refuse (.valued ("--" ++ name))
      else .refuse (.unexpected argument)
    | .long "help" none => .help
    | .long "version" none => .version
    | .long name none =>
      match a.setFlag name with
      | .error e => .refuse e
      | .ok a => read a rest
    | .short 'h' _ => .help
    | .short 'V' _ => .version
    | .short 'o' [] =>
      match rest with
      | [] => .refuse (.missing "-o")
      | value :: rest =>
        match Reading.of value with
        | .plain =>
          match a.setOutput value with
          | .error e => .refuse e
          | .ok a => read a rest
        | _ => .refuse (.missing "-o")
    | .short 'o' value =>
      match a.setOutput (String.ofList (if value.head? = some '=' then value.tail else value)) with
      | .error e => .refuse e
      | .ok a => read a rest
    | .short _ _ => .refuse (.unexpected argument)

end Arguments

/-- What a list of arguments asks for. -/
def Request.ofArguments (arguments : List String) : Request :=
  Arguments.read {} arguments

/-! ## Texts -/

def UsageError.message : UsageError → String
  | .unexpected argument => "unexpected argument '" ++ argument ++ "' found"
  | .repeated option => "the argument '" ++ option ++ "' cannot be used multiple times"
  | .valued option => "unexpected value for '" ++ option ++ "' found; no more were expected"
  | .missing what => "a value is required for '" ++ what ++ "' but none was supplied"
  | .conflicting option other =>
    "the argument '" ++ option ++ "' cannot be used with '" ++ other ++ "'"

/-- The line that names the program and its version. -/
def versionText : String := "numnum 0.1.0\n"

/-- The overview of the arguments. -/
def helpText : String :=
  String.join
    ["Run a NumNum program or translate it to Lua\n\n",
     "Usage: numnum [OPTIONS] <FILE>\n\n",
     "Arguments:\n",
     "  <FILE>  Source file\n\n",
     "Options:\n",
     "      --run          Interpret the program (default)\n",
     "      --lua          Translate the program to Lua\n",
     "  -o <OUTPUT>        Output file for --lua\n",
     "      --show-tokens  Print the decoded instructions to stderr first\n",
     "  -h, --help         Print help\n",
     "  -V, --version      Print version\n"]

/-- The text for arguments that are refused. -/
def usageText (e : UsageError) : String :=
  "error: " ++ e.message ++
    "\n\nUsage: numnum [OPTIONS] <FILE>\n\nFor more information, try '--help'.\n"

end NumNum.Cli
