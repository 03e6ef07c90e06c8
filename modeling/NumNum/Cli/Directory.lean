import NumNum.Cli.Device

/-!
# Directories

The files that the command line can reach, as a value. A file has a place: the names
that lead to it from the working directory, where a leading `..` goes up, or from the
root of the system, where the first name is `/`. Directories are the working directory,
those above it, those on the way to a file, and those that every system has. Devices
are found too, but they keep nothing and are no part of the value.
-/

namespace NumNum.Cli

/-- Why a file cannot be accessed. -/
inductive AccessError where
  | notFound | notDirectory | isDirectory | nameTooLong
deriving DecidableEq

def AccessError.message : AccessError → String
  | .notFound => "No such file or directory (os error 2)"
  | .notDirectory => "Not a directory (os error 20)"
  | .isDirectory => "Is a directory (os error 21)"
  | .nameTooLong => "File name too long (os error 36)"

/-- The files by place. -/
structure Directory where
  files : List (Place × List UInt8) := []

namespace Directory

/-- The content of the file at a place. -/
def content? (d : Directory) (place : Place) : Option (List UInt8) :=
  d.files.lookup place

/-- Whether there is a file or a device at a place. -/
def isFile (d : Directory) (place : Place) : Bool :=
  (d.content? place).isSome || (Device.at? place).isSome

/-- The directories that a system has at its root. -/
def systemDirectories : List String :=
  ["bin", "boot", "dev", "etc", "home", "lib", "media", "mnt", "opt", "root", "run", "sbin",
    "srv", "tmp", "usr", "var"]

/-- Whether a place is one of a directory that every system has. -/
def isSystemDirectory : Place → Bool
  | ["/", name] => systemDirectories.contains name
  | _ => false

/-- Whether there is a directory at a place. -/
def isDirectory (d : Directory) (place : Place) : Bool :=
  place.all (fun name => name = ".." || name = "/") || isSystemDirectory place ||
    d.files.any fun file => place.isPrefixOf file.1 && place ≠ file.1

/-- Gives the file at a place a content; a new file comes last. A device keeps nothing. -/
def put (d : Directory) (place : Place) (content : List UInt8) : Directory :=
  if (Device.at? place).isSome then d
  else if d.files.any (·.1 = place) then
    ⟨d.files.map fun file => if file.1 = place then (place, content) else file⟩
  else ⟨d.files ++ [(place, content)]⟩

/-! ## Paths -/

/-- The longest name and the longest path, in bytes. -/
def longestName : Nat := 255

def longestPath : Nat := 4095

/-- The place above another one. -/
def above (place : Place) : Place :=
  match place.getLast? with
  | none | some ".." => place ++ [".."]
  | some "/" => place
  | some _ => place.dropLast

/-- The place that a name leads to from a directory. -/
def enter (d : Directory) (place : Place) (name : String) : Except AccessError Place :=
  if d.isDirectory place then
    if longestName < name.utf8ByteSize then .error .nameTooLong
    else if name = "." then .ok place
    else if name = ".." then .ok (above place)
    else .ok (place ++ [name])
  else if d.isFile place then .error .notDirectory
  else .error .notFound

/-- The place that names lead to, one after the other. -/
def follow (d : Directory) : Place → List String → Except AccessError Place
  | place, [] => .ok place
  | place, name :: names =>
    match d.enter place name with
    | .error e => .error e
    | .ok place => follow d place names

/-- The names between the slashes of a path, behind the one under way, last letter first. -/
def namesFrom (name : List Char) : List Char → List String
  | [] => if name = [] then [] else [String.ofList name.reverse]
  | '/' :: rest =>
    if name = [] then namesFrom [] rest else String.ofList name.reverse :: namesFrom [] rest
  | c :: rest => namesFrom (c :: name) rest

/-- The names of a path. -/
def namesOf (path : String) : List String :=
  namesFrom [] path.toList

/-- Where the names of a path start. -/
def startOf (path : String) : Place :=
  if path.toList.head? = some '/' then ["/"] else []

/-- Whether a path can only mean a directory. -/
def endsInSlash (path : String) : Bool :=
  path.toList.getLast? = some '/'

/-- Finds what a path names: a file, a device or a directory. -/
def locate (d : Directory) (path : String) : Except AccessError Place :=
  if longestPath < path.utf8ByteSize then .error .nameTooLong
  else
    match d.follow (startOf path) (namesOf path) with
    | .error e => .error e
    | .ok place =>
      if d.isDirectory place then .ok place
      else if d.isFile place then
        if endsInSlash path then .error .notDirectory else .ok place
      else .error .notFound

/-- Makes the file that a path names an empty one, new or not; a device is left as it is. A slash behind the last name
asks for a directory, which is refused before the name itself is looked at. -/
def create (d : Directory) (path : String) : Except AccessError (Place × Directory) :=
  if longestPath < path.utf8ByteSize then .error .nameTooLong
  else
    let names := namesOf path
    match d.follow (startOf path) names.dropLast with
    | .error e => .error e
    | .ok parent =>
      match names.getLast? with
      | none => .error .isDirectory
      | some name =>
        if endsInSlash path && d.isDirectory parent then .error .isDirectory
        else
          match d.enter parent name with
          | .error e => .error e
          | .ok place =>
            if name = "." || name = ".." || d.isDirectory place then .error .isDirectory
            else .ok (place, d.put place [])

end Directory

end NumNum.Cli
