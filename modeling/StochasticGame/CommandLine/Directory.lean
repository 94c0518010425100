import StochasticGame.CommandLine.Response

/-!
# StochasticGame.CommandLine.Directory

**The program in a directory.** A directory holds files by name and no other
directories. Running the program in it yields an exit code, the texts of both
output streams and the directory afterwards.

A path is a name, possibly after `.` steps. It fails as a path of a file system
does: a step below a file is not a directory, a step below nothing is not found,
a directory cannot be read or written as a file, and names and paths have a
greatest length. Outside there are only the directories above; files can be
written there but are not found.
-/

namespace StochasticGame.CommandLine

/-- The files of a directory. -/
abbrev Directory := OrdMap String ByteArray

/-- Where a path leads. -/
inductive Place where
  /-- To the directory itself or one above it. -/
  | here
  /-- To a name in the directory or, if not `inside`, in one above it. The last
  flag says whether slashes follow the name. -/
  | name (inside : Bool) (name : String) (slashes : Bool)
  /-- Below a name in the directory or in one above it. -/
  | below (inside : Bool) (name : String)

/-- The place that steps from the directory, or from one above it, lead to. -/
def place : Bool → List String → Place
  | _, [] => .here
  | inside, step :: rest =>
    if step = "" ∨ step = "." then place inside rest
    else if step = ".." then place false rest
    else if rest.all String.isEmpty then .name inside step (!rest.isEmpty)
    else .below inside step

/-- The place that a path leads to. -/
def Place.ofPath (path : String) : Place := place (!path.startsWith "/") (path.splitOn "/")

/-- Whether a name has more than 255 bytes. -/
def isLongName (name : String) : Bool := 255 < name.utf8ByteSize

/-- Whether a path has more than 4095 bytes. -/
def isLongPath (path : String) : Bool := 4095 < path.utf8ByteSize

/-- The failure of a step to a name that does not exist. -/
def absence (name : String) : FileFailure := if isLongName name then .nameTooLong else .notFound

namespace Directory

/-- The contents of the file at a name. -/
def contents? (d : Directory) (inside : Bool) (name : String) : Option ByteArray :=
  if inside then d.find? name else none

/-- The failure of a step below a name. -/
def stepBelow (d : Directory) (inside : Bool) (name : String) : FileFailure :=
  if (d.contents? inside name).isSome then .notDirectory else absence name

/-- What a path leads to for reading. -/
def openFile (d : Directory) (path : String) : FileState :=
  if isLongPath path then .error .nameTooLong
  else
    match Place.ofPath path with
    | .here => .ok (.error .isDirectory)
    | .name inside n slashes =>
      match d.contents? inside n with
      | some bytes => if slashes then .error .notDirectory else .ok (.ok bytes)
      | none => .error (absence n)
    | .below inside n => .error (d.stepBelow inside n)

/-- Write a file. -/
def writeFile (d : Directory) (path text : String) : Except FileFailure Directory :=
  if isLongPath path then .error .nameTooLong
  else
    match Place.ofPath path with
    | .here => .error .isDirectory
    | .name inside n slashes =>
      if slashes then .error .isDirectory
      else if isLongName n then .error .nameTooLong
      else .ok (if inside then d.insert n text.toUTF8 else d)
    | .below inside n => .error (d.stepBelow inside n)

/-- Write files in order up to the first one that cannot be written. -/
def writeFiles : Directory → List (String × String) → Option FileFailure × Directory
  | d, [] => (none, d)
  | d, (path, text) :: rest =>
    match d.writeFile path text with
    | .ok d' => writeFiles d' rest
    | .error failure => (some failure, d)

end Directory

/-- Run the program in a directory. -/
def runIn (pace : Nat) (d : Directory) (words : List String) : Response × Directory :=
  match readCommand words with
  | .error e => (e.response, d)
  | .ok command =>
    let sources : Sources :=
      { config := command.input.config.map d.openFile
        transitions := d.openFile command.input.transitions
        labels := d.openFile command.input.labels }
    match command.run pace sources with
    | .error failure => (failure.response, d)
    | .ok product =>
      match d.writeFiles product.files with
      | (none, d') => (product.response, d')
      | (some failure, d') => ((CommandFailure.unwritable failure).response, d')

end StochasticGame.CommandLine
