import MixedProgram.Logging.Install

/-! Files that take log lines: which paths can be opened for appending.
A path is followed name by name from the root or from the current directory. All names but the last
have to lead to directories; the last one names the file, which is created when it is missing. -/
namespace MixedProgram.Logging

inductive OpenError
  | noSuchFile
  | notDirectory
  | isDirectory
  | nameTooLong
  | textBusy
  | permissionDenied
  | noDevice
  | tooManyLinks
  deriving DecidableEq, Repr

def OpenError.message : OpenError → String
  | noSuchFile => "No such file or directory (os error 2)"
  | notDirectory => "Not a directory (os error 20)"
  | isDirectory => "Is a directory (os error 21)"
  | nameTooLong => "File name too long (os error 36)"
  | textBusy => "Text file busy (os error 26)"
  | permissionDenied => "Permission denied (os error 13)"
  | noDevice => "No such device or address (os error 6)"
  | tooManyLinks => "Too many levels of symbolic links (os error 40)"

namespace Path

/-- The names between the slashes. Several slashes in a row count as one. -/
def names (path : String) : List String := (Text.split '/' path).filter (!·.isEmpty)

def isAbsolute (path : String) : Bool := path.toList.head? == some '/'
def endsInSlash (path : String) : Bool := path.toList.getLast? == some '/'

/-- The path without its last name; the current directory has the empty path. -/
def parent (path : String) : String :=
  (if isAbsolute path then "/" else "") ++ "/".intercalate (names path).dropLast

/-- A name that stands for a directory wherever it occurs. -/
def isStep (name : String) : Bool := name == "." || name == ".."

end Path

/-- The names that lead from the root to a file or directory, the last one first. -/
abbrev Place := List String

def Place.ofPath (path : String) : Place := (Path.names path).reverse

/-- How many bytes a path may have. -/
def longestPath : Nat := 4095

/-- How many bytes a single name may have. -/
def longestName : Nat := 255

/-- How many links may be followed on the way along a path. -/
def mostLinks : Nat := 40

/-- Another name for a place. As a link can lead over others, `hops` of them are followed at once. -/
structure Link where
  source : Place
  target : Place
  hops : Nat := 1
  deriving DecidableEq, Repr

/-- How far a path has been followed, and over how many links. -/
structure Position where
  place : Place
  hops : Nat := 0
  deriving DecidableEq, Repr

/-- What exists: the root, further directories, other files, and links. Some files cannot be opened. In
a sealed directory nothing can be created, and names of any length are refused alike. Relative paths
start at the current directory. Some of the files may stand for the standard error of the process. -/
structure FileView where
  current : Place := []
  directories : List Place := []
  links : List Link := []
  sealedDirectories : List (Place × OpenError) := []
  files : List Place := []
  closedFiles : List (Place × OpenError) := []
  standardError : List Place := []

namespace FileView

def isDirectory (v : FileView) (place : Place) : Bool := place.isEmpty || v.directories.contains place

def isFile (v : FileView) (place : Place) : Bool :=
  v.files.contains place || (v.closedFiles.lookup place).isSome

/-- Goes to a name in a directory, over a link if there is one. -/
def follow (v : FileView) (here : Position) (name : String) : Except OpenError Position :=
  match v.links.find? (·.source = name :: here.place) with
  | none => .ok ⟨name :: here.place, here.hops⟩
  | some link =>
    if mostLinks < here.hops + link.hops then .error .tooManyLinks
    else .ok ⟨link.target, here.hops + link.hops⟩

/-- The directory that a name leads to. The root is its own parent. -/
def enter (v : FileView) (here : Position) (name : String) : Except OpenError Position :=
  if name = "." then .ok here
  else if name = ".." then .ok { here with place := here.place.tail }
  else do
    let next ← v.follow here name
    if v.isDirectory next.place then return next
    else if v.isFile next.place then throw .notDirectory
    else if (v.sealedDirectories.lookup here.place).isNone && longestName < name.utf8ByteSize then
      throw .nameTooLong
    else throw .noSuchFile

/-- Opens the file of the given name, or creates it. -/
def openIn (v : FileView) (here : Position) (name : String) : Except OpenError Place := do
  let next ← v.follow here name
  if v.isDirectory next.place then throw .isDirectory
  else if v.files.contains next.place then return next.place
  else match (v.closedFiles.lookup next.place).or (v.sealedDirectories.lookup here.place) with
    | some e => throw e
    | none => if longestName < name.utf8ByteSize then throw .nameTooLong else return next.place

/-- The place of the file that a path opens. A path that ends in a slash names a directory, whether
or not there is one. -/
def locate (v : FileView) (path : String) : Except OpenError Place := do
  if path.isEmpty then throw .noSuchFile
  if longestPath < path.utf8ByteSize then throw .nameTooLong
  let names := Path.names path
  match names.getLast? with
  | none => throw .isDirectory
  | some name =>
    let start : Place := if Path.isAbsolute path then [] else v.current
    let last ← names.dropLast.foldlM v.enter ⟨start, 0⟩
    if Path.isStep name || Path.endsInSlash path then throw .isDirectory
    else v.openIn last name

/-- A missing file is created, a missing directory is not. -/
def openable (v : FileView) (path : String) : Except OpenError Unit := (v.locate path).map fun _ => ()

/-- Which log files can be opened, with the words of the operating system for those that cannot. -/
def access (v : FileView) : FileAccess := fun path => (v.openable path).mapError OpenError.message

/-- How often a line appears on standard error: once more if the log file is standard error too. -/
def copies (v : FileView) (logFile : Option String) : Nat :=
  match logFile.map v.locate with
  | some (.ok place) => if v.standardError.contains place then 2 else 1
  | _ => 1

end FileView
end MixedProgram.Logging
