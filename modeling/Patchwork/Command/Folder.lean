import Patchwork.Command.Place
import Patchwork.Command.Run

/-!
# Folders

A working directory as a value: the simplest host for commands to run in. Files are known by their
places, and a directory is there as long as a file is in it. A path is walked name by name, so the
first name that leads nowhere decides what is wrong with it. What a system may have against a file
besides, such as a lack of space or of permission, is told place by place.
-/

namespace Patchwork

namespace Command

structure Folder where
  input : ByteArray
  files : List (Place × ByteArray)
  /-- Why a place takes no file, where it is not for the path that leads to it. -/
  refusal : Place → Option Trouble

/-- What stands at a place. -/
inductive Entry where
  | file (bytes : ByteArray)
  | directory

namespace Folder

/-- The places of a system that take no files. -/
def systemRefusal : Place → Option Trouble
  | ⟨.root, ["dev", "full"]⟩ => some (.other "No space left on device (os error 28)")
  | ⟨.root, "proc" :: _ :: _⟩ => some .missing
  | ⟨.root, "sys" :: _ :: _⟩ => some (.other "Permission denied (os error 13)")
  | _ => none

/-- A folder with the given files, by their paths from the working directory. -/
def ofFiles (input : ByteArray) (files : List (String × ByteArray)) : Folder :=
  ⟨input, files.map fun file => (⟨.here, Path.names file.1⟩, file.2), systemRefusal⟩

/-- The files in the working directory, by their shortest paths. Files outside of it are left
out. -/
def listing (folder : Folder) : List (String × ByteArray) :=
  folder.files.filterMap fun file =>
    match file.1.origin with
    | .here => some ("/".intercalate file.1.names, file.2)
    | .root => none

def find? (folder : Folder) (place : Place) : Option ByteArray :=
  folder.files.lookup place

def isDirectory (folder : Folder) (place : Place) : Bool :=
  place.isStandard || folder.files.any fun file => place.leadsTo file.1

def entry? (folder : Folder) (place : Place) : Option Entry :=
  match folder.find? place with
  | some bytes => some (.file bytes)
  | none => if folder.isDirectory place then some .directory else none

/-- Goes on by one name, which only a directory allows. The name itself need not be there. -/
def step (folder : Folder) (place : Place) (name : String) : Except Trouble Place :=
  match folder.entry? place with
  | none => .error .missing
  | some (.file _) => .error .notDirectory
  | some .directory =>
    if name = "." then .ok place
    else if name = ".." then .ok place.parent
    else if Path.longestName < name.utf8ByteSize then .error .nameTooLong
    else .ok (place.child name)

/-- Takes the given names from where the path starts. -/
def walk (folder : Folder) (path : String) (names : List String) : Except Trouble Place :=
  if path.isEmpty then .error .missing
  else if Path.longest < path.utf8ByteSize then .error .nameTooLong
  else names.foldlM folder.step (Path.start path)

def read (folder : Folder) (path : String) : Except Trouble ByteArray := do
  let place ← folder.walk path (Path.names path)
  match folder.entry? place with
  | none => .error .missing
  | some .directory => .error .isDirectory
  | some (.file bytes) => if Path.endsInSlash path then .error .notDirectory else .ok bytes

/-- Where a file with this path is written. A path that ends in a slash asks for a directory, so it
is refused as one, whatever its last name is, as long as the names before lead to a directory. -/
def target (folder : Folder) (path : String) : Except Trouble Place := do
  if Path.endsInSlash path then
    let _ ← folder.walk path ((Path.names path).dropLast ++ ["."])
    .error .isDirectory
  else
    let place ← folder.walk path (Path.names path)
    match folder.entry? place, folder.refusal place with
    | some .directory, _ => .error .isDirectory
    | _, some trouble => .error trouble
    | _, none => .ok place

/-- Puts a file at a place, instead of the one that is there. -/
def put (folder : Folder) (place : Place) (bytes : ByteArray) : Folder :=
  match folder.find? place with
  | some _ =>
    { folder with
      files := folder.files.map fun file => if file.1 = place then (place, bytes) else file }
  | none => { folder with files := folder.files ++ [(place, bytes)] }

def write (folder : Folder) (path : String) (bytes : ByteArray) : Except Trouble Folder := do
  let place ← folder.target path
  return folder.put place bytes

def host : Host (StateM Folder) where
  input := do return .ok (← get).input
  readFile path := do return (← get).read path
  writeFile path text := do
    match (← get).write path text.toUTF8 with
    | .ok folder =>
      set folder
      return .ok ()
    | .error trouble => return .error trouble

end Folder

end Command

end Patchwork
