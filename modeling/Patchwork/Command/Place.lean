/-!
# Places

Where the paths of a command can lead: into the working directory or out of it, to the root. A path
is text; the place is what it comes to when every step has been taken.
-/

namespace Patchwork

namespace Command

inductive Origin where
  | here
  | root
  deriving DecidableEq, Repr

/-- A place by the names that lead to it, the last one being its own. -/
structure Place where
  origin : Origin
  names : List String
  deriving DecidableEq, Repr

namespace Place

/-- The root is its own parent. The working directory stands right in the root, under a name that no
path can tell. -/
def parent (place : Place) : Place :=
  match place.names with
  | [] => ⟨.root, []⟩
  | names => ⟨place.origin, names.dropLast⟩

def child (place : Place) (name : String) : Place :=
  { place with names := place.names ++ [name] }

/-- Whether the second place is found by going on from the first. -/
def leadsTo (place below : Place) : Bool :=
  place.origin = below.origin && place.names.length < below.names.length &&
    place.names.isPrefixOf below.names

/-- The directories that every system has in its root. -/
def standardNames : List String :=
  ["bin", "boot", "dev", "etc", "home", "lib", "media", "mnt", "opt", "proc", "root", "run", "sbin",
    "srv", "sys", "tmp", "usr", "var"]

/-- Whether a directory stands here, whatever the working directory holds. -/
def isStandard (place : Place) : Bool :=
  match place.names with
  | [] => true
  | [name] => place.origin = .root && standardNames.contains name
  | _ => false

end Place

namespace Path

/-- The greatest size of one name, in bytes. -/
def longestName : Nat :=
  255

/-- The greatest size of a whole path, in bytes. -/
def longest : Nat :=
  4095

def start (path : String) : Place :=
  if path.startsWith "/" then ⟨.root, []⟩ else ⟨.here, []⟩

/-- The names between the slashes. Slashes in a row separate as one does. -/
def names (path : String) : List String :=
  ((path.toList.splitOn '/').filter (· ≠ [])).map String.ofList

/-- Whether the path asks for a directory by its last character. -/
def endsInSlash (path : String) : Bool :=
  path.endsWith "/"

end Path

end Command

end Patchwork
