import HalfBinary.Host
import HalfBinary.Text.Bytes
import Std.Data.TreeMap

/-!
# A host in memory

Files in a tree of directories, seen from a working directory that the names of most places start
from, and output as text. The clock stands still.
-/

namespace HalfBinary

/-- What is at a path. -/
inductive Disk.Entry where
  | directory
  | file (bytes : ByteArray)
  /-- A device that is empty and drops what is written to it. -/
  | null

/-- Entries by the names on the way to them, and what has been written. A directory with entries
need not be listed. The way starts at the working directory, which `..` leads out of, or at the root
if the first name is `/`. -/
structure Disk where
  entries : Std.TreeMap (List String) Disk.Entry
  out : String := ""
  err : String := ""

namespace Disk

/-- A disk with files and directories beside the null device. -/
def ofEntries (entries : List (List String × Entry)) : Disk :=
  { entries := .ofList ((["/", "dev", "null"], .null) :: entries) }

def maxPathBytes : Nat := 4095

def maxNameBytes : Nat := 255

def parts (path : String) : List String := (path.toList.splitOn '/').map String.ofList

/-- Whether a place is the working directory or one around it. -/
def isOutward (place : List String) : Bool := place.all (· == "..")

/-- The directory that a directory is in; the root is in itself. -/
def parent (place : List String) : List String :=
  if isOutward place then place ++ [".."] else if place = ["/"] then place else place.dropLast

/-- Whether a list of names leads to a directory. -/
def isDirectory (d : Disk) (place : List String) : Bool :=
  isOutward place || d.entries.any fun names entry =>
    (names == place && entry matches .directory) || (place.isPrefixOf names && names != place)

/-- Follows the parts of a path from a directory. Every part but the last leads to a directory, and
so does the last if the path ends with a slash. -/
def follow (d : Disk) (place : List String) : List String → Option (List String)
  | [] => some place
  | part :: rest =>
    if !d.isDirectory place ∨ maxNameBytes < part.utf8ByteSize then none
    else if part = "" ∨ part = "." then d.follow place rest
    else if part = ".." then d.follow (parent place) rest
    else d.follow (place ++ [part]) rest

/-- The names that a path stands for, if there are directories on the way. -/
def resolve (d : Disk) (path : String) : Option (List String) :=
  if path.isEmpty ∨ path.contains '\x00' ∨ maxPathBytes < path.utf8ByteSize then none
  else d.follow (if path.startsWith "/" then ["/"] else []) (parts path)

/-- The bytes of a file. -/
def readFile (d : Disk) (path : String) (maxBytes : Nat) : Except ReadFailure ByteArray :=
  match (d.resolve path).bind fun names => d.entries[names]? with
  | some (.file bytes) => if maxBytes < bytes.size then .error (.tooLarge bytes.size) else .ok bytes
  | some .null => .ok ByteArray.empty
  | _ => .error (.io "cannot be read")

/-- Whether there is something at a path. -/
def isPresent (d : Disk) (path : String) : Bool :=
  match d.resolve path with
  | some names => d.isDirectory names || d.entries.contains names
  | none => false

/-- The disk with a file at a path, which is empty unless it was there before. -/
def openLog (d : Disk) (path : String) : Except String Disk :=
  match d.resolve path with
  | none => .error "cannot be opened"
  | some names =>
    if d.isDirectory names then .error "is a directory"
    else .ok { d with entries := d.entries.insertIfNew names (.file ByteArray.empty) }

/-- The disk with a text at the end of a file. -/
def appendLog (d : Disk) (path text : String) : Disk :=
  match d.resolve path with
  | none => d
  | some names =>
    match d.entries[names]? with
    | some (.file bytes) =>
      { d with entries := d.entries.insert names (.file (bytes ++ text.toUTF8)) }
    | _ => d

/-- The disk as a host. -/
def host : Host (StateM Disk) where
  isPresent path := return (← get).isPresent path
  readFile path maxBytes := return (← get).readFile path maxBytes
  openLog path := do
    match (← get).openLog path with
    | .ok d => set d; return .ok ()
    | .error detail => return .error detail
  appendLog path text := modify fun d => d.appendLog path text
  writeOut text := modify fun d => { d with out := d.out ++ text }
  writeErr text := modify fun d => { d with err := d.err ++ text }
  clock := return 0

end Disk

end HalfBinary
