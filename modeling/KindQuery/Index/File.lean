import KindQuery.Index
/-!
# Index files

The indexes that queries have needed are written to a file, all of them
each time a new one is added. What was in the file before is replaced, but
only if it could have been written here: before the first write the file
is looked at, and one with anything else in it is left alone.

The file is modelled together with the failures that reading and writing
may meet. Opening the file for a write empties it, so that a write that
fails later leaves it cut off.
-/

namespace KindQuery

/-- What there is at the path of a file. -/
inductive FileNode where
  | absent
  /-- Nothing, and no directory to put a file into. -/
  | detached
  /-- Nothing, but the path asks for a directory. -/
  | unmadeDirectory
  | text (content : String)
  /-- Bytes that are no text. -/
  | binary (bytes : List UInt8)
  | directory
deriving DecidableEq, Repr

/-- A failure that an access to a file meets. -/
inductive Mishap where
  /-- The file is not opened. -/
  | unopened (failure : FileFailure)
  /-- The file has been opened. This is how many bytes get through at most. -/
  | interrupted (failure : FileFailure) (bytes : Nat)
deriving DecidableEq, Repr

/-- What is said of it. -/
def Mishap.failure : Mishap → FileFailure
  | unopened failure => failure
  | interrupted failure _ => failure

/-- A path, and the failures that the next accesses to it meet. An access
meets none if there is none in its place, or no place for it. -/
structure Disk where
  node : FileNode
  failures : List (Option Mishap)
deriving DecidableEq, Repr

namespace FileNode

/-- Does a step of a path lead to a directory that is there: the same one,
or the one above? -/
def staysAbove (step : List Char) : Bool := step.isEmpty || step == ['.'] || step == ['.', '.']

/-- What a path leads to that starts from an empty directory. A path that
never leaves the directories that are there leads to one of them. -/
def ofPath (path : String) : FileNode :=
  match (pieces '/' path.toList).dropWhile staysAbove with
  | [] => .directory
  | [_] => .absent
  | _ :: rest => if rest.all List.isEmpty then .unmadeDirectory else .detached

example : ofPath "./index.yaml" = .absent := by decide
example : ofPath "a/../index.yaml" = .detached := by decide

/-- A file with some bytes in it. -/
def ofBytes (bytes : List UInt8) : FileNode :=
  match String.fromUTF8? bytes.toByteArray with
  | some content => .text content
  | none => .binary bytes

/-- What a write leaves that is interrupted after some bytes. The last byte is
never there, since nothing remains to fail behind it. -/
def cut (content : String) (bytes : Nat) : FileNode :=
  ofBytes (content.toUTF8.data.toList.dropLast.take bytes)

example : cut "indexes:" 3 = .text "ind" := by decide
example : cut "é" 5 = .binary [195] := by decide

end FileNode

namespace FileFailure

/-- There is no such file. -/
def noFile : FileFailure := .absent "No such file or directory (os error 2)"

/-- There is a directory in its place. -/
def isDirectory : FileFailure := .other "Is a directory (os error 21)"

/-- Its content is no text. -/
def notText : FileFailure := .other "stream did not contain valid UTF-8"

end FileFailure

/-- Why a file cannot be opened for a write, if it cannot. -/
def FileNode.openFailure? : FileNode → Option FileFailure
  | absent | text _ | binary _ => none
  | detached => some .noFile
  | unmadeDirectory | directory => some .isDirectory

namespace Disk

/-- A path whose accesses meet no failures. -/
def ofNode (node : FileNode) : Disk := ⟨node, []⟩

/-- The failure that the next access meets. -/
def nextFailure (d : Disk) : Option Mishap := d.failures.head?.join

/-- The path after an access. -/
def accessed (d : Disk) : Disk := { d with failures := d.failures.tail }

/-- Reads the file. -/
def read (d : Disk) : Except FileFailure String × Disk :=
  (match d.nextFailure with
    | some mishap => .error mishap.failure
    | none =>
      match d.node with
      | .absent | .detached | .unmadeDirectory => .error .noFile
      | .text content => .ok content
      | .binary _ => .error .notText
      | .directory => .error .isDirectory,
    d.accessed)

/-- Writes the file. What was in it is gone once it has been opened. -/
def write (d : Disk) (content : String) : Except FileFailure Unit × Disk :=
  match d.nextFailure, d.node.openFailure? with
  | some (.unopened failure), _ => (.error failure, d.accessed)
  | _, some failure => (.error failure, d.accessed)
  | some (.interrupted failure bytes), none =>
    (.error failure, { d.accessed with node := .cut content bytes })
  | none, none => (.ok (), { d.accessed with node := .text content })

end Disk

/-- The file that known indexes are written to. -/
structure IndexFile where
  path : String
  known : KnownIndexes
  /-- What was in the file has been looked at. -/
  checked : Bool
deriving DecidableEq, Repr

namespace IndexFile

/-- A file that has not been looked at. -/
def ofPath (path : String) : IndexFile := ⟨path, .empty, false⟩

/-- A failed access, with what was attempted. -/
def accessError (failure : FileFailure) (attempt path : String) : Error :=
  (Error.of (.foreign (.file failure))).within
    (.of (.note (attempt ++ " index file " ++ ticked path)))

/-- May what was read be replaced? A file that is not there may. -/
def mayReplace (path : String) : Except FileFailure String → Except Error Unit
  | .ok content =>
    if Index.isGenerated content then .ok ()
    else Fault.raise (.invalidConfig (.foreignIndexFile path))
  | .error (.absent _) => .ok ()
  | .error failure => .error (accessError failure "reading" path)

/-- Writes the known indexes, after the first look at the file. -/
def write (f : IndexFile) (d : Disk) : Except Error Unit × IndexFile × Disk :=
  let (allowed, d) :=
    if f.checked then (.ok (), d)
    else
      let (content, d) := d.read
      (mayReplace f.path content, d)
  match allowed with
  | .error e => (.error e, f, d)
  | .ok () =>
    let (written, d) := d.write (Index.toYaml f.known.indexes)
    (written.mapError fun failure => accessError failure "writing" f.path,
      { f with checked := true }, d)

/-- Adds the index that a query needs, and writes the file if the index is
new. An index stays known when the file cannot be written. -/
def advise (f : IndexFile) (c : Compiled) (d : Disk) : Except Error Unit × IndexFile × Disk :=
  match c.requiredIndex? with
  | none => (.ok (), f, d)
  | some i =>
    match f.known.record i with
    | (true, known) => write { f with known := known } d
    | (false, known) => (.ok (), { f with known := known }, d)

end IndexFile

end KindQuery
