import KindQuery.Error
import KindQuery.Json
import KindQuery.Text.Cut
/-!
# Configuration

The options of a session, and their JSON form: an object whose members
are options, or a list of the options in order. An option that is not
given keeps its default, and members that are no options are ignored. An
option must not be given twice.
-/

namespace KindQuery

/-- The options of a session. -/
structure Config where
  /-- Write the composite indexes that queries need to a file. -/
  writesIndexFile : Bool := false
  /-- The path of that file. -/
  indexFilePath : String := "index.yaml"
  /-- Look each new key up in the store before it is used. -/
  checksNewKeys : Bool := false
deriving DecidableEq, Repr

namespace Config

/-- All options with their defaults. -/
def standard : Config := { }

/-- The names of the options in the JSON form, in order. -/
inductive Setting where
  | writesIndexFile
  | indexFilePath
  | checksNewKeys
deriving DecidableEq, Repr

/-- The option of a name. -/
def Setting.ofName? (name : String) : Option Setting :=
  if name = "generate_index_file" then some .writesIndexFile
  else if name = "index_file_path" then some .indexFilePath
  else if name = "double_check_generated_ids" then some .checksNewKeys
  else none

/-- Sets an option to a JSON value, if the value has the right type. -/
def set? (c : Config) : Setting → Json → Option Config
  | .writesIndexFile, .bool b => some { c with writesIndexFile := b }
  | .indexFilePath, .text (some path) => some { c with indexFilePath := path }
  | .checksNewKeys, .bool b => some { c with checksNewKeys := b }
  | _, _ => none

/-- Sets options to the values of a list, in order. -/
def setInOrder? (c : Config) : List Setting → List Json → Option Config
  | _, [] => some c
  | [], _ :: _ => none
  | s :: ss, v :: vs => do setInOrder? (← c.set? s v) ss vs

/-- Sets the options that an object has members for, apart from those
already `done`. -/
def setNamed? (c : Config) (done : List Setting) :
    List (Option String × Json) → Option Config
  | [] => some c
  | (none, _) :: _ => none
  | (some name, v) :: rest =>
    match Setting.ofName? name with
    | none => setNamed? c done rest
    | some s => if done.contains s then none else do setNamed? (← c.set? s v) (s :: done) rest

/-- The configuration of a JSON value. -/
def ofJson? : Json → Option Config
  | .list items =>
    standard.setInOrder? [.writesIndexFile, .indexFilePath, .checksNewKeys] items
  | .object members => standard.setNamed? [] members
  | _ => none

/-- Reads a configuration. -/
def parse (text : String) : Except Error Config :=
  match (Json.parse? text).bind ofJson? with
  | some c => .ok c
  | none => Fault.raise (.invalidConfig .malformed)

/-! ## Paths -/

/-- The steps that a path consists of. A path that begins with a slash is
marked by an empty step. Steps that stay where they are count only at the
beginning. -/
def pathSteps (path : String) : List (List Char) :=
  match pieces '/' path.toList with
  | [[]] => []
  | first :: rest => first :: rest.filter fun step => !step.isEmpty && step != ['.']
  | [] => []

/-- Equality of configurations. Paths are compared step by step. -/
def same (c d : Config) : Bool :=
  c.writesIndexFile == d.writesIndexFile && c.checksNewKeys == d.checksNewKeys &&
    pathSteps c.indexFilePath == pathSteps d.indexFilePath

example : (pathSteps "a//b/./c/" == pathSteps "a/b/c") = true := by decide
example : (pathSteps "./a" == pathSteps "a") = false := by decide

end Config

end KindQuery
