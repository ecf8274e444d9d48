/-!
# Errors

What can go wrong when a query is translated, an entity is encoded or
decoded, or a query is run. A `Fault` says what happened; an `Error` is a
fault together with the faults that led to it, the most recent first.

The wording of every message is in this file, and nowhere else.
-/

namespace KindQuery

/-- Why the store's query language cannot express a query. -/
inductive ShapeFault where
  | severalProjections
  | severalOrderings
  | orderingNotField
  | terminalNested
  | disjunction
  | inequation
  | negation
  | notComparison
  | operands
  | fieldsCompared (left right : String)
  | call (name receiver : String)
  | projection
  | nestedMember (path : String)
  | unknownField (name kind : String)
  | notBoolean (path : String)
  | severalInequalities (first second : String)
  | other (text : String)
deriving DecidableEq, Repr

/-- Why a pipeline is put together wrongly. -/
inductive PipelineFault where
  | takeWithTerminal
  | severalTerminals
  | repeated (stage : String)
  | countNotConstant (stage : String)
  | countNotNatural (stage found : String)
  | alwaysFalse
  | notCondition (found : String)
  | other (text : String)
deriving DecidableEq, Repr

/-- Why a returned row does not fit the query. -/
inductive ResultFault where
  | unknownColumn (path kind : String)
  | keyAbsent (kind : String)
  | columnAbsent (name : String)
  | other (text : String)
deriving DecidableEq, Repr

/-- Why a schema or a record cannot be encoded. -/
inductive SchemaFault where
  | misfit (found type : String)
  | collision (field kind : String)
  | noKeySlot (kind : String)
  | other (text : String)
deriving DecidableEq, Repr

/-- Why a configuration is not usable. -/
inductive ConfigFault where
  | malformed
  | noIndexPath
  | foreignIndexFile (path : String)
  | other (text : String)
deriving DecidableEq, Repr

/-- Why a file could not be read or written. Only the absence of the file
is told apart from other reasons. -/
inductive FileFailure where
  | absent (message : String)
  | other (message : String)
deriving DecidableEq, Repr

/-- An error that did not arise in this library. -/
inductive Foreign where
  | said (text : String)
  | saidWithin (context text : String)
  | file (failure : FileFailure)
deriving DecidableEq, Repr

/-- One thing that went wrong. -/
inductive Fault where
  | note (text : String)
  | foreign (source : Foreign)
  | unsupportedShape (cause : ShapeFault)
  | invalidPipeline (cause : PipelineFault)
  | missingKey (kind : String)
  | unsupportedKeyType (kind type : String)
  | malformedFlattenedKey (name : String)
  | emptyFragment (fragment : String)
  | invalidSchema (cause : SchemaFault)
  | conversion (found type : String)
  | invalidResult (cause : ResultFault)
  | notFound (context : String)
  | tooMany (context : String)
  | invalidConfig (cause : ConfigFault)
deriving DecidableEq, Repr

/-- A fault and what led to it, the most recent first. -/
structure Error where
  fault : Fault
  causes : List Fault
deriving DecidableEq, Repr

/-! ## Messages -/

/-- A name between grave accents. -/
def ticked (name : String) : String := "\x60" ++ name ++ "\x60"

/-- The wording of each reason. -/
def ShapeFault.message : ShapeFault → String
  | severalProjections => "only one projection may be applied"
  | severalOrderings => "only one ordering may be applied"
  | orderingNotField => "ordering must reference a field of the record"
  | terminalNested => "terminal operations cannot be nested inside another query"
  | disjunction => "OR is not supported"
  | inequation => ticked "!=" ++ " comparisons are not supported"
  | negation => "NOT is only supported over a boolean field"
  | notComparison => "a condition must compare a field of the record"
  | operands => "a comparison must be between a field and a constant"
  | fieldsCompared left right =>
    "comparing two fields (" ++ ticked left ++ " and " ++ ticked right ++ ") is not supported"
  | call name receiver =>
    "method " ++ ticked name ++ " on " ++ ticked receiver ++ " is not supported"
  | projection => "a projection may only select fields, constants or records of them"
  | nestedMember path => "nested member " ++ ticked path ++ " is not supported"
  | unknownField name kind => ticked name ++ " is not a field of " ++ ticked kind
  | notBoolean path =>
    ticked path ++ " is not a boolean field and cannot be used as a condition"
  | severalInequalities first second =>
    "inequality comparisons must all target one field; found " ++ ticked first ++ " and " ++
      ticked second
  | other text => text

/-- The wording of each reason. -/
def PipelineFault.message : PipelineFault → String
  | takeWithTerminal => "a terminal operation cannot be combined with Take"
  | severalTerminals => "a terminal operation may only be applied once"
  | repeated stage => stage ++ " may only be applied once"
  | countNotConstant stage => stage ++ " requires a constant count"
  | countNotNatural stage found =>
    stage ++ " requires a non-negative integer count, got " ++ found
  | alwaysFalse => "filter is always false"
  | notCondition found => "constant " ++ found ++ " cannot be used as a condition"
  | other text => text

/-- The wording of each reason. -/
def ResultFault.message : ResultFault → String
  | unknownColumn path kind => ticked path ++ " is not a column of " ++ ticked kind
  | keyAbsent kind => "row of " ++ ticked kind ++ " has no key"
  | columnAbsent name => "column " ++ ticked name ++ " is missing from the row"
  | other text => text

/-- The wording of each reason. -/
def SchemaFault.message : SchemaFault → String
  | misfit found type => found ++ " cannot be stored as a " ++ type
  | collision field kind =>
    "field " ++ ticked field ++ " of " ++ ticked kind ++ " collides with the map flattening scheme"
  | noKeySlot kind => "record for " ++ ticked kind ++ " has no value for its key field"
  | other text => text

/-- The wording of each reason. -/
def ConfigFault.message : ConfigFault → String
  | malformed => "the text is not a configuration"
  | noIndexPath => "index file generation is enabled but no index file path is set"
  | foreignIndexFile path =>
    "index file " ++ ticked path ++
      " holds entries that were not generated; refusing to overwrite it"
  | other text => text

/-- The message of a failed file access. -/
def FileFailure.message : FileFailure → String
  | absent message => message
  | other message => message

/-- The message of a foreign error: its outermost context. -/
def Foreign.message : Foreign → String
  | said text => text
  | saidWithin context _ => context
  | file failure => failure.message

/-- The message of a fault without what led to it. -/
def Fault.message : Fault → String
  | note text => text
  | foreign source => source.message
  | unsupportedShape cause => "unsupported query shape: " ++ cause.message
  | invalidPipeline cause => "invalid pipeline: " ++ cause.message
  | missingKey kind =>
    ticked kind ++ " does not contain an " ++ ticked "id" ++
      " field nor any field marked as the key"
  | unsupportedKeyType kind type =>
    "key type " ++ ticked type ++ " of " ++ ticked kind ++
      " is not supported; keys must be strings"
  | malformedFlattenedKey name => ticked name ++ " is an invalid flattened map key"
  | emptyFragment fragment => fragment ++ " fragment cannot be empty"
  | invalidSchema cause => "invalid schema: " ++ cause.message
  | conversion found type => "cannot convert " ++ found ++ " to " ++ type
  | invalidResult cause => "invalid result: " ++ cause.message
  | notFound context => "record not found: " ++ context
  | tooMany context => "too many records: " ++ context
  | invalidConfig cause => "invalid configuration: " ++ cause.message

namespace Error

/-- An error that nothing led to. -/
def of (fault : Fault) : Error := ⟨fault, []⟩

/-- The faults of an error, the most recent first. -/
def trail (e : Error) : List Fault := e.fault :: e.causes

/-- The messages of all faults of an error. -/
def message (e : Error) : String := String.intercalate ": " (e.trail.map Fault.message)

/-- Puts the fault of `outer` on top of an error. What had led to `outer` is
not kept. -/
def within (e outer : Error) : Error := ⟨outer.fault, e.trail⟩

/-- Like `within`, for an `outer` that is still in use elsewhere: only the
message of its fault is taken over. -/
def withinNote (e outer : Error) : Error := ⟨.note outer.fault.message, e.trail⟩

/-- The messages of a foreign error and of what it came from. -/
def foreignMessages : Foreign → List String
  | .saidWithin context text => [context, text]
  | source => [source.message]

/-- The messages of the errors that an error refers to as its source, the
outermost first. A foreign fault refers to the foreign error and not to
what led to it here. -/
def sourceMessages (fault : Fault) : List Fault → List String
  | [] => match fault with
    | .foreign source => foreignMessages source
    | _ => []
  | next :: rest => match fault with
    | .foreign source => foreignMessages source
    | _ => (Error.mk next rest).message :: sourceMessages next rest

/-- The messages of the sources of an error. -/
def sources (e : Error) : List String := sourceMessages e.fault e.causes

end Error

/-- Fails with a fault that nothing led to. -/
def Fault.raise {α : Type u} (fault : Fault) : Except Error α := .error (.of fault)

@[simp] theorem Fault.raise_ne_ok {α : Type u} {fault : Fault} {a : α} : fault.raise ≠ .ok a := nofun

@[simp] theorem Fault.ok_ne_raise {α : Type u} {fault : Fault} {a : α} : .ok a ≠ fault.raise := nofun

/-- A chain of two steps succeeds when both do. -/
theorem bind_eq_ok {α β : Type u} {x : Except Error α} {f : α → Except Error β} {b : β} :
    x >>= f = .ok b ↔ ∃ a, x = .ok a ∧ f a = .ok b := by
  cases x with
  | error e => exact ⟨nofun, nofun⟩
  | ok a => exact ⟨fun h => ⟨a, rfl, h⟩, fun ⟨_, ha, h⟩ => by cases ha; exact h⟩

theorem mapError_eq_ok {α ε δ : Type u} {x : Except ε α} {f : ε → δ} {a : α} :
    x.mapError f = .ok a ↔ x = .ok a := by
  cases x with
  | error e => exact ⟨nofun, nofun⟩
  | ok b => exact ⟨fun h => congrArg _ (Except.ok.inj h), fun h => congrArg _ (Except.ok.inj h)⟩

theorem mapError_eq_error {α ε δ : Type u} {x : Except ε α} {f : ε → δ} {d : δ} :
    x.mapError f = .error d ↔ ∃ e, x = .error e ∧ f e = d := by
  cases x with
  | error e =>
    refine ⟨fun h => ⟨e, rfl, Except.error.inj h⟩, ?_⟩
    rintro ⟨_, ⟨⟩, rfl⟩
    rfl
  | ok b => exact ⟨nofun, fun ⟨_, h, _⟩ => nomatch h⟩

end KindQuery
