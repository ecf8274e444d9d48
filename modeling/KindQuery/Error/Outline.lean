import KindQuery.Error
import KindQuery.Text.Outline
/-!
# Outlines of errors

How an error is built, level by level: its fault, and the error that led
to it.
-/

namespace KindQuery

/-- The outline of a failed file access. -/
def FileFailure.outline : FileFailure → Outline
  | absent message => .fields "Custom" [("kind", .leaf "NotFound"), ("error", .ofText message)]
  | other message => .fields "Custom" [("kind", .leaf "Other"), ("error", .ofText message)]

/-- The outline of a foreign error. -/
def Foreign.outline : Foreign → Outline
  | said text => .ofText text
  | saidWithin context text =>
    .fields "Error" [("context", .leaf (quotedBy .context context)), ("source", .ofText text)]
  | file failure => failure.outline

/-- The name of a kind of fault. -/
def Fault.name : Fault → String
  | note _ => "Adhoc"
  | foreign _ => "Anyhow"
  | unsupportedShape _ => "UnsupportedQueryShape"
  | invalidPipeline _ => "InvalidPipelineConstruction"
  | missingKey _ => "MissingKeyDefinition"
  | unsupportedKeyType _ _ => "UnsupportedKeyType"
  | malformedFlattenedKey _ => "MalformedFlattenedKey"
  | emptyFragment _ => "RenderingIntegrity"
  | invalidSchema _ => "InvalidSchema"
  | conversion _ _ => "TypeConversion"
  | invalidResult _ => "InvalidResult"
  | notFound _ => "RecordNotFound"
  | tooMany _ => "TooManyRecords"
  | invalidConfig _ => "InvalidConfig"

/-- The outline of what a fault holds. -/
def Fault.content : Fault → Outline
  | note text => .fields "AdhocError" [("message", .ofText text)]
  | foreign source => source.outline
  | unsupportedShape cause => .fields "UnsupportedQueryShape" [("message", .ofText cause.message)]
  | invalidPipeline cause =>
    .fields "InvalidPipelineConstruction" [("message", .ofText cause.message)]
  | missingKey kind => .fields "MissingKeyDefinition" [("kind", .ofText kind)]
  | unsupportedKeyType kind type =>
    .fields "UnsupportedKeyType" [("kind", .ofText kind), ("ty", .ofText type)]
  | malformedFlattenedKey name => .fields "MalformedFlattenedKey" [("key", .ofText name)]
  | emptyFragment fragment => .fields "RenderingIntegrity" [("fragment", .ofText fragment)]
  | invalidSchema cause => .fields "InvalidSchema" [("message", .ofText cause.message)]
  | conversion found type =>
    .fields "TypeConversionError" [("value", .ofText found), ("to_type", .ofText type)]
  | invalidResult cause => .fields "InvalidResult" [("message", .ofText cause.message)]
  | notFound context =>
    .fields "RecordNotFoundError" [("context", .ofOption (some (.ofText context)))]
  | tooMany context =>
    .fields "TooManyRecordsError" [("context", .ofOption (some (.ofText context)))]
  | invalidConfig cause => .fields "InvalidConfig" [("message", .ofText cause.message)]

/-- The outline of a fault. -/
def Fault.outline (f : Fault) : Outline := .call f.name [f.content]

/-- The outline of a fault and of what led to it. -/
def Error.outlineOf (fault : Fault) : List Fault → Outline
  | [] => .fields "Error" [("kind", fault.outline), ("cause", .ofOption none)]
  | next :: rest =>
    .fields "Error" [("kind", fault.outline), ("cause", .ofOption (some (outlineOf next rest)))]

/-- The outline of an error. -/
def Error.outline (e : Error) : Outline := outlineOf e.fault e.causes

end KindQuery
