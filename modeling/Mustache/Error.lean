import Mustache.Flaw

/-!
# Errors

An error ends a compilation, a rendering or a conversion.  A flaw is reported
with the source in which it was found, and with the partial that this source
belongs to.
-/

namespace Mustache

/-! ## Causes -/

/-- Why data cannot be converted to a value. -/
inductive ConversionFault where
  /-- A lambda stands in the data. -/
  | lambda
  /-- A key is no text and has none. -/
  | keyNotText
  /-- A key is an infinity or a NaN. -/
  | keyNotFinite
  /-- An integer needs more than 64 bits. -/
  | integerOutOfRange
deriving DecidableEq, Repr

/-- The words that report the cause. -/
def ConversionFault.message : ConversionFault → String
  | lambda => "lambdas cannot be serialized, use `render_from` instead"
  | keyNotText => "key must be a string"
  | keyNotFinite => "float key must be finite (got NaN or +/-inf)"
  | integerOutOfRange => "number out of range"

/-- A flaw, the source in which it was found, and the partial that the source belongs to. -/
structure Finding where
  flaw : Flaw
  source : String
  inPartial : Option String := none
deriving DecidableEq, Repr

/-- What can end an operation. -/
inductive Error where
  | flawed (finding : Finding)
  /-- Inclusions and lambda texts are nested deeper than the limit allows. -/
  | includeLimit (limit : Nat)
  /-- The device that is written to refuses to go on. -/
  | device (reason : String)
  | conversion (cause : ConversionFault)
deriving DecidableEq, Repr

/-- The kinds of errors. -/
inductive ErrorKind where
  | unclosedTag
  | unmatchedSectionClose
  | mismatchedSectionClose
  | unclosedSection
  | invalidDelimiter
  | maxIncludeDepth
  | format
  | device
  | conversion
deriving DecidableEq, Repr

/-- The kind of a fault. -/
def Fault.kind : Fault → ErrorKind
  | unclosedTag _ => .unclosedTag
  | unmatchedClose => .unmatchedSectionClose
  | mismatchedClose _ => .mismatchedSectionClose
  | unclosedSection _ => .unclosedSection
  | badMarkers => .invalidDelimiter
  | notRenderable _ => .format

namespace Error

/-- The kind of an error. -/
def kind : Error → ErrorKind
  | flawed finding => finding.flaw.fault.kind
  | includeLimit _ => .maxIncludeDepth
  | device _ => .device
  | conversion _ => .conversion

/-! ## Partials -/

/-- The partial in which the error occurred. -/
def partialName : Error → Option String
  | flawed finding => finding.inPartial
  | _ => none

/-- Names the partial in which the error occurred, unless one is named already. -/
def blame (name : String) : Error → Error
  | flawed finding => flawed { finding with inPartial := some (finding.inPartial.getD name) }
  | e => e

/-- Names the partial if the error points into its source. -/
def blameOwner (name source : String) : Error → Error
  | flawed finding =>
    if finding.source = source then blame name (flawed finding) else flawed finding
  | e => e

/-! ## Words -/

/-- The place and the partial of a finding in words. -/
def whereabouts (finding : Finding) : String :=
  " between bytes " ++ toString finding.flaw.span.start ++ " and " ++
    toString finding.flaw.span.stop ++
    match finding.inPartial with
    | none => ""
    | some name => " (in partial `" ++ name ++ "`)"

/-- The error in one line. -/
def message : Error → String
  | flawed finding => finding.flaw.fault.message ++ whereabouts finding
  | includeLimit limit => "reached maximum include depth (" ++ toString limit ++ ")"
  | device reason => reason
  | conversion cause => cause.message

end Error

end Mustache
