import ProxyLoom.IR.Node

/-!
# Diagnostics

A diagnostic names the resource and the field it is about. Its message depends on the code alone, so
no input value ever shows up in it.
-/

namespace ProxyLoom.IR

inductive DiagnosticCode where
  | invalidType | invalidValue | requiredField | inputLimitExceeded | invalidUnion
  | invalidSnapshot | duplicateResource | duplicateTarget | referenceMissing | referenceKind
  | referenceRevision | referenceEpoch | referenceCycle | scopeMismatch | resourceDisabled
  | unreachableResource
  | capabilityUnsupported | capabilityUnverified | compileTargetMismatch | compileUnknownBuild
  | compileDigestMismatch | compileAdapterVersion | compileFormatMismatch | compileLabelCollision
  | compileUnknownCapability | compileUnmappedField | compileDialConflict
  | dependencyExcluded | dependencyCycle
  | publicationBlocked | runnerValidationPending
  /-- An error code of the runner protocol. -/
  | runner (code : String)
deriving DecidableEq, Repr

def DiagnosticCode.message : DiagnosticCode → String
  | .requiredField => "A required field is missing."
  | .invalidType => "The field has an invalid JSON type."
  | .inputLimitExceeded =>
    "The input or expanded configuration exceeds the configured resource limit."
  | .invalidUnion => "The discriminator and variant must describe exactly one supported type."
  | .invalidSnapshot => "A validated, fully pinned frozen input is required."
  | .duplicateResource => "A resource ID must occur exactly once."
  | .duplicateTarget => "Each frozen target key must be unique."
  | .referenceMissing => "The referenced resource is absent from the snapshot."
  | .referenceKind => "The referenced resource has the wrong kind."
  | .referenceRevision => "The reference does not match the frozen resource revision."
  | .referenceEpoch => "The reference does not match the frozen security epoch."
  | .referenceCycle => "The reference forms a dependency cycle."
  | .scopeMismatch => "All frozen resources must belong to the snapshot scope."
  | .resourceDisabled => "Disabled resources cannot enter a compile snapshot."
  | .unreachableResource =>
    "The snapshot contains a resource outside the declared root dependency closure."
  | .capabilityUnsupported =>
    "This capability is not adapted for the target and cannot be substituted."
  | .capabilityUnverified =>
    "This capability is locked but not verified; the compiler records it and does not mark it verified."
  | .compileTargetMismatch =>
    "The compile target must equal the frozen target with the same key."
  | .compileUnknownBuild => "The frozen core build is not in the locked catalog."
  | .compileDigestMismatch => "The frozen core digest does not match the locked build."
  | .compileAdapterVersion =>
    "The frozen adapter version does not match the locked compiler adapter version."
  | .compileFormatMismatch => "The frozen output format does not match the core family."
  | .compileLabelCollision =>
    "Deterministic labels could not be made unique without a random suffix."
  | .compileUnknownCapability =>
    "The node combination is not in the locked P0 capability list."
  | .compileUnmappedField =>
    "This field cannot be expressed by the current native adapter and cannot be dropped or rewritten."
  | .compileDialConflict =>
    "Chain dialer fields conflict with another outbound dial option and cannot be combined."
  | _ => "The value does not satisfy the v1 contract."

inductive Severity where
  | error | warning | info
deriving DecidableEq, Repr

/-- The resource, the target and the suggested action are empty where there is none. -/
structure Diagnostic where
  code : DiagnosticCode
  severity : Severity
  resourceID : ID
  fieldPath : String
  targetKey : String
  message : String
  suggestedAction : String
deriving DecidableEq, Repr

def issue (code : DiagnosticCode) (path : String) : Diagnostic :=
  ⟨code, .error, "", path, "", code.message, ""⟩

end ProxyLoom.IR
