import ProxyLoom.Catalog.Resource
import ProxyLoom.IR.Frozen

/-!
# Expanding references

A depth-first walk from the roots, which emits a resource after everything it refers to. Whatever
stands in the way of a complete closure is reported instead.

`walk_fuel`: the limit on the resources bounds the depth, so the fuel is never used up.
-/

namespace ProxyLoom.Depgraph

open IR Catalog

def defaultMaxResources : ℕ := maxFrozenResources

structure Options where
  scopeID : ID
  exclude : List ID
  maxResources : ℕ

/-- A limit of zero asks for the default one. -/
def Options.withDefaults (options : Options) : Options :=
  { options with
    maxResources :=
      if options.maxResources = 0 then defaultMaxResources else options.maxResources }

/-- The walk so far. A resource is visited while its references are, and done after it. -/
structure Expansion where
  scopeID : ID
  visiting : List ID
  done : List ID
  order : List ID
  resources : List Resource
  diagnostics : List Diagnostic

def Expansion.report (out : Expansion) (code : DiagnosticCode) (id : ID) (via message : String) :
    Expansion :=
  { out with diagnostics := out.diagnostics ++ [⟨code, .error, id, via, "", message, ""⟩] }

/-- The scope of the walk: the given one, or else that of the first resource. -/
def Expansion.enter (out : Expansion) (r : Resource) : Expansion :=
  { out with scopeID := if out.scopeID = "" then r.metadata.scopeID else out.scopeID }

def Expansion.visit (out : Expansion) (id : ID) : Expansion :=
  { out with visiting := id :: out.visiting }

def Expansion.emit (out : Expansion) (id : ID) (r : Resource) : Expansion :=
  { out with
    visiting := out.visiting.erase id
    done := id :: out.done
    order := out.order ++ [id]
    resources := out.resources ++ [r] }

section
variable (refs : Resource → Except CatalogError (List Reference)) (find : ID → Option Resource)
  (options : Options)

/-- Walk from `id`, which `via` refers to and `path` leads to. The references are those of
`extractReferences`, unless the options give others. -/
def walk : ℕ → List ID → ID → String → Expansion → Expansion
  | 0, _, _, _, out => out
  | fuel + 1, path, id, via, out =>
    if options.exclude.contains id then
      out.report .dependencyExcluded id via "An explicit exclude removed a required dependency."
    else if out.visiting.contains id then
      out.report .dependencyCycle id via "The dependency graph contains a cycle."
    else if out.done.contains id then out
    else
      match find id with
      | none => out.report .referenceMissing id via "The referenced resource is missing."
      | some r =>
        let out := out.enter r
        if r.metadata.scopeID ≠ out.scopeID then
          out.report .scopeMismatch id via DiagnosticCode.scopeMismatch.message
        else if !r.metadata.enabled then
          out.report .resourceDisabled id via DiagnosticCode.resourceDisabled.message
        else if options.maxResources ≤ out.order.length + path.length then
          out.report .invalidValue id via "Dependency expansion exceeded the resource limit."
        else
          match refs r with
          | .error _ =>
            let out := out.report .invalidValue id via
              "The resource references could not be expanded."
            { out with done := id :: out.done }
          | .ok refs =>
            (refs.foldl (fun out ref =>
              if (find ref.targetID).any (fun target => target.metadata.kind ≠ ref.expectedKind)
              then
                out.report .referenceKind ref.targetID ref.path
                  "The referenced resource has the wrong kind."
              else walk fuel (path ++ [id]) ref.targetID ref.path out) (out.visit id)).emit id r

def expand (roots : List ID) : Expansion :=
  let options := options.withDefaults
  (indexed "/roots" roots).foldl
    (fun out root => walk refs find options (options.maxResources + 1) [] root.2 root.1 out)
    ⟨options.scopeID, [], [], [], [], []⟩

end

/-! ## Fuel -/

/-- **The fuel is never used up.** On a path within the limit, more fuel than the limit leaves for
the rest of the path changes nothing. -/
theorem walk_fuel {refs : Resource → Except CatalogError (List Reference)}
    {find : ID → Option Resource} {options : Options} (fuel : ℕ) :
    ∀ (path : List ID) (id : ID) (via : String) (out : Expansion),
      path.length ≤ options.maxResources → options.maxResources < fuel + path.length →
      walk refs find options (fuel + 1) path id via out =
        walk refs find options fuel path id via out := by
  induction fuel with
  | zero =>
    intro path id via out hpath hfuel
    omega
  | succ fuel ih =>
    intro path id via out hpath hfuel
    rw [walk, walk]
    split_ifs
    · rfl
    · rfl
    · rfl
    · split
      · rfl
      · dsimp only
        split_ifs with _ _ hlimit
        · rfl
        · rfl
        · rfl
        · split
          · rfl
          · -- below the limit the path has room for one more resource
            have hroom : ∀ id : ID, (path ++ [id]).length ≤ options.maxResources ∧
                options.maxResources < fuel + (path ++ [id]).length := by
              intro id
              rw [List.length_append, List.length_singleton]
              omega
            congr 2
            funext out ref
            rw [ih _ _ _ _ (hroom id).1 (hroom id).2]

end ProxyLoom.Depgraph
