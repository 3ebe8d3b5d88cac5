import ProxyLoom.Adapter.Input
import ProxyLoom.Lib.HostPort
import ProxyLoom.Lib.Value

/-!
# Outbounds of a graph

The outbounds that an emitter writes, in order, with the checks on their tags, and the fields of a
node that the three families map to their own names.
-/

namespace ProxyLoom.Adapter

open IR List Except

structure URL where
  scheme : String
  hostname : String
  port : String
  escapedPath : String
  rawPath : String
  rawQuery : String
  forceQuery : Bool
  fragment : String
deriving DecidableEq, Repr

/-- What the emitters take from the libraries: the node check with what it reports, and the parsers
of addresses and URLs. -/
structure Libraries where
  formats : Formats
  reportNode : Node → List Diagnostic
  isAddr : String → Bool
  parseURL : String → Option URL
  urlText : URL → String

/-- Libraries that know no addresses and no URLs. -/
def hostnameLibraries : Libraries where
  formats := hostnameSchema.toFormats
  reportNode _ := []
  isAddr _ := false
  parseURL _ := none
  urlText _ := ""

/-! ## References to outbounds -/

inductive OutboundKind where
  | independent | chainH1 | chainH2
deriving DecidableEq, Repr

/-- An outbound to emit, and the one it dials through. -/
structure OutboundRef where
  tag : String
  kind : OutboundKind
  resource : Option Resource
  dialerTag : String
  fieldPath : String
deriving DecidableEq, Repr

def resourceID (r : Option Resource) : ID := (r.map Resource.id).getD ""

/-- A tag that is empty, reserved or used before is refused. -/
def checkTags (targetKey : String) : List String → List OutboundRef →
    Except (List Diagnostic) Unit
  | _, [] => .ok ()
  | seen, ref :: refs =>
    if ref.tag = "" ∨ isReservedTag ref.tag = true ∨ ref.tag ∈ seen then
      .error [compileIssue .compileLabelCollision ref.fieldPath targetKey (resourceID ref.resource)]
    else checkTags targetKey (ref.tag :: seen) refs

namespace EmitInput

variable (input : EmitInput)

/-- The outbounds of nodes and of the hops of chains. -/
def allRefs : List OutboundRef :=
  input.independents.zipIdx.map (fun (o, i) =>
    ⟨o.tag, .independent, some o.resource, "", "/independents/" ++ toString i⟩) ++
  input.chains.zipIdx.flatMap fun (c, i) =>
    let base := "/chains/" ++ toString i
    [⟨c.tagH1, .chainH1, c.hop1, "", base ++ "/h1"⟩,
      ⟨c.tagH2, .chainH2, c.hop2, c.tagH1, base ++ "/h2"⟩]

def outboundRefs : Except (List Diagnostic) (List OutboundRef) :=
  if maxOutbounds < input.independents.length + 2 * input.chains.length then
    .error [compileIssue .inputLimitExceeded "/outbounds" input.targetKey ""]
  else (checkTags input.targetKey [] input.allRefs).map fun _ => input.allRefs

/-- The exit comes first, the others follow by tag. -/
def orderedOutboundRefs : Except (List Diagnostic) (String × List OutboundRef) := do
  let exit ← input.exitTag
  let refs ← input.outboundRefs
  let first := (refs.filter fun ref => ref.tag = exit).getLast?
  let rest := (refs.filter fun ref => ref.tag ≠ exit).insertionSort fun a b => a.tag ≤ b.tag
  if first = none ∧ exit ≠ input.finalTag ∧ input.policies = [] then
    .error [compileIssue .invalidSnapshot "/members" input.targetKey ""]
  else .ok (exit, first.toList ++ rest)

end EmitInput

/-! ## Nodes -/

/-- A node in the terms of the cores. -/
structure MappedNode where
  node : Node
  password : Secret
  username : Secret
  uuid : Secret
  cipher : String
  flow : String
  ws : Option (String × Option String)
  tls : Option TLSSecurity
  reality : Option RealitySecurity
deriving DecidableEq, Repr

def mapAuth (m : MappedNode) : Authentication → MappedNode
  | .methodPassword method password => { m with password, cipher := method.text }
  | .vmess uuid cipher => { m with uuid, cipher := cipher.text }
  | .uuid uuid => { m with uuid }
  | .password password => { m with password }
  | .usernamePassword username password => { m with username, password }
  | .noAuth => m

def mapTransport (m : MappedNode) : Transport → MappedNode
  | .nativeTCP => m
  | .webSocket path host => { m with ws := some (path, host) }

def mapSecurity (m : MappedNode) : Security → MappedNode
  | .noSecurity => m
  | .tls t => { m with tls := some t }
  | .reality r => { m with reality := some r }

def mappedNode (n : Node) : MappedNode :=
  let m : MappedNode := ⟨n, "", "", "", "", "", none, none, none⟩
  { mapSecurity (mapTransport (mapAuth m n.auth) n.transport) n.security with
    flow := (n.features.protocolVariant.map ProtocolVariant.text).getD "" }

/-- The node of an outbound, if every field can be emitted. -/
def mapNode (lib : Libraries) (resource : Option Resource) (path target : String) :
    Except (List Diagnostic) MappedNode :=
  let fail := fun suffix =>
    Except.error [compileIssue .compileUnmappedField (path ++ suffix) target (resourceID resource)]
  match resource.map Resource.payload with
  | some (.node n) =>
    if n.validate lib.formats = false then
      .error ((lib.reportNode n).map fun d =>
        { d with
          fieldPath := path ++ d.fieldPath
          targetKey := target
          resourceID := resourceID resource })
    else if n.features.udp = some true then fail "/features/udp"
    else if n.features.multiplex = some true then fail "/features/multiplex"
    else .ok (mappedNode n)
  | _ => fail ""

def needsBootstrap (lib : Libraries) (n : Node) : Bool := !lib.isAddr n.endpoint.host

def refNeedsBootstrap (lib : Libraries) (ref : OutboundRef) : Bool :=
  match ref.resource.map Resource.payload with
  | some (.node n) => needsBootstrap lib n
  | _ => false

/-! ## Tags of the outbounds -/

section
variable {key : String} {seen : List String} {refs : List OutboundRef}

theorem checkTags_eq_ok (h : checkTags key seen refs = .ok ()) :
    (∀ ref ∈ refs, ref.tag ≠ "" ∧ isReservedTag ref.tag = false ∧ ref.tag ∉ seen) ∧
      (refs.map OutboundRef.tag).Nodup := by
  induction refs generalizing seen with
  | nil => simp
  | cons ref refs ih =>
    rw [checkTags, ite_error_eq_ok_iff] at h
    obtain ⟨hok, h⟩ := h
    push Not at hok
    obtain ⟨hrefs, hnodup⟩ := ih h
    refine ⟨?_, ?_⟩
    · intro ref' href'
      obtain rfl | href' := mem_cons.mp href'
      · exact ⟨hok.1, by simpa using hok.2.1, hok.2.2⟩
      · obtain ⟨hne, hres, hseen⟩ := hrefs ref' href'
        exact ⟨hne, hres, fun hmem => hseen (mem_cons_of_mem _ hmem)⟩
    · rw [map_cons, nodup_cons]
      refine ⟨fun hmem => ?_, hnodup⟩
      obtain ⟨ref', href', htag⟩ := mem_map.mp hmem
      exact (hrefs ref' href').2.2 (htag ▸ mem_cons_self)

end

namespace EmitInput

variable {input : EmitInput} {refs : List OutboundRef} {exit : String}

/-- The tags of the outbounds are not empty, not reserved, and all different. -/
theorem outboundRefs_eq_ok (h : input.outboundRefs = .ok refs) :
    refs = input.allRefs ∧
      (∀ ref ∈ refs, ref.tag ≠ "" ∧ isReservedTag ref.tag = false) ∧
      (refs.map OutboundRef.tag).Nodup := by
  unfold outboundRefs at h
  obtain ⟨-, h⟩ := of_ite h
  obtain ⟨⟨⟩, hcheck, rfl⟩ := of_map h
  obtain ⟨hrefs, hnodup⟩ := checkTags_eq_ok hcheck
  exact ⟨rfl, fun ref href => ⟨(hrefs ref href).1, (hrefs ref href).2.1⟩, hnodup⟩

theorem orderedOutboundRefs_eq_ok (h : input.orderedOutboundRefs = .ok (exit, refs)) :
    input.exitTag = .ok exit ∧ ∃ all, input.outboundRefs = .ok all ∧
      refs = ((all.filter fun ref => ref.tag = exit).getLast?).toList ++
        (all.filter fun ref => ref.tag ≠ exit).insertionSort fun a b => a.tag ≤ b.tag := by
  unfold orderedOutboundRefs at h
  obtain ⟨e, he, h⟩ := of_bind h
  obtain ⟨all, hall, h⟩ := of_bind h
  obtain ⟨-, h⟩ := of_ite h
  simp only [Except.ok.injEq, Prod.mk.injEq] at h
  obtain ⟨rfl, rfl⟩ := h
  exact ⟨he, all, hall, rfl⟩

theorem filter_tag_eq {all : List OutboundRef} (h : (all.map OutboundRef.tag).Nodup)
    (tag : String) : ((all.filter fun ref => ref.tag = tag).getLast?).toList =
      all.filter fun ref => ref.tag = tag := by
  induction all with
  | nil => rfl
  | cons ref all ih =>
    rw [map_cons, nodup_cons] at h
    by_cases htag : ref.tag = tag
    · have hnone : all.filter (fun ref => ref.tag = tag) = [] := by
        rw [filter_eq_nil_iff]
        intro ref' href' heq
        have htag' : ref'.tag = tag := by simpa using heq
        exact h.1 (mem_map.mpr ⟨ref', href', htag'.trans htag.symm⟩)
      rw [filter_cons_of_pos (by simpa using htag), hnone]
      rfl
    · rw [filter_cons_of_neg (by simpa using htag)]
      exact ih h.2

/-- Ordering the outbounds loses none. -/
theorem orderedOutboundRefs_perm (h : input.orderedOutboundRefs = .ok (exit, refs)) :
    refs.Perm input.allRefs := by
  obtain ⟨-, all, hall, rfl⟩ := orderedOutboundRefs_eq_ok h
  obtain ⟨rfl, -, hnodup⟩ := outboundRefs_eq_ok hall
  rw [filter_tag_eq hnodup]
  refine (List.Perm.append_left _ (perm_insertionSort _ _)).trans ?_
  have hneg : (input.allRefs.filter fun ref => ref.tag ≠ exit) =
      input.allRefs.filter fun ref => !decide (ref.tag = exit) := by
    simp
  rw [hneg]
  exact filter_append_perm _ _

end EmitInput

end ProxyLoom.Adapter
