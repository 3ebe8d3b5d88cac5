import ProxyLoom.IR.Node

/-!
# Origin matching

An upstream entry is matched to the nodes that exist: by its external key, by the item that a node
is bound to, by the fingerprint of the connection, and at last by name or endpoint. Only the first
two identify a node; the others ask for a confirmation.
-/

namespace ProxyLoom.Origin

open IR

inductive Method where
  | stableExternalKey | manualBinding | exactFingerprint | suggestion
deriving DecidableEq, Repr

inductive Kind where
  | identity | duplicate | suggest
deriving DecidableEq, Repr

structure Item where
  sourceItemID : ID
  externalKey : String
  fingerprint : String
  name : String
  protocol : Protocol
  host : String
  port : ℕ
deriving DecidableEq, Repr

/-- A node that exists, with the item it is bound to and the key of that item. -/
structure Record where
  nodeID : ID
  revision : ℕ
  boundSourceItemID : ID
  externalKey : String
  fingerprint : String
  name : String
  protocol : Protocol
  host : String
  port : ℕ
deriving DecidableEq, Repr

/-- A decision between several nodes names none of them. -/
structure Decision where
  kind : Kind
  method : Method
  nodeID : ID
  revision : ℕ
  ambiguous : Bool
deriving DecidableEq, Repr

def collect (records : List Record) (keep : Record → Bool) (kind : Kind) (method : Method) :
    Option Decision :=
  match records.filter keep with
  | [] => none
  | hit :: hits =>
    if 1 < ((hit :: hits).map Record.nodeID).dedup.length then some ⟨kind, method, "", 0, true⟩
    else some ⟨kind, method, hit.nodeID, hit.revision, false⟩

def sameEndpoint (item : Item) (record : Record) : Bool :=
  record.protocol = item.protocol && record.host = item.host && record.port = item.port &&
    item.host ≠ "" && 0 < item.port

def sameName (item : Item) (record : Record) : Bool :=
  item.name ≠ "" && record.name = item.name && record.protocol = item.protocol

def byKey (item : Item) (records : List Record) : Option Decision :=
  if item.externalKey = "" then none
  else collect records (fun r => r.externalKey = item.externalKey) .identity .stableExternalKey

def byBinding (item : Item) (records : List Record) : Option Decision :=
  if item.sourceItemID = "" then none
  else collect records (fun r => r.boundSourceItemID = item.sourceItemID) .identity .manualBinding

def byFingerprint (item : Item) (records : List Record) : Option Decision :=
  if item.fingerprint = "" then none
  else collect records (fun r => r.fingerprint = item.fingerprint) .duplicate .exactFingerprint

def bySuggestion (item : Item) (records : List Record) : Option Decision :=
  collect records (fun r => !(item.fingerprint ≠ "" && r.fingerprint = item.fingerprint) &&
    (sameEndpoint item r || sameName item r)) .suggest .suggestion

def matchRecords (item : Item) (records : List Record) : Option Decision :=
  (((byKey item records).or (byBinding item records)).or (byFingerprint item records)).or
    (bySuggestion item records)

/-- The entry needs a confirmation before a node is written for it. -/
def Decision.unsure (d : Decision) : Bool := d.kind ≠ .identity || d.ambiguous

end ProxyLoom.Origin
