import TargetDiscovery.Json.Reader
import TargetDiscovery.Registry.State

/-!
# Reading the answer of a registry

The body is a JSON object with an unsigned version and a list of records. It is refused only when
it is no such document, and a fault of the reader ends the fetch with a fault. An entry
of the list is read by itself: what is missing or of another kind is empty, and an entry that cannot
be read field by field is marked as malformed.
-/

set_option autoImplicit false

namespace TargetDiscovery

inductive ResponseError
  | json (report : Bytes)
  | notObject
  | noVersion
  | recordsKind
  deriving DecidableEq, Repr

namespace ResponseError

def message : ResponseError → Bytes
  | json report => ascii "invalid JSON: " ++ report
  | notObject => ascii "response is not a JSON object"
  | noVersion => ascii "response has no unsigned version"
  | recordsKind => ascii "records is not an array"

def toFetchError (e : ResponseError) : FetchError := ⟨.protocol, e.message⟩

end ResponseError

namespace NodeRecord

def textMember (name : Bytes) (entry : Json) : Bytes :=
  match entry.member? name with
  | some v => v.string?.getD []
  | none => []

def unreadable : NodeRecord := ⟨[], [], [], [], SortedMap.empty, true⟩

def featureMembers (entry : Json) : Dict Json :=
  match entry.member? (ascii "features") with
  | some v => v.memberDict
  | none => SortedMap.empty

def isText (v : Json) : Bool := v.string?.isSome

def ofJson (entry : Json) : NodeRecord :=
  if entry.isObject then
    { nodeId := textMember (ascii "node_id") entry
      address := textMember (ascii "address") entry
      subnet := textMember (ascii "subnet_id") entry
      role := textMember (ascii "role") entry
      features := (featureMembers entry).filterMap Json.string?
      malformed := (featureMembers entry).entries.any fun e => !isText e.2 }
  else unreadable

end NodeRecord

namespace RegistryState

/-- The entries of a document's list; a missing list or a null one is empty. -/
def entries? (document : Json) : Option (List Json) :=
  match document.member? (ascii "records") with
  | none => some []
  | some .null => some []
  | some (.array items) => some items
  | some _ => none

def ofDocument (document : Json) : Except ResponseError (UInt64 × List NodeRecord) :=
  if document.isObject then
    match (document.member? (ascii "version")).bind Json.word64? with
    | none => .error .noVersion
    | some version =>
      match entries? document with
      | none => .error .recordsKind
      | some items => .ok (version, items.map NodeRecord.ofJson)
  else .error .notObject

def ofResponse [Json.Reader] (body : Bytes) (certificate : Option Bytes) :
    Except Fault (Except ResponseError RegistryState) :=
  match Json.Reader.read false body with
  | .error (.thrown fault) => .error fault
  | .error (.malformed report) => .ok (.error (.json report))
  | .ok document =>
    match ofDocument document with
    | .error e => .ok (.error e)
    | .ok (version, records) => .ok (.ok ⟨version, records, body, certificate⟩)

/-- A state takes its version and its records from the body, and keeps body and certificate. -/
theorem ofResponse_eq_ok_iff_read [Json.Reader] {body : Bytes} {certificate : Option Bytes}
    {s : RegistryState} :
    ofResponse body certificate = .ok (.ok s) ↔ s.payload = body ∧ s.certificate = certificate ∧
      ∃ document, Json.Reader.read false body = .ok document ∧
        ofDocument document = .ok (s.version, s.records) := by
  constructor
  · intro h
    unfold ofResponse at h
    split at h
    · cases h
    · cases h
    · rename_i document hread
      split at h
      · cases h
      · rename_i version records hdocument
        cases h
        exact ⟨rfl, rfl, document, hread, hdocument⟩
  · rintro ⟨rfl, rfl, document, hread, hdocument⟩
    simp only [ofResponse, hread, hdocument]

end RegistryState

def FetchResult.ofResponse [Json.Reader] (body : Bytes) (certificate : Option Bytes) :
    FetchResult :=
  (RegistryState.ofResponse body certificate).map (Except.mapError ResponseError.toFetchError)

theorem FetchResult.ofResponse_eq_ok [Json.Reader] {body : Bytes} {certificate : Option Bytes}
    {s : RegistryState} : FetchResult.ofResponse body certificate = .ok (.ok s) ↔
      RegistryState.ofResponse body certificate = .ok (.ok s) := by
  rw [FetchResult.ofResponse]
  rcases RegistryState.ofResponse body certificate with f | e | state
  · exact iff_of_false nofun nofun
  · exact iff_of_false nofun nofun
  · show (Except.ok (Except.ok state) : FetchResult) = .ok (.ok s) ↔ _
    simp only [Except.ok.injEq]

end TargetDiscovery
