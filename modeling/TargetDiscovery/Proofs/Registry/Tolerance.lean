import Mathlib.Data.List.Forall2
import TargetDiscovery.Registry.Response
import TargetDiscovery.Proofs.Json.Depth
import TargetDiscovery.Proofs.Json.Members

/-!
# What a registry's answer is read as

An answer is accepted for its shape alone: an object with a version, and a list of entries if there
is one. Each entry is a record by itself, whatever else is on the list, so a wrong entry costs its
own record and no other. The one thing that an entry can do to the others is to be nested deeper
than any document may be: then the answer is not even refused, but the fault of the reader leaves
the reading of it. All this holds for any reader of documents.
-/

set_option autoImplicit false

namespace TargetDiscovery

namespace Json

theorem member?_of_other {v : Json} (h : v.isObject = false) (name : Bytes) :
    v.member? name = none := by
  cases v with
  | object => cases h
  | _ => rfl

theorem word64?_eq_some {v : Json} {n : UInt64} : v.word64? = some n ↔ v.IsNat n.toNat := by
  simp only [word64?, Option.map_eq_some_iff, natBelow?_eq_some]
  constructor
  · rintro ⟨k, ⟨hk, hlt⟩, rfl⟩
    have hk' : k.toUInt64.toNat = k := UInt64.toNat_ofNat_of_lt' hlt
    rwa [hk']
  · exact fun h => ⟨n.toNat, ⟨h, n.toNat_lt⟩, UInt64.ofNat_toNat⟩

end Json

/-! ## Entries -/

/-- What an entry says under a name: the string, and nothing where there is no string. -/
inductive IsTextMember (entry : Json) (name : Bytes) : Bytes → Prop
  | given {s : Bytes} (h : entry.member? name = some (.string s)) : IsTextMember entry name s
  | missing (h : ∀ s, entry.member? name ≠ some (.string s)) : IsTextMember entry name []

/-- A member of the features of an entry, if these are an object. -/
def Json.HasFeature (entry : Json) (name : Bytes) (v : Json) : Prop :=
  ∃ features, entry.member? (ascii "features") = some features ∧ features.member? name = some v

structure IsRecord (entry : Json) (r : NodeRecord) : Prop where
  nodeId : IsTextMember entry (ascii "node_id") r.nodeId
  address : IsTextMember entry (ascii "address") r.address
  subnet : IsTextMember entry (ascii "subnet_id") r.subnet
  role : IsTextMember entry (ascii "role") r.role
  features : ∀ name s, r.features.get? name = some s ↔ entry.HasFeature name (.string s)
  malformed : r.malformed = true ↔
    entry.isObject = false ∨ ∃ name v, entry.HasFeature name v ∧ ∀ s, v ≠ .string s

namespace NodeRecord

variable {entry : Json} {name : Bytes}

theorem textMember_eq_iff {s : Bytes} : textMember name entry = s ↔ IsTextMember entry name s := by
  constructor
  · rintro rfl
    unfold textMember
    split
    · rename_i v hv
      cases v with
      | string s => exact .given hv
      | _ => exact .missing fun s h => nomatch hv.symm.trans h
    · rename_i hnone
      exact .missing fun s h => nomatch hnone.symm.trans h
  · intro h
    cases h with
    | given h => simp only [textMember, h, Json.string?, Option.getD_some]
    | missing h =>
      unfold textMember
      split
      · rename_i v hv
        cases v with
        | string s => exact absurd hv (h s)
        | _ => rfl
      · rfl

theorem get?_featureMembers {v : Json} :
    (featureMembers entry).get? name = some v ↔ entry.HasFeature name v := by
  unfold featureMembers Json.HasFeature
  cases entry.member? (ascii "features") with
  | none => simp
  | some features => simp [Json.get?_memberDict]

theorem isText_eq_false_iff {v : Json} : isText v = false ↔ ∀ s, v ≠ .string s := by
  simp [isText, ← Json.string?_eq_some, Option.eq_none_iff_forall_ne_some]

theorem isRecord_unreadable (h : entry.isObject = false) : IsRecord entry unreadable := by
  have hmember := Json.member?_of_other h
  have htext : ∀ name, IsTextMember entry name [] := fun name =>
    .missing fun s hs => nomatch (hmember name).symm.trans hs
  refine ⟨htext _, htext _, htext _, htext _, fun name s => ?_, fun _ => .inl h, fun _ => rfl⟩
  constructor
  · exact nofun
  · exact fun ⟨_, hfeatures, _⟩ => nomatch (hmember _).symm.trans hfeatures

theorem isRecord_ofJson (entry : Json) : IsRecord entry (ofJson entry) := by
  unfold ofJson
  split
  · rename_i hobject
    constructor
    case nodeId | address | subnet | role => exact textMember_eq_iff.mp rfl
    case features =>
      intro name s
      simp only [SortedMap.get?_filterMap, get?_featureMembers, Json.string?_eq_some,
        exists_eq_right]
    case malformed =>
      simp only [List.any_eq_true, Prod.exists, SortedMap.mem_entries, get?_featureMembers,
        Bool.not_eq_true', isText_eq_false_iff, hobject, reduceCtorEq, false_or]
  · rename_i hother
    exact isRecord_unreadable (Bool.eq_false_iff.mpr hother)

end NodeRecord

theorem IsTextMember.unique {entry : Json} {name s t : Bytes} (hs : IsTextMember entry name s)
    (ht : IsTextMember entry name t) : s = t :=
  (NodeRecord.textMember_eq_iff.mpr hs).symm.trans (NodeRecord.textMember_eq_iff.mpr ht)

/-- An entry alone says what its record is. -/
theorem IsRecord.unique {entry : Json} {r s : NodeRecord} (hr : IsRecord entry r)
    (hs : IsRecord entry s) : r = s := by
  have hfeatures : r.features = s.features :=
    SortedMap.ext_get? fun name => Option.ext fun text => by rw [hr.features, hs.features]
  have hmalformed : r.malformed = s.malformed :=
    Bool.eq_iff_iff.mpr (hr.malformed.trans hs.malformed.symm)
  cases r
  cases s
  rw [NodeRecord.mk.injEq]
  exact ⟨hr.nodeId.unique hs.nodeId, hr.address.unique hs.address, hr.subnet.unique hs.subnet,
    hr.role.unique hs.role, hfeatures, hmalformed⟩

theorem forall₂_isRecord_iff {entries : List Json} {records : List NodeRecord} :
    List.Forall₂ IsRecord entries records ↔ entries.map NodeRecord.ofJson = records := by
  rw [← List.forall₂_eq_eq_eq, List.forall₂_map_left_iff]
  constructor
  · exact fun h => h.imp fun entry _ hr => (NodeRecord.isRecord_ofJson entry).unique hr
  · refine fun h => h.imp fun entry _ hr => ?_
    rw [← hr]
    exact NodeRecord.isRecord_ofJson entry

/-! ## Documents -/

/-- The entries that a document lists; it may have no list, or a null for it. -/
inductive HasEntries (document : Json) : List Json → Prop
  | absent (h : document.member? (ascii "records") = none) : HasEntries document []
  | null (h : document.member? (ascii "records") = some .null) : HasEntries document []
  | array {entries : List Json} (h : document.member? (ascii "records") = some (.array entries)) :
    HasEntries document entries

structure States (document : Json) (version : UInt64) (entries : List Json) : Prop where
  object : document.isObject = true
  version : ∃ v, document.member? (ascii "version") = some v ∧ v.IsNat version.toNat
  entries : HasEntries document entries

/-- A body denotes a document that states a version and entries, and nothing in it stands too
deep. -/
def Holds (Denotes : Bytes → Json → Prop) (body : Bytes) (version : UInt64)
    (entries : List Json) : Prop :=
  ∃ document, Denotes body document ∧ document.depth ≤ 1000 ∧ States document version entries

/-- A document with a list of entries among its members; what comes behind it has another name. -/
def Json.withRecords (before after : List (Bytes × Json)) (entries : List Json) : Json :=
  .object (before ++ (ascii "records", .array entries) :: after)

/-- Two bodies differ in what they have on their lists in one place, and no entry that is put there
is so deep that its document is too deep by it. -/
structure Revises (Denotes : Bytes → Json → Prop) (front middle middle' back : List Json)
    (body body' : Bytes) : Prop where
  texts : ∃ before after, (∀ m ∈ after, m.1 ≠ ascii "records") ∧
    Denotes body (.withRecords before after (front ++ middle ++ back)) ∧
    Denotes body' (.withRecords before after (front ++ middle' ++ back))
  depth : ∀ entry ∈ middle', entry.depth ≤ 998

namespace RegistryState

variable {document : Json} {version : UInt64} {entries : List Json} {records : List NodeRecord}

theorem entries?_eq_some : entries? document = some entries ↔ HasEntries document entries := by
  constructor
  · intro h
    unfold entries? at h
    split at h
    · cases h
      exact .absent ‹_›
    · cases h
      exact .null ‹_›
    · cases h
      exact .array ‹_›
    · cases h
  · intro h
    cases h with
    | absent h | null h | array h => simp only [entries?, h]

theorem ofDocument_eq_ok : ofDocument document = .ok (version, records) ↔
    ∃ entries, States document version entries ∧ List.Forall₂ IsRecord entries records := by
  constructor
  · intro h
    unfold ofDocument at h
    split at h
    · rename_i hobject
      split at h
      · cases h
      · rename_i n hversion
        split at h
        · cases h
        · rename_i entries hentries
          cases h
          obtain ⟨v, hv, hn⟩ := Option.bind_eq_some_iff.mp hversion
          exact ⟨entries, ⟨hobject, ⟨v, hv, Json.word64?_eq_some.mp hn⟩,
            entries?_eq_some.mp hentries⟩, forall₂_isRecord_iff.mpr rfl⟩
    · cases h
  · rintro ⟨entries, ⟨hobject, ⟨v, hv, hn⟩, hentries⟩, hrecords⟩
    have hversion : (document.member? (ascii "version")).bind Json.word64? = some version :=
      Option.bind_eq_some_iff.mpr ⟨v, hv, Json.word64?_eq_some.mpr hn⟩
    simp only [ofDocument, hobject, ↓reduceIte, hversion, entries?_eq_some.mpr hentries,
      forall₂_isRecord_iff.mp hrecords]

variable [Json.Reader] {Denotes : Bytes → Json → Prop} {body : Bytes} {certificate : Option Bytes}

theorem ofResponse_eq_ok (hreader : Json.Reader.Follows Denotes) {s : RegistryState} :
    ofResponse body certificate = .ok (.ok s) ↔
      ∃ entries, Holds Denotes body s.version entries ∧ List.Forall₂ IsRecord entries s.records ∧
        s.payload = body ∧ s.certificate = certificate := by
  rw [ofResponse_eq_ok_iff_read]
  constructor
  · rintro ⟨hpayload, hcertificate, document, hread, hdocument⟩
    obtain ⟨htext, hdepth⟩ := hreader.read_false.mp hread
    obtain ⟨entries, hstates, hrecords⟩ := ofDocument_eq_ok.mp hdocument
    exact ⟨entries, ⟨document, htext, hdepth, hstates⟩, hrecords, hpayload, hcertificate⟩
  · rintro ⟨entries, ⟨document, htext, hdepth, hstates⟩, hrecords, hpayload, hcertificate⟩
    exact ⟨hpayload, hcertificate, document, hreader.read_false.mpr ⟨htext, hdepth⟩,
      ofDocument_eq_ok.mpr ⟨entries, hstates, hrecords⟩⟩

/-- A body that is nested too deeply is not refused: the fault of the reader is passed on. -/
theorem ofResponse_tooDeep (hreader : Json.Reader.Follows Denotes)
    (hdocument : Denotes body document) (hdepth : 1000 < document.depth) :
    ofResponse body certificate = .error Json.depthFault := by
  have hstrict : false = true → document.distinctNames = true :=
    fun h => absurd h Bool.false_ne_true
  rw [ofResponse, hreader.tooDeep false body document hdocument hdepth hstrict]

end RegistryState

/-! ## Revisions -/

theorem HasEntries.unique {document : Json} {entries entries' : List Json}
    (h : HasEntries document entries) (h' : HasEntries document entries') : entries = entries' :=
  Option.some.inj ((RegistryState.entries?_eq_some.mpr h).symm.trans
    (RegistryState.entries?_eq_some.mpr h'))

section Revisions

variable {before after : List (Bytes × Json)} {entries entries' : List Json}

theorem hasEntries_withRecords (h : ∀ m ∈ after, m.1 ≠ ascii "records") :
    HasEntries (.withRecords before after entries) entries := by
  refine .array ?_
  rw [Json.withRecords, Json.member?, Json.lastMember_append, Json.lastMember,
    Json.lastMember_eq_none h]
  simp only [↓reduceIte, Option.some_or]

theorem Json.member?_withRecords {name : Bytes} (h : name ≠ ascii "records") :
    (withRecords before after entries').member? name =
      (withRecords before after entries).member? name := by
  simp only [withRecords, member?, lastMember_append, lastMember, h.symm, ↓reduceIte]

theorem Json.depth_withRecords_le {n : Nat} :
    (withRecords before after entries).depth ≤ n + 2 ↔
      (∀ m ∈ before, m.2.depth ≤ n + 1) ∧ (∀ entry ∈ entries, entry.depth ≤ n) ∧
        ∀ m ∈ after, m.2.depth ≤ n + 1 := by
  rw [withRecords, depth, Nat.add_le_add_iff_right, membersDepth_le_iff, List.forall_mem_append,
    List.forall_mem_cons, depth, Nat.add_le_add_iff_right, itemsDepth_le_iff]

end Revisions

/-- A revision has its entries where the body had others, and states the same version. -/
theorem Revises.holds [Json.Reader] {Denotes : Bytes → Json → Prop}
    (hreader : Json.Reader.Follows Denotes) {front middle middle' back entries : List Json}
    {body body' : Bytes} {version : UInt64}
    (h : Revises Denotes front middle middle' back body body')
    (hbody : Holds Denotes body version entries) :
    entries = front ++ middle ++ back ∧
      Holds Denotes body' version (front ++ middle' ++ back) := by
  obtain ⟨before, after, hafter, htext, htext'⟩ := h.texts
  obtain ⟨document, hdocument, hdepth, hstates⟩ := hbody
  obtain rfl := hreader.unique hdocument hdepth htext
  have hentries := hstates.entries.unique (hasEntries_withRecords hafter)
  refine ⟨hentries, _, htext', ?_, rfl, ?_, hasEntries_withRecords hafter⟩
  · obtain ⟨hbefore, hlist, hafter⟩ := Json.depth_withRecords_le.mp hdepth
    rw [List.forall_mem_append, List.forall_mem_append] at hlist
    obtain ⟨⟨hfront, -⟩, hback⟩ := hlist
    refine Json.depth_withRecords_le.mpr ⟨hbefore, ?_, hafter⟩
    rw [List.forall_mem_append, List.forall_mem_append]
    exact ⟨⟨hfront, h.depth⟩, hback⟩
  · rw [Json.member?_withRecords (by decide)]
    exact hstates.version

namespace RegistryState

/-- What is read of a body, and what becomes of it when the body is revised. -/
structure Tolerates [Json.Reader] (Denotes : Bytes → Json → Prop) (body : Bytes)
    (certificate : Option Bytes) : Prop where
  accepted : (∃ s, ofResponse body certificate = .ok (.ok s)) ↔
    ∃ version entries, Holds Denotes body version entries
  read : ∀ s, ofResponse body certificate = .ok (.ok s) ↔
    ∃ entries, Holds Denotes body s.version entries ∧ List.Forall₂ IsRecord entries s.records ∧
      s.payload = body ∧ s.certificate = certificate
  others : ∀ front middle middle' back body' certificate' s,
    Revises Denotes front middle middle' back body body' →
      ofResponse body certificate = .ok (.ok s) →
        ∃ before records records' behind s', ofResponse body' certificate' = .ok (.ok s') ∧
          s'.version = s.version ∧ s.records = before ++ records ++ behind ∧
            s'.records = before ++ records' ++ behind ∧ List.Forall₂ IsRecord front before ∧
              List.Forall₂ IsRecord middle' records' ∧ List.Forall₂ IsRecord back behind
  tooDeep : ∀ document, Denotes body document → 1000 < document.depth →
    ofResponse body certificate = .error Json.depthFault

/-- An answer is accepted exactly if it is a document with a version and a list, its records are
those of the entries one by one, and to put other entries on the list changes no other record. What
is nested too deeply ends all this in a fault. -/
theorem tolerated [Json.Reader] {Denotes : Bytes → Json → Prop}
    (hreader : Json.Reader.Follows Denotes) (body : Bytes) (certificate : Option Bytes) :
    Tolerates Denotes body certificate := by
  have hmade : ∀ entries, List.Forall₂ IsRecord entries (entries.map NodeRecord.ofJson) :=
    fun _ => forall₂_isRecord_iff.mpr rfl
  constructor
  case accepted =>
    constructor
    · rintro ⟨s, hs⟩
      obtain ⟨entries, hbody, _⟩ := (ofResponse_eq_ok hreader).mp hs
      exact ⟨s.version, entries, hbody⟩
    · rintro ⟨version, entries, hbody⟩
      exact ⟨⟨version, _, body, certificate⟩,
        (ofResponse_eq_ok hreader).mpr ⟨entries, hbody, hmade entries, rfl, rfl⟩⟩
  case read => exact fun _ => ofResponse_eq_ok hreader
  case others =>
    intro front middle middle' back body' certificate' s hrevises hs
    obtain ⟨entries, hbody, hrecords, -, -⟩ := (ofResponse_eq_ok hreader).mp hs
    obtain ⟨rfl, hbody'⟩ := hrevises.holds hreader hbody
    have hs' := (ofResponse_eq_ok hreader (s := ⟨s.version, _, body', certificate'⟩)).mpr
      ⟨_, hbody', hmade _, rfl, rfl⟩
    refine ⟨_, middle.map NodeRecord.ofJson, _, _, _, hs', rfl, ?_, ?_, hmade front, hmade middle',
      hmade back⟩
    · rw [← forall₂_isRecord_iff.mp hrecords, List.map_append, List.map_append]
    · rw [List.map_append, List.map_append]
  case tooDeep => exact fun _ => ofResponse_tooDeep hreader

/-- Two entries: one that is no object, and one with a feature that is no string. -/
def faultyBody : Bytes :=
  ascii "\x7b\"version\":3,\"records\":[7," ++
    ascii "\x7b\"node_id\":\"n1\",\"features\":\x7b\"a\":\"x\",\"b\":1\x7d\x7d]\x7d"

/-- The identifiers of the nodes in an answer, and whether their records are malformed. -/
def marks : Except Fault (Except ResponseError RegistryState) → List (Bytes × Bool)
  | .ok (.ok s) => s.records.map fun r => (r.nodeId, r.malformed)
  | _ => []

theorem tolerated_faulty : Json.plain.Follows Json.IsTextOf ∧
    marks (ofResponse faultyBody none) = [([], true), (ascii "n1", true)] ∧
      Tolerates Json.IsTextOf faultyBody none :=
  ⟨Json.follows_plain, by decide +kernel, tolerated Json.follows_plain faultyBody none⟩

/-- One entry: a thousand arrays in one another. -/
def nestedBody : Bytes :=
  ascii "\x7b\"version\":1,\"records\":[" ++ List.replicate 1000 (byte '[') ++
    List.replicate 1000 (byte ']') ++ ascii "]\x7d"

/-- Whether a document was read to its end that has a version and a list of one entry. -/
def isAnswer : Json.Reading Json → Bool
  | .ok (document, rest) =>
    rest = [] ∧ (ofDocument document).toOption.any fun r => r.1 = 1 ∧ r.2.length = 1
  | .error _ => false

/-- An entry that stands too deep keeps the whole answer from being read. -/
theorem nested_not_read :
    (∃ document entry, Json.IsTextOf nestedBody document ∧ States document 1 [entry]) ∧
      ¬ ∃ s, ofResponse nestedBody none = .ok (.ok s) := by
  constructor
  · have hread : isAnswer (Json.readValue false 6000 1003 nestedBody) = true := by decide +kernel
    unfold isAnswer at hread
    split at hread
    · rename_i document rest hvalue
      obtain ⟨rfl, hanswer⟩ := of_decide_eq_true hread
      obtain ⟨hreads, -⟩ :=
        Json.sound false 6000 (p := .value document) hvalue (Json.isSome_unseen false)
      cases hdocument : ofDocument document with
      | error x => rw [hdocument] at hanswer; cases hanswer
      | ok r =>
        obtain ⟨version, records⟩ := r
        rw [hdocument] at hanswer
        obtain ⟨hversion, hrecords⟩ := of_decide_eq_true hanswer
        obtain ⟨entries, hstates, hmade⟩ := ofDocument_eq_ok.mp hdocument
        obtain ⟨entry, rfl⟩ := List.length_eq_one_iff.mp (hmade.length_eq.trans hrecords)
        obtain rfl : version = 1 := hversion
        exact ⟨document, entry, ⟨[], hreads, rfl⟩, hstates⟩
    · cases hread
  · rintro ⟨s, h⟩
    have hanswer : (ofResponse nestedBody none).isOk = false := by decide +kernel
    rw [h] at hanswer
    cases hanswer

end RegistryState

end TargetDiscovery
