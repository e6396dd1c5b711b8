import Mathlib.Logic.Basic
import TargetDiscovery.Proofs.Config.Described
import TargetDiscovery.Proofs.Json.Depth

/-!
# Which configurations are accepted

A text is accepted exactly if it is one of a document that is not too deep, has no name twice in an
object, and is right in each of its sections. What is right is said without a configuration: of a
timing, that there is one over what it is layered on, and of an instance, that it either names a
key or says that it is insecure. Which texts are documents is up to the reader; from those that are
too deep its fault comes instead of a refusal.
-/

set_option autoImplicit false

namespace TargetDiscovery

/-! ## Sections -/

structure AcceptableListen (v : Json) : Prop where
  object : v.isObject = true
  address : v.IfPresent (ascii "address") fun w => ∃ address, w = .string address
  port : v.IfPresent (ascii "port") fun w => ∃ n, w.IsNat n ∧ n ≤ 65535

structure AcceptableSupervisor (v : Json) : Prop where
  object : v.isObject = true
  limit : v.IfPresent (ascii "max_restarts") fun w => ∃ n, w.IsNat n ∧ n ≤ 4294967295
  backoff : ∃ base max, v.Given (ascii "restart_backoff_ms") 1000 IsDuration base ∧
    v.Given (ascii "restart_backoff_max_ms") 30000 IsDuration max ∧ base ≤ max

structure AcceptableJobs (v : Json) : Prop where
  object : v.isObject = true
  jobs : ∀ role w, v.member? role = some w → role ≠ [] ∧ ∃ job, w = .string job ∧ job ≠ []

theorem acceptableListen_iff {v : Json} : AcceptableListen v ↔ ∃ listen, IsListen v listen := by
  constructor
  · intro h
    have haddress : ∃ a, v.Given (ascii "address") Config.standardAddress IsAddress a :=
      Json.exists_given.mpr h.address
    have hport : ∃ n, v.Given (ascii "port") Config.standardPort IsPort n :=
      Json.exists_given.mpr h.port
    obtain ⟨address, haddress⟩ := haddress
    obtain ⟨port, hport⟩ := hport
    exact ⟨(address, port), h.object, haddress, hport⟩
  · rintro ⟨_, h⟩
    exact ⟨h.object, Json.exists_given.mp ⟨_, h.address⟩, Json.exists_given.mp ⟨_, h.port⟩⟩

theorem acceptableSupervisor_iff {v : Json} :
    AcceptableSupervisor v ↔ ∃ restarts, IsRestarts v restarts := by
  constructor
  · intro h
    have hlimit : ∃ n, v.Given (ascii "max_restarts") RestartRule.standard.limit IsLimit n :=
      Json.exists_given.mpr h.limit
    obtain ⟨limit, hlimit⟩ := hlimit
    obtain ⟨base, max, hbase, hmax, hordered⟩ := h.backoff
    exact ⟨⟨limit, base, max, RestartRule.standard.jitter⟩, h.object, hlimit, hbase, hmax, rfl,
      hordered⟩
  · rintro ⟨_, h⟩
    exact ⟨h.object, Json.exists_given.mp ⟨_, h.limit⟩, _, _, h.base, h.max, h.ordered⟩

theorem exists_addJobs (rules : JobRules) {l : List (Bytes × Json)}
    (h : ∀ e ∈ l, ∃ job, IsJob e.1 e.2 job) : ∃ after, Config.addJobs rules l = .ok after := by
  induction l generalizing rules with
  | nil => exact ⟨rules, rfl⟩
  | cons e l ih =>
    obtain ⟨⟨job, hjob⟩, hl⟩ := List.forall_mem_cons.mp h
    rw [Config.addJobs, Config.readJob_eq_ok.mpr hjob]
    exact ih _ hl

theorem acceptableJobs_iff {v : Json} : AcceptableJobs v ↔ ∃ rules, IsRules v rules := by
  constructor
  · intro h
    have hjobs : ∀ e ∈ v.memberDict.entries, ∃ job, IsJob e.1 e.2 job := by
      rintro ⟨role, w⟩ he
      rw [SortedMap.mem_entries, Json.get?_memberDict] at he
      obtain ⟨hrole, job, hvalue, hjob⟩ := h.jobs role w he
      exact ⟨job, hvalue, hrole, hjob⟩
    obtain ⟨rules, hrules⟩ := exists_addJobs JobRules.standard hjobs
    exact ⟨rules, Config.addJobs_memberDict.mp ⟨h.object, hrules⟩⟩
  · rintro ⟨_, h⟩
    refine ⟨h.object, fun role w hw => ?_⟩
    obtain ⟨job, hjob⟩ := h.jobs role w hw
    exact ⟨hjob.role, job, hjob.value, hjob.job⟩

/-! ## Instances -/

section Entries

variable {files : Files} {directory : Bytes} {defaults : Timing} {item : Json}

/-- Of a key and the word that it is insecure, an instance has exactly one; a key is the path of a
file that can be read. -/
structure AcceptableTrust (files : Files) (directory : Bytes) (item : Json) : Prop where
  insecure : item.IfPresent (ascii "insecure") fun v => ∃ b, v = .bool b
  choice : Xor ((item.member? (ascii "public_key_pem")).isSome = true)
    (item.member? (ascii "insecure") = some (.bool true))
  key : item.IfPresent (ascii "public_key_pem") fun v => ∃ key, v = .string key ∧ key ≠ [] ∧
    (files.read? (Path.within directory key)).isSome = true

structure AcceptableEntry (files : Files) (directory : Bytes) (defaults : Timing) (item : Json) :
    Prop where
  object : item.isObject = true
  name : ∃ name, item.member? (ascii "name") = some (.string name) ∧ IsName name
  url : ∃ url endpoint, item.member? (ascii "registry_url") = some (.string url) ∧
    Endpoint.parse url = .ok endpoint
  timing : ∃ t, Layers defaults item t
  trust : AcceptableTrust files directory item

theorem acceptableTrust_iff :
    AcceptableTrust files directory item ↔ ∃ trust, IsTrust files directory item trust := by
  constructor
  · intro h
    rcases h.choice with ⟨hkey, hsecure⟩ | ⟨hinsecure, hkey⟩
    · obtain ⟨v, hv⟩ := Option.isSome_iff_exists.mp hkey
      obtain ⟨key, rfl, hne, hread⟩ := h.key v hv
      obtain ⟨text, htext⟩ := Option.isSome_iff_exists.mp hread
      refine ⟨_, .keyFile (fun w hw => ?_) hv hne htext⟩
      obtain ⟨b, rfl⟩ := h.insecure w hw
      cases b with
      | false => rfl
      | true => exact absurd hw hsecure
    · exact ⟨.insecure, .insecure hinsecure (Option.not_isSome_iff_eq_none.mp hkey)⟩
  · rintro ⟨trust, h⟩
    cases h with
    | insecure hinsecure hkey =>
      constructor
      case insecure => exact fun v hv => ⟨true, Option.some.inj (hv.symm.trans hinsecure)⟩
      case choice => exact .inr ⟨hinsecure, Option.not_isSome_iff_eq_none.mpr hkey⟩
      case key => exact fun v hv => nomatch hkey.symm.trans hv
    | keyFile hinsecure hkey hne htext =>
      constructor
      case insecure => exact fun v hv => ⟨false, hinsecure v hv⟩
      case choice =>
        exact .inl ⟨Option.isSome_of_eq_some hkey, fun htrue => nomatch hinsecure _ htrue⟩
      case key =>
        intro v hv
        exact ⟨_, Option.some.inj (hv.symm.trans hkey), hne, Option.isSome_of_eq_some htext⟩

theorem acceptableEntry_iff :
    AcceptableEntry files directory defaults item ↔
      ∃ e, IsEntry files directory defaults item e := by
  constructor
  · intro h
    obtain ⟨name, hname, hnamed⟩ := h.name
    obtain ⟨url, endpoint, hurl, hendpoint⟩ := h.url
    obtain ⟨timing, htiming⟩ := h.timing
    obtain ⟨trust, htrust⟩ := acceptableTrust_iff.mp h.trust
    exact ⟨⟨name, url, endpoint, timing, trust⟩, h.object, hname, hnamed, hurl, hendpoint, htiming,
      htrust⟩
  · rintro ⟨e, h⟩
    exact ⟨h.object, ⟨_, h.name, h.named⟩, ⟨_, _, h.url, h.endpoint⟩, ⟨_, h.timing⟩,
      acceptableTrust_iff.mpr ⟨_, h.trust⟩⟩

theorem exists_entries {items : List Json}
    (h : ∀ item ∈ items, AcceptableEntry files directory defaults item) :
    ∃ entries, List.Forall₂ (IsEntry files directory defaults) items entries := by
  induction items with
  | nil => exact ⟨[], .nil⟩
  | cons item items ih =>
    obtain ⟨hitem, hitems⟩ := List.forall_mem_cons.mp h
    obtain ⟨e, he⟩ := acceptableEntry_iff.mp hitem
    obtain ⟨entries, hentries⟩ := ih hitems
    exact ⟨e :: entries, .cons he hentries⟩

theorem acceptable_of_entries {items : List Json} {entries : List Entry}
    (h : List.Forall₂ (IsEntry files directory defaults) items entries) :
    ∀ item ∈ items, AcceptableEntry files directory defaults item := by
  induction h with
  | nil => exact nofun
  | cons he _ ih => exact List.forall_mem_cons.mpr ⟨acceptableEntry_iff.mpr ⟨_, he⟩, ih⟩

/-- That instances have distinct names can be seen from their items. -/
theorem pairwise_names {items : List Json} {entries : List Entry}
    (h : List.Forall₂ (IsEntry files directory defaults) items entries) :
    (items.Pairwise fun a b => a.member? (ascii "name") ≠ b.member? (ascii "name")) ↔
      (entries.map Entry.name).Nodup := by
  have hnames : items.map (Json.member? (ascii "name")) =
      (entries.map Entry.name).map fun name => some (.string name) := by
    rw [← List.forall₂_eq_eq_eq, List.forall₂_map_left_iff, List.forall₂_map_right_iff,
      List.forall₂_map_right_iff]
    exact h.imp fun _ _ he => he.name
  have hinjective : Function.Injective fun name => some (Json.string name) :=
    fun _ _ h => Json.string.inj (Option.some.inj h)
  rw [← List.nodup_map_iff hinjective, ← hnames]
  exact List.pairwise_map.symm

end Entries

/-! ## Documents -/

/-- A document is acceptable if each of its sections is right and every item of the list of
instances is, over the defaults of the document; there is at least one, and no two have one name. -/
structure Acceptable (files : Files) (directory : Bytes) (document : Json) : Prop where
  object : document.isObject = true
  logLevel : document.IfPresent (ascii "log_level") fun v =>
    ∃ name, v = .string name ∧ name ∈ levelNames
  listen : document.IfPresent (ascii "listen") AcceptableListen
  threads : document.IfPresent (ascii "io_threads") fun v =>
    ∃ n, v.IsNat n ∧ 1 ≤ n ∧ n ≤ 4294967295
  supervisor : document.IfPresent (ascii "supervisor") AcceptableSupervisor
  jobs : document.IfPresent (ascii "jobs") AcceptableJobs
  instances : ∃ defaults items,
    document.Given (ascii "defaults") Timing.standard IsDefaults defaults ∧
      document.member? (ascii "instances") = some (.array items) ∧ items ≠ [] ∧
        (∀ item ∈ items, AcceptableEntry files directory defaults item) ∧
          items.Pairwise fun a b => a.member? (ascii "name") ≠ b.member? (ascii "name")

variable {files : Files} {directory : Bytes}

theorem exists_instances {defaults : Timing} {v : Json} :
    (∃ entries, IsInstances files directory defaults v entries) ↔
      ∃ items, v = .array items ∧ items ≠ [] ∧
        (∀ item ∈ items, AcceptableEntry files directory defaults item) ∧
          items.Pairwise fun a b => a.member? (ascii "name") ≠ b.member? (ascii "name") := by
  constructor
  · rintro ⟨entries, ⟨items, rfl, hitems⟩, hne, hdistinct⟩
    refine ⟨items, rfl, ?_, acceptable_of_entries hitems, (pairwise_names hitems).mpr hdistinct⟩
    rintro rfl
    exact hne (List.forall₂_nil_left_iff.mp hitems)
  · rintro ⟨items, rfl, hne, hitems, hdistinct⟩
    obtain ⟨entries, hentries⟩ := exists_entries hitems
    refine ⟨entries, ⟨items, rfl, hentries⟩, ?_, (pairwise_names hentries).mp hdistinct⟩
    rintro rfl
    exact hne (List.forall₂_nil_right_iff.mp hentries)

theorem acceptable_iff {document : Json} :
    Acceptable files directory document ↔ ∃ c, Describes files directory document c := by
  constructor
  · intro h
    have hlogName : ∃ name, document.Given (ascii "log_level") Config.standardLogName IsLogName
        name := Json.exists_given.mpr h.logLevel
    have hlisten : ∃ listen, document.Given (ascii "listen")
        (Config.standardAddress, Config.standardPort) IsListen listen :=
      Json.exists_given.mpr fun v hv => acceptableListen_iff.mp (h.listen v hv)
    have hthreads : ∃ n, document.Given (ascii "io_threads") Config.standardThreads IsThreads n :=
      Json.exists_given.mpr h.threads
    have hrestarts : ∃ r, document.Given (ascii "supervisor") RestartRule.standard IsRestarts r :=
      Json.exists_given.mpr fun v hv => acceptableSupervisor_iff.mp (h.supervisor v hv)
    have hrules : ∃ rules, document.Given (ascii "jobs") JobRules.standard IsRules rules :=
      Json.exists_given.mpr fun v hv => acceptableJobs_iff.mp (h.jobs v hv)
    obtain ⟨logName, hlogName⟩ := hlogName
    obtain ⟨⟨address, port⟩, hlisten⟩ := hlisten
    obtain ⟨threads, hthreads⟩ := hthreads
    obtain ⟨restarts, hrestarts⟩ := hrestarts
    obtain ⟨rules, hrules⟩ := hrules
    obtain ⟨defaults, items, hdefaults, hmember, hitems⟩ := h.instances
    obtain ⟨entries, hentries⟩ := exists_instances.mpr ⟨items, rfl, hitems⟩
    exact ⟨⟨logName, address, port, threads, restarts, rules, entries⟩, h.object, hlogName,
      hlisten, hthreads, hrestarts, hrules, defaults, _, hdefaults, hmember, hentries⟩
  · rintro ⟨c, h⟩
    obtain ⟨defaults, v, hdefaults, hmember, hinstances⟩ := h.instances
    obtain ⟨items, rfl, hitems⟩ := exists_instances.mp ⟨_, hinstances⟩
    constructor
    case object => exact h.object
    case logLevel => exact Json.exists_given.mp ⟨_, h.logName⟩
    case listen =>
      exact fun v hv => acceptableListen_iff.mpr (Json.exists_given.mp ⟨_, h.listen⟩ v hv)
    case threads => exact Json.exists_given.mp ⟨_, h.threads⟩
    case supervisor =>
      exact fun v hv => acceptableSupervisor_iff.mpr (Json.exists_given.mp ⟨_, h.restarts⟩ v hv)
    case jobs => exact fun v hv => acceptableJobs_iff.mpr (Json.exists_given.mp ⟨_, h.rules⟩ v hv)
    case instances => exact ⟨defaults, items, hdefaults, hmember, hitems⟩

namespace Config

/-- What becomes of a text. Of a document without repeated names that is not too deep a configuration
is made, or it is refused; from one that is too deep the fault of the reader comes. -/
structure Accepts [Json.Reader] (Denotes : Bytes → Json → Prop) (files : Files)
    (directory text : Bytes) : Prop where
  accepted : (∃ c, parse files directory text = .ok (.ok c)) ↔
    ∃ document, Denotes text document ∧ document.depth ≤ 1000 ∧ document.distinctNames = true ∧
      Acceptable files directory document
  refused : ∀ document, Denotes text document → document.depth ≤ 1000 →
    document.distinctNames = true → ¬ Acceptable files directory document →
      ∃ x, parse files directory text = .ok (.error x)
  tooDeep : ∀ document, Denotes text document → 1000 < document.depth →
    document.distinctNames = true → parse files directory text = .error Json.depthFault

section

variable [Json.Reader] {Denotes : Bytes → Json → Prop} {text : Bytes}

theorem exists_parse_iff (hreader : Json.Reader.Follows Denotes) :
    (∃ c, parse files directory text = .ok (.ok c)) ↔
      ∃ document, Denotes text document ∧ document.depth ≤ 1000 ∧
        document.distinctNames = true ∧ Acceptable files directory document := by
  simp only [parse_eq_ok, acceptable_iff, hreader.read_true]
  constructor
  · rintro ⟨c, document, ⟨htext, hdepth, hdistinct⟩, h⟩
    exact ⟨document, htext, hdepth, hdistinct, c, h⟩
  · rintro ⟨document, htext, hdepth, hdistinct, c, h⟩
    exact ⟨c, document, ⟨htext, hdepth, hdistinct⟩, h⟩

end

/-- A configuration is made of a text exactly if the text denotes a document with values at most a
thousand deep and no name twice in an object, which is acceptable. -/
theorem accepted_exactly [Json.Reader] {Denotes : Bytes → Json → Prop}
    (hreader : Json.Reader.Follows Denotes) (files : Files) (directory text : Bytes) :
    Accepts Denotes files directory text := by
  constructor
  case accepted => exact exists_parse_iff hreader
  case refused =>
    intro document htext hdepth hdistinct hnot
    have hread := hreader.read_true.mpr ⟨htext, hdepth, hdistinct⟩
    cases hdocument : ofDocument files directory document with
    | error x => exact ⟨x, by simp only [parse, hread, hdocument]⟩
    | ok c => exact absurd (acceptable_iff.mpr ⟨c, ofDocument_eq_ok.mp hdocument⟩) hnot
  case tooDeep =>
    intro document htext hdepth hdistinct
    rw [parse, hreader.tooDeep true text document htext hdepth fun _ => hdistinct]

/-- One insecure instance, and a comment. -/
def plainText : Bytes :=
  ascii "\x7b\"instances\":[/* one */" ++
    ascii "\x7b\"name\":\"aa\",\"registry_url\":\"http://h\",\"insecure\":true\x7d]\x7d"

theorem accepted_plain : Json.plain.Follows Json.IsTextOf ∧
    (∃ c, parse (Files.ofReadings []) [] plainText = .ok (.ok c)) ∧
      Accepts Json.IsTextOf (Files.ofReadings []) [] plainText := by
  have hparse : ((parse (Files.ofReadings []) [] plainText).toOption.bind
      Except.toOption).isSome = true := by decide +kernel
  refine ⟨Json.follows_plain, ?_, accepted_exactly Json.follows_plain _ _ _⟩
  rcases hresult : parse (Files.ofReadings []) [] plainText with f | x | c
  · rw [hresult] at hparse
    cases hparse
  · rw [hresult] at hparse
    cases hparse
  · exact ⟨c, rfl⟩

/-- One insecure instance, and a member that nothing asks for: a thousand arrays in one another. -/
def nestedText : Bytes :=
  ascii "\x7b\"instances\":[" ++
    ascii "\x7b\"name\":\"aa\",\"registry_url\":\"http://h\",\"insecure\":true\x7d],\"x\":" ++
    List.replicate 1000 (byte '[') ++ List.replicate 1000 (byte ']') ++ ascii "\x7d"

/-- Whether a document was read to its end that is accepted without any file. -/
def isAccepted : Json.Reading Json → Bool
  | .ok (document, []) => (ofDocument (Files.ofReadings []) [] document).isOk
  | _ => false

/-- What stands too deep need not have anything to do with the configuration. -/
theorem nested_not_parsed :
    (∃ document, Json.IsTextOf nestedText document ∧ document.distinctNames = true ∧
      Acceptable (Files.ofReadings []) [] document) ∧
      ¬ ∃ c, parse (Files.ofReadings []) [] nestedText = .ok (.ok c) := by
  constructor
  · have hread : isAccepted (Json.readValue true 6000 1001 nestedText) = true := by decide +kernel
    unfold isAccepted at hread
    split at hread
    · rename_i document hvalue
      obtain ⟨hreads, -, hdistinct, -⟩ :=
        Json.sound true 6000 (p := .value document) hvalue (Json.isSome_unseen true)
      refine ⟨document, ⟨[], hreads, rfl⟩, hdistinct rfl, acceptable_iff.mpr ?_⟩
      cases hdocument : ofDocument (Files.ofReadings []) [] document with
      | error x => rw [hdocument] at hread; cases hread
      | ok c => exact ⟨c, ofDocument_eq_ok.mp hdocument⟩
    · cases hread
  · rintro ⟨c, h⟩
    have hparse : (parse (Files.ofReadings []) [] nestedText).isOk = false := by decide +kernel
    rw [h] at hparse
    cases hparse

end Config

end TargetDiscovery
