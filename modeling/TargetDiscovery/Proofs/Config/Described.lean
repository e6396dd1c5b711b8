import Mathlib.Data.List.Forall2
import TargetDiscovery.Proofs.Config.Sections

/-!
# What a document says

An entry of the list of instances stands for an instance over the timing of the defaults, and a
document for a configuration. As for the sections, both are relations between the document and what
is made of it, and reading finds exactly what they say.
-/

set_option autoImplicit false

namespace TargetDiscovery

/-! ## Names -/

/-- The bytes that may stand in the name of an instance. -/
def nameBytes : Bytes :=
  ascii "ABCDEFGHIJKLMNOPQRSTUVWXYZabcdefghijklmnopqrstuvwxyz0123456789_-"

structure IsName (s : Bytes) : Prop where
  long : 2 ≤ s.length
  short : s.length ≤ 64
  bytes : ∀ b ∈ s, b ∈ nameBytes

theorem mem_nameBytes (b : UInt8) :
    b ∈ nameBytes ↔ (Bytes.isAlphanumeric b || b == byte '_' || b == byte '-') = true := by
  constructor
  · have hname : ∀ a ∈ nameBytes,
        (Bytes.isAlphanumeric a || a == byte '_' || a == byte '-') = true := by decide +kernel
    exact hname b
  · have hmem : ∀ n : Fin 256,
        (Bytes.isAlphanumeric (UInt8.ofFin n) || UInt8.ofFin n == byte '_' ||
          UInt8.ofFin n == byte '-') = true → UInt8.ofFin n ∈ nameBytes := by decide +kernel
    exact hmem b.toFin

theorem isInstanceName_iff {s : Bytes} : Naming.isInstanceName s = true ↔ IsName s := by
  unfold Naming.isInstanceName
  simp only [Bool.and_eq_true, decide_eq_true_eq, List.all_eq_true, ← mem_nameBytes]
  exact ⟨fun ⟨⟨hlong, hshort⟩, hbytes⟩ => ⟨hlong, hshort, hbytes⟩,
    fun h => ⟨⟨h.long, h.short⟩, h.bytes⟩⟩

/-! ## Entries -/

section Entries

variable {files : Files} {directory : Bytes} {defaults : Timing}

/-- How the states of an entry are to be trusted: it says outright that it is insecure and names no
key, or it names a key file that can be read and does not say that it is insecure. -/
inductive IsTrust (files : Files) (directory : Bytes) (item : Json) : TrustSource → Prop
  | insecure (hinsecure : item.member? (ascii "insecure") = some (.bool true))
      (hkey : item.member? (ascii "public_key_pem") = none) :
      IsTrust files directory item .insecure
  | keyFile {key text : Bytes} (hinsecure : item.IfPresent (ascii "insecure") (· = .bool false))
      (hkey : item.member? (ascii "public_key_pem") = some (.string key)) (hne : key ≠ [])
      (htext : files.read? (Path.within directory key) = some text) :
      IsTrust files directory item (.keyFile (Path.within directory key) text)

structure IsEntry (files : Files) (directory : Bytes) (defaults : Timing) (item : Json)
    (e : Entry) : Prop where
  object : item.isObject = true
  name : item.member? (ascii "name") = some (.string e.name)
  named : IsName e.name
  url : item.member? (ascii "registry_url") = some (.string e.url)
  endpoint : Endpoint.parse e.url = .ok e.endpoint
  timing : Layers defaults item e.timing
  trust : IsTrust files directory item e.trust

namespace Config

theorem inEntry_eq_ok {α : Type} {name : Bytes} {x : Except EntryError α} {a : α} :
    inEntry name x = .ok a ↔ x = .ok a := by
  cases x with
  | ok b => exact ok_eq_ok.trans ok_eq_ok.symm
  | error e => exact ⟨nofun, nofun⟩

theorem bind_string?_eq_some {item : Json} {member s : Bytes} :
    (item.member? member).bind Json.string? = some s ↔
      item.member? member = some (.string s) := by
  rw [Option.bind_eq_some_iff]
  simp only [Json.string?_eq_some, exists_eq_right]

theorem readName_eq_ok {index : Nat} {item : Json} {name : Bytes} :
    readName index item = .ok name ↔
      item.member? (ascii "name") = some (.string name) ∧ IsName name := by
  unfold readName
  rw [← bind_string?_eq_some]
  cases (item.member? (ascii "name")).bind Json.string? with
  | none => simp only [reduceCtorEq, false_and]
  | some s =>
    simp only [guard_eq_ok, isInstanceName_iff, Except.ok.injEq, Option.some.injEq]
    exact and_eq_iff

theorem readUrl_eq_ok {item : Json} {url : Bytes} {endpoint : Endpoint} :
    readUrl item = .ok (url, endpoint) ↔
      item.member? (ascii "registry_url") = some (.string url) ∧
        Endpoint.parse url = .ok endpoint := by
  unfold readUrl
  rw [← bind_string?_eq_some]
  cases (item.member? (ascii "registry_url")).bind Json.string? with
  | none => simp only [reduceCtorEq, false_and]
  | some s =>
    dsimp only
    cases hs : Endpoint.parse s with
    | error x =>
      simp only [reduceCtorEq, Option.some.injEq, false_iff, not_and]
      rintro rfl h
      exact nomatch hs.symm.trans h
    | ok parsed =>
      simp only [Except.ok.injEq, Prod.mk.injEq, Option.some.injEq]
      refine and_congr_right fun h => ?_
      rw [← h, hs, Except.ok.injEq]

theorem readInsecure_eq_ok {item : Json} {insecure : Bool} :
    readInsecure item = .ok insecure ↔
      item.Given (ascii "insecure") false (fun v b => v = .bool b) insecure := by
  refine Json.given_eq_ok fun v => ?_
  rw [← Json.bool?_eq_some]
  cases v.bool? with
  | none => simp only [reduceCtorEq]
  | some b => simp only [Except.ok.injEq, Option.some.injEq]

theorem given_true {item : Json} {member : Bytes} :
    item.Given member false (fun v b => v = .bool b) true ↔
      item.member? member = some (.bool true) := by
  unfold Json.Given
  cases item.member? member with
  | none => simp only [reduceCtorEq]
  | some v => simp only [Option.some.injEq]

theorem given_false {item : Json} {member : Bytes} :
    item.Given member false (fun v b => v = .bool b) false ↔
      item.IfPresent member (· = .bool false) := by
  unfold Json.Given Json.IfPresent
  cases item.member? member with
  | none => exact ⟨fun _ => nofun, fun _ => rfl⟩
  | some v => simp only [Option.some.injEq, forall_eq']

theorem readKey_eq_ok {v : Json} {trust : TrustSource} :
    readKey files directory v = .ok trust ↔
      ∃ key text, v = .string key ∧ key ≠ [] ∧
        files.read? (Path.within directory key) = some text ∧
          trust = .keyFile (Path.within directory key) text := by
  unfold readKey
  constructor
  · intro h
    split at h
    · cases h
    · rename_i key hkey
      obtain ⟨hne, h⟩ := refuse_eq_ok.mp h
      dsimp only at h
      split at h
      · rename_i text htext
        cases h
        exact ⟨key, text, Json.string?_eq_some.mp hkey, List.isEmpty_iff.not.mp hne, htext, rfl⟩
      · cases h
  · rintro ⟨key, text, rfl, hne, htext, rfl⟩
    simp only [Json.string?, if_neg (List.isEmpty_iff.not.mpr hne), htext]

theorem readTrust_eq_ok {item : Json} {trust : TrustSource} :
    readTrust files directory item = .ok trust ↔ IsTrust files directory item trust := by
  unfold readTrust
  simp only [bind_eq_ok, readInsecure_eq_ok]
  constructor
  · rintro ⟨insecure, hinsecure, h⟩
    split at h
    · rename_i hkey
      cases h
      exact .insecure (given_true.mp hinsecure) hkey
    · rename_i v hkey
      obtain ⟨key, text, rfl, hne, htext, rfl⟩ := readKey_eq_ok.mp h
      exact .keyFile (given_false.mp hinsecure) hkey hne htext
    · cases h
  · intro h
    cases h with
    | insecure hinsecure hkey =>
      refine ⟨true, given_true.mpr hinsecure, ?_⟩
      rw [hkey]
    | keyFile hinsecure hkey hne htext =>
      refine ⟨false, given_false.mpr hinsecure, ?_⟩
      rw [hkey]
      exact readKey_eq_ok.mpr ⟨_, _, rfl, hne, htext, rfl⟩

theorem readEntry_eq_ok {index : Nat} {item : Json} {e : Entry} :
    readEntry files directory defaults index item = .ok e ↔
      IsEntry files directory defaults item e := by
  unfold readEntry
  simp only [guard_eq_ok, bind_eq_ok, readName_eq_ok, inEntry_eq_ok, layer_eq_ok, readTrust_eq_ok,
    Prod.exists, readUrl_eq_ok]
  constructor
  · rintro ⟨hobject, name, ⟨hname, hnamed⟩, url, endpoint, ⟨hurl, hendpoint⟩, timing, htiming,
      trust, htrust, h⟩
    cases h
    exact ⟨hobject, hname, hnamed, hurl, hendpoint, htiming, htrust⟩
  · exact fun h => ⟨h.object, _, ⟨h.name, h.named⟩, _, _, ⟨h.url, h.endpoint⟩, _, h.timing, _,
      h.trust, rfl⟩

/-- The instances of a list, of which none may have a name that is taken. -/
theorem readEntries_eq_ok {index : Nat} {seen : List Bytes} {items : List Json}
    {entries : List Entry} :
    readEntries files directory defaults index seen items = .ok entries ↔
      List.Forall₂ (IsEntry files directory defaults) items entries ∧
        (entries.map Entry.name).Nodup ∧ ∀ e ∈ entries, e.name ∉ seen := by
  induction items generalizing index seen entries with
  | nil =>
    refine ok_eq_ok.trans ⟨?_, fun h => List.forall₂_nil_left_iff.mp h.1⟩
    rintro rfl
    exact ⟨.nil, List.nodup_nil, nofun⟩
  | cons item items ih =>
    rw [readEntries]
    constructor
    · intro h
      split at h
      · cases h
      · rename_i e he
        obtain ⟨hnew, h⟩ := refuse_eq_ok.mp h
        split at h
        · rename_i rest hrest
          cases h
          obtain ⟨hitems, hnodup, hseen⟩ := ih.mp hrest
          have hfresh : e.name ∉ rest.map Entry.name := by
            intro hmem
            obtain ⟨other, hother, hname⟩ := List.mem_map.mp hmem
            exact hseen other hother (hname ▸ List.mem_cons_self)
          refine ⟨.cons (readEntry_eq_ok.mp he) hitems, List.nodup_cons.mpr ⟨hfresh, hnodup⟩, ?_⟩
          refine List.forall_mem_cons.mpr ⟨fun hmem => hnew (List.contains_iff_mem.mpr hmem), ?_⟩
          exact fun other hother hmem => hseen other hother (List.mem_cons_of_mem _ hmem)
        · cases h
    · rintro ⟨hitems, hnodup, hseen⟩
      cases hitems with
      | cons he hitems =>
        rename_i e rest
        obtain ⟨hfresh, hnodup⟩ := List.nodup_cons.mp hnodup
        obtain ⟨hnew, hseen⟩ := List.forall_mem_cons.mp hseen
        have hrest : readEntries files directory defaults (index + 1) (e.name :: seen) items =
            .ok rest := by
          refine ih.mpr ⟨hitems, hnodup, fun other hother hmem => ?_⟩
          rcases List.mem_cons.mp hmem with hname | hmem
          · exact hfresh (hname ▸ List.mem_map_of_mem hother)
          · exact hseen other hother hmem
        rw [readEntry_eq_ok.mpr he]
        simp only [List.contains_iff_mem, if_neg hnew, hrest]

end Config

/-- The instances of a document over the defaults: at least one, and no two with one name. -/
structure IsInstances (files : Files) (directory : Bytes) (defaults : Timing) (v : Json)
    (entries : List Entry) : Prop where
  items : ∃ items, v = .array items ∧ List.Forall₂ (IsEntry files directory defaults) items entries
  some : entries ≠ []
  distinct : (entries.map Entry.name).Nodup

end Entries

/-! ## Documents -/

/-- A document stands for a configuration: each section for its part, and every item of the list of
instances for one instance, in the order of the list. -/
structure Describes (files : Files) (directory : Bytes) (document : Json) (c : Config) : Prop where
  object : document.isObject = true
  logName : document.Given (ascii "log_level") Config.standardLogName IsLogName c.logName
  listen : document.Given (ascii "listen") (Config.standardAddress, Config.standardPort) IsListen
    (c.address, c.port)
  threads : document.Given (ascii "io_threads") Config.standardThreads IsThreads c.threads
  restarts : document.Given (ascii "supervisor") RestartRule.standard IsRestarts c.restarts
  rules : document.Given (ascii "jobs") JobRules.standard IsRules c.rules
  instances : ∃ defaults v,
    document.Given (ascii "defaults") Timing.standard IsDefaults defaults ∧
      document.member? (ascii "instances") = some v ∧
        IsInstances files directory defaults v c.entries

namespace Config

variable {files : Files} {directory : Bytes}

theorem readInstances_eq_ok {defaults : Timing} {document : Json} {entries : List Entry} :
    readInstances files directory defaults document = .ok entries ↔
      ∃ v, document.member? (ascii "instances") = some v ∧
        IsInstances files directory defaults v entries := by
  unfold readInstances
  constructor
  · intro h
    split at h
    · rename_i first rest hmember
      obtain ⟨hitems, hnodup, -⟩ := readEntries_eq_ok.mp h
      refine ⟨_, hmember, ⟨_, rfl, hitems⟩, ?_, hnodup⟩
      cases hitems
      exact List.cons_ne_nil _ _
    · cases h
  · rintro ⟨_, hmember, ⟨items, rfl, hitems⟩, hne, hnodup⟩
    cases hitems with
    | nil => exact absurd rfl hne
    | cons he hitems =>
      rw [hmember]
      exact readEntries_eq_ok.mpr ⟨.cons he hitems, hnodup, fun _ _ => List.not_mem_nil⟩

theorem ofDocument_eq_ok {document : Json} {c : Config} :
    ofDocument files directory document = .ok c ↔ Describes files directory document c := by
  unfold ofDocument
  simp only [guard_eq_ok, bind_eq_ok, readLogName_eq_ok, Prod.exists, readListen_eq_ok,
    readThreads_eq_ok, readRestarts_eq_ok, readDefaults_eq_ok, readRules_eq_ok,
    readInstances_eq_ok]
  constructor
  · rintro ⟨hobject, logName, hlogName, address, port, hlisten, threads, hthreads, restarts,
      hrestarts, defaults, hdefaults, rules, hrules, entries, ⟨v, hmember, hinstances⟩, h⟩
    cases h
    exact ⟨hobject, hlogName, hlisten, hthreads, hrestarts, hrules, defaults, v, hdefaults,
      hmember, hinstances⟩
  · intro h
    obtain ⟨defaults, v, hdefaults, hmember, hinstances⟩ := h.instances
    exact ⟨h.object, _, h.logName, _, _, h.listen, _, h.threads, _, h.restarts, _, hdefaults, _,
      h.rules, _, ⟨v, hmember, hinstances⟩, rfl⟩

/-- Reading a text gives a configuration exactly if the text is read as a document that stands for
it. -/
theorem parse_eq_ok [Json.Reader] {text : Bytes} {c : Config} :
    parse files directory text = .ok (.ok c) ↔
      ∃ document, Json.Reader.read true text = .ok document ∧
        Describes files directory document c := by
  unfold parse
  constructor
  · intro h
    split at h
    · rename_i document hread
      exact ⟨document, hread, ofDocument_eq_ok.mp (Except.ok.inj h)⟩
    · cases h
    · cases h
  · rintro ⟨document, hread, h⟩
    rw [hread]
    exact congrArg Except.ok (ofDocument_eq_ok.mpr h)

end Config

end TargetDiscovery
