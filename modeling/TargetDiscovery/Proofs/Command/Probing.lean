import TargetDiscovery.Command.Probe
import TargetDiscovery.Proofs.Config.Wiring
import TargetDiscovery.Proofs.Poller.Draining
import TargetDiscovery.Proofs.Query.Selection
import TargetDiscovery.Proofs.Registry.Arrival

/-!
# The verdict of a probe

A probe of a configured instance judges what one exchange with its registry brings. It succeeds
exactly if a state comes in time, the instance trusts it, and no two of its targets collide; then
it tells the version of the state, the numbers of its targets and of the records left out, and the
groups of the targets. A store that is new knows no version, so nothing is old or known to a probe.
-/

set_option autoImplicit false

namespace TargetDiscovery

/-! ## A new store -/

namespace Store

theorem not_knows_new (name : Bytes) (version : UInt64) : ¬ (new name).Knows version := by
  rintro ⟨k, hk, -⟩
  cases hk

theorem not_exceeds_new (name : Bytes) (version : UInt64) : ¬ (new name).Exceeds version := by
  rintro ⟨k, hk, -⟩
  cases hk

theorem precedes_new (name : Bytes) (version : UInt64) : (new name).Precedes version := .inl rfl

end Store

namespace Setup

theorem news_new {name : Bytes} {fetched : Option FetchResult} {state : RegistryState} :
    News (.new name) fetched state ↔ fetched = some (.ok (.ok state)) :=
  ⟨And.left, fun h => ⟨h, Store.not_knows_new name state.version⟩⟩

end Setup

/-! ## What a probe says -/

namespace Command.Probe

/-- The cycle of the probe ended with this outcome. -/
def Shows (p : Probe) (o : Outcome) : Prop := ∃ f, p.result = .ok f ∧ f.outcome = .ok o

variable [Json.Reader] (rules : JobRules) (d : Definition) (x : Exchange)

/-- A state that is brought in time, trusted, and without collisions. -/
structure Sound (state : RegistryState) : Prop where
  completes : x.Completes d.timing.timeout state
  trusted : d.verifier.trusts state = .ok true
  distinct : (((Conversion.mk d.name rules).accepted state.records).map Target.identity).Nodup

/-- What comes of the exchange is no answer at all, but a fault. -/
def Faults (fault : Fault) : Prop :=
  x.Brings d.timing.timeout (.error fault) ∨
    ∃ state, x.Completes d.timing.timeout state ∧ d.verifier.trusts state = .error fault

def firstLine (name : Bytes) (o : Outcome) : Bytes :=
  ascii "instance " ++ name ++ ascii ": " ++ o.name ++ ascii "\n"

def secondLine (version : UInt64) (l : Listing) : Bytes :=
  ascii "version " ++ Bytes.decimal version.toNat ++ ascii ", " ++
    Bytes.decimal l.targets.length ++ ascii " target(s), " ++ Bytes.decimal l.skipped ++
    ascii " skipped\n"

/-- A probe of an instance judges an exchange with its registry. -/
structure Judges (p : Probe) : Prop where
  fetched : ∀ state, x.Completes d.timing.timeout state ↔
    x.Brings d.timing.timeout (.ok (.ok state))
  concludes : (∃ o, p.Shows o) ∨ ∃ fault, p.exit = .error fault
  throws : ∀ fault, p.exit = .error fault ↔ Faults d x fault
  reachable : ¬ p.Shows .unchanged ∧ ¬ p.Shows .stale
  succeeds : p.exit = .ok 0 ↔ ∃ state, Sound rules d x state
  fails : ∀ o, p.Shows o → p.exit ≠ .ok 0 → p.exit = .ok 1
  prints : p.groups?.isSome = true ↔ p.exit = .ok 0
  tells : ∀ state, Sound rules d x state →
    ∃ l, (Conversion.mk d.name rules).listing state.records = .ok l ∧
      p.output = firstLine d.name .published ++ secondLine state.version l ∧
        p.groups? = some (Group.ofTargets l.targets)
  refuses : ∀ o, p.Shows o → p.exit ≠ .ok 0 → p.output = firstLine d.name o ∧ p.groups? = none

end Command.Probe

/-! ## What comes in time -/

namespace Exchange

variable [Json.Reader]

theorem within_reply_iff {x : Exchange} {timeout : Nat} {outcome : FetchResult}
    (hne : ∀ e, outcome ≠ .ok (.error e)) :
    (x.reply timeout).within timeout = some outcome ↔ x.Brings timeout outcome := by
  constructor
  · intro h
    obtain ⟨_, hreply, -⟩ := Reply.within_eq_some_iff.mp h
    have hresult : (x.reply timeout).result = outcome := by rw [hreply]
    rw [← hresult]
    apply brings_result
    rw [hresult]
    exact hne
  · intro h
    obtain ⟨t, hreply, hlt⟩ := h.reply
    exact Reply.within_eq_some_iff.mpr ⟨t, hreply, hlt⟩

theorem within_state_iff {x : Exchange} {timeout : Nat} {state : RegistryState} :
    (x.reply timeout).within timeout = some (.ok (.ok state)) ↔ x.Completes timeout state := by
  rw [completes_iff]
  exact within_reply_iff nofun

theorem within_fault_iff {x : Exchange} {timeout : Nat} {fault : Fault} :
    (x.reply timeout).within timeout = some (.error fault) ↔ x.Brings timeout (.error fault) :=
  within_reply_iff nofun

end Exchange

namespace Command

/-! ## What a finding says -/

namespace Finding

variable {f : Finding} {o : Outcome}

theorem exit_eq_zero_iff : f.exit = .ok 0 ↔ f.outcome = .ok .published := by
  rw [exit]
  cases f.outcome with
  | error fault => exact ⟨nofun, nofun⟩
  | ok o =>
    by_cases ho : o = .published
    · simp [Except.map, ho]
    · simp [Except.map, ho]

theorem exit_eq_error_iff {fault : Fault} : f.exit = .error fault ↔ f.outcome = .error fault := by
  rw [exit]
  cases f.outcome with
  | error cause => simp [Except.map]
  | ok o => exact ⟨nofun, nofun⟩

theorem exit_eq_one (ho : f.outcome = .ok o) (hne : o ≠ .published) : f.exit = .ok 1 := by
  simp [exit, ho, Except.map, hne]

theorem snapshot?_eq (hname : f.store.name = f.name) : f.snapshot? = f.store.current := by
  simp [snapshot?, Catalog.snapshot?, hname]

theorem groups?_eq (ho : f.outcome = .ok o) (hname : f.store.name = f.name) :
    f.groups? = f.store.current.map fun s => Group.ofTargets s.targets := by
  rw [groups?, ho, snapshot?_eq hname, Catalog.groups, Catalog.targets_all, Catalog.everything,
    List.flatMap_singleton, Store.targets]
  cases f.store.current with
  | none => rfl
  | some s => rfl

theorem text_eq (ho : f.outcome = .ok o) (hname : f.store.name = f.name) :
    f.text = Probe.firstLine f.name o ++ (f.store.current.map snapshotText).getD [] := by
  rw [text, ho, snapshot?_eq hname]
  rfl

end Finding

namespace Probe

/-! ## The cycle of a probe -/

def begun (d : Definition) (network : Hosts) (epoch : Int) :
    Run (Solo Hosts) Poller.Task Mark :=
  .start (.new (.new d.toSetup (.new d.name) 0) network epoch)

section

variable [Json.Reader]

/-- What a finding rests on: the end of a cycle that began with a new store. -/
structure Rests (d : Definition) (x : Exchange) (f : Finding) : Prop where
  name : f.name = d.name
  owner : f.store.name = f.name
  classified : d.toSetup.Classified (.new d.name)
    ((x.reply d.timing.timeout).within d.timing.timeout) f.outcome
  keeps : ∃ time, d.toSetup.Keeps (.new d.name) f.store time
    ((x.reply d.timing.timeout).within d.timing.timeout) f.outcome

theorem rests_find (d : Definition) (network : Hosts) (epoch : Int) :
    Rests d (network.next d.endpoint.host).1 (find d network epoch) := by
  -- A cycle takes three steps, so the bound on the tasks of a probe is never reached.
  have hrun : run d network epoch = (Solo.opened (begun d network epoch)).drain
      (Solo.machine (Network.ofEndpoints [d.endpoint])) (5 + 3) := rfl
  obtain ⟨r', result, hcycled, hstate⟩ :=
    Solo.cycled_of_drain (n := Network.ofEndpoints [d.endpoint]) (r := begun d network epoch)
      rfl rfl rfl 5
  rw [← hrun] at hstate
  have houtcome : (find d network epoch).outcome = result := by
    rw [find, hstate, hcycled.ended, Option.getD_some]
  have hstore : (find d network epoch).store = r'.state.poller.store := by
    rw [find, hstate]
  constructor
  case name => rfl
  case owner =>
    rw [hstore]
    exact hcycled.name
  case classified =>
    rw [houtcome]
    exact hcycled.classified
  case keeps =>
    rw [houtcome, hstore]
    exact ⟨_, hcycled.keeps⟩

variable {d : Definition} {x : Exchange} {f : Finding} {o : Outcome}

theorem Rests.published_iff (h : Rests d x f) :
    f.outcome = .ok .published ↔ ∃ state, Sound d.rules d x state := by
  rw [h.classified.published]
  simp only [Setup.news_new, Exchange.within_state_iff]
  constructor
  · rintro ⟨state, hcompletes, htrusted, hdistinct, -⟩
    exact ⟨state, hcompletes, htrusted, hdistinct⟩
  · rintro ⟨state, hsound⟩
    exact ⟨state, hsound.completes, hsound.trusted, hsound.distinct,
      Store.precedes_new d.name state.version⟩

theorem Rests.error_iff (h : Rests d x f) {fault : Fault} :
    f.outcome = .error fault ↔ Faults d x fault := by
  rw [h.classified.throws]
  simp only [Setup.news_new, Exchange.within_state_iff, Exchange.within_fault_iff]
  rfl

theorem Rests.unreached (h : Rests d x f) :
    f.outcome ≠ .ok .unchanged ∧ f.outcome ≠ .ok .stale := by
  constructor
  · intro ho
    obtain ⟨state, -, hknows⟩ := h.classified.unchanged.mp ho
    exact Store.not_knows_new d.name state.version hknows
  · intro ho
    obtain ⟨state, -, -, -, hexceeds⟩ := h.classified.stale.mp ho
    exact Store.not_exceeds_new d.name state.version hexceeds

theorem Rests.current_of_sound (h : Rests d x f) {state : RegistryState}
    (hsound : Sound d.rules d x state) :
    ∃ l time, (Conversion.mk d.name d.rules).listing state.records = .ok l ∧
      f.store.current = some ⟨d.name, state.version, l.targets, time, l.skipped⟩ := by
  obtain ⟨time, hpublished, -⟩ := h.keeps
  obtain ⟨other, l, hfetched, hlisting, hcurrent⟩ := hpublished (h.published_iff.mpr ⟨_, hsound⟩)
  have hsame : state = other := by
    rw [Exchange.within_state_iff.mpr hsound.completes] at hfetched
    cases hfetched
    rfl
  rw [← hsame] at hlisting hcurrent
  exact ⟨l, time, hlisting, hcurrent⟩

theorem Rests.current_of_unpublished (h : Rests d x f) (hne : f.outcome ≠ .ok .published) :
    f.store.current = none := by
  obtain ⟨_, -, hkept⟩ := h.keeps
  exact hkept hne

/-! ## The verdict -/

theorem Rests.judges (h : Rests d x f) {p : Probe} (hp : p.result = .ok f) :
    Judges d.rules d x p := by
  have hexit : p.exit = f.exit := by rw [Probe.exit, hp]
  have houtput : p.output = f.text := by rw [Probe.output, hp]
  have hgroups : p.groups? = f.groups? := by rw [Probe.groups?, hp]
  have hshows : ∀ o, p.Shows o ↔ f.outcome = .ok o := by
    intro o
    constructor
    · rintro ⟨_, hf, ho⟩
      cases hp.symm.trans hf
      exact ho
    · exact fun ho => ⟨f, hp, ho⟩
  have hzero : p.exit = .ok 0 ↔ f.outcome = .ok .published := by
    rw [hexit, Finding.exit_eq_zero_iff]
  constructor
  case fetched => exact fun _ => Exchange.completes_iff
  case concludes =>
    cases ho : f.outcome with
    | ok o => exact .inl ⟨o, (hshows o).mpr ho⟩
    | error fault => exact .inr ⟨fault, hexit.trans (Finding.exit_eq_error_iff.mpr ho)⟩
  case throws =>
    intro fault
    rw [hexit, Finding.exit_eq_error_iff, h.error_iff]
  case reachable =>
    rw [hshows, hshows]
    exact h.unreached
  case succeeds => rw [hzero, h.published_iff]
  case fails =>
    intro o ho hne
    have houtcome := (hshows o).mp ho
    have hunpublished : o ≠ .published := fun heq => hne (hzero.mpr (heq ▸ houtcome))
    rw [hexit]
    exact Finding.exit_eq_one houtcome hunpublished
  case prints =>
    rw [hzero, hgroups]
    constructor
    · intro hsome
      by_contra hne
      cases ho : f.outcome with
      | error fault => simp [Finding.groups?, ho] at hsome
      | ok o =>
        rw [Finding.groups?_eq ho h.owner, h.current_of_unpublished hne] at hsome
        cases hsome
    · intro ho
      obtain ⟨state, hsound⟩ := h.published_iff.mp ho
      obtain ⟨l, time, -, hcurrent⟩ := h.current_of_sound hsound
      rw [Finding.groups?_eq ho h.owner, hcurrent]
      rfl
  case tells =>
    intro state hsound
    obtain ⟨l, time, hlisting, hcurrent⟩ := h.current_of_sound hsound
    have ho := h.published_iff.mpr ⟨state, hsound⟩
    refine ⟨l, hlisting, ?_, ?_⟩
    · rw [houtput, Finding.text_eq ho h.owner, hcurrent, h.name]
      rfl
    · rw [hgroups, Finding.groups?_eq ho h.owner, hcurrent]
      rfl
  case refuses =>
    intro o ho hne
    have houtcome := (hshows o).mp ho
    have hnone := h.current_of_unpublished fun hpublished => hne (hzero.mpr hpublished)
    rw [houtput, hgroups, Finding.text_eq houtcome h.owner, Finding.groups?_eq houtcome h.owner,
      hnone, h.name]
    exact ⟨List.append_nil _, rfl⟩

end

theorem find?_of_mem {definitions : List Definition} (hnodup : (definitions.map (·.name)).Nodup)
    {d : Definition} (hd : d ∈ definitions) :
    (definitions.find? fun e => e.name = d.name) = some d := by
  cases hfind : definitions.find? fun e => e.name = d.name with
  | none => simpa using List.find?_eq_none.mp hfind d hd
  | some e =>
    have hname : e.name = d.name := by simpa using List.find?_some hfind
    rw [List.inj_on_of_nodup_map hnodup (List.mem_of_find?_eq_some hfind) hd hname]

/-- A probe of an instance that a configuration defines judges the next exchange with the host of
its registry, by the verifier of the instance and the job rules of the configuration. -/
theorem judges_of_defined [Json.Reader] {readKey : Bytes → Except KeyError Check} {files : Files}
    {path : Bytes} {c : Config} {definitions : List Definition} {d : Definition}
    (hload : Config.load files path = .ok (.ok c))
    (hdefined : Definition.ofConfig readKey c = .ok definitions) (hd : d ∈ definitions)
    (network : Hosts) (epoch : Int) :
    Judges c.rules d (network.next d.endpoint.host).1
      (ofArguments readKey files network epoch [path, d.name]) := by
  have hparse : ∃ text, Config.parse files (Path.directory path) text = .ok (.ok c) := by
    unfold Config.load at hload
    split at hload
    · exact ⟨_, hload⟩
    · cases hload
  obtain ⟨text, htext⟩ := hparse
  have hfind := find?_of_mem (Definition.nodup_names htext hdefined) hd
  have hresult : (ofArguments readKey files network epoch [path, d.name]).result =
      .ok (find d network epoch) := by
    simp only [ofArguments, Start.load, hload, Start.ofConfig, hdefined, findNamed, hfind]
  rw [← rules_of_ofEntries hdefined d hd]
  exact (rests_find d network epoch).judges hresult

/-- The file of a configuration with one instance, which trusts what it fetches. -/
def trustingFiles : Files :=
  .ofReadings [(ascii "etc/c.json", some (ascii "\x7b\"instances\":[" ++
    ascii "\x7b\"name\":\"open\",\"registry_url\":\"http://a\",\"insecure\":true\x7d]\x7d"))]

/-- A registry that answers once, after some time, with one node under version zero. -/
def answeringHosts : Hosts :=
  ⟨SortedMap.ofList [(ascii "a",
    [{ read := { delay := some 700 }
       body := ascii "\x7b\"version\":0,\"records\":[" ++
         ascii "\x7b\"address\":\"10.0.0.1:9090\",\"role\":\"replica\"\x7d]\x7d" }])],
    SortedMap.empty⟩

/-- The definition of the only instance of a configuration. -/
def only? : Except Fault (Except ConfigError Config) → Option Definition
  | .ok (.ok c) =>
    match Definition.ofConfig Verifier.ofPem c with
    | .ok [d] => some d
    | _ => none
  | _ => none

theorem judges_trusting :
    ∃ c d, Config.load trustingFiles (ascii "etc/c.json") = .ok (.ok c) ∧
      Definition.ofConfig Verifier.ofPem c = .ok [d] ∧
        Judges c.rules d (answeringHosts.next d.endpoint.host).1
          (ofArguments Verifier.ofPem trustingFiles answeringHosts 0
            [ascii "etc/c.json", d.name]) ∧
        (ofArguments Verifier.ofPem trustingFiles answeringHosts 0
          [ascii "etc/c.json", d.name]).output =
            ascii "instance open: published\nversion 0, 1 target(s), 0 skipped\n" := by
  have honly : ((only? (Config.load trustingFiles (ascii "etc/c.json"))).map (·.name)) =
      some (ascii "open") := by decide +kernel
  have houtput : (ofArguments Verifier.ofPem trustingFiles answeringHosts 0
      [ascii "etc/c.json", ascii "open"]).output =
        ascii "instance open: published\nversion 0, 1 target(s), 0 skipped\n" := by decide +kernel
  obtain ⟨d, hd, hname⟩ := Option.map_eq_some_iff.mp honly
  unfold only? at hd
  split at hd
  · rename_i c hload
    split at hd
    · rename_i hdefined
      cases hd
      exact ⟨c, d, hload, hdefined, judges_of_defined hload hdefined List.mem_cons_self _ _,
        hname ▸ houtput⟩
    · cases hd
  · cases hd

end Probe

end Command

end TargetDiscovery
