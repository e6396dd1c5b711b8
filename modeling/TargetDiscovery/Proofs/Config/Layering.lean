import TargetDiscovery.Json.Plain
import TargetDiscovery.Proofs.Config.Described

/-!
# Layers of a configuration

The timing of an instance is found in three layers: its own members, the defaults of the document
and the standard values. The jobs are found in two. What an instance says counts for itself alone,
so configurations agree in all that their documents agree in.
-/

set_option autoImplicit false

namespace TargetDiscovery

/-! ## Timing -/

/-- What a member counts as for an instance: its own one comes first, then the one of the defaults,
and where there is neither the standard value counts. -/
inductive IsEffective {α : Type} (document item : Json) (name : Bytes) (standard : α)
    (Is : Json → α → Prop) : α → Prop
  | own {v : Json} {a : α} (hown : item.member? name = some v) (ha : Is v a) :
    IsEffective document item name standard Is a
  | shared {defaults v : Json} {a : α} (hown : item.member? name = none)
    (hdefaults : document.member? (ascii "defaults") = some defaults)
    (hv : defaults.member? name = some v) (ha : Is v a) :
    IsEffective document item name standard Is a
  | standard (hown : item.member? name = none)
    (hshared : document.IfPresent (ascii "defaults") fun defaults => defaults.member? name = none) :
    IsEffective document item name standard Is standard

/-- The timing of an instance in a document. -/
structure IsTiming (document item : Json) (t : Timing) : Prop where
  interval : IsEffective document item (ascii "poll_interval_ms") 30000 Json.IsNat t.interval
  timeout : IsEffective document item (ascii "fetch_timeout_ms") 10000 Json.IsNat t.timeout
  base : IsEffective document item (ascii "backoff_base_ms") 1000 Json.IsNat t.base
  max : IsEffective document item (ascii "backoff_max_ms") 60000 Json.IsNat t.max
  jitter : IsEffective document item (ascii "backoff_jitter") 0.2 Json.IsNumber t.jitter

def InRange (n : Nat) : Prop := 1 ≤ n ∧ n ≤ 86400000

structure IsSound (t : Timing) : Prop where
  durations : ∀ n ∈ [t.interval, t.timeout, t.base, t.max], InRange n
  ordered : t.base ≤ t.max
  fraction : 0.0 ≤ t.jitter ∧ t.jitter < 1.0

theorem IsEffective.imp {α : Type} {document item : Json} {name : Bytes} {standard a : α}
    {Is Is' : Json → α → Prop} (h : IsEffective document item name standard Is a)
    (himp : ∀ v a, Is v a → Is' v a) : IsEffective document item name standard Is' a := by
  cases h with
  | own hown ha => exact .own hown (himp _ _ ha)
  | shared hown hdefaults hv ha => exact .shared hown hdefaults hv (himp _ _ ha)
  | standard hown hshared => exact .standard hown hshared

/-- What one layer does to a part of a timing, two of them do over the standard one. -/
theorem isEffective_of_layers {α : Type} {f : Timing → α} {name : Bytes} {Is : Json → α → Prop}
    (hlayer : ∀ {under object t}, Layers under object t → object.Given name (f under) Is (f t))
    {document item : Json} {defaults t : Timing}
    (hdefaults : document.Given (ascii "defaults") Timing.standard IsDefaults defaults)
    (hitem : Layers defaults item t) :
    IsEffective document item name (f Timing.standard) Is (f t) := by
  rcases Json.given_iff.mp (hlayer hitem) with ⟨hnone, hunder⟩ | ⟨v, hv, ha⟩
  · rw [hunder]
    rcases Json.given_iff.mp hdefaults with ⟨hmissing, rfl⟩ | ⟨object, hobject, hshared⟩
    · exact .standard hnone fun v hv => nomatch hmissing.symm.trans hv
    · rcases Json.given_iff.mp (hlayer hshared.layers) with ⟨hmissing, hstandard⟩ | ⟨v, hv, ha⟩
      · rw [hstandard]
        refine .standard hnone fun other hother => ?_
        rwa [Option.some.inj (hobject.symm.trans hother)] at hmissing
      · exact .shared hnone hobject hv ha
  · exact .own hv ha

theorem inRange_of_given {object : Json} {name : Bytes} {fallback n : Nat}
    (h : object.Given name fallback IsDuration n) (hfallback : InRange fallback) : InRange n := by
  rcases Json.given_iff.mp h with ⟨-, rfl⟩ | ⟨v, -, hv⟩
  · exact hfallback
  · exact hv.2

theorem Layers.isSound {under t : Timing} {object : Json} (h : Layers under object t)
    (hunder : ∀ n ∈ [under.interval, under.timeout, under.base, under.max], InRange n) :
    IsSound t := by
  simp only [List.forall_mem_cons] at hunder
  obtain ⟨hinterval, htimeout, hbase, hmax, -⟩ := hunder
  refine ⟨?_, h.ordered, h.fraction⟩
  simp only [List.forall_mem_cons]
  exact ⟨inRange_of_given h.interval hinterval, inRange_of_given h.timeout htimeout,
    inRange_of_given h.base hbase, inRange_of_given h.max hmax, nofun⟩

theorem inRange_standard :
    ∀ n ∈ [Timing.standard.interval, Timing.standard.timeout, Timing.standard.base,
      Timing.standard.max], InRange n := by
  simp only [List.forall_mem_cons, Timing.standard, InRange]
  exact ⟨by omega, by omega, by omega, by omega, nofun⟩

theorem inRange_defaults {document : Json} {defaults : Timing}
    (h : document.Given (ascii "defaults") Timing.standard IsDefaults defaults) :
    ∀ n ∈ [defaults.interval, defaults.timeout, defaults.base, defaults.max], InRange n := by
  rcases Json.given_iff.mp h with ⟨-, rfl⟩ | ⟨v, -, hv⟩
  · exact inRange_standard
  · exact (hv.layers.isSound inRange_standard).durations

theorem isTiming_of_layers {document item : Json} {defaults t : Timing}
    (hdefaults : document.Given (ascii "defaults") Timing.standard IsDefaults defaults)
    (hitem : Layers defaults item t) : IsTiming document item t := by
  constructor
  case interval =>
    exact (isEffective_of_layers (f := Timing.interval) Layers.interval hdefaults hitem).imp
      fun _ _ h => h.1
  case timeout =>
    exact (isEffective_of_layers (f := Timing.timeout) Layers.timeout hdefaults hitem).imp
      fun _ _ h => h.1
  case base =>
    exact (isEffective_of_layers (f := Timing.base) Layers.base hdefaults hitem).imp
      fun _ _ h => h.1
  case max =>
    exact (isEffective_of_layers (f := Timing.max) Layers.max hdefaults hitem).imp
      fun _ _ h => h.1
  case jitter => exact isEffective_of_layers (f := Timing.jitter) Layers.jitter hdefaults hitem

/-! ## Jobs -/

/-- The roles that have a job without being named, in the order of their names. -/
def builtInJobs : List (Bytes × Bytes) :=
  [(ascii "api_boundary", ascii "api_boundary_node"), (ascii "boundary", ascii "boundary_node"),
    (ascii "replica", ascii "replica"), (ascii "unassigned", ascii "unassigned_node")]

/-- What a document says of a role in its jobs. -/
def Json.jobMember? (document : Json) (role : Bytes) : Option Json :=
  (document.member? (ascii "jobs")).bind (Json.member? role)

/-- The job rules of a document: its own jobs, each of them a text, over the built-in ones. -/
structure IsRuled (document : Json) (rules : JobRules) : Prop where
  texts : ∀ role v, document.jobMember? role = some v → ∃ job, v = .string job ∧ job ≠ []
  get : ∀ role, rules.get? role =
    ((document.jobMember? role).bind Json.string?).or (SortedMap.valueAt role builtInJobs)
  kept : ∀ e ∈ builtInJobs, (rules.get? e.1).isSome = true

theorem get?_standard (role : Bytes) :
    JobRules.standard.get? role = SortedMap.valueAt role builtInJobs := by
  have hentries : JobRules.standard.entries = builtInJobs := by decide
  rw [SortedMap.get?, hentries]

theorem isRuled_of_rules {document : Json} {rules : JobRules}
    (h : document.Given (ascii "jobs") JobRules.standard IsRules rules) :
    IsRuled document rules := by
  have htexts : ∀ role v, document.jobMember? role = some v →
      ∃ job, v = .string job ∧ job ≠ [] := by
    intro role v hv
    obtain ⟨jobs, hjobs, hv⟩ := Option.bind_eq_some_iff.mp hv
    rw [Json.Given, hjobs] at h
    obtain ⟨job, hjob⟩ := h.jobs role v hv
    exact ⟨job, hjob.value, hjob.job⟩
  have hget : ∀ role, rules.get? role =
      ((document.jobMember? role).bind Json.string?).or (SortedMap.valueAt role builtInJobs) := by
    intro role
    rw [← get?_standard, Json.jobMember?]
    rcases Json.given_iff.mp h with ⟨hmissing, rfl⟩ | ⟨jobs, hjobs, hrules⟩
    · rw [hmissing]
      rfl
    · rw [hjobs, hrules.get, Option.bind_some]
  refine ⟨htexts, hget, fun e he => ?_⟩
  have hbuiltIn : ∀ e ∈ builtInJobs, (SortedMap.valueAt e.1 builtInJobs).isSome = true := by decide
  rw [hget, Option.isSome_or, hbuiltIn e he, Bool.or_true]

/-! ## Instances and the rest -/

/-- What two configurations have in common if their documents have something in common. What one
says of its other instances has no part in it. -/
structure Agrees (document document' : Json) (items items' : List Json) (c c' : Config) : Prop where
  restarts : document.member? (ascii "supervisor") = document'.member? (ascii "supervisor") →
    c.restarts = c'.restarts
  rules : document.member? (ascii "jobs") = document'.member? (ascii "jobs") → c.rules = c'.rules
  entries : document.member? (ascii "defaults") = document'.member? (ascii "defaults") →
    ∀ i j : Nat, items[i]? = items'[j]? → c.entries[i]? = c'.entries[j]?

section Agreement

variable {files : Files} {directory : Bytes} {document document' : Json} {c c' : Config}

theorem getElem?_entries {defaults : Timing} {items items' : List Json}
    {entries entries' : List Entry}
    (h : List.Forall₂ (IsEntry files directory defaults) items entries)
    (h' : List.Forall₂ (IsEntry files directory defaults) items' entries') {i j : Nat}
    (hsame : items[i]? = items'[j]?) : entries[i]? = entries'[j]? := by
  have hread : ∀ {items entries}, List.Forall₂ (IsEntry files directory defaults) items entries →
      items.map (Config.readEntry files directory defaults 0) = entries.map .ok := by
    intro items entries h
    rw [← List.forall₂_eq_eq_eq, List.forall₂_map_left_iff, List.forall₂_map_right_iff]
    exact h.imp fun _ _ => Config.readEntry_eq_ok.mpr
  have hok : Function.Injective (Except.ok : Entry → Except ConfigError Entry) :=
    fun _ _ => Except.ok.inj
  refine Option.map_injective hok ?_
  rw [← List.getElem?_map, ← List.getElem?_map, ← hread h, ← hread h', List.getElem?_map,
    List.getElem?_map, hsame]

theorem Describes.agrees {items items' : List Json} (h : Describes files directory document c)
    (h' : Describes files directory document' c')
    (hitems : document.member? (ascii "instances") = some (.array items))
    (hitems' : document'.member? (ascii "instances") = some (.array items')) :
    Agrees document document' items items' c c' := by
  constructor
  case restarts =>
    intro hsame
    have hread := Config.readRestarts_eq_ok.mpr ((Json.given_congr hsame).mp h.restarts)
    exact Except.ok.inj (hread.symm.trans (Config.readRestarts_eq_ok.mpr h'.restarts))
  case rules =>
    intro hsame
    have hread := Config.readRules_eq_ok.mpr ((Json.given_congr hsame).mp h.rules)
    exact Except.ok.inj (hread.symm.trans (Config.readRules_eq_ok.mpr h'.rules))
  case entries =>
    intro hsame i j hij
    obtain ⟨defaults, _, hdefaults, hv, hinstances⟩ := h.instances
    obtain ⟨defaults', _, hdefaults', hv', hinstances'⟩ := h'.instances
    obtain ⟨_, rfl, hentries⟩ := hinstances.items
    obtain ⟨_, rfl, hentries'⟩ := hinstances'.items
    cases hitems.symm.trans hv
    cases hitems'.symm.trans hv'
    have hread := Config.readDefaults_eq_ok.mpr ((Json.given_congr hsame).mp hdefaults)
    obtain rfl := Except.ok.inj (hread.symm.trans (Config.readDefaults_eq_ok.mpr hdefaults'))
    exact getElem?_entries hentries hentries' hij

end Agreement

/-- An instance has the name of its item, and the timing that the item has in the document. -/
structure IsLayered (document item : Json) (e : Entry) : Prop where
  name : item.member? (ascii "name") = some (.string e.name)
  timing : IsTiming document item e.timing
  sound : IsSound e.timing

namespace Config

/-- A text that is accepted is read as a document that gives every instance its timing and the roles
their jobs layer by layer, and no instance has a part in anything but itself. -/
theorem layered_of_parse [Json.Reader] {files : Files} {directory text : Bytes} {c : Config}
    (h : parse files directory text = .ok (.ok c)) :
    ∃ document items, Json.Reader.read true text = .ok document ∧
      document.member? (ascii "instances") = some (.array items) ∧
        List.Forall₂ (IsLayered document) items c.entries ∧ IsRuled document c.rules ∧
          ∀ text' document' items' c', parse files directory text' = .ok (.ok c') →
            Json.Reader.read true text' = .ok document' →
              document'.member? (ascii "instances") = some (.array items') →
                Agrees document document' items items' c c' := by
  obtain ⟨document, hread, hdescribes⟩ := parse_eq_ok.mp h
  obtain ⟨defaults, _, hdefaults, hitems, hinstances⟩ := hdescribes.instances
  obtain ⟨items, rfl, hentries⟩ := hinstances.items
  refine ⟨document, items, hread, hitems, ?_,
    isRuled_of_rules hdescribes.rules, ?_⟩
  · exact hentries.imp fun _ _ he => ⟨he.name, isTiming_of_layers hdefaults he.timing,
      he.timing.isSound (inRange_defaults hdefaults)⟩
  · intro text' document' items' c' h' htext' hitems'
    obtain ⟨other, hread', hdescribes'⟩ := parse_eq_ok.mp h'
    obtain rfl := Except.ok.inj (hread'.symm.trans htext')
    exact hdescribes.agrees hdescribes' hitems hitems'

/-- Defaults and a job, an instance with an interval of its own, and one behind it without. -/
def layeredText : Bytes :=
  ascii "\x7b\"defaults\":\x7b\"poll_interval_ms\":5000,\"backoff_jitter\":0.0\x7d," ++
    ascii "\"jobs\":\x7b\"ledger\":\"ledger_node\"\x7d,\"instances\":[" ++
    ascii "\x7b\"name\":\"a1\",\"registry_url\":\"http://r1\",\"insecure\":true," ++
    ascii "\"poll_interval_ms\":100\x7d," ++
    ascii "\x7b\"name\":\"b-2\",\"registry_url\":\"http://r2\",\"insecure\":true\x7d]\x7d"

/-- Whether a text was accepted, its instances are polled so often, and it has a fifth job. -/
def isLayered : Except Fault (Except ConfigError Config) → Bool
  | .ok (.ok c) => c.entries.map (·.timing.interval) = [100, 5000] ∧ c.rules.size = 5
  | _ => false

theorem layered_defaults :
    ∃ c, parse (.ofReadings []) [] layeredText = .ok (.ok c) ∧
      c.entries.map (·.timing.interval) = [100, 5000] ∧ c.rules.size = 5 ∧
        ∃ document items, Json.Reader.read true layeredText = .ok document ∧
          document.member? (ascii "instances") = some (.array items) ∧
            List.Forall₂ (IsLayered document) items c.entries ∧ IsRuled document c.rules := by
  have hparse : isLayered (parse (.ofReadings []) [] layeredText) = true := by decide +kernel
  unfold isLayered at hparse
  split at hparse
  · rename_i c hc
    obtain ⟨hintervals, hjobs⟩ := of_decide_eq_true hparse
    obtain ⟨document, items, htext, hitems, hentries, hrules, -⟩ := layered_of_parse hc
    exact ⟨c, hc, hintervals, hjobs, document, items, htext, hitems, hentries, hrules⟩
  · cases hparse

end Config

end TargetDiscovery
