import TargetDiscovery.Config
import TargetDiscovery.Proofs.Json.Members

/-!
# What the sections of a configuration say

Every section is read by a function of its own, which ends at the first thing that is wrong. Here
each one gets a relation between the value in the document and what it stands for, free of any
order of reading, and a lemma that says that the function finds exactly that.
-/

set_option autoImplicit false

namespace TargetDiscovery

/-! ## Timing -/

/-- A duration that may be configured: from a millisecond up to a day. -/
def IsDuration (v : Json) (n : Nat) : Prop := v.IsNat n ∧ 1 ≤ n ∧ n ≤ 86400000

/-- The timing of an object over another one, which counts where a member is missing. What is
said of the result is said of the two together. -/
structure Layers (under : Timing) (object : Json) (t : Timing) : Prop where
  interval : object.Given (ascii "poll_interval_ms") under.interval IsDuration t.interval
  timeout : object.Given (ascii "fetch_timeout_ms") under.timeout IsDuration t.timeout
  base : object.Given (ascii "backoff_base_ms") under.base IsDuration t.base
  max : object.Given (ascii "backoff_max_ms") under.max IsDuration t.max
  jitter : object.Given (ascii "backoff_jitter") under.jitter Json.IsNumber t.jitter
  fraction : 0.0 ≤ t.jitter ∧ t.jitter < 1.0
  ordered : t.base ≤ t.max

namespace Config

theorem durationAt_eq_ok {place : TimingPlace} {object : Json} {member : Bytes}
    {fallback n : Nat} :
    durationAt place object member fallback = .ok n ↔
      object.Given member fallback IsDuration n :=
  Json.given_eq_ok fun _ => Json.positive_eq_ok

theorem jitterAt_eq_ok {place : TimingPlace} {object : Json} {fallback x : Float} :
    jitterAt place object fallback = .ok x ↔
      object.Given (ascii "backoff_jitter") fallback Json.IsNumber x := by
  unfold jitterAt Json.Given
  cases object.member? (ascii "backoff_jitter") with
  | none => exact ok_eq_ok
  | some v => cases v <;> simp [Json.IsNumber]

theorem layer_eq_ok {place : TimingPlace} {object : Json} {under t : Timing} :
    layer place object under = .ok t ↔ Layers under object t := by
  unfold layer
  simp only [bind_eq_ok, durationAt_eq_ok, jitterAt_eq_ok, refuse_eq_ok, Nat.not_lt,
    Bool.not_eq_true', Bool.not_eq_false, Bool.and_eq_true, decide_eq_true_eq]
  constructor
  · rintro ⟨interval, hinterval, timeout, htimeout, base, hbase, max, hmax, jitter, hjitter,
      hfraction, hordered, h⟩
    cases h
    exact ⟨hinterval, htimeout, hbase, hmax, hjitter, hfraction, hordered⟩
  · exact fun h => ⟨_, h.interval, _, h.timeout, _, h.base, _, h.max, _, h.jitter, h.fraction,
      h.ordered, rfl⟩

end Config

/-! ## Sections with values of their own -/

/-- The names of the severities; two of them have a short one as well. -/
def levelNames : List Bytes :=
  [ascii "trace", ascii "debug", ascii "info", ascii "warn", ascii "warning", ascii "err",
    ascii "error", ascii "critical", ascii "off"]

def IsLogName (v : Json) (name : Bytes) : Prop := v = .string name ∧ name ∈ levelNames

def IsAddress (v : Json) (address : Bytes) : Prop := v = .string address

def IsPort (v : Json) (port : Nat) : Prop := v.IsNat port ∧ port ≤ 65535

structure IsListen (v : Json) (listen : Bytes × Nat) : Prop where
  object : v.isObject = true
  address : v.Given (ascii "address") Config.standardAddress IsAddress listen.1
  port : v.Given (ascii "port") Config.standardPort IsPort listen.2

def IsThreads (v : Json) (n : Nat) : Prop := v.IsNat n ∧ 1 ≤ n ∧ n ≤ 4294967295

def IsLimit (v : Json) (n : Nat) : Prop := v.IsNat n ∧ n ≤ 4294967295

structure IsRestarts (v : Json) (r : RestartRule) : Prop where
  object : v.isObject = true
  limit : v.Given (ascii "max_restarts") RestartRule.standard.limit IsLimit r.limit
  base : v.Given (ascii "restart_backoff_ms") 1000 IsDuration r.base
  max : v.Given (ascii "restart_backoff_max_ms") 30000 IsDuration r.max
  jitter : r.jitter = RestartRule.standard.jitter
  ordered : r.base ≤ r.max

structure IsDefaults (v : Json) (t : Timing) : Prop where
  object : v.isObject = true
  layers : Layers Timing.standard v t

theorem LogLevel.isSome_ofName? {name : Bytes} :
    (LogLevel.ofName? name).isSome = true ↔ name ∈ levelNames := by
  constructor
  · unfold ofName?
    split
    · rintro -
      rename_i h
      exact h ▸ by decide
    · split
      · rintro -
        rename_i h
        exact h ▸ by decide
      · intro h
        obtain ⟨level, -, hname⟩ := List.find?_isSome.mp h
        rw [← of_decide_eq_true hname]
        cases level <;> decide
  · simp only [levelNames, List.mem_cons, List.not_mem_nil, or_false]
    rintro (rfl | rfl | rfl | rfl | rfl | rfl | rfl | rfl | rfl) <;> decide

namespace Config

theorem readLogName_eq_ok {document : Json} {name : Bytes} :
    readLogName document = .ok name ↔
      document.Given (ascii "log_level") standardLogName IsLogName name := by
  refine Json.given_eq_ok fun v => ?_
  rw [IsLogName, ← Json.string?_eq_some]
  cases v.string? with
  | none => simp only [reduceCtorEq, false_and]
  | some s =>
    simp only [guard_eq_ok, LogLevel.isSome_ofName?, Except.ok.injEq, Option.some.injEq]
    exact and_eq_iff

theorem readAddress_eq_ok {listen : Json} {address : Bytes} :
    readAddress listen = .ok address ↔
      listen.Given (ascii "address") standardAddress IsAddress address := by
  refine Json.given_eq_ok fun v => ?_
  rw [IsAddress, ← Json.string?_eq_some]
  cases v.string? with
  | none => simp only [reduceCtorEq]
  | some s => simp only [Except.ok.injEq, Option.some.injEq]

theorem readPort_eq_ok {listen : Json} {port : Nat} :
    readPort listen = .ok port ↔ listen.Given (ascii "port") standardPort IsPort port := by
  refine Json.given_eq_ok fun v => ?_
  rw [IsPort, ← Nat.lt_succ_iff, ← Json.natBelow?_eq_some]
  cases v.natBelow? 65536 with
  | none => simp only [reduceCtorEq]
  | some n => simp only [Except.ok.injEq, Option.some.injEq]

theorem readListen_eq_ok {document : Json} {listen : Bytes × Nat} :
    readListen document = .ok listen ↔
      document.Given (ascii "listen") (standardAddress, standardPort) IsListen listen := by
  refine Json.given_eq_ok fun v => guard_eq_ok.trans ?_
  simp only [bind_eq_ok, readAddress_eq_ok, readPort_eq_ok]
  constructor
  · rintro ⟨hobject, address, haddress, port, hport, h⟩
    cases h
    exact ⟨hobject, haddress, hport⟩
  · exact fun h => ⟨h.object, _, h.address, _, h.port, rfl⟩

theorem readThreads_eq_ok {document : Json} {n : Nat} :
    readThreads document = .ok n ↔
      document.Given (ascii "io_threads") standardThreads IsThreads n :=
  Json.given_eq_ok fun _ => Json.positive_eq_ok

theorem readLimit_eq_ok {v : Json} {n : Nat} :
    readLimit v = .ok n ↔
      v.Given (ascii "max_restarts") RestartRule.standard.limit IsLimit n := by
  refine Json.given_eq_ok fun w => ?_
  rw [IsLimit, ← Nat.lt_succ_iff, ← Json.natBelow?_eq_some]
  cases w.natBelow? UInt32.size with
  | none => simp only [reduceCtorEq]
  | some n => simp only [Except.ok.injEq, Option.some.injEq]

theorem readRestarts_eq_ok {document : Json} {r : RestartRule} :
    readRestarts document = .ok r ↔
      document.Given (ascii "supervisor") RestartRule.standard IsRestarts r := by
  refine Json.given_eq_ok fun v => guard_eq_ok.trans ?_
  simp only [bind_eq_ok, readLimit_eq_ok, durationAt_eq_ok, refuse_eq_ok, Nat.not_lt]
  constructor
  · rintro ⟨hobject, limit, hlimit, base, hbase, max, hmax, hordered, h⟩
    cases h
    exact ⟨hobject, hlimit, hbase, hmax, rfl, hordered⟩
  · exact fun h => ⟨h.object, _, h.limit, _, h.base, _, h.max, h.ordered, by rw [← h.jitter]⟩

theorem readDefaults_eq_ok {document : Json} {t : Timing} :
    readDefaults document = .ok t ↔
      document.Given (ascii "defaults") Timing.standard IsDefaults t := by
  refine Json.given_eq_ok fun v => guard_eq_ok.trans ?_
  rw [layer_eq_ok]
  exact ⟨fun h => ⟨h.1, h.2⟩, fun h => ⟨h.object, h.layers⟩⟩

end Config

/-! ## Jobs -/

/-- The job that a member gives to a role; neither of the two may be empty. -/
structure IsJob (role : Bytes) (v : Json) (job : Bytes) : Prop where
  value : v = .string job
  role : role ≠ []
  job : job ≠ []

/-- The job rules of an object over the standard ones, which stay where it does not name a role. -/
structure IsRules (v : Json) (rules : JobRules) : Prop where
  object : v.isObject = true
  jobs : ∀ role w, v.member? role = some w → ∃ job, IsJob role w job
  get : ∀ role, rules.get? role =
    ((v.member? role).bind Json.string?).or (JobRules.standard.get? role)

namespace Config

theorem readJob_eq_ok {role job : Bytes} {v : Json} :
    readJob role v = .ok job ↔ IsJob role v job := by
  unfold readJob
  constructor
  · intro h
    split at h
    · rename_i s hs
      simp only [refuse_eq_ok, Bool.or_eq_true, List.isEmpty_iff, not_or] at h
      obtain ⟨⟨hrole, hjob⟩, ⟨⟩⟩ := h
      exact ⟨Json.string?_eq_some.mp hs, hrole, hjob⟩
    · cases h
  · rintro ⟨rfl, hrole, hjob⟩
    simp only [Json.string?, refuse_eq_ok, Bool.or_eq_true, List.isEmpty_iff, hrole, hjob, or_self,
      not_false_eq_true, and_self]

/-- Adding jobs to rules, one for each role: every one of them must be right, and they count before
the rules. -/
theorem addJobs_eq_ok {l : List (Bytes × Json)} {rules after : JobRules}
    (hl : l.Pairwise fun a b => Ranked.before a.1 b.1 = true) :
    addJobs rules l = .ok after ↔
      (∀ e ∈ l, ∃ job, IsJob e.1 e.2 job) ∧
        ∀ role, after.get? role =
          ((SortedMap.valueAt role l).bind Json.string?).or (rules.get? role) := by
  induction l generalizing rules with
  | nil =>
    refine ok_eq_ok.trans ⟨?_, fun h => SortedMap.ext_get? h.2⟩
    rintro rfl
    exact ⟨nofun, fun _ => rfl⟩
  | cons e l ih =>
    obtain ⟨role, v⟩ := e
    obtain ⟨hbefore, hl⟩ := List.pairwise_cons.mp hl
    rw [addJobs]
    cases hjob : readJob role v with
    | error x =>
      refine ⟨nofun, fun h => ?_⟩
      obtain ⟨job, h⟩ := h.1 _ List.mem_cons_self
      exact nomatch hjob.symm.trans (readJob_eq_ok.mpr h)
    | ok job =>
      have his := readJob_eq_ok.mp hjob
      have hget : ∀ other, ((SortedMap.valueAt other ((role, v) :: l)).bind Json.string?).or
          (rules.get? other) = ((SortedMap.valueAt other l).bind Json.string?).or
            ((rules.insert role job).get? other) := by
        intro other
        rw [SortedMap.get?_insert, SortedMap.valueAt]
        split
        · rename_i hrole
          rw [SortedMap.valueAt_eq_none (hrole ▸ hbefore), his.value]
          rfl
        · rfl
      refine (ih hl).trans ?_
      simp only [hget, List.forall_mem_cons]
      exact and_congr_left fun _ => ⟨fun h => ⟨⟨job, his⟩, h⟩, fun h => h.2⟩

theorem addJobs_memberDict {v : Json} {rules : JobRules} :
    v.isObject = true ∧ addJobs JobRules.standard v.memberDict.entries = .ok rules ↔
      IsRules v rules := by
  have hjobs : (∀ e ∈ v.memberDict.entries, ∃ job, IsJob e.1 e.2 job) ↔
      ∀ role w, v.member? role = some w → ∃ job, IsJob role w job := by
    simp only [Prod.forall, SortedMap.mem_entries, Json.get?_memberDict]
  have hvalue : ∀ role, SortedMap.valueAt role v.memberDict.entries = v.member? role :=
    v.get?_memberDict
  rw [addJobs_eq_ok v.memberDict.ascending, hjobs]
  simp only [hvalue]
  exact ⟨fun h => ⟨h.1, h.2.1, h.2.2⟩, fun h => ⟨h.object, h.jobs, h.get⟩⟩

theorem readRules_eq_ok {document : Json} {rules : JobRules} :
    readRules document = .ok rules ↔
      document.Given (ascii "jobs") JobRules.standard IsRules rules :=
  Json.given_eq_ok fun _ => guard_eq_ok.trans addJobs_memberDict

end Config

end TargetDiscovery
