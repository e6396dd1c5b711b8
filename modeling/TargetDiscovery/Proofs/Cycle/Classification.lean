import TargetDiscovery.Proofs.Cycle.Ending
import TargetDiscovery.Proofs.Target.Identities

/-!
# The outcome of a cycle

For each outcome there is one condition on the fetch, the current snapshot, the verifier and the
records, and the outcome is reached exactly under this condition. The conditions exclude each other.
Only a published cycle changes what is current.
-/

set_option autoImplicit false

namespace TargetDiscovery

def Reply.within (r : Reply) (timeout : Nat) : Option FetchResult :=
  match r.delay with
  | some delay => if delay < timeout then some r.result else none
  | none => none

namespace Reply

variable {r : Reply} {timeout : Nat}

theorem within_eq_none_iff :
    r.within timeout = none ↔ ∀ delay, r.delay = some delay → timeout ≤ delay := by
  rw [within]
  cases r.delay with
  | none => exact ⟨fun _ => nofun, fun _ => rfl⟩
  | some delay =>
    by_cases hlt : delay < timeout
    · simp [hlt]
    · simp [hlt, Nat.not_lt.mp hlt]

theorem within_eq_some_iff {result : FetchResult} :
    r.within timeout = some result ↔ ∃ delay, r = ⟨some delay, result⟩ ∧ delay < timeout := by
  rcases r with ⟨_ | delay, brought⟩
  · simp [within]
  · by_cases hlt : delay < timeout
    · simp [within, hlt]
    · simp only [within, if_neg hlt]
      exact ⟨nofun, fun ⟨_, heq, hin⟩ => by cases heq; exact absurd hin hlt⟩

end Reply

namespace Store

def Knows (s : Store) (version : UInt64) : Prop := ∃ k, s.current = some k ∧ k.version = version

def Precedes (s : Store) (version : UInt64) : Prop :=
  s.current = none ∨ ∃ k, s.current = some k ∧ k.version < version

def Exceeds (s : Store) (version : UInt64) : Prop :=
  ∃ k, s.current = some k ∧ version < k.version

theorem not_knows {s : Store} {version : UInt64}
    (h : ∀ k, s.current = some k → k.version ≠ version) : ¬ s.Knows version := by
  rintro ⟨k, hk, hv⟩
  exact h k hk hv

theorem precedes_of_newer {s : Store} {next : Snapshot} (h : s.isNewer next = true) :
    s.Precedes next.version ∧ ¬ s.Exceeds next.version := by
  unfold isNewer at h
  cases hc : s.current with
  | none => exact ⟨.inl hc, by simp [Exceeds, hc]⟩
  | some k =>
    have hlt : k.version.toNat < next.version.toNat := by simpa [hc] using h
    refine ⟨.inr ⟨k, hc, UInt64.lt_iff_toNat_lt.mpr hlt⟩, ?_⟩
    rintro ⟨j, hj, hgt⟩
    cases hc.symm.trans hj
    have := UInt64.lt_iff_toNat_lt.mp hgt
    omega

theorem exceeds_of_not_newer {s : Store} {next : Snapshot} (h : s.isNewer next = false)
    (hk : ∀ k, s.current = some k → k.version ≠ next.version) :
    s.Exceeds next.version ∧ ¬ s.Precedes next.version := by
  unfold isNewer at h
  cases hc : s.current with
  | none => simp [hc] at h
  | some k =>
    have hle : ¬ k.version.toNat < next.version.toNat := by simpa [hc] using h
    have hne : k.version.toNat ≠ next.version.toNat := fun he => hk k hc (UInt64.toNat_inj.mp he)
    refine ⟨⟨k, hc, UInt64.lt_iff_toNat_lt.mpr (by omega)⟩, ?_⟩
    rintro (hnone | ⟨j, hj, hlt⟩)
    · cases hc.symm.trans hnone
    · cases hc.symm.trans hj
      have := UInt64.lt_iff_toNat_lt.mp hlt
      omega

end Store

namespace Setup

def News (store : Store) (fetched : Option FetchResult) (state : RegistryState) : Prop :=
  fetched = some (.ok (.ok state)) ∧ ¬ store.Knows state.version

def Distinct (s : Setup) (state : RegistryState) : Prop :=
  ((s.conversion.accepted state.records).map Target.identity).Nodup

/-- The result of a cycle by what its fetch brought in time. -/
structure Classified (s : Setup) (store : Store) (fetched : Option FetchResult)
    (result : Except Fault Outcome) : Prop where
  fetchFailed : result = .ok .fetchFailed ↔
    fetched = none ∨ ∃ e, fetched = some (.ok (.error e))
  unchanged : result = .ok .unchanged ↔
    ∃ state, fetched = some (.ok (.ok state)) ∧ store.Knows state.version
  verificationFailed : result = .ok .verificationFailed ↔
    ∃ state, News store fetched state ∧ s.verifier.trusts state = .ok false
  buildFailed : result = .ok .buildFailed ↔
    ∃ state, News store fetched state ∧ s.verifier.trusts state = .ok true ∧ ¬ s.Distinct state
  published : result = .ok .published ↔
    ∃ state, News store fetched state ∧ s.verifier.trusts state = .ok true ∧ s.Distinct state ∧
      store.Precedes state.version
  stale : result = .ok .stale ↔
    ∃ state, News store fetched state ∧ s.verifier.trusts state = .ok true ∧ s.Distinct state ∧
      store.Exceeds state.version
  throws : ∀ fault, result = .error fault ↔
    fetched = some (.error fault) ∨
      ∃ state, News store fetched state ∧ s.verifier.trusts state = .error fault

/-- The current snapshot behind a cycle: the whole listing of a new state, or the one before. -/
def Keeps (s : Setup) (store store' : Store) (time : Int) (fetched : Option FetchResult)
    (result : Except Fault Outcome) : Prop :=
  (result = .ok .published → ∃ state l, fetched = some (.ok (.ok state)) ∧
    s.conversion.listing state.records = .ok l ∧
    store'.current = some ⟨s.name, state.version, l.targets, time, l.skipped⟩) ∧
  (result ≠ .ok .published → store'.current = store.current)

/-- What a cycle reports: one event of its outcome, and none if it ends with a fault. -/
def Reports (s : Setup) (events : List CycleEvent) : Except Fault Outcome → Prop
  | .ok o => ∃ e, events = [e] ∧ e.owner = s.name ∧ e.outcome = o
  | .error _ => events = []

section

variable {s : Setup} {store store' : Store} {time : Int} {events : List CycleEvent}
  {result : Except Fault Outcome}

theorem Ends.classified {fetched : FetchResult} (hname : s.name = store.name)
    (h : Ends s store.current store time fetched store' events result) :
    s.Classified store (some fetched) result := by
  cases h with
  | fetchFaulted => constructor <;> simp [News]
  | fetchFailed => constructor <;> simp [News]
  | unchanged hk hv =>
    have hknows : store.Knows _ := ⟨_, hk, hv⟩
    constructor <;> simp [News, hknows, and_assoc]
  | checkFaulted hk ht =>
    have hnew := Store.not_knows hk
    constructor <;> simp [News, hnew, ht, and_assoc]
  | distrusted hk ht =>
    have hnew := Store.not_knows hk
    constructor <;> simp [News, hnew, ht, and_assoc]
  | collided hk ht hl =>
    have hnew := Store.not_knows hk
    have hcollide : ¬ s.Distinct _ := Conversion.not_nodup_of_listing hl
    constructor <;> simp [News, hnew, ht, hcollide, and_assoc]
  | @installed state l hk ht hl _ hgreater =>
    have hnew := Store.not_knows hk
    have hdistinct : s.Distinct state := Conversion.nodup_of_listing hl
    obtain ⟨hprecedes, hexceeds⟩ : store.Precedes state.version ∧ ¬ store.Exceeds state.version :=
      Store.precedes_of_newer hgreater
    constructor <;> simp [News, hnew, ht, hdistinct, hprecedes, hexceeds, and_assoc]
  | @stale state l hk ht hl _ hold =>
    have hnew := Store.not_knows hk
    have hdistinct : s.Distinct state := Conversion.nodup_of_listing hl
    obtain ⟨hexceeds, hprecedes⟩ : store.Exceeds state.version ∧ ¬ store.Precedes state.version :=
      Store.exceeds_of_not_newer hold hk
    constructor <;> simp [News, hnew, ht, hdistinct, hprecedes, hexceeds, and_assoc]
  | rejected _ _ _ hne => exact absurd hname hne

theorem Ends.classified_late {e : FetchError}
    (h : Ends s store.current store time (.ok (.error e)) store' events result) :
    s.Classified store none result := by
  cases h with
  | fetchFailed => constructor <;> simp [News]

theorem Ends.keeps {known : Option Snapshot} {fetched : FetchResult}
    (h : Ends s known store time fetched store' events result) :
    s.Keeps store store' time (some fetched) result := by
  cases h with
  | installed _ _ hl => exact ⟨fun _ => ⟨_, _, rfl, hl, rfl⟩, fun hne => absurd rfl hne⟩
  | _ =>
    constructor
    · intro h
      cases h
    · intro _
      rfl

theorem Ends.keeps_late {known : Option Snapshot} {e : FetchError}
    (h : Ends s known store time (.ok (.error e)) store' events result) :
    s.Keeps store store' time none result := by
  cases h with
  | fetchFailed =>
    constructor
    · intro h
      cases h
    · intro _
      rfl

theorem Ends.reports {known : Option Snapshot} {fetched : FetchResult}
    (h : Ends s known store time fetched store' events result) : s.Reports events result := by
  cases h with
  | fetchFaulted => rfl
  | checkFaulted => rfl
  | _ => exact ⟨_, rfl, rfl, rfl⟩

end

end Setup

end TargetDiscovery
