import TargetDiscovery.Proofs.Backoff
import TargetDiscovery.Proofs.Clock
import TargetDiscovery.Proofs.Poller.Cycle

/-!
# Schedules

The history of an instance says when its cycles began, when and how they ended, and when its loop
was begun again after a crash. It settles what may come next, and at which time that is due. The
failures in a row and the crashes are counted from the history alone.
-/

set_option autoImplicit false

namespace TargetDiscovery

/-- What happens to an instance: a cycle begins with a store, and with a fetch whose reply is fixed
by then, a cycle ends, or the loop is begun again. -/
inductive Incident
  | begins (store : Store) (reply : Reply)
  | ends (conclusion : Conclusion)
  | relaunches

namespace Incident

def outcome? : Incident → Option Outcome
  | ends c => c.result.toOption
  | _ => none

def isCrash : Incident → Bool
  | ends c => !c.result.isOk
  | _ => false

end Incident

/-- What happened to an instance, the latest first. -/
abbrev History := List (Stamped Incident)

def outcomes (h : History) : List Outcome := h.filterMap fun e => e.entry.outcome?

/-- The number of cycles in a row that failed up to now. Crashes do not count, nor do they end the
row. -/
def streak (h : History) : Nat := ((outcomes h).takeWhile Outcome.isFailure).length

def crashes (h : History) : Nat := h.countP fun e => e.entry.isCrash

/-! ## Counting -/

section

variable {c : Conclusion} {t : Nat} (h : History)

theorem outcomes_of_ok {o : Outcome} (hc : c.result = .ok o) :
    outcomes (⟨t, .ends c⟩ :: h) = o :: outcomes h := by
  simp [outcomes, Incident.outcome?, hc, Except.toOption]

theorem outcomes_of_error {f : Fault} (hc : c.result = .error f) :
    outcomes (⟨t, .ends c⟩ :: h) = outcomes h := by
  simp [outcomes, Incident.outcome?, hc, Except.toOption]

theorem streak_of_failure {o : Outcome} (hc : c.result = .ok o) (ho : o.isFailure = true) :
    streak (⟨t, .ends c⟩ :: h) = streak h + 1 := by
  rw [streak, outcomes_of_ok h hc, List.takeWhile_cons_of_pos ho]
  rfl

theorem streak_of_success {o : Outcome} (hc : c.result = .ok o) (ho : o.isFailure = false) :
    streak (⟨t, .ends c⟩ :: h) = 0 := by
  rw [streak, outcomes_of_ok h hc, List.takeWhile_cons_of_neg (by simp [ho])]
  rfl

theorem streak_of_error {f : Fault} (hc : c.result = .error f) :
    streak (⟨t, .ends c⟩ :: h) = streak h := by
  rw [streak, outcomes_of_error h hc]
  rfl

theorem crashes_of_ok {o : Outcome} (hc : c.result = .ok o) :
    crashes (⟨t, .ends c⟩ :: h) = crashes h := by
  simp [crashes, Incident.isCrash, hc, Except.isOk, Except.toBool]

theorem crashes_of_error {f : Fault} (hc : c.result = .error f) :
    crashes (⟨t, .ends c⟩ :: h) = crashes h + 1 := by
  simp [crashes, Incident.isCrash, hc, Except.isOk, Except.toBool]

end

/-! ## When and what -/

/-- The delay behind the last outcome: the interval after a success, and that of the backoff after
failures. -/
def Timing.Rests (t : Timing) (h : History) (w : Int) : Prop :=
  match outcomes h with
  | [] => w = 0
  | o :: _ =>
    if o.isFailure then
      Backoff.Admitted t.base t.max → Backoff.Delays t.base t.max t.jitter (streak h) w
    else w = t.interval

/-- The delay of a restart behind the last crash. -/
def RestartRule.Waits (r : RestartRule) (h : History) (w : Int) : Prop :=
  Backoff.Admitted r.base r.max → Backoff.Delays r.base r.max r.jitter (crashes h) w

def Setup.fetched (s : Setup) (reply : Reply) : FetchResult :=
  (reply.within s.timing.timeout).getD s.timeoutResult

/-- The time at which the next incident is due. -/
inductive Due (rule : RestartRule) (s : Setup) : History → Nat → Prop
  | ends {b : Nat} {store : Store} {reply : Reply} {h : History} :
      Due rule s (⟨b, .begins store reply⟩ :: h)
        (b + Solo.duration s.timing.timeout reply.delay)
  | rests {e : Nat} {c : Conclusion} {o : Outcome} {h : History} {w : Int} (hc : c.result = .ok o)
      (hw : s.timing.Rests (⟨e, .ends c⟩ :: h) w) : Due rule s (⟨e, .ends c⟩ :: h) (e + w.toNat)
  | waits {e : Nat} {c : Conclusion} {f : Fault} {h : History} {w : Int}
      (hc : c.result = .error f) (hn : crashes (⟨e, .ends c⟩ :: h) ≤ rule.limit)
      (hw : rule.Waits (⟨e, .ends c⟩ :: h) w) : Due rule s (⟨e, .ends c⟩ :: h) (e + w.toNat)
  | again {t : Nat} {h : History} : Due rule s (⟨t, .relaunches⟩ :: h) t

/-- What may happen next, each at its due time. -/
inductive Follows (rule : RestartRule) (s : Setup) (epoch : Int) : History → Stamped Incident → Prop
  | first {t : Nat} {store : Store} {reply : Reply} :
      Follows rule s epoch [] ⟨t, .begins store reply⟩
  | ends {b e : Nat} {store : Store} {reply : Reply} {h : History}
      (ht : Due rule s (⟨b, .begins store reply⟩ :: h) e) :
      Follows rule s epoch (⟨b, .begins store reply⟩ :: h)
        ⟨e, .ends (s.conclude store.current store (epoch + e) (s.fetched reply))⟩
  | next {e t : Nat} {c : Conclusion} {o : Outcome} {store : Store} {reply : Reply} {h : History}
      (hc : c.result = .ok o) (ht : Due rule s (⟨e, .ends c⟩ :: h) t) :
      Follows rule s epoch (⟨e, .ends c⟩ :: h) ⟨t, .begins store reply⟩
  | relaunches {e t : Nat} {c : Conclusion} {f : Fault} {h : History} (hc : c.result = .error f)
      (ht : Due rule s (⟨e, .ends c⟩ :: h) t) :
      Follows rule s epoch (⟨e, .ends c⟩ :: h) ⟨t, .relaunches⟩
  | again {t t' : Nat} {store : Store} {reply : Reply} {h : History}
      (ht : Due rule s (⟨t, .relaunches⟩ :: h) t') :
      Follows rule s epoch (⟨t, .relaunches⟩ :: h) ⟨t', .begins store reply⟩

/-- Each incident is one that may follow those before it. -/
inductive Regular (rule : RestartRule) (s : Setup) (epoch : Int) : History → Prop
  | nil : Regular rule s epoch []
  | cons {h : History} {e : Stamped Incident} (hr : Regular rule s epoch h)
      (he : Follows rule s epoch h e) : Regular rule s epoch (e :: h)

namespace Regular

variable {rule : RestartRule} {s : Setup} {epoch : Int} {h : History}

theorem follows {e : Stamped Incident} (hr : Regular rule s epoch (e :: h)) :
    Follows rule s epoch h e := by
  cases hr
  assumption

/-- What was the history at some earlier time is regular as well. -/
theorem of_suffix {earlier : History} (hr : Regular rule s epoch h) (he : earlier <:+ h) :
    Regular rule s epoch earlier := by
  obtain ⟨later, rfl⟩ := he
  induction later with
  | nil => exact hr
  | cons e later ih =>
    cases hr with
    | cons hr => exact ih hr

/-- Nothing follows the crash that exceeds the limit. -/
theorem crashes_tail (hr : Regular rule s epoch h) : crashes h.tail ≤ rule.limit := by
  induction hr with
  | nil => exact Nat.zero_le _
  | @cons h e hr he ih =>
    have hkept : ∀ {x : Stamped Incident} {rest : History}, h = x :: rest →
        x.entry.isCrash = false → crashes h ≤ rule.limit := by
      rintro x rest rfl hx
      have htail : crashes rest ≤ rule.limit := ih
      rwa [crashes, List.countP_cons_of_neg (by simp [hx])]
    cases he with
    | first => exact Nat.zero_le _
    | ends => exact hkept rfl rfl
    | next hc =>
      refine hkept rfl ?_
      simp [Incident.isCrash, hc, Except.isOk, Except.toBool]
    | relaunches hc ht =>
      cases ht with
      | rests hok => exact absurd (hc.symm.trans hok) nofun
      | waits _ hn => exact hn
    | again => exact hkept rfl rfl

end Regular

/-! ## The end of a cycle -/

namespace Poller

/-- The pause behind an outcome is that of the backoff, or the interval. -/
structure Paused (p : Poller) (o : Outcome) (q : Poller) : Prop where
  backoff : q.backoff = if o.isFailure then p.backoff.next.2 else p.backoff.reset
  failures : q.failures = q.backoff.attempts
  lastDelay : q.lastDelay =
    if o.isFailure then p.backoff.next.1.toInt else p.setup.timing.interval

/-- A loop at the end of a cycle that is concluded as `c`. -/
inductive Ending (p : Poller) (c : Conclusion) (r : Reaction) : Prop
  | fails {f : Fault} (hc : c.result = .error f) (next : r.next = .exited (some f))
      (backoff : r.poller.backoff = p.backoff) (failures : r.poller.failures = p.failures)
      (lastDelay : r.poller.lastDelay = p.lastDelay)
  | halts {o : Outcome} (hc : c.result = .ok o) (hs : p.stopRequested = true)
      (next : r.next = .exited none) (phase : r.poller.phase = .stopped)
      (paused : Paused p o r.poller)
  | sleeps {o : Outcome} (hc : c.result = .ok o) (hs : p.stopRequested = false)
      (next : r.next = .sleep r.poller.lastDelay.toNat) (paused : Paused p o r.poller)

section

variable {p : Poller} {c : Conclusion} {r : Reaction}

theorem Ending.of_sleep (h : Ending p c r) {delay : Nat} (hn : r.next = .sleep delay) :
    ∃ o, c.result = .ok o ∧ p.stopRequested = false ∧ delay = r.poller.lastDelay.toNat ∧
      Paused p o r.poller := by
  cases h with
  | fails _ next => exact absurd (hn.symm.trans next) nofun
  | halts _ _ next => exact absurd (hn.symm.trans next) nofun
  | sleeps hc hs next paused => exact ⟨_, hc, hs, Next.sleep.inj (hn.symm.trans next), paused⟩

theorem Ending.of_halt (h : Ending p c r) (hn : r.next = .exited none) :
    ∃ o, c.result = .ok o ∧ p.stopRequested = true ∧ Paused p o r.poller := by
  cases h with
  | fails _ next => exact absurd (hn.symm.trans next) nofun
  | halts hc hs _ _ paused => exact ⟨_, hc, hs, paused⟩
  | sleeps _ _ next => exact absurd (hn.symm.trans next) nofun

theorem Ending.of_fault (h : Ending p c r) {f : Fault} (hn : r.next = .exited (some f)) :
    c.result = .error f ∧ r.poller.backoff = p.backoff ∧ r.poller.failures = p.failures ∧
      r.poller.lastDelay = p.lastDelay := by
  cases h with
  | fails hc next backoff failures lastDelay =>
    obtain rfl := Option.some.inj (Next.exited.inj (hn.symm.trans next))
    exact ⟨hc, backoff, failures, lastDelay⟩
  | halts _ _ next => exact absurd (hn.symm.trans next) nofun
  | sleeps _ _ next => exact absurd (hn.symm.trans next) nofun

end

theorem rest_paused (p : Poller) (o : Outcome) : Paused p o (p.rest o).poller := by
  simp only [rest, delayAfter, Reaction.behind]
  cases ho : o.isFailure with
  | true =>
    split
    · exact ⟨by simp [ho, halt], rfl, by simp [ho, halt]⟩
    · exact ⟨by simp [ho], rfl, by simp [ho]⟩
  | false =>
    split
    · exact ⟨by simp [ho, halt], rfl, by simp [ho, halt]⟩
    · exact ⟨by simp [ho], rfl, by simp [ho]⟩

theorem rest_of_stop {p : Poller} (h : p.stopRequested = true) (o : Outcome) :
    (p.rest o).next = .exited none ∧ (p.rest o).poller.phase = .stopped := by
  simp only [rest, delayAfter, Reaction.behind, h, if_true]
  exact ⟨rfl, rfl⟩

theorem rest_of_go {p : Poller} (h : p.stopRequested = false) (o : Outcome) :
    (p.rest o).next = .sleep (p.rest o).poller.lastDelay.toNat := by
  simp only [rest, delayAfter, Reaction.behind, h]
  rfl

def closed (p : Poller) (c : Conclusion) : Poller :=
  { p with
    store := c.store
    phase := Mark.lastPhase p.phase c.marks
    activity := .idle }

theorem endCycle_eq (p : Poller) (time : Int) (known : Option Snapshot) (result : FetchResult) :
    p.endCycle time known result =
      .behind (p.conclusion time known result).marks
        ((p.closed (p.conclusion time known result)).afterCycle
          (p.conclusion time known result).result) := rfl

theorem endCycle_ending {p : Poller} (hl : p.looping = true) (time : Int)
    (known : Option Snapshot) (result : FetchResult) :
    Ending p (p.conclusion time known result) (p.endCycle time known result) := by
  rw [endCycle_eq]
  generalize p.conclusion time known result = c
  cases hc : c.result with
  | error f => exact .fails hc (by simp [afterCycle, closed, hl, Reaction.behind]) rfl rfl rfl
  | ok o =>
    have hafter : (p.closed c).afterCycle (.ok o) = (p.closed c).rest o := by
      simp [afterCycle, closed, hl]
    have hrest := rest_paused (p.closed c) o
    have hpaused : Paused p o ((p.closed c).rest o).poller :=
      ⟨hrest.backoff, hrest.failures, hrest.lastDelay⟩
    rw [hafter]
    by_cases hs : p.stopRequested = true
    · obtain ⟨hnext, hphase⟩ := @rest_of_stop (p.closed c) hs o
      exact .halts hc hs hnext hphase hpaused
    · have hgo : p.stopRequested = false := by simpa using hs
      exact .sleeps hc hgo (@rest_of_go (p.closed c) hgo o) hpaused

/-! ## Incidents of a poller -/

/-- How a task ends the cycle under way, if it does. -/
def concluded? (p : Poller) (time : Int) : Task → Option Conclusion
  | .deadline n | .resume n =>
    match p.activity with
    | .fetching known answer =>
      if n = p.fetches then
        some (p.conclusion time known (answer.getD p.setup.timeoutResult))
      else none
    | _ => none
  | _ => none

/-- What happens at a task, if `ask` answers the fetches. -/
def incident? (p : Poller) (time : Int) (ask : UInt64 × Nat → Reply) (t : Task) :
    Option Incident :=
  match p.concluded? time t with
  | some c => some (.ends c)
  | none => (p.react time t).next.asked?.map fun q => .begins p.store (ask q)

end Poller

end TargetDiscovery
