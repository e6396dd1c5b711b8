import Mathlib.Algebra.Ring.Nat
import Mathlib.Data.List.Induction
import TargetDiscovery.Proofs.Cycle.Counters

/-!
# Counters of what was recorded

The counters of an instance are a function of what was recorded for it, in this order, and of
nothing that was recorded for others: numbers and sums of events, and values of the last event of a
kind, which events of other kinds behind it leave alone.
-/

set_option autoImplicit false

namespace TargetDiscovery

/-- What is recorded for an instance: the event of a cycle, or that it is started again, or that it
is given up. -/
inductive Report
  | cycle (e : CycleEvent)
  | restart (owner : Bytes) (degraded : Bool)

namespace Report

def owner : Report → Bytes
  | cycle e => e.owner
  | restart owner _ => owner

def event? : Report → Option CycleEvent
  | cycle e => some e
  | restart _ _ => none

/-- Of a restart, whether it is the decision to give up. -/
def decision? : Report → Option Bool
  | cycle _ => none
  | restart _ degraded => some degraded

/-- The reports for an instance, in their order. -/
def share (name : Bytes) (reports : List Report) : List Report :=
  reports.filter fun r => r.owner = name

end Report

/-! ## Summaries -/

namespace Counters

/-- A cycle that came to look at the records of a state. -/
def Lists (e : CycleEvent) : Prop :=
  e.outcome = .buildFailed ∨ e.outcome = .published ∨ e.outcome = .stale

/-- A cycle that fetched a new state. -/
def Judges (e : CycleEvent) : Prop := e.outcome ≠ .fetchFailed ∧ e.outcome ≠ .unchanged

instance (e : CycleEvent) : Decidable (Lists e) := inferInstanceAs (Decidable (_ ∨ _ ∨ _))

instance (e : CycleEvent) : Decidable (Judges e) := inferInstanceAs (Decidable (_ ∧ _))

/-- The counters after the events of cycles and the decisions on restarts of an instance. -/
structure Summarizes (events : List CycleEvent) (decisions : List Bool) (c : Counters) : Prop where
  polls : (c.polls : Nat) = events.length % 2 ^ 64
  pollFailures :
    (c.pollFailures : Nat) = (events.countP fun e => e.outcome = .fetchFailed) % 2 ^ 64
  verificationFailures : (c.verificationFailures : Nat) =
    (events.countP fun e => e.outcome = .verificationFailed) % 2 ^ 64
  buildFailures :
    (c.buildFailures : Nat) = (events.countP fun e => e.outcome = .buildFailed) % 2 ^ 64
  decodeSkips : (c.decodeSkips : Nat) =
    ((events.filter fun e => Lists e).map fun e => e.skipped.toNat).sum % 2 ^ 64
  lastSkipped :
    c.lastSkipped = ((events.filter fun e => Lists e).getLast?.map CycleEvent.skipped).getD 0
  targets : c.targets =
    ((events.filter fun e => e.outcome = .published).getLast?.map CycleEvent.targets).getD 0
  lastSyncOk : c.lastSyncOk = true ↔ ∃ e, events.getLast? = some e ∧ e.outcome ≠ .fetchFailed
  lastLoadOk : c.lastLoadOk = true ↔ ∃ e, (events.filter fun e => Judges e).getLast? = some e ∧
    (e.outcome = .published ∨ e.outcome = .stale)
  restarts : (c.restarts : Nat) = decisions.count false % 2 ^ 64
  degraded : c.degraded = true ↔ true ∈ decisions

/-- What the event of a cycle does to each counter. -/
theorem record_eq (c : Counters) (e : CycleEvent) : c.record e =
    { polls := c.polls + 1
      pollFailures := c.pollFailures + if e.outcome = .fetchFailed then 1 else 0
      verificationFailures :=
        c.verificationFailures + if e.outcome = .verificationFailed then 1 else 0
      buildFailures := c.buildFailures + if e.outcome = .buildFailed then 1 else 0
      decodeSkips := if Lists e then c.decodeSkips + e.skipped else c.decodeSkips
      lastSkipped := if Lists e then e.skipped else c.lastSkipped
      targets := if e.outcome = .published then e.targets else c.targets
      restarts := c.restarts
      lastSyncOk := decide (e.outcome ≠ .fetchFailed)
      lastLoadOk :=
        if Judges e then decide (e.outcome = .published ∨ e.outcome = .stale) else c.lastLoadOk
      degraded := c.degraded } := by
  rw [record]
  cases ho : e.outcome with
  | _ => simp [Lists, Judges, loaded, addSkips, ho]

/-- The last one of a kind, with one more behind. -/
theorem getLast?_filter_concat {α : Type} (p : α → Bool) (l : List α) (a : α) :
    ((l ++ [a]).filter p).getLast? = if p a then some a else (l.filter p).getLast? := by
  rw [List.filter_append, List.filter_cons, List.filter_nil]
  split
  · rw [List.getLast?_concat]
  · rw [List.append_nil]

theorem countP_concat {α : Type} (p : α → Prop) [DecidablePred p] (l : List α) (a : α) :
    (l ++ [a]).countP (fun x => p x) =
      l.countP (fun x => p x) + (if p a then 1 else 0 : UInt64).toNat := by
  rw [List.countP_append, List.countP_singleton]
  by_cases h : p a
  · simp [h]
  · simp [h]

/-- A word that is a number taken modulo its width stays one when both are added to. -/
theorem toNat_add_eq {w : UInt64} {n : Nat} (h : (w : Nat) = n % 2 ^ 64) (k : UInt64) :
    ((w + k : UInt64) : Nat) = (n + k.toNat) % 2 ^ 64 := by
  rw [UInt64.toNat_add, h, Nat.mod_add_mod]

theorem summarizes_nil : Summarizes [] [] {} := by
  constructor <;> simp

variable {events : List CycleEvent} {decisions : List Bool} {c : Counters}

theorem Summarizes.record (h : Summarizes events decisions c) (e : CycleEvent) :
    Summarizes (events ++ [e]) decisions (c.record e) := by
  rw [record_eq]
  constructor
  case polls =>
    rw [toNat_add_eq h.polls, List.length_append, List.length_singleton]
    rfl
  case pollFailures => rw [toNat_add_eq h.pollFailures, countP_concat]
  case verificationFailures => rw [toNat_add_eq h.verificationFailures, countP_concat]
  case buildFailures => rw [toNat_add_eq h.buildFailures, countP_concat]
  case decodeSkips =>
    rw [List.filter_append, List.filter_cons, List.filter_nil]
    by_cases he : Lists e
    · simp [he, h.decodeSkips, UInt64.toNat_add]
    · simp [he, h.decodeSkips]
  case lastSkipped =>
    rw [getLast?_filter_concat]
    by_cases he : Lists e
    · simp [he]
    · simp [he, h.lastSkipped]
  case targets =>
    rw [getLast?_filter_concat]
    by_cases he : e.outcome = .published
    · simp [he]
    · simp [he, h.targets]
  case lastSyncOk => simp
  case lastLoadOk =>
    rw [getLast?_filter_concat]
    by_cases he : Judges e
    · simp [he]
    · simp [he, h.lastLoadOk]
  case restarts => exact h.restarts
  case degraded => exact h.degraded

theorem Summarizes.recordRestart (h : Summarizes events decisions c) (degraded : Bool) :
    Summarizes events (decisions ++ [degraded]) (c.recordRestart degraded) := by
  have heq : c.recordRestart degraded =
      { c with
        restarts := c.restarts + if degraded then 0 else 1
        degraded := c.degraded || degraded } := by
    cases degraded with
    | false => simp [Counters.recordRestart]
    | true => simp [Counters.recordRestart]
  rw [heq]
  constructor
  case restarts =>
    rw [toNat_add_eq h.restarts, List.count_append, List.count_singleton]
    cases degraded with
    | false => rfl
    | true => rfl
  case degraded =>
    rw [Bool.or_eq_true, h.degraded, List.mem_append, List.mem_singleton, eq_comm (a := true)]
  case polls => exact h.polls
  case pollFailures => exact h.pollFailures
  case verificationFailures => exact h.verificationFailures
  case buildFailures => exact h.buildFailures
  case decodeSkips => exact h.decodeSkips
  case lastSkipped => exact h.lastSkipped
  case targets => exact h.targets
  case lastSyncOk => exact h.lastSyncOk
  case lastLoadOk => exact h.lastLoadOk

def take (c : Counters) : Report → Counters
  | .cycle e => c.record e
  | .restart _ degraded => c.recordRestart degraded

theorem summarizes_foldl (reports : List Report) :
    Summarizes (reports.filterMap Report.event?) (reports.filterMap Report.decision?)
      (reports.foldl take {}) := by
  induction reports using List.reverseRecOn with
  | nil => exact summarizes_nil
  | append_singleton reports r ih =>
    rw [List.foldl_append, List.foldl_cons, List.foldl_nil, List.filterMap_append,
      List.filterMap_append]
    cases r with
    | cycle e =>
      have hdecisions : [Report.cycle e].filterMap Report.decision? = [] := rfl
      rw [hdecisions, List.append_nil]
      exact ih.record e
    | restart owner degraded =>
      have hevents : [Report.restart owner degraded].filterMap Report.event? = [] := rfl
      rw [hevents, List.append_nil]
      exact ih.recordRestart degraded

end Counters

/-! ## The ledger -/

namespace Ledger

def take (l : Ledger) : Report → Ledger
  | .cycle e => l.record e
  | .restart owner degraded => l.recordRestart owner degraded

/-- The ledger after reports, from before the first one. -/
def after (reports : List Report) : Ledger := reports.foldl take SortedMap.empty

theorem counters_take (l : Ledger) (r : Report) (name : Bytes) :
    (l.take r).counters name =
      if name = r.owner then (l.counters name).take r else l.counters name := by
  cases r with
  | cycle e => exact counters_record l e name
  | restart owner degraded => exact counters_recordRestart l owner name degraded

/-- The counters of an instance are what its own reports make of none. -/
theorem counters_after (reports : List Report) (name : Bytes) :
    (after reports).counters name = (Report.share name reports).foldl Counters.take {} := by
  induction reports using List.reverseRecOn with
  | nil => rw [after, List.foldl_nil, counters, SortedMap.get?_empty]; rfl
  | append_singleton reports r ih =>
    rw [after, List.foldl_append, List.foldl_cons, List.foldl_nil, ← after, counters_take, ih,
      Report.share, Report.share, List.filter_append, List.filter_cons, List.filter_nil]
    by_cases h : r.owner = name
    · simp [h]
    · simp [h, Ne.symm h]

/-- The counters of an instance sum up what was recorded for it. What was recorded for others may as
well not have been. -/
theorem summarized (reports : List Report) (name : Bytes) :
    Counters.Summarizes ((Report.share name reports).filterMap Report.event?)
        ((Report.share name reports).filterMap Report.decision?)
        ((after reports).counters name) ∧
      (after reports).counters name = (after (Report.share name reports)).counters name := by
  have hshare : Report.share name (Report.share name reports) = Report.share name reports := by
    rw [Report.share, Report.share, List.filter_filter]
    simp only [Bool.and_self]
  rw [counters_after, counters_after, hshare]
  exact ⟨Counters.summarizes_foldl _, rfl⟩

end Ledger

end TargetDiscovery
