import Mathlib.Data.List.Nodup
import TargetDiscovery.Proofs.Words
import TargetDiscovery.Store

/-!
# A store and its offers

A store that is offered snapshots, one after the other, holds the earliest one of the greatest
version among those of its own instance. How an offer is answered follows from the own snapshots in
front of it, and the tally counts the answers. So the version that readers see never falls, and
snapshots of different versions may come in any order.
-/

set_option autoImplicit false

namespace TargetDiscovery

/-- The snapshots of an instance among some offers. -/
def Snapshot.ofOffers (name : Bytes) (offers : List (Option Snapshot)) : List Snapshot :=
  (offers.filterMap id).filter fun s => s.owner = name

theorem Snapshot.ofOffers_append (name : Bytes) (offers more : List (Option Snapshot)) :
    ofOffers name (offers ++ more) = ofOffers name offers ++ ofOffers name more := by
  rw [ofOffers, List.filterMap_append, List.filter_append]
  rfl

/-- The earliest snapshot of the greatest version, if there is any. -/
inductive Foremost : List Snapshot → Option Snapshot → Prop
  | nil : Foremost [] none
  | first {before behind : List Snapshot} {s : Snapshot}
      (hbefore : ∀ t ∈ before, t.version < s.version)
      (hbehind : ∀ t ∈ behind, t.version ≤ s.version) :
      Foremost (before ++ s :: behind) (some s)

namespace Foremost

variable {l l' : List Snapshot} {s : Snapshot} {current : Option Snapshot}

theorem mem (h : Foremost l (some s)) : s ∈ l := by
  cases h with
  | first => simp

theorem version_le (h : Foremost l (some s)) : ∀ t ∈ l, t.version ≤ s.version := by
  cases h with
  | first hbefore hbehind =>
    intro t ht
    rcases List.mem_append.mp ht with ht | ht
    · exact UInt64.le_of_lt (hbefore t ht)
    · rcases List.mem_cons.mp ht with rfl | ht
      · exact UInt64.le_refl _
      · exact hbehind t ht

theorem eq_none_iff (h : Foremost l current) : current = none ↔ l = [] := by
  cases h with
  | nil => simp
  | first => simp

/-- A snapshot is newer than the foremost one when it is newer than all. -/
theorem newer_iff (h : Foremost l current) :
    (∀ k, current = some k → k.version < s.version) ↔ ∀ t ∈ l, t.version < s.version := by
  constructor
  · intro hnew t ht
    cases hc : current with
    | none =>
      rw [h.eq_none_iff.mp hc] at ht
      cases ht
    | some k =>
      subst hc
      exact UInt64.lt_of_le_of_lt (h.version_le t ht) (hnew k rfl)
  · rintro hall k rfl
    exact hall k h.mem

theorem install (h : Foremost l current)
    (hnew : ∀ k, current = some k → k.version < s.version) : Foremost (l ++ [s]) (some s) :=
  .first (h.newer_iff.mp hnew) (by simp)

theorem keep {k : Snapshot} (h : Foremost l (some k)) (hold : s.version ≤ k.version) :
    Foremost (l ++ [s]) (some k) := by
  cases h with
  | @first before behind _ hbefore hbehind =>
    rw [List.append_assoc, List.cons_append]
    refine .first hbefore fun t ht => ?_
    rcases List.mem_append.mp ht with ht | ht
    · exact hbehind t ht
    · obtain rfl := List.mem_singleton.mp ht
      exact hold

/-- Snapshots of different versions have the same foremost one in any order. -/
theorem perm {current' : Option Snapshot} (h : Foremost l current) (h' : Foremost l' current')
    (hperm : l.Perm l') (hnodup : (l.map Snapshot.version).Nodup) : current' = current := by
  cases hc : current with
  | none =>
    rw [h.eq_none_iff.mp hc] at hperm
    exact h'.eq_none_iff.mpr hperm.nil_eq.symm
  | some k =>
    subst hc
    cases hc' : current' with
    | none =>
      have hnil := h'.eq_none_iff.mp hc'
      have hmem := hperm.mem_iff.mp h.mem
      rw [hnil] at hmem
      cases hmem
    | some k' =>
      subst hc'
      have hk' : k' ∈ l := hperm.mem_iff.mpr h'.mem
      have hversion : k'.version = k.version :=
        UInt64.le_antisymm (h.version_le k' hk') (h'.version_le k (hperm.mem_iff.mp h.mem))
      rw [List.inj_on_of_nodup_map hnodup hk' h.mem hversion]

end Foremost

namespace Store

/-- The store after some offers, one after the other. -/
def after (s : Store) (offers : List (Option Snapshot)) : Store :=
  offers.foldl (fun s offer => (s.publish offer).2) s

/-- The answers to some offers, one after the other. -/
def answers (s : Store) : List (Option Snapshot) → List Verdict
  | [] => []
  | offer :: offers => (s.publish offer).1 :: (s.publish offer).2.answers offers

section

variable (s : Store) (offers more : List (Option Snapshot)) (offer : Option Snapshot)

theorem after_append : s.after (offers ++ more) = (s.after offers).after more :=
  List.foldl_append

theorem name_after : (s.after offers).name = s.name := by
  induction offers generalizing s with
  | nil => rfl
  | cons offer offers ih => exact (ih (s.publish offer).2).trans (publish_name s offer)

theorem length_answers : (s.answers offers).length = offers.length := by
  induction offers generalizing s with
  | nil => rfl
  | cons offer offers ih => rw [answers, List.length_cons, List.length_cons, ih]

theorem answers_getElem? {k : Nat} (h : offers[k]? = some offer) :
    (s.answers offers)[k]? = some ((s.after (offers.take k)).judge offer) := by
  induction offers generalizing s k with
  | nil => cases h
  | cons first offers ih =>
    cases k with
    | zero =>
      cases h
      rfl
    | succ k => exact ih (s.publish first).2 h

end

/-! ## How an offer is judged -/

section

variable {s : Store} {next : Snapshot}

theorem isNewer_iff :
    s.isNewer next = true ↔ ∀ k, s.current = some k → k.version < next.version := by
  rw [isNewer]
  cases hc : s.current with
  | none => simp
  | some k => simp [UInt64.lt_iff_toNat_lt]

theorem judge_eq_rejected_iff {offer : Option Snapshot} :
    s.judge offer = .rejected ↔ ∀ next, offer = some next → next.owner ≠ s.name := by
  cases offer with
  | none => simp [judge]
  | some next =>
    by_cases hname : next.owner = s.name
    · cases hnew : s.isNewer next <;> simp [judge, hname, hnew]
    · simp [judge, hname]

theorem judge_eq_installed_iff {offer : Option Snapshot} :
    s.judge offer = .installed ↔
      ∃ next, offer = some next ∧ next.owner = s.name ∧ s.isNewer next = true := by
  cases offer with
  | none => simp [judge]
  | some next =>
    by_cases hname : next.owner = s.name
    · cases hnew : s.isNewer next <;> simp [judge, hname, hnew]
    · simp [judge, hname]

theorem judge_eq_stale_iff {offer : Option Snapshot} :
    s.judge offer = .stale ↔
      ∃ next, offer = some next ∧ next.owner = s.name ∧ s.isNewer next = false := by
  cases offer with
  | none => simp [judge]
  | some next =>
    by_cases hname : next.owner = s.name
    · cases hnew : s.isNewer next <;> simp [judge, hname, hnew]
    · simp [judge, hname]

end

/-! ## What every offer keeps -/

variable {name : Bytes}

/-- One more offer leaves the foremost of the own snapshots in place. -/
theorem foremost_publish {s : Store} {l : List Snapshot} (h : Foremost l s.current)
    (offer : Option Snapshot) :
    Foremost (l ++ Snapshot.ofOffers s.name [offer]) (s.publish offer).2.current := by
  rw [publish_current]
  cases hv : s.judge offer with
  | rejected =>
    have hnone : Snapshot.ofOffers s.name [offer] = [] := by
      have hforeign := judge_eq_rejected_iff.mp hv
      cases offer with
      | none => rfl
      | some next => simp [Snapshot.ofOffers, hforeign next rfl]
    rw [hnone, List.append_nil]
    exact h
  | installed =>
    obtain ⟨next, rfl, hname, hnew⟩ := judge_eq_installed_iff.mp hv
    have hone : Snapshot.ofOffers s.name [some next] = [next] := by
      simp [Snapshot.ofOffers, hname]
    rw [hone]
    exact h.install (isNewer_iff.mp hnew)
  | stale =>
    obtain ⟨next, rfl, hname, hold⟩ := judge_eq_stale_iff.mp hv
    have hone : Snapshot.ofOffers s.name [some next] = [next] := by
      simp [Snapshot.ofOffers, hname]
    rw [hone]
    cases hc : s.current with
    | none => simp [isNewer, hc] at hold
    | some k =>
      rw [hc] at h
      have hle : next.version ≤ k.version := by
        simpa [isNewer, hc, UInt64.le_iff_toNat_le] using hold
      exact h.keep hle

/-- So do any number of offers. -/
theorem foremost_after {s : Store} {l : List Snapshot} (h : Foremost l s.current)
    (offers : List (Option Snapshot)) :
    Foremost (l ++ Snapshot.ofOffers s.name offers) (s.after offers).current := by
  induction offers generalizing s l with
  | nil =>
    rw [show Snapshot.ofOffers s.name [] = [] from rfl, List.append_nil]
    exact h
  | cons offer offers ih =>
    have hrest := ih (foremost_publish h offer)
    rw [publish_name, List.append_assoc, ← Snapshot.ofOffers_append] at hrest
    exact hrest

theorem foremost_after_new (name : Bytes) (offers : List (Option Snapshot)) :
    Foremost (Snapshot.ofOffers name offers) ((new name).after offers).current :=
  foremost_after (s := new name) .nil offers

/-- The version that readers see does not fall. -/
theorem version_le_after {s : Store} {k : Snapshot} (hk : s.current = some k)
    (offers : List (Option Snapshot)) :
    ∃ k', (s.after offers).current = some k' ∧ k.version ≤ k'.version := by
  have hone : Foremost ([] ++ k :: []) s.current := by
    rw [hk]
    exact .first nofun nofun
  have hafter := foremost_after hone offers
  cases hc : (s.after offers).current with
  | none =>
    have hnil := hafter.eq_none_iff.mp hc
    cases hnil
  | some k' =>
    rw [hc] at hafter
    exact ⟨k', rfl, hafter.version_le k (by simp)⟩

theorem count_tally (t : Tally) (v : Verdict) :
    (t.count v).installs = t.installs + ([v].count .installed).toUInt64 ∧
      (t.count v).stale = t.stale + ([v].count .stale).toUInt64 ∧
      (t.count v).rejected = t.rejected + ([v].count .rejected).toUInt64 := by
  have hkept : ∀ w : UInt64, w = w + (0 : Nat).toUInt64 := fun w => (add_toUInt64_zero w).symm
  cases v with
  | installed => exact ⟨rfl, hkept t.stale, hkept t.rejected⟩
  | stale => exact ⟨hkept t.installs, rfl, hkept t.rejected⟩
  | rejected => exact ⟨hkept t.installs, hkept t.stale, rfl⟩

/-- The tally has one more for each answer. -/
theorem tally_after (s : Store) (offers : List (Option Snapshot)) :
    (s.after offers).tally.installs =
        s.tally.installs + ((s.answers offers).count .installed).toUInt64 ∧
      (s.after offers).tally.stale = s.tally.stale + ((s.answers offers).count .stale).toUInt64 ∧
      (s.after offers).tally.rejected =
        s.tally.rejected + ((s.answers offers).count .rejected).toUInt64 := by
  induction offers generalizing s with
  | nil =>
    exact ⟨(add_toUInt64_zero _).symm, (add_toUInt64_zero _).symm, (add_toUInt64_zero _).symm⟩
  | cons offer offers ih =>
    obtain ⟨hinstalls, hstale, hrejected⟩ := ih (s.publish offer).2
    obtain ⟨hinstalled, holder, hforeign⟩ := count_tally s.tally (s.publish offer).1
    have hafter : s.after (offer :: offers) = (s.publish offer).2.after offers := rfl
    have hanswers : s.answers (offer :: offers) =
        [(s.publish offer).1] ++ (s.publish offer).2.answers offers := rfl
    have htally : (s.publish offer).2.tally = s.tally.count (s.publish offer).1 := rfl
    rw [hafter, hanswers, hinstalls, hstale, hrejected, htally, hinstalled, holder, hforeign]
    simp only [List.count_append, add_toUInt64_add]
    exact ⟨trivial, trivial, trivial⟩

theorem count_verdicts (answers : List Verdict) :
    answers.count .installed + answers.count .stale + answers.count .rejected =
      answers.length := by
  induction answers with
  | nil => rfl
  | cons v answers ih =>
    cases v <;> simp <;> omega

/-! ## The history of a store -/

/-- What a new store of an instance has made of some offers. -/
structure Recounts (name : Bytes) (offers : List (Option Snapshot)) : Prop where
  length : ((new name).answers offers).length = offers.length
  rejected : ∀ (k : Nat) (offer : Option Snapshot), offers[k]? = some offer →
    (((new name).answers offers)[k]? = some Verdict.rejected ↔
      ∀ next : Snapshot, offer = some next → next.owner ≠ name)
  installed : ∀ (k : Nat) (offer : Option Snapshot), offers[k]? = some offer →
    (((new name).answers offers)[k]? = some Verdict.installed ↔
      ∃ next : Snapshot, offer = some next ∧ next.owner = name ∧
        ∀ t ∈ Snapshot.ofOffers name (offers.take k), t.version < next.version)
  stale : ∀ (k : Nat) (offer : Option Snapshot), offers[k]? = some offer →
    (((new name).answers offers)[k]? = some Verdict.stale ↔
      ∃ next : Snapshot, offer = some next ∧ next.owner = name ∧
        ∃ t ∈ Snapshot.ofOffers name (offers.take k), next.version ≤ t.version)
  current : Foremost (Snapshot.ofOffers name offers) ((new name).after offers).current
  /-- The tally counts in words. -/
  installs : (((new name).after offers).tally.installs : Nat) =
    ((new name).answers offers).count .installed % 2 ^ 64
  stales : (((new name).after offers).tally.stale : Nat) =
    ((new name).answers offers).count .stale % 2 ^ 64
  rejects : (((new name).after offers).tally.rejected : Nat) =
    ((new name).answers offers).count .rejected % 2 ^ 64
  shares : ((new name).answers offers).count .installed +
    ((new name).answers offers).count .stale + ((new name).answers offers).count .rejected =
      offers.length
  total : ((((new name).after offers).tally.installs + ((new name).after offers).tally.stale +
    ((new name).after offers).tally.rejected : UInt64) : Nat) = offers.length % 2 ^ 64
  /-- What readers see is not replaced by an older version, nor taken away. -/
  rising : ∀ earlier more k, offers = earlier ++ more →
    ((new name).after earlier).current = some k →
      ∃ k', ((new name).after offers).current = some k' ∧ k.version ≤ k'.version
  /-- Own snapshots of different versions may come in any order. -/
  unordered : ((Snapshot.ofOffers name offers).map Snapshot.version).Nodup →
    ∀ other, offers.Perm other →
      ((new name).after other).current = ((new name).after offers).current

/-- The history of every store. -/
theorem recounted (name : Bytes) (offers : List (Option Snapshot)) : Recounts name offers := by
  have hname : ∀ l, ((new name).after l).name = name := name_after (new name)
  have hanswer : ∀ {k : Nat} {offer : Option Snapshot}, offers[k]? = some offer →
      ((new name).answers offers)[k]? =
        some (((new name).after (offers.take k)).judge offer) :=
    fun h => answers_getElem? (new name) offers _ h
  have hnewer : ∀ k next, ((new name).after (offers.take k)).isNewer next = true ↔
      ∀ t ∈ Snapshot.ofOffers name (offers.take k), t.version < next.version :=
    fun k next => isNewer_iff.trans (foremost_after_new name (offers.take k)).newer_iff
  obtain ⟨hinstalls, hstale, hrejected⟩ := tally_after (new name) offers
  have hzero : (new name).tally = {} := rfl
  rw [hzero, UInt64.zero_add] at hinstalls hstale hrejected
  have hshares : ((new name).answers offers).count .installed +
      ((new name).answers offers).count .stale + ((new name).answers offers).count .rejected =
        offers.length := by
    rw [count_verdicts, length_answers]
  constructor
  case length => exact length_answers _ _
  case rejected =>
    intro k offer h
    rw [hanswer h, Option.some.injEq, judge_eq_rejected_iff, hname]
  case installed =>
    intro k offer h
    rw [hanswer h, Option.some.injEq, judge_eq_installed_iff, hname]
    simp only [hnewer]
  case stale =>
    intro k offer h
    rw [hanswer h, Option.some.injEq, judge_eq_stale_iff, hname]
    simp only [← Bool.not_eq_true, hnewer, not_forall, UInt64.not_lt, exists_prop]
  case current => exact foremost_after_new name offers
  case installs => rw [hinstalls, toNat_toUInt64]
  case stales => rw [hstale, toNat_toUInt64]
  case rejects => rw [hrejected, toNat_toUInt64]
  case shares => exact hshares
  case total =>
    rw [hinstalls, hstale, hrejected, ← toUInt64_add, ← toUInt64_add, hshares, toNat_toUInt64]
  case rising =>
    rintro earlier more k rfl hk
    rw [after_append]
    exact version_le_after hk more
  case unordered =>
    intro hnodup other hperm
    refine (foremost_after_new name offers).perm (foremost_after_new name other) ?_ hnodup
    exact (hperm.filterMap id).filter _

end Store

end TargetDiscovery
