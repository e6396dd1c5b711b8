import TargetDiscovery.Proofs.Supervisor.Pace

/-!
# Punctual instances

Whatever happens to an instance is what may follow its history, at the time at which it is due. And
before a stop the clock never goes past that time, so it does happen.
-/

set_option autoImplicit false

namespace TargetDiscovery

namespace Strand

section

variable {rule : RestartRule} {s : Setup} {v w : Strand} {h : History} {t : SlotTask}
  {loop : Loop SlotTask} {ask : UInt64 × Nat → Reply} {u : Slot.Turn}

theorem Paced.follows {epoch : Int} (hv : Paced rule v h) (hs : v.Steady)
    (hy : Tallied rule s v h) (ht : v.loop.Takes t loop)
    (hu : Slot.Does rule v.stopping (epoch + loop.now) ask v.slot t u) {x : Incident}
    (hx : v.slot.incident? (epoch + loop.now) ask t = some x) :
    Follows rule s epoch h ⟨loop.now, x⟩ := by
  have htimed := hv.pends _ _ (ht.pends hv.timely)
  have hsetup := hy.polls.setup
  have hclose : ∀ {known answer}, v.slot.Closes known answer t →
      Follows rule s epoch h ⟨loop.now, x⟩ := by
    intro known answer hc
    rw [Slot.incident?_of_closes hc] at hx
    cases hx
    obtain ⟨b, reply, hhead, rfl, hnow, hfetched⟩ := hv.closes hs ht hc
    obtain ⟨rest, rfl⟩ := List.head?_eq_some_iff.mp hhead
    rw [hfetched, Poller.conclusion, hsetup]
    rw [hsetup] at hnow
    refine .ends ?_
    rw [hnow]
    exact .ends
  cases hu with
  | ignores hno =>
    rw [Slot.incident?_of_not_fits hno] at hx
    cases hx
  | rouses => cases hx
  | drops => cases hx
  | settles =>
    rw [Slot.incident?_of_reply] at hx
    cases hx
  | halts hl hstop =>
    rw [Slot.incident?_of_stop hl hstop] at hx
    cases hx
  | sleeps hc => exact hclose hc
  | exits hc => exact hclose hc
  | abandons hno =>
    rw [Slot.incident?_of_abandon hno] at hx
    cases hx
  | fetches hl hgo =>
    rw [Slot.incident?_of_go hl hgo] at hx
    cases hx
    rcases hl with rfl | ⟨rfl, _⟩
    · rcases htimed with hnone | hhead
      · rw [List.head?_eq_none_iff.mp hnone]
        exact .first
      · obtain ⟨rest, rfl⟩ := List.head?_eq_some_iff.mp hhead
        exact .again .again
    · obtain ⟨e, c, o, hhead, hok, htime⟩ := htimed
      obtain ⟨rest, rfl⟩ := List.head?_eq_some_iff.mp hhead
      rw [htime hgo]
      exact .next hok (.rests hok hy.polls.rests)
  | relaunches hgo =>
    have hstopping : v.stopping = false := hy.stop.symm.trans hgo
    have hlife : v.slot.life ≠ .ended := (Life.ne_of_isActive (hs.driven ht rfl).1.active).2
    rw [Slot.incident?_of_relaunch hgo] at hx
    cases hx
    obtain ⟨e, c, f, w, hhead, herror, hwaits, htime⟩ := htimed
    obtain ⟨rest, rfl⟩ := List.head?_eq_some_iff.mp hhead
    obtain ⟨_, hdegraded, _⟩ := hy.restarts.counts hstopping
    refine .relaunches herror ?_
    rw [htime]
    refine .waits herror ?_ hwaits
    -- An instance that was given up has ended, and no restart of it is pending.
    by_contra hlt
    exact hlife (hy.restarts.givenUp (hdegraded.mpr (by omega))).2

theorem Paced.timed_of_drivers (hv : Paced rule v h) {time : Nat} {t : SlotTask}
    (ht : v.loop.drivers.Pends time t) : v.slot.Timed rule h time t ∧ v.loop.now ≤ time := by
  have hpend := pends_of_drivers ht
  exact ⟨hv.pends time t hpend, hv.timely.now_le hpend⟩

/-- Before a stop an instance with a history is active, until it is given up. -/
theorem Paced.active_of_history (hv : Paced rule v h) (hy : Tallied rule s v h)
    (hgo : v.stopping = false) (hne : h ≠ []) (hlimit : crashes h ≤ rule.limit) :
    v.slot.life.isActive = true := by
  cases hlife : v.slot.life with
  | fresh => exact absurd (hv.fresh hlife) hne
  | ended =>
    have hlt := (hy.restarts.counts hgo).2.1.mp (hv.ended hlife hgo)
    omega
  | _ => rfl

/-- The clock does not go past the end of the fetch under way, not after a stop either. -/
theorem Paced.fetch_due (hv : Paced rule v h) (hs : v.Steady) (hy : Tallied rule s v h) {b : Nat}
    {store : Store} {reply : Reply} (hhead : h.head? = some ⟨b, .begins store reply⟩) :
    v.loop.now ≤ b + Solo.duration s.timing.timeout reply.delay := by
  have hsetup := hy.polls.setup
  obtain ⟨known, answer, hk⟩ := hv.underway b store reply hhead
  have hpends : ∀ {time t}, v.loop.drivers.Pends time t →
      v.slot.Timed rule h time t ∧ v.loop.now ≤ time := hv.timed_of_drivers
  have hstage := hs.stage
  generalize v.loop.drivers = l at hstage hpends
  cases hstage with
  | dormant _ ha | launched _ ha | waiting _ ha | dropped _ ha =>
    exact nomatch ha.symm.trans hk
  | sleeping _ _ ha | roused _ _ ha => exact nomatch ha.symm.trans hk
  | racing _ _ ha =>
    obtain ⟨htimed, hle⟩ := hpends (.inr (List.mem_singleton.mpr rfl))
    obtain ⟨_, _, _, hhead', rfl⟩ := htimed
    rw [hhead] at hhead'
    cases hhead'
    rw [hsetup] at hle
    cases hdelay : reply.delay with
    | none => exact hle
    | some delay =>
      have hreply : v.loop.now ≤ b + delay :=
        hv.timely _ (hv.awaited _ b store reply delay ha hhead hdelay)
      simp only [Solo.duration]
      omega
  | answered =>
    obtain ⟨htimed, hle⟩ := hpends (.inl ⟨List.mem_singleton.mpr rfl, rfl⟩)
    obtain ⟨_, _, delay, _, _, hhead', hlt, rfl, _⟩ := htimed
    rw [hhead] at hhead'
    cases hhead'
    rw [hsetup] at hlt
    rw [Solo.duration, Nat.min_eq_left (Nat.le_of_lt hlt)]
    exact hle

/-- Before a stop the clock does not go past the time at which the next incident is due. -/
theorem Paced.ahead (hv : Paced rule v h) (hs : v.Steady) (hy : Tallied rule s v h)
    (hgo : v.stopping = false) (hne : h ≠ []) (hlimit : crashes h ≤ rule.limit) :
    ∃ due, Due rule s h due ∧ v.loop.now ≤ due := by
  have hstop : v.slot.poller.stopRequested = false := hy.stop.trans hgo
  have hpends : ∀ {time t}, v.loop.drivers.Pends time t →
      v.slot.Timed rule h time t ∧ v.loop.now ≤ time := hv.timed_of_drivers
  have hstage := hs.stage
  generalize v.loop.drivers = l at hstage hpends
  cases hstage with
  | dormant hl => exact absurd (hl.symm.trans (hv.active_of_history hy hgo hne hlimit)) nofun
  | launched =>
    obtain ⟨htimed, hle⟩ := hpends (.inl ⟨List.mem_singleton.mpr rfl, rfl⟩)
    rcases htimed with hnone | hhead
    · exact absurd (List.head?_eq_none_iff.mp hnone) hne
    · obtain ⟨rest, rfl⟩ := List.head?_eq_some_iff.mp hhead
      exact ⟨_, .again, hle⟩
  | racing _ _ ha | answered _ _ ha =>
    obtain ⟨b, reply, hhead, _⟩ := hv.fetching _ _ ha
    refine ⟨b + Solo.duration s.timing.timeout reply.delay, ?_, hv.fetch_due hs hy hhead⟩
    obtain ⟨rest, rfl⟩ := List.head?_eq_some_iff.mp hhead
    exact .ends
  | sleeping =>
    obtain ⟨htimed, hle⟩ := hpends (.inr (List.mem_singleton.mpr rfl))
    obtain ⟨e, c, o, hhead, hok, htime⟩ := htimed
    obtain ⟨rest, rfl⟩ := List.head?_eq_some_iff.mp hhead
    exact ⟨_, .rests hok hy.polls.rests, htime hstop ▸ hle⟩
  | roused =>
    obtain ⟨htimed, hle⟩ := hpends (.inl ⟨List.mem_singleton.mpr rfl, rfl⟩)
    obtain ⟨e, c, o, hhead, hok, htime⟩ := htimed
    obtain ⟨rest, rfl⟩ := List.head?_eq_some_iff.mp hhead
    exact ⟨_, .rests hok hy.polls.rests, htime hstop ▸ hle⟩
  | waiting =>
    obtain ⟨htimed, hle⟩ := hpends (.inr (List.mem_singleton.mpr rfl))
    obtain ⟨e, c, f, w, hhead, herror, hwaits, rfl⟩ := htimed
    obtain ⟨rest, rfl⟩ := List.head?_eq_some_iff.mp hhead
    exact ⟨_, .waits herror hlimit hwaits, hle⟩
  | dropped =>
    obtain ⟨htimed, _⟩ := hpends (.inl ⟨List.mem_singleton.mpr rfl, rfl⟩)
    have hrequested : v.slot.poller.stopRequested = true := htimed
    rw [hstop] at hrequested
    cases hrequested

/-- What a course keeps of the strand of an instance. -/
structure Kept (rule : RestartRule) (s : Setup) (epoch : Int) (v : Strand) (h : History) :
    Prop where
  steady : v.Steady
  tallied : Tallied rule s v h
  paced : Paced rule v h
  regular : Regular rule s epoch h
  past : ∀ x ∈ h, x.time ≤ v.loop.now

/-- What a move brings is of the time of the strand behind it. -/
theorem Ticks.stamped {epoch : Int} {i : Nat} {more : History} (ht : Ticks rule epoch i v more w) :
    v.loop.now ≤ w.loop.now ∧ ∀ x ∈ more, x.time = w.loop.now := by
  cases ht with
  | start => exact ⟨Nat.le_of_eq (Loop.obeyAll_now _ _).symm, nofun⟩
  | stop => exact ⟨Nat.le_refl _, nofun⟩
  | elapse ha => exact ⟨ha.now_le, nofun⟩
  | @turn t loop ask ht _ =>
    have hnow : ∀ u : Slot.Turn, (v.taking i loop ask u).loop.now = loop.now :=
      fun u => Loop.obeyAll_now loop u.orders
    rw [hnow]
    refine ⟨ht.now_le, fun x hx => ?_⟩
    obtain ⟨_, _, rfl⟩ := List.mem_map.mp hx
    rfl

theorem Ticks.kept {epoch : Int} {i : Nat} {more : History} (ht : Ticks rule epoch i v more w)
    (hv : Kept rule s epoch v h) : Kept rule s epoch w (more ++ h) := by
  obtain ⟨hnow, hstamped⟩ := ht.stamped
  have hpast : ∀ x ∈ more ++ h, x.time ≤ w.loop.now := by
    intro x hx
    rcases List.mem_append.mp hx with hx | hx
    · exact Nat.le_of_eq (hstamped x hx)
    · exact Nat.le_trans (hv.past x hx) hnow
  refine ⟨ht.goes.steady hv.steady, ht.tallied hv.steady hv.tallied,
    ht.paced hv.steady hv.tallied hv.paced, ?_, hpast⟩
  cases ht with
  | start => exact hv.regular
  | stop => exact hv.regular
  | elapse => exact hv.regular
  | @turn t loop ask ht _ =>
    cases hx : v.slot.incident? (epoch + loop.now) ask t with
    | none => exact hv.regular
    | some x =>
      have hdoes := hv.steady.does rule ht (epoch + loop.now) ask
      exact .cons hv.regular (hv.paced.follows hv.steady hv.tallied ht hdoes hx)

theorem Course.kept {epoch : Int} {i : Nat} {more : History} (hc : Course rule epoch i v more w)
    (hv : Kept rule s epoch v h) : Kept rule s epoch w (more ++ h) := by
  induction hc with
  | refl => exact hv
  | tail _ ht ih =>
    rw [List.append_assoc]
    exact ht.kept ih

theorem unstarted_kept (rule : RestartRule) (s : Setup) (store : Store) (epoch : Int)
    (seed : UInt64) : Kept rule s epoch (unstarted rule s store seed) [] :=
  ⟨unstarted_steady rule s store seed, unstarted_tallied rule s store seed,
    unstarted_paced rule s store seed, .nil, nofun⟩

end

end Strand

namespace Chronicle

variable {κ : Type} {n : Network κ} {rule : RestartRule} {setups : List Setup} {network : κ}
  {epoch : Int} {seed : UInt64} {h : List (Stamped Note)} {c : Chronicle κ} {i : Nat}

theorem strand?_begin {s : Setup} (hs : setups[i]? = some s) :
    (begin rule setups network epoch seed).strand? i =
      some (Strand.unstarted rule s (Store.new s.name) seed) := by
  simp only [strand?, begin, Supervisor.new, Run.start, List.getElem?_map, hs, Option.map_some]
  rfl

/-- In every course each instance keeps to its schedule. -/
theorem Course.kept (hc : Course n (begin rule setups network epoch seed) h c) {v : Strand}
    (hv : c.strand? i = some v) :
    ∃ s, setups[i]? = some s ∧ Strand.Kept rule s epoch v (historyOf i h) := by
  obtain ⟨hslot, _⟩ := strand?_eq_some hv
  have hlen := (List.getElem?_eq_some_iff.mp hslot).1
  rw [(Course.leads hc).length_slots] at hlen
  obtain ⟨s, hs⟩ : ∃ s, setups[i]? = some s :=
    ⟨_, List.getElem?_eq_getElem (by simpa [begin, Supervisor.new, Run.start] using hlen)⟩
  obtain ⟨_, _, w, hw, hl⟩ := hc.strand Loop.ordered_start (strand?_begin hs)
  rw [hw] at hv
  cases hv
  refine ⟨s, hs, ?_⟩
  have hkept := Strand.Course.kept hl (Strand.unstarted_kept rule s (Store.new s.name) epoch seed)
  rw [List.append_nil] at hkept
  exact hkept

theorem Course.kept_of_setup (hc : Course n (begin rule setups network epoch seed) h c) {s : Setup}
    (hs : setups[i]? = some s) :
    ∃ v, c.strand? i = some v ∧ Strand.Kept rule s epoch v (historyOf i h) := by
  obtain ⟨_, _, v, hv, _⟩ := hc.strand Loop.ordered_start (strand?_begin hs)
  obtain ⟨s', hs', hkept⟩ := hc.kept hv
  cases hs.symm.trans hs'
  exact ⟨v, hv, hkept⟩

end Chronicle

end TargetDiscovery
