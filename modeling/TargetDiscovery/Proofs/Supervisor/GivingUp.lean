import TargetDiscovery.Proofs.Poller.Abandoning
import TargetDiscovery.Proofs.Supervisor.Abandoning
import TargetDiscovery.Proofs.Supervisor.Polling

/-!
# Giving up a fetch

A fetch whose reply is late is given up at the end of its timeout, and the cycle ends with a failure
at that time. What the reply would have brought is not seen by anything.
-/

set_option autoImplicit false

namespace TargetDiscovery

/-- The reply comes after the timeout, or never. -/
def Reply.IsLate (timeout : Nat) (r : Reply) : Prop := ∀ d, r.delay = some d → timeout < d

theorem Reply.IsLate.within {timeout : Nat} {r : Reply} (h : r.IsLate timeout) :
    r.within timeout = none :=
  within_eq_none_iff.mpr fun d hd => Nat.le_of_lt (h d hd)

namespace Setup

/-- A cycle whose fetch was given up leaves the store as it is. -/
def timedOut (s : Setup) (store : Store) : Conclusion :=
  .ofEvent store
    { owner := s.name
      outcome := .fetchFailed
      reason := ascii "timeout: no response within " ++ Bytes.decimal s.timing.timeout ++
        ascii " ms" }

theorem conclude_timeoutResult (s : Setup) (known : Option Snapshot) (store : Store) (time : Int) :
    s.conclude known store time s.timeoutResult = s.timedOut store := by
  have hreason : ∀ number : Bytes,
      FetchError.reason ⟨.timeout, ascii "no response within " ++ number ++ ascii " ms"⟩ =
        ascii "timeout: no response within " ++ number ++ ascii " ms" := by
    intro number
    rw [FetchError.reason, List.append_assoc (ascii "no response within "), ← List.append_assoc,
      ← List.append_assoc]
    rfl
  rw [timeoutResult, conclude, hreason]
  rfl

end Setup

/-- Every late fetch of a history is given up: its cycle ends at the end of the timeout, and until
then the clock stays before. -/
structure GivesUp (s : Setup) (now : Nat) (h : History) : Prop where
  ends : ∀ x b store reply older, x :: ⟨b, .begins store reply⟩ :: older <:+ h →
    reply.IsLate s.timing.timeout → x = ⟨b + s.timing.timeout, .ends (s.timedOut store)⟩
  underway : ∀ b store reply older, h = ⟨b, .begins store reply⟩ :: older →
    now ≤ b + s.timing.timeout

theorem Follows.givenUp {rule : RestartRule} {s : Setup} {epoch : Int} {h : History} {b : Nat}
    {store : Store} {reply : Reply} {x : Stamped Incident}
    (hx : Follows rule s epoch (⟨b, .begins store reply⟩ :: h) x)
    (hl : reply.IsLate s.timing.timeout) :
    x = ⟨b + s.timing.timeout, .ends (s.timedOut store)⟩ := by
  cases hx with
  | ends ht =>
    cases ht
    rw [Setup.fetched, hl.within, Option.getD_none, Setup.conclude_timeoutResult,
      Solo.duration_of_late hl.within]

theorem Strand.Kept.givesUp {rule : RestartRule} {s : Setup} {epoch : Int} {v : Strand}
    {h : History} (hv : Kept rule s epoch v h) : GivesUp s v.loop.now h := by
  constructor
  case ends =>
    intro x b store reply older hx hl
    exact (hv.regular.of_suffix hx).follows.givenUp hl
  case underway =>
    rintro b store reply older rfl
    calc v.loop.now ≤ b + Solo.duration s.timing.timeout reply.delay :=
          hv.paced.fetch_due hv.steady hv.tallied rfl
      _ ≤ b + s.timing.timeout := Nat.add_le_add_left (Solo.duration_le _ _) b

namespace Solo

variable {κ : Type} {n : Network κ}

/-- A single cycle whose fetch was given up: it ends at the end of the timeout, as a failure. -/
structure GivenUp (s : Setup) (r r' : SoloRun κ) : Prop where
  time : r'.loop.now = r.loop.now + s.timing.timeout
  result : r'.state.result = some (.ok .fetchFailed)
  store : r'.state.poller.store = r.state.poller.store
  journal : ∃ begun, r'.journal =
    ⟨r.loop.now + s.timing.timeout, .event
      { owner := s.name
        outcome := .fetchFailed
        reason := ascii "timeout: no response within " ++ Bytes.decimal s.timing.timeout ++
          ascii " ms" }⟩ :: ⟨r.loop.now, .call r.state.poller.store.version s.timing.timeout⟩ ::
        begun :: r.journal

theorem givenUp_closed (n : Network κ) (r : SoloRun κ) (timers : List (Timer Poller.Task)) :
    GivenUp r.state.poller.setup r
      (closed ((fetching n r).onLoop
        ⟨r.loop.now + r.state.poller.setup.timing.timeout, [], timers⟩)
        r.state.poller.store.current r.state.poller.setup.timeoutResult) := by
  constructor
  case time => rfl
  case result => rfl
  case store => rfl
  case journal =>
    refine ⟨⟨r.loop.now, .phase .fetching⟩, ?_⟩
    show ((r.state.poller.setup.conclude r.state.poller.store.current r.state.poller.store _
      r.state.poller.setup.timeoutResult).marks.map _).reverse ++ _ = _
    rw [Setup.conclude_timeoutResult]
    rfl

theorem givenUp_of_late {r : SoloRun κ} (hq : Quiet r)
    (hl : (asked n r.state).1.IsLate r.state.poller.setup.timing.timeout) :
    ∃ steps r', (∀ fuel, (opened r).continueWhile (machine n) none isOpen (steps + fuel) = r') ∧
      GivenUp r.state.poller.setup r r' := by
  obtain ⟨steps, timers, hrun, _⟩ := run_of_late hq hl.within
  refine ⟨steps + 1, _, fun fuel => ?_, givenUp_closed n r timers⟩
  rw [show steps + 1 + fuel = steps + fuel + 1 by omega,
    Run.continueWhile_step (isOpen_opened r) (step?_opened hq.ready)]
  exact hrun fuel

end Solo

/-- What a supervisor is played to is a course. -/
theorem Supervisor.Plays.course {κ : Type} {n : Network κ} {plan : List Supervisor.Action}
    {r r' : Run (Supervisor κ) Supervisor.Task Supervisor.Entry} (hp : Plays n plan r r')
    (ho : r.loop.Ordered) (ht : r.loop.Timely) (fetches : List Fetch) :
    ∃ h fetches', Chronicle.Course n ⟨r, fetches⟩ h ⟨r', fetches'⟩ := by
  have hgo : ∀ {c d : Chronicle κ} {h : List (Stamped Note)}, c.loop.Ordered → c.loop.Timely →
      Chronicle.Course n c h d → d.loop.Ordered ∧ d.loop.Timely :=
    fun ho ht hc => ⟨Chronicle.Leads.ordered (Chronicle.Course.leads hc) ho, hc.timely ho ht⟩
  induction hp generalizing fetches with
  | done r => exact ⟨[], fetches, .refl⟩
  | @start _ r _ _ ih =>
    have hfirst : Chronicle.Course n ⟨r, fetches⟩ [] (Chronicle.starting ⟨r, fetches⟩) :=
      .single .start
    obtain ⟨ho', ht'⟩ := hgo ho ht hfirst
    obtain ⟨h, fetches', hc⟩ := ih ho' ht' fetches
    exact ⟨_, fetches', hfirst.trans hc⟩
  | @stop _ r _ _ ih =>
    have hfirst : Chronicle.Course n ⟨r, fetches⟩ [] (Chronicle.stopping ⟨r, fetches⟩) :=
      .single .stop
    obtain ⟨ho', ht'⟩ := hgo ho ht hfirst
    obtain ⟨h, fetches', hc⟩ := ih ho' ht' fetches
    exact ⟨_, fetches', hfirst.trans hc⟩
  | @wait _ r _ duration fuel hs _ ih =>
    obtain ⟨_, more, hfirst⟩ := Chronicle.course_advanceTo n fuel (r.loop.now + duration)
      (c := ⟨r, fetches⟩) ho ht hs.1 fun t hmem => Nat.le_of_lt (hs.2 t hmem)
    obtain ⟨ho', ht'⟩ := hgo ho ht hfirst
    obtain ⟨h, fetches', hc⟩ := ih ho' ht' more
    exact ⟨_, fetches', hfirst.trans hc⟩

/-- Nothing notices what late replies bring: a supervisor, or a poller by itself, can be played with
them if and only if it can be played without them, and the end is the same apart from the network.
Each of their fetches is given up at the end of its timeout, under a supervisor, in the loop of a
poller and in a single cycle. -/
theorem late_replies_unseen {κ : Type} (n : Network κ) :
    (∀ (rule : RestartRule) (setups : List Setup) (scripts scripts' : List Script) (epoch : Int)
      (seed : UInt64) (plan : List Supervisor.Action),
      Supervisor.Hushes setups scripts scripts' →
        (∀ r, Supervisor.Plays .scripted plan
            (.start (.new rule setups scripts epoch seed)) r →
          ∃ r', Supervisor.Plays .scripted plan
            (.start (.new rule setups scripts' epoch seed)) r' ∧ Supervisor.Unchanged r r') ∧
        ∀ r', Supervisor.Plays .scripted plan
            (.start (.new rule setups scripts' epoch seed)) r' →
          ∃ r, Supervisor.Plays .scripted plan
            (.start (.new rule setups scripts epoch seed)) r ∧ Supervisor.Unchanged r r') ∧
    (∀ (s : Setup) (store : Store) (seed : UInt64) (script script' : Script) (epoch : Int)
      (plan : List Solo.Action),
      script.Hushes s.timing.timeout script' →
        (∀ r, Solo.Plays .scripted plan (Solo.fresh s store seed script epoch) r →
          ∃ r', Solo.Plays .scripted plan (Solo.fresh s store seed script' epoch) r' ∧
            Solo.Unchanged r r') ∧
        ∀ r', Solo.Plays .scripted plan (Solo.fresh s store seed script' epoch) r' →
          ∃ r, Solo.Plays .scripted plan (Solo.fresh s store seed script epoch) r ∧
            Solo.Unchanged r r') ∧
    (∀ (rule : RestartRule) (setups : List Setup) (network : κ) (epoch : Int) (seed : UInt64)
      (h : List (Stamped Note)) (c : Chronicle κ) (i : Nat) (s : Setup), setups[i]? = some s →
        Chronicle.Course n (.begin rule setups network epoch seed) h c →
          GivesUp s c.loop.now (historyOf i h)) ∧
    (∀ (s : Setup) (store : Store) (seed : UInt64) (network : κ) (epoch : Int) (h : History)
      (r : Solo.SoloRun κ), Solo.Course n (Solo.launched s store seed network epoch) h r →
        GivesUp s r.loop.now h) ∧
    ∀ r : Solo.SoloRun κ, Solo.Quiet r →
      (Solo.asked n r.state).1.IsLate r.state.poller.setup.timing.timeout →
        ∃ steps r', (∀ fuel, (Solo.opened r).continueWhile (Solo.machine n) none Solo.isOpen
          (steps + fuel) = r') ∧ Solo.GivenUp r.state.poller.setup r r' := by
  refine ⟨?_, ?_, ?_, ?_, fun r => Solo.givenUp_of_late⟩
  · intro rule setups scripts scripts' epoch seed plan hh
    have hstreams := hh.streams
    refine ⟨fun r hr => Supervisor.unchanged_of_plays hstreams hr, fun r' hr' => ?_⟩
    obtain ⟨r, hr, hsame⟩ := Supervisor.unchanged_of_plays (fun i k => (hstreams i k).symm) hr'
    exact ⟨r, hr, hsame.symm⟩
  · intro s store seed script script' epoch plan hh
    have hreplies := fun k => (hh k).hushed
    refine ⟨fun r hr => Solo.unchanged_of_plays hreplies hr, fun r' hr' => ?_⟩
    obtain ⟨r, hr, hsame⟩ := Solo.unchanged_of_plays (fun k => (hreplies k).symm) hr'
    exact ⟨r, hr, hsame.symm⟩
  · intro rule setups network epoch seed h c i s hs hc
    obtain ⟨v, hv, hkept⟩ := hc.kept_of_setup hs
    have hgives := hkept.givesUp
    rw [Chronicle.now_of_strand? hv] at hgives
    exact hgives
  · intro s store seed network epoch h r hc
    obtain ⟨v, hmirrors, hkept⟩ := hc.kept
    have hgives := hkept.givesUp
    rw [hmirrors.loop] at hgives
    exact hgives

/-- The first fetch is answered with a new state after twenty seconds, or never; all others are
refused. -/
def belated (delay : Option Nat) : Script := ⟨[⟨delay, .ok (.ok ⟨7, [], [], none⟩)⟩], .refused⟩

def belatedRun (delay : Option Nat) : Supervisor.ScriptedRun :=
  .start (.new .standard [.plain (ascii "a1")] [belated delay] 0 0)

def belatedPoller (delay : Option Nat) : Solo.SoloRun (List Script) :=
  Solo.fresh (.plain (ascii "a1")) (.new (ascii "a1")) 0 (belated delay) 0

def belatedLoop : Solo.SoloRun (List Script) :=
  Solo.launched (.plain (ascii "a1")) (.new (ascii "a1")) 0 [belated (some 20000)] 0

theorem belated_hushes (timeout : Nat) (h : timeout < 20000) :
    (belated (some 20000)).Hushes timeout (belated none) := by
  intro k
  cases k with
  | zero => exact .inr ⟨⟨20000, rfl, h⟩, rfl⟩
  | succ k => exact .inl rfl

theorem Solo.plays_cycle {κ : Type} {n : Network κ} {r : SoloRun κ} {fuel fuel' duration : Nat}
    (hs : ((r.command beginCycle).continueWhile (machine n) none isOpen fuel).state.isOpen = false)
    (h : (((r.command beginCycle).continueWhile (machine n) none isOpen fuel).advanceTo (machine n)
      fuel' (((r.command beginCycle).continueWhile (machine n) none isOpen fuel).loop.now +
        duration)).Settled) :
    ∃ r', Plays n [.cycle, .wait duration] r r' ∧
      r' = ((r.command beginCycle).continueWhile (machine n) none isOpen fuel).advanceTo (machine n)
        fuel' (((r.command beginCycle).continueWhile (machine n) none isOpen fuel).loop.now +
          duration) := ⟨_, .cycle fuel hs (.wait fuel' h (.done _)), rfl⟩

/-- A state that comes ten seconds too late is not published, though the instance sleeps by then. -/
theorem belated_state_unseen :
    (∃ r r', Supervisor.Plays .scripted [.start, .wait 24000] (belatedRun (some 20000)) r ∧
      Supervisor.Plays .scripted [.start, .wait 24000] (belatedRun none) r' ∧
      Supervisor.Unchanged r r' ∧
      (r.state.slots[0]?.any fun slot => slot.poller.store.current.isNone &&
        slot.poller.failures == 4) = true ∧
      ∃ h fetches, Chronicle.Course .scripted
          (.begin .standard [.plain (ascii "a1")] [belated (some 20000)] 0 0) h ⟨r, fetches⟩ ∧
        GivesUp (.plain (ascii "a1")) r.loop.now (historyOf 0 h)) ∧
    (∃ r r', Solo.Plays .scripted [.cycle, .wait 25000] (belatedPoller (some 20000)) r ∧
      Solo.Plays .scripted [.cycle, .wait 25000] (belatedPoller none) r' ∧
      Solo.Unchanged r r' ∧ r.loop.now = 35000) ∧
    (∃ h r, Solo.Course .scripted belatedLoop h r ∧
      r.loop.now = 20000 ∧ GivesUp (.plain (ascii "a1")) r.loop.now h) ∧
    ∃ steps r', (∀ fuel, (Solo.opened (Solo.answeredAfter 11)).continueWhile
      (Solo.machine .scripted) none Solo.isOpen (steps + fuel) = r') ∧ r'.loop.now = 10 := by
  obtain ⟨hsupervisor, hpoller, hcourse, hloop, hcycle⟩ := late_replies_unseen Network.scripted
  refine ⟨?_, ?_, ?_, ?_⟩
  · obtain ⟨r, hp, he⟩ := @Supervisor.plays_start (belatedRun (some 20000)) 40 24000
      ⟨by decide +kernel, by decide +kernel⟩
    have hhushes : Supervisor.Hushes [.plain (ascii "a1")] [belated (some 20000)]
        [belated none] := by
      intro i s hs k
      cases i with
      | zero =>
        cases hs
        exact belated_hushes _ (by decide) k
      | succ i => cases hs
    obtain ⟨r', hp', hsame⟩ := (hsupervisor _ _ _ _ 0 0 _ hhushes).1 r hp
    obtain ⟨h, fetches, hc⟩ := hp.course Loop.ordered_start nofun []
    refine ⟨r, r', hp, hp', hsame, ?_, h, fetches, hc, hcourse _ _ _ _ _ _ _ 0 _ rfl hc⟩
    rw [he]
    decide +kernel
  · obtain ⟨r, hp, he⟩ := @Solo.plays_cycle _ Network.scripted
      (belatedPoller (some 20000)) 10 10 25000 (by decide +kernel)
      ⟨by decide +kernel, by decide +kernel⟩
    obtain ⟨r', hp', hsame⟩ := (hpoller _ _ 0 _ _ 0 _ (belated_hushes _ (by decide))).1 r hp
    refine ⟨r, r', hp, hp', hsame, ?_⟩
    rw [he]
    decide +kernel
  · obtain ⟨h, hc⟩ := Solo.course_continueWhile Network.scripted (some 20000) (fun _ => true) 40
      (r := belatedLoop) Loop.ordered_start nofun
    generalize hr : belatedLoop.continueWhile _ _ _ _ = r at hc
    refine ⟨h, r, hc, ?_, hloop _ _ _ _ _ _ _ hc⟩
    rw [← hr]
    decide +kernel
  · obtain ⟨steps, r', hrun, hgiven⟩ := hcycle (Solo.answeredAfter 11) (Solo.quiet_start _ _ _) (by
      intro d hd
      cases hd
      decide)
    exact ⟨steps, r', hrun, hgiven.time⟩

end TargetDiscovery
