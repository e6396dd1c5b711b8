import TargetDiscovery.Json.Plain
import TargetDiscovery.Proofs.Cycle.Ending
import TargetDiscovery.Proofs.Query.Listed
import TargetDiscovery.Proofs.Supervisor.Stage
import TargetDiscovery.Proofs.Target.Labels
import TargetDiscovery.Registry.Response

/-!
# Trust

A snapshot becomes current only if some fetch of the same instance brought the state that it was
made from, in time, and the verifier of the instance trusts that state. The fetch is carried along
through every kind of turn: from the race with its deadline to the answer that has come in, and from
there to the store. What answers list is therefore certified wherever certificates are checked.
-/

set_option autoImplicit false

namespace TargetDiscovery

namespace Fetch

def Delivers (f : Fetch) (now : Nat) (result : FetchResult) : Prop :=
  ∃ delay, f.reply = ⟨some delay, result⟩ ∧ delay ≤ f.timeout ∧ f.begun + delay ≤ now

theorem Delivers.mono {f : Fetch} {now later : Nat} {result : FetchResult}
    (h : f.Delivers now result) (hle : now ≤ later) : f.Delivers later result := by
  obtain ⟨delay, hreply, hdelay, hnow⟩ := h
  exact ⟨delay, hreply, hdelay, by omega⟩

/-- The fetch is under way as this number: its deadline is set, and any answer is its own. -/
structure Races (f : Fetch) (number : Nat) (timers : List (Timer SlotTask)) : Prop where
  deadline : ⟨f.begun + f.timeout, .poll (.deadline number)⟩ ∈ timers
  replies : ∀ u ∈ timers, ∀ result, u.task = .poll (.reply number result) →
    ∃ delay, f.reply = ⟨some delay, result⟩ ∧ u.due = f.begun + delay

end Fetch

/-- The snapshot was made from a trusted state that one of the fetches delivered. -/
def Setup.Backs (s : Setup) (fetches : List Fetch) (now : Nat) (snapshot : Snapshot) : Prop :=
  ∃ f ∈ fetches, ∃ state, f.Delivers now (.ok (.ok state)) ∧ s.verifier.trusts state = .ok true ∧
    snapshot.version = state.version ∧
    s.conversion.listing state.records = .ok ⟨snapshot.targets, snapshot.skipped⟩

theorem Setup.Backs.mono {s : Setup} {fetches more : List Fetch} {now later : Nat}
    {snapshot : Snapshot} (h : s.Backs fetches now snapshot) (hf : ∀ f ∈ fetches, f ∈ more)
    (hle : now ≤ later) : s.Backs more later snapshot := by
  obtain ⟨f, hmem, state, hd, rest⟩ := h
  exact ⟨f, hf f hmem, state, hd.mono hle, rest⟩

namespace Strand

/-- Where the fetch behind every state is to be found, and which answers may still come. -/
structure Honest (v : Strand) : Prop where
  current : ∀ snapshot, v.slot.poller.store.current = some snapshot →
    v.slot.poller.setup.Backs v.fetches v.loop.now snapshot
  answered : ∀ known result, v.slot.poller.activity = .fetching known (some result) →
    ∃ f ∈ v.fetches, f.Delivers v.loop.now result
  racing : ∀ known, v.slot.poller.activity = .fetching known none →
    ∃ f ∈ v.fetches, f.Races v.slot.poller.fetches v.loop.timers
  numbers : ∀ u ∈ v.loop.timers, ∀ number result, u.task = .poll (.reply number result) →
    number ≤ v.slot.poller.fetches
  timed : ∀ number result, .poll (.reply number result) ∉ v.loop.ready

theorem fresh_honest (setup : Setup) (rule : RestartRule) (seed : UInt64) :
    (fresh setup rule seed).Honest := by
  constructor
  case current =>
    intro snapshot h
    cases h
  case answered =>
    intro known result h
    cases h
  case racing =>
    intro known h
    cases h
  case numbers =>
    intro u hu
    cases hu
  case timed =>
    intro number result h
    cases h

/-- What leaves the poller and its timers alone, apart from what no longer matters, keeps this. -/
theorem Honest.keep {v w : Strand} (hv : v.Honest) (hp : w.slot.poller.setup = v.slot.poller.setup)
    (hs : w.slot.poller.store = v.slot.poller.store)
    (ha : w.slot.poller.activity = v.slot.poller.activity)
    (hn : w.slot.poller.fetches = v.slot.poller.fetches) (hf : w.fetches = v.fetches)
    (hnow : v.loop.now ≤ w.loop.now) (hsub : ∀ u ∈ w.loop.timers, u ∈ v.loop.timers)
    (hkeep : ∀ known, v.slot.poller.activity = .fetching known none → ∀ u ∈ v.loop.timers,
      u.task = .poll (.deadline v.slot.poller.fetches) → u ∈ w.loop.timers)
    (hready : ∀ number result, .poll (.reply number result) ∈ w.loop.ready →
      .poll (.reply number result) ∈ v.loop.ready) : w.Honest := by
  constructor
  case current =>
    intro snapshot h
    rw [hs] at h
    rw [hp, hf]
    exact (hv.current snapshot h).mono (fun _ => id) hnow
  case answered =>
    intro known result h
    rw [ha] at h
    obtain ⟨f, hmem, hd⟩ := hv.answered known result h
    exact ⟨f, hf ▸ hmem, hd.mono hnow⟩
  case racing =>
    intro known h
    rw [ha] at h
    obtain ⟨f, hmem, hr⟩ := hv.racing known h
    refine ⟨f, hf ▸ hmem, hn ▸ hkeep known h _ hr.deadline rfl, ?_⟩
    rw [hn]
    exact fun u hu => hr.replies u (hsub u hu)
  case numbers =>
    intro u hu number result htask
    rw [hn]
    exact hv.numbers u (hsub u hu) number result htask
  case timed =>
    intro number result h
    exact hv.timed number result (hready number result h)

theorem honest_of_no_fetch {w : Strand}
    (ha : ∀ known answer, w.slot.poller.activity ≠ .fetching known answer)
    (hc : ∀ snapshot, w.slot.poller.store.current = some snapshot →
      w.slot.poller.setup.Backs w.fetches w.loop.now snapshot)
    (hn : ∀ u ∈ w.loop.timers, ∀ number result, u.task = .poll (.reply number result) →
      number ≤ w.slot.poller.fetches)
    (hr : ∀ number result, .poll (.reply number result) ∉ w.loop.ready) : w.Honest :=
  ⟨hc, fun known _ h => absurd h (ha known _), fun known h => absurd h (ha known _), hn, hr⟩

theorem Honest.current_of_close {v : Strand} (hv : v.Honest) {known : Option Snapshot}
    {answer : Option FetchResult} {t : SlotTask} (hc : v.slot.Closes known answer t) (time : Int)
    {now : Nat} (hnow : v.loop.now ≤ now) {snapshot : Snapshot}
    (h : (v.slot.cycleEnd time known answer).poller.store.current = some snapshot) :
    (v.slot.cycleEnd time known answer).poller.setup.Backs v.fetches now snapshot := by
  have hend := v.slot.cycleEnd_concluded time known answer
  rw [hend.store] at h
  rw [hend.setup]
  have hends := v.slot.poller.setup.conclude_ends known v.slot.poller.store time
    (answer.getD v.slot.poller.setup.timeoutResult)
  rcases hends.current with hsame | ⟨state, l, hfetched, htrusts, hlisting, hnew⟩
  · exact (hv.current snapshot (hsame.symm.trans h)).mono (fun _ => id) hnow
  · have hsnapshot := Option.some.inj (hnew.symm.trans h)
    subst hsnapshot
    cases answer with
    | none => cases hfetched
    | some result =>
      obtain ⟨f, hmem, hd⟩ := hv.answered known result hc.1
      rw [Option.getD_some] at hfetched
      rw [hfetched] at hd
      exact ⟨f, hmem, state, hd.mono hnow, htrusts, rfl, hlisting⟩

theorem Honest.delivers {v : Strand} (hv : v.Honest) (ho : v.loop.Ordered)
    {known : Option Snapshot} {result : FetchResult} {loop : Loop SlotTask}
    (ha : v.slot.poller.activity = .fetching known none)
    (ht : v.loop.Takes (.poll (.reply v.slot.poller.fetches result)) loop) :
    ∃ f ∈ v.fetches, f.Delivers loop.now result := by
  obtain ⟨f, hmem, hr⟩ := hv.racing known ha
  obtain ⟨u, hu, htask, hdue, hfirst⟩ := ht.of_not_ready ho (hv.timed _ _)
  obtain ⟨delay, hreply, htime⟩ := hr.replies u hu result htask
  have hdeadline := hfirst _ hr.deadline
  refine ⟨f, hmem, delay, hreply, ?_, ?_⟩
  · simp only at hdeadline
    omega
  · omega

section

variable {rule : RestartRule} {time : Int} {ask : UInt64 × Nat → Reply} {v : Strand}
  {t : SlotTask} {loop : Loop SlotTask}

/-- A turn that begins a fetch puts it on record, and no older answer can be taken for its own. -/
theorem Honest.fetches (hv : v.Honest) (ht : v.loop.Takes t loop) (i : Nat) :
    (v.taking i loop ask
      { slot := { v.slot with poller := v.slot.poller.fetching }
        orders := Slot.fetchOrders (v.slot.poller.fetches + 1) v.slot.poller.setup.timing.timeout
          (ask (v.slot.poller.store.version, v.slot.poller.setup.timing.timeout))
        asked := some (v.slot.poller.store.version, v.slot.poller.setup.timing.timeout) }).Honest := by
  generalize hreply : ask (v.slot.poller.store.version, v.slot.poller.setup.timing.timeout) = reply
  have hold : ∀ u ∈ loop.timers, ∀ number result, u.task = .poll (.reply number result) →
      number ≤ v.slot.poller.fetches := fun u hu => hv.numbers u (ht.timers_subset hu)
  constructor
  case current =>
    intro snapshot h
    refine (hv.current snapshot h).mono (fun f hf => List.mem_append_right _ hf) ?_
    simp only [taking, Loop.obeyAll_now]
    exact ht.now_le
  case answered =>
    intro known result h
    cases h
  -- Only the answer with the new number is taken for this fetch, and all older ones are smaller.
  case racing =>
    intro known h
    refine ⟨_, List.mem_append_left _ List.mem_cons_self, ?_, ?_⟩
    · exact deadline_mem_fetchOrders _ _ _ _
    · intro u hu result htask
      rcases mem_timers_fetchOrders hu with rfl | ⟨delay, hdelay, rfl⟩ | hu
      · cases htask
      · cases htask
        refine ⟨delay, ?_, rfl⟩
        simp only [hreply]
        cases reply
        cases hdelay
        rfl
      · have := hold u hu _ _ htask
        simp only [taking, Poller.fetching] at this
        omega
  case numbers =>
    intro u hu number result htask
    rcases mem_timers_fetchOrders hu with rfl | ⟨delay, _, rfl⟩ | hu
    · cases htask
    · cases htask
      exact Nat.le_refl _
    · exact Nat.le_succ_of_le (hold u hu number result htask)
  case timed =>
    intro number result h
    simp only [taking, ready_fetchOrders] at h
    exact hv.timed number result (ht.mem_ready h)

theorem Honest.closed (hv : v.Honest) (ht : v.loop.Takes t loop) {known : Option Snapshot}
    {answer : Option FetchResult} (hc : v.slot.Closes known answer t) {w : Strand}
    (hp : w.slot.poller = (v.slot.cycleEnd time known answer).poller)
    (ha : ∀ known answer, w.slot.poller.activity ≠ .fetching known answer)
    (hf : w.fetches = v.fetches) (hnow : w.loop.now = loop.now)
    (htimers : ∀ u ∈ w.loop.timers, ∀ number result, u.task = .poll (.reply number result) →
      u ∈ loop.timers)
    (hready : w.loop.ready = loop.ready) : w.Honest := by
  refine honest_of_no_fetch ha ?_ ?_ ?_
  · intro snapshot h
    rw [hp] at h ⊢
    rw [hf, hnow]
    exact hv.current_of_close hc time ht.now_le h
  · intro u hu number result htask
    rw [hp, (v.slot.cycleEnd_concluded time known answer).fetches]
    exact hv.numbers u (ht.timers_subset (htimers u hu number result htask)) number result htask
  · intro number result h
    rw [hready] at h
    exact hv.timed number result (ht.mem_ready h)

/-- A wait that is dropped leaves the race as it is. -/
theorem Honest.cancel (hv : v.Honest) (ht : v.loop.Takes t loop) {x a : SlotTask}
    (hx : ∀ number, x ≠ .poll (.deadline number))
    (ha : ∀ number result, a ≠ .poll (.reply number result))
    (hfits : ∀ number, t ≠ .poll (.deadline number)) :
    { v with loop := loop.cancel x a }.Honest := by
  refine hv.keep rfl rfl rfl rfl rfl ht.now_le ?_ ?_ ?_
  · intro w hw
    exact ht.timers_subset (Loop.mem_timers_cancel.mp hw).1
  · intro known _ w hw htask
    refine Loop.mem_timers_cancel.mpr ⟨ht.mem_timers hw ?_, ?_⟩
    · rw [htask]
      exact (hfits _).symm
    · rw [htask]
      exact (hx _).symm
  · intro number result h
    rcases Loop.mem_ready_cancel h with h | h
    · exact absurd (ht.mem_ready h) (hv.timed number result)
    · exact absurd h.symm (ha number result)

theorem timers_of_after {l : Loop SlotTask} {delay : Nat} {x : SlotTask}
    (hx : ∀ number result, x ≠ .poll (.reply number result)) :
    ∀ u ∈ (l.after delay x).timers, ∀ number result, u.task = .poll (.reply number result) →
      u ∈ l.timers := by
  intro u hu number result htask
  rcases Loop.mem_timers_after.mp hu with rfl | hu
  · exact absurd htask (hx number result)
  · exact hu

theorem Honest.turn (hv : v.Honest) (ho : v.loop.Ordered) (ht : v.loop.Takes t loop)
    {u : Slot.Turn} (hu : Slot.Does rule v.stopping time ask v.slot t u) (i : Nat) :
    (v.taking i loop ask u).Honest := by
  have htimers : ∀ w ∈ loop.timers, w ∈ v.loop.timers := fun w => ht.timers_subset
  have hready : ∀ number result, .poll (.reply number result) ∉ loop.ready :=
    fun number result h => hv.timed number result (ht.mem_ready h)
  have hnumbers : ∀ w ∈ loop.timers, ∀ number result, w.task = .poll (.reply number result) →
      number ≤ v.slot.poller.fetches := fun w hw => hv.numbers w (htimers w hw)
  have hcurrent : ∀ snapshot, v.slot.poller.store.current = some snapshot →
      v.slot.poller.setup.Backs v.fetches loop.now snapshot :=
    fun snapshot h => (hv.current snapshot h).mono (fun _ => id) ht.now_le
  -- Only the begin of a fetch, its answer and the end of its cycle touch what is stated; the other
  -- turns keep it.
  cases hu with
  | ignores hno =>
    refine hv.keep rfl rfl rfl rfl rfl ht.now_le htimers ?_ fun number result h =>
      absurd h (hready number result)
    intro known ha w hw htask
    apply ht.mem_timers hw
    rintro rfl
    rw [htask] at hno
    exact hno ⟨rfl, known, _, ha⟩
  | rouses => exact hv.cancel ht nofun nofun nofun
  | drops => exact hv.cancel ht nofun nofun nofun
  | settles ha =>
    obtain hdelivers := hv.delivers ho ha ht
    constructor
    case current => exact hcurrent
    case answered =>
      intro known result h
      cases h
      exact hdelivers
    case racing =>
      intro known h
      cases h
    case numbers =>
      intro w hw
      exact hnumbers w (Loop.mem_timers_cancel.mp hw).1
    case timed =>
      intro number result h
      rcases Loop.mem_ready_cancel h with h | h
      · exact hready number result h
      · cases h
  | fetches => exact hv.fetches ht i
  | halts => exact honest_of_no_fetch (fun _ _ h => nomatch h) hcurrent hnumbers hready
  -- The cycle is over: the store is that of its conclusion, and no answer is awaited.
  | sleeps hc _ ha =>
    have hidle : ∀ known answer, (v.slot.cycleEnd time _ _).poller.activity ≠
        .fetching known answer := fun known answer h => nomatch ha.symm.trans h
    exact hv.closed ht hc rfl hidle rfl rfl (timers_of_after nofun) rfl
  | exits hc _ ha hu =>
    have hidle : ∀ known answer, (v.slot.cycleEnd time _ _).poller.activity ≠
        .fetching known answer := fun known answer h => nomatch ha.symm.trans h
    cases hu with
    | stops | fails | degrades =>
      exact hv.closed ht hc rfl hidle rfl rfl (fun w hw _ _ _ => hw) rfl
    | restarts => exact hv.closed ht hc rfl hidle rfl rfl (timers_of_after nofun) rfl
  | relaunches =>
    refine hv.keep rfl rfl rfl rfl rfl ht.now_le htimers ?_ ?_
    · intro known _ w hw htask
      apply ht.mem_timers hw
      rw [htask]
      exact nofun
    · intro number result h
      rcases List.mem_append.mp h with h | h
      · exact absurd h (hready number result)
      · cases List.mem_singleton.mp h
  | abandons hno =>
    refine hv.keep rfl rfl rfl rfl rfl ht.now_le htimers ?_ fun number result h =>
      absurd h (hready number result)
    intro known _ w hw htask
    apply ht.mem_timers hw
    rw [htask]
    rcases hno with rfl | ⟨rfl, _⟩
    · exact nofun
    · exact nofun

end

theorem Goes.honest {rule : RestartRule} {i : Nat} {v w : Strand} (h : Goes rule i v w)
    (hs : v.Steady) (hv : v.Honest) : w.Honest := by
  cases h with
  | start =>
    refine hv.keep rfl rfl rfl rfl rfl (Nat.le_refl _) (fun _ => id) (fun _ _ _ hu _ => hu) ?_
    intro number result h
    rcases List.mem_append.mp h with h | h
    · exact h
    · cases List.mem_singleton.mp h
  | stop =>
    refine hv.keep rfl rfl rfl rfl rfl (Nat.le_refl _) (fun _ => id) (fun _ _ _ hu _ => hu) ?_
    intro number result h
    rcases List.mem_append.mp h with h | h
    · rcases List.mem_append.mp h with h | h
      · exact h
      · cases List.mem_singleton.mp h
    · cases List.mem_singleton.mp h
  | elapse hnow =>
    exact hv.keep rfl rfl rfl rfl rfl hnow (fun _ => id) (fun _ _ _ hu _ => hu) fun _ _ => id
  | turn time ask ht =>
    rw [← taking_plain]
    exact hv.turn hs.ordered ht (hs.does _ ht time ask) i

theorem Leads.honest {rule : RestartRule} {i : Nat} {v w : Strand} (h : Leads rule i v w)
    (hs : v.Steady) (hv : v.Honest) : w.Honest := by
  induction h with
  | refl => exact hv
  | tail hl hg ih => exact hg.honest (Leads.steady hl hs) ih

end Strand

/-! ## Certified snapshots -/

/-- The snapshot of an instance was made from certified bytes that this fetch delivered. The bytes
are those of the response where the state was read from one, and so are version and records. -/
structure Certified [Json.Reader] (check : Check) (s : Setup) (f : Fetch) (now : Nat)
    (snapshot : Snapshot) (state : RegistryState) (certificate : Bytes) : Prop where
  delivered : f.Delivers now (.ok (.ok state))
  attached : state.certificate = some certificate
  notEmpty : certificate ≠ []
  checked : check state.payload certificate = .ok true
  version : snapshot.version = state.version
  listing : s.conversion.listing state.records = .ok ⟨snapshot.targets, snapshot.skipped⟩
  response : ∀ body attached, f.reply.result = FetchResult.ofResponse body attached →
    state.payload = body ∧ state.certificate = attached ∧
      ∃ document, Json.Reader.read false body = .ok document ∧
        RegistryState.ofDocument document = .ok (state.version, state.records)

theorem Setup.Backs.certified [Json.Reader] {s : Setup} {fetches : List Fetch} {now : Nat}
    {snapshot : Snapshot} (h : s.Backs fetches now snapshot) {check : Check}
    (hcheck : s.verifier = .checked check) :
    ∃ f ∈ fetches, ∃ state certificate, Certified check s f now snapshot state certificate := by
  obtain ⟨f, hmem, state, hd, htrusts, hversion, hlisting⟩ := h
  rw [hcheck] at htrusts
  simp only [Verifier.trusts, RegistryState.certified?] at htrusts
  cases hcert : state.certificate with
  | none => simp [hcert] at htrusts
  | some certificate =>
    by_cases hempty : certificate = []
    · simp [hcert, hempty] at htrusts
    · refine ⟨f, hmem, state, certificate, hd, hcert, hempty, ?_, hversion, hlisting, ?_⟩
      · simpa [hcert, hempty] using htrusts
      · intro body attached hresponse
        obtain ⟨delay, hreply, _⟩ := hd
        rw [hreply] at hresponse
        exact RegistryState.ofResponse_eq_ok_iff_read.mp
          (FetchResult.ofResponse_eq_ok.mp hresponse.symm)

namespace Chronicle

variable {κ : Type} {n : Network κ} {c : Chronicle κ}

theorem Reachable.honest (h : Reachable n c) {i : Nat} {v : Strand} (hv : c.strand? i = some v) :
    v.Honest := by
  obtain ⟨setup, seed, hl⟩ := h.strand hv
  exact hl.honest (Strand.fresh_steady setup _ seed) (Strand.fresh_honest setup _ seed)

/-- The current snapshot of an instance is backed by a fetch of the same instance. -/
theorem Reachable.backs (h : Reachable n c) {i : Nat} {slot : Slot}
    (hs : c.state.slots[i]? = some slot) {snapshot : Snapshot}
    (hc : slot.poller.store.current = some snapshot) :
    slot.poller.setup.Backs (c.fetches.filter fun f => f.slot = i) c.loop.now snapshot := by
  obtain ⟨v, hv, rfl⟩ := strand?_of_slot hs
  obtain ⟨_, hloop, hfetches, _, _⟩ := strand?_eq_some hv
  have hbacks := (h.honest hv).current snapshot hc
  rw [hfetches, hloop] at hbacks
  exact hbacks

def Certifies [Json.Reader] (c : Chronicle κ) (i : Nat) (check : Check) (s : Setup)
    (snapshot : Snapshot) : Prop :=
  ∃ f ∈ c.fetches, f.slot = i ∧
    ∃ state certificate, Certified check s f c.loop.now snapshot state certificate

theorem Reachable.certifies [Json.Reader] (h : Reachable n c) {i : Nat} {slot : Slot}
    (hs : c.state.slots[i]? = some slot) {check : Check}
    (hcheck : slot.poller.setup.verifier = .checked check) {snapshot : Snapshot}
    (hc : slot.poller.store.current = some snapshot) :
    c.Certifies i check slot.poller.setup snapshot := by
  obtain ⟨f, hmem, hcertified⟩ := (h.backs hs hc).certified hcheck
  obtain ⟨hf, hslot⟩ := List.mem_filter.mp hmem
  exact ⟨f, hf, by simpa using hslot, hcertified⟩

/-- Whatever an answer lists is a target in the current snapshot of some instance, under the name of
that instance; and where the instance checks certificates, that snapshot is certified. -/
theorem certified_of_reachable [Json.Reader] (h : Reachable n c) :
    (∀ i slot check snapshot, c.state.slots[i]? = some slot →
      slot.poller.setup.verifier = .checked check → slot.poller.store.current = some snapshot →
        c.Certifies i check slot.poller.setup snapshot) ∧
    ∀ ledger method target g a,
      Answer.Lists (Answer.answer c.state.catalog ledger method target).body g → a ∈ g.addresses →
        ∃ i slot snapshot, c.state.slots[i]? = some slot ∧
          slot.poller.store.current = some snapshot ∧
          (∃ t ∈ snapshot.targets, t.address = a ∧ t.labels = g.labels) ∧
          g.labels.get? Naming.owner = some slot.name ∧
          ∀ check, slot.poller.setup.verifier = .checked check →
            c.Certifies i check slot.poller.setup snapshot := by
  refine ⟨fun i slot check snapshot hs hcheck hc => h.certifies hs hcheck hc, ?_⟩
  intro ledger method target g a hlists ha
  obtain ⟨store, hstore, snapshot, hcurrent, t, ht, haddress, hlabels⟩ :=
    Answer.target_of_lists_answer hlists ha
  obtain ⟨slot, hslot, rfl⟩ := List.mem_map.mp hstore
  obtain ⟨i, hi⟩ := List.getElem?_of_mem hslot
  obtain ⟨f, _, state, _, _, _, hlisting⟩ := h.backs hi hcurrent
  obtain ⟨howner, hlabel, _⟩ := Conversion.labels_of_listing hlisting ht
  refine ⟨i, slot, snapshot, hi, hcurrent, ⟨t, ht, haddress, hlabels⟩, ?_, ?_⟩
  · rw [← hlabels, hlabel, howner]
    rfl
  · intro check hcheck
    exact h.certifies hi hcheck hcurrent

/-- An instance in front of a registry with one state whose certificate is its payload. -/
def echoing : Chronicle (List Script) :=
  begin .standard
    [{ Setup.plain (ascii "a1") with
        verifier := .checked fun payload certificate => .ok (payload == certificate) }]
    [⟨[], ⟨some 5, .ok (.ok ⟨1,
      [⟨ascii "n1", ascii "10.0.0.1:9090", [], ascii "replica", SortedMap.empty, false⟩],
      ascii "x", some (ascii "x")⟩)⟩⟩] 0 0

/-- It has a certified target after one cycle. -/
theorem certified_of_echoing :
    ∃ (c : Chronicle (List Script)) (slot : Slot) (check : Check) (snapshot : Snapshot),
      Reachable Network.scripted c ∧ c.state.slots[0]? = some slot ∧
        slot.poller.setup.verifier = .checked check ∧
        slot.poller.store.current = some snapshot ∧ snapshot.targets.length = 1 ∧
        c.Certifies 0 check slot.poller.setup snapshot := by
  obtain ⟨fetches, hl⟩ := leads_advanceTo Network.scripted 3 5 echoing.starting
  have hc := Reachable.leads ⟨_, _, _, _, _, .single .start⟩ hl
  have hrun : ((echoing.starting.run.advanceTo (Supervisor.machine Network.scripted) 3 5
      ).state.slots[0]?.any fun s => !s.poller.setup.verifier.isInsecure &&
        s.poller.store.current.any fun snapshot => snapshot.targets.length == 1) = true := by
    decide +kernel
  obtain ⟨slot, hs, hslot⟩ := (Option.any_eq_true _ _).mp hrun
  obtain ⟨hchecks, hcurrent⟩ := Bool.and_eq_true_iff.mp hslot
  obtain ⟨snapshot, hsnapshot, hone⟩ := (Option.any_eq_true _ _).mp hcurrent
  cases hcheck : slot.poller.setup.verifier with
  | insecure => simp [hcheck, Verifier.isInsecure] at hchecks
  | checked check =>
    exact ⟨_, slot, check, snapshot, hc, hs, hcheck, hsnapshot, by simpa using hone,
      (certified_of_reachable hc).1 0 slot check snapshot hs hcheck hsnapshot⟩

end Chronicle

end TargetDiscovery
