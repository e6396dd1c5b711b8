import TargetDiscovery.Proofs.IdleTasks
import TargetDiscovery.Proofs.Poller.Reaction
import TargetDiscovery.Proofs.Scripts

/-!
# Late replies

A reply is late if it comes after the timeout of its fetch. By then the deadline has ended the
cycle, whatever else happened: the poller has gone on, and ignores the reply. The tasks of the
poller may be part of a loop that holds others as well.
-/

set_option autoImplicit false

namespace TargetDiscovery

namespace Reply

def never : Reply := ⟨none, .error .foreign⟩

/-- The reply, if it does not come after the timeout. -/
def hushed (timeout : Nat) (r : Reply) : Reply :=
  match r.delay with
  | some d => if d ≤ timeout then r else never
  | none => never

/-- The reply is kept, or one that never comes stands for a late one. -/
def Hushes (timeout : Nat) (r r' : Reply) : Prop :=
  r' = r ∨ (∃ d, r.delay = some d ∧ timeout < d) ∧ r'.delay = none

theorem Hushes.hushed {timeout : Nat} {r r' : Reply} (h : Hushes timeout r r') :
    r'.hushed timeout = r.hushed timeout := by
  rcases h with rfl | ⟨⟨d, hd, hlt⟩, hnone⟩
  · rfl
  · have hlate : ¬ d ≤ timeout := Nat.not_le_of_lt hlt
    simp [Reply.hushed, hd, hnone, hlate]

theorem lt_of_hushed {timeout d : Nat} {r : Reply} (h : (r.hushed timeout).delay = none)
    (hd : r.delay = some d) : timeout < d := by
  simp only [hushed, hd] at h
  split at h
  · rw [hd] at h
    cases h
  · omega

theorem hushed_eq {timeout : Nat} {r : Reply} (h : (r.hushed timeout).delay ≠ none) :
    r.hushed timeout = r := by
  unfold hushed at h ⊢
  split at h
  · split at h
    · rename_i hle
      rw [if_pos hle]
    · exact absurd rfl h
  · exact absurd rfl h

end Reply

/-- Late replies to some of the fetches never come. -/
def Script.Hushes (timeout : Nat) (s s' : Script) : Prop :=
  ∀ k, (s.reply k).Hushes timeout (s'.reply k)

namespace Poller

/-! ## The fetch that is awaited -/

/-- What a reaction makes of the fetch that is awaited. -/
inductive Attends (p : Poller) (t : Task) (r : Reaction) : Prop
  | begins (since : UInt64) (hf : r.poller.fetches = p.fetches + 1)
      (hn : r.next = .fetch (p.fetches + 1) since p.setup.timing.timeout)
  | waits (hf : r.poller.fetches = p.fetches) (ha : r.poller.activity = p.activity)
      (ht : ∀ known, p.activity = .fetching known none → t ≠ .deadline p.fetches)
      (hn : r.next = .nothing ∨ r.next = .rouse)
  | leaves (hf : r.poller.fetches = p.fetches)
      (ha : ∀ known, r.poller.activity ≠ .fetching known none)
      (hn : ∀ n since timeout, r.next ≠ .fetch n since timeout)

variable {p : Poller} {t : Task}

theorem leaveWait_attends (p : Poller) (t : Task) : Attends p t p.leaveWait := by
  by_cases hs : p.stopRequested = true
  · rw [leaveWait_of_stop hs]
    exact .leaves rfl nofun nofun
  · rw [leaveWait_of_go (by simpa using hs)]
    exact .begins _ rfl rfl

theorem endCycle_attends (p : Poller) (t : Task) (time : Int) (known : Option Snapshot)
    (result : FetchResult) : Attends p t (p.endCycle time known result) := by
  have hf := (p.endCycle_concluded time known result).fetches
  by_cases hl : p.looping = true
  · cases endCycle_rests hl time known result with
    | exits fault next activity =>
      exact .leaves hf (by simp [activity]) (by simp [next])
    | sleeps delay next activity =>
      exact .leaves hf (by simp [activity]) (by simp [next])
  · have hsingle : p.looping = false := by simpa using hl
    refine .leaves hf ?_ ?_
    · simp only [endCycle, Reaction.behind]
      cases (p.setup.conclude known p.store time result).result <;> simp [afterCycle, hsingle]
    · simp only [endCycle, Reaction.behind]
      cases (p.setup.conclude known p.store time result).result <;> simp [afterCycle, hsingle]

theorem react_attends (p : Poller) (time : Int) (t : Task) : Attends p t (p.react time t) := by
  cases t with
  | begin =>
    cases leaveWait_attends { p with looping := true } .begin with
    | begins since hf hn => exact .begins since hf hn
    | waits hf ha ht hn => exact .waits hf ha (fun _ _ h => by cases h) hn
    | leaves hf ha hn => exact .leaves hf ha hn
  | once => exact .begins _ rfl rfl
  | interrupt => exact .waits rfl rfl (fun _ _ h => by cases h) (.inr rfl)
  | wake =>
    simp only [react]
    split
    · exact leaveWait_attends p .wake
    · exact .waits rfl rfl (fun _ _ h => by cases h) (.inl rfl)
  | reply n result =>
    simp only [react]
    split
    · split
      · exact .leaves rfl (fun _ h => by cases h) fun _ _ _ h => by cases h
      · exact .waits rfl rfl (fun _ _ h => by cases h) (.inl rfl)
    · exact .waits rfl rfl (fun _ _ h => by cases h) (.inl rfl)
  | resume n =>
    simp only [react]
    split
    · split
      · exact endCycle_attends p _ time _ _
      · exact .waits rfl rfl (fun _ _ h => by cases h) (.inl rfl)
    · exact .waits rfl rfl (fun _ _ h => by cases h) (.inl rfl)
  | deadline n =>
    simp only [react]
    split
    · rename_i known answer ha
      split
      · exact endCycle_attends p _ time _ _
      · rename_i hn
        refine .waits rfl rfl (fun _ _ h => hn ?_) (.inl rfl)
        cases h
        rfl
    · rename_i ha
      refine .waits rfl rfl (fun known hk => ?_) (.inl rfl)
      exact absurd hk (ha known none)

/-! ## Waiting for replies -/

section

variable {τ ε : Type}

/-- The task is no reply. -/
abbrev Wordless (e : Task → τ) (t : τ) : Prop := ∀ n result, t ≠ e (.reply n result)

/-- Replies come from timers alone, and only to fetches that were begun. -/
structure Numbered (e : Task → τ) (bound : Nat) (l : Loop τ) : Prop where
  unready : ∀ t ∈ l.ready, Wordless e t
  begun : ∀ due n result, ⟨due, e (.reply n result)⟩ ∈ l.timers → n ≤ bound

/-- The deadline of the fetch that is awaited comes before its reply, if that is late. -/
structure Awaits (e : Task → τ) (late : Nat → Bool) (p : Poller) (l : Loop τ) : Prop where
  numbered : Numbered e p.fetches l
  race : ∀ known, p.activity = .fetching known none → late p.fetches = true →
    ∃ due, ⟨due, e (.deadline p.fetches)⟩ ∈ l.timers ∧
      ∀ later result, ⟨later, e (.reply p.fetches result)⟩ ∈ l.timers → due < later

variable {e : Task → τ} {late : Nat → Bool} {bound : Nat} {l l' : Loop τ}

theorem Numbered.takes {x : τ} (h : Numbered e bound l) (ht : l.Takes x l') :
    Numbered e bound l' :=
  ⟨fun t hr => h.unready t (ht.mem_ready hr),
    fun due n result hu => h.begun due n result (ht.timers_subset hu)⟩

theorem Awaits.takes {x : τ} (h : Awaits e late p l) (ht : l.Takes x l')
    (hx : ∀ known, p.activity = .fetching known none → x ≠ e (.deadline p.fetches)) :
    Awaits e late p l' := by
  refine ⟨h.numbered.takes ht, fun known ha hlate => ?_⟩
  obtain ⟨due, hdue, hlater⟩ := h.race known ha hlate
  exact ⟨due, ht.mem_timers hdue (hx known ha).symm,
    fun later result hu => hlater later result (ht.timers_subset hu)⟩

/-- A late reply is ignored. -/
theorem Awaits.ignores (h : Awaits e late p l) (ho : l.Ordered) {n : Nat} {result : FetchResult}
    (ht : l.Takes (e (.reply n result)) l') (hlate : late n = true) (time : Int) :
    p.react time (.reply n result) = p.ignore := by
  simp only [react]
  split
  · rename_i known ha
    split
    · rename_i hn
      subst hn
      -- The deadline would have been taken first.
      have hunready : e (.reply p.fetches result) ∉ l.ready :=
        fun hr => h.numbered.unready _ hr _ _ rfl
      obtain ⟨u, hu, htask, _, hfirst⟩ := ht.of_not_ready ho hunready
      obtain ⟨due, hdue, hlater⟩ := h.race known ha hlate
      have hlt : due < u.due := hlater u.due result (by rwa [← htask])
      have hle : u.due ≤ due := hfirst _ hdue
      omega
    · rfl
  · rfl

variable [DecidableEq τ] {o : Order τ ε} {orders : List (Order τ ε)}

theorem Numbered.obey (h : Numbered e bound l) (ho : Loop.Gives (Wordless e) o) :
    Numbered e bound (l.obey o) := by
  cases o with
  | emit x => exact h
  | post t =>
    refine ⟨fun x hx => ?_, h.begun⟩
    rcases List.mem_append.mp hx with hx | hx
    · exact h.unready x hx
    · rw [List.mem_singleton.mp hx]
      exact ho
  | after d t =>
    refine ⟨h.unready, fun due n result hu => ?_⟩
    rcases Loop.mem_timers_after.mp hu with hu | hu
    · cases hu
      exact absurd rfl (ho n result)
    · exact h.begun due n result hu
  | cancel t a =>
    refine ⟨fun x hx => ?_, fun due n result hu => ?_⟩
    · rcases Loop.mem_ready_cancel hx with hx | rfl
      · exact h.unready x hx
      · exact ho
    · exact h.begun due n result (Loop.mem_timers_cancel.mp hu).1

theorem Numbered.obeyAll (h : Numbered e bound l) (ho : ∀ o ∈ orders, Loop.Gives (Wordless e) o) :
    Numbered e bound (l.obeyAll orders) := by
  induction orders generalizing l with
  | nil => exact h
  | cons o orders ih => exact ih (h.obey (ho o (by simp))) fun q hq => ho q (by simp [hq])

/-- An order gives no reply and drops no deadline. -/
def Mild (e : Task → τ) (o : Order τ ε) : Prop :=
  Loop.Gives (Wordless e) o ∧ ∀ n a, o ≠ .cancel (e (.deadline n)) a

theorem Awaits.obey (h : Awaits e late p l) (ho : Mild e o) : Awaits e late p (l.obey o) := by
  refine ⟨h.numbered.obey ho.1, fun known ha hlate => ?_⟩
  obtain ⟨due, hdue, hlater⟩ := h.race known ha hlate
  cases o with
  | emit x => exact ⟨due, hdue, hlater⟩
  | post t => exact ⟨due, hdue, hlater⟩
  | after d t =>
    refine ⟨due, Loop.mem_timers_after.mpr (.inr hdue), fun later result hu => ?_⟩
    rcases Loop.mem_timers_after.mp hu with hu | hu
    · cases hu
      exact absurd rfl (ho.1 p.fetches result)
    · exact hlater later result hu
  | cancel t a =>
    have hne : e (.deadline p.fetches) ≠ t := fun ht => ho.2 p.fetches a (by rw [ht])
    exact ⟨due, Loop.mem_timers_cancel.mpr ⟨hdue, hne⟩,
      fun later result hu => hlater later result (Loop.mem_timers_cancel.mp hu).1⟩

theorem Awaits.obeyAll (h : Awaits e late p l) (ho : ∀ o ∈ orders, Mild e o) :
    Awaits e late p (l.obeyAll orders) := by
  induction orders generalizing l with
  | nil => exact h
  | cons o orders ih => exact ih (h.obey (ho o (by simp))) fun q hq => ho q (by simp [hq])

omit [DecidableEq τ] in
/-- Of the orders of a poller only those of a fetch give a reply. -/
theorem mild_orders (he : ∀ a b, e a = e b → a = b) (g : Mark → ε) {next : Next}
    (hn : ∀ n since timeout, next ≠ .fetch n since timeout) (reply : Option Reply) :
    ∀ o ∈ (next.orders reply).map (Order.map e g), Loop.Gives (Wordless e) o := by
  have hword : ∀ t : Task, (∀ n result, t ≠ .reply n result) → Wordless e (e t) :=
    fun t ht n result hsame => ht n result (he _ _ hsame)
  intro o ho
  obtain ⟨q, hq, rfl⟩ := List.mem_map.mp ho
  cases next with
  | fetch n since timeout => exact absurd rfl (hn n since timeout)
  | settle n =>
    rw [List.mem_singleton.mp hq]
    exact hword _ nofun
  | sleep delay =>
    rw [List.mem_singleton.mp hq]
    exact hword _ nofun
  | rouse =>
    rw [List.mem_singleton.mp hq]
    exact hword _ nofun
  | nothing | finished result | exited fault => cases hq

/-- A fetch that begins: its deadline is due before its reply, if that is late. -/
theorem Numbered.fetches (he : ∀ a b, e a = e b → a = b) (h : Numbered e p.fetches l)
    (g : Mark → ε) {q : Poller} (hq : q.fetches = p.fetches + 1) (since : UInt64) {timeout : Nat}
    {reply : Reply}
    (hlate : late q.fetches = true → ∀ d, reply.delay = some d → timeout < d) :
    Awaits e late q (l.obeyAll
      ((Next.orders (some reply) (.fetch q.fetches since timeout)).map (Order.map e g))) := by
  have hfirst : Numbered e p.fetches (l.after timeout (e (.deadline q.fetches))) := by
    refine Numbered.obey (ε := ε) (o := .after timeout _) h ?_
    intro n result hsame
    exact nomatch he _ _ hsame
  have hdue : ⟨l.now + timeout, e (.deadline q.fetches)⟩ ∈
      (l.after timeout (e (.deadline q.fetches))).timers := Loop.mem_timers_after.mpr (.inl rfl)
  rcases reply with ⟨_ | d, brought⟩
  · refine ⟨⟨hfirst.unready, fun due n result hu => ?_⟩, fun _ _ _ => ⟨_, hdue, ?_⟩⟩
    · have hle := hfirst.begun due n result hu
      omega
    · intro later result hu
      have hle := hfirst.begun later _ result hu
      omega
  · have hnew : ∀ {u}, u ∈ ((l.after timeout (e (.deadline q.fetches))).after d
        (e (.reply q.fetches brought))).timers →
        u = ⟨l.now + d, e (.reply q.fetches brought)⟩ ∨
          u ∈ (l.after timeout (e (.deadline q.fetches))).timers := Loop.mem_timers_after.mp
    refine ⟨⟨hfirst.unready, fun due n result hu => ?_⟩, fun _ _ hl =>
      ⟨_, Loop.mem_timers_after.mpr (.inr hdue), ?_⟩⟩
    · rcases hnew hu with hsame | hu
      · cases he _ _ (congrArg Timer.task hsame)
        exact Nat.le_refl _
      · have hle := hfirst.begun due n result hu
        omega
    · intro later result hu
      rcases hnew hu with hsame | hu
      · have htime : later = l.now + d := congrArg Timer.due hsame
        have hlt := hlate hl d rfl
        omega
      · have hle := hfirst.begun later _ result hu
        omega

/-- What a poller waits for it still waits for behind its reaction to a task. -/
theorem Awaits.react (he : ∀ a b, e a = e b → a = b) (h : Awaits e late p l)
    (ht : l.Takes (e t) l') (time : Int) {reply : Option Reply}
    (hreply : ∀ n since timeout, (p.react time t).next = .fetch n since timeout →
      ∃ r, reply = some r ∧ (late n = true → ∀ d, r.delay = some d → timeout < d)) (g : Mark → ε) :
    Awaits e late (p.react time t).poller (l'.obeyAll
      (((p.react time t).marks.map Order.emit ++ (p.react time t).next.orders reply).map
        (Order.map e g))) := by
  have hattends := react_attends p time t
  generalize p.react time t = r at hattends hreply ⊢
  have hmarks : (r.marks.map (Order.emit (τ := Task))).map (Order.map e g) =
      (r.marks.map g).map Order.emit := by
    simp [Order.map]
  rw [List.map_append, hmarks, Loop.obeyAll_append, Loop.obeyAll_emits]
  cases hattends with
  | begins since hf hn =>
    obtain ⟨reply, rfl, hlate⟩ := hreply _ _ _ hn
    rw [hn, ← hf]
    rw [← hf] at hlate
    exact (h.numbered.takes ht).fetches he g hf since hlate
  | waits hf ha hdeadline hn =>
    have hkept := h.takes ht fun known hk hsame => hdeadline known hk (he _ _ hsame)
    have hsame : Awaits e late r.poller l' :=
      ⟨hf ▸ hkept.numbered, fun known hk => hf ▸ hkept.race known (ha ▸ hk)⟩
    have hno : ∀ n since timeout, r.next ≠ .fetch n since timeout := by
      rcases hn with hn | hn
      · simp [hn]
      · simp [hn]
    apply hsame.obeyAll
    intro o ho
    refine ⟨mild_orders he g hno reply o ho, fun n a hcancel => ?_⟩
    rcases hn with hn | hn
    · rw [hn] at ho
      cases ho
    · rw [hn] at ho
      rw [List.mem_singleton.mp ho] at hcancel
      have hwake : e .wake = e (.deadline n) := (Order.cancel.inj hcancel).1
      cases he _ _ hwake
  | leaves hf ha hn =>
    refine ⟨hf ▸ (h.numbered.takes ht).obeyAll (mild_orders he g hn reply), fun known hk => ?_⟩
    exact absurd hk (ha known)

end

/-! ## Orders without late replies -/

/-- Whether a task counts where the replies to some fetches do not. -/
def Task.isLive (late : Nat → Bool) : Task → Bool
  | .reply n _ => !late n
  | _ => true

theorem splits_orders (late : Nat → Bool) (next : Next) (reply : Option Reply) :
    ∀ o ∈ next.orders reply, Loop.Splits (Option.guard (Task.isLive late)) o := by
  intro o ho
  cases next with
  | fetch n since timeout =>
    rcases reply with _ | ⟨_ | d, result⟩
    · rw [List.mem_singleton.mp ho]
      trivial
    · rw [List.mem_singleton.mp ho]
      trivial
    · rcases List.mem_cons.mp ho with rfl | ho
      · trivial
      · rw [List.mem_singleton.mp ho]
        trivial
  | settle n =>
    rw [List.mem_singleton.mp ho]
    simp [Loop.Splits, Task.isLive]
  | rouse =>
    rw [List.mem_singleton.mp ho]
    simp [Loop.Splits]
  | sleep delay =>
    rw [List.mem_singleton.mp ho]
    trivial
  | nothing | finished result | exited fault => cases ho

/-- A late reply makes no difference to the orders that count. -/
theorem filter_orders {late : Nat → Bool} {n : Nat} (since : UInt64) {timeout : Nat}
    {r r' : Reply} (h : r'.hushed timeout = r.hushed timeout)
    (hlate : late n = (r.hushed timeout).delay.isNone) :
    ((Next.fetch n since timeout).orders (some r')).filter (Order.isLive (Task.isLive late)) =
      ((Next.fetch n since timeout).orders (some r)).filter (Order.isLive (Task.isLive late)) := by
  by_cases hnone : (r.hushed timeout).delay = none
  · have hl : late n = true := by simp [hlate, hnone]
    have honly : ∀ x : Reply, ((Next.fetch n since timeout).orders (some x)).filter
        (Order.isLive (Task.isLive late)) = [.after timeout (.deadline n)] := by
      rintro ⟨_ | d, result⟩
      · rfl
      · have hno : ¬ Order.isLive (Task.isLive late)
            (Order.after (ε := Mark) d (.reply n result)) = true := by
          simp [Order.isLive, Task.isLive, hl]
        rw [Next.orders, List.filter_cons_of_pos rfl, List.filter_cons_of_neg hno]
        rfl
    rw [honly r', honly r]
  · have hsame : r' = r := by
      rw [← Reply.hushed_eq hnone, ← h]
      exact (Reply.hushed_eq (h ▸ hnone)).symm
    rw [hsame]

/-! ## A poller and its script -/

/-- The number of a fetch is late if what the stream holds for it never comes. -/
def lateness (stream : Nat → Reply) (n : Nat) : Bool := (stream (n - 1)).delay.isNone

theorem fetch_of_react {p : Poller} {time : Int} {t : Task} {n timeout : Nat} {since : UInt64}
    (h : (p.react time t).next = .fetch n since timeout) :
    n = p.fetches + 1 ∧ timeout = p.setup.timing.timeout ∧
      (p.react time t).poller.fetches = p.fetches + 1 := by
  cases react_attends p time t with
  | begins since' hf hn =>
    cases hn.symm.trans h
    exact ⟨rfl, rfl, hf⟩
  | waits hf ha ht hn =>
    rcases hn with hn | hn
    · cases hn.symm.trans h
    · cases hn.symm.trans h
  | leaves hf ha hn => exact absurd h (hn n since timeout)

/-- A poller waits for the replies that a stream holds; what its script has left agrees with the
stream apart from late replies. -/
structure Fed {τ : Type} (e : Task → τ) (stream : Nat → Reply) (i : Nat) (p : Poller)
    (scripts : List Script) (l : Loop τ) : Prop where
  awaits : Awaits e (lateness stream) p l
  replies : ∀ k, (Network.replyOf scripts i k).hushed p.setup.timing.timeout =
    stream (p.fetches + k)

/-- The scripts when an instance has asked, or has not. -/
def scriptsBehind (scripts : List Script) (i : Nat) : Option (UInt64 × Nat) → List Script
  | some (since, timeout) => (Network.scripted.ask scripts i since timeout).2
  | none => scripts

def replyFrom (scripts : List Script) (i : Nat) (q : UInt64 × Nat) : Reply :=
  (Network.scripted.ask scripts i q.1 q.2).1

section

variable {τ ε : Type} {e : Task → τ} {stream : Nat → Reply} {i : Nat} {p : Poller}
  {scripts scripts' : List Script} {l l' : Loop τ}

/-- The clock does not matter, nor what else becomes of the poller. -/
theorem Fed.of_same (h : Fed e stream i p scripts l) {q : Poller} (hs : q.setup = p.setup)
    (hf : q.fetches = p.fetches) (ha : q.activity = p.activity) (hr : l'.ready = l.ready)
    (ht : l'.timers = l.timers) : Fed e stream i q scripts l' := by
  constructor
  case awaits =>
    constructor
    case numbered => exact ⟨hr ▸ h.awaits.numbered.unready, ht ▸ hf ▸ h.awaits.numbered.begun⟩
    case race =>
      intro known hk hlate
      rw [ha] at hk
      rw [hf] at hlate
      rw [hf, ht]
      exact h.awaits.race known hk hlate
  case replies =>
    intro k
    rw [hs, hf]
    exact h.replies k

theorem Fed.lateness_eq (h : Fed e stream i p scripts l) (since : UInt64) :
    lateness stream (p.fetches + 1) =
      ((replyFrom scripts i (since, p.setup.timing.timeout)).hushed
        p.setup.timing.timeout).delay.isNone := by
  have hfirst := h.replies 0
  rw [replyFrom, Network.ask_fst, hfirst]
  rfl

/-- Both scripts make a poller give the same orders, apart from late replies. -/
theorem Fed.filter_orders (h : Fed e stream i p scripts l) (h' : Fed e stream i p scripts' l')
    (time : Int) (t : Task) :
    ((p.react time t).next.orders ((p.react time t).next.asked?.map (replyFrom scripts' i))).filter
        (Order.isLive (Task.isLive (lateness stream))) =
      ((p.react time t).next.orders ((p.react time t).next.asked?.map (replyFrom scripts i))).filter
        (Order.isLive (Task.isLive (lateness stream))) := by
  cases hn : (p.react time t).next with
  | fetch n since timeout =>
    obtain ⟨rfl, rfl, _⟩ := fetch_of_react hn
    refine Poller.filter_orders since ?_ (h.lateness_eq since)
    rw [replyFrom, replyFrom, Network.ask_fst, Network.ask_fst, h.replies 0, h'.replies 0]
  | _ => rfl

theorem Fed.react [DecidableEq τ] (he : ∀ a b, e a = e b → a = b) (h : Fed e stream i p scripts l)
    {t : Task} (ht : l.Takes (e t) l') (time : Int) (g : Mark → ε) :
    Fed e stream i (p.react time t).poller
      (scriptsBehind scripts i (p.react time t).next.asked?)
      (l'.obeyAll (((p.react time t).marks.map Order.emit ++ (p.react time t).next.orders
        ((p.react time t).next.asked?.map (replyFrom scripts i))).map (Order.map e g))) := by
  constructor
  case awaits =>
    apply h.awaits.react he ht
    intro n since timeout hn
    obtain ⟨rfl, rfl, _⟩ := fetch_of_react hn
    refine ⟨replyFrom scripts i (since, p.setup.timing.timeout), by rw [hn]; rfl, ?_⟩
    intro hlate d hd
    rw [h.lateness_eq since] at hlate
    exact Reply.lt_of_hushed (Option.isNone_iff_eq_none.mp hlate) hd
  case replies =>
    intro k
    have hsetup : (p.react time t).poller.setup = p.setup := (react_reacts p time t).same.1
    rw [hsetup]
    cases react_attends p time t with
    | begins since hf hn =>
      rw [hn, hf]
      show (Network.replyOf (Network.scripted.ask scripts i _ _).2 i k).hushed _ = _
      rw [Network.replyOf_ask_self, h.replies (k + 1)]
      congr 1
      omega
    | waits hf ha hd hn =>
      have hnone : (p.react time t).next.asked? = none := by
        rcases hn with hn | hn
        · rw [hn]
          rfl
        · rw [hn]
          rfl
      rw [hnone, hf]
      exact h.replies k
    | leaves hf ha hn =>
      have hnone : (p.react time t).next.asked? = none := by
        cases hnext : (p.react time t).next with
        | fetch n since timeout => exact absurd hnext (hn n since timeout)
        | _ => rfl
      rw [hnone, hf]
      exact h.replies k

end

end Poller

end TargetDiscovery
