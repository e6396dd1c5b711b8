import Mathlib.Algebra.Ring.Nat
import TargetDiscovery.Json.Plain
import TargetDiscovery.Proofs.Loop
import TargetDiscovery.Registry.Exchange

/-!
# One deadline for an exchange

The stages of an exchange share one deadline. The first one that fails before it, or is still under
way when it comes, decides the outcome, and no stage is begun behind it; only an exchange whose
stages all end in time has the answer of the registry. A stage that is due in the millisecond of the
deadline is cut off by it; the bound at the end is about exchanges that have none.
-/

set_option autoImplicit false

namespace TargetDiscovery

/-! ## Stages -/

namespace Stage

def all : List Stage := [resolve, connect, write, read]

def earlier : Stage → List Stage
  | resolve => []
  | connect => [resolve]
  | write => [resolve, connect]
  | read => [resolve, connect, write]

/-- The number of stages behind a stage. -/
def left : Stage → Nat
  | resolve => 3
  | connect => 2
  | write => 1
  | read => 0

/-- The stages that have been begun while this one is under way. -/
def begun (s : Stage) : List Stage := s.earlier ++ [s]

theorem earlier_next? {s next : Stage} (h : s.next? = some next) : next.earlier = s.begun := by
  cases s with
  | read => cases h
  | _ =>
    cases h
    rfl

theorem left_next? {s next : Stage} (h : s.next? = some next) : s.left = next.left + 1 := by
  cases s with
  | read => cases h
  | _ =>
    cases h
    rfl

theorem begun_of_last {s : Stage} (h : s.next? = none) : s.begun = all := by
  cases s with
  | read => rfl
  | _ => cases h

end Stage

/-! ## What comes of an exchange -/

/-- The certificate that comes with some headers: the value of the first one that has the name, in
whatever case, and none if there is no such header or its value is empty. -/
inductive Carries (headers : List (Bytes × Bytes)) : Option Bytes → Prop
  | missing (h : ∀ f ∈ headers, f.1.map Bytes.toLower ≠ ascii "x-registry-certificate") :
      Carries headers none
  | first {front back : List (Bytes × Bytes)} {name value : Bytes}
      (h : headers = front ++ (name, value) :: back)
      (hname : name.map Bytes.toLower = ascii "x-registry-certificate")
      (hfront : ∀ f ∈ front, f.1.map Bytes.toLower ≠ ascii "x-registry-certificate") :
      Carries headers (if value = [] then none else some value)

namespace Exchange

/-- The time that stages take one after the other, if each of them ends. -/
def span (x : Exchange) (stages : List Stage) : Option Nat :=
  (stages.mapM fun s => (x.course s).delay).map List.sum

/-- No stage that is come to ends in the millisecond of the deadline. -/
def Clear (x : Exchange) (timeout : Nat) : Prop :=
  ∀ s : Stage, (∀ e ∈ s.earlier, (x.course e).error = none) → x.span s.begun ≠ some timeout

def transportError (s : Stage) (text : Bytes) : FetchError :=
  ⟨.transport, s.name ++ ascii ": " ++ text⟩

def timeoutError (s : Stage) : FetchError := ⟨.timeout, s.name ++ ascii ": deadline exceeded"⟩

def statusError (status : Nat) : FetchError :=
  ⟨.status, ascii "registry answered HTTP " ++ Bytes.decimal status⟩

section

variable [Json.Reader]

/-- What an exchange brings whose stages have all ended well. -/
inductive Answers (x : Exchange) : FetchResult → Prop
  | refused (h : x.status ≠ 200) : Answers x (.ok (.error (statusError x.status)))
  | decoded {certificate : Option Bytes} (h : x.status = 200)
      (hc : Carries x.headers certificate) : Answers x (.ofResponse x.body certificate)

/-- How an exchange ends: the stages that were begun, the time since its start, and the outcome. -/
inductive Ends (x : Exchange) (timeout : Nat) : List Stage → Nat → FetchResult → Prop
  | fails {s : Stage} {t : Nat} {text : Bytes} (hok : ∀ e ∈ s.earlier, (x.course e).error = none)
      (hspan : x.span s.begun = some t) (hlt : t < timeout)
      (herror : (x.course s).error = some text) :
      Ends x timeout s.begun t (.ok (.error (transportError s text)))
  | expires {s : Stage} {t : Nat} (hok : ∀ e ∈ s.earlier, (x.course e).error = none)
      (hspan : x.span s.earlier = some t) (hle : t ≤ timeout)
      (hpending : ∀ u, x.span s.begun = some u → timeout < u) :
      Ends x timeout s.begun timeout (.ok (.error (timeoutError s)))
  | answers {t : Nat} {outcome : FetchResult} (hok : ∀ s, (x.course s).error = none)
      (hspan : x.span Stage.all = some t) (hlt : t < timeout) (hanswer : x.Answers outcome) :
      Ends x timeout Stage.all t outcome

/-- How any exchange ends. The deadline is set before the first stage is begun, so it comes first
where a stage is due in the same millisecond. -/
inductive Closes (x : Exchange) (timeout : Nat) : List Stage → Nat → FetchResult → Prop
  | ends {begun : List Stage} {elapsed : Nat} {outcome : FetchResult}
      (h : Ends x timeout begun elapsed outcome) : Closes x timeout begun elapsed outcome
  | ties {s : Stage} (hok : ∀ e ∈ s.earlier, (x.course e).error = none)
      (hspan : x.span s.begun = some timeout) :
      Closes x timeout s.begun timeout (.ok (.error (timeoutError s)))

/-- What one deadline makes of an exchange. -/
structure Bounded (x : Exchange) (timeout : Nat) (begun : List Stage) (elapsed : Nat)
    (outcome : FetchResult) : Prop where
  ends : Ends x timeout begun elapsed outcome
  punctual : elapsed ≤ timeout
  inTime : ∀ t, x.span Stage.all = some t → t < timeout →
    ∀ text, outcome ≠ .ok (.error ⟨.timeout, text⟩)
  overTime : (∀ t, x.span Stage.all = some t → timeout < t) →
    ∃ s ∈ begun, outcome = .ok (.error (timeoutError s)) ∨
      ∃ text, (x.course s).error = some text ∧ outcome = .ok (.error (transportError s text))

end

/-! ## Sums of times -/

theorem span_append (x : Exchange) (stages : List Stage) (s : Stage) :
    x.span (stages ++ [s]) =
      (x.span stages).bind fun t => (x.course s).delay.map fun d => t + d := by
  rw [span, span, List.mapM_append]
  cases stages.mapM fun s => (x.course s).delay with
  | none => rfl
  | some times =>
    cases hd : (x.course s).delay with
    | none => simp [hd]
    | some d => simp [hd]

theorem span_begun {x : Exchange} {s : Stage} {t : Nat} (h : x.span s.earlier = some t) :
    x.span s.begun = (x.course s).delay.map fun d => t + d := by
  rw [Stage.begun, span_append, h, Option.bind_some]

theorem span_le_append {x : Exchange} {stages : List Stage} {s : Stage} {t : Nat}
    (h : x.span (stages ++ [s]) = some t) : ∃ u, x.span stages = some u ∧ u ≤ t := by
  rw [span_append, Option.bind_eq_some_iff] at h
  obtain ⟨u, hu, h⟩ := h
  obtain ⟨d, _, rfl⟩ := Option.map_eq_some_iff.mp h
  exact ⟨u, hu, Nat.le_add_right u d⟩

/-- A part of the stages takes no longer than all of them. -/
theorem span_le {x : Exchange} {t : Nat} (h : x.span Stage.all = some t) (s : Stage) :
    ∃ u, x.span s.begun = some u ∧ u ≤ t := by
  have hread : x.span (Stage.begun .write ++ [.read]) = some t := h
  obtain ⟨w, hw, hwt⟩ := span_le_append hread
  have hwrite : x.span (Stage.begun .connect ++ [.write]) = some w := hw
  obtain ⟨c, hc, hcw⟩ := span_le_append hwrite
  have hconnect : x.span (Stage.begun .resolve ++ [.connect]) = some c := hc
  obtain ⟨r, hr, hrc⟩ := span_le_append hconnect
  cases s with
  | resolve => exact ⟨r, hr, by omega⟩
  | connect => exact ⟨c, hc, by omega⟩
  | write => exact ⟨w, hw, hwt⟩
  | read => exact ⟨t, h, Nat.le_refl t⟩

/-! ## Answers -/

theorem lower_certificateHeader :
    certificateHeader.map Bytes.toLower = ascii "x-registry-certificate" := by decide

theorem carries_header? (headers : List (Bytes × Bytes)) :
    Carries headers (Http.header? certificateHeader headers) := by
  rw [Http.header?, lower_certificateHeader]
  cases hfind : headers.find? fun h => h.1.map Bytes.toLower == ascii "x-registry-certificate" with
  | none =>
    refine .missing fun f hf => ?_
    simpa using List.find?_eq_none.mp hfind f hf
  | some found =>
    obtain ⟨hname, front, back, hheaders, hfront⟩ := List.find?_eq_some_iff_append.mp hfind
    have hcarries := Carries.first hheaders (by simpa using hname) fun f hf => by
      simpa using hfront f hf
    simpa only [List.isEmpty_iff] using hcarries

theorem answers_conclusion [Json.Reader] (x : Exchange) : x.Answers x.conclusion := by
  rw [conclusion]
  split
  · rename_i h
    exact .refused h
  · rename_i h
    exact .decoded (Decidable.not_not.mp h) (carries_header? _)

theorem Answers.not_timeout [Json.Reader] {x : Exchange} {outcome : FetchResult}
    (h : x.Answers outcome) (text : Bytes) : outcome ≠ .ok (.error ⟨.timeout, text⟩) := by
  cases h with
  | refused => nofun
  | @decoded certificate =>
    intro heq
    rw [FetchResult.ofResponse] at heq
    rcases hread : RegistryState.ofResponse x.body certificate with f | e | state
    · rw [hread] at heq
      cases heq
    · rw [hread] at heq
      cases heq
    · rw [hread] at heq
      cases heq

/-! ## The run -/

/-- A stage is under way that was begun at a time. -/
structure Underway (x : Exchange) (timeout : Nat) (s : Stage) (t : Nat)
    (r : Run Progress Task Unit) : Prop where
  state : r.state = ⟨s, s.begun, false, none⟩
  loop : r.loop = (Loop.mk t [] [⟨timeout, .deadline⟩]).obeyAll (beginStage x r.state s).2

/-- An exchange that has come to its end, in one of the ways of `R`. -/
def Over (R : List Stage → Nat → FetchResult → Prop) (r : Run Progress Task Unit) : Prop :=
  ∃ outcome, r.state.outcome = some outcome ∧ R r.state.begun r.loop.now outcome

variable {x : Exchange} {timeout t : Nat} {s : Stage} {r : Run Progress Task Unit}

theorem underway_begin (x : Exchange) (timeout : Nat) :
    Underway x timeout .resolve 0 (begin x timeout) := by
  have hstate : (begin x timeout).state = ⟨.resolve, Stage.begun .resolve, false, none⟩ := by
    rw [begin, Run.state_command]
    rfl
  refine ⟨hstate, ?_⟩
  have hloop : ((Run.start (⟨.resolve, [], false, none⟩ : Progress)).obey
      (.after timeout Task.deadline : Order Task Unit)).loop =
        Loop.mk 0 [] [⟨timeout, .deadline⟩] := by
    simp [Run.obey, Run.start, Loop.start, Loop.after, Loop.insertTimer]
  rw [begin, Run.loop_command, hloop]
  rfl

/-- A conclusion ends the exchange, at the time of the loop. -/
theorem over_conclude {R : List Stage → Nat → FetchResult → Prop} (p : Progress)
    (outcome : FetchResult) (hstate : r.state = (conclude p outcome).1)
    (h : R p.begun r.loop.now outcome) : Over R r := by
  rw [Over, hstate]
  exact ⟨outcome, rfl, h⟩

theorem Underway.isOpen (h : Underway x timeout s t r) : isOpen r.state = true := by
  rw [h.state]
  rfl

section

variable [Json.Reader]

/-- The exchange comes to its end in a number of steps. -/
def Comes (R : List Stage → Nat → FetchResult → Prop) (x : Exchange) (fuel : Nat)
    (r : Run Progress Task Unit) : Prop :=
  Over R (r.continueWhile (machine x) none isOpen fuel)

theorem Over.comes {R : List Stage → Nat → FetchResult → Prop} (h : Over R r) (x : Exchange)
    (fuel : Nat) : Comes R x fuel r := by
  have hclosed : isOpen r.state = false := by
    obtain ⟨outcome, houtcome, _⟩ := h
    rw [isOpen, houtcome]
    rfl
  rw [Comes, Run.continueWhile_done hclosed]
  exact h

/-- A stage that the deadline cuts off has not ended by then, or is due together with it. -/
theorem closes_of_pending (hok : ∀ e ∈ s.earlier, (x.course e).error = none)
    (hspan : x.span s.earlier = some t) (hle : t ≤ timeout)
    (hpending : ∀ d, (x.course s).delay = some d → timeout ≤ t + d) :
    Closes x timeout s.begun timeout (.ok (.error (timeoutError s))) := by
  by_cases htie : x.span s.begun = some timeout
  · exact .ties hok htie
  · refine .ends (.expires hok hspan hle fun u hu => ?_)
    have hne : u ≠ timeout := fun heq => htie (heq ▸ hu)
    rw [span_begun hspan, Option.map_eq_some_iff] at hu
    obtain ⟨d, hd, rfl⟩ := hu
    have hdue := hpending d hd
    omega

theorem Closes.of_clear (hclear : x.Clear timeout) {begun : List Stage} {elapsed : Nat}
    {outcome : FetchResult} (h : Closes x timeout begun elapsed outcome) :
    Ends x timeout begun elapsed outcome := by
  cases h with
  | ends hends => exact hends
  | ties hok hspan => exact absurd hspan (hclear _ hok)

namespace Underway

/-- The stage ends before the deadline. -/
theorem step_ended (h : Underway x timeout s t r) {d : Nat} (hd : (x.course s).delay = some d)
    (hlt : t + d < timeout) :
    ∃ r', r.step? (machine x) = some r' ∧
      r'.state = (handle x ⟨s, s.begun, false, none⟩ .ended).1 ∧
      r'.loop = (Loop.mk (t + d) [] [⟨timeout, .deadline⟩]).obeyAll
        (handle x ⟨s, s.begun, false, none⟩ .ended).2 := by
  have hloop : r.loop = ⟨t, [], [⟨t + d, .ended⟩, ⟨timeout, .deadline⟩]⟩ := by
    have horders : (beginStage x r.state s).2 = [.after d .ended] := by rw [beginStage, hd]
    have hlate : ¬ timeout ≤ t + d := Nat.not_le.mpr hlt
    rw [h.loop, horders]
    simp [Loop.obeyAll, Loop.obey, Loop.after, Loop.insertTimer, hlate]
  have hstep := Run.step?_timer (m := machine x) (by rw [hloop]) (by rw [hloop])
  refine ⟨_, hstep, ?_, ?_⟩
  · rw [Run.state_command, ← h.state]
    rfl
  · rw [Run.loop_command, ← h.state, hloop, Nat.max_eq_right (Nat.le_add_right t d)]
    rfl

/-- The deadline comes while the stage is under way: the stage is cancelled. -/
theorem step_deadline (h : Underway x timeout s t r) (hle : t ≤ timeout)
    (hpending : ∀ d, (x.course s).delay = some d → timeout ≤ t + d) :
    ∃ r', r.step? (machine x) = some r' ∧ r'.state = ⟨s, s.begun, true, none⟩ ∧
      r'.loop = ⟨timeout, [.cancelled], []⟩ := by
  have hnow : max t timeout = timeout := Nat.max_eq_right hle
  cases hd : (x.course s).delay with
  | none =>
    have hloop : r.loop = ⟨t, [], [⟨timeout, .deadline⟩]⟩ := by
      have horders : (beginStage x r.state s).2 = [] := by rw [beginStage, hd]
      rw [h.loop, horders, Loop.obeyAll_nil]
    have hstep := Run.step?_timer (m := machine x) (by rw [hloop]) (by rw [hloop])
    refine ⟨_, hstep, ?_, ?_⟩
    · rw [Run.state_command, Run.onLoop, h.state]
      rfl
    · rw [Run.loop_command, Run.onLoop, h.state, hloop, hnow]
      simp [machine, handle, hd, Loop.obeyAll, Loop.obey, Loop.cancel, Loop.post]
  | some d =>
    have hdue := hpending d hd
    have hloop : r.loop = ⟨t, [], [⟨timeout, .deadline⟩, ⟨t + d, .ended⟩]⟩ := by
      have horders : (beginStage x r.state s).2 = [.after d .ended] := by rw [beginStage, hd]
      rw [h.loop, horders]
      simp [Loop.obeyAll, Loop.obey, Loop.after, Loop.insertTimer, hdue]
    have hstep := Run.step?_timer (m := machine x) (by rw [hloop]) (by rw [hloop])
    refine ⟨_, hstep, ?_, ?_⟩
    · rw [Run.state_command, Run.onLoop, h.state]
      rfl
    · rw [Run.loop_command, Run.onLoop, h.state, hloop, hnow]
      simp [machine, handle, hd, Loop.obeyAll, Loop.obey, Loop.cancel]

theorem comes_of_pending (h : Underway x timeout s t r)
    (hok : ∀ e ∈ s.earlier, (x.course e).error = none) (hspan : x.span s.earlier = some t)
    (hle : t ≤ timeout) (hpending : ∀ d, (x.course s).delay = some d → timeout ≤ t + d)
    (fuel : Nat) : Comes (Closes x timeout) x (fuel + 2) r := by
  obtain ⟨r', hstep, hstate, hloop⟩ := h.step_deadline hle hpending
  have hopen : Exchange.isOpen r'.state = true := by
    rw [hstate]
    rfl
  have hlast := Run.step?_ready (m := machine x) (r := r') (by rw [hloop])
  rw [Comes, Run.continueWhile_step h.isOpen hstep, Run.continueWhile_step hopen hlast]
  refine (over_conclude r'.state (.ok (.error (timeoutError s))) ?_ ?_).comes x fuel
  · rw [Run.state_command, Run.onLoop, hstate]
    rfl
  · rw [Run.loop_command, Loop.obeyAll_now, Run.onLoop, hstate, hloop]
    exact closes_of_pending hok hspan hle hpending

/-- What comes of a stage that ends in time, if what comes of the next one is known. -/
theorem comes_of_ended (h : Underway x timeout s t r)
    (hok : ∀ e ∈ s.earlier, (x.course e).error = none) (hspan : x.span s.earlier = some t) {d : Nat}
    (hd : (x.course s).delay = some d) (hlt : t + d < timeout) (fuel : Nat)
    (hnext : ∀ next r', s.next? = some next → Underway x timeout next (t + d) r' →
      (x.course s).error = none → Comes (Closes x timeout) x fuel r') :
    Comes (Closes x timeout) x (fuel + 1) r := by
  obtain ⟨r', hstep, hstate, hloop⟩ := h.step_ended hd hlt
  have hbegun : x.span s.begun = some (t + d) := by rw [span_begun hspan, hd, Option.map_some]
  have hnow : r'.loop.now = t + d := by rw [hloop, Loop.obeyAll_now]
  rw [Comes, Run.continueWhile_step h.isOpen hstep]
  cases herror : (x.course s).error with
  | some text =>
    refine (over_conclude ⟨s, s.begun, false, none⟩ (.ok (.error (transportError s text))) ?_
      ?_).comes x fuel
    · rw [hstate]
      simp [handle, herror, stageError, transportError]
    · rw [hnow]
      exact .ends (.fails hok hbegun hlt herror)
  | none =>
    cases hs : s.next? with
    | some next =>
      refine hnext next r' hs ⟨?_, ?_⟩ herror
      · rw [hstate]
        simp [handle, herror, hs, beginStage, Stage.begun, Stage.earlier_next? hs]
      · rw [hloop, hstate]
        simp [handle, herror, hs, beginStage]
    | none =>
      refine (over_conclude ⟨s, s.begun, false, none⟩ x.conclusion ?_ ?_).comes x fuel
      · rw [hstate]
        simp [handle, herror, hs]
      · have hall := Stage.begun_of_last hs
        have hgood : ∀ e, (x.course e).error = none := by
          intro e
          have he : e ∈ s.begun := by
            rw [hall]
            cases e <;> decide
          rcases List.mem_append.mp he with he | he
          · exact hok e he
          · rw [List.mem_singleton.mp he]
            exact herror
        rw [hall] at hbegun
        rw [hnow, hall]
        exact .ends (.answers hgood hbegun hlt (answers_conclusion x))

/-- Every stage under way comes to an end, in a step for each stage that is left and two more. -/
theorem closes {s : Stage} {t : Nat} {r : Run Progress Task Unit}
    (h : Underway x timeout s t r) (hok : ∀ e ∈ s.earlier, (x.course e).error = none)
    (hspan : x.span s.earlier = some t) (hle : t ≤ timeout) (fuel : Nat) :
    Comes (Closes x timeout) x (fuel + s.left + 2) r := by
  by_cases hends : ∃ d, (x.course s).delay = some d ∧ t + d < timeout
  · obtain ⟨d, hd, hlt⟩ := hends
    have hbegun : x.span s.begun = some (t + d) := by rw [span_begun hspan, hd, Option.map_some]
    refine h.comes_of_ended hok hspan hd hlt (fuel + s.left + 1) fun next r' hs hr' herror => ?_
    have hearlier := Stage.earlier_next? hs
    have hleft := Stage.left_next? hs
    have hfuel : fuel + s.left + 1 = fuel + next.left + 2 := by omega
    rw [hfuel]
    refine closes hr' ?_ ?_ (Nat.le_of_lt hlt) fuel
    · intro e he
      rw [hearlier] at he
      rcases List.mem_append.mp he with he | he
      · exact hok e he
      · rw [List.mem_singleton.mp he]
        exact herror
    · rw [hearlier]
      exact hbegun
  · refine h.comes_of_pending hok hspan hle (fun d hd => ?_) (fuel + s.left)
    exact Nat.not_lt.mp fun hin => hends ⟨d, hd, hin⟩
termination_by s.left
decreasing_by omega

theorem comes (hclear : x.Clear timeout) (h : Underway x timeout s t r)
    (hok : ∀ e ∈ s.earlier, (x.course e).error = none) (hspan : x.span s.earlier = some t)
    (hle : t ≤ timeout) (fuel : Nat) : Comes (Ends x timeout) x (fuel + s.left + 2) r := by
  obtain ⟨outcome, houtcome, hcloses⟩ := h.closes hok hspan hle fuel
  exact ⟨outcome, houtcome, hcloses.of_clear hclear⟩

end Underway

/-! ## Outcomes -/

theorem Ends.bounded {begun : List Stage} {elapsed : Nat} {outcome : FetchResult}
    (h : Ends x timeout begun elapsed outcome) : Bounded x timeout begun elapsed outcome := by
  constructor
  case ends => exact h
  case punctual =>
    cases h with
    | fails _ _ hlt => exact Nat.le_of_lt hlt
    | expires => exact Nat.le_refl _
    | answers _ _ hlt => exact Nat.le_of_lt hlt
  case inTime =>
    intro t ht hlt text
    cases h with
    | fails => nofun
    | @expires s _ _ _ _ hpending =>
      obtain ⟨u, hu, hle⟩ := span_le ht s
      have := hpending u hu
      omega
    | answers _ _ _ hanswer => exact hanswer.not_timeout text
  case overTime =>
    intro hlong
    cases h with
    | @fails s _ text _ _ _ herror =>
      exact ⟨s, List.mem_append_right _ List.mem_cons_self, .inr ⟨text, herror, rfl⟩⟩
    | @expires s => exact ⟨s, List.mem_append_right _ List.mem_cons_self, .inl rfl⟩
    | answers _ hspan hlt =>
      have := hlong _ hspan
      omega

/-- One deadline bounds the whole exchange: what ends first decides, the deadline or a stage that
fails, and neither leaves anything to a later stage. -/
theorem bounded_of_clear {x : Exchange} {timeout : Nat} (h : x.Clear timeout) :
    ∃ elapsed, (x.reply timeout).delay = some elapsed ∧
      Bounded x timeout (finish x timeout).state.begun elapsed (x.reply timeout).result := by
  have hcomes := (underway_begin x timeout).comes h nofun rfl (Nat.zero_le _) 3
  obtain ⟨outcome, houtcome, hends⟩ := hcomes
  refine ⟨_, rfl, ?_⟩
  have hresult : (x.reply timeout).result = outcome := by
    have hfinish : (finish x timeout).state.outcome = some outcome := houtcome
    simp only [reply, outcomeOf, hfinish]
  rw [hresult]
  exact hends.bounded

end

/-- A registry that takes the request and does not answer it. -/
def stalling : Exchange :=
  { resolve := { delay := some 100 }
    connect := { delay := some 300 }
    read := { delay := none } }

theorem bounded_stalling : stalling.Clear 1000 ∧
    ∃ elapsed, (stalling.reply 1000).delay = some elapsed ∧
      Bounded stalling 1000 (finish stalling 1000).state.begun elapsed
        (stalling.reply 1000).result := by
  have hclear : stalling.Clear 1000 := by
    intro s _
    cases s <;> decide
  exact ⟨hclear, bounded_of_clear hclear⟩

end Exchange

end TargetDiscovery
