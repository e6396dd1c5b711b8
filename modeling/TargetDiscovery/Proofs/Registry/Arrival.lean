import TargetDiscovery.Proofs.Registry.Deadline

/-!
# What arrives of an exchange

A fetch brings a state exactly when its stages end well before the deadline, the registry answers
with status 200, and the body can be read. This holds of every exchange: one that is due in the
millisecond of the deadline brings nothing.
-/

set_option autoImplicit false

namespace TargetDiscovery

theorem Carries.eq_header? {headers : List (Bytes × Bytes)} {certificate : Option Bytes}
    (h : Carries headers certificate) :
    certificate = Http.header? Exchange.certificateHeader headers := by
  rw [Http.header?, Exchange.lower_certificateHeader]
  cases h with
  | missing h =>
    have hfind : (headers.find? fun f =>
        f.1.map Bytes.toLower == ascii "x-registry-certificate") = none := by
      rw [List.find?_eq_none]
      intro f hf
      simpa using h f hf
    rw [hfind]
  | @first front back name value h hname hfront =>
    have hfind : (headers.find? fun f =>
        f.1.map Bytes.toLower == ascii "x-registry-certificate") = some (name, value) := by
      rw [List.find?_eq_some_iff_append]
      refine ⟨by simpa using hname, front, back, h, ?_⟩
      intro f hf
      simpa using hfront f hf
    rw [hfind]
    simp only [List.isEmpty_iff]

namespace Exchange

variable [Json.Reader]

/-- The stages end well and in time, and the answer of the registry is read as `outcome`. -/
structure Brings (x : Exchange) (timeout : Nat) (outcome : FetchResult) : Prop where
  ok : ∀ s, (x.course s).error = none
  inTime : ∃ t, x.span Stage.all = some t ∧ t < timeout
  status : x.status = 200
  decoded : ∃ certificate, Carries x.headers certificate ∧
    FetchResult.ofResponse x.body certificate = outcome

/-- The fetch ends within its time, and with a state. -/
def Completes (x : Exchange) (timeout : Nat) (state : RegistryState) : Prop :=
  ∃ t, x.reply timeout = ⟨some t, .ok (.ok state)⟩ ∧ t ≤ timeout

variable {x : Exchange} {timeout : Nat}

/-- Whatever an exchange is like, its reply is one of the ways in which it ends. -/
theorem closes_reply (x : Exchange) (timeout : Nat) :
    ∃ elapsed, x.reply timeout = ⟨some elapsed, (x.reply timeout).result⟩ ∧
      Closes x timeout (finish x timeout).state.begun elapsed (x.reply timeout).result := by
  obtain ⟨outcome, houtcome, hcloses⟩ :=
    (underway_begin x timeout).closes nofun rfl (Nat.zero_le _) 3
  have hfinish : (finish x timeout).state.outcome = some outcome := houtcome
  have hresult : (x.reply timeout).result = outcome := by
    simp only [reply, outcomeOf, hfinish]
  rw [hresult]
  exact ⟨_, by rw [← hresult]; rfl, hcloses⟩

theorem Closes.brings {begun : List Stage} {elapsed : Nat} {outcome : FetchResult}
    (h : Closes x timeout begun elapsed outcome) (hne : ∀ e, outcome ≠ .ok (.error e)) :
    x.Brings timeout outcome := by
  cases h with
  | ties => exact absurd rfl (hne _)
  | ends h =>
    cases h with
    | fails => exact absurd rfl (hne _)
    | expires => exact absurd rfl (hne _)
    | answers hok hspan hlt hanswer =>
      cases hanswer with
      | refused => exact absurd rfl (hne _)
      | decoded hstatus hcarries => exact ⟨hok, ⟨_, hspan, hlt⟩, hstatus, _, hcarries, rfl⟩

theorem Brings.eq_of_closes {begun : List Stage} {elapsed : Nat} {outcome result : FetchResult}
    (h : x.Brings timeout outcome) (hcloses : Closes x timeout begun elapsed result) :
    elapsed < timeout ∧ result = outcome := by
  obtain ⟨t, hspan, hlt⟩ := h.inTime
  -- No stage is left at the deadline, so it is neither late nor due together with one.
  have hearly : ∀ (s : Stage) (u : Nat), x.span s.begun = some u → u < timeout := by
    intro s u hu
    obtain ⟨v, hv, hle⟩ := span_le hspan s
    cases hu.symm.trans hv
    omega
  cases hcloses with
  | @ties s hok hs => exact absurd (hearly s _ hs) (Nat.lt_irrefl _)
  | ends hends =>
    cases hends with
    | @fails s _ _ _ _ _ herror =>
      rw [h.ok s] at herror
      cases herror
    | @expires s _ _ _ _ hpending =>
      obtain ⟨u, hu, -⟩ := span_le hspan s
      exact absurd (hpending u hu) (Nat.not_lt.mpr (Nat.le_of_lt (hearly s u hu)))
    | answers _ hall hin hanswer =>
      refine ⟨hin, ?_⟩
      cases hanswer with
      | refused hstatus => exact absurd h.status hstatus
      | decoded _ hcarries =>
        obtain ⟨certificate, hcertificate, rfl⟩ := h.decoded
        rw [hcarries.eq_header?, hcertificate.eq_header?]

theorem Brings.reply {outcome : FetchResult} (h : x.Brings timeout outcome) :
    ∃ t, x.reply timeout = ⟨some t, outcome⟩ ∧ t < timeout := by
  obtain ⟨elapsed, hreply, hcloses⟩ := closes_reply x timeout
  obtain ⟨hlt, hresult⟩ := h.eq_of_closes hcloses
  exact ⟨elapsed, hresult ▸ hreply, hlt⟩

theorem brings_result (hne : ∀ e, (x.reply timeout).result ≠ .ok (.error e)) :
    x.Brings timeout (x.reply timeout).result := by
  obtain ⟨_, -, hcloses⟩ := closes_reply x timeout
  exact hcloses.brings hne

/-- A fetch completes with a state exactly when this state is brought: a tie with the deadline does
not matter, as nothing is brought then. -/
theorem completes_iff {state : RegistryState} :
    x.Completes timeout state ↔ x.Brings timeout (.ok (.ok state)) := by
  constructor
  · rintro ⟨t, hreply, -⟩
    have hresult : (x.reply timeout).result = .ok (.ok state) := by rw [hreply]
    rw [← hresult]
    apply brings_result
    rw [hresult]
    exact nofun
  · intro h
    obtain ⟨t, hreply, hlt⟩ := h.reply
    exact ⟨t, hreply, Nat.le_of_lt hlt⟩

end Exchange

end TargetDiscovery
