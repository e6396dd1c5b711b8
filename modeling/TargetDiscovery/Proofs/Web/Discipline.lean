import TargetDiscovery.Proofs.Web.Hosting

/-!
# The discipline of a session

A session answers the requests of its client in their order and each of them once. It ends with the
first request that does not ask for more, that is handled behind a stop or whose response cannot be
written, or before the first that cannot be read. No moment of a stop changes this: it is looked at
when a request is handled, so at most one is handled behind it.
-/

set_option autoImplicit false

namespace TargetDiscovery.Web

namespace Session

/-- A request that is handled: what there is to answer it from, and whether a stop came before. -/
structure Handling where
  catalog : Catalog
  ledger : Ledger
  stopping : Bool

def Note.isStop : Note → Bool
  | stops => true
  | _ => false

def isStopped (h : List (Stamped Note)) : Bool := h.any fun n => n.entry.isStop

/-- The requests handled in a history that has its latest note first, the earliest first. -/
def handlings : List (Stamped Note) → List Handling
  | [] => []
  | ⟨_, .handles catalog ledger .arrived⟩ :: h => handlings h ++ [⟨catalog, ledger, isStopped h⟩]
  | _ :: h => handlings h

/-- The times at which a request began to be read, the earliest first. -/
def readings : List (Stamped Note) → List Nat
  | [] => []
  | ⟨time, .reads⟩ :: h => readings h ++ [time]
  | _ :: h => readings h

/-- How many tasks were handled. -/
def turns : List (Stamped Note) → Nat
  | [] => 0
  | ⟨_, .handles _ _ _⟩ :: h => turns h + 1
  | _ :: h => turns h

/-- The responses handed over for writing, the earliest first. -/
def responses : List (Stamped Entry) → List Response
  | [] => []
  | ⟨_, .response r _⟩ :: journal => responses journal ++ [r]
  | _ :: journal => responses journal

/-- The response is what the router answers to the request of a call. -/
structure Answers (c : Call) (x : Handling) (r : Response) : Prop where
  status : r.status = (Answer.answer x.catalog x.ledger c.request.method c.request.target).status
  body : r.body = (Answer.answer x.catalog x.ledger c.request.method c.request.target).body
  contentType : r.fields.get? (ascii "Content-Type") = some Answer.contentType
  version : r.version = c.request.version
  keepAlive : r.keepAlive = true ↔ c.keepAlive = true ∧ x.stopping = false

/-- The request of a call is not read if reading begins at a time: that fails, or takes too long. -/
def Unread (begun : Nat) (c : Call) : Prop := c.readError ≠ none ∨ begun + 30000 ≤ c.due

/-- What a session did: the times at which a request began to be read, the requests handled, and
the responses handed over for writing. -/
structure Transcript where
  begun : List Nat
  handled : List Handling
  responses : List Response

namespace Transcript

/-- There is a reason for a session to end when this many requests are answered. -/
inductive Ends (calls : List Call) (a : Transcript) : Nat → Prop
  | unkept {k : Nat} {c : Call} (hc : calls[k]? = some c) (h : c.keepAlive = false) :
      Ends calls a (k + 1)
  | stopped {k : Nat} {x : Handling} (hx : a.handled[k]? = some x) (h : x.stopping = true) :
      Ends calls a (k + 1)
  | unwritten {k : Nat} {c : Call} (hc : calls[k]? = some c) (h : c.writeError ≠ none) :
      Ends calls a (k + 1)
  | unread {k t : Nat} {c : Call} (hc : calls[k]? = some c) (ht : a.begun[k]? = some t)
      (h : Unread t c) : Ends calls a k
  | finished : Ends calls a calls.length

/-- The responses are the answers to as many calls, in their order, and nothing ended the session
before the last of them. -/
structure Sound (calls : List Call) (a : Transcript) : Prop where
  count : a.responses.length = a.handled.length
  answers : ∀ (k : Nat) (r : Response), a.responses[k]? = some r →
    ∃ c x, calls[k]? = some c ∧ a.handled[k]? = some x ∧ Answers c x r
  first : ∀ k, Ends calls a k → a.responses.length ≤ k
  reads : a.responses.length ≤ a.begun.length ∧ a.begun.length ≤ a.responses.length + 1
  silent : ∀ (k : Nat) (r : Response), a.responses[k]? = some r → r.keepAlive = false →
    a.begun.length ≤ k + 1

end Transcript

end Session

namespace Connection

def transcript (c : Connection) : Session.Transcript :=
  ⟨Session.readings c.history, Session.handlings c.history, Session.responses c.run.journal⟩

/-- How often the session was resumed. -/
def turns (c : Connection) : Nat := Session.turns c.history

def isClosed (c : Connection) : Bool := c.run.journal.any fun e => e.entry.isClosed

/-- The session answers the calls of its client, and those only, up to the first reason to end.
Until it is closed there is something left of it to do, and it is not resumed without end. -/
structure Disciplined (calls : List Call) (c : Connection) : Prop where
  sound : c.transcript.Sound calls
  closes : c.isClosed = true → c.transcript.Ends calls c.transcript.responses.length
  once : ∀ (j k : Nat) (x y : Session.Handling), c.transcript.handled[j]? = some x →
    c.transcript.handled[k]? = some y → x.stopping = true → y.stopping = true → j = k
  rests : c.accepted = true →
    (c.isClosed = true ↔ c.run.loop.ready = [] ∧ c.run.loop.timers = [])
  brief : c.turns ≤ 2 * calls.length + 2

end Connection

/-! ## Responses -/

theorem Session.answers_respond (catalog : Catalog) (ledger : Ledger) (stopping : Bool) (c : Call) :
    Answers c ⟨catalog, ledger, stopping⟩ (respond (Answer.answer catalog ledger) stopping c) := by
  have hcommon : Response.commonFields.get? (ascii "Content-Type") = some Answer.contentType := by
    rw [Response.commonFields, SortedMap.ofList, List.foldl_cons, List.foldl_cons, List.foldl_nil,
      SortedMap.get?_insert, if_pos rfl]
  refine ⟨rfl, rfl, ?_, rfl, by simp [respond, Response.ofAnswer]⟩
  simp only [respond, Response.ofAnswer, Response.fieldsFor]
  split
  · rw [SortedMap.get?_insert, if_neg (by decide)]
    exact hcommon
  · exact hcommon

namespace Session

/-- The entries with which a session ends. -/
def lastEntries (lines : List LogLine) : List Entry := lines.map Entry.line ++ [.closed]

theorem responses_lastEntries (lines : List LogLine) (now : Nat) (journal : List (Stamped Entry)) :
    responses (((lastEntries lines).map (Stamped.mk now)).reverse ++ journal) =
      responses journal := by
  have hlines : ∀ l : List LogLine,
      responses ((l.map fun x => ⟨now, Entry.line x⟩) ++ journal) = responses journal := by
    intro l
    induction l with
    | nil => rfl
    | cons x l ih => exact ih
  have hlast := hlines lines.reverse
  simpa [lastEntries, responses, Function.comp_def] using hlast

theorem handlings_of_not_arrived (now : Nat) (catalog : Catalog) (ledger : Ledger) {task : Task}
    (ht : task ≠ .arrived) (h : List (Stamped Note)) :
    handlings (⟨now, .handles catalog ledger task⟩ :: h) = handlings h := by
  cases task with
  | arrived => exact absurd rfl ht
  | read | failed | written => rfl

end Session

/-! ## Reasons to end -/

theorem getElem?_concat_eq_some {α : Type} {l : List α} {a b : α} {k : Nat} :
    (l ++ [a])[k]? = some b ↔ l[k]? = some b ∨ k = l.length ∧ a = b := by
  rcases Nat.lt_trichotomy k l.length with hlt | rfl | hgt
  · simp [List.getElem?_append_left hlt, Nat.ne_of_lt hlt]
  · simp
  · have hnone : (l ++ [a])[k]? = none := List.getElem?_eq_none (by simp; omega)
    have hrest : l[k]? = none := List.getElem?_eq_none (by omega)
    simp [hnone, hrest, Nat.ne_of_gt hgt]

namespace Session

/-- What there is to see of a connection: whether it was accepted, whether it was closed, its tasks,
and how many of them were handled. -/
structure Face where
  accepted : Bool
  closed : Bool
  ready : List Task
  timers : List (Timer Task)
  turns : Nat

end Session

namespace Session.Transcript

variable {calls : List Call} {a : Transcript} {k : Nat}

def reading (a : Transcript) (time : Nat) : Transcript := { a with begun := a.begun ++ [time] }

def answering (a : Transcript) (x : Handling) (r : Response) : Transcript :=
  { a with handled := a.handled ++ [x], responses := a.responses ++ [r] }

theorem Ends.of_reading {t : Nat} (h : Ends calls (a.reading t) k) :
    Ends calls a k ∨ k = a.begun.length ∧ ∃ c, calls[k]? = some c ∧ Unread t c := by
  cases h with
  | unkept hc h => exact .inl (.unkept hc h)
  | stopped hx h => exact .inl (.stopped hx h)
  | unwritten hc h => exact .inl (.unwritten hc h)
  | finished => exact .inl .finished
  | unread hc ht h =>
    rcases getElem?_concat_eq_some.mp ht with ht | ⟨hk, rfl⟩
    · exact .inl (.unread hc ht h)
    · exact .inr ⟨hk, _, hc, h⟩

theorem Ends.of_answering {x : Handling} {r : Response} (h : Ends calls (a.answering x r) k) :
    Ends calls a k ∨ k = a.handled.length + 1 := by
  cases h with
  | unkept hc h => exact .inl (.unkept hc h)
  | unwritten hc h => exact .inl (.unwritten hc h)
  | finished => exact .inl .finished
  | unread hc ht h => exact .inl (.unread hc ht h)
  | stopped hx h =>
    rcases getElem?_concat_eq_some.mp hx with hx | ⟨rfl, _⟩
    · exact .inl (.stopped hx h)
    · exact .inr rfl

/-! ## How far a session is -/

/-- The next request may be read: all so far are answered and asked for more, so only the end of
the calls can be a reason to end. -/
structure Open (calls : List Call) (a : Transcript) : Prop where
  even : a.begun.length = a.responses.length
  kept : ∀ r ∈ a.responses, r.keepAlive = true
  free : Ends calls a a.responses.length → a.responses.length = calls.length

/-- A request is being read, and the task is what comes of it. -/
structure Awaits (calls : List Call) (a : Transcript) (task : Task) : Prop where
  ahead : a.begun.length = a.responses.length + 1
  kept : ∀ r ∈ a.responses, r.keepAlive = true
  comes : task = .arrived ∧ a.responses.length < calls.length ∧
      ¬ Ends calls a a.responses.length ∨
    ∃ reason, task = .failed reason ∧ Ends calls a a.responses.length

/-- A response is being written: it ends the session, or the next request may be read. -/
structure Writes (calls : List Call) (a : Transcript) (keepAlive : Bool) (error : Option Bytes) :
    Prop where
  goesOn : keepAlive = true → error = none → Open calls a
  ends : keepAlive = false ∨ error ≠ none → Ends calls a a.responses.length

/-- How far a session is, and which task drives it on. It takes two tasks to answer a request. -/
inductive Standing (calls : List Call) (a : Transcript) : Face → Prop
  | absent (h : Open calls a) : Standing calls a ⟨false, false, [], [], 2 * a.responses.length⟩
  | accepted (h : Open calls a) :
      Standing calls a ⟨true, false, [.read], [], 2 * a.responses.length⟩
  | reading {due : Nat} {task : Task} (h : Awaits calls a task) :
      Standing calls a ⟨true, false, [], [⟨due, task⟩], 2 * a.responses.length + 1⟩
  | writing {keepAlive : Bool} {error : Option Bytes} (h : Writes calls a keepAlive error) :
      Standing calls a ⟨true, false, [.written keepAlive error], [], 2 * a.responses.length⟩
  | closed {turns : Nat} (h : Ends calls a a.responses.length)
      (hturns : turns ≤ 2 * a.responses.length + 2) : Standing calls a ⟨true, true, [], [], turns⟩

/-! ## Reading and answering -/

theorem sound_nil : Sound calls ⟨[], [], []⟩ :=
  ⟨rfl, nofun, fun _ _ => Nat.zero_le _, by simp, nofun⟩

theorem open_nil : Open calls ⟨[], [], []⟩ := by
  refine ⟨rfl, nofun, fun h => ?_⟩
  generalize hk : (Transcript.mk [] [] []).responses.length = k at h
  cases h with
  | unkept | stopped | unwritten => cases hk
  | unread _ ht => cases ht
  | finished => rfl

theorem Sound.le_calls (h : Sound calls a) : a.responses.length ≤ calls.length := by
  cases hm : a.responses.length with
  | zero => exact Nat.zero_le _
  | succ m =>
    have hr := List.getElem?_eq_getElem (l := a.responses) (i := m) (by omega)
    obtain ⟨c, x, hc, _⟩ := h.answers m _ hr
    exact (List.getElem?_eq_some_iff.mp hc).1

/-- Reading the next request leaves what was done as it is. -/
theorem Sound.reading (h : Sound calls a) (ho : Open calls a) (t : Nat) :
    Sound calls (a.reading t) := by
  constructor
  case count => exact h.count
  case answers => exact h.answers
  case first =>
    intro k hk
    rcases hk.of_reading with hk | ⟨rfl, _⟩
    · exact h.first k hk
    · exact Nat.le_of_eq ho.even.symm
  case reads =>
    have heven := ho.even
    simp only [Transcript.reading, List.length_append, List.length_singleton]
    omega
  case silent =>
    intro k r hr hfalse
    have hkept := ho.kept r (List.mem_of_getElem? hr)
    rw [hfalse] at hkept
    cases hkept

/-- What comes of reading the next request, and whether that is a reason to end. -/
theorem Open.awaits (ho : Open calls a) (h : Sound calls a) (t : Nat) :
    Awaits calls (a.reading t) (readEnd t (calls.drop a.responses.length)).2 := by
  refine ⟨by simp [Transcript.reading, ho.even], ho.kept, ?_⟩
  generalize hm : a.responses.length = m
  have heven : a.begun.length = m := ho.even.trans hm
  have hfree := ho.free
  rw [hm] at hfree
  have hbegun : (a.reading t).begun[m]? = some t := by
    rw [← heven]
    exact List.getElem?_concat_length
  have hlen : (a.reading t).responses.length = m := hm
  rw [hlen]
  cases hrest : calls.drop m with
  | nil =>
    have hle := List.drop_eq_nil_iff.mp hrest
    have hlast : m = calls.length := Nat.le_antisymm (hm ▸ h.le_calls) hle
    rw [hlast]
    exact .inr ⟨endOfStream, rfl, .finished⟩
  | cons c rest =>
    have hc : calls[m]? = some c := by rw [← List.head?_drop, hrest, List.head?_cons]
    have hlt : m < calls.length := (List.getElem?_eq_some_iff.mp hc).1
    rw [readEnd]
    by_cases hdue : c.due - t < patience
    · rw [if_pos hdue]
      cases herror : c.readError with
      | some reason =>
        exact .inr ⟨reason, rfl, .unread hc hbegun (.inl (by simp [herror]))⟩
      | none =>
        refine .inl ⟨rfl, hlt, fun hends => ?_⟩
        rcases hends.of_reading with hends | ⟨_, d, hd, hunread⟩
        · exact absurd (hfree hends) (Nat.ne_of_lt hlt)
        · rw [hc] at hd
          cases hd
          rcases hunread with hfails | hlate
          · exact hfails herror
          · simp only [patience] at hdue
            omega
    · rw [if_neg hdue]
      refine .inr ⟨outOfTime, rfl, .unread hc hbegun (.inr ?_)⟩
      simp only [patience] at hdue
      omega

section

variable {c : Call} {x : Handling} {r : Response}

/-- A request that was read and is answered is the next one. -/
theorem Awaits.sound (hw : Awaits calls a .arrived) (h : Sound calls a)
    (hc : calls[a.responses.length]? = some c) (hr : Answers c x r) :
    Sound calls (a.answering x r) := by
  have hopen : ¬ Ends calls a a.responses.length := by
    rcases hw.comes with ⟨_, _, hopen⟩ | ⟨_, hfailed, _⟩
    · exact hopen
    · cases hfailed
  constructor
  case count => simp [answering, h.count]
  case answers =>
    intro k s hs
    rcases getElem?_concat_eq_some.mp hs with hs | ⟨rfl, rfl⟩
    · obtain ⟨d, y, hd, hy, hanswers⟩ := h.answers k s hs
      exact ⟨d, y, hd, getElem?_concat_eq_some.mpr (.inl hy), hanswers⟩
    · exact ⟨c, x, hc, getElem?_concat_eq_some.mpr (.inr ⟨h.count, rfl⟩), hr⟩
  case first =>
    intro k hk
    simp only [answering, List.length_append, List.length_singleton]
    rcases hk.of_answering with hk | hk
    · have hle := h.first k hk
      have hne : k ≠ a.responses.length := by
        rintro rfl
        exact hopen hk
      omega
    · exact Nat.le_of_eq (by rw [hk, h.count])
  case reads =>
    have hahead := hw.ahead
    simp only [answering, List.length_append, List.length_singleton]
    omega
  case silent =>
    intro k s hs hfalse
    have hahead := hw.ahead
    rcases getElem?_concat_eq_some.mp hs with hs | ⟨rfl, _⟩
    · have hkept := hw.kept s (List.mem_of_getElem? hs)
      rw [hfalse] at hkept
      cases hkept
    · simp only [answering]
      omega

/-- A response that is written ends the session, or the next request may be read. -/
theorem Awaits.writes (hw : Awaits calls a .arrived) (h : Sound calls a)
    (hc : calls[a.responses.length]? = some c) (hr : Answers c x r) :
    Writes calls (a.answering x r) r.keepAlive c.writeError := by
  have hlen : (a.answering x r).responses.length = a.responses.length + 1 := by simp [answering]
  have hx : (a.answering x r).handled[a.responses.length]? = some x :=
    getElem?_concat_eq_some.mpr (.inr ⟨h.count, rfl⟩)
  constructor
  case goesOn =>
    intro hkeep hwritten
    obtain ⟨hasks, hgoing⟩ := hr.keepAlive.mp hkeep
    refine ⟨by rw [hlen]; exact hw.ahead, ?_, ?_⟩
    · intro s hs
      rcases List.mem_append.mp hs with hs | hs
      · exact hw.kept s hs
      · rw [List.mem_singleton.mp hs]
        exact hkeep
    -- Of this call nothing is a reason to end, and the next request is not yet read.
    · rw [hlen]
      generalize hk : a.responses.length + 1 = k
      intro hends
      cases hends with
      | finished => rfl
      | unkept hd hfalse =>
        obtain rfl := Nat.succ.inj hk
        rw [hc] at hd
        cases hd
        rw [hasks] at hfalse
        cases hfalse
      | unwritten hd hfails =>
        obtain rfl := Nat.succ.inj hk
        rw [hc] at hd
        cases hd
        exact absurd hwritten hfails
      | stopped hy htrue =>
        obtain rfl := Nat.succ.inj hk
        rw [hx] at hy
        cases hy
        rw [hgoing] at htrue
        cases htrue
      | unread _ ht =>
        have hlt := (List.getElem?_eq_some_iff.mp ht).1
        have hahead : a.begun.length = k := hw.ahead.trans hk
        exact absurd hlt (by simp [answering, hahead])
  case ends =>
    rintro (hfalse | hfails)
    · rw [hlen]
      cases hasks : c.keepAlive with
      | false => exact .unkept hc hasks
      | true =>
        cases hgoing : x.stopping with
        | true => exact .stopped hx hgoing
        | false =>
          have hkeep := hr.keepAlive.mpr ⟨hasks, hgoing⟩
          rw [hfalse] at hkeep
          cases hkeep
    · rw [hlen]
      exact .unwritten hc hfails

end

end Session.Transcript

/-! ## Moves -/

namespace Connection

def face (c : Connection) : Session.Face :=
  ⟨c.accepted, c.isClosed, c.run.loop.ready, c.run.loop.timers, c.turns⟩

/-- What holds of a connection between two moves. -/
structure Kept (calls : List Call) (c : Connection) : Prop where
  rest : c.run.state.calls = calls.drop c.transcript.responses.length
  flag : c.stopping = Session.isStopped c.history
  passed : c.accepted = true → c.passed = true
  sound : c.transcript.Sound calls
  standing : c.transcript.Standing calls c.face

variable {calls : List Call} {c : Connection}

theorem kept_fresh (calls : List Call) : (fresh calls).Kept calls :=
  ⟨rfl, rfl, nofun, Session.Transcript.sound_nil, .absent Session.Transcript.open_nil⟩

theorem Kept.accept (h : c.Kept calls) (hp : c.passed = false) : c.accepting.Kept calls := by
  refine ⟨h.rest, h.flag, fun _ => rfl, h.sound, ?_⟩
  have hnot : c.accepted = false := by
    cases ha : c.accepted with
    | false => rfl
    | true =>
      have hpassed := h.passed ha
      rw [hp] at hpassed
      cases hpassed
  have hstanding := h.standing
  generalize hf : c.face = f at hstanding
  cases hstanding with
  | absent ho =>
    have hclosed : c.accepting.isClosed = false := congrArg Session.Face.closed hf
    have hready : c.accepting.run.loop.ready = [.read] := by
      have hidle : c.run.loop.ready = [] := congrArg Session.Face.ready hf
      simp [accepting, Run.obey, Loop.post, hidle]
    have htimers : c.accepting.run.loop.timers = [] := congrArg Session.Face.timers hf
    have hturns : c.accepting.turns = 2 * c.accepting.transcript.responses.length :=
      congrArg Session.Face.turns hf
    rw [face, hclosed, hready, htimers, hturns]
    exact .accepted ho
  | accepted | reading | writing | closed =>
    have ha : c.accepted = true := congrArg Session.Face.accepted hf
    rw [hnot] at ha
    cases ha

theorem Kept.stop (h : c.Kept calls) : c.stopped.Kept calls :=
  ⟨h.rest, by simp [stopped, Session.isStopped, Session.Note.isStop], h.passed, h.sound, h.standing⟩

section

variable {loop : Loop Session.Task} {catalog : Catalog} {ledger : Ledger}

/-- What handling a task makes of a connection, by what it makes of the session. -/
theorem handling_eq {task : Session.Task} {s : Session} {orders : Session.Orders}
    (h : c.run.state.handle (Answer.answer catalog ledger) c.stopping loop.now task = (s, orders)) :
    c.handling catalog ledger task loop =
      { c with
        run := ⟨loop.obeyAll orders, s,
          ((orders.filterMap Run.emitted?).map (Stamped.mk loop.now)).reverse ++ c.run.journal⟩
        history := (Session.notesOf catalog ledger task orders).map (Stamped.mk loop.now) ++
          c.history } := by
  simp only [handling, Run.command_eq, Run.onLoop, h]

variable (hready : loop.ready = []) (htimers : loop.timers = []) (ha : c.accepted = true)
include hready htimers ha

theorem Kept.reads (h : c.Kept calls) (hc : c.isClosed = false) (ho : c.transcript.Open calls)
    (hturns : c.turns = 2 * c.transcript.responses.length) {task : Session.Task}
    (ht : task = .read ∨ task = .written true none) :
    (c.handling catalog ledger task loop).Kept calls := by
  generalize hend : Session.readEnd loop.now c.run.state.calls = e
  have hhandle : c.run.state.handle (Answer.answer catalog ledger) c.stopping loop.now task =
      (c.run.state, [.after e.1 e.2]) := by
    rcases ht with rfl | rfl
    · rw [Session.handle, Session.beginRead, hend]
    · rw [Session.handle, Session.beginRead, hend]
  have hloop : loop.obeyAll [(.after e.1 e.2 : Order Session.Task Session.Entry)] =
      ⟨loop.now, [], [⟨loop.now + e.1, e.2⟩]⟩ := by
    simp [Loop.obeyAll, Loop.obey, Loop.after, hready, htimers, Loop.insertTimer]
  have hawaits := ho.awaits h.sound loop.now
  rw [← h.rest, hend] at hawaits
  rw [handling_eq hhandle, hloop]
  have hstanding : (c.transcript.reading loop.now).Standing calls
      ⟨true, false, [], [⟨loop.now + e.1, e.2⟩], 2 * c.transcript.responses.length + 1⟩ :=
    .reading hawaits
  rw [← ha, ← hc, ← hturns] at hstanding
  rcases ht with rfl | rfl
  · exact ⟨h.rest, h.flag, h.passed, h.sound.reading ho loop.now, hstanding⟩
  · exact ⟨h.rest, h.flag, h.passed, h.sound.reading ho loop.now, hstanding⟩

theorem Kept.answers (h : c.Kept calls) (hc : c.isClosed = false)
    (hw : c.transcript.Awaits calls .arrived)
    (hturns : c.turns = 2 * c.transcript.responses.length + 1) :
    (c.handling catalog ledger .arrived loop).Kept calls := by
  obtain ⟨call, hcall⟩ : ∃ call, calls[c.transcript.responses.length]? = some call := by
    rcases hw.comes with ⟨_, hlt, _⟩ | ⟨_, hfailed, _⟩
    · exact ⟨_, List.getElem?_eq_getElem hlt⟩
    · cases hfailed
  have hrest : c.run.state.calls =
      call :: calls.drop (c.transcript.responses.length + 1) := by
    obtain ⟨hlt, rfl⟩ := List.getElem?_eq_some_iff.mp hcall
    rw [h.rest, List.drop_eq_getElem_cons hlt]
  generalize hr : Session.respond (Answer.answer catalog ledger) c.stopping call = r
  have hhandle : c.run.state.handle (Answer.answer catalog ledger) c.stopping loop.now .arrived =
      (⟨calls.drop (c.transcript.responses.length + 1)⟩,
        [.emit (.response r call.writeError), .post (.written r.keepAlive call.writeError)]) := by
    rw [Session.handle, hrest]
    simp only [hr]
  have hanswers : Session.Answers call ⟨catalog, ledger, Session.isStopped c.history⟩ r := by
    rw [← hr, ← h.flag]
    exact Session.answers_respond catalog ledger c.stopping call
  have hloop : loop.obeyAll [(.emit (.response r call.writeError) :
      Order Session.Task Session.Entry), .post (.written r.keepAlive call.writeError)] =
        ⟨loop.now, [.written r.keepAlive call.writeError], []⟩ := by
    simp [Loop.obeyAll, Loop.obey, Loop.post, hready, htimers]
  rw [handling_eq hhandle, hloop]
  have hlen : (c.transcript.responses ++ [r]).length = c.transcript.responses.length + 1 := by
    simp
  refine ⟨congrArg calls.drop hlen.symm, h.flag, h.passed, hw.sound h.sound hcall hanswers, ?_⟩
  have hstanding : (c.transcript.answering
      ⟨catalog, ledger, Session.isStopped c.history⟩ r).Standing calls
      ⟨true, false, [.written r.keepAlive call.writeError], [],
        2 * (c.transcript.responses ++ [r]).length⟩ :=
    .writing (hw.writes h.sound hcall hanswers)
  have hnext : 2 * (c.transcript.responses ++ [r]).length = c.turns + 1 := by
    rw [hlen, hturns]
    rfl
  rwa [← ha, ← hc, hnext] at hstanding

/-- The session ends, with a line about what went wrong or without one. -/
theorem Kept.closes (h : c.Kept calls)
    (hends : c.transcript.Ends calls c.transcript.responses.length)
    (hturns : c.turns ≤ 2 * c.transcript.responses.length + 1) {task : Session.Task}
    (htask : task ≠ .arrived) (lines : List LogLine)
    (hhandle : c.run.state.handle (Answer.answer catalog ledger) c.stopping loop.now task =
      (c.run.state, (Session.lastEntries lines).map Order.emit)) :
    (c.handling catalog ledger task loop).Kept calls := by
  have hnotes : Session.notesOf catalog ledger task
      ((Session.lastEntries lines).map Order.emit) = [.handles catalog ledger task] := by
    simp [Session.notesOf, Session.wait?]
  rw [handling_eq hhandle, hnotes, Run.filterMap_emits, Loop.obeyAll_emits]
  generalize hd : ({ c with
    run := ⟨loop, c.run.state,
      ((Session.lastEntries lines).map (Stamped.mk loop.now)).reverse ++ c.run.journal⟩
    history := [Session.Note.handles catalog ledger task].map (Stamped.mk loop.now) ++ c.history } :
      Connection) = d
  have htranscript : d.transcript = c.transcript := by
    have hhandled := Session.handlings_of_not_arrived loop.now catalog ledger htask c.history
    have hresponses := Session.responses_lastEntries lines loop.now c.run.journal
    rw [← hd]
    exact congrArg₂ (Session.Transcript.mk (Session.readings c.history)) hhandled hresponses
  have hface : d.face = ⟨true, true, [], [], c.turns + 1⟩ := by
    rw [← hd]
    simp [face, isClosed, turns, Session.turns, ha, hready, htimers,
      Session.lastEntries, Session.Entry.isClosed]
  refine ⟨?_, ?_, ?_, ?_, ?_⟩
  · rw [htranscript, ← hd]
    exact h.rest
  · rw [← hd]
    exact h.flag
  · rw [← hd]
    exact h.passed
  · rw [htranscript]
    exact h.sound
  · rw [htranscript, hface]
    exact .closed hends (Nat.succ_le_succ hturns)

end

theorem Kept.handle (h : c.Kept calls) {task : Session.Task} {loop : Loop Session.Task}
    (ht : c.run.loop.Takes task loop) (catalog : Catalog) (ledger : Ledger) :
    (c.handling catalog ledger task loop).Kept calls := by
  have hstanding := h.standing
  generalize hf : c.face = f at hstanding
  have ha : c.accepted = f.accepted := congrArg Session.Face.accepted hf
  have hc : c.isClosed = f.closed := congrArg Session.Face.closed hf
  have hready : c.run.loop.ready = f.ready := congrArg Session.Face.ready hf
  have htimers : c.run.loop.timers = f.timers := congrArg Session.Face.timers hf
  have hturns : c.turns = f.turns := congrArg Session.Face.turns hf
  cases hstanding with
  | absent | closed => exact absurd ht (Loop.not_takes_idle hready htimers task loop)
  | accepted ho =>
    obtain ⟨rfl, hr, hti⟩ := ht.of_ready hready htimers
    exact h.reads hr hti ha hc ho hturns (.inl rfl)
  | @reading due task hw =>
    obtain ⟨rfl, hr, hti⟩ := ht.of_timer hready htimers
    rcases hw.comes with ⟨rfl, _⟩ | ⟨reason, rfl, hends⟩
    · exact h.answers hr hti ha hc hw hturns
    · have hlast := Nat.le_of_eq hturns
      by_cases hquiet : Session.isQuiet reason = true
      · refine h.closes hr hti ha hends hlast nofun [] ?_
        simp [Session.handle, hquiet, Session.lastEntries]
      · refine h.closes hr hti ha hends hlast nofun
          [⟨.debug, ascii "session " ++ ascii "read" ++ ascii ": " ++ reason⟩] ?_
        simp [Session.handle, hquiet, Session.lastEntries, Session.complaint]
  | @writing keepAlive error hw =>
    obtain ⟨rfl, hr, hti⟩ := ht.of_ready hready htimers
    have hlast : c.turns ≤ 2 * c.transcript.responses.length + 1 :=
      Nat.le_succ_of_le (Nat.le_of_eq hturns)
    cases error with
    | some reason =>
      exact h.closes hr hti ha (hw.ends (.inr nofun)) hlast nofun
        [⟨.debug, ascii "session " ++ ascii "write" ++ ascii ": " ++ reason⟩] rfl
    | none =>
      cases keepAlive with
      | false => exact h.closes hr hti ha (hw.ends (.inl rfl)) hlast nofun [] rfl
      | true => exact h.reads hr hti ha hc (hw.goesOn rfl rfl) hturns (.inr rfl)

theorem Goes.kept {d : Connection} (hg : c.Goes d) (h : c.Kept calls) : d.Kept calls := by
  cases hg with
  | pass => exact ⟨h.rest, h.flag, fun _ => rfl, h.sound, h.standing⟩
  | accept hp => exact h.accept hp
  | stop => exact h.stop
  | handle ht catalog ledger => exact h.handle ht catalog ledger
  | elapse => exact ⟨h.rest, h.flag, h.passed, h.sound, h.standing⟩

theorem Leads.kept {d : Connection} (hl : c.Leads d) (h : c.Kept calls) : d.Kept calls := by
  induction hl with
  | refl => exact h
  | tail _ hg ih => exact hg.kept ih

theorem Kept.disciplined (h : c.Kept calls) : c.Disciplined calls := by
  have hstanding := h.standing
  generalize hf : c.face = f at hstanding
  have ha : c.accepted = f.accepted := congrArg Session.Face.accepted hf
  have hc : c.isClosed = f.closed := congrArg Session.Face.closed hf
  have hready : c.run.loop.ready = f.ready := congrArg Session.Face.ready hf
  have htimers : c.run.loop.timers = f.timers := congrArg Session.Face.timers hf
  have hturns : c.turns = f.turns := congrArg Session.Face.turns hf
  constructor
  case sound => exact h.sound
  case closes =>
    intro hclosed
    rw [hc] at hclosed
    cases hstanding with
    | closed hends => exact hends
    | absent | accepted | reading | writing => cases hclosed
  case brief =>
    have hle := h.sound.le_calls
    rw [hturns]
    cases hstanding with
    | absent | accepted | reading | writing | closed => simp only; omega
  -- A request handled behind a stop is a reason to end, so it is the last one.
  case once =>
    intro j k x y hx hy hxs hys
    have hj := h.sound.first (j + 1) (.stopped hx hxs)
    have hk := h.sound.first (k + 1) (.stopped hy hys)
    have hjlt := (List.getElem?_eq_some_iff.mp hx).1
    have hklt := (List.getElem?_eq_some_iff.mp hy).1
    have hcount := h.sound.count
    omega
  case rests =>
    intro haccepted
    rw [ha] at haccepted
    rw [hc, hready, htimers]
    cases hstanding with
    | absent => cases haccepted
    | accepted | reading | writing | closed => simp

end Connection

/-! ## Courses -/

namespace Server

/-- In any course of a server each session keeps its discipline. -/
theorem disciplined_of_course {port : Nat} {visits : List Visit} {h : List (Stamped Note)}
    {r : Work} {i : Nat} {v : Visit} (hr : Course (begin port visits) h r)
    (hv : visits[i]? = some v) :
    ∃ c, connection? i h r = some c ∧ c.Disciplined v.calls := by
  obtain ⟨c, hc, hl⟩ := Course.leads hr hv
  exact ⟨c, hc, (hl.kept (Connection.kept_fresh v.calls)).disciplined⟩

/-- A client that asks to keep the connection each time, and asks twice before it waits long. -/
def eager : Visit :=
  let call (due : Nat) : Call := ⟨due, ⟨ascii "GET", ascii "/targets", 11, SortedMap.empty⟩, true,
    none, none⟩
  ⟨5, none, [call 5, call 40, call 90000]⟩

/-- The server of that client at its end, if it is stopped between the first two requests. -/
def interrupted : Work :=
  hosted Standalone.Task.server? some Standalone.server
    (((Run.start (⟨[], .new 8080 [eager]⟩ : Standalone)).command
      (Standalone.start [] 20)).drain Standalone.machine 20)

/-- The request behind the stop is answered, and it is the last one. -/
theorem disciplined_interrupted :
    ∃ h c, Course (begin 8080 [eager]) h interrupted ∧ connection? 0 h interrupted = some c ∧
      c.Disciplined eager.calls ∧ c.isClosed = true ∧
      c.transcript.responses.map (fun r => r.keepAlive) = [true, false] := by
  have hplan : ∀ t ∈ ([] : List (Timer Standalone.Task)), t.task.server? = none := nofun
  obtain ⟨h, hr⟩ := Standalone.course_drain hplan 20 20 8080 [] [eager]
  obtain ⟨c, hc, hdisciplined⟩ := disciplined_of_course hr (i := 0) (v := eager) rfl
  obtain ⟨_, hrun, _⟩ := connection?_eq_some hc
  refine ⟨h, c, hr, hc, hdisciplined, ?_, ?_⟩
  · rw [Connection.isClosed, hrun]
    rfl
  · rw [Connection.transcript, hrun]
    rfl

end Server

end TargetDiscovery.Web
