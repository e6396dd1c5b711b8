import TargetDiscovery.Proofs.Query.Listed

/-!
# The order of what happens to different instances

Stores are published to, cycles and restarts are recorded, each time for one instance. What is asked
afterwards is answered from the stores and the ledger, and these depend only on what happened to each
single instance in which order, not on how the instances took turns.
-/

set_option autoImplicit false

namespace TargetDiscovery

/-- What is done to a store, or recorded for an instance. -/
inductive Operation
  | publish (position : Nat) (offer : Option Snapshot)
  | record (e : CycleEvent)
  | recordRestart (name : Bytes) (degraded : Bool)
  deriving DecidableEq

namespace Operation

/-- The instance that an operation is for; a store is found by its place among the names. -/
def subject (names : List Bytes) : Operation → Option Bytes
  | publish position _ => names[position]?
  | record e => some e.owner
  | recordRestart name _ => some name

/-- The operations for an instance, in their order. -/
def share (names : List Bytes) (name : Bytes) (operations : List Operation) : List Operation :=
  operations.filter fun o => o.subject names = some name

/-- What becomes of the store at a place. -/
def onStore (place : Nat) (store : Option Store) : Operation → Option Store
  | publish position offer =>
    if position = place then store.map fun s => (s.publish offer).2 else store
  | record _ => store
  | recordRestart _ _ => store

/-- What becomes of the entry of an instance in the ledger. -/
def onEntry (name : Bytes) (entry : Option Counters) : Operation → Option Counters
  | publish _ _ => entry
  | record e => if name = e.owner then some ((entry.getD {}).record e) else entry
  | recordRestart other degraded =>
    if name = other then some ((entry.getD {}).recordRestart degraded) else entry

variable {names : List Bytes} {name : Bytes}

theorem onStore_of_ne {place : Nat} (hplace : names[place]? = some name) {o : Operation}
    (ho : o.subject names ≠ some name) (store : Option Store) : o.onStore place store = store := by
  cases o with
  | publish position offer =>
    have hne : position ≠ place := by
      rintro rfl
      exact ho hplace
    exact if_neg hne
  | record e => rfl
  | recordRestart other degraded => rfl

theorem onEntry_of_ne {o : Operation} (ho : o.subject names ≠ some name)
    (entry : Option Counters) : o.onEntry name entry = entry := by
  cases o with
  | publish position offer => rfl
  | record e =>
    have hne : name ≠ e.owner := by
      rintro rfl
      exact ho rfl
    exact if_neg hne
  | recordRestart other degraded =>
    have hne : name ≠ other := by
      rintro rfl
      exact ho rfl
    exact if_neg hne

end Operation

/-- The stores and the ledger, from which everything that is asked is answered. -/
structure Board where
  catalog : Catalog
  ledger : Ledger

namespace Board

def perform (b : Board) : Operation → Board
  | .publish position offer =>
    { b with catalog := b.catalog.modify position fun s => (s.publish offer).2 }
  | .record e => { b with ledger := b.ledger.record e }
  | .recordRestart name degraded => { b with ledger := b.ledger.recordRestart name degraded }

def after (b : Board) (operations : List Operation) : Board := operations.foldl perform b

theorem store_perform (b : Board) (o : Operation) (place : Nat) :
    (b.perform o).catalog[place]? = o.onStore place b.catalog[place]? := by
  cases o with
  | publish position offer =>
    simp only [perform, Operation.onStore, List.getElem?_modify]
    split
    · rfl
    · exact Option.map_id'
  | record e => rfl
  | recordRestart name degraded => rfl

theorem entry_perform (b : Board) (o : Operation) (name : Bytes) :
    (b.perform o).ledger.get? name = o.onEntry name (b.ledger.get? name) := by
  cases o with
  | publish position offer => rfl
  | record e =>
    simp only [perform, Operation.onEntry, Ledger.record, SortedMap.get?_alter]
    split
    · rename_i h
      rw [h]
    · rfl
  | recordRestart other degraded =>
    simp only [perform, Operation.onEntry, Ledger.recordRestart, SortedMap.get?_alter]
    split
    · rename_i h
      rw [h]
    · rfl

/-- A part that only the operations for one instance change is what these make of it. -/
theorem part_after {σ : Type} (part : Board → σ) {change : σ → Operation → σ}
    {names : List Bytes} {name : Bytes}
    (hstep : ∀ b o, part (b.perform o) = change (part b) o)
    (hframe : ∀ s o, o.subject names ≠ some name → change s o = s) (b : Board)
    (operations : List Operation) :
    part (b.after operations) =
      (Operation.share names name operations).foldl change (part b) := by
  rw [after, Operation.share]
  induction operations generalizing b with
  | nil => rfl
  | cons o operations ih =>
    rw [List.foldl_cons, ih, hstep]
    by_cases ho : o.subject names = some name
    · rw [List.filter_cons_of_pos (by simpa using ho), List.foldl_cons]
    · rw [List.filter_cons_of_neg (by simpa using ho), hframe _ _ ho]

theorem store_after (b : Board) {place : Nat} {name : Bytes}
    (hplace : b.catalog.names[place]? = some name) (operations : List Operation) :
    (b.after operations).catalog[place]? =
      (Operation.share b.catalog.names name operations).foldl
        (fun store o => o.onStore place store) b.catalog[place]? :=
  part_after (fun b => b.catalog[place]?) (fun b o => store_perform b o place)
    (fun store _ ho => Operation.onStore_of_ne hplace ho store) b operations

theorem entry_after (b : Board) (name : Bytes) (operations : List Operation) :
    (b.after operations).ledger.get? name =
      (Operation.share b.catalog.names name operations).foldl
        (fun entry o => o.onEntry name entry) (b.ledger.get? name) :=
  part_after (fun b => b.ledger.get? name) (fun b o => entry_perform b o name)
    (fun entry _ ho => Operation.onEntry_of_ne ho entry) b operations

theorem length_after (b : Board) (operations : List Operation) :
    (b.after operations).catalog.length = b.catalog.length := by
  rw [after]
  induction operations generalizing b with
  | nil => rfl
  | cons o operations ih =>
    refine (ih (b.perform o)).trans ?_
    cases o with
    | publish position offer => exact List.length_modify _ _ _
    | record e => rfl
    | recordRestart name degraded => rfl

/-! ## Taking turns -/

/-- For every instance the same operations in the same order. -/
def Interleaved (b : Board) (operations other : List Operation) : Prop :=
  ∀ name, Operation.share b.catalog.names name operations =
    Operation.share b.catalog.names name other

theorem after_eq {b : Board} {operations other : List Operation}
    (h : b.Interleaved operations other) : b.after operations = b.after other := by
  have hcatalog : (b.after operations).catalog = (b.after other).catalog := by
    apply List.ext_getElem?
    intro place
    cases hplace : b.catalog.names[place]? with
    | some name => rw [store_after b hplace, store_after b hplace, h name]
    | none =>
      have hlength : b.catalog.length ≤ place := by
        simpa [Catalog.names] using hplace
      rw [List.getElem?_eq_none (by rw [length_after]; exact hlength),
        List.getElem?_eq_none (by rw [length_after]; exact hlength)]
  have hledger : (b.after operations).ledger = (b.after other).ledger :=
    SortedMap.ext_get? fun name => by rw [entry_after, entry_after, h name]
  generalize b.after operations = x at hcatalog hledger
  generalize b.after other = y at hcatalog hledger
  cases x
  cases y
  cases hcatalog
  cases hledger
  rfl

/-- Two boards that nothing tells apart. -/
structure Alike (a b : Board) : Prop where
  snapshots : a.catalog.map Store.current = b.catalog.map Store.current
  statistics : a.catalog.map Store.tally = b.catalog.map Store.tally
  counters : ∀ name, a.ledger.counters name = b.ledger.counters name
  targets : ∀ f, a.catalog.targets f = b.catalog.targets f
  groups : ∀ f, a.catalog.groups f = b.catalog.groups f
  answers : ∀ method target, Answer.answer a.catalog a.ledger method target =
    Answer.answer b.catalog b.ledger method target
  /-- Nor will anything that is done to both. -/
  later : ∀ operations, a.after operations = b.after operations

/-- How the instances took turns cannot be told afterwards. -/
theorem alike_of_interleaved {b : Board} {operations other : List Operation}
    (h : b.Interleaved operations other) : (b.after operations).Alike (b.after other) := by
  have heq := after_eq h
  constructor
  case snapshots => rw [heq]
  case statistics => rw [heq]
  case counters => simp only [heq, implies_true]
  case targets => simp only [heq, implies_true]
  case groups => simp only [heq, implies_true]
  case answers => simp only [heq, implies_true]
  case later => simp only [heq, implies_true]

/-- Two instances that nothing has been heard of. -/
def pair : Board := ⟨[Store.new (ascii "east"), Store.new (ascii "west")], SortedMap.empty⟩

/-- The first one publishes. The second one fails and is started again. -/
def eastPublishes : Operation := .publish 0 (some ⟨ascii "east", 1, [], 0, 0⟩)

def westFails : Operation := .record { owner := ascii "west", outcome := .fetchFailed }

def westRestarts : Operation := .recordRestart (ascii "west") false

theorem interleaved_pair : pair.Interleaved [eastPublishes, westFails, westRestarts]
    [westFails, westRestarts, eastPublishes] := by
  intro name
  by_cases heast : ascii "east" = name
  · subst heast
    decide +kernel
  by_cases hwest : ascii "west" = name
  · subst hwest
    decide +kernel
  · have hnames : pair.catalog.names = [ascii "east", ascii "west"] := rfl
    simp [Operation.share, Operation.subject, hnames, eastPublishes, westFails, westRestarts,
      heast, hwest]

theorem alike_pair : pair.Interleaved [eastPublishes, westFails, westRestarts]
      [westFails, westRestarts, eastPublishes] ∧
    (pair.after [eastPublishes, westFails, westRestarts]).Alike
      (pair.after [westFails, westRestarts, eastPublishes]) :=
  ⟨interleaved_pair, alike_of_interleaved interleaved_pair⟩

end Board

end TargetDiscovery
