import TargetDiscovery.Proofs.Net.Addresses
import TargetDiscovery.Proofs.Target.Labels

/-!
# What a record becomes

A record becomes a target exactly when it meets four conditions, and the first of them that it does
not meet is the error. The labels of the target are the ones that every target has, and the features
under their own names; a feature never has the name of one of the former. It does not matter in
which order the features are looked at.
-/

set_option autoImplicit false

namespace TargetDiscovery

/-! ## Names of features -/

namespace Naming

def letters : Bytes := ascii "ABCDEFGHIJKLMNOPQRSTUVWXYZabcdefghijklmnopqrstuvwxyz_"

def digits : Bytes := ascii "0123456789"

structure FeatureName (name : Bytes) : Prop where
  word : ∃ first rest, name = first :: rest ∧ first ∈ letters ∧
    ∀ b ∈ rest, b ∈ letters ++ digits
  single : ¬ ascii "__" <+: name
  free : name ∉ [ascii "job", ascii "instance", ascii "subnet_id"]

theorem mem_letters (b : UInt8) :
    b ∈ letters ↔ (b == byte '_' || Bytes.isLetter b) = true := by
  constructor
  · have hletter : ∀ a ∈ letters, (a == byte '_' || Bytes.isLetter a) = true := by decide +kernel
    exact hletter b
  · have hmem : ∀ n : Fin 256,
        (UInt8.ofFin n == byte '_' || Bytes.isLetter (UInt8.ofFin n)) = true →
          UInt8.ofFin n ∈ letters := by decide +kernel
    exact hmem b.toFin

theorem mem_digits (b : UInt8) : b ∈ digits ↔ Bytes.isDigit b = true := by
  have hall : ∀ n : Fin 256, UInt8.ofFin n ∈ digits ↔ Bytes.isDigit (UInt8.ofFin n) = true := by
    decide +kernel
  exact hall b.toFin

theorem mem_letters_append_digits (b : UInt8) :
    b ∈ letters ++ digits ↔ (b == byte '_' || Bytes.isAlphanumeric b) = true := by
  rw [List.mem_append, mem_letters, mem_digits, Bytes.isAlphanumeric]
  simp only [Bool.or_eq_true]
  tauto

theorem underscores_prefix_iff {first : UInt8} {rest : Bytes} :
    ascii "__" <+: first :: rest ↔ first = byte '_' ∧ rest.head? = some (byte '_') := by
  have htwo : ascii "__" = [byte '_', byte '_'] := rfl
  rw [htwo, List.cons_prefix_cons, eq_comm]
  cases rest with
  | nil => simp
  | cons second rest => simp [List.cons_prefix_cons, eq_comm]

theorem isLabelName_iff {name : Bytes} :
    isLabelName name = true ↔ (∃ first rest, name = first :: rest ∧ first ∈ letters ∧
      ∀ b ∈ rest, b ∈ letters ++ digits) ∧ ¬ ascii "__" <+: name := by
  cases name with
  | nil => simp [isLabelName]
  | cons first rest =>
    have hfirst : first ∈ letters → first ∈ letters ++ digits := List.mem_append_left _
    have hhead : (!(first == byte '_' && rest.head? == some (byte '_'))) = true ↔
        ¬ ascii "__" <+: first :: rest := by
      rw [underscores_prefix_iff, not_and_or]
      simp
    rw [isLabelName, Bool.and_eq_true, Bool.and_eq_true, hhead, ← mem_letters, List.all_eq_true]
    simp only [← mem_letters_append_digits, List.forall_mem_cons]
    constructor
    · rintro ⟨⟨hsingle, hletter⟩, -, hrest⟩
      exact ⟨⟨first, rest, rfl, hletter, hrest⟩, hsingle⟩
    · rintro ⟨⟨_, _, heq, hletter, hrest⟩, hsingle⟩
      cases heq
      exact ⟨⟨hsingle, hletter⟩, hfirst hletter, hrest⟩

theorem isReservedLabel_iff {name : Bytes} :
    isReservedLabel name = true ↔ name ∈ [ascii "job", ascii "instance", ascii "subnet_id"] := by
  simp only [isReservedLabel, Bool.or_eq_true, beq_iff_eq, List.mem_cons, List.not_mem_nil,
    or_false, or_assoc]
  rfl

end Naming

namespace Conversion

theorem isFeatureName_iff {name : Bytes} :
    isFeatureName name = true ↔ Naming.FeatureName name := by
  rw [isFeatureName, Bool.and_eq_true, Bool.not_eq_true', ← Bool.not_eq_true,
    Naming.isLabelName_iff, Naming.isReservedLabel_iff]
  exact ⟨fun ⟨⟨hword, hsingle⟩, hfree⟩ => ⟨hword, hsingle, hfree⟩,
    fun h => ⟨⟨h.word, h.single⟩, h.free⟩⟩

/-! ## Conditions and labels -/

/-- What a record has to meet for the error not to be reported. -/
def Meets (c : Conversion) (r : NodeRecord) : RecordError → Prop
  | .malformed => r.malformed = false
  | .unknownRole => ∃ job, c.rules.get? r.role = some job
  | .badAddress => r.address.length ≤ 261 ∧ Address.Formed r.address
  | .badLabel => ∀ name value, r.features.get? name = some value → Naming.FeatureName name

def checks : List RecordError := [.malformed, .unknownRole, .badAddress, .badLabel]

/-- The error stands for the first of the conditions that is not met. -/
def Violates (c : Conversion) (r : NodeRecord) (e : RecordError) : Prop :=
  ∃ earlier later, checks = earlier ++ e :: later ∧ (∀ d ∈ earlier, c.Meets r d) ∧ ¬ c.Meets r e

/-- The labels of the target that an instance has for a job and a record. -/
inductive Bears (owner job : Bytes) (r : NodeRecord) : Bytes → Bytes → Prop
  | job : Bears owner job r (ascii "job") job
  | owner : Bears owner job r (ascii "instance") owner
  | subnet (h : r.subnet ≠ []) : Bears owner job r (ascii "subnet_id") r.subnet
  | feature {name value : Bytes} (h : r.features.get? name = some value) :
      Bears owner job r name value

structure Makes (c : Conversion) (r : NodeRecord) (t : Target) : Prop where
  owner : t.owner = c.owner
  job : c.rules.get? r.role = some t.job
  address : t.address = r.address
  labels : ∀ name value, t.labels.get? name = some value ↔ Bears c.owner t.job r name value

/-- The features one after another, in the order they come in; the first that may not be a label
ends it. -/
def addInOrder : List (Bytes × Bytes) → Labels → Except RecordError Labels
  | [], labels => .ok labels
  | (name, value) :: rest, labels =>
    if isFeatureName name then addInOrder rest (labels.insertIfNew name value)
    else .error .badLabel

/-- Conversion with the features of the record in an order of their own. -/
def convertInOrder (c : Conversion) (order : List (Bytes × Bytes)) (r : NodeRecord) :
    Except RecordError Target :=
  if r.malformed then .error .malformed
  else
    match c.rules.get? r.role with
    | none => .error .unknownRole
    | some job =>
      if !Address.isValid r.address then .error .badAddress
      else
        match addInOrder order (ownLabels c.owner job r.subnet) with
        | .error e => .error e
        | .ok labels => .ok ⟨c.owner, job, r.address, labels⟩

structure Labelling (c : Conversion) (r : NodeRecord) : Prop where
  succeeds : (∃ t, c.convert r = .ok t) ↔ ∀ e, c.Meets r e
  made : ∀ t, c.convert r = .ok t → c.Makes r t
  kept : ∀ t, c.convert r = .ok t →
    t.labels.get? (ascii "job") = some t.job ∧ t.labels.get? (ascii "instance") = some t.owner ∧
      t.labels.get? (ascii "subnet_id") = if r.subnet = [] then none else some r.subnet
  fails : ∀ e, c.convert r = .error e ↔ c.Violates r e
  ordered : ∀ order, order.Perm r.features.entries → c.convertInOrder order r = c.convert r

/-! ## Which records are converted -/

theorem all_isFeatureName_iff {features : Dict Bytes} :
    features.keys.all isFeatureName = true ↔
      ∀ name value, features.get? name = some value → Naming.FeatureName name := by
  simp only [List.all_eq_true, SortedMap.mem_keys, isFeatureName_iff]
  constructor
  · intro h name value hvalue
    exact h name ⟨value, hvalue⟩
  · rintro h name ⟨value, hvalue⟩
    exact h name value hvalue

theorem exists_convert_iff {c : Conversion} {r : NodeRecord} :
    (∃ t, c.convert r = .ok t) ↔ ∀ e, c.Meets r e := by
  constructor
  · rintro ⟨t, ht⟩ e
    obtain ⟨hmalformed, hjob, hvalid, hnames, -⟩ := convert_eq_ok.mp ht
    cases e with
    | malformed => exact hmalformed
    | unknownRole => exact ⟨t.job, hjob⟩
    | badAddress => exact Address.isValid_iff.mp hvalid
    | badLabel => exact all_isFeatureName_iff.mp hnames
  · intro h
    obtain ⟨job, hjob⟩ := h .unknownRole
    have hvalid := Address.isValid_iff.mpr (h .badAddress)
    have hnames := all_isFeatureName_iff.mpr (h .badLabel)
    exact ⟨⟨c.owner, job, r.address, addFeatures (ownLabels c.owner job r.subnet) r.features⟩,
      convert_eq_ok.mpr ⟨h .malformed, hjob, hvalid, hnames, rfl⟩⟩

theorem violates_of_convert {c : Conversion} {r : NodeRecord} {e : RecordError}
    (h : c.convert r = .error e) : c.Violates r e := by
  unfold convert at h
  split at h
  · rename_i hmalformed
    cases h
    exact ⟨[], _, rfl, by simp, by simp [Meets, hmalformed]⟩
  rename_i hmalformed
  have hfirst : c.Meets r .malformed := Bool.eq_false_iff.mpr hmalformed
  split at h
  · rename_i hjob
    cases h
    exact ⟨[.malformed], _, rfl, by simpa using hfirst, by simp [Meets, hjob]⟩
  rename_i job hjob
  have hsecond : c.Meets r .unknownRole := ⟨job, hjob⟩
  split at h
  · rename_i hvalid
    cases h
    refine ⟨[.malformed, .unknownRole], _, rfl, by simp [hfirst, hsecond], ?_⟩
    rw [Meets, ← Address.isValid_iff]
    simpa using hvalid
  rename_i hvalid
  have hthird : c.Meets r .badAddress := Address.isValid_iff.mp (by simpa using hvalid)
  split at h
  · cases h
  rename_i hnames
  cases h
  refine ⟨[.malformed, .unknownRole, .badAddress], _, rfl, by simp [hfirst, hsecond, hthird], ?_⟩
  rwa [Meets, ← all_isFeatureName_iff]

/-- There is one first condition at most. -/
theorem Violates.unique {c : Conversion} {r : NodeRecord} {d e : RecordError}
    (hd : c.Violates r d) (he : c.Violates r e) : d = e := by
  classical
  have hfind : ∀ {a}, c.Violates r a → checks.find? (fun a => ¬ c.Meets r a) = some a := by
    rintro a ⟨earlier, later, heq, hmet, hunmet⟩
    rw [List.find?_eq_some_iff_append]
    exact ⟨decide_eq_true hunmet, earlier, later, heq, fun d hd => by simpa using hmet d hd⟩
  exact Option.some.inj ((hfind hd).symm.trans (hfind he))

theorem convert_eq_error_iff {c : Conversion} {r : NodeRecord} {e : RecordError} :
    c.convert r = .error e ↔ c.Violates r e := by
  constructor
  · exact violates_of_convert
  · intro h
    cases hc : c.convert r with
    | error d => rw [(violates_of_convert hc).unique h]
    | ok t =>
      obtain ⟨_, _, _, _, hunmet⟩ := h
      exact absurd (exists_convert_iff.mp ⟨t, hc⟩ e) hunmet

/-! ## What the labels are -/

section Labels

variable {c : Conversion} {r : NodeRecord} {t : Target}

/-- Under a name that every target has, there is no feature. -/
theorem get?_features_of_convert (h : c.convert r = .ok t) {name : Bytes}
    (hname : name ∈ [Naming.job, Naming.owner, Naming.subnet]) : r.features.get? name = none := by
  obtain ⟨-, -, -, hnames, -⟩ := convert_eq_ok.mp h
  rw [Option.eq_none_iff_forall_ne_some]
  intro value hvalue
  exact (all_isFeatureName_iff.mp hnames name value hvalue).free hname

theorem get?_labels_of_convert (h : c.convert r = .ok t) (name : Bytes) :
    t.labels.get? name =
      ((ownLabels c.owner t.job r.subnet).get? name).or (r.features.get? name) := by
  obtain ⟨-, -, -, -, ht⟩ := convert_eq_ok.mp h
  rw [ht]
  exact get?_addFeatures _ _ _

theorem kept_of_convert (h : c.convert r = .ok t) :
    t.labels.get? Naming.job = some t.job ∧ t.labels.get? Naming.owner = some t.owner ∧
      t.labels.get? Naming.subnet = if r.subnet = [] then none else some r.subnet := by
  obtain ⟨howner, hlabel, hjob⟩ := labels_of_convert h
  have hne : Naming.subnet ≠ Naming.job ∧ Naming.subnet ≠ Naming.owner := by decide
  refine ⟨hjob, hlabel, ?_⟩
  rw [get?_labels_of_convert h, get?_ownLabels, if_neg hne.1, if_neg hne.2,
    get?_features_of_convert h (by simp), Option.or_none]
  by_cases hempty : r.subnet = []
  · simp [hempty]
  · simp [hempty]

theorem bears_of_convert (h : c.convert r = .ok t) {name value : Bytes} :
    t.labels.get? name = some value ↔ Bears c.owner t.job r name value := by
  obtain ⟨hjob, howner, hsubnet⟩ := kept_of_convert h
  constructor
  · intro hvalue
    rw [get?_labels_of_convert h, get?_ownLabels] at hvalue
    split at hvalue
    · rename_i hname
      cases hvalue
      exact hname ▸ .job
    split at hvalue
    · rename_i hname
      cases hvalue
      exact hname ▸ .owner
    split at hvalue
    · rename_i hname
      cases hvalue
      exact hname.1 ▸ .subnet hname.2
    · exact .feature hvalue
  · intro hbears
    cases hbears with
    | job => exact hjob
    | owner => exact howner.trans (congrArg some (labels_of_convert h).1)
    | subnet hne => exact hsubnet.trans (if_neg hne)
    | feature hvalue =>
      have hfree : name ∉ [Naming.job, Naming.owner, Naming.subnet] := fun hname => by
        rw [get?_features_of_convert h hname] at hvalue
        cases hvalue
      simp only [List.mem_cons, List.not_mem_nil, or_false, not_or] at hfree
      rw [get?_labels_of_convert h, get?_ownLabels, if_neg hfree.1, if_neg hfree.2.1,
        if_neg fun hname => hfree.2.2 hname.1]
      exact hvalue

end Labels

/-! ## The order of the features -/

theorem addInOrder_eq (order : List (Bytes × Bytes)) (labels : Labels) :
    addInOrder order labels =
      if order.all fun e => isFeatureName e.1 then
        .ok (order.foldl (fun d e => d.insertIfNew e.1 e.2) labels)
      else .error .badLabel := by
  induction order generalizing labels with
  | nil => rfl
  | cons e rest ih =>
    rw [addInOrder, List.all_cons, List.foldl_cons]
    cases isFeatureName e.1 with
    | false => rfl
    | true => exact ih _

theorem addInOrder_of_perm {order : List (Bytes × Bytes)} {features : Dict Bytes}
    (h : order.Perm features.entries) (labels : Labels) :
    addInOrder order labels =
      if features.keys.all isFeatureName then .ok (addFeatures labels features)
      else .error .badLabel := by
  have hall : (order.all fun e => isFeatureName e.1) = features.keys.all isFeatureName := by
    rw [SortedMap.keys, List.all_map]
    exact h.all_eq
  have hfold : order.foldl (fun d e => d.insertIfNew e.1 e.2) labels = addFeatures labels features :=
    SortedMap.ext_get? fun name => by
      rw [SortedMap.get?_foldl_insertIfNew, get?_addFeatures, SortedMap.valueAt_of_perm h]
  rw [addInOrder_eq, hall, hfold]

theorem convertInOrder_of_perm {order : List (Bytes × Bytes)} {r : NodeRecord}
    (h : order.Perm r.features.entries) (c : Conversion) :
    c.convertInOrder order r = c.convert r := by
  unfold convertInOrder convert
  cases c.rules.get? r.role with
  | none => rfl
  | some job =>
    simp only [addInOrder_of_perm h]
    cases r.features.keys.all isFeatureName <;> rfl

theorem labelling_exact (c : Conversion) (r : NodeRecord) : c.Labelling r where
  succeeds := exists_convert_iff
  made t ht := by
    obtain ⟨-, hjob, -, -, heq⟩ := convert_eq_ok.mp ht
    exact ⟨(labels_of_convert ht).1, hjob, congrArg Target.address heq,
      fun _ _ => bears_of_convert ht⟩
  kept _ := kept_of_convert
  fails _ := convert_eq_error_iff
  ordered _ h := convertInOrder_of_perm h c

end Conversion

end TargetDiscovery
