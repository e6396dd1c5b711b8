import TargetDiscovery.Definition
import TargetDiscovery.Json.Plain
import TargetDiscovery.Proofs.Config.Described

/-!
# Whom the instances of a configuration trust

From the document to the verifiers: an instance trusts states without a certificate only if its own
item says that it is insecure. Every other one checks with the key in its own key file, and if one
of these files is of no use, there are no definitions at all. How a key is read from a text does not
matter here.
-/

set_option autoImplicit false

namespace TargetDiscovery

/-! ## What the document says -/

def SaysInsecure (item : Json) : Prop := item.member? (ascii "insecure") = some (.bool true)

/-- An item names a key file, which has a content. -/
structure HasKeyFile (files : Files) (directory : Bytes) (item : Json) (path text : Bytes) : Prop
    where
  named : ∃ key, item.member? (ascii "public_key_pem") = some (.string key) ∧
    path = Path.within directory key
  content : files.read? path = some text

/-- What is wrong with the key file of an instance that is not insecure. -/
def LacksKey (readKey : Bytes → Except KeyError Check) (files : Files) (directory : Bytes)
    (item : Json) (path : Bytes) (cause : KeyError) : Prop :=
  ¬ SaysInsecure item ∧
    ∃ text, HasKeyFile files directory item path text ∧ readKey text = .error cause

def IsUnusable (readKey : Bytes → Except KeyError Check) (files : Files) (directory : Bytes)
    (item : Json) : Prop :=
  ∃ path cause, LacksKey readKey files directory item path cause

/-- A definition is the one of an item over defaults and with job rules: what it is run with, and
whom it trusts, comes from this item alone. -/
structure IsDefinition (readKey : Bytes → Except KeyError Check) (files : Files)
    (directory : Bytes) (defaults : Timing) (rules : JobRules) (item : Json) (d : Definition) :
    Prop where
  name : item.member? (ascii "name") = some (.string d.name)
  endpoint : ∃ url, item.member? (ascii "registry_url") = some (.string url) ∧
    Endpoint.parse url = .ok d.endpoint
  timing : Layers defaults item d.timing
  rules : d.rules = rules
  insecure : d.verifier.isInsecure = true ↔ SaysInsecure item
  checked : ¬ SaysInsecure item → ∃ path text check, HasKeyFile files directory item path text ∧
    readKey text = .ok check ∧ d.verifier = .checked check
  uncertified : ∀ state : RegistryState, state.certified? = none →
    d.verifier.trusts state = .ok true → SaysInsecure item

/-- Definitions of a list of items: one for each, in order. There are none if the key file of an
item is of no use, and the first such item is the one reported. -/
structure Wired (readKey : Bytes → Except KeyError Check) (files : Files) (directory : Bytes)
    (defaults : Timing) (rules : JobRules) (items : List Json)
    (result : Except ConfigError (List Definition)) : Prop where
  fails : (∃ x, result = .error x) ↔ ∃ item ∈ items, IsUnusable readKey files directory item
  first : ∀ x, result = .error x → ∃ before item after name path cause,
    items = before ++ item :: after ∧
      (∀ other ∈ before, ¬ IsUnusable readKey files directory other) ∧
        item.member? (ascii "name") = some (.string name) ∧
          LacksKey readKey files directory item path cause ∧ x = .entry name (.key path cause)
  each : ∀ definitions, result = .ok definitions →
    List.Forall₂ (IsDefinition readKey files directory defaults rules) items definitions

theorem HasKeyFile.unique {files : Files} {directory : Bytes} {item : Json}
    {path path' text text' : Bytes} (h : HasKeyFile files directory item path text)
    (h' : HasKeyFile files directory item path' text') : text = text' := by
  obtain ⟨key, hkey, rfl⟩ := h.named
  obtain ⟨key', hkey', rfl⟩ := h'.named
  obtain rfl : key = key' := Json.string.inj (Option.some.inj (hkey.symm.trans hkey'))
  exact Option.some.inj (h.content.symm.trans h'.content)

section Entries

variable {readKey : Bytes → Except KeyError Check} {files : Files} {directory : Bytes}
  {defaults : Timing} {rules : JobRules} {item : Json} {e : Entry}

theorem IsDefinition.usable {d : Definition}
    (h : IsDefinition readKey files directory defaults rules item d) :
    ¬ IsUnusable readKey files directory item := by
  rintro ⟨path, cause, hsecure, text, hkey, hcause⟩
  obtain ⟨path', text', check, hkey', hcheck, -⟩ := h.checked hsecure
  rw [hkey.unique hkey', hcheck] at hcause
  cases hcause

/-! ## One entry -/

/-- A state without a certificate is trusted only where nothing is checked. -/
theorem isInsecure_of_trusts {verifier : Verifier} {state : RegistryState}
    (hnone : state.certified? = none) (h : verifier.trusts state = .ok true) :
    verifier.isInsecure = true := by
  cases verifier with
  | insecure => rfl
  | checked check =>
    rw [Verifier.trusts, hnone] at h
    cases h

theorem IsEntry.defines (h : IsEntry files directory defaults item e) {verifier : Verifier}
    (hinsecure : verifier.isInsecure = true ↔ SaysInsecure item)
    (hchecked : ¬ SaysInsecure item → ∃ path text check,
      HasKeyFile files directory item path text ∧ readKey text = .ok check ∧
        verifier = .checked check) :
    IsDefinition readKey files directory defaults rules item
      ⟨⟨e.name, e.timing, rules, verifier⟩, e.endpoint⟩ := by
  constructor
  case name => exact h.name
  case endpoint => exact ⟨e.url, h.url, h.endpoint⟩
  case timing => exact h.timing
  case rules => rfl
  case insecure => exact hinsecure
  case checked => exact hchecked
  case uncertified =>
    exact fun _ hnone htrusts => hinsecure.mp (isInsecure_of_trusts hnone htrusts)

/-- An entry has a verifier, which makes its definition, or its key file is of no use. -/
theorem IsEntry.verifier (readKey : Bytes → Except KeyError Check) (rules : JobRules)
    (h : IsEntry files directory defaults item e) :
    (∃ path cause, LacksKey readKey files directory item path cause ∧
      Definition.verifierOf readKey e = .error (.entry e.name (.key path cause))) ∨
    ∃ verifier, Definition.verifierOf readKey e = .ok verifier ∧
      IsDefinition readKey files directory defaults rules item
        ⟨⟨e.name, e.timing, rules, verifier⟩, e.endpoint⟩ := by
  have htrust := h.trust
  unfold Definition.verifierOf
  generalize e.trust = trust at htrust
  cases htrust with
  | insecure hinsecure hkey =>
    exact .inr ⟨.insecure, rfl, h.defines ⟨fun _ => hinsecure, fun _ => rfl⟩
      fun hsecure => absurd hinsecure hsecure⟩
  | @keyFile key text hinsecure hkey hne htext =>
    have hsecure : ¬ SaysInsecure item := fun htrue => nomatch hinsecure _ htrue
    have hfile : HasKeyFile files directory item (Path.within directory key) text :=
      ⟨⟨key, hkey, rfl⟩, htext⟩
    dsimp only
    cases hread : readKey text with
    | error cause => exact .inl ⟨_, cause, ⟨hsecure, text, hfile, hread⟩, rfl⟩
    | ok check =>
      exact .inr ⟨.checked check, rfl, h.defines ⟨nofun, fun htrue => absurd htrue hsecure⟩
        fun _ => ⟨_, text, check, hfile, hread, rfl⟩⟩

/-! ## All entries -/

theorem ofEntries_cons_eq_ok {entries : List Entry} {definitions : List Definition} :
    Definition.ofEntries readKey rules (e :: entries) = .ok definitions ↔
      ∃ verifier rest, Definition.verifierOf readKey e = .ok verifier ∧
        Definition.ofEntries readKey rules entries = .ok rest ∧
          definitions = ⟨⟨e.name, e.timing, rules, verifier⟩, e.endpoint⟩ :: rest := by
  rw [Definition.ofEntries]
  constructor
  · intro h
    split at h
    · cases h
    · rename_i verifier hverifier
      split at h
      · cases h
      · rename_i rest hrest
        cases h
        exact ⟨verifier, rest, hverifier, hrest, rfl⟩
  · rintro ⟨verifier, rest, hverifier, hrest, rfl⟩
    rw [hverifier, hrest]

theorem ofEntries_cons_eq_error {entries : List Entry} {x : ConfigError} :
    Definition.ofEntries readKey rules (e :: entries) = .error x ↔
      Definition.verifierOf readKey e = .error x ∨
        ∃ verifier, Definition.verifierOf readKey e = .ok verifier ∧
          Definition.ofEntries readKey rules entries = .error x := by
  rw [Definition.ofEntries]
  cases Definition.verifierOf readKey e with
  | error y =>
    simp only [Except.error.injEq, reduceCtorEq, false_and, exists_false, or_false]
  | ok verifier =>
    cases Definition.ofEntries readKey rules entries with
    | error y => simp
    | ok rest => simp

theorem first_of_ofEntries {items : List Json} {entries : List Entry} {x : ConfigError}
    (h : List.Forall₂ (IsEntry files directory defaults) items entries)
    (hresult : Definition.ofEntries readKey rules entries = .error x) :
    ∃ before item after name path cause, items = before ++ item :: after ∧
      (∀ other ∈ before, ¬ IsUnusable readKey files directory other) ∧
        item.member? (ascii "name") = some (.string name) ∧
          LacksKey readKey files directory item path cause ∧
            x = .entry name (.key path cause) := by
  induction h with
  | nil => cases hresult
  | @cons item e items entries he _ ih =>
    rcases he.verifier readKey rules with
      ⟨path, cause, hlacks, hverifier⟩ | ⟨verifier, hverifier, hdefinition⟩
    · have hx : x = .entry e.name (.key path cause) := by
        rcases ofEntries_cons_eq_error.mp hresult with hfirst | ⟨_, hok, _⟩
        · exact Except.error.inj (hfirst.symm.trans hverifier)
        · exact nomatch hok.symm.trans hverifier
      exact ⟨[], item, items, e.name, path, cause, rfl, nofun, he.name, hlacks, hx⟩
    · rcases ofEntries_cons_eq_error.mp hresult with hfirst | ⟨_, _, hrest⟩
      · exact nomatch hfirst.symm.trans hverifier
      · obtain ⟨before, item', after, name, path, cause, rfl, hbefore, hfound⟩ := ih hrest
        exact ⟨item :: before, item', after, name, path, cause, rfl,
          List.forall_mem_cons.mpr ⟨hdefinition.usable, hbefore⟩, hfound⟩

theorem each_of_ofEntries {items : List Json} {entries : List Entry}
    {definitions : List Definition}
    (h : List.Forall₂ (IsEntry files directory defaults) items entries)
    (hresult : Definition.ofEntries readKey rules entries = .ok definitions) :
    List.Forall₂ (IsDefinition readKey files directory defaults rules) items definitions := by
  induction h generalizing definitions with
  | nil =>
    cases hresult
    exact .nil
  | @cons item e items entries he _ ih =>
    obtain ⟨verifier, rest, hok, hrest, rfl⟩ := ofEntries_cons_eq_ok.mp hresult
    rcases he.verifier readKey rules with
      ⟨_, _, _, hverifier⟩ | ⟨verifier', hverifier, hdefinition⟩
    · exact nomatch hok.symm.trans hverifier
    · obtain rfl : verifier = verifier' := Except.ok.inj (hok.symm.trans hverifier)
      exact .cons hdefinition (ih hrest)

theorem names_of_ofEntries {entries : List Entry} {definitions : List Definition}
    (hresult : Definition.ofEntries readKey rules entries = .ok definitions) :
    definitions.map (·.name) = entries.map Entry.name := by
  induction entries generalizing definitions with
  | nil =>
    cases hresult
    rfl
  | cons e entries ih =>
    obtain ⟨_, rest, _, hrest, rfl⟩ := ofEntries_cons_eq_ok.mp hresult
    rw [List.map_cons, List.map_cons, ih hrest]

theorem rules_of_ofEntries {entries : List Entry} {definitions : List Definition}
    (hresult : Definition.ofEntries readKey rules entries = .ok definitions) :
    ∀ d ∈ definitions, d.rules = rules := by
  induction entries generalizing definitions with
  | nil =>
    cases hresult
    exact nofun
  | cons e entries ih =>
    obtain ⟨_, rest, _, hrest, rfl⟩ := ofEntries_cons_eq_ok.mp hresult
    exact List.forall_mem_cons.mpr ⟨rfl, ih hrest⟩

theorem wired_ofEntries {items : List Json} {entries : List Entry}
    (h : List.Forall₂ (IsEntry files directory defaults) items entries) :
    Wired readKey files directory defaults rules items
      (Definition.ofEntries readKey rules entries) := by
  constructor
  case first => exact fun _ => first_of_ofEntries h
  case each => exact fun _ => each_of_ofEntries h
  case fails =>
    constructor
    · rintro ⟨x, hx⟩
      obtain ⟨before, item, after, name, path, cause, rfl, -, -, hlacks, -⟩ :=
        first_of_ofEntries h hx
      exact ⟨item, List.mem_append_right _ List.mem_cons_self, path, cause, hlacks⟩
    · rintro ⟨item, hitem, hunusable⟩
      cases hresult : Definition.ofEntries readKey rules entries with
      | error x => exact ⟨x, rfl⟩
      | ok definitions =>
        have husable := (List.forall₂_and_left items definitions).mp
          ((each_of_ofEntries h hresult).imp fun _ _ hd => ⟨hd.usable, hd⟩)
        exact absurd hunusable (husable.1 item hitem)

end Entries

/-! ## From a text to definitions -/

/-- A text that is accepted is read as a document whose items are defined in order, over its defaults
and with its job rules: a key file of no use ends this, and an instance is insecure only where its
item says so. -/
theorem Definition.wired_of_parse [Json.Reader] (readKey : Bytes → Except KeyError Check)
    {files : Files} {directory text : Bytes} {c : Config}
    (h : Config.parse files directory text = .ok (.ok c)) :
    ∃ document items defaults rules, Json.Reader.read true text = .ok document ∧
      document.member? (ascii "instances") = some (.array items) ∧
        document.Given (ascii "defaults") Timing.standard IsDefaults defaults ∧
          document.Given (ascii "jobs") JobRules.standard IsRules rules ∧
            Wired readKey files directory defaults rules items
              (Definition.ofConfig readKey c) := by
  obtain ⟨document, hread, hdescribes⟩ := Config.parse_eq_ok.mp h
  obtain ⟨defaults, v, hdefaults, hmember, hinstances⟩ := hdescribes.instances
  obtain ⟨items, rfl, hitems⟩ := hinstances.items
  exact ⟨document, items, defaults, c.rules, hread, hmember, hdefaults, hdescribes.rules,
    wired_ofEntries hitems⟩

/-- Two instances, one of them insecure and the other one with a key file. -/
def mixedText : Bytes :=
  ascii "\x7b\"instances\":[" ++
    ascii "\x7b\"name\":\"open\",\"registry_url\":\"http://a\",\"insecure\":true\x7d," ++
    ascii "\x7b\"name\":\"certified\",\"registry_url\":\"http://b\"," ++
    ascii "\"public_key_pem\":\"k.pem\"\x7d]\x7d"

def mixedFiles : Files :=
  .ofReadings [(ascii "etc/k.pem", some (ascii "-----BEGIN PUBLIC KEY-----\n" ++
    ascii "MCowBQYDK2VwAyEAxAb+/P+QwAFERSbX6jpkVmQfyWwSg0+k6pL974dRVPI=\n" ++
    ascii "-----END PUBLIC KEY-----\n"))]

/-- Whether a text was accepted and every key of it is one. -/
def isUsable : Except Fault (Except ConfigError Config) → Bool
  | .ok (.ok c) => (Definition.ofConfig Verifier.ofPem c).isOk
  | _ => false

theorem Definition.wired_mixed :
    ∃ c, Config.parse mixedFiles (ascii "etc") mixedText = .ok (.ok c) ∧
      (Definition.ofConfig Verifier.ofPem c).isOk = true ∧
        ∃ document items defaults rules, Json.Reader.read true mixedText = .ok document ∧
          document.member? (ascii "instances") = some (.array items) ∧
            document.Given (ascii "defaults") Timing.standard IsDefaults defaults ∧
              document.Given (ascii "jobs") JobRules.standard IsRules rules ∧
                Wired Verifier.ofPem mixedFiles (ascii "etc") defaults rules items
                  (Definition.ofConfig Verifier.ofPem c) := by
  have hparse : isUsable (Config.parse mixedFiles (ascii "etc") mixedText) = true := by
    decide +kernel
  unfold isUsable at hparse
  split at hparse
  · rename_i c hc
    exact ⟨c, hc, hparse, wired_of_parse Verifier.ofPem hc⟩
  · cases hparse

/-- What is looked up by the name of an instance, its counters or its restarts, is its own: a
configuration gives no name twice. -/
theorem Definition.nodup_names [Json.Reader] {readKey : Bytes → Except KeyError Check}
    {files : Files} {directory text : Bytes} {c : Config} {definitions : List Definition}
    (h : Config.parse files directory text = .ok (.ok c))
    (hresult : Definition.ofConfig readKey c = .ok definitions) :
    (definitions.map (·.name)).Nodup := by
  obtain ⟨document, -, hdescribes⟩ := Config.parse_eq_ok.mp h
  obtain ⟨defaults, v, -, -, hinstances⟩ := hdescribes.instances
  rw [names_of_ofEntries hresult]
  exact hinstances.distinct

end TargetDiscovery
