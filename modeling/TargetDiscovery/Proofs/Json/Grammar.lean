import TargetDiscovery.Proofs.Json.Reading
import TargetDiscovery.Proofs.Json.Tokens

/-!
# The grammar of documents

What a text means is put down here without any bound: a value stands behind a gap, and after it
comes what is left of the text. A text is read exactly if it is one of a value by this grammar, the
value is no deeper than there is room, and, where names must be distinct, none of its objects has
one twice.
-/

set_option autoImplicit false

namespace TargetDiscovery.Json

/-! ## The grammar -/

/-- A word and the value that it stands for. -/
inductive IsWord : Bytes → Json → Prop
  | true : IsWord (ascii "true") (.bool true)
  | false : IsWord (ascii "false") (.bool false)
  | null : IsWord (ascii "null") .null

/-- What is read of a text: a value, or the items of an array or the members of an object up to
its end. -/
inductive Part
  | value (j : Json)
  | items (js : List Json)
  | members (ms : List (Bytes × Json))

/-- A text begins with a part, behind a gap; the last one is what is left of it. -/
inductive Reads : Bytes → Part → Bytes → Prop
  | word {s t rest word : Bytes} {j : Json} (hs : skip .blanks s = .ok t) (hw : IsWord word j)
      (ht : Bytes.without? word t = some rest) : Reads s (.value j) rest
  | number {s t rest : Bytes} {b : UInt8} {n : Number} (hs : skip .blanks s = .ok (b :: t))
      (hn : readNumber (b :: t) = .ok (n, rest)) : Reads s (.value (.number n)) rest
  | string {s t value rest : Bytes} (hs : skip .blanks s = .ok (byte '"' :: t))
      (ht : Quoted t value rest) : Reads s (.value (.string value)) rest
  | emptyArray {s t rest : Bytes} (hs : skip .blanks s = .ok (byte '[' :: t))
      (ht : skip .blanks t = .ok (byte ']' :: rest)) : Reads s (.value (.array [])) rest
  | array {s t u rest : Bytes} {js : List Json} (hs : skip .blanks s = .ok (byte '[' :: t))
      (ht : skip .blanks t = .ok u) (hu : Reads u (.items js) rest) :
      Reads s (.value (.array js)) rest
  | lastItem {s t rest : Bytes} {j : Json} (hs : Reads s (.value j) t)
      (ht : skip .blanks t = .ok (byte ']' :: rest)) : Reads s (.items [j]) rest
  | item {s t u rest : Bytes} {j : Json} {js : List Json} (hs : Reads s (.value j) t)
      (ht : skip .blanks t = .ok (byte ',' :: u)) (hu : Reads u (.items js) rest) :
      Reads s (.items (j :: js)) rest
  | emptyObject {s t rest : Bytes} (hs : skip .blanks s = .ok (byte '\x7b' :: t))
      (ht : skip .blanks t = .ok (byte '\x7d' :: rest)) : Reads s (.value (.object [])) rest
  | object {s t u rest : Bytes} {ms : List (Bytes × Json)}
      (hs : skip .blanks s = .ok (byte '\x7b' :: t)) (ht : skip .blanks t = .ok u)
      (hu : Reads u (.members ms) rest) : Reads s (.value (.object ms)) rest
  | lastMember {s t u v w rest name : Bytes} {j : Json}
      (hs : skip .blanks s = .ok (byte '"' :: t)) (ht : Quoted t name u)
      (hu : skip .blanks u = .ok (byte ':' :: v)) (hv : Reads v (.value j) w)
      (hw : skip .blanks w = .ok (byte '\x7d' :: rest)) : Reads s (.members [(name, j)]) rest
  | member {s t u v w x rest name : Bytes} {j : Json} {ms : List (Bytes × Json)}
      (hs : skip .blanks s = .ok (byte '"' :: t)) (ht : Quoted t name u)
      (hu : skip .blanks u = .ok (byte ':' :: v)) (hv : Reads v (.value j) w)
      (hw : skip .blanks w = .ok (byte ',' :: x)) (hx : Reads x (.members ms) rest) :
      Reads s (.members ((name, j) :: ms)) rest

/-- The text of a document: its value, and behind it nothing but a gap. -/
def IsTextOf (text : Bytes) (j : Json) : Prop :=
  ∃ rest, Reads text (.value j) rest ∧ skip .blanks rest = .ok []

namespace Part

def depth : Part → Nat
  | value j => j.depth
  | items js => itemsDepth js
  | members ms => membersDepth ms

def distinct : Part → Bool
  | value j => j.distinctNames
  | items js => distinctItems js
  | members ms => distinctMembers ms

/-- Of the names that were seen, if they count, none comes again. -/
def Fresh (seen : Option (List Bytes)) : Part → Prop
  | members ms => ∀ names, seen = some names → ∀ m ∈ ms, m.1 ∉ names
  | _ => True

/-- The part is what the reader takes off a text. -/
def IsRead (strict : Bool) (size room : Nat) (seen : Option (List Bytes)) (s rest : Bytes) :
    Part → Prop
  | value j => readValue strict size room s = .ok (j, rest)
  | items js => readItems strict size room s = .ok (js, rest)
  | members ms => readMembers strict size room seen s = .ok (ms, rest)

end Part

/-! ## What is read follows the grammar -/

theorem ofStep_eq_ok {α β : Type} {f : α → β} {step : Step α} {b : β} {rest : Bytes} :
    ofStep f step = .ok (b, rest) ↔ ∃ a, step = .ok (a, rest) ∧ f a = b := by
  constructor
  · intro h
    unfold ofStep at h
    split at h
    · cases h
      exact ⟨_, rfl, rfl⟩
    · cases h
  · rintro ⟨a, rfl, rfl⟩
    rfl

theorem readWord_eq_ok {word s rest : Bytes} {value j : Json} :
    readWord word value s = .ok (j, rest) ↔ Bytes.without? word s = some rest ∧ value = j := by
  constructor
  · intro h
    unfold readWord at h
    split at h
    · rename_i hw
      cases h
      exact ⟨hw, rfl⟩
    · cases h
  · rintro ⟨hw, rfl⟩
    rw [readWord, hw]

theorem isSome_unseen (strict : Bool) :
    (if strict then some [] else none : Option (List Bytes)).isSome = strict := by
  cases strict with
  | true => rfl
  | false => rfl

theorem isNew_iff {name : Bytes} {seen : Option (List Bytes)} :
    isNew name seen = true ↔ ∀ names, seen = some names → name ∉ names := by
  cases seen with
  | none => simp [isNew]
  | some names => simp [isNew]

theorem eq_cons_of_head? {s : Bytes} {b : UInt8} (h : s.head? = some b) : s = b :: s.drop 1 := by
  obtain ⟨t, rfl⟩ := List.head?_eq_some_iff.mp h
  rfl

theorem distinctMembers_cons {name : Bytes} {j : Json} {ms : List (Bytes × Json)} :
    distinctMembers ((name, j) :: ms) = true ↔
      (∀ m ∈ ms, m.1 ≠ name) ∧ j.distinctNames = true ∧ distinctMembers ms = true := by
  simp [distinctMembers, and_assoc]

/-- Before an object, no name was seen. -/
theorem Part.fresh_unseen (strict : Bool) (ms : List (Bytes × Json)) :
    Part.Fresh (if strict then some [] else none) (.members ms) := by
  intro names hnames m _
  cases strict with
  | true =>
    cases hnames
    exact List.not_mem_nil
  | false => cases hnames

theorem Part.Fresh.isNew_name {name : Bytes} {j : Json} {ms : List (Bytes × Json)}
    {seen : Option (List Bytes)} (h : Part.Fresh seen (.members ((name, j) :: ms))) :
    isNew name seen = true :=
  isNew_iff.mpr fun names hnames => h names hnames _ List.mem_cons_self

/-- A later name is neither this one nor one of those before. -/
theorem Part.Fresh.later {name : Bytes} {j : Json} {ms : List (Bytes × Json)}
    {seen : Option (List Bytes)} (h : Part.Fresh seen (.members ((name, j) :: ms)))
    (hne : seen.isSome = true → ∀ m ∈ ms, m.1 ≠ name) :
    Part.Fresh (seen.map (name :: ·)) (.members ms) := by
  intro _ hnames m hm
  obtain ⟨names, hseen, rfl⟩ := Option.map_eq_some_iff.mp hnames
  exact List.not_mem_cons_of_ne_of_not_mem (hne (Option.isSome_of_eq_some hseen) m hm)
    (h names hseen m (List.mem_cons_of_mem _ hm))

/-- A name that is new, before members that are told from it and from the names before. -/
theorem Part.Fresh.cons {name : Bytes} {j : Json} {ms : List (Bytes × Json)}
    {seen : Option (List Bytes)} (hnew : isNew name seen = true)
    (h : Part.Fresh (seen.map (name :: ·)) (.members ms)) :
    Part.Fresh seen (.members ((name, j) :: ms)) := by
  intro names hnames m hm
  have hlater := h (name :: names) (by rw [hnames]; rfl)
  rcases List.mem_cons.mp hm with rfl | hm
  · exact isNew_iff.mp hnew names hnames
  · exact List.not_mem_of_not_mem_cons (hlater m hm)

theorem Part.Fresh.ne {name : Bytes} {ms : List (Bytes × Json)} {seen : Option (List Bytes)}
    (hseen : seen.isSome = true) (h : Part.Fresh (seen.map (name :: ·)) (.members ms)) :
    ∀ m ∈ ms, m.1 ≠ name := by
  obtain ⟨names, hnames⟩ := Option.isSome_iff_exists.mp hseen
  exact fun m hm => List.ne_of_not_mem_cons (h (name :: names) (by rw [hnames]; rfl) m hm)

/-- The words are values of depth one, without any names. -/
theorem reads_word {word s t rest : Bytes} {j k : Json} (hs : skip .blanks s = .ok t)
    (hw : IsWord word k) (h : ofStep id (readWord word k t) = .ok (j, rest)) :
    Reads s (.value j) rest ∧ j.depth = 1 ∧ j.distinctNames = true := by
  obtain ⟨_, hstep, rfl⟩ := ofStep_eq_ok.mp h
  obtain ⟨hrest, rfl⟩ := readWord_eq_ok.mp hstep
  refine ⟨.word hs hw hrest, ?_⟩
  cases hw with
  | _ => exact ⟨rfl, rfl⟩

section Soundness

variable {strict : Bool} {size room : Nat}

/-- What the parts of a value, read with a smaller bound, have to be for the value itself. -/
def Sound (strict : Bool) (size : Nat) : Prop :=
  ∀ {room : Nat} {seen : Option (List Bytes)} {s rest : Bytes} {p : Part},
    p.IsRead strict size room seen s rest → seen.isSome = strict →
      Reads s p rest ∧ p.depth ≤ room ∧ (strict = true → p.distinct = true) ∧ p.Fresh seen

theorem Sound.value (ih : Sound strict size) {s rest : Bytes} {j : Json}
    (h : readValue strict (size + 1) room s = .ok (j, rest)) :
    Reads s (.value j) rest ∧ j.depth ≤ room ∧ (strict = true → j.distinctNames = true) := by
  cases room with
  | zero => cases h
  | succ room =>
    have hleaf : ∀ {j : Json}, j.depth = 1 → j.depth ≤ room + 1 := fun hj => by omega
    rw [readValue] at h
    split at h
    · cases h
    · cases h
    · rename_i b t hs
      split at h
      · rename_i hb
        subst hb
        split at h
        · cases h
        · rename_i u ht
          split at h
          · rename_i hhead
            cases h
            rw [eq_cons_of_head? hhead] at ht
            exact ⟨.emptyObject hs ht, hleaf rfl, fun _ => rfl⟩
          · split at h
            · cases h
            · rename_i ms rest hms
              cases h
              obtain ⟨hreads, hdepth, hdistinct, _⟩ := ih (p := .members ms) hms
                (isSome_unseen strict)
              exact ⟨.object hs ht hreads, Nat.succ_le_succ hdepth, hdistinct⟩
      · split at h
        · rename_i hb
          subst hb
          split at h
          · cases h
          · rename_i u ht
            split at h
            · rename_i hhead
              cases h
              rw [eq_cons_of_head? hhead] at ht
              exact ⟨.emptyArray hs ht, hleaf rfl, fun _ => rfl⟩
            · split at h
              · cases h
              · rename_i js rest hjs
                cases h
                obtain ⟨hreads, hdepth, hdistinct, _⟩ := ih (p := .items js) hjs
                  (isSome_unseen strict)
                exact ⟨.array hs ht hreads, Nat.succ_le_succ hdepth, hdistinct⟩
        · split at h
          · rename_i hb
            subst hb
            obtain ⟨value, hvalue, rfl⟩ := ofStep_eq_ok.mp h
            exact ⟨.string hs (quoted_of_readString hvalue), hleaf rfl, fun _ => rfl⟩
          · split at h
            · obtain ⟨n, hn, rfl⟩ := ofStep_eq_ok.mp h
              exact ⟨.number hs hn, hleaf rfl, fun _ => rfl⟩
            · have hword : ∀ {word : Bytes} {k : Json}, IsWord word k →
                  ofStep id (readWord word k (b :: t)) = .ok (j, rest) →
                  Reads s (.value j) rest ∧ j.depth ≤ room + 1 ∧
                    (strict = true → j.distinctNames = true) := by
                intro word k hw hread
                obtain ⟨hreads, hdepth, hdistinct⟩ := reads_word hs hw hread
                exact ⟨hreads, hleaf hdepth, fun _ => hdistinct⟩
              split at h
              · exact hword .true h
              · split at h
                · exact hword .false h
                · split at h
                  · exact hword .null h
                  · cases h

theorem Sound.items (ih : Sound strict size) {seen : Option (List Bytes)} {s rest : Bytes}
    {js : List Json} (hseen : seen.isSome = strict)
    (h : readItems strict (size + 1) room s = .ok (js, rest)) :
    Reads s (.items js) rest ∧ itemsDepth js ≤ room ∧
      (strict = true → distinctItems js = true) := by
  rw [readItems] at h
  split at h
  · cases h
  · rename_i j t hj
    obtain ⟨hreads, hdepth, hdistinct, _⟩ := ih (p := .value j) hj hseen
    split at h
    · cases h
    · cases h
    · rename_i b u ht
      split at h
      · rename_i hb
        subst hb
        cases h
        exact ⟨.lastItem hreads ht, Nat.max_le.mpr ⟨hdepth, Nat.zero_le _⟩,
          fun hs => Bool.and_eq_true_iff.mpr ⟨hdistinct hs, rfl⟩⟩
      · split at h
        · rename_i hb
          subst hb
          split at h
          · cases h
          · rename_i js rest hjs
            cases h
            obtain ⟨hreads', hdepth', hdistinct', _⟩ := ih (p := .items js) hjs hseen
            exact ⟨.item hreads ht hreads', Nat.max_le.mpr ⟨hdepth, hdepth'⟩,
              fun hs => Bool.and_eq_true_iff.mpr ⟨hdistinct hs, hdistinct' hs⟩⟩
        · cases h

theorem Sound.members (ih : Sound strict size) {seen : Option (List Bytes)} {s rest : Bytes}
    {ms : List (Bytes × Json)} (hseen : seen.isSome = strict)
    (h : readMembers strict (size + 1) room seen s = .ok (ms, rest)) :
    Reads s (.members ms) rest ∧ membersDepth ms ≤ room ∧
      (strict = true → distinctMembers ms = true) ∧ Part.Fresh seen (.members ms) := by
  rw [readMembers] at h
  split at h
  · cases h
  · cases h
  · rename_i q t hs
    split at h
    · cases h
    · rename_i hq
      have hq : q = byte '"' := by simpa using hq
      subst hq
      split at h
      · cases h
      · rename_i name u ht
        have hquoted := quoted_of_readString ht
        split at h
        · cases h
        · cases h
        · rename_i c v hu
          split at h
          · cases h
          · rename_i hc
            have hc : c = byte ':' := by simpa using hc
            subst hc
            split at h
            · cases h
            · rename_i hnew
              have hnew : isNew name seen = true := by simpa using hnew
              split at h
              · cases h
              · rename_i j w hj
                obtain ⟨hreads, hdepth, hdistinct, _⟩ := ih (p := .value j) hj hseen
                split at h
                · cases h
                · cases h
                · rename_i b x hw
                  split at h
                  · rename_i hb
                    subst hb
                    cases h
                    refine ⟨.lastMember hs hquoted hu hreads hw,
                      Nat.max_le.mpr ⟨hdepth, Nat.zero_le _⟩, fun hs => ?_, ?_⟩
                    · exact distinctMembers_cons.mpr ⟨nofun, hdistinct hs, rfl⟩
                    · exact .cons hnew fun _ _ _ hm => absurd hm List.not_mem_nil
                  · split at h
                    · rename_i hb
                      subst hb
                      split at h
                      · cases h
                      · rename_i ms rest hms
                        cases h
                        obtain ⟨hreads', hdepth', hdistinct', hfresh⟩ := ih (p := .members ms) hms
                          (by rw [Option.isSome_map, hseen])
                        refine ⟨.member hs hquoted hu hreads hw hreads',
                          Nat.max_le.mpr ⟨hdepth, hdepth'⟩, fun hs => ?_, .cons hnew hfresh⟩
                        exact distinctMembers_cons.mpr
                          ⟨hfresh.ne (hseen.trans hs), hdistinct hs, hdistinct' hs⟩
                    · cases h

/-- What is read is in the text, as deep as there is room at most, and has no name twice where this
is asked for. -/
theorem sound (strict : Bool) (size : Nat) : Sound strict size := by
  induction size with
  | zero =>
    intro room seen s rest p h _
    cases p with
    | _ => cases h
  | succ size ih =>
    intro room seen s rest p h hseen
    cases p with
    | value j =>
      obtain ⟨hreads, hdepth, hdistinct⟩ := ih.value h
      exact ⟨hreads, hdepth, hdistinct, trivial⟩
    | items js =>
      obtain ⟨hreads, hdepth, hdistinct⟩ := ih.items hseen h
      exact ⟨hreads, hdepth, hdistinct, trivial⟩
    | members ms => exact ih.members hseen h

end Soundness

/-! ## What follows the grammar is read -/

section

variable {s t u : Bytes}

theorem length_opened {b : UInt8} (hs : skip .blanks s = .ok (b :: t))
    (ht : skip .blanks t = .ok u) : u.length < s.length :=
  Nat.lt_of_le_of_lt (length_skip ht) (length_skip_cons hs)

/-- In front of the value of a member stand its name, in quotes, and a colon. -/
theorem length_named {v name : Bytes} (hs : skip .blanks s = .ok (byte '"' :: t))
    (ht : Quoted t name u) (hu : skip .blanks u = .ok (byte ':' :: v)) :
    v.length + 2 < s.length := by
  have hlt := length_skip_cons hs
  have hquoted := ht.length
  have hlt' := length_skip_cons hu
  omega

end

theorem Reads.length {s rest : Bytes} {p : Part} (h : Reads s p rest) : rest.length < s.length := by
  induction h with
  | word hs hw ht =>
    have hle := length_skip hs
    rw [Bytes.without?_eq_some_iff.mp ht, List.length_append] at hle
    have hpos : ∀ {word : Bytes} {j : Json}, IsWord word j → 0 < word.length := by
      intro word j hw
      cases hw with
      | _ => decide
    have := hpos hw
    omega
  | number hs hn =>
    have hlt := length_skip_cons hs
    have hrest := (head_of_readNumber hn).2
    omega
  | string hs ht =>
    have hlt := length_skip_cons hs
    have hrest := ht.length
    omega
  | emptyArray hs ht | emptyObject hs ht =>
    have hlt := length_skip_cons hs
    have hlt' := length_skip_cons ht
    omega
  | array hs ht _ ih | object hs ht _ ih =>
    have hlt := length_opened hs ht
    omega
  | lastItem _ ht ih =>
    have hlt := length_skip_cons ht
    omega
  | item _ ht _ ih ih' =>
    have hlt := length_skip_cons ht
    omega
  | lastMember hs ht hu _ hw ih =>
    have hnamed := length_named hs ht hu
    have hlt := length_skip_cons hw
    omega
  | member hs ht hu _ hw _ ih ih' =>
    have hnamed := length_named hs ht hu
    have hlt := length_skip_cons hw
    omega

/-- The first byte of a value is not the end of an array. -/
theorem Reads.head {s rest : Bytes} {j : Json} (h : Reads s (.value j) rest) :
    ∃ b t, skip .blanks s = .ok (b :: t) ∧ b ≠ byte ']' := by
  cases h with
  | word hs hw ht =>
    obtain rfl := Bytes.without?_eq_some_iff.mp ht
    cases hw with
    | _ => exact ⟨_, _, hs, by decide⟩
  | number hs hn =>
    refine ⟨_, _, hs, ?_⟩
    rintro rfl
    exact absurd (head_of_readNumber hn).1 (by decide)
  | string hs | emptyArray hs | array hs | emptyObject hs | object hs => exact ⟨_, _, hs, by decide⟩

theorem head?_ne {s t : Bytes} {b c : UInt8} (hs : skip .blanks s = .ok (b :: t)) (hb : b ≠ c)
    (hblank : isBlank c = false) (hslash : c ≠ byte '/') : s.head? ≠ some c := by
  intro hc
  rw [eq_cons_of_head? hc, skip_token hblank hslash] at hs
  exact hb (List.cons.inj (Except.ok.inj hs)).1.symm

theorem Reads.items_head {s rest : Bytes} {js : List Json} (h : Reads s (.items js) rest) :
    s.head? ≠ some (byte ']') := by
  have hvalue : ∀ {j : Json} {t : Bytes}, Reads s (.value j) t → s.head? ≠ some (byte ']') := by
    intro j t hj
    obtain ⟨b, u, hs, hb⟩ := hj.head
    exact head?_ne hs hb (by decide) (by decide)
  cases h with
  | lastItem hs => exact hvalue hs
  | item hs => exact hvalue hs

theorem Reads.members_head {s rest : Bytes} {ms : List (Bytes × Json)}
    (h : Reads s (.members ms) rest) : s.head? ≠ some (byte '\x7d') := by
  cases h with
  | lastMember hs | member hs => exact head?_ne hs (by decide) (by decide) (by decide)

theorem depth_pos (j : Json) : 0 < j.depth := by
  cases j with
  | array | object => exact Nat.succ_pos _
  | _ => exact Nat.one_pos

section Completeness

variable {strict : Bool} {size room : Nat} {s t rest : Bytes}

theorem readValue_word {word : Bytes} {j : Json} (hs : skip .blanks s = .ok (word ++ rest))
    (hw : IsWord word j) : readValue strict (size + 1) (room + 1) s = .ok (j, rest) := by
  have hread : ofStep id (readWord word j (word ++ rest)) = .ok (j, rest) :=
    ofStep_eq_ok.mpr ⟨j, readWord_eq_ok.mpr ⟨Bytes.without?_eq_some_iff.mpr rfl, rfl⟩, rfl⟩
  cases hw with
  | true =>
    rw [show ascii "true" ++ rest = byte 't' :: (ascii "rue" ++ rest) from rfl] at hs hread
    simp +decide only [readValue, hs, if_false, if_true]
    exact hread
  | false =>
    rw [show ascii "false" ++ rest = byte 'f' :: (ascii "alse" ++ rest) from rfl] at hs hread
    simp +decide only [readValue, hs, if_false, if_true]
    exact hread
  | null =>
    rw [show ascii "null" ++ rest = byte 'n' :: (ascii "ull" ++ rest) from rfl] at hs hread
    simp +decide only [readValue, hs, if_false, if_true]
    exact hread

theorem readValue_number {b : UInt8} {n : Number} (hs : skip .blanks s = .ok (b :: t))
    (hn : readNumber (b :: t) = .ok (n, rest)) :
    readValue strict (size + 1) (room + 1) s = .ok (.number n, rest) := by
  have hb := (head_of_readNumber hn).1
  have hbrace : b ≠ byte '\x7b' := by
    rintro rfl
    exact absurd hb (by decide)
  have hbracket : b ≠ byte '[' := by
    rintro rfl
    exact absurd hb (by decide)
  have hquote : b ≠ byte '"' := by
    rintro rfl
    exact absurd hb (by decide)
  simp only [readValue, hs, hbrace, hbracket, hquote, hb, if_false, if_true]
  exact ofStep_eq_ok.mpr ⟨n, hn, rfl⟩

theorem readValue_string {value : Bytes} (hs : skip .blanks s = .ok (byte '"' :: t))
    (ht : Quoted t value rest) :
    readValue strict (size + 1) (room + 1) s = .ok (.string value, rest) := by
  simp +decide only [readValue, hs, if_false, if_true]
  exact ofStep_eq_ok.mpr ⟨value, readString_of_quoted ht (Nat.le_succ _), rfl⟩

theorem readValue_emptyArray (hs : skip .blanks s = .ok (byte '[' :: t))
    (ht : skip .blanks t = .ok (byte ']' :: rest)) :
    readValue strict (size + 1) (room + 1) s = .ok (.array [], rest) := by
  simp +decide only [readValue, hs, ht, if_false, if_true, List.head?_cons]
  rfl

theorem readValue_emptyObject (hs : skip .blanks s = .ok (byte '\x7b' :: t))
    (ht : skip .blanks t = .ok (byte '\x7d' :: rest)) :
    readValue strict (size + 1) (room + 1) s = .ok (.object [], rest) := by
  simp +decide only [readValue, hs, ht, if_true, List.head?_cons]
  rfl

theorem readValue_array {u : Bytes} {js : List Json} (hs : skip .blanks s = .ok (byte '[' :: t))
    (ht : skip .blanks t = .ok u) (hu : u.head? ≠ some (byte ']'))
    (hjs : readItems strict size room u = .ok (js, rest)) :
    readValue strict (size + 1) (room + 1) s = .ok (.array js, rest) := by
  simp +decide only [readValue, hs, ht, hu, hjs, if_false, if_true]

theorem readValue_object {u : Bytes} {ms : List (Bytes × Json)}
    (hs : skip .blanks s = .ok (byte '\x7b' :: t)) (ht : skip .blanks t = .ok u)
    (hu : u.head? ≠ some (byte '\x7d'))
    (hms : readMembers strict size room (if strict then some [] else none) u = .ok (ms, rest)) :
    readValue strict (size + 1) (room + 1) s = .ok (.object ms, rest) := by
  simp +decide only [readValue, hs, ht, hu, hms, if_false, if_true]

theorem readItems_last {j : Json} (hs : readValue strict size room s = .ok (j, t))
    (ht : skip .blanks t = .ok (byte ']' :: rest)) :
    readItems strict (size + 1) room s = .ok ([j], rest) := by
  simp only [readItems, hs, ht, if_true]

theorem readItems_cons {u : Bytes} {j : Json} {js : List Json}
    (hs : readValue strict size room s = .ok (j, t))
    (ht : skip .blanks t = .ok (byte ',' :: u))
    (hu : readItems strict size room u = .ok (js, rest)) :
    readItems strict (size + 1) room s = .ok (j :: js, rest) := by
  simp +decide only [readItems, hs, ht, hu, if_false, if_true]

variable {u v w x name : Bytes} {j : Json} {seen : Option (List Bytes)}

theorem readMembers_last (hs : skip .blanks s = .ok (byte '"' :: t)) (ht : Quoted t name u)
    (hu : skip .blanks u = .ok (byte ':' :: v)) (hnew : isNew name seen = true)
    (hv : readValue strict size room v = .ok (j, w))
    (hw : skip .blanks w = .ok (byte '\x7d' :: rest)) :
    readMembers strict (size + 1) room seen s = .ok ([(name, j)], rest) := by
  have hname := readString_of_quoted ht (Nat.le_succ _)
  simp +decide only [readMembers, hs, hname, hu, hnew, hv, hw, Bool.not_true, if_false,
    if_true]

theorem readMembers_cons {ms : List (Bytes × Json)} (hs : skip .blanks s = .ok (byte '"' :: t))
    (ht : Quoted t name u) (hu : skip .blanks u = .ok (byte ':' :: v))
    (hnew : isNew name seen = true) (hv : readValue strict size room v = .ok (j, w))
    (hw : skip .blanks w = .ok (byte ',' :: x))
    (hx : readMembers strict size room (seen.map (name :: ·)) x = .ok (ms, rest)) :
    readMembers strict (size + 1) room seen s = .ok ((name, j) :: ms, rest) := by
  have hname := readString_of_quoted ht (Nat.le_succ _)
  simp +decide only [readMembers, hs, hname, hu, hnew, hv, hw, hx, Bool.not_true, if_false,
    if_true]

end Completeness

theorem succ_of_value {s rest : Bytes} {j : Json} (h : Reads s (.value j) rest) {size room : Nat}
    (hsize : 2 * s.length ≤ size + 2 * rest.length) (hroom : j.depth ≤ room) :
    ∃ k l, size = k + 1 ∧ room = l + 1 := by
  have hlen := h.length
  have hdepth := depth_pos j
  exact ⟨size - 1, room - 1, by omega, by omega⟩

/-- What follows the grammar is read, if there is room and no name comes twice that must not. The
bound that is needed is twice the length of what is read. -/
theorem Reads.complete {strict : Bool} {s rest : Bytes} {p : Part} (h : Reads s p rest)
    {size room : Nat} {seen : Option (List Bytes)} (hsize : 2 * s.length ≤ size + 2 * rest.length)
    (hroom : p.depth ≤ room) (hseen : seen.isSome = strict)
    (hdistinct : strict = true → p.distinct = true) (hfresh : p.Fresh seen) :
    p.IsRead strict size room seen s rest := by
  induction h generalizing size room seen with
  | word hs hw ht =>
    obtain ⟨size, room, rfl, rfl⟩ := succ_of_value (.word hs hw ht) hsize hroom
    rw [Bytes.without?_eq_some_iff.mp ht] at hs
    exact readValue_word hs hw
  | number hs hn =>
    obtain ⟨size, room, rfl, rfl⟩ := succ_of_value (.number hs hn) hsize hroom
    exact readValue_number hs hn
  | string hs ht =>
    obtain ⟨size, room, rfl, rfl⟩ := succ_of_value (.string hs ht) hsize hroom
    exact readValue_string hs ht
  | emptyArray hs ht =>
    obtain ⟨size, room, rfl, rfl⟩ := succ_of_value (.emptyArray hs ht) hsize hroom
    exact readValue_emptyArray hs ht
  | emptyObject hs ht =>
    obtain ⟨size, room, rfl, rfl⟩ := succ_of_value (.emptyObject hs ht) hsize hroom
    exact readValue_emptyObject hs ht
  | array hs ht hu ih =>
    obtain ⟨size, room, rfl, rfl⟩ := succ_of_value (.array hs ht hu) hsize hroom
    have hlt := length_opened hs ht
    exact readValue_array hs ht hu.items_head
      (ih (by omega) (Nat.le_of_succ_le_succ hroom) hseen hdistinct trivial)
  | object hs ht hu ih =>
    obtain ⟨size, room, rfl, rfl⟩ := succ_of_value (.object hs ht hu) hsize hroom
    have hlt := length_opened hs ht
    exact readValue_object hs ht hu.members_head (ih (by omega) (Nat.le_of_succ_le_succ hroom)
      (isSome_unseen strict) hdistinct (Part.fresh_unseen strict _))
  | lastItem hs ht ih =>
    have hlen := (Reads.lastItem hs ht).length
    have hlt := length_skip_cons ht
    obtain ⟨size, rfl⟩ : ∃ k, size = k + 1 := ⟨size - 1, by omega⟩
    have hroom' := Nat.le_trans (Nat.le_max_left _ _) hroom
    refine readItems_last (ih (by omega) hroom' hseen ?_ trivial)
      ht
    exact fun h => (Bool.and_eq_true_iff.mp (hdistinct h)).1
  | item hs ht hu ih ih' =>
    have hlen := hs.length
    have hlen' := hu.length
    have hlt := length_skip_cons ht
    obtain ⟨size, rfl⟩ : ∃ k, size = k + 1 := ⟨size - 1, by omega⟩
    obtain ⟨hroom, hroom'⟩ := Nat.max_le.mp hroom
    exact readItems_cons
      (ih (by omega) hroom hseen (fun h => (Bool.and_eq_true_iff.mp (hdistinct h)).1) trivial) ht
      (ih' (by omega) hroom' hseen (fun h => (Bool.and_eq_true_iff.mp (hdistinct h)).2) trivial)
  | @lastMember s t u v w rest name j hs ht hu hv hw ih =>
    have hlen := hv.length
    have hnamed := length_named hs ht hu
    have hlt := length_skip_cons hw
    obtain ⟨size, rfl⟩ : ∃ k, size = k + 1 := ⟨size - 1, by omega⟩
    refine readMembers_last hs ht hu hfresh.isNew_name
      (ih (by omega) (Nat.le_trans (Nat.le_max_left _ _) hroom) hseen (fun h => ?_) trivial) hw
    exact (distinctMembers_cons.mp (hdistinct h)).2.1
  | @member s t u v w x rest name j ms hs ht hu hv hw hx ih ih' =>
    have hlen := hv.length
    have hlen' := hx.length
    have hnamed := length_named hs ht hu
    have hlt := length_skip_cons hw
    obtain ⟨size, rfl⟩ : ∃ k, size = k + 1 := ⟨size - 1, by omega⟩
    obtain ⟨hroom, hroom'⟩ := Nat.max_le.mp hroom
    refine readMembers_cons hs ht hu hfresh.isNew_name
      (ih (by omega) hroom hseen (fun h => (distinctMembers_cons.mp (hdistinct h)).2.1) trivial) hw
      (ih' (by omega) hroom' (by rw [Option.isSome_map, hseen])
        (fun h => (distinctMembers_cons.mp (hdistinct h)).2.2) (hfresh.later fun h => ?_))
    exact (distinctMembers_cons.mp (hdistinct (hseen.symm.trans h))).1

/-! ## Documents -/

/-- A text has one meaning. -/
theorem IsTextOf.unique {text : Bytes} {j k : Json} (hj : IsTextOf text j) (hk : IsTextOf text k) :
    j = k := by
  obtain ⟨_, hj, _⟩ := hj
  obtain ⟨_, hk, _⟩ := hk
  have hread : ∀ {i : Json} {rest : Bytes}, Reads text (.value i) rest →
      i.depth ≤ max j.depth k.depth →
      readValue false (2 * text.length) (max j.depth k.depth) text = .ok (i, rest) :=
    fun hi hroom =>
      hi.complete (Nat.le_add_right _ _) hroom (isSome_unseen false) nofun trivial
  have hsame := (hread hj (Nat.le_max_left _ _)).symm.trans (hread hk (Nat.le_max_right _ _))
  exact congrArg Prod.fst (Except.ok.inj hsame)

theorem readText_eq_ok {strict : Bool} {text : Bytes} {j : Json} :
    readText strict text = .ok j ↔
      IsTextOf text j ∧ j.depth ≤ maxDepth ∧ (strict = true → j.distinctNames = true) := by
  have hseen := isSome_unseen strict
  constructor
  · intro h
    unfold readText at h
    split at h
    · cases h
    · rename_i value rest hread
      split at h
      · cases h
      · rename_i hrest
        cases h
        obtain ⟨hreads, hdepth, hdistinct, _⟩ := sound strict _ (p := .value j) hread hseen
        exact ⟨⟨rest, hreads, hrest⟩, hdepth, hdistinct⟩
      · cases h
  · rintro ⟨⟨rest, hreads, hrest⟩, hdepth, hdistinct⟩
    have hread : readValue strict (2 * text.length + 2) maxDepth text = .ok (j, rest) :=
      hreads.complete (by omega) hdepth hseen hdistinct trivial
    simp only [readText, hread, hrest]

end TargetDiscovery.Json
