import Mathlib.Data.List.TakeWhile
import TargetDiscovery.Base64
import TargetDiscovery.Proofs.Base64.Bits
import TargetDiscovery.Proofs.Words

/-!
# What the block decoder reads

Every character of the alphabet stands for six bits, and a text stands for the whole bytes in the
row of its bits; padding counts as zero bits wherever it stands. What frames a text is dropped: the
blanks in front of it, and the blanks, line ends and hyphens behind it. As long as the length of a
text is a signed word of 32 bits, all of the text is read.
-/

set_option autoImplicit false

namespace TargetDiscovery.Base64

/-! ## The alphabet -/

/-- The characters that stand for the numbers below 64, in their order. -/
def alphabet : Bytes :=
  ascii "ABCDEFGHIJKLMNOPQRSTUVWXYZabcdefghijklmnopqrstuvwxyz0123456789+/"

def character (n : Nat) : UInt8 := alphabet[n]?.getD 0

/-- The place of a character in the alphabet; the padding character counts as zero. -/
def weight (b : UInt8) : Nat := if b = byte '=' then 0 else alphabet.idxOf b

def IsCode (b : UInt8) : Prop := b ∈ alphabet ∨ b = byte '='

theorem alphabet_eq : alphabet =
    ((List.range' 65 26 ++ List.range' 97 26) ++ (List.range' 48 10 ++ [43, 47])).map
      Nat.toUInt8 := by decide +kernel

theorem length_alphabet : alphabet.length = 64 := by
  rw [alphabet_eq]
  rfl

theorem pad_not_mem : byte '=' ∉ alphabet := by
  rw [alphabet_eq]
  decide

theorem character_eq {n : Nat} (h : n < alphabet.length) : character n = alphabet[n] := by
  rw [character, List.getElem?_eq_getElem h, Option.getD_some]

theorem character_mem {n : Nat} (h : n < 64) : character n ∈ alphabet := by
  rw [← length_alphabet] at h
  rw [character_eq h]
  exact List.getElem_mem h

theorem sextet?_character {n : Nat} (h : n < 64) : sextet? (character n) = some n := by
  have hall : ∀ k : Fin 64, sextet? (character k) = some k.val := by
    simp only [character, alphabet_eq]
    decide +kernel
  exact hall ⟨n, h⟩

theorem isCode_of_sextet? {b : UInt8} (h : (sextet? b).isSome = true) : IsCode b := by
  have hall : ∀ k : Fin 256, (sextet? (UInt8.ofFin k)).isSome = true →
      UInt8.ofFin k ∈ alphabet ∨ UInt8.ofFin k = byte '=' := by
    rw [alphabet_eq]
    decide +kernel
  exact hall b.toFin h

theorem sextet?_of_isCode {b : UInt8} (h : IsCode b) : sextet? b = some (weight b) := by
  rw [weight]
  split
  · rename_i hpad
    rw [hpad]
    rfl
  · rename_i hpad
    have hplace : alphabet.idxOf b < alphabet.length :=
      List.idxOf_lt_length_of_mem (h.resolve_right hpad)
    have hb : character (alphabet.idxOf b) = b := by
      rw [character_eq hplace, List.getElem_idxOf]
    rw [← hb, sextet?_character (length_alphabet ▸ hplace), hb]

theorem sextet?_eq_some_iff {b : UInt8} {n : Nat} :
    sextet? b = some n ↔ IsCode b ∧ n = weight b := by
  constructor
  · intro h
    have hcode : IsCode b := isCode_of_sextet? (by rw [h]; rfl)
    rw [sextet?_of_isCode hcode, Option.some.injEq] at h
    exact ⟨hcode, h.symm⟩
  · rintro ⟨hcode, rfl⟩
    exact sextet?_of_isCode hcode

theorem weight_lt {b : UInt8} (h : IsCode b) : weight b < 64 := by
  rw [weight]
  split
  · decide
  · rename_i hpad
    rw [← length_alphabet]
    exact List.idxOf_lt_length_of_mem (h.resolve_right hpad)

theorem weight_character {n : Nat} (h : n < 64) : weight (character n) = n := by
  have hweight := sextet?_of_isCode (.inl (character_mem h))
  rw [sextet?_character h, Option.some.injEq] at hweight
  exact hweight.symm

theorem not_trailer_of_mem : ∀ b ∈ alphabet, isTrailer b = false := by
  rw [alphabet_eq]
  decide +kernel

theorem IsCode.not_trailer {b : UInt8} (h : IsCode b) : isTrailer b = false := by
  rcases h with hmem | rfl
  · exact not_trailer_of_mem b hmem
  · rfl

/-! ## Groups of four -/

/-- The bits of a text, six for each of its characters. -/
def bits (s : Bytes) : List Bool := s.flatMap fun b => Bits.row 6 (weight b)

theorem length_bits (s : Bytes) : (bits s).length = 6 * s.length := by
  induction s with
  | nil => rfl
  | cons b s ih =>
    rw [bits, List.flatMap_cons, List.length_append, Bits.length_row, ← bits, ih, List.length_cons]
    omega

theorem bits_append (s t : Bytes) : bits (s ++ t) = bits s ++ bits t := List.flatMap_append

theorem length_octets_bits {s : Bytes} (h : 4 ∣ s.length) :
    (Bits.octets (bits s)).length = s.length / 4 * 3 := by
  rw [Bits.length_octets, length_bits]
  omega

theorem octets_four {w x y z : Nat} (hw : w < 64) (hx : x < 64) (hy : y < 64) (hz : z < 64)
    (rest : List Bool) :
    Bits.octets (Bits.row 6 w ++ (Bits.row 6 x ++ (Bits.row 6 y ++ (Bits.row 6 z ++ rest)))) =
      triple w x y z ++ Bits.octets rest := by
  have hrow := Bits.row_four (w := w) hx hy hz
  have hlt : ((w * 64 + x) * 64 + y) * 64 + z < 2 ^ 24 := by omega
  have hthree := Bits.octets_three hlt rest
  rw [← hrow, List.append_assoc, List.append_assoc, List.append_assoc] at hthree
  exact hthree

/-- Groups are read exactly from characters that come in fours, as the bytes in their bits. -/
theorem groups?_eq_some_iff {s v : Bytes} :
    groups? s = some v ↔ 4 ∣ s.length ∧ (∀ b ∈ s, IsCode b) ∧ v = Bits.octets (bits s) := by
  induction s using groups?.induct generalizing v with
  | case1 =>
    rw [groups?, Option.some.injEq, eq_comm]
    exact ⟨fun h => ⟨Nat.dvd_zero 4, nofun, h⟩, fun h => h.2.2⟩
  | case2 a b c d rest w x y z hz hy hx hw ih =>
    obtain ⟨ha, rfl⟩ := sextet?_eq_some_iff.mp hw
    obtain ⟨hb, rfl⟩ := sextet?_eq_some_iff.mp hx
    obtain ⟨hc, rfl⟩ := sextet?_eq_some_iff.mp hy
    obtain ⟨hd, rfl⟩ := sextet?_eq_some_iff.mp hz
    have hbits : Bits.octets (bits (a :: b :: c :: d :: rest)) =
        triple (weight a) (weight b) (weight c) (weight d) ++ Bits.octets (bits rest) :=
      octets_four (weight_lt ha) (weight_lt hb) (weight_lt hc) (weight_lt hd) (bits rest)
    have hlength : 4 ∣ (a :: b :: c :: d :: rest).length ↔ 4 ∣ rest.length := by
      simp only [List.length_cons]
      omega
    simp only [groups?, hw, hx, hy, hz, Option.map_eq_some_iff, ih, hlength, List.forall_mem_cons,
      ha, hb, hc, hd, true_and, hbits]
    constructor
    · rintro ⟨u, ⟨hdvd, hcodes, rfl⟩, rfl⟩
      exact ⟨hdvd, hcodes, rfl⟩
    · rintro ⟨hdvd, hcodes, rfl⟩
      exact ⟨_, ⟨hdvd, hcodes, rfl⟩, rfl⟩
  | case3 a b c d rest hnone =>
    have hfail : groups? (a :: b :: c :: d :: rest) = none := by
      rw [groups?]
      split
      · rename_i w x y z hw hx hy hz
        exact absurd hz (hnone w x y z hw hx hy)
      · rfl
    simp only [hfail, reduceCtorEq, List.forall_mem_cons, false_iff]
    rintro ⟨-, ⟨ha, hb, hc, hd, -⟩, -⟩
    exact hnone _ _ _ _ (sextet?_eq_some_iff.mpr ⟨ha, rfl⟩) (sextet?_eq_some_iff.mpr ⟨hb, rfl⟩)
      (sextet?_eq_some_iff.mpr ⟨hc, rfl⟩) (sextet?_eq_some_iff.mpr ⟨hd, rfl⟩)
  | case4 s hne hshort =>
    match s with
    | [] => exact absurd rfl hne
    | [_] => simp [groups?]
    | [_, _] => simp [groups?]
    | [_, _, _] => simp [groups?]
    | a :: b :: c :: d :: rest => exact absurd rfl (hshort a b c d rest)

/-! ## The frame of a text -/

/-- What the decoder reads of a text: blanks in front of it are dropped, and blanks, line ends and
hyphens behind it, unless there is nothing else. -/
def Frames (s core : Bytes) : Prop :=
  ∃ lead trail, s = lead ++ (core ++ trail) ∧ (∀ b ∈ lead, isBlank b = true) ∧
    (∀ b ∈ trail, isTrailer b = true) ∧ (core = [] → trail = [])

theorem isTrailer_of_isBlank {b : UInt8} (h : isBlank b = true) : isTrailer b = true := by
  rw [isTrailer, h]
  rfl

theorem dropTrailers_eq_nil {s : Bytes} (h : dropTrailers s = []) : s = [] := by
  induction s with
  | nil => rfl
  | cons b s ih =>
    rw [dropTrailers] at h
    split at h
    · rename_i hdrop
      rw [ih h] at hdrop
      exact absurd hdrop (by simp)
    · cases h

theorem exists_dropped (s : Bytes) :
    ∃ trail, s = trail ++ dropTrailers s ∧ ∀ b ∈ trail, isTrailer b = true := by
  induction s with
  | nil => exact ⟨[], rfl, nofun⟩
  | cons b s ih =>
    rw [dropTrailers]
    split
    · rename_i hdrop
      obtain ⟨trail, hs, htrail⟩ := ih
      refine ⟨b :: trail, congrArg (b :: ·) hs, List.forall_mem_cons.mpr ⟨?_, htrail⟩⟩
      exact (Bool.and_eq_true_iff.mp hdrop).2
    · exact ⟨[], rfl, nofun⟩

theorem dropTrailers_append {trail rest : Bytes} (htrail : ∀ b ∈ trail, isTrailer b = true)
    (hrest : 3 ≤ rest.length) : dropTrailers (trail ++ rest) = dropTrailers rest := by
  induction trail with
  | nil => rfl
  | cons b trail ih =>
    obtain ⟨hb, htrail⟩ := List.forall_mem_cons.mp htrail
    have hlength : 3 ≤ (trail ++ rest).length := by
      rw [List.length_append]
      omega
    rw [List.cons_append, dropTrailers, hb, decide_eq_true hlength, Bool.and_true, if_pos rfl,
      ih htrail]

theorem frames_trim (s : Bytes) : Frames s (trim s) := by
  obtain ⟨trail, hs, htrail⟩ := exists_dropped (s.dropWhile isBlank).reverse
  have hcut : s.dropWhile isBlank = trim s ++ trail.reverse := by
    rw [trim, ← List.reverse_append, ← hs, List.reverse_reverse]
  refine ⟨s.takeWhile isBlank, trail.reverse, ?_, ?_, ?_, fun hnil => ?_⟩
  · rw [← hcut, List.takeWhile_append_dropWhile]
  · exact fun b hb => List.mem_takeWhile_imp hb
  · exact fun b hb => htrail b (List.mem_reverse.mp hb)
  · have hall := dropTrailers_eq_nil (List.reverse_eq_nil_iff.mp hnil)
    rw [hall] at hs
    rw [(List.append_eq_nil_iff.mp hs.symm).1, List.reverse_nil]

/-- A frame is dropped to the last character of it, since no code is a character of a frame. -/
theorem trim_eq_of_frames {s core : Bytes} (h : Frames s core) (hdvd : 4 ∣ core.length)
    (hcodes : ∀ b ∈ core, IsCode b) : trim s = core := by
  obtain ⟨lead, trail, rfl, hlead, htrail, hnil⟩ := h
  have hfront : (lead ++ (core ++ trail)).dropWhile isBlank = core ++ trail := by
    rw [List.dropWhile_append_of_pos hlead]
    cases core with
    | nil => rw [hnil rfl]; rfl
    | cons b core =>
      have hb : isBlank b = false := by
        rw [Bool.eq_false_iff]
        intro hblank
        have htrailer := (hcodes b List.mem_cons_self).not_trailer
        rw [isTrailer_of_isBlank hblank] at htrailer
        cases htrailer
      rw [List.cons_append, List.dropWhile_cons_of_neg (by rw [hb]; decide)]
  rw [trim, hfront, List.reverse_append]
  rcases List.eq_nil_or_concat' core with rfl | ⟨body, last, rfl⟩
  · rw [hnil rfl]
    rfl
  · have hlong : 3 ≤ (body ++ [last]).reverse.length := by
      rw [List.length_append, List.length_singleton] at hdvd
      rw [List.length_reverse, List.length_append, List.length_singleton]
      omega
    have hlast : isTrailer last = false :=
      (hcodes last (List.mem_append_right _ List.mem_cons_self)).not_trailer
    have htrail' : ∀ b ∈ trail.reverse, isTrailer b = true := fun b hb =>
      htrail b (List.mem_reverse.mp hb)
    rw [dropTrailers_append htrail' hlong, List.reverse_append, List.reverse_singleton,
      List.singleton_append, dropTrailers, if_neg (by simp [hlast]), List.reverse_cons,
      List.reverse_reverse]

/-! ## Reading all of a text -/

section

variable {s v : Bytes}

theorem block?_eq (h : s.length < 2 ^ 31) : block? s = groups? (trim s) := by
  have hread : (Bytes.intLength s).toNat = s.length := by
    rw [Bytes.intLength_of_lt h, Int.toNat_natCast]
  have hpos : ¬ Bytes.intLength s < 0 := by
    rw [Bytes.intLength_of_lt h]
    omega
  rw [block?, if_neg hpos, hread, List.take_length]

theorem block?_eq_some_iff (h : s.length < 2 ^ 31) :
    block? s = some v ↔ ∃ core, Frames s core ∧ 4 ∣ core.length ∧ (∀ b ∈ core, IsCode b) ∧
      v = Bits.octets (bits core) := by
  rw [block?_eq h, groups?_eq_some_iff]
  constructor
  · exact fun h => ⟨trim s, frames_trim s, h⟩
  · rintro ⟨core, hframes, hdvd, hcodes, hv⟩
    rw [trim_eq_of_frames hframes hdvd hcodes]
    exact ⟨hdvd, hcodes, hv⟩

end

end TargetDiscovery.Base64
