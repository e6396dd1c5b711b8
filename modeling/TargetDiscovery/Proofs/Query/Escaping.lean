import Mathlib.Data.List.Forall2
import TargetDiscovery.Proofs.Query.Escapes

/-!
# Escaping

A byte is written as itself, as `%` with the two hexadecimal digits of its value, or as `+` if it is
a space; only a `+` and a `%` cannot stand for themselves. Decoding is the inverse of writing: it
gives the bytes that a text writes, one for each of its pieces, and it fails exactly where some `%`
that begins a piece is not followed by two digits.
-/

set_option autoImplicit false

namespace TargetDiscovery.Escape

/-! ## Writing -/

def smallDigits : Bytes := ascii "0123456789abcdef"

def capitalDigits : Bytes := ascii "0123456789ABCDEF"

/-- A digit is worth its place in one of the two rows of digits. -/
def Worth (digit : UInt8) (n : Nat) : Prop :=
  smallDigits[n]? = some digit ∨ capitalDigits[n]? = some digit

/-- A piece of text that writes one byte. -/
inductive Writes : Bytes → UInt8 → Prop
  | plain {b : UInt8} (hplus : b ≠ byte '+') (hpercent : b ≠ byte '%') : Writes [b] b
  | space : Writes [byte '+'] (byte ' ')
  | escape {hi lo b : UInt8} {m n : Nat} (hhi : Worth hi m) (hlo : Worth lo n)
      (hvalue : b.toNat = m * 16 + n) : Writes [byte '%', hi, lo] b

/-- A text is made of pieces that write bytes, one for each byte and in their order. -/
def Spells (text bytes : Bytes) : Prop :=
  ∃ pieces, text = pieces.flatten ∧ List.Forall₂ Writes pieces bytes

/-- Behind some pieces there is a `%` without two digits. -/
def Breaks (text : Bytes) : Prop :=
  ∃ front rest bytes, text = front ++ byte '%' :: rest ∧ Spells front bytes ∧
    ∀ hi lo more, rest = hi :: lo :: more → ∀ m n, Worth hi m → ¬ Worth lo n

/-- What a text that may have escapes stands for: the bytes that it writes, and nothing exactly if
it writes none, which is to say that it breaks. -/
structure Inverts (text : Bytes) (result : Option Bytes) : Prop where
  gives : ∀ bytes, result = some bytes ↔ Spells text bytes
  fails : result = none ↔ ∀ bytes, ¬ Spells text bytes
  breaks : result = none ↔ Breaks text

def digit (n : Nat) : UInt8 := capitalDigits.getD n 0

/-- The escape of a byte; one that is `plain` stands for itself where it can, a space is a `+`. -/
def write (plain : UInt8 → Bool) (b : UInt8) : Bytes :=
  if b = byte ' ' then [byte '+']
  else if plain b && b != byte '+' && b != byte '%' then [b]
  else [byte '%', digit (b.toNat / 16), digit (b.toNat % 16)]

/-! ## Digits -/

theorem worth_of_hexValue {b : UInt8} {n : Nat} (h : Bytes.hexValue b = some n) : Worth b n := by
  have hall : ∀ k : Fin 256, ∀ n ∈ Bytes.hexValue (UInt8.ofFin k),
      smallDigits[n]? = some (UInt8.ofFin k) ∨ capitalDigits[n]? = some (UInt8.ofFin k) := by
    decide +kernel
  exact hall b.toFin n h

theorem Worth.lt {b : UInt8} {n : Nat} (h : Worth b n) : n < 16 := by
  rcases h with h | h
  · exact (List.getElem?_eq_some_iff.mp h).1
  · exact (List.getElem?_eq_some_iff.mp h).1

theorem Worth.hexValue {b : UInt8} {n : Nat} (h : Worth b n) : Bytes.hexValue b = some n := by
  have hsmall : ∀ k : Fin 16, smallDigits[k.val]?.bind Bytes.hexValue = some k.val := by decide
  have hcapital : ∀ k : Fin 16, capitalDigits[k.val]?.bind Bytes.hexValue = some k.val := by decide
  have hn := h.lt
  rcases h with h | h
  · simpa only [h, Option.bind_some] using hsmall ⟨n, hn⟩
  · simpa only [h, Option.bind_some] using hcapital ⟨n, hn⟩

theorem worth_digit {n : Nat} (h : n < 16) : Worth (digit n) n := by
  refine .inr ?_
  rw [digit, List.getD_eq_getElem?_getD]
  have hlength : n < capitalDigits.length := h
  rw [List.getElem?_eq_getElem hlength, Option.getD_some]

theorem toNat_ofDigits {b : UInt8} {m n : Nat} (h : b.toNat = m * 16 + n) :
    (m * 16 + n).toUInt8 = b := by
  rw [← h]
  exact UInt8.ofNat_toNat

/-! ## Pieces -/

theorem Spells.nil : Spells [] [] := ⟨[], rfl, .nil⟩

theorem Spells.cons {piece text bytes : Bytes} {b : UInt8} (hpiece : Writes piece b)
    (h : Spells text bytes) : Spells (piece ++ text) (b :: bytes) := by
  obtain ⟨pieces, rfl, hpieces⟩ := h
  exact ⟨piece :: pieces, rfl, .cons hpiece hpieces⟩

theorem Breaks.cons {piece text : Bytes} {b : UInt8} (hpiece : Writes piece b) (h : Breaks text) :
    Breaks (piece ++ text) := by
  obtain ⟨front, rest, bytes, rfl, hfront, hrest⟩ := h
  exact ⟨piece ++ front, rest, b :: bytes, by simp, hfront.cons hpiece, hrest⟩

theorem Writes.reads {piece text bytes : Bytes} {b : UInt8} (hpiece : Writes piece b)
    (h : Reads text bytes) : Reads (piece ++ text) (b :: bytes) := by
  cases hpiece with
  | plain hplus hpercent => exact .plain hplus hpercent h
  | space => exact .space h
  | escape hhi hlo hvalue =>
    rw [← toNat_ofDigits hvalue]
    exact .escape hhi.hexValue hlo.hexValue h

theorem writes_escape {hi lo : UInt8} {m n : Nat} (hhi : Bytes.hexValue hi = some m)
    (hlo : Bytes.hexValue lo = some n) : Writes [byte '%', hi, lo] (m * 16 + n).toUInt8 := by
  have hm := worth_of_hexValue hhi
  have hn := worth_of_hexValue hlo
  have hmlt := hm.lt
  have hnlt := hn.lt
  refine .escape hm hn ?_
  exact Nat.mod_eq_of_lt (by omega)

theorem spells_iff {text bytes : Bytes} : Spells text bytes ↔ Reads text bytes := by
  constructor
  · rintro ⟨pieces, rfl, hpieces⟩
    induction hpieces with
    | nil => exact .nil
    | cons hpiece _ ih => exact hpiece.reads ih
  · intro h
    induction h with
    | nil => exact .nil
    | space _ ih => exact ih.cons .space
    | escape hhi hlo _ ih => exact ih.cons (writes_escape hhi hlo)
    | plain hplus hpercent _ ih => exact ih.cons (.plain hplus hpercent)

/-! ## Texts that break -/

theorem Reads.decode_append {front bytes : Bytes} (h : Reads front bytes) (rest : Bytes) :
    Escape.decode (front ++ rest) = (Escape.decode rest).map (bytes ++ ·) := by
  induction h with
  | nil => simp
  | space _ ih =>
    rw [List.cons_append, decode_space, ih, Option.map_map]
    rfl
  | escape hhi hlo _ ih =>
    rw [List.cons_append, List.cons_append, List.cons_append, decode_escape, hhi, hlo, ih]
    exact Option.map_map _ _ _
  | plain hplus hpercent _ ih =>
    rw [List.cons_append, decode_plain hplus hpercent, ih, Option.map_map]
    rfl

theorem decode_percent {rest : Bytes}
    (h : ∀ hi lo more, rest = hi :: lo :: more → ∀ m n, Worth hi m → ¬ Worth lo n) :
    decode (byte '%' :: rest) = none := by
  match rest with
  | [] => rfl
  | [_] => rfl
  | hi :: lo :: more =>
    rw [decode_escape]
    split
    · rename_i m n hhi hlo
      exact absurd (worth_of_hexValue hlo) (h hi lo more rfl m n (worth_of_hexValue hhi))
    · rfl

theorem Breaks.decode {text : Bytes} (h : Breaks text) : Escape.decode text = none := by
  obtain ⟨front, rest, bytes, rfl, hfront, hrest⟩ := h
  rw [(spells_iff.mp hfront).decode_append, decode_percent hrest]
  rfl

theorem breaks_of_decode (text : Bytes) (h : decode text = none) : Breaks text := by
  -- The recursion of decoding takes one piece off the text at a time and stops at one that breaks.
  induction text using decode.induct with
  | case1 => cases h
  | case2 hi lo rest ih =>
    rw [decode_space, Option.map_eq_none_iff] at h
    exact (ih h).cons .space
  | case3 hi lo rest m n hlo hhi hne ih =>
    rw [decode_escape, hhi, hlo, Option.map_eq_none_iff] at h
    exact (ih h).cons (writes_escape hhi hlo)
  | case4 hi lo rest hdigits =>
    refine ⟨[], hi :: lo :: rest, [], rfl, .nil, ?_⟩
    rintro hi lo more ⟨⟩ m n hhi hlo
    exact hdigits m n hhi.hexValue hlo.hexValue
  | case5 b hi lo rest hplus hpercent ih =>
    rw [decode_plain hplus hpercent, Option.map_eq_none_iff] at h
    exact (ih h).cons (.plain hplus hpercent)
  | case6 rest hshort ih =>
    rw [decode_space, Option.map_eq_none_iff] at h
    exact (ih h).cons .space
  | case7 rest hshort hne =>
    refine ⟨[], rest, [], rfl, .nil, ?_⟩
    intro hi lo more hrest
    exact (hshort hi lo more hrest).elim
  | case8 b rest hshort hplus hpercent ih =>
    rw [decode_plain hplus hpercent, Option.map_eq_none_iff] at h
    exact (ih h).cons (.plain hplus hpercent)

/-! ## Decoding what is written -/

theorem writes_write (plain : UInt8 → Bool) (b : UInt8) : Writes (write plain b) b := by
  rw [write]
  split
  · rename_i hspace
    rw [hspace]
    exact .space
  · split
    · rename_i hplain
      simp only [Bool.and_eq_true, bne_iff_ne] at hplain
      exact .plain hplain.1.2 hplain.2
    · have hlt := b.toNat_lt
      exact .escape (worth_digit (by omega)) (worth_digit (by omega)) (by omega)

theorem spells_flatMap_write (plain : UInt8 → Bool) (bytes : Bytes) :
    Spells (bytes.flatMap (write plain)) bytes := by
  induction bytes with
  | nil => exact .nil
  | cons b bytes ih =>
    rw [List.flatMap_cons]
    exact ih.cons (writes_write plain b)

theorem inverts_decode (text : Bytes) : Inverts text (decode text) := by
  constructor
  case gives =>
    intro bytes
    rw [decode_eq_some_iff, spells_iff]
  case fails =>
    rw [decode_eq_none_iff]
    exact forall_congr' fun bytes => not_congr spells_iff.symm
  case breaks => exact ⟨breaks_of_decode text, Breaks.decode⟩

/-- Decoding inverts every way of writing bytes, and every byte string is written in some way: in
particular with any set of bytes that stand for themselves where they can. -/
theorem decode_inverse :
    (∀ text, Inverts text (decode text)) ∧
      ∀ plain bytes, Spells (bytes.flatMap (write plain)) bytes ∧
        decode (bytes.flatMap (write plain)) = some bytes := by
  refine ⟨inverts_decode, fun plain bytes => ?_⟩
  have hspells := spells_flatMap_write plain bytes
  exact ⟨hspells, ((inverts_decode _).gives bytes).mpr hspells⟩

/-- Zero bytes, `%`, `+` and bytes above 127 are written by escapes. -/
example : ([0, 37, 43, 32, 255, 97] : Bytes).flatMap (write Bytes.isAlphanumeric) =
    ascii "%00%25%2B+%FFa" := by decide +kernel

end TargetDiscovery.Escape
