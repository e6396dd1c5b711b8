import TargetDiscovery.Proofs.Base64.Decoding

/-!
# Encoding

Three bytes are written as four characters of the alphabet, and one or two bytes at the end as two
or three characters, whose last bits are zero; padding fills the last four up. What is written so is
a strict text, and it is decoded as the bytes that were written.
-/

set_option autoImplicit false

namespace TargetDiscovery.Base64

def characters : Bytes → Bytes
  | [] => []
  | [a] => [character (a.toNat / 4), character (a.toNat % 4 * 16)]
  | [a, b] =>
    [character (a.toNat / 4), character (a.toNat % 4 * 16 + b.toNat / 16),
      character (b.toNat % 16 * 4)]
  | a :: b :: c :: rest =>
    character (a.toNat / 4) :: character (a.toNat % 4 * 16 + b.toNat / 16) ::
      character (b.toNat % 16 * 4 + c.toNat / 64) :: character (c.toNat % 64) :: characters rest

/-- How many bytes the last group of three is short of. -/
def missing (s : Bytes) : Nat := (3 - s.length % 3) % 3

def encode (s : Bytes) : Bytes := characters s ++ List.replicate (missing s) (byte '=')

theorem characters_mem (s : Bytes) : ∀ b ∈ characters s, b ∈ alphabet := by
  induction s using characters.induct with
  | case1 => nofun
  | case2 a =>
    have ha := a.toNat_lt
    simp only [characters, List.forall_mem_cons]
    exact ⟨character_mem (by omega), character_mem (by omega), nofun⟩
  | case3 a b =>
    have ha := a.toNat_lt
    have hb := b.toNat_lt
    simp only [characters, List.forall_mem_cons]
    exact ⟨character_mem (by omega), character_mem (by omega), character_mem (by omega), nofun⟩
  | case4 a b c rest ih =>
    have ha := a.toNat_lt
    have hb := b.toNat_lt
    have hc := c.toNat_lt
    simp only [characters, List.forall_mem_cons]
    exact ⟨character_mem (by omega), character_mem (by omega), character_mem (by omega),
      character_mem (by omega), ih⟩

theorem length_characters (s : Bytes) :
    (characters s).length = s.length + (s.length + 2) / 3 := by
  induction s using characters.induct with
  | case1 => rfl
  | case2 a => simp [characters]
  | case3 a b => simp [characters]
  | case4 a b c rest ih =>
    simp only [characters, List.length_cons, ih]
    omega

/-- The bits of the characters are those of the bytes, and zeros behind them. -/
theorem bits_characters (s : Bytes) : bits (characters s) =
    (s.flatMap fun b => Bits.row 8 b.toNat) ++ List.replicate (2 * missing s) false := by
  induction s using characters.induct with
  | case1 => rfl
  | case2 a =>
    have ha := a.toNat_lt
    have hbits : bits (characters [a]) =
        Bits.row 6 (a.toNat / 4) ++ Bits.row 6 (a.toNat % 4 * 16) := by
      simp only [characters, bits, List.flatMap_cons, List.flatMap_nil, List.append_nil]
      rw [weight_character (by omega), weight_character (by omega)]
    have hzeros : List.replicate (2 * missing [a]) false = Bits.row 4 0 := rfl
    rw [hbits, hzeros, List.flatMap_singleton, Bits.row_append 6 _ (by omega),
      Bits.row_append 8 _ (by decide)]
    congr 1
    omega
  | case3 a b =>
    have ha := a.toNat_lt
    have hb := b.toNat_lt
    have hbits : bits (characters [a, b]) = Bits.row 6 (a.toNat / 4) ++
        (Bits.row 6 (a.toNat % 4 * 16 + b.toNat / 16) ++ Bits.row 6 (b.toNat % 16 * 4)) := by
      simp only [characters, bits, List.flatMap_cons, List.flatMap_nil, List.append_nil]
      rw [weight_character (by omega), weight_character (by omega), weight_character (by omega)]
    have hzeros : List.replicate (2 * missing [a, b]) false = Bits.row 2 0 := rfl
    rw [hbits, hzeros, List.flatMap_cons, List.flatMap_singleton, ← List.append_assoc,
      Bits.row_append 6 _ (by omega), Bits.row_append 12 _ (by omega), Bits.row_append 8 _ hb,
      Bits.row_append 16 _ (by decide)]
    congr 1
    omega
  | case4 a b c rest ih =>
    have ha := a.toNat_lt
    have hb := b.toNat_lt
    have hc := c.toNat_lt
    have hmissing : missing (a :: b :: c :: rest) = missing rest := by
      simp only [missing, List.length_cons]
      omega
    have hfour : Bits.row 6 (a.toNat / 4) ++ (Bits.row 6 (a.toNat % 4 * 16 + b.toNat / 16) ++
        (Bits.row 6 (b.toNat % 16 * 4 + c.toNat / 64) ++ Bits.row 6 (c.toNat % 64))) =
          Bits.row 8 a.toNat ++ (Bits.row 8 b.toNat ++ Bits.row 8 c.toNat) := by
      rw [Bits.row_four (by omega) (by omega) (by omega), Bits.row_three]
      congr 1
      omega
    have hbits : bits (characters (a :: b :: c :: rest)) =
        Bits.row 6 (a.toNat / 4) ++ (Bits.row 6 (a.toNat % 4 * 16 + b.toNat / 16) ++
          (Bits.row 6 (b.toNat % 16 * 4 + c.toNat / 64) ++ (Bits.row 6 (c.toNat % 64) ++
            bits (characters rest)))) := by
      simp only [characters, bits, List.flatMap_cons]
      rw [weight_character (by omega), weight_character (by omega), weight_character (by omega),
        weight_character (by omega)]
    rw [hbits, ih, hmissing]
    simp only [List.flatMap_cons, ← List.append_assoc] at hfour ⊢
    rw [hfour]

theorem strict_encode {s : Bytes} (h : s ≠ []) : Strict (encode s) where
  nonempty := by
    have hpos := List.length_pos_iff.mpr h
    have hlength := length_characters s
    intro hnil
    rw [encode, List.append_eq_nil_iff] at hnil
    rw [hnil.1, List.length_nil] at hlength
    omega
  fours := by
    rw [encode, List.length_append, List.length_replicate, length_characters, missing]
    omega
  form := ⟨characters s, missing s, by rw [missing]; omega, rfl, characters_mem s⟩

/-- Encoded bytes are decoded as themselves, as long as their text is no longer than a signed word of
32 bits can say. -/
theorem decode_encode {s : Bytes} (h : s ≠ []) (hlt : (encode s).length < 2 ^ 31) :
    decode (encode s) = .ok (some s) := by
  have hfree : byte '=' ∉ characters s := fun hpad => pad_not_mem (characters_mem s _ hpad)
  have hbytes : 8 ∣ (s.flatMap fun b => Bits.row 8 b.toNat).length := by
    rw [Bits.length_bytes]
    exact Nat.dvd_mul_right 8 s.length
  have hzeros : (List.replicate (2 * missing s) false).length < 8 := by
    rw [List.length_replicate, missing]
    omega
  rw [decode_of_strict hlt (strict_encode h), encode, meaning_append hfree, bits_characters,
    Bits.octets_append hbytes hzeros, Bits.octets_bytes]

theorem decode_encode_twoBytes : ([0, 255] : Bytes) ≠ [] ∧ (encode [0, 255]).length < 2 ^ 31 ∧
    encode [0, 255] = ascii "AP8=" ∧ decode (encode [0, 255]) = .ok (some [0, 255]) :=
  ⟨by decide, by decide +kernel, by decide +kernel, decode_encode (by decide) (by decide +kernel)⟩

end TargetDiscovery.Base64
