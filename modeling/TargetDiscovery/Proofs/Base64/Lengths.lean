import TargetDiscovery.Proofs.Base64.Blocks

/-!
# Lengths in decoding

A text is decoded in a buffer that has three bytes for every four of its characters. The block
decoder fills the buffer from the front, and the buffer is then cut to what was filled less the
padding, a difference of unsigned words. The bytes come from what is left of the text without its
frame, and the padding is counted in the text as it stands. Still there is never more padding than
there are bytes, and there are never more bytes than the buffer has.

All of this is about texts whose length is a signed word of 32 bits. Of a longer one the block
decoder may read nothing, and then padding is more than there are bytes.
-/

set_option autoImplicit false

namespace TargetDiscovery.Base64

/-! ## The buffer -/

theorem length_buffer (s : Bytes) : (buffer s).length = s.length / 4 * 3 := List.length_replicate

section

variable {s t out : Bytes}

theorem length_overwrite (h : out.length ≤ t.length) : (overwrite t out).length = t.length := by
  rw [overwrite, List.length_append, List.length_drop]
  omega

theorem resize_overwrite {n : UInt64} (hmax : n ≤ maxLength) (hn : n.toNat ≤ out.length)
    (hout : out.length ≤ t.length) : resize (overwrite t out) n = .ok (out.take n.toNat) := by
  have hnone : n.toNat - (overwrite t out).length = 0 := by
    rw [length_overwrite hout]
    omega
  rw [resize, if_neg (UInt64.not_lt.mpr hmax), hnone, List.replicate_zero, List.append_nil,
    overwrite, List.take_append_of_le_length hn]

theorem cutLength_eq (hle : padding s ≤ out.length) (hout : out.length < 2 ^ 64) :
    (cutLength s out).toNat = out.length - padding s := by
  have hlength : (UInt64.ofNat out.length).toNat = out.length := UInt64.toNat_ofNat_of_lt' hout
  have hpadding : (UInt64.ofNat (padding s)).toNat = padding s :=
    UInt64.toNat_ofNat_of_lt' (Nat.lt_of_le_of_lt hle hout)
  rw [cutLength, UInt64.toNat_sub_of_le _ _ (UInt64.le_iff_toNat_le.mpr (by omega)), hlength,
    hpadding]

end

/-! ## Bytes and padding -/

theorem padding_le_two (s : Bytes) : padding s ≤ 2 :=
  Nat.le_trans List.countP_le_length (List.length_take_le 2 s.reverse)

theorem padding_eq_zero {s : Bytes} (h : ∀ b ∈ s, isBlank b = true) : padding s = 0 := by
  refine List.countP_eq_zero.mpr fun b hb hpad => ?_
  have hblank := h b (List.mem_reverse.mp (List.mem_of_mem_take hb))
  rw [eq_of_beq hpad] at hblank
  exact absurd hblank (by decide)

theorem Frames.length_le {s core : Bytes} (h : Frames s core) : core.length ≤ s.length := by
  obtain ⟨lead, trail, rfl, -⟩ := h
  rw [List.length_append, List.length_append]
  omega

/-- Without a core there is nothing but blanks: behind them nothing is dropped. -/
theorem Frames.isBlank {s : Bytes} (h : Frames s []) : ∀ b ∈ s, isBlank b = true := by
  obtain ⟨lead, trail, rfl, hlead, -, hnil⟩ := h
  rw [hnil rfl, List.append_nil, List.append_nil]
  exact hlead

section

variable {s out : Bytes}

/-- Where there is a core there is a whole group of three bytes, which is more than there can be
padding; where there is none the text is blank and ends in no padding. -/
theorem padding_le_length (hlt : s.length < 2 ^ 31) (h : block? s = some out) :
    padding s ≤ out.length := by
  obtain ⟨core, hframes, hdvd, -, rfl⟩ := (block?_eq_some_iff hlt).mp h
  rw [length_octets_bits hdvd]
  rcases List.eq_nil_or_concat' core with rfl | ⟨body, last, rfl⟩
  · rw [padding_eq_zero hframes.isBlank]
    exact Nat.zero_le _
  · have hpadding := padding_le_two s
    rw [List.length_append, List.length_singleton] at hdvd ⊢
    omega

theorem length_le_buffer (hlt : s.length < 2 ^ 31) (h : block? s = some out) :
    out.length ≤ (buffer s).length := by
  obtain ⟨core, hframes, hdvd, -, rfl⟩ := (block?_eq_some_iff hlt).mp h
  have hle := hframes.length_le
  rw [length_octets_bits hdvd, length_buffer]
  omega

/-- What becomes of a text, by what the block decoder makes of it. -/
theorem decode_eq (hne : s ≠ []) (hdvd : 4 ∣ s.length) : decode s =
    match block? s with
    | none => .ok none
    | some out => (resize (overwrite (buffer s) out) (cutLength s out)).map some := by
  have haccepted : (s.isEmpty || s.length % 4 != 0) = false := by
    rw [List.isEmpty_eq_false_iff.mpr hne, Nat.mod_eq_zero_of_dvd hdvd]
    rfl
  rw [decode, haccepted]
  rfl

/-- The lengths in decoding a text of which so many bytes were written: the difference to the
padding is the one of numbers, and the buffer is only ever cut. -/
structure Measured (s out : Bytes) : Prop where
  padding_le : padding s ≤ out.length
  length_le : 4 * out.length ≤ 3 * s.length
  exact : (cutLength s out).toNat = out.length - padding s
  shrinks : (cutLength s out).toNat ≤ (buffer s).length
  decoded : decode s = .ok (some ((overwrite (buffer s) out).take (cutLength s out).toNat))
  kept : decode s = .ok (some (out.take (out.length - padding s)))

theorem measured_of_block (hlt : s.length < 2 ^ 31) (hne : s ≠ []) (hdvd : 4 ∣ s.length)
    (h : block? s = some out) : Measured s out := by
  have hpadding := padding_le_length hlt h
  have hroom := length_le_buffer hlt h
  have hbuffer := length_buffer s
  have hexact : (cutLength s out).toNat = out.length - padding s :=
    cutLength_eq hpadding (by omega)
  have hcut : (cutLength s out).toNat ≤ out.length := hexact ▸ Nat.sub_le _ _
  have hmax : cutLength s out ≤ maxLength := by
    rw [UInt64.le_iff_toNat_le]
    exact Nat.le_trans hcut (by show out.length ≤ 9223372036854775806; omega)
  have hdecode : decode s = .ok (some (out.take (cutLength s out).toNat)) := by
    rw [decode_eq hne hdvd, h]
    show (resize (overwrite (buffer s) out) (cutLength s out)).map some = _
    rw [resize_overwrite hmax hcut hroom]
    rfl
  refine ⟨hpadding, by omega, hexact, Nat.le_trans hcut hroom, ?_, hexact ▸ hdecode⟩
  rw [hdecode, overwrite, List.take_append_of_le_length hcut]

end

/-- The padding of a text in a frame stands in the last place but one, in front of a line end. -/
theorem measured_framed : (ascii "   QUI=\n").length < 2 ^ 31 ∧ ascii "   QUI=\n" ≠ [] ∧
    4 ∣ (ascii "   QUI=\n").length ∧ block? (ascii "   QUI=\n") = some [65, 66, 0] ∧
      padding (ascii "   QUI=\n") = 1 ∧ Measured (ascii "   QUI=\n") [65, 66, 0] :=
  ⟨by decide, by decide, by decide, by decide +kernel, by decide,
    measured_of_block (by decide) (by decide) (by decide) (by decide +kernel)⟩

/-! ## Texts of which nothing is read -/

/-- Where the word for the length is negative, nothing is read of the text: then there are no bytes,
and a text that ends in padding is not decoded but ends in a fault. -/
theorem decode_of_intLength_neg {s : Bytes} (hne : s ≠ []) (hdvd : 4 ∣ s.length)
    (hneg : Bytes.intLength s < 0) :
    decode s = if padding s = 0 then .ok (some []) else .error lengthFault := by
  have hfours : Bytes.intLength s % 4 = 0 := by
    rw [Bytes.intLength, Int32.toInt_ofNat', Int.bmod_def]
    simp only [Int32.size]
    omega
  have hpadding := padding_le_two s
  rw [decode_eq hne hdvd, block?, if_pos hneg, if_pos hfours]
  show (resize (overwrite (buffer s) []) (0 - .ofNat (padding s))).map some = _
  generalize padding s = n at hpadding
  obtain rfl | rfl | rfl : n = 0 ∨ n = 1 ∨ n = 2 := by omega
  · have hempty : resize (overwrite (buffer s) []) 0 = .ok [] :=
      resize_overwrite (by decide) (Nat.le_refl 0) (Nat.zero_le _)
    exact congrArg (Except.map some) hempty
  · rfl
  · rfl

end TargetDiscovery.Base64
