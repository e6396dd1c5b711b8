import TargetDiscovery.Proofs.Base64.Lengths

/-!
# What base64 texts are read as

A strict text has characters of the alphabet and behind them at most two padding characters. It
stands for the whole bytes in the row of its bits, where padding stands for none. The decoder reads
strict texts as what they stand for, and it reads more than these: what frames a text is dropped,
and padding counts as zero bits wherever it stands. Texts here are those whose length is a signed
word of 32 bits.
-/

set_option autoImplicit false

namespace TargetDiscovery.Base64

/-- The bytes that a text of whole groups in a frame is read as: those of the bits of its
characters, without as many as there are padding characters in the last two places of the text. -/
def Lax (s v : Bytes) : Prop :=
  s ≠ [] ∧ 4 ∣ s.length ∧ ∃ core, Frames s core ∧ 4 ∣ core.length ∧ (∀ b ∈ core, IsCode b) ∧
    v = (Bits.octets (bits core)).take (core.length / 4 * 3 - padding s)

/-- Characters of the alphabet, and behind them at most two padding characters. -/
structure Strict (s : Bytes) : Prop where
  nonempty : s ≠ []
  fours : 4 ∣ s.length
  form : ∃ body n, n ≤ 2 ∧ s = body ++ List.replicate n (byte '=') ∧ ∀ b ∈ body, b ∈ alphabet

/-- What a strict text stands for: the whole bytes in the row of the bits of its characters, where
padding stands for none. -/
def meaning (s : Bytes) : Bytes := Bits.octets (bits (s.filter (· ≠ byte '=')))

/-- A text without a frame, and without padding in front of its last two places. -/
def Bare (s : Bytes) : Prop :=
  ∃ body n, n ≤ 2 ∧ s = body ++ List.replicate n (byte '=') ∧
    ∀ b ∈ body, b ≠ byte '=' ∧ isTrailer b = false

theorem decode_refused {s : Bytes} (h : ¬ (s ≠ [] ∧ 4 ∣ s.length)) : decode s = .ok none := by
  have hrefused : (s.isEmpty || s.length % 4 != 0) = true := by
    rw [Bool.or_eq_true, List.isEmpty_iff, bne_iff_ne, Ne, ← Nat.dvd_iff_mod_eq_zero]
    by_cases hnil : s = []
    · exact .inl hnil
    · exact .inr fun hdvd => h ⟨hnil, hdvd⟩
  rw [decode, hrefused]
  rfl

/-- A text is decoded or refused, and never ends in a fault. -/
theorem exists_decode_eq_ok {s : Bytes} (hlt : s.length < 2 ^ 31) : ∃ out, decode s = .ok out := by
  by_cases haccepted : s ≠ [] ∧ 4 ∣ s.length
  · obtain ⟨hne, hdvd⟩ := haccepted
    cases hblock : block? s with
    | none =>
      rw [decode_eq hne hdvd, hblock]
      exact ⟨none, rfl⟩
    | some out => exact ⟨_, (measured_of_block hlt hne hdvd hblock).kept⟩
  · exact ⟨none, decode_refused haccepted⟩

theorem decode_eq_some_iff {s v : Bytes} (hlt : s.length < 2 ^ 31) :
    decode s = .ok (some v) ↔ Lax s v := by
  by_cases haccepted : s ≠ [] ∧ 4 ∣ s.length
  · obtain ⟨hne, hdvd⟩ := haccepted
    have hblock : decode s = .ok (some v) ↔
        ∃ out, block? s = some out ∧ v = out.take (out.length - padding s) := by
      cases hread : block? s with
      | none => simp [decode_eq hne hdvd, hread]
      | some out =>
        rw [(measured_of_block hlt hne hdvd hread).kept]
        simp [eq_comm]
    rw [hblock]
    constructor
    · rintro ⟨out, hread, rfl⟩
      obtain ⟨core, hframes, hfours, hcodes, rfl⟩ := (block?_eq_some_iff hlt).mp hread
      exact ⟨hne, hdvd, core, hframes, hfours, hcodes, by rw [length_octets_bits hfours]⟩
    · rintro ⟨-, -, core, hframes, hfours, hcodes, rfl⟩
      exact ⟨_, (block?_eq_some_iff hlt).mpr ⟨core, hframes, hfours, hcodes, rfl⟩,
        by rw [length_octets_bits hfours]⟩
  · rw [decode_refused haccepted]
    exact ⟨nofun, fun h => absurd ⟨h.1, h.2.1⟩ haccepted⟩

section

variable {body : Bytes} {n : Nat}

theorem padding_append (hfree : byte '=' ∉ body) (hn : n ≤ 2) :
    padding (body ++ List.replicate n (byte '=')) = n := by
  have hbody : (body.reverse.take (2 - n)).countP (· == byte '=') = 0 := by
    refine List.countP_eq_zero.mpr fun b hb => ?_
    rw [beq_iff_eq]
    rintro rfl
    exact hfree (List.mem_reverse.mp (List.mem_of_mem_take hb))
  rw [padding, List.reverse_append, List.reverse_replicate, List.take_append,
    List.take_of_length_le (by rw [List.length_replicate]; exact hn), List.length_replicate,
    List.countP_append, hbody, List.countP_replicate, if_pos (by decide), Nat.add_zero]

theorem meaning_append (hfree : byte '=' ∉ body) :
    meaning (body ++ List.replicate n (byte '=')) = Bits.octets (bits body) := by
  have hkept : body.filter (· ≠ byte '=') = body :=
    List.filter_eq_self.mpr fun b hb => decide_eq_true fun hpad => hfree (hpad ▸ hb)
  rw [meaning, List.filter_append, hkept, List.filter_replicate_of_neg (by decide), List.append_nil]

/-- Padding of one or two characters takes as many bytes off a row of whole groups. -/
theorem take_octets_bits (hn : n ≤ 2) (hdvd : 4 ∣ (body ++ List.replicate n (byte '=')).length) :
    (Bits.octets (bits (body ++ List.replicate n (byte '=')))).take
      ((body ++ List.replicate n (byte '=')).length / 4 * 3 - n) = Bits.octets (bits body) := by
  rw [List.length_append, List.length_replicate] at hdvd ⊢
  rw [bits_append, show (body.length + n) / 4 * 3 - n = (bits body).length / 8 by
    rw [length_bits]; omega, Bits.take_octets_append]

end

theorem Frames.refl (s : Bytes) : Frames s s :=
  ⟨[], [], by rw [List.nil_append, List.append_nil], nofun, nofun, fun _ => rfl⟩

/-- A text without a character of a frame is its own core. -/
theorem Frames.eq {s core : Bytes} (h : Frames s core) (hbare : ∀ b ∈ s, isTrailer b = false) :
    core = s := by
  obtain ⟨lead, trail, rfl, hlead, htrail, -⟩ := h
  have hno : ∀ {t : Bytes}, (∀ b ∈ t, b ∈ lead ++ (core ++ trail)) →
      (∀ b ∈ t, isTrailer b = true) → t = [] := by
    intro t hsub ht
    refine List.eq_nil_iff_forall_not_mem.mpr fun b hb => ?_
    have hb' := hbare b (hsub b hb)
    rw [ht b hb] at hb'
    cases hb'
  have hl : lead = [] := hno (fun b hb => List.mem_append_left _ hb)
    fun b hb => isTrailer_of_isBlank (hlead b hb)
  have ht : trail = [] := hno
    (fun b hb => List.mem_append_right _ (List.mem_append_right _ hb)) htrail
  rw [hl, ht, List.nil_append, List.append_nil]

theorem Bare.not_trailer {s : Bytes} (h : Bare s) : ∀ b ∈ s, isTrailer b = false := by
  obtain ⟨body, n, -, rfl, hbody⟩ := h
  intro b hb
  rcases List.mem_append.mp hb with hb | hb
  · exact (hbody b hb).2
  · rw [List.eq_of_mem_replicate hb]
    decide

theorem Strict.bare {s : Bytes} (h : Strict s) : Bare s := by
  obtain ⟨body, n, hn, rfl, hbody⟩ := h.form
  refine ⟨body, n, hn, rfl, fun b hb => ⟨?_, IsCode.not_trailer (.inl (hbody b hb))⟩⟩
  rintro rfl
  exact pad_not_mem (hbody _ hb)

/-- Of texts without a frame the decoder reads the strict ones, as what they stand for. -/
theorem lax_iff_of_bare {s v : Bytes} (h : Bare s) : Lax s v ↔ Strict s ∧ v = meaning s := by
  have htrailers := h.not_trailer
  obtain ⟨body, n, hn, rfl, hbody⟩ := h
  have hfree : byte '=' ∉ body := fun hpad => (hbody _ hpad).1 rfl
  constructor
  · rintro ⟨hne, hdvd, core, hframes, -, hcodes, hv⟩
    rw [hframes.eq htrailers] at hcodes hv
    refine ⟨⟨hne, hdvd, body, n, hn, rfl, fun b hb => ?_⟩, ?_⟩
    · exact (hcodes b (List.mem_append_left _ hb)).resolve_right (hbody b hb).1
    · rw [hv, padding_append hfree hn, take_octets_bits hn hdvd, meaning_append hfree]
  · rintro ⟨hstrict, rfl⟩
    refine ⟨hstrict.nonempty, hstrict.fours, _, Frames.refl _, hstrict.fours, ?_, ?_⟩
    · obtain ⟨body', n', -, hform, hbody'⟩ := hstrict.form
      rw [hform]
      intro b hb
      rcases List.mem_append.mp hb with hb | hb
      · exact .inl (hbody' b hb)
      · exact .inr (List.eq_of_mem_replicate hb)
    · rw [padding_append hfree hn, take_octets_bits hn hstrict.fours, meaning_append hfree]

theorem decode_of_strict {s : Bytes} (hlt : s.length < 2 ^ 31) (h : Strict s) :
    decode s = .ok (some (meaning s)) :=
  (decode_eq_some_iff hlt).mpr ((lax_iff_of_bare h.bare).mpr ⟨h, rfl⟩)

/-- What is decoded of a text, and that it is what strict decoding gives as long as the text has no
frame and no padding in front of its last two places. -/
structure Decoded (s : Bytes) : Prop where
  ends : ∃ out, decode s = .ok out
  lax : ∀ v, decode s = .ok (some v) ↔ Lax s v
  strict : Bare s → ∀ v, decode s = .ok (some v) ↔ Strict s ∧ v = meaning s

theorem decoded_exactly (s : Bytes) (hlt : s.length < 2 ^ 31) : Decoded s where
  ends := exists_decode_eq_ok hlt
  lax := fun _ => decode_eq_some_iff hlt
  strict := fun hbare _ => (decode_eq_some_iff hlt).trans (lax_iff_of_bare hbare)

/-- Padding inside a text counts as zero bits. -/
theorem decoded_padding_inside : (ascii "QUI=QUJD").length < 2 ^ 31 ∧
    decode (ascii "QUI=QUJD") = .ok (some [65, 66, 0, 65, 66, 67]) ∧ Decoded (ascii "QUI=QUJD") :=
  ⟨by decide, by decide +kernel, decoded_exactly _ (by decide)⟩

/-- Blanks in front of a text are not refused. -/
theorem decoded_behind_blanks : decode (ascii "    QUJD") = .ok (some (ascii "ABC")) ∧
    ¬ Strict (ascii "    QUJD") := by
  refine ⟨by decide +kernel, fun h => ?_⟩
  obtain ⟨body, n, -, hform, hbody⟩ := h.form
  have hblank : byte ' ' ∈ body ++ List.replicate n (byte '=') := by
    rw [← hform]
    decide
  rcases List.mem_append.mp hblank with hmem | hmem
  · exact absurd (not_trailer_of_mem _ (hbody _ hmem)) (by decide)
  · exact absurd (List.eq_of_mem_replicate hmem) (by decide)

end TargetDiscovery.Base64
