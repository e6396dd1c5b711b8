import TargetDiscovery.Json.Plain

/-!
# Tokens of a document

What the reading of gaps, strings and numbers leaves is a part of the text, and a shorter one where
a token was read. A string is described without a bound by the inductive `Quoted`, which is what is
read of it.
-/

set_option autoImplicit false

namespace TargetDiscovery.Json

/-! ## Gaps -/

theorem length_skip {g : Gap} {s t : Bytes} (h : skip g s = .ok t) : t.length ≤ s.length := by
  fun_induction skip g s with
  | case1 => cases h; exact Nat.le_refl _
  | case2 => cases h; exact Nat.zero_le _
  | case3 => cases h; exact Nat.le_refl _
  | case4 b c rest _ ih => exact Nat.le_succ_of_le (ih h)
  | case5 b c rest _ _ ih => exact Nat.le_trans (ih h) (by simp; omega)
  | case6 b c rest _ _ _ ih => exact Nat.le_trans (ih h) (by simp; omega)
  | case7 => cases h; exact Nat.le_refl _
  | case8 => cases h; exact Nat.le_refl _
  | case9 b rest _ ih => exact Nat.le_succ_of_le (ih h)
  | case10 b rest _ ih => exact Nat.le_succ_of_le (ih h)
  | case11 b c rest _ ih => exact Nat.le_trans (ih h) (by simp; omega)
  | case12 b c rest _ ih => exact Nat.le_succ_of_le (ih h)
  | case13 => cases h

theorem length_skip_cons {g : Gap} {s t : Bytes} {b : UInt8} (h : skip g s = .ok (b :: t)) :
    t.length < s.length := by
  have hle := length_skip h
  rwa [List.length_cons] at hle

/-- Nothing is skipped in front of a token. -/
theorem skip_token {b : UInt8} (hblank : isBlank b = false) (hslash : b ≠ byte '/') (rest : Bytes) :
    skip .blanks (b :: rest) = .ok (b :: rest) := by
  cases rest with
  | nil => simp [skip, hblank]
  | cons c rest => simp [skip, hblank, hslash]

/-! ## Strings -/

/-- The characters of a string up to its closing quote, the string, and what is left. -/
inductive Quoted : Bytes → Bytes → Bytes → Prop
  | close {rest : Bytes} : Quoted (byte '"' :: rest) [] rest
  | plain {b : UInt8} {s value rest : Bytes} (hquote : b ≠ byte '"') (hslash : b ≠ byte '\\')
      (hprinted : ¬ b < 32) (h : Quoted s value rest) : Quoted (b :: s) (b :: value) rest
  | short {e c : UInt8} {s value rest : Bytes} (he : shortEscape? e = some c)
      (h : Quoted s value rest) : Quoted (byte '\\' :: e :: s) (c :: value) rest
  | scalar {n : Nat} {s t value rest : Bytes} (hn : readScalar s = .ok (n, t))
      (h : Quoted t value rest) :
      Quoted (byte '\\' :: byte 'u' :: s) (encodeScalar n ++ value) rest

theorem length_readScalar {s t : Bytes} {n : Nat} (h : readScalar s = .ok (n, t)) :
    t.length ≤ s.length := by
  unfold readScalar at h
  split at h
  · split at h
    · cases h
    · split at h
      · cases h
        simp
        omega
      · split at h
        · split at h
          · split at h
            · simp only [Except.ok.injEq, Prod.mk.injEq] at h
              obtain ⟨_, rfl⟩ := h
              simp
              omega
            · cases h
          · cases h
        · cases h
  · cases h

theorem Quoted.length {s value rest : Bytes} (h : Quoted s value rest) :
    rest.length < s.length := by
  induction h with
  | close => exact Nat.lt_succ_self _
  | plain _ _ _ _ ih => exact Nat.lt_succ_of_lt ih
  | short _ _ ih => exact Nat.lt_succ_of_lt (Nat.lt_succ_of_lt ih)
  | scalar hn _ ih =>
    have hle := length_readScalar hn
    simp only [List.length_cons]
    omega

theorem quoted_of_readString {size : Nat} {s value rest : Bytes}
    (h : readString size s = .ok (value, rest)) : Quoted s value rest := by
  induction size generalizing s value rest with
  | zero => cases h
  | succ size ih =>
    cases s with
    | nil => cases h
    | cons b s =>
      unfold readString at h
      split at h
      · rename_i hquote
        subst hquote
        cases h
        exact .close
      · rename_i hquote
        split at h
        · rename_i hslash
          subst hslash
          split at h
          · cases h
          · split at h
            · rename_i e more he
              subst he
              split at h
              · cases h
              · rename_i n t hn
                split at h
                · cases h
                · rename_i string rest hstring
                  cases h
                  exact .scalar hn (ih hstring)
            · split at h
              · cases h
              · rename_i c hc
                split at h
                · cases h
                · rename_i string rest hstring
                  cases h
                  exact .short hc (ih hstring)
        · rename_i hslash
          split at h
          · cases h
          · rename_i hprinted
            split at h
            · cases h
            · rename_i string rest hstring
              cases h
              exact .plain hquote hslash hprinted (ih hstring)

theorem readString_of_quoted {s value rest : Bytes} (h : Quoted s value rest) {size : Nat}
    (hsize : s.length ≤ size) : readString size s = .ok (value, rest) := by
  have hbar : byte '\\' ≠ byte '"' := by decide
  induction h generalizing size with
  | close =>
    cases size with
    | zero => cases hsize
    | succ size => simp [readString]
  | plain hquote hslash hprinted _ ih =>
    cases size with
    | zero => cases hsize
    | succ size =>
      have hrest := ih (Nat.le_of_succ_le_succ hsize)
      simp [readString, hquote, hslash, hprinted, hrest]
  | @short e c s value rest he _ ih =>
    cases size with
    | zero => cases hsize
    | succ size =>
      have hrest : readString size s = .ok (value, rest) := ih (by simp at hsize; omega)
      have hu : e ≠ byte 'u' := by
        rintro rfl
        have hnone : shortEscape? (byte 'u') = none := by decide
        exact nomatch hnone.symm.trans he
      simp [readString, hbar, hu, he, hrest]
  | @scalar n s t value rest hn _ ih =>
    cases size with
    | zero => cases hsize
    | succ size =>
      have hle := length_readScalar hn
      have hrest : readString size t = .ok (value, rest) := ih (by simp at hsize; omega)
      simp [readString, hbar, hn, hrest]

/-! ## Numbers -/

theorem length_readFraction {s digits rest : Bytes} (h : readFraction s = .ok (digits, rest)) :
    rest.length ≤ s.length := by
  unfold readFraction at h
  split at h
  · split at h
    · simp only at h
      split at h
      · cases h
      · cases h
        simp only [List.length_drop, List.length_cons]
        omega
    · cases h
      exact Nat.le_refl _
  · cases h
    exact Nat.le_refl _

theorem length_readExponent {s rest : Bytes} {e : Option Int}
    (h : readExponent s = .ok (e, rest)) : rest.length ≤ s.length := by
  unfold readExponent at h
  split at h
  · rename_i b t
    split at h
    · simp only at h
      generalize hu : (if (t.head? == some (byte '-') || t.head? == some (byte '+')) = true then
        List.drop 1 t else t) = unsigned at h
      have hle : unsigned.length ≤ t.length := by
        rw [← hu]
        split
        · simp
        · exact Nat.le_refl _
      split at h
      · cases h
      · cases h
        simp only [List.length_drop, List.length_cons]
        omega
    · cases h
      exact Nat.le_refl _
  · cases h
    exact Nat.le_refl _

/-- A number begins with its sign or with a digit, and takes at least one byte. -/
theorem head_of_readNumber {b : UInt8} {s rest : Bytes} {n : Number}
    (h : readNumber (b :: s) = .ok (n, rest)) :
    (b = byte '-' ∨ Bytes.isDigit b = true) ∧ rest.length ≤ s.length := by
  unfold readNumber at h
  simp only [List.head?_cons, List.drop_one, List.tail_cons] at h
  generalize ht : (if (some b == some (byte '-')) = true then s else b :: s) = t at h
  split at h
  · cases h
  · rename_i hwhole
    have hne : (t.takeWhile Bytes.isDigit) ≠ [] := by
      intro hnil
      simp [hnil] at hwhole
    split at h
    · cases h
    · rename_i fraction more hfraction
      split at h
      · cases h
      · rename_i e last hexponent
        cases h
        have hlast := length_readExponent hexponent
        have hmore := length_readFraction hfraction
        have hpos := List.length_pos_iff.mpr hne
        have hshort := (List.takeWhile_sublist (l := t) Bytes.isDigit).length_le
        rw [List.length_drop] at hmore
        by_cases hb : b = byte '-'
        · subst hb
          rw [if_pos (by simp)] at ht
          subst ht
          exact ⟨.inl rfl, by omega⟩
        · rw [if_neg (by simpa using hb)] at ht
          subst ht
          cases hd : Bytes.isDigit b with
          | true => exact ⟨.inr rfl, by simp at hmore; omega⟩
          | false => exact absurd (List.takeWhile_cons_of_neg (by simp [hd])) hne

end TargetDiscovery.Json
