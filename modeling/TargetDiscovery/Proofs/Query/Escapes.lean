import TargetDiscovery.Query.Escape

/-!
# Texts with escapes

A text with escapes reads as at most one byte string: a `+` reads as a space, a `%` with two
hexadecimal digits as the byte they write, and every other byte as itself. A text is malformed when it
reads as nothing.
-/

set_option autoImplicit false

namespace TargetDiscovery.Escape

inductive Reads : Bytes → Bytes → Prop
  | nil : Reads [] []
  | space {rest t : Bytes} (h : Reads rest t) : Reads (byte '+' :: rest) (byte ' ' :: t)
  | escape {hi lo : UInt8} {rest t : Bytes} {m n : Nat} (hhi : Bytes.hexValue hi = some m)
      (hlo : Bytes.hexValue lo = some n) (h : Reads rest t) :
      Reads (byte '%' :: hi :: lo :: rest) ((m * 16 + n).toUInt8 :: t)
  | plain {b : UInt8} {rest t : Bytes} (hplus : b ≠ byte '+') (hpercent : b ≠ byte '%')
      (h : Reads rest t) : Reads (b :: rest) (b :: t)

/-- A text that reads as nothing. -/
def Malformed (text : Bytes) : Prop := ∀ t, ¬ Reads text t

/-! ## One step of decoding -/

theorem decode_space (rest : Bytes) :
    decode (byte '+' :: rest) = (decode rest).map (byte ' ' :: ·) := by
  match rest with
  | [] => rfl
  | [_] => rfl
  | _ :: _ :: _ => rfl

theorem decode_plain {b : UInt8} (hplus : b ≠ byte '+') (hpercent : b ≠ byte '%') (rest : Bytes) :
    decode (b :: rest) = (decode rest).map (b :: ·) := by
  match rest with
  | [] => simp only [decode, if_neg hplus, if_neg hpercent]
  | [_] => simp only [decode, if_neg hplus, if_neg hpercent]
  | _ :: _ :: _ => rw [decode, if_neg hplus, if_neg hpercent]

theorem decode_escape (hi lo : UInt8) (rest : Bytes) :
    decode (byte '%' :: hi :: lo :: rest) =
      match Bytes.hexValue hi, Bytes.hexValue lo with
      | some m, some n => (decode rest).map ((m * 16 + n).toUInt8 :: ·)
      | _, _ => none := rfl

/-! ## What is decoded -/

theorem reads_of_decode (s : Bytes) {t : Bytes} (h : decode s = some t) : Reads s t := by
  induction s using decode.induct generalizing t with
  | case1 =>
    cases h
    exact .nil
  | case2 hi lo rest ih =>
    rw [decode_space] at h
    obtain ⟨u, hu, rfl⟩ := Option.map_eq_some_iff.mp h
    exact .space (ih hu)
  | case3 hi lo rest m n hlo hhi hne ih =>
    rw [decode_escape, hhi, hlo] at h
    obtain ⟨u, hu, rfl⟩ := Option.map_eq_some_iff.mp h
    exact .escape hhi hlo (ih hu)
  | case4 hi lo rest hdigits =>
    rw [decode_escape] at h
    split at h
    · rename_i m n hhi hlo
      exact absurd hlo (hdigits m n hhi)
    · cases h
  | case5 b hi lo rest hplus hpercent ih =>
    rw [decode_plain hplus hpercent] at h
    obtain ⟨u, hu, rfl⟩ := Option.map_eq_some_iff.mp h
    exact .plain hplus hpercent (ih hu)
  | case6 rest hshort ih =>
    rw [decode_space] at h
    obtain ⟨u, hu, rfl⟩ := Option.map_eq_some_iff.mp h
    exact .space (ih hu)
  | case7 rest hshort hne =>
    rw [decode] at h
    · cases h
    · exact hshort
  | case8 b rest hshort hplus hpercent ih =>
    rw [decode_plain hplus hpercent] at h
    obtain ⟨u, hu, rfl⟩ := Option.map_eq_some_iff.mp h
    exact .plain hplus hpercent (ih hu)

theorem Reads.decode {s t : Bytes} (h : Reads s t) : decode s = some t := by
  induction h with
  | nil => rfl
  | space _ ih => rw [decode_space, ih, Option.map_some]
  | escape hhi hlo _ ih =>
    rw [decode_escape, hhi, hlo, ih]
    rfl
  | plain hplus hpercent _ ih => rw [decode_plain hplus hpercent, ih, Option.map_some]

theorem decode_eq_some_iff {s t : Bytes} : decode s = some t ↔ Reads s t :=
  ⟨reads_of_decode s, Reads.decode⟩

theorem decode_eq_none_iff {s : Bytes} : decode s = none ↔ Malformed s := by
  rw [Option.eq_none_iff_forall_ne_some]
  exact forall_congr' fun t => not_congr decode_eq_some_iff

/-- The bytes of a text are bytes of what it reads as, or belong to escapes. -/
theorem Reads.mem {s t : Bytes} (h : Reads s t) (hspace : byte ' ' ∉ t) {b : UInt8} (hb : b ∈ s) :
    b ∈ t ∨ b = byte '%' ∨ (Bytes.hexValue b).isSome = true := by
  induction h with
  | nil => cases hb
  | space => exact absurd List.mem_cons_self hspace
  | @escape hi lo rest t m n hhi hlo _ ih =>
    have hrest := ih fun hmem => hspace (List.mem_cons_of_mem _ hmem)
    rcases List.mem_cons.mp hb with rfl | hb
    · exact .inr (.inl rfl)
    rcases List.mem_cons.mp hb with rfl | hb
    · exact .inr (.inr (by rw [hhi]; rfl))
    rcases List.mem_cons.mp hb with rfl | hb
    · exact .inr (.inr (by rw [hlo]; rfl))
    · exact (hrest hb).imp_left (List.mem_cons_of_mem _)
  | plain _ _ _ ih =>
    have hrest := ih fun hmem => hspace (List.mem_cons_of_mem _ hmem)
    rcases List.mem_cons.mp hb with rfl | hb
    · exact .inl List.mem_cons_self
    · exact (hrest hb).imp_left (List.mem_cons_of_mem _)

end TargetDiscovery.Escape
