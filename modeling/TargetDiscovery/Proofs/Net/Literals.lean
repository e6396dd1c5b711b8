import TargetDiscovery.Proofs.Net.Cleanness
import TargetDiscovery.Proofs.Query.Pieces

/-!
# The grammar of address literals

An IPv4 literal is four decimal numbers with dots between them. An IPv6 literal is eight groups of
hexadecimal digits with colons between them, where an IPv4 literal may stand at the end for two
groups, and one `::` for as many groups as are missing. The checks for literals accept exactly what
is written so.
-/

set_option autoImplicit false

namespace TargetDiscovery

/-! ## Decimal text -/

namespace Bytes

theorem valueFrom_nil (n : Nat) : valueFrom n [] = n := rfl

theorem valueFrom_cons (n : Nat) (d : UInt8) (s : Bytes) :
    valueFrom n (d :: s) = valueFrom (n * 10 + (d.toNat - 48)) s := by
  rw [valueFrom.eq_def]

theorem decimal_digit {d : UInt8} (h : isDigit d = true) : decimal (d.toNat - 48) = [d] := by
  have hall : ∀ k : Fin 256, isDigit (UInt8.ofFin k) = true →
      decimal ((UInt8.ofFin k).toNat - 48) = [UInt8.ofFin k] := by decide +kernel
  exact hall d.toFin h

theorem digit_le {d : UInt8} (h : isDigit d = true) : 48 ≤ d.toNat ∧ d.toNat ≤ 57 := by
  have hzero : (byte '0').toNat = 48 := by decide
  have hnine : (byte '9').toNat = 57 := by decide
  rw [isDigit, Bool.and_eq_true, decide_eq_true_eq, decide_eq_true_eq, UInt8.le_iff_toNat_le,
    UInt8.le_iff_toNat_le, hzero, hnine] at h
  exact h

/-- Digits are written behind a number as the text of the number they make with it. -/
theorem decimal_append {n : Nat} (hn : 0 < n) {s : Bytes} (hs : ∀ b ∈ s, isDigit b = true) :
    decimal n ++ s = decimal (valueFrom n s) := by
  induction s generalizing n with
  | nil => exact List.append_nil _
  | cons d s ih =>
    obtain ⟨hd, hs⟩ := List.forall_mem_cons.mp hs
    have hvalue := digit_le hd
    have hstep : decimal n ++ [d] = decimal (n * 10 + (d.toNat - 48)) := by
      rw [← decimal_digit hd, decimal, decimal, ← List.map_append,
        Nat.toDigits_append_toDigits (by decide) hn (by omega), Nat.mul_comm, decimal]
    rw [valueFrom_cons, ← ih (by omega) hs, ← hstep, List.append_assoc, List.singleton_append]

/-- A number without a leading zero has only one text. -/
theorem eq_decimal {s : Bytes} {n : Nat} (h : decimal? s = some n)
    (hlead : s.length = 1 ∨ s.head? ≠ some (byte '0')) : s = decimal n := by
  have hdigits := isDigit_of_decimal? h
  cases s with
  | nil => cases h
  | cons d s =>
    obtain ⟨hd, hs⟩ := List.forall_mem_cons.mp hdigits
    have hn : n = valueFrom (d.toNat - 48) s := by
      rw [decimal?, if_neg (by simp), if_pos (List.all_eq_true.mpr hdigits), Option.some.injEq,
        valueFrom_cons, Nat.zero_mul, Nat.zero_add] at h
      exact h.symm
    rcases hlead with hone | hzero
    · rw [List.length_cons, Nat.add_eq_right, List.length_eq_zero_iff] at hone
      rw [hn, hone, valueFrom_nil, decimal_digit hd]
    · have hpos : 0 < d.toNat - 48 := by
        have hle := (digit_le hd).1
        have hne : d.toNat ≠ (byte '0').toNat := fun heq =>
          hzero (congrArg some (UInt8.toNat_inj.mp heq))
        have hvalue : (byte '0').toNat = 48 := by decide
        omega
      rw [hn, ← decimal_append hpos hs, decimal_digit hd, List.singleton_append]

theorem length_intercalate_le (sep : UInt8) {parts : List Bytes} {k : Nat}
    (h : ∀ part ∈ parts, part.length ≤ k) :
    ([sep].intercalate parts).length ≤ parts.length * (k + 1) := by
  induction parts with
  | nil => exact Nat.zero_le _
  | cons part parts ih =>
    obtain ⟨hpart, hparts⟩ := List.forall_mem_cons.mp h
    cases parts with
    | nil =>
      rw [List.intercalate_singleton, List.length_singleton]
      omega
    | cons next rest =>
      have hrest := ih hparts
      rw [List.intercalate_cons_cons, List.length_append, List.length_append,
        List.length_singleton, List.length_cons (a := part), Nat.succ_mul]
      omega

end Bytes

namespace Literal

/-- The text of a number up to 255. -/
def Octet (s : Bytes) : Prop := ∃ n, n ≤ 255 ∧ s = Bytes.decimal n

def IPv4 (s : Bytes) : Prop :=
  ∃ parts : List Bytes, parts.length = 4 ∧ (∀ part ∈ parts, Octet part) ∧
    s = [byte '.'].intercalate parts

def hexDigits : Bytes := ascii "0123456789abcdefABCDEF"

structure Group (s : Bytes) : Prop where
  nonempty : 1 ≤ s.length
  short : s.length ≤ 4
  digits : ∀ b ∈ s, b ∈ hexDigits

/-- Groups that make a number of units of 16 bits, where an IPv4 literal may be the last of them. -/
inductive Units : List Bytes → Nat → Prop
  | nil : Units [] 0
  | literal {s : Bytes} (h : IPv4 s) : Units [s] 2
  | group {g : Bytes} {parts : List Bytes} {n : Nat} (hgroup : Group g) (h : Units parts n) :
      Units (g :: parts) (n + 1)

inductive IPv6 : Bytes → Prop
  | full {parts : List Bytes} (h : Units parts 8) : IPv6 ([byte ':'].intercalate parts)
  | short {front back : List Bytes} {n : Nat} (hfront : ∀ g ∈ front, Group g)
      (hback : Units back n) (hmissing : front.length + n ≤ 7) :
      IPv6 ([byte ':'].intercalate front ++
        byte ':' :: byte ':' :: [byte ':'].intercalate back)

/-! ## IPv4 -/

theorem isOctet_iff {s : Bytes} : isOctet s = true ↔ Octet s := by
  constructor
  · intro h
    rw [isOctet] at h
    split at h
    · rename_i n hn
      simp only [Bool.and_eq_true, Bool.or_eq_true, decide_eq_true_eq, beq_iff_eq, bne_iff_ne]
        at h
      exact ⟨n, h.1, Bytes.eq_decimal hn h.2⟩
    · cases h
  · rintro ⟨n, hn, rfl⟩
    have hall : ∀ k : Fin 256, isOctet (Bytes.decimal k) = true := by decide +kernel
    exact hall ⟨n, by omega⟩

theorem Octet.length_le {s : Bytes} (h : Octet s) : s.length ≤ 3 := by
  obtain ⟨n, hn, rfl⟩ := h
  have hall : ∀ k : Fin 256, (Bytes.decimal k).length ≤ 3 := by decide +kernel
  exact hall ⟨n, by omega⟩

theorem Octet.digits {s : Bytes} (h : Octet s) : ∀ b ∈ s, Bytes.isDigit b = true := by
  have hoctet := isOctet_iff.mpr h
  rw [isOctet] at hoctet
  split at hoctet
  · rename_i n hn
    exact Bytes.isDigit_of_decimal? hn
  · cases hoctet

theorem Octet.dot_not_mem {s : Bytes} (h : Octet s) : byte '.' ∉ s := fun hdot =>
  absurd (h.digits _ hdot) (by decide)

theorem isIPv4_iff {s : Bytes} : isIPv4 s = true ↔ IPv4 s := by
  rw [isIPv4, Bool.and_eq_true, beq_iff_eq, List.all_eq_true, Bytes.pieces_eq_splitOn]
  simp only [isOctet_iff]
  constructor
  · rintro ⟨hfour, hoctets⟩
    exact ⟨_, hfour, hoctets, (List.intercalate_splitOn _).symm⟩
  · rintro ⟨parts, hfour, hoctets, rfl⟩
    have hne : parts ≠ [] := List.ne_nil_of_length_eq_add_one hfour
    rw [List.splitOn_intercalate _ (fun part hpart => (hoctets part hpart).dot_not_mem) hne]
    exact ⟨hfour, hoctets⟩

theorem IPv4.length_le {s : Bytes} (h : IPv4 s) : s.length ≤ 16 := by
  obtain ⟨parts, hfour, hoctets, rfl⟩ := h
  have hlength := Bytes.length_intercalate_le (byte '.')
    fun part hpart => (hoctets part hpart).length_le
  omega

theorem IPv4.bytes {s : Bytes} (h : IPv4 s) :
    ∀ b ∈ s, b = byte '.' ∨ Bytes.isDigit b = true := by
  obtain ⟨parts, hfour, hoctets, rfl⟩ := h
  have hne : parts ≠ [] := List.ne_nil_of_length_eq_add_one hfour
  intro b hb
  refine (Bytes.mem_pieces (byte '.') hb).imp_right ?_
  rintro ⟨part, hpart, hmem⟩
  rw [Bytes.pieces_eq_splitOn,
    List.splitOn_intercalate _ (fun part hpart => (hoctets part hpart).dot_not_mem) hne] at hpart
  exact (hoctets part hpart).digits b hmem

theorem IPv4.dot_mem {s : Bytes} (h : IPv4 s) : byte '.' ∈ s := by
  obtain ⟨parts, hfour, -, rfl⟩ := h
  match parts, hfour with
  | first :: second :: rest, _ =>
    rw [List.intercalate_cons_cons]
    simp

/-! ## Groups -/

theorem mem_hexDigits {b : UInt8} : b ∈ hexDigits ↔ (Bytes.hexValue b).isSome = true := by
  have hall : ∀ k : Fin 256,
      UInt8.ofFin k ∈ hexDigits ↔ (Bytes.hexValue (UInt8.ofFin k)).isSome = true := by
    decide +kernel
  exact hall b.toFin

theorem isGroup_iff {s : Bytes} : isGroup s = true ↔ Group s := by
  simp only [isGroup, Bool.and_eq_true, decide_eq_true_eq, List.all_eq_true, ← mem_hexDigits]
  constructor
  · rintro ⟨⟨hnonempty, hshort⟩, hdigits⟩
    exact ⟨hnonempty, hshort, hdigits⟩
  · intro h
    exact ⟨⟨h.nonempty, h.short⟩, h.digits⟩

theorem IPv4.not_group {s : Bytes} (h : IPv4 s) : ¬ Group s := fun hgroup =>
  absurd (hgroup.digits _ h.dot_mem) (by decide)

theorem units?_eq_some_iff {parts : List Bytes} {n : Nat} :
    units? parts = some n ↔ Units parts n := by
  constructor
  · intro h
    induction parts using units?.induct generalizing n with
    | case1 =>
      cases h
      exact .nil
    | case2 last hgroup =>
      rw [units?, if_pos hgroup] at h
      cases h
      exact .group (isGroup_iff.mp hgroup) .nil
    | case3 last hgroup hliteral =>
      rw [units?, if_neg hgroup, if_pos hliteral] at h
      cases h
      exact .literal (isIPv4_iff.mp hliteral)
    | case4 last hgroup hliteral =>
      rw [units?, if_neg hgroup, if_neg hliteral] at h
      cases h
    | case5 group rest hne hgroup ih =>
      rw [units?, if_pos hgroup] at h
      · obtain ⟨m, hm, rfl⟩ := Option.map_eq_some_iff.mp h
        exact .group (isGroup_iff.mp hgroup) (ih hm)
      · exact hne
    | case6 group rest hne hgroup =>
      rw [units?, if_neg hgroup] at h
      · cases h
      · exact hne
  · intro h
    induction h with
    | nil => rfl
    | @literal s h =>
      -- A literal has dots in it, so it is not taken for a group first.
      have hgroup : ¬ isGroup s = true := fun hgroup => h.not_group (isGroup_iff.mp hgroup)
      rw [units?, if_neg hgroup, if_pos (isIPv4_iff.mpr h)]
    | @group g parts n hgroup h ih =>
      rw [← isGroup_iff] at hgroup
      cases parts with
      | nil =>
        cases h
        rw [units?, if_pos hgroup]
      | cons part rest =>
        rw [units?, if_pos hgroup, ih, Option.map_some]
        exact fun h => by cases h

/-- A part between colons is not empty and has no colon itself. -/
structure Part (s : Bytes) : Prop where
  nonempty : s ≠ []
  plain : byte ':' ∉ s

theorem Group.part {s : Bytes} (h : Group s) : Part s where
  nonempty := List.ne_nil_of_length_pos h.nonempty
  plain := fun hcolon => absurd (h.digits _ hcolon) (by decide)

theorem IPv4.part {s : Bytes} (h : IPv4 s) : Part s where
  nonempty := List.ne_nil_of_mem h.dot_mem
  plain := fun hcolon => absurd (h.bytes _ hcolon) (by decide)

theorem Units.parts {parts : List Bytes} {n : Nat} (h : Units parts n) :
    ∀ part ∈ parts, Part part := by
  induction h with
  | nil => nofun
  | literal h => exact List.forall_mem_singleton.mpr h.part
  | group hgroup _ ih => exact List.forall_mem_cons.mpr ⟨hgroup.part, ih⟩

theorem Units.length_le {parts : List Bytes} {n : Nat} (h : Units parts n) :
    parts.length ≤ n ∧ ∀ part ∈ parts, part.length ≤ 16 := by
  induction h with
  | nil => exact ⟨Nat.le_refl 0, nofun⟩
  | literal h => exact ⟨Nat.le_succ 1, List.forall_mem_singleton.mpr h.length_le⟩
  | group hgroup _ ih =>
    exact ⟨Nat.succ_le_succ ih.1,
      List.forall_mem_cons.mpr ⟨Nat.le_trans hgroup.short (by decide), ih.2⟩⟩

/-! ## IPv6 -/

theorem cutDouble_cons {a : UInt8} {s : Bytes} (h : a = byte ':' → s.head? ≠ some (byte ':')) :
    cutDouble (a :: s) = (cutDouble s).map fun cut => (a :: cut.1, cut.2) := by
  cases s with
  | nil => rfl
  | cons b rest =>
    have hne : ¬ (a = byte ':' ∧ b = byte ':') := fun hcolons =>
      h hcolons.1 (congrArg some hcolons.2)
    rw [cutDouble, if_neg hne]

theorem cutDouble_append {g : Bytes} (h : byte ':' ∉ g) (s : Bytes) :
    cutDouble (g ++ s) = (cutDouble s).map fun cut => (g ++ cut.1, cut.2) := by
  induction g with
  | nil => simp
  | cons a g ih =>
    rw [List.mem_cons, not_or] at h
    rw [List.cons_append, cutDouble_cons fun ha => absurd ha.symm h.1, ih h.2, Option.map_map]
    rfl

theorem head?_intercalate {parts : List Bytes} (hne : parts ≠ [])
    (h : ∀ part ∈ parts, Part part) (s : Bytes) :
    ([byte ':'].intercalate parts ++ s).head? ≠ some (byte ':') := by
  match parts with
  | [] => contradiction
  | [] :: _ => exact absurd rfl (h [] List.mem_cons_self).nonempty
  | (b :: part) :: rest =>
    have hb : b ≠ byte ':' := fun heq =>
      (h (b :: part) List.mem_cons_self).plain (heq ▸ List.mem_cons_self)
    cases rest <;> simpa using hb

/-- Parts with single colons between them have no double colon. -/
theorem cutDouble_intercalate {parts : List Bytes} (h : ∀ part ∈ parts, Part part) (s : Bytes) :
    cutDouble ([byte ':'].intercalate parts ++ s) =
      (cutDouble s).map fun cut => ([byte ':'].intercalate parts ++ cut.1, cut.2) := by
  induction parts with
  | nil => simp
  | cons part parts ih =>
    obtain ⟨hpart, hparts⟩ := List.forall_mem_cons.mp h
    cases parts with
    | nil =>
      rw [List.intercalate_singleton]
      exact cutDouble_append hpart.plain s
    | cons next rest =>
      have hhead := head?_intercalate (List.cons_ne_nil next rest) hparts s
      rw [List.intercalate_cons_cons, List.append_assoc, List.append_assoc,
        cutDouble_append hpart.plain, List.singleton_append, cutDouble_cons fun _ => hhead,
        ih hparts, Option.map_map, Option.map_map]
      congr 1
      funext cut
      simp

theorem pieces_intercalate {parts : List Bytes} (hne : parts ≠ [])
    (h : ∀ part ∈ parts, Part part) :
    Bytes.pieces (byte ':') ([byte ':'].intercalate parts) = parts := by
  rw [Bytes.pieces_eq_splitOn,
    List.splitOn_intercalate _ (fun part hpart => (h part hpart).plain) hne]

theorem side_intercalate {parts : List Bytes} (h : ∀ part ∈ parts, Part part) :
    side ([byte ':'].intercalate parts) = parts := by
  cases parts with
  | nil => rfl
  | cons part rest =>
    have hne : [byte ':'].intercalate (part :: rest) ≠ [] := by
      have hpart := (h part List.mem_cons_self).nonempty
      cases rest <;> simp [hpart]
    rw [side, if_neg (by simpa using hne), pieces_intercalate (List.cons_ne_nil _ _) h]

theorem intercalate_side (s : Bytes) : [byte ':'].intercalate (side s) = s := by
  rw [side]
  split
  · rename_i hempty
    rw [List.isEmpty_iff.mp hempty]
    rfl
  · rw [Bytes.pieces_eq_splitOn, List.intercalate_splitOn]

theorem isIPv6_iff {s : Bytes} : isIPv6 s = true ↔ IPv6 s := by
  constructor
  · intro h
    rw [isIPv6] at h
    split at h
    · rename_i hcut
      have hunits := units?_eq_some_iff.mp (beq_iff_eq.mp h)
      have hs : s = [byte ':'].intercalate (Bytes.pieces (byte ':') s) := by
        rw [Bytes.pieces_eq_splitOn, List.intercalate_splitOn]
      rw [hs]
      exact .full hunits
    · rename_i before after hcut
      rw [Bool.and_eq_true, List.all_eq_true] at h
      obtain ⟨hfront, hback⟩ := h
      split at hback
      · rename_i n hn
        rw [Address.cutDouble_append hcut, ← intercalate_side before, ← intercalate_side after]
        exact .short (fun g hg => isGroup_iff.mp (hfront g hg)) (units?_eq_some_iff.mp hn)
          (of_decide_eq_true hback)
      · cases hback
  · intro h
    cases h with
    | @full parts h =>
      have hne : parts ≠ [] := by
        rintro rfl
        cases h
      have hcut := cutDouble_intercalate h.parts []
      rw [List.append_nil] at hcut
      have hnone : cutDouble ([byte ':'].intercalate parts) = none := hcut
      rw [isIPv6, hnone]
      simp only [pieces_intercalate hne h.parts, units?_eq_some_iff.mpr h, BEq.rfl]
    | @short front back n hfront hback hmissing =>
      -- The parts in front have single colons, so the first double one is where they end.
      have hparts : ∀ g ∈ front, Part g := fun g hg => (hfront g hg).part
      have hdouble : cutDouble (byte ':' :: byte ':' :: [byte ':'].intercalate back) =
          some ([], [byte ':'].intercalate back) := by
        rw [cutDouble, if_pos ⟨rfl, rfl⟩]
      rw [isIPv6, cutDouble_intercalate hparts, hdouble]
      simp only [Option.map_some, List.append_nil, side_intercalate hparts,
        side_intercalate hback.parts, units?_eq_some_iff.mpr hback, Bool.and_eq_true,
        List.all_eq_true, decide_eq_true_eq, hmissing, and_true]
      exact fun g hg => isGroup_iff.mpr (hfront g hg)

theorem IPv6.length_le {s : Bytes} (h : IPv6 s) : s.length ≤ 253 := by
  cases h with
  | full h =>
    have hcount := h.length_le.1
    have hlength := Bytes.length_intercalate_le (byte ':') h.length_le.2
    omega
  | @short front back n hfront hback hmissing =>
    have hcount := hback.length_le.1
    have hlength := Bytes.length_intercalate_le (byte ':') hback.length_le.2
    have hfrontLength := Bytes.length_intercalate_le (byte ':')
      fun g hg => (hfront g hg).short
    rw [List.length_append, List.length_cons, List.length_cons]
    omega

end Literal

end TargetDiscovery
