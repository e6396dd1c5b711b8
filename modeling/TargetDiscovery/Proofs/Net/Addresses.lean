import Mathlib.Data.Nat.Digits.Defs
import TargetDiscovery.Proofs.Net.Literals

/-!
# The grammar of scrape addresses

A scrape address is a host, a colon and the digits of a port. The host is an IPv6 literal in
brackets, or it has no colon and is an IPv4 literal or a host name. The check accepts exactly the
addresses of this form that are not too long, and of those without a zero byte none is too long.
-/

set_option autoImplicit false

namespace TargetDiscovery

/-! ## Cutting and counting -/

namespace Bytes

theorem not_mem_before (sep : UInt8) (s : Bytes) : sep ∉ before sep s := fun hmem => by
  rw [before] at hmem
  simpa using List.mem_takeWhile_imp hmem

theorem cut_of_not_mem {sep : UInt8} {first : Bytes} (h : sep ∉ first) (rest : Option Bytes) :
    cut sep (first ++ (rest.map (sep :: ·)).getD []) = (first, rest) := by
  induction first with
  | nil => cases rest <;> simp [cut]
  | cons b first ih =>
    rw [List.mem_cons, not_or] at h
    rw [List.cons_append, cut, if_neg (Ne.symm h.1), ih h.2]

theorem cut_eq_iff {sep : UInt8} {s first : Bytes} {rest : Option Bytes} :
    cut sep s = (first, rest) ↔ s = first ++ (rest.map (sep :: ·)).getD [] ∧ sep ∉ first := by
  constructor
  · intro h
    have happend := cut_append sep s
    rw [h] at happend
    have hfirst : first = before sep s := by rw [← cut_before, h]
    exact ⟨happend, hfirst ▸ not_mem_before sep s⟩
  · rintro ⟨rfl, hfirst⟩
    exact cut_of_not_mem hfirst rest

theorem cutLast_eq_none_iff {sep : UInt8} {s : Bytes} : cutLast sep s = none ↔ sep ∉ s := by
  induction s with
  | nil => simp [cutLast]
  | cons b s ih =>
    rw [cutLast, List.mem_cons, not_or, ← ih]
    cases cutLast sep s with
    | none => simp [eq_comm]
    | some cut => simp

theorem cutLast_of_not_mem {sep : UInt8} {last : Bytes} (h : sep ∉ last) (first : Bytes) :
    cutLast sep (first ++ sep :: last) = some (first, last) := by
  induction first with
  | nil => rw [List.nil_append, cutLast, cutLast_eq_none_iff.mpr h]; exact if_pos rfl
  | cons b first ih => rw [List.cons_append, cutLast, ih]

theorem cutLast_not_mem {sep : UInt8} {s first last : Bytes}
    (h : cutLast sep s = some (first, last)) : sep ∉ last := by
  induction s generalizing first with
  | nil => cases h
  | cons b s ih =>
    rw [cutLast] at h
    split at h
    · rename_i before after hcut
      cases h
      exact ih hcut
    · rename_i hcut
      split at h
      · cases h
        exact cutLast_eq_none_iff.mp hcut
      · cases h

theorem cutLast_eq_some_iff {sep : UInt8} {s first last : Bytes} :
    cutLast sep s = some (first, last) ↔ s = first ++ sep :: last ∧ sep ∉ last :=
  ⟨fun h => ⟨cutLast_append h, cutLast_not_mem h⟩,
    fun ⟨hs, hlast⟩ => hs ▸ cutLast_of_not_mem hlast first⟩

/-- The number that digits denote, the last one as the ones. -/
def value (s : Bytes) : Nat := Nat.ofDigits 10 (s.reverse.map fun d => d.toNat - 48)

theorem valueFrom_eq (n : Nat) (s : Bytes) : valueFrom n s = n * 10 ^ s.length + value s := by
  induction s generalizing n with
  | nil => rw [valueFrom_nil, List.length_nil, Nat.pow_zero, Nat.mul_one]; rfl
  | cons d s ih =>
    have hvalue : value (d :: s) = value s + 10 ^ s.length * (d.toNat - 48) := by
      rw [value, List.reverse_cons, List.map_append, Nat.ofDigits_append, List.length_map,
        List.length_reverse, List.map_singleton, Nat.ofDigits_singleton]
      rfl
    rw [valueFrom_cons, ih, hvalue, List.length_cons, Nat.pow_succ]
    ring

theorem decimal?_eq_some_iff {s : Bytes} {n : Nat} :
    decimal? s = some n ↔ s ≠ [] ∧ (∀ b ∈ s, isDigit b = true) ∧ value s = n := by
  have hvalue : valueFrom 0 s = value s := by rw [valueFrom_eq, Nat.zero_mul, Nat.zero_add]
  rw [decimal?, hvalue]
  by_cases hempty : s = []
  · simp [hempty]
  · simp [hempty]

end Bytes

namespace Address

/-! ## Ports -/

structure PortNumber (port : Bytes) : Prop where
  nonempty : port ≠ []
  digits : ∀ b ∈ port, Bytes.isDigit b = true
  positive : 1 ≤ Bytes.value port
  small : Bytes.value port ≤ 65535

theorem isSome_port?_iff {port : Bytes} : (port? port).isSome = true ↔ PortNumber port := by
  rw [port?]
  constructor
  · intro h
    split at h
    · rename_i n hn
      split at h
      · rename_i hrange
        obtain ⟨hnonempty, hdigits, rfl⟩ := Bytes.decimal?_eq_some_iff.mp hn
        exact ⟨hnonempty, hdigits, Nat.one_le_iff_ne_zero.mpr hrange.1, hrange.2⟩
      · cases h
    · cases h
  · intro h
    have hrange : Bytes.value port ≠ 0 ∧ Bytes.value port ≤ 65535 :=
      ⟨Nat.one_le_iff_ne_zero.mp h.positive, h.small⟩
    rw [Bytes.decimal?_eq_some_iff.mpr ⟨h.nonempty, h.digits, rfl⟩]
    simp only [if_pos hrange, Option.isSome_some]

theorem isPort_iff {port : Bytes} : isPort port = true ↔ port.length ≤ 5 ∧ PortNumber port := by
  rw [isPort, Bool.and_eq_true, decide_eq_true_eq, isSome_port?_iff]

theorem PortNumber.colon_not_mem {port : Bytes} (h : PortNumber port) : byte ':' ∉ port :=
  fun hcolon => absurd (h.digits _ hcolon) (by decide)

/-! ## Host names -/

structure Label (s : Bytes) : Prop where
  nonempty : 1 ≤ s.length
  short : s.length ≤ 63
  first : s.head? ≠ some (byte '-')
  last : s.getLast? ≠ some (byte '-')
  plain : ∀ b ∈ s, Bytes.isAlphanumeric b = true ∨ b = byte '-'

structure HostName (s : Bytes) : Prop where
  short : s.length ≤ 253
  named : ∃ b ∈ s, b ≠ byte '.' ∧ ¬ Bytes.isDigit b = true
  labelled : ∃ labels : List Bytes, labels ≠ [] ∧ (∀ label ∈ labels, Label label) ∧
    s = [byte '.'].intercalate labels

theorem isHostLabel_iff {s : Bytes} : isHostLabel s = true ↔ Label s := by
  simp only [isHostLabel, Bool.and_eq_true, decide_eq_true_eq, bne_iff_ne, List.all_eq_true,
    Bool.or_eq_true, beq_iff_eq]
  constructor
  · rintro ⟨⟨⟨⟨hnonempty, hshort⟩, hfirst⟩, hlast⟩, hplain⟩
    exact ⟨hnonempty, hshort, hfirst, hlast, hplain⟩
  · intro h
    exact ⟨⟨⟨⟨h.nonempty, h.short⟩, h.first⟩, h.last⟩, h.plain⟩

theorem Label.dot_not_mem {s : Bytes} (h : Label s) : byte '.' ∉ s := fun hdot => by
  rcases h.plain _ hdot with halnum | hdash
  · exact absurd halnum (by decide)
  · exact absurd hdash (by decide)

theorem labelled_iff {s : Bytes} :
    (∀ label ∈ Bytes.pieces (byte '.') s, Label label) ↔
      ∃ labels : List Bytes, labels ≠ [] ∧ (∀ label ∈ labels, Label label) ∧
        s = [byte '.'].intercalate labels := by
  constructor
  · intro h
    refine ⟨_, Bytes.pieces_ne_nil (byte '.') s, h, ?_⟩
    rw [Bytes.pieces_eq_splitOn, List.intercalate_splitOn]
  · rintro ⟨labels, hne, h, rfl⟩
    rw [Bytes.pieces_eq_splitOn,
      List.splitOn_intercalate _ (fun label hlabel => (h label hlabel).dot_not_mem) hne]
    exact h

theorem isHostName_iff {s : Bytes} : isHostName s = true ↔ HostName s := by
  have hnamed : (!s.all fun b => b == byte '.' || Bytes.isDigit b) = true ↔
      ∃ b ∈ s, b ≠ byte '.' ∧ ¬ Bytes.isDigit b = true := by simp
  simp only [isHostName, Bool.and_eq_true, hnamed, decide_eq_true_eq, List.all_eq_true,
    isHostLabel_iff, labelled_iff]
  constructor
  · rintro ⟨⟨⟨-, hshort⟩, hname⟩, hlabels⟩
    exact ⟨hshort, hname, hlabels⟩
  · intro h
    obtain ⟨b, hb, -⟩ := h.named
    have hnonempty : (!s.isEmpty) = true := by
      simpa using List.ne_nil_of_mem hb
    exact ⟨⟨⟨hnonempty, h.short⟩, h.named⟩, h.labelled⟩

/-! ## Addresses -/

/-- A host that is written without brackets. -/
structure Bare (host : Bytes) : Prop where
  plain : byte ':' ∉ host
  closed : host.head? ≠ some (byte '[')

inductive Host : Bytes → Prop
  | literal {h : Bytes} (hplain : byte ']' ∉ h) (hliteral : Literal.IPv6 (Bytes.toNul h)) :
      Host (byte '[' :: (h ++ [byte ']']))
  | dotted {h : Bytes} (hbare : Bare h) (hliteral : Literal.IPv4 (Bytes.toNul h)) : Host h
  | name {h : Bytes} (hbare : Bare h) (hname : HostName h) : Host h

def Formed (address : Bytes) : Prop :=
  ∃ host port, address = host ++ byte ':' :: port ∧ Host host ∧ port.length ≤ 5 ∧ PortNumber port

theorem bracketed?_eq_some_iff {s host port : Bytes} :
    bracketed? s = some (host, port) ↔
      s = host ++ byte ']' :: byte ':' :: port ∧ byte ']' ∉ host := by
  constructor
  · intro h
    refine ⟨bracketed?_append h, ?_⟩
    rw [bracketed?] at h
    split at h
    · rename_i first colon last hcut
      split at h
      · cases h
        exact (Bytes.cut_eq_iff.mp hcut).2
      · cases h
    · cases h
  · intro h
    have hcut : Bytes.cut (byte ']') s = (host, some (byte ':' :: port)) := Bytes.cut_eq_iff.mpr h
    rw [bracketed?, hcut]
    exact if_pos rfl

theorem isValid_literal {rest : Bytes} :
    isValid (byte '[' :: rest) = true ↔ (byte '[' :: rest).length ≤ 261 ∧
      ∃ h port, rest = h ++ byte ']' :: byte ':' :: port ∧ byte ']' ∉ h ∧
        Literal.IPv6 (Bytes.toNul h) ∧ isPort port = true := by
  rw [isValid, Bool.and_eq_true, decide_eq_true_eq]
  refine and_congr_right fun _ => ?_
  rw [if_pos rfl]
  constructor
  · intro h
    split at h
    · rename_i host port hcut
      simp only [Bool.and_eq_true, Literal.isIPv6_iff] at h
      obtain ⟨hrest, hplain⟩ := bracketed?_eq_some_iff.mp hcut
      exact ⟨host, port, hrest, hplain, h.2, h.1.1⟩
    · cases h
  · rintro ⟨h, port, hrest, hplain, hliteral, hport⟩
    have hne : h ≠ [] := by
      rintro rfl
      exact absurd (Literal.isIPv6_iff.mpr hliteral) (by decide)
    rw [bracketed?_eq_some_iff.mpr ⟨hrest, hplain⟩]
    simp [hport, hne, Literal.isIPv6_iff.mpr hliteral]

theorem ne_nil_of_reads {host : Bytes} (h : Literal.IPv4 (Bytes.toNul host) ∨ HostName host) :
    host ≠ [] := by
  rintro rfl
  rcases h with hliteral | hname
  · exact absurd (Literal.isIPv4_iff.mpr hliteral) (by decide)
  · exact absurd (isHostName_iff.mpr hname) (by decide)

theorem Bare.not_open {host : Bytes} (h : Bare host) (hne : host ≠ []) (rest : Bytes) :
    (host ++ rest).head? ≠ some (byte '[') := by
  obtain ⟨b, tail, rfl⟩ := List.exists_cons_of_ne_nil hne
  exact h.closed

theorem isValid_bare {address : Bytes} (hopen : address.head? ≠ some (byte '[')) :
    isValid address = true ↔ address.length ≤ 261 ∧
      ∃ host port, address = host ++ byte ':' :: port ∧ byte ':' ∉ host ∧
        (Literal.IPv4 (Bytes.toNul host) ∨ HostName host) ∧ isPort port = true := by
  cases address with
  | nil => simp [isValid]
  | cons first rest =>
    have hfirst : first ≠ byte '[' := fun heq => hopen (congrArg some heq)
    rw [isValid, Bool.and_eq_true, decide_eq_true_eq]
    refine and_congr_right fun _ => ?_
    rw [if_neg hfirst]
    constructor
    · intro h
      split at h
      · rename_i host port hcut
        simp only [Bool.and_eq_true, Bool.or_eq_true, Literal.isIPv4_iff, isHostName_iff,
          Bool.not_eq_true', List.contains_eq_mem, decide_eq_false_iff_not] at h
        obtain ⟨⟨⟨hplain, hport⟩, -⟩, hhost⟩ := h
        exact ⟨host, port, Bytes.cutLast_append hcut, hplain, hhost, hport⟩
      · cases h
    · rintro ⟨host, port, haddress, hplain, hhost, hport⟩
      -- Digits have no colon, so the last one is that in front of the port.
      have hcolon := (isPort_iff.mp hport).2.colon_not_mem
      have hne := ne_nil_of_reads hhost
      rw [Bytes.cutLast_eq_some_iff.mpr ⟨haddress, hcolon⟩]
      simp [hplain, hport, hne, Literal.isIPv4_iff, isHostName_iff, hhost]

theorem isValid_iff {address : Bytes} :
    isValid address = true ↔ address.length ≤ 261 ∧ Formed address := by
  by_cases hopen : address.head? = some (byte '[')
  · obtain ⟨rest, rfl⟩ := List.head?_eq_some_iff.mp hopen
    rw [isValid_literal]
    refine and_congr_right fun _ => ⟨?_, ?_⟩
    · rintro ⟨h, port, rfl, hplain, hliteral, hport⟩
      exact ⟨byte '[' :: (h ++ [byte ']']), port, by simp, .literal hplain hliteral,
        isPort_iff.mp hport⟩
    · rintro ⟨host, port, haddress, hhost, hport⟩
      cases hhost with
      | @literal h hplain hliteral =>
        exact ⟨h, port, by simpa using haddress, hplain, hliteral, isPort_iff.mpr hport⟩
      | dotted hbare hliteral =>
        exact absurd hopen (haddress ▸ hbare.not_open (ne_nil_of_reads (.inl hliteral)) _)
      | name hbare hname =>
        exact absurd hopen (haddress ▸ hbare.not_open (ne_nil_of_reads (.inr hname)) _)
  · rw [isValid_bare hopen]
    refine and_congr_right fun _ => ⟨?_, ?_⟩
    · rintro ⟨host, port, rfl, hplain, hreads, hport⟩
      have hbare : Bare host := ⟨hplain, fun hhead => hopen (by simp [hhead])⟩
      refine ⟨host, port, rfl, ?_, isPort_iff.mp hport⟩
      exact hreads.elim (.dotted hbare) (.name hbare)
    · rintro ⟨host, port, rfl, hhost, hport⟩
      cases hhost with
      | literal => exact absurd rfl hopen
      | dotted hbare hliteral =>
        exact ⟨host, port, rfl, hbare.plain, .inl hliteral, isPort_iff.mpr hport⟩
      | name hbare hname =>
        exact ⟨host, port, rfl, hbare.plain, .inr hname, isPort_iff.mpr hport⟩

theorem Host.length_le {host : Bytes} (h : Host host) (hzero : 0 ∉ host) : host.length ≤ 255 := by
  cases h with
  | @literal h hplain hliteral =>
    have hclean : 0 ∉ h := fun hmem =>
      hzero (List.mem_cons_of_mem _ (List.mem_append_left _ hmem))
    rw [Bytes.toNul_eq_self hclean] at hliteral
    have hlength := hliteral.length_le
    rw [List.length_cons, List.length_append, List.length_singleton]
    omega
  | dotted hbare hliteral =>
    rw [Bytes.toNul_eq_self hzero] at hliteral
    exact Nat.le_trans hliteral.length_le (by decide)
  | name hbare hname => exact Nat.le_trans hname.short (by decide)

theorem Formed.length_le {address : Bytes} (h : Formed address) (hzero : 0 ∉ address) :
    address.length ≤ 261 := by
  obtain ⟨host, port, rfl, hhost, hshort, -⟩ := h
  have hlength := hhost.length_le fun hmem => hzero (List.mem_append_left _ hmem)
  rw [List.length_append, List.length_cons]
  omega

/-- The limit on the length cuts off only addresses with a zero byte in them. -/
theorem valid_iff_formed (address : Bytes) :
    (isValid address = true ↔ address.length ≤ 261 ∧ Formed address) ∧
      (0 ∉ address → Formed address → address.length ≤ 261) :=
  ⟨isValid_iff, fun hzero h => h.length_le hzero⟩

/-- Digits and dots that are no literal are no host name either. -/
example : isValid (ascii "10.0.0.256:9090") = false := by decide +kernel

end Address

end TargetDiscovery
