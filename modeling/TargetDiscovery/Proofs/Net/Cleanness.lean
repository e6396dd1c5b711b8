import Mathlib.Data.List.TakeWhile
import TargetDiscovery.Json.Plain
import TargetDiscovery.Proofs.Target.Identities
import TargetDiscovery.Registry.Response

/-!
# The bytes of published addresses

What can stand in a host and a port is written with letters, digits and four signs. The host of a
valid address is made of these up to its first zero byte, where a literal ends for the check, and so
is the port. What stands between the zero byte and the port is not looked at, so an address that is
published is clean exactly when it has no zero byte.
-/

set_option autoImplicit false

namespace TargetDiscovery

namespace Bytes

theorem mem_pieces (sep : UInt8) {s : Bytes} {b : UInt8} (hb : b ∈ s) :
    b = sep ∨ ∃ piece ∈ pieces sep s, b ∈ piece := by
  induction s with
  | nil => cases hb
  | cons x s ih =>
    rw [pieces]
    by_cases hx : x = sep
    · rw [if_pos hx]
      rcases List.mem_cons.mp hb with rfl | hb
      · exact .inl hx
      · refine (ih hb).imp_right ?_
        rintro ⟨piece, hpiece, hb⟩
        exact ⟨piece, List.mem_cons_of_mem _ hpiece, hb⟩
    · rw [if_neg hx]
      cases hp : pieces sep s with
      | nil => exact absurd hp (pieces_ne_nil sep s)
      | cons first more =>
        rw [hp] at ih
        rcases List.mem_cons.mp hb with rfl | hb
        · exact .inr ⟨b :: first, List.mem_cons_self, List.mem_cons_self⟩
        · refine (ih hb).imp_right ?_
          rintro ⟨piece, hpiece, hb⟩
          rcases List.mem_cons.mp hpiece with rfl | hpiece
          · exact ⟨x :: piece, List.mem_cons_self, List.mem_cons_of_mem _ hb⟩
          · exact ⟨piece, List.mem_cons_of_mem _ hpiece, hb⟩

theorem isDigit_of_decimal? {s : Bytes} {n : Nat} (h : decimal? s = some n) :
    ∀ b ∈ s, isDigit b = true := by
  rw [decimal?] at h
  split at h
  · cases h
  · split at h
    · rename_i hall
      exact List.all_eq_true.mp hall
    · cases h

theorem cutLast_append {sep : UInt8} {s first last : Bytes}
    (h : cutLast sep s = some (first, last)) : s = first ++ sep :: last := by
  induction s generalizing first last with
  | nil => cases h
  | cons b s ih =>
    rw [cutLast] at h
    split at h
    · rename_i before behind hcut
      cases h
      rw [ih hcut]
      rfl
    · split at h
      · rename_i hb
        cases h
        rw [hb]
        rfl
      · cases h

theorem mem_of_mem_toNul {s : Bytes} {b : UInt8} (hb : b ∈ toNul s) : b ∈ s :=
  (List.takeWhile_sublist _).subset hb

theorem toNul_eq_self {s : Bytes} (h : 0 ∉ s) : toNul s = s :=
  List.takeWhile_eq_self_iff.mpr fun b hb => by
    simp only [bne_iff_ne, ne_eq]
    rintro rfl
    exact h hb

theorem toNul_cons {b : UInt8} (hb : b ≠ 0) (s : Bytes) : toNul (b :: s) = b :: toNul s :=
  List.takeWhile_cons_of_pos (by simpa using hb)

theorem mem_toNul_append {s t : Bytes} {b : UInt8} (hb : b ∈ toNul (s ++ t)) :
    b ∈ toNul s ∨ b ∈ t := by
  induction s with
  | nil => exact .inr (mem_of_mem_toNul hb)
  | cons x s ih =>
    by_cases hx : x = 0
    · subst hx
      cases hb
    · rw [List.cons_append, toNul_cons hx] at hb
      rw [toNul_cons hx]
      rcases List.mem_cons.mp hb with rfl | hb
      · exact .inl List.mem_cons_self
      · exact (ih hb).imp_left (List.mem_cons_of_mem _)

end Bytes

namespace Address

/-- The bytes of hosts and ports: letters, digits, and the signs between them. -/
def isClean (b : UInt8) : Bool :=
  Bytes.isAlphanumeric b || b == byte '.' || b == byte '-' || b == byte ':' || b == byte '[' ||
    b == byte ']'

variable {b : UInt8}

theorem isClean_of_alphanumeric (h : Bytes.isAlphanumeric b = true) : isClean b = true := by
  simp [isClean, h]

theorem isClean_of_digit (h : Bytes.isDigit b = true) : isClean b = true :=
  isClean_of_alphanumeric (by rw [Bytes.isAlphanumeric, h, Bool.true_or])

theorem isClean_of_hexValue (h : (Bytes.hexValue b).isSome = true) : isClean b = true := by
  apply isClean_of_alphanumeric
  rw [Bytes.hexValue] at h
  rw [Bytes.isAlphanumeric, Bytes.isLetter, Bool.or_eq_true, Bool.or_eq_true]
  split at h
  · rename_i hdigit
    exact .inl hdigit
  split at h
  · rename_i hlower
    simp only [Bool.and_eq_true, decide_eq_true_eq] at hlower
    right; right
    simp only [Bytes.isLower, Bool.and_eq_true, decide_eq_true_eq]
    exact ⟨hlower.1, UInt8.le_trans hlower.2 (by decide)⟩
  split at h
  · rename_i hupper
    simp only [Bool.and_eq_true, decide_eq_true_eq] at hupper
    right; left
    simp only [Bytes.isUpper, Bool.and_eq_true, decide_eq_true_eq]
    exact ⟨hupper.1, UInt8.le_trans hupper.2 (by decide)⟩
  · cases h

/-! ## Hosts and ports -/

def Clean (s : Bytes) : Prop := ∀ b ∈ s, isClean b = true

/-- A text is clean when its pieces are, and what separates them. -/
theorem clean_of_pieces (sep : UInt8) {s : Bytes} (hsep : isClean sep = true)
    (h : ∀ piece ∈ Bytes.pieces sep s, Clean piece) : Clean s := by
  intro b hb
  rcases Bytes.mem_pieces sep hb with hb | ⟨piece, hpiece, hb⟩
  · rw [hb]
    exact hsep
  · exact h piece hpiece b hb

theorem clean_of_isIPv4 {s : Bytes} (h : Literal.isIPv4 s = true) : Clean s := by
  rw [Literal.isIPv4, Bool.and_eq_true, List.all_eq_true] at h
  refine clean_of_pieces (byte '.') (by decide) fun piece hpiece b hb => ?_
  have hoctet := h.2 piece hpiece
  rw [Literal.isOctet] at hoctet
  split at hoctet
  · rename_i n hn
    exact isClean_of_digit (Bytes.isDigit_of_decimal? hn b hb)
  · cases hoctet

theorem clean_of_isGroup {s : Bytes} (h : Literal.isGroup s = true) : Clean s := by
  rw [Literal.isGroup, Bool.and_eq_true, List.all_eq_true] at h
  exact fun b hb => isClean_of_hexValue (h.2 b hb)

theorem clean_of_units? {parts : List Bytes} {n : Nat} (h : Literal.units? parts = some n) :
    ∀ part ∈ parts, Clean part := by
  have hone : ∀ {part last : Bytes}, Clean last → part ∈ [last] → Clean part := by
    intro part last hlast hpart
    rw [List.mem_singleton.mp hpart]
    exact hlast
  induction parts using Literal.units?.induct generalizing n with
  | case1 => nofun
  | case2 last hgroup => exact fun part => hone (clean_of_isGroup hgroup)
  | case3 last hgroup hliteral => exact fun part => hone (clean_of_isIPv4 hliteral)
  | case4 last hgroup hliteral =>
    rw [Literal.units?, if_neg hgroup, if_neg hliteral] at h
    cases h
  | case5 group rest hne hgroup ih =>
    rw [Literal.units?, if_pos hgroup] at h
    · obtain ⟨m, hm, _⟩ := Option.map_eq_some_iff.mp h
      intro part hpart
      rcases List.mem_cons.mp hpart with rfl | hpart
      · exact clean_of_isGroup hgroup
      · exact ih hm part hpart
    · exact hne
  | case6 group rest hne hgroup =>
    rw [Literal.units?, if_neg hgroup] at h
    · cases h
    · exact hne

theorem cutDouble_append {s first last : Bytes} (h : Literal.cutDouble s = some (first, last)) :
    s = first ++ byte ':' :: byte ':' :: last := by
  induction s using Literal.cutDouble.induct generalizing first last with
  | case1 a b rest hcolons =>
    rw [Literal.cutDouble, if_pos hcolons] at h
    cases h
    rw [hcolons.1, hcolons.2]
    rfl
  | case2 a b rest hcolons ih =>
    rw [Literal.cutDouble, if_neg hcolons] at h
    obtain ⟨⟨before, behind⟩, hcut, hpair⟩ := Option.map_eq_some_iff.mp h
    cases hpair
    rw [ih hcut]
    rfl
  | case3 s hshort =>
    rw [Literal.cutDouble] at h
    · cases h
    · exact hshort

theorem clean_of_side {s : Bytes} (h : ∀ part ∈ Literal.side s, Clean part) : Clean s := by
  rw [Literal.side] at h
  split at h
  · rename_i hnil
    rw [List.isEmpty_iff.mp hnil]
    nofun
  · exact clean_of_pieces (byte ':') (by decide) h

theorem clean_of_isIPv6 {s : Bytes} (h : Literal.isIPv6 s = true) : Clean s := by
  rw [Literal.isIPv6] at h
  split at h
  · exact clean_of_pieces (byte ':') (by decide) (clean_of_units? (eq_of_beq h))
  · rename_i first last hcut
    rw [Bool.and_eq_true, List.all_eq_true] at h
    obtain ⟨hgroups, hunits⟩ := h
    have hfirst : Clean first :=
      clean_of_side fun part hpart => clean_of_isGroup (hgroups part hpart)
    have hlast : Clean last := by
      split at hunits
      · rename_i n hn
        exact clean_of_side (clean_of_units? hn)
      · cases hunits
    have hcolon : isClean (byte ':') = true := by decide
    rw [cutDouble_append hcut]
    intro b hb
    simp only [List.mem_append, List.mem_cons] at hb
    rcases hb with hb | rfl | rfl | hb
    · exact hfirst b hb
    · exact hcolon
    · exact hcolon
    · exact hlast b hb

theorem clean_of_isHostName {s : Bytes} (h : isHostName s = true) : Clean s := by
  rw [isHostName, Bool.and_eq_true, List.all_eq_true] at h
  refine clean_of_pieces (byte '.') (by decide) fun label hlabel b hb => ?_
  have hall := h.2 label hlabel
  rw [isHostLabel, Bool.and_eq_true, List.all_eq_true] at hall
  rcases Bool.or_eq_true _ _ ▸ hall.2 b hb with hb | hb
  · exact isClean_of_alphanumeric hb
  · rw [eq_of_beq hb]
    decide

theorem clean_of_isPort {s : Bytes} (h : isPort s = true) : Clean s := by
  rw [isPort, Bool.and_eq_true, port?] at h
  obtain ⟨_, h⟩ := h
  split at h
  · rename_i n hn
    exact fun b hb => isClean_of_digit (Bytes.isDigit_of_decimal? hn b hb)
  · cases h

/-! ## Addresses -/

theorem bracketed?_append {s host port : Bytes} (h : bracketed? s = some (host, port)) :
    s = host ++ byte ']' :: byte ':' :: port := by
  rw [bracketed?] at h
  split at h
  · rename_i first colon last hcut
    split at h
    · rename_i hcolon
      cases h
      have happend := Bytes.cut_append (byte ']') s
      rw [hcut, hcolon] at happend
      exact happend
    · cases h
  · cases h

/-- Up to its first zero byte a valid address is clean. -/
theorem clean_toNul {address : Bytes} (h : isValid address = true) :
    Clean (Bytes.toNul address) := by
  unfold isValid at h
  rw [Bool.and_eq_true] at h
  obtain ⟨_, h⟩ := h
  intro b hb
  cases address with
  | nil => cases h
  | cons first rest =>
    simp only at h
    split at h
    · rename_i hfirst
      split at h
      · rename_i host port hbracketed
        simp only [Bool.and_eq_true] at h
        obtain ⟨⟨hport, _⟩, hhost⟩ := h
        rw [hfirst, bracketed?_append hbracketed, ← List.cons_append] at hb
        rcases Bytes.mem_toNul_append hb with hb | hb
        · rw [Bytes.toNul_cons (by decide)] at hb
          rcases List.mem_cons.mp hb with rfl | hb
          · decide
          · exact clean_of_isIPv6 hhost b hb
        · simp only [List.mem_cons] at hb
          rcases hb with rfl | rfl | hb
          · decide
          · decide
          · exact clean_of_isPort hport b hb
      · cases h
    · split at h
      · rename_i host port hcut
        simp only [Bool.and_eq_true, Bool.or_eq_true] at h
        obtain ⟨⟨⟨_, hport⟩, _⟩, hhost⟩ := h
        rw [Bytes.cutLast_append hcut] at hb
        rcases Bytes.mem_toNul_append hb with hb | hb
        · rcases hhost with hliteral | hname
          · exact clean_of_isIPv4 hliteral b hb
          · exact clean_of_isHostName hname b (Bytes.mem_of_mem_toNul hb)
        · rcases List.mem_cons.mp hb with rfl | hb
          · decide
          · exact clean_of_isPort hport b hb
      · cases h

theorem clean_iff {address : Bytes} (h : isValid address = true) : Clean address ↔ 0 ∉ address := by
  constructor
  · intro hclean hzero
    exact absurd (hclean 0 hzero) (by decide)
  · intro hzero
    rw [← Bytes.toNul_eq_self hzero]
    exact clean_toNul h

end Address

namespace Conversion

theorem isValid_of_convert {c : Conversion} {r : NodeRecord} {t : Target}
    (h : c.convert r = .ok t) : Address.isValid t.address = true := by
  obtain ⟨-, -, hvalid, -, ht⟩ := convert_eq_ok.mp h
  rw [ht]
  exact hvalid

/-- An address that is published is clean up to its first zero byte, and all of it is clean exactly
when it has none. -/
theorem clean_of_listing {c : Conversion} {records : List NodeRecord} {l : Listing}
    (h : c.listing records = .ok l) {t : Target} (ht : t ∈ l.targets) :
    Address.Clean (Bytes.toNul t.address) ∧ (Address.Clean t.address ↔ 0 ∉ t.address) := by
  obtain ⟨r, _, hr⟩ := mem_accepted.mp ((perm_of_listing h).mem_iff.mp ht)
  have hvalid := isValid_of_convert hr
  exact ⟨Address.clean_toNul hvalid, Address.clean_iff hvalid⟩

/-- A node whose address has a zero byte and other bytes between the literal and the port. -/
def zeroByteNode : NodeRecord :=
  ⟨[], ascii "1.2.3.4" ++ 0 :: ascii "<junk>:80", [], ascii "replica", SortedMap.empty, false⟩

def zeroByteBody : Bytes :=
  ascii "\x7b\"version\":1,\"records\":[" ++
    ascii "\x7b\"address\":\"1.2.3.4\\u0000<junk>:80\",\"role\":\"replica\"\x7d]\x7d"

theorem zeroByteBody_read : RegistryState.ofResponse zeroByteBody none =
    .ok (.ok ⟨1, [zeroByteNode], zeroByteBody, none⟩) := by
  decide +kernel

/-- The conversion of the state for an instance with the standard jobs. -/
def zeroByteConversion : Conversion := ⟨ascii "alpha", JobRules.standard⟩

theorem listing_zeroByteNode : zeroByteConversion.listing [zeroByteNode] =
    .ok ⟨zeroByteConversion.sorted [zeroByteNode],
      (zeroByteConversion.rejected [zeroByteNode]).length⟩ :=
  listing_of_nodup (by decide +kernel)

/-- The bytes behind the zero byte are published, though no check has seen them. -/
theorem zeroByte_published : ∃ state l t,
    RegistryState.ofResponse zeroByteBody none = .ok (.ok state) ∧
      zeroByteConversion.listing state.records = .ok l ∧ t ∈ l.targets ∧
      ¬ Address.Clean t.address := by
  have hmem : ∃ t ∈ zeroByteConversion.accepted [zeroByteNode], t.address = zeroByteNode.address :=
    by decide +kernel
  obtain ⟨t, ht, haddress⟩ := hmem
  have hlisted : t ∈ zeroByteConversion.sorted [zeroByteNode] :=
    (List.mergeSort_perm _ _).mem_iff.mpr ht
  have hunclean : ¬ Address.Clean t.address := by
    intro hclean
    rw [haddress] at hclean
    exact absurd (hclean 0 (by decide)) (by decide)
  exact ⟨_, _, t, zeroByteBody_read, listing_zeroByteNode, hlisted, hunclean⟩

/-- In front of the zero byte there is nothing but the literal. -/
theorem clean_of_zeroByteNode : ∃ l t, zeroByteConversion.listing [zeroByteNode] = .ok l ∧
    t ∈ l.targets ∧ (Address.Clean (Bytes.toNul t.address) ∧
      (Address.Clean t.address ↔ 0 ∉ t.address)) := by
  have hmem : ∃ t, t ∈ zeroByteConversion.accepted [zeroByteNode] := by
    refine List.exists_mem_of_ne_nil _ ?_
    decide +kernel
  obtain ⟨t, ht⟩ := hmem
  have hlisted : t ∈ zeroByteConversion.sorted [zeroByteNode] :=
    (List.mergeSort_perm _ _).mem_iff.mpr ht
  exact ⟨_, t, listing_zeroByteNode, hlisted, clean_of_listing listing_zeroByteNode hlisted⟩

end Conversion

end TargetDiscovery
