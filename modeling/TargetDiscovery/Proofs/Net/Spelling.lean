import TargetDiscovery.Proofs.Net.Authority

/-!
# How registry URLs are written

An endpoint can be written in many ways. A host without colons needs no brackets, the port may be
left out, its digits may have zeros in front of them, and any number of slashes may stand behind the
base path. However it is written, what is read is the host, the port and the base path again.
-/

set_option autoImplicit false

namespace TargetDiscovery

namespace Bytes

theorem dropTrailing_append_replicate (b : UInt8) (s : Bytes) (n : Nat) :
    dropTrailing b (s ++ List.replicate n b) = dropTrailing b s := by
  have hall : ∀ c ∈ List.replicate n b, (c == b) = true := by
    intro c hc
    exact beq_iff_eq.mpr (List.eq_of_mem_replicate hc)
  rw [dropTrailing, List.reverse_append, List.reverse_replicate,
    List.dropWhile_append_of_pos hall, dropTrailing]

theorem dropTrailing_eq_self {b : UInt8} {s : Bytes} (h : s.getLast? ≠ some b) :
    dropTrailing b s = s := by
  rcases List.eq_nil_or_concat s with rfl | ⟨first, c, rfl⟩
  · rfl
  · rw [List.concat_eq_append] at h ⊢
    have hc : c ≠ b := by
      rintro rfl
      exact h List.getLast?_concat
    rw [dropTrailing, List.reverse_concat, List.dropWhile_cons_of_neg (by simpa using hc),
      List.reverse_cons, List.reverse_reverse]

end Bytes

namespace Endpoint

/-! ## Parts of a URL -/

/-- A host and a text for it: itself, unless a colon or a bracket would be misread, or in
brackets. -/
inductive HostText : Bytes → Bytes → Prop
  | bare {host : Bytes} (hopen : host.head? ≠ some (byte '[')) (hplain : byte ':' ∉ host) :
      HostText host host
  | bracketed {host : Bytes} (hplain : byte ']' ∉ host) :
      HostText host (byte '[' :: (host ++ [byte ']']))

/-- The digits of a port, which may be missing, and what stands for them behind a host. -/
inductive PortSuffix : Bytes → Bytes → Prop
  | missing : PortSuffix [] []
  | colon : PortSuffix [] [byte ':']
  | digits {port : Bytes} (h : Address.PortNumber port) : PortSuffix port (byte ':' :: port)

/-- A path as it is kept: none at all, or one that begins with a slash and does not end in one. -/
def BasePath (path : Bytes) : Prop :=
  path = [] ∨ path.head? = some (byte '/') ∧ path.getLast? ≠ some (byte '/')

variable {host text port suffix base : Bytes}

theorem PortSuffix.portText (h : PortSuffix port suffix) : PortText port := by
  cases h with
  | missing => exact .inl rfl
  | colon => exact .inl rfl
  | digits hnumber => exact .inr hnumber

theorem HostText.splits (hhost : HostText host text) (hport : PortSuffix port suffix) :
    Splits (text ++ suffix) host port := by
  have hcolon : byte ':' ∉ port := hport.portText.colon_not_mem
  cases hhost with
  | bare hopen hplain =>
    cases hport with
    | missing => rw [List.append_nil]; exact .bare hopen hplain
    | colon => exact .barePort hopen hcolon
    | digits => exact .barePort hopen hcolon
  | bracketed hplain =>
    rw [List.cons_append, List.append_assoc, List.singleton_append]
    cases hport with
    | missing => exact .literal hplain
    | colon => exact .literalPort hplain
    | digits => exact .literalPort hplain

theorem HostText.slash_not_mem (h : HostText host text) (hclosed : byte '/' ∉ host) :
    byte '/' ∉ text := by
  cases h with
  | bare => exact hclosed
  | bracketed =>
    simp only [List.mem_cons, List.mem_append, List.not_mem_nil, or_false, not_or]
    exact ⟨by decide, hclosed, by decide⟩

theorem PortSuffix.slash_not_mem (h : PortSuffix port suffix) : byte '/' ∉ suffix := by
  cases h with
  | missing => exact List.not_mem_nil
  | colon => decide
  | digits hnumber =>
    rw [List.mem_cons, not_or]
    exact ⟨by decide, fun hslash => absurd (hnumber.digits _ hslash) (by decide)⟩

theorem BasePath.dropTrailing (h : BasePath base) (slashes : Nat) :
    Bytes.dropTrailing (byte '/') (base ++ List.replicate slashes (byte '/')) = base := by
  rw [Bytes.dropTrailing_append_replicate]
  rcases h with rfl | ⟨-, hlast⟩
  · rfl
  · exact Bytes.dropTrailing_eq_self hlast

theorem BasePath.head? (h : BasePath base) (slashes : Nat) :
    base ++ List.replicate slashes (byte '/') = [] ∨
      (base ++ List.replicate slashes (byte '/')).head? = some (byte '/') := by
  rcases h with rfl | ⟨hhead, -⟩
  · cases slashes with
    | zero => exact .inl rfl
    | succ n => exact .inr rfl
  · obtain ⟨rest, rfl⟩ := List.head?_eq_some_iff.mp hhead
    exact .inr rfl

/-! ## Reading what was written -/

/-- What is read of a URL is what was written, with the digits of the port as they stand. -/
theorem parse_written (slashes : Nat) (hnamed : host ≠ []) (hclosed : byte '/' ∉ host)
    (hhost : HostText host text) (hport : PortSuffix port suffix) (hbase : BasePath base) :
    parse (ascii "http://" ++ text ++ suffix ++ base ++ List.replicate slashes (byte '/')) =
      .ok ⟨host, if port = [] then ascii "80" else port, base⟩ := by
  have hauthority : byte '/' ∉ text ++ suffix := by
    rw [List.mem_append, not_or]
    exact ⟨hhost.slash_not_mem hclosed, hport.slash_not_mem⟩
  have hreading : Reading
      (ascii "http://" ++ text ++ suffix ++ base ++ List.replicate slashes (byte '/'))
      (text ++ suffix) (base ++ List.replicate slashes (byte '/')) host port :=
    { text := by simp only [List.append_assoc]
      closed := hauthority
      path := hbase.head? slashes
      splits := hhost.splits hport
      named := hnamed
      port := hport.portText }
  apply parse_eq_ok_iff.mpr
  refine ⟨_, _, host, port, hreading, ?_⟩
  rw [written, hbase.dropTrailing slashes, defaultPort]

/-- A literal in brackets, zeros in front of the port, and slashes within and behind the path. -/
theorem parse_written_literal :
    ascii "2001:db8::1" ≠ [] ∧ byte '/' ∉ ascii "2001:db8::1" ∧
      HostText (ascii "2001:db8::1") (ascii "[2001:db8::1]") ∧
        PortSuffix (ascii "0009000") (ascii ":0009000") ∧ BasePath (ascii "/api//v1") ∧
          parse (ascii "http://" ++ ascii "[2001:db8::1]" ++ ascii ":0009000" ++
            ascii "/api//v1" ++ List.replicate 2 (byte '/')) =
              .ok ⟨ascii "2001:db8::1", ascii "0009000", ascii "/api//v1"⟩ :=
  have hnamed : ascii "2001:db8::1" ≠ [] := by decide
  have hclosed : byte '/' ∉ ascii "2001:db8::1" := by decide
  have hhost : HostText (ascii "2001:db8::1") (ascii "[2001:db8::1]") :=
    .bracketed (by decide)
  have hport : PortSuffix (ascii "0009000") (ascii ":0009000") :=
    .digits (Address.isSome_port?_iff.mp (by decide))
  have hbase : BasePath (ascii "/api//v1") := .inr (by decide)
  ⟨hnamed, hclosed, hhost, hport, hbase, parse_written 2 hnamed hclosed hhost hport hbase⟩

end Endpoint

end TargetDiscovery
