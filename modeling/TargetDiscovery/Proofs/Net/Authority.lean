import TargetDiscovery.Net.Endpoint
import TargetDiscovery.Proofs.Net.Addresses

/-!
# What registry URLs are read as

Between the scheme and the first slash behind it stands the authority: a host, and behind a colon
what may be the digits of a port. A host in brackets ends at the first closing bracket. Any other
host ends at the last colon, so it may have colons itself, and what is behind the last one of them
is taken for the port.
-/

set_option autoImplicit false

namespace TargetDiscovery.Endpoint

/-- An authority with the host and the port that are written in it. -/
inductive Splits : Bytes → Bytes → Bytes → Prop
  | literal {host : Bytes} (hplain : byte ']' ∉ host) :
      Splits (byte '[' :: (host ++ [byte ']'])) host []
  | literalPort {host port : Bytes} (hplain : byte ']' ∉ host) :
      Splits (byte '[' :: (host ++ byte ']' :: byte ':' :: port)) host port
  | bare {host : Bytes} (hopen : host.head? ≠ some (byte '[')) (hplain : byte ':' ∉ host) :
      Splits host host []
  | barePort {host port : Bytes} (hopen : host.head? ≠ some (byte '[')) (hport : byte ':' ∉ port) :
      Splits (host ++ byte ':' :: port) host port

/-- What may stand for the port: nothing, or the digits of one. -/
def PortText (port : Bytes) : Prop := port = [] ∨ Address.PortNumber port

/-- A URL with its authority and path, and with the host and the port of the authority. -/
structure Reading (url authority path host port : Bytes) : Prop where
  text : url = ascii "http://" ++ authority ++ path
  closed : byte '/' ∉ authority
  path : path = [] ∨ path.head? = some (byte '/')
  splits : Splits authority host port
  named : host ≠ []
  port : PortText port

def written (path host port : Bytes) : Endpoint :=
  ⟨host, if port = [] then defaultPort else port, Bytes.dropTrailing (byte '/') path⟩

theorem splitAuthority_bare {text : Bytes} (h : text.head? ≠ some (byte '[')) :
    splitAuthority text =
      match Bytes.cutLast (byte ':') text with
      | some (host, port) => .ok (host, port)
      | none => .ok (text, []) := by
  cases text with
  | nil => rfl
  | cons first rest =>
    rw [splitAuthority]
    exact if_neg fun heq => h (congrArg some heq)

theorem splits_of_splitAuthority {text host port : Bytes}
    (h : splitAuthority text = .ok (host, port)) : Splits text host port := by
  by_cases hopen : text.head? = some (byte '[')
  · obtain ⟨rest, rfl⟩ := List.head?_eq_some_iff.mp hopen
    rw [splitAuthority, if_pos rfl] at h
    split at h
    · cases h
    · rename_i hcut
      cases h
      obtain ⟨rfl, hplain⟩ := Bytes.cut_eq_iff.mp hcut
      exact .literal hplain
    · rename_i colon tail hcut
      split at h
      · rename_i hcolon
        cases h
        obtain ⟨rfl, hplain⟩ := Bytes.cut_eq_iff.mp hcut
        rw [hcolon]
        exact .literalPort hplain
      · cases h
  · rw [splitAuthority_bare hopen] at h
    split at h
    · rename_i hcut
      cases h
      obtain ⟨rfl, hport⟩ := Bytes.cutLast_eq_some_iff.mp hcut
      exact .barePort (fun hhead => hopen (by simp [hhead])) hport
    · rename_i hcut
      cases h
      exact .bare hopen (Bytes.cutLast_eq_none_iff.mp hcut)

theorem Splits.splitAuthority {text host port : Bytes} (h : Splits text host port) :
    splitAuthority text = .ok (host, port) := by
  cases h with
  | literal hplain =>
    have hcut : Bytes.cut (byte ']') (host ++ [byte ']']) = (host, some []) :=
      Bytes.cut_of_not_mem hplain (some [])
    rw [Endpoint.splitAuthority, if_pos rfl, hcut]
  | literalPort hplain =>
    have hcut : Bytes.cut (byte ']') (host ++ byte ']' :: byte ':' :: port) =
        (host, some (byte ':' :: port)) :=
      Bytes.cut_of_not_mem hplain (some (byte ':' :: port))
    rw [Endpoint.splitAuthority, if_pos rfl, hcut]
    exact if_pos rfl
  | bare hopen hplain => rw [splitAuthority_bare hopen, Bytes.cutLast_eq_none_iff.mpr hplain]
  | barePort hopen hport =>
    have hhead : (host ++ byte ':' :: port).head? ≠ some (byte '[') := by
      cases host with
      | nil => exact nofun
      | cons => exact hopen
    rw [splitAuthority_bare hhead, Bytes.cutLast_of_not_mem hport]

theorem pathOf_eq (after : Option Bytes) :
    pathOf after = Bytes.dropTrailing (byte '/') ((after.map (byte '/' :: ·)).getD []) := by
  cases after <;> rfl

theorem checks_eq_ok_iff {host port path : Bytes} {e : Endpoint} :
    (if host.isEmpty then .error .host
      else if port.isEmpty then .ok ⟨host, defaultPort, path⟩
      else if (Address.port? port).isNone then .error .port
      else .ok ⟨host, port, path⟩ : Except EndpointError Endpoint) = .ok e ↔
      host ≠ [] ∧ PortText port ∧
        ⟨host, if port = [] then defaultPort else port, path⟩ = e := by
  rw [PortText]
  by_cases hhost : host = []
  · simp [hhost]
  · by_cases hport : port = []
    · simp [hhost, hport]
    · by_cases hnumber : Address.PortNumber port
      · have hsome := Address.isSome_port?_iff.mpr hnumber
        simp [hhost, hport, hnumber, Option.isNone_eq_false_iff.mpr hsome]
      · have hnone : (Address.port? port).isNone = true := by
          rwa [← Address.isSome_port?_iff, Bool.not_eq_true, Option.isSome_eq_false_iff] at hnumber
        simp [hhost, hport, hnumber, hnone]

theorem parse_eq_ok_iff {url : Bytes} {e : Endpoint} :
    parse url = .ok e ↔
      ∃ authority path host port, Reading url authority path host port ∧
        e = written path host port := by
  constructor
  · intro h
    rw [parse] at h
    split at h
    · cases h
    · rename_i rest hscheme
      split at h
      rename_i authority after hcut
      obtain ⟨rfl, hclosed⟩ := Bytes.cut_eq_iff.mp hcut
      split at h
      · cases h
      · rename_i host port hsplit
        rw [pathOf_eq, checks_eq_ok_iff] at h
        obtain ⟨hnamed, hport, rfl⟩ := h
        exact ⟨authority, _, host, port,
          { text := by rw [Bytes.without?_eq_some_iff.mp hscheme, List.append_assoc]
            closed := hclosed
            path := by cases after <;> simp
            splits := splits_of_splitAuthority hsplit
            named := hnamed
            port := hport }, rfl⟩
  · rintro ⟨authority, path, host, port, h, rfl⟩
    obtain ⟨after, hafter⟩ : ∃ after : Option Bytes,
        (after.map (byte '/' :: ·)).getD [] = path := by
      rcases h.path with rfl | hhead
      · exact ⟨none, rfl⟩
      · obtain ⟨rest, rfl⟩ := List.head?_eq_some_iff.mp hhead
        exact ⟨some rest, rfl⟩
    have hscheme : Bytes.without? (ascii "http://") url = some (authority ++ path) :=
      Bytes.without?_eq_some_iff.mpr (by rw [h.text, List.append_assoc])
    have hcut : Bytes.cut (byte '/') (authority ++ path) = (authority, after) :=
      hafter ▸ Bytes.cut_of_not_mem h.closed after
    rw [parse, hscheme]
    simp only [hcut, h.splits.splitAuthority, pathOf_eq, hafter]
    exact checks_eq_ok_iff.mpr ⟨h.named, h.port, rfl⟩

/-! ## The form `host[:port]` -/

inductive Host : Bytes → Prop
  | bracketed {h : Bytes} (hne : h ≠ []) (hplain : byte ']' ∉ h) :
      Host (byte '[' :: (h ++ [byte ']']))
  | bare {h : Bytes} (hne : h ≠ []) (hplain : byte ':' ∉ h) : Host h

inductive HostPort : Bytes → Prop
  | host {host : Bytes} (h : Host host) : HostPort host
  | port {host port : Bytes} (h : Host host) (hport : PortText port) :
      HostPort (host ++ byte ':' :: port)

theorem PortText.colon_not_mem {port : Bytes} (h : PortText port) : byte ':' ∉ port := by
  rcases h with rfl | hnumber
  · exact List.not_mem_nil
  · exact hnumber.colon_not_mem

theorem HostPort.count_colon {authority : Bytes} (h : HostPort authority) :
    authority.head? = some (byte '[') ∨ authority.count (byte ':') ≤ 1 := by
  cases h with
  | host h =>
    cases h with
    | bracketed hne hplain => exact .inl rfl
    | bare hne hplain =>
      rw [List.count_eq_zero.mpr hplain]
      exact .inr (Nat.zero_le 1)
  | port h hport =>
    cases h with
    | bracketed hne hplain => exact .inl rfl
    | bare hne hplain =>
      rw [List.count_append, List.count_eq_zero.mpr hplain, List.count_cons_self,
        List.count_eq_zero.mpr hport.colon_not_mem]
      exact .inr (Nat.le_refl 1)

theorem Reading.hostPort_iff {url authority path host port : Bytes}
    (h : Reading url authority path host port) :
    HostPort authority ↔
      authority.head? = some (byte '[') ∨ authority.count (byte ':') ≤ 1 := by
  refine ⟨HostPort.count_colon, fun hfew => ?_⟩
  obtain ⟨-, -, -, hsplits, hnamed, hport⟩ := h
  cases hsplits with
  | literal hplain => exact .host (.bracketed hnamed hplain)
  | literalPort hplain => simpa using HostPort.port (.bracketed hnamed hplain) hport
  | bare hopen hplain => exact .host (.bare hnamed hplain)
  | barePort hopen _ =>
    refine .port (.bare hnamed ?_) hport
    rcases hfew with hhead | hcount
    · obtain ⟨b, rest, rfl⟩ := List.exists_cons_of_ne_nil hnamed
      exact absurd hhead hopen
    · rw [List.count_append, List.count_cons_self] at hcount
      exact List.count_eq_zero.mp (by omega)

/-- What is accepted has the form `host[:port]` unless a host without brackets has a colon in it. -/
theorem authority_of_parse {url : Bytes} {e : Endpoint} (h : parse url = .ok e) :
    ∃ authority path host port, Reading url authority path host port ∧
      e = written path host port ∧
        (HostPort authority ↔
          authority.head? = some (byte '[') ∨ authority.count (byte ':') ≤ 1) := by
  obtain ⟨authority, path, host, port, hreading, he⟩ := parse_eq_ok_iff.mp h
  exact ⟨authority, path, host, port, hreading, he, hreading.hostPort_iff⟩

theorem authority_of_basePath :
    parse (ascii "http://10.0.0.1:8080/api/v1/") =
        .ok ⟨ascii "10.0.0.1", ascii "8080", ascii "/api/v1"⟩ ∧
      ∃ authority path host port,
        Reading (ascii "http://10.0.0.1:8080/api/v1/") authority path host port ∧
          ⟨ascii "10.0.0.1", ascii "8080", ascii "/api/v1"⟩ = written path host port ∧
            (HostPort authority ↔
              authority.head? = some (byte '[') ∨ authority.count (byte ':') ≤ 1) :=
  have hparse : parse (ascii "http://10.0.0.1:8080/api/v1/") =
      .ok ⟨ascii "10.0.0.1", ascii "8080", ascii "/api/v1"⟩ := by decide +kernel
  ⟨hparse, authority_of_parse hparse⟩

/-- A literal without brackets is accepted, and its last group is taken for the port. -/
theorem parse_severalColons :
    parse (ascii "http://" ++ ascii "2001:db8::1") = .ok ⟨ascii "2001:db8:", ascii "1", []⟩ ∧
      byte '/' ∉ ascii "2001:db8::1" ∧ ¬ HostPort (ascii "2001:db8::1") :=
  ⟨by decide +kernel, by decide, fun h => absurd h.count_colon (by decide)⟩

end TargetDiscovery.Endpoint
