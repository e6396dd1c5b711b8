import TargetDiscovery.Trust.KeyInfo
import TargetDiscovery.Trust.Pem

/-!
# Public keys of registries

A key file holds a public key in a textual block. Its content says which algorithm the key is for;
only keys for Ed25519 are of use, and keys that are well formed but for another algorithm are told
apart from text that is no key. The first block that is a key counts, whatever stands before it.
-/

set_option autoImplicit false

namespace TargetDiscovery

inductive KeyError
  | empty
  | notKey
  | algorithm
  deriving DecidableEq, Repr

namespace KeyError

def message : KeyError → Bytes
  | empty => ascii "empty public key"
  | notKey => ascii "not a PEM public key"
  | algorithm => ascii "public key is not Ed25519"

end KeyError

namespace PublicKey

/-- What a block says: a key that is of use, or one for another algorithm. -/
inductive Key
  | ed25519 (key : Bytes)
  | foreign
  deriving DecidableEq, Repr

def blockName : Bytes := ascii "PUBLIC KEY"

def Key.ofContent? (content : Bytes) : Option Key :=
  match KeyInfo.ofContent? content with
  | none => none
  | some info =>
    if info.isWellFormed then
      if info.algorithm = .ed25519 then some (.ed25519 info.key) else some .foreign
    else none

def namedAlgorithms : List (Bytes × KeyAlgorithm) :=
  [(ascii "RSA PUBLIC KEY", .rsa), (ascii "RSA PRIVATE KEY", .rsa),
    (ascii "EC PRIVATE KEY", .ellipticCurve), (ascii "EC PARAMETERS", .ellipticCurve),
    (ascii "DSA PUBLIC KEY", .groupSignature), (ascii "DSA PRIVATE KEY", .groupSignature),
    (ascii "DSA PARAMETERS", .groupSignature), (ascii "DH PARAMETERS", .exchange)]

/-- Whether a content under a name is a key of the algorithm that the name says. -/
def isNamedKey (name content : Bytes) : Bool :=
  namedAlgorithms.any fun (n, algorithm) =>
    n == name &&
      ((algorithm == .rsa && KeyInfo.isModulus content) ||
        (KeyInfo.ofContent? content).any fun info =>
          info.algorithm == algorithm && info.isWellFormed)

def Key.ofBlock? (b : Pem.Block) : Option Key :=
  if b.name = blockName then Key.ofContent? b.content
  else if isNamedKey b.name b.content then some .foreign
  else none

def headerRoom : Nat := 10

/-- The first key among the blocks; a block with a long header ends the search. -/
def firstKey? : List (Option Pem.Block) → Option Key
  | [] => none
  | none :: rest => firstKey? rest
  | some b :: rest =>
    if headerRoom < b.header.length then none
    else
      match Key.ofBlock? b with
      | some key => some key
      | none => firstKey? rest

/-- The key of the first key block; a malformed block before it or a header ends the search. -/
def ownKey? : List (Option Pem.Block) → Option Key
  | [] | none :: _ => none
  | some b :: rest =>
    if b.name = blockName then
      if b.header = [] then Key.ofContent? b.content else none
    else ownKey? rest

/-- What is read of a key file, as the word for its length says; the text up to a zero byte where
that is negative. -/
def visible (text : Bytes) : Bytes :=
  if Bytes.intLength text < 0 then Bytes.toNul text else text.take (Bytes.intLength text).toNat

def ofPem (text : Bytes) : Except KeyError Bytes :=
  if text.isEmpty then .error .empty
  else
    let blocks := Pem.blocks (visible text)
    match (firstKey? blocks).orElse fun _ => ownKey? blocks with
    | some (.ed25519 key) => .ok key
    | some .foreign => .error .algorithm
    | none => .error .notKey

/-- Whether a certificate, the base64 form of a signature, is one of the payload. -/
def certifies (key payload certificate : Bytes) : Except Fault Bool :=
  match Base64.decode certificate with
  | .ok (some signature) => .ok (Ed25519.verify key payload signature)
  | .ok none => .ok false
  | .error fault => .error fault

end PublicKey

end TargetDiscovery
