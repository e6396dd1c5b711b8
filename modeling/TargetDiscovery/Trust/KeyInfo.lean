import TargetDiscovery.Trust.Ed25519
import TargetDiscovery.Trust.EllipticCurve

/-!
# The content of key blocks

A key block holds the identifier of an algorithm, parameters and the key. Each algorithm has a form
of its own for the last two.
-/

set_option autoImplicit false

namespace TargetDiscovery

inductive KeyAlgorithm
  | ed25519
  | fixedCurve (size : Nat)
  | rsa
  /-- RSA with a scheme for signatures, which parameters may describe. -/
  | rsaScheme
  | groupSignature
  | exchange
  | longExchange
  | ellipticCurve
  deriving DecidableEq, Repr

namespace KeyAlgorithm

/-- The identifiers in use; some algorithms have several. -/
def identifiers : List (Bytes × KeyAlgorithm) :=
  [([0x2B, 0x65, 0x70], .ed25519),
    ([0x2B, 0x65, 0x6E], .fixedCurve 32),
    ([0x2B, 0x65, 0x6F], .fixedCurve 56),
    ([0x2B, 0x65, 0x71], .fixedCurve 57),
    ([0x2A, 0x86, 0x48, 0x86, 0xF7, 0x0D, 0x01, 0x01, 0x01], .rsa),
    ([0x55, 0x08, 0x01, 0x01], .rsa),
    ([0x2A, 0x86, 0x48, 0x86, 0xF7, 0x0D, 0x01, 0x01, 0x0A], .rsaScheme),
    ([0x2A, 0x86, 0x48, 0xCE, 0x38, 0x04, 0x01], .groupSignature),
    ([0x2A, 0x86, 0x48, 0xCE, 0x38, 0x04, 0x03], .groupSignature),
    ([0x2B, 0x0E, 0x03, 0x02, 0x0C], .groupSignature),
    ([0x2B, 0x0E, 0x03, 0x02, 0x0D], .groupSignature),
    ([0x2B, 0x0E, 0x03, 0x02, 0x1B], .groupSignature),
    ([0x2A, 0x86, 0x48, 0x86, 0xF7, 0x0D, 0x01, 0x03, 0x01], .exchange),
    ([0x2A, 0x86, 0x48, 0xCE, 0x3E, 0x02, 0x01], .longExchange),
    ([0x2A, 0x86, 0x48, 0xCE, 0x3D, 0x02, 0x01], .ellipticCurve),
    ([0x2A, 0x81, 0x1C, 0xCF, 0x55, 0x01, 0x82, 0x2D], .ellipticCurve)]

def ofIdentifier? (s : Bytes) : Option KeyAlgorithm :=
  (identifiers.find? fun n => n.1 == s).map Prod.snd

end KeyAlgorithm

/-- The algorithm of a key, its parameters and the key itself. -/
structure KeyInfo where
  algorithm : KeyAlgorithm
  parameters : Bytes
  key : Bytes

namespace KeyInfo

open Element

def clearLast (unused : UInt8) : Bytes → Bytes
  | [] => []
  | [last] => [last >>> unused <<< unused]
  | b :: rest => b :: clearLast unused rest

/-- Reads the content of a key block; what follows the outer element does not matter. -/
def ofContent? (content : Bytes) : Option KeyInfo := do
  let (outer, _) ← tagged? sequenceTag content
  let (head, rest) ← tagged? sequenceTag outer
  let (identifier, parameters) ← tagged? identifierTag head
  let algorithm ← KeyAlgorithm.ofIdentifier? identifier
  let described ← all? parameters
  let (bits, rest) ← tagged? bitsTag rest
  match bits with
  | unused :: key =>
    if unused < 8 ∧ rest = [] ∧ described.length ≤ 1 then
      some ⟨algorithm, parameters, clearLast unused key⟩
    else none
  | [] => none

/-! ## Forms of keys and parameters -/

def isModulus (key : Bytes) : Bool := (numbers? key).any fun l => l.length == 2

/-- A number in its shortest form; what follows it does not matter. -/
def isNumber (key : Bytes) : Bool :=
  (tagged? integerTag key).any fun (contents, _) => contents != [] && isShortest contents

def nothing : Bytes := [0x05, 0x00]

/-- Parameters that describe a scheme, if there are any: marked elements in their order. -/
def isScheme (parameters : Bytes) : Bool :=
  parameters.isEmpty ||
    match (tagged? sequenceTag parameters).bind fun (contents, _) => all? contents with
    | some l => (l.map Element.tag).isSublist [0xA0, 0xA1, 0xA2, 0xA3]
    | none => false

/-- The numbers of a group: three. Without them the key has the group of another one. -/
def isSignatureGroup (parameters : Bytes) : Bool :=
  parameters.isEmpty || parameters == nothing ||
    (numbers? parameters).any fun l => l.length == 3

/-- The numbers of a group: two, and at most a limit of 32 bits in its shortest form. -/
def isExchangeGroup (parameters : Bytes) : Bool :=
  match numbers? parameters with
  | some [_, _] => true
  | some [_, _, limit] => limit.length ≤ 4 && isShortest limit
  | _ => false

def isLongGroup (parameters : Bytes) : Bool :=
  (numbers? parameters).any fun l => l.length == 3 || l.length == 4

def isWellFormed (info : KeyInfo) : Bool :=
  match info.algorithm with
  | .ed25519 => info.parameters.isEmpty && info.key.length == Ed25519.keySize
  | .fixedCurve size => info.parameters.isEmpty && info.key.length == size
  | .rsa => isModulus info.key
  | .rsaScheme => isScheme info.parameters && isModulus info.key
  | .groupSignature => isSignatureGroup info.parameters && isNumber info.key
  | .exchange => isExchangeGroup info.parameters && isNumber info.key
  | .longExchange => isLongGroup info.parameters && isNumber info.key
  | .ellipticCurve => EllipticCurve.isKey info.parameters info.key

end KeyInfo

end TargetDiscovery
