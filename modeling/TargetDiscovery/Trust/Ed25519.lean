import TargetDiscovery.Trust.Sha512
import TargetDiscovery.Trust.Edwards

/-!
# Ed25519 signatures

A signature is a point and a scalar, 32 bytes each. It belongs to a message and a key if the
scalar is reduced and the point is, byte for byte, the one that scalar, key and hash determine.
-/

set_option autoImplicit false

namespace TargetDiscovery.Ed25519

open Edwards

def signatureSize : Nat := 64

def keySize : Nat := 32

def verify (key message signature : Bytes) : Bool :=
  let commitment := signature.take 32
  let scalar := littleEndian (signature.drop 32)
  match Point.read? key with
  | none => false
  | some point =>
    let challenge := littleEndian (Sha512.digest (commitment ++ key ++ message)) % Point.order
    signature.length == signatureSize && decide (scalar < Point.order) &&
      ((Point.times scalar Point.base).add (Point.times challenge point.negate)).write == commitment

end TargetDiscovery.Ed25519
