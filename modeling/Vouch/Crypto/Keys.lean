import Vouch.Crypto.Error
import Vouch.Crypto.Ecdsa
import Vouch.Text.Blank
/-!
# Keys, signatures and secrets on the wire

A public key is the 64 octets `x ‖ y` of a point, a signature the 64 octets `r ‖ s`, a shared secret
the 32 octets of a coordinate. Any octets of the right number are carried; whether they are a point
or a pair of scalars is checked when they are used.
-/
namespace Vouch

/-- The octets of a public key. -/
structure PublicKey where
  octets : Octets 64
  deriving DecidableEq, Repr

/-- The octets of a signature. -/
structure Signature where
  octets : Octets 64
  deriving DecidableEq, Repr

/-- What two devices agree on. Never shown in diagnostics. -/
structure SharedSecret where
  octets : Octets 32
  deriving DecidableEq

/-- A private key: a scalar between 1 and one less than the order of the group. -/
structure PrivateKey where
  scalar : Nat
  pos : 0 < scalar
  lt : scalar < Crypto.P256.n
  deriving DecidableEq

open Crypto

namespace PublicKey

def toBytes (k : PublicKey) : Bytes := k.octets.toList

def ofBytes (b : Bytes) : Except CryptoError PublicKey :=
  match Bytes.octets? 64 b with
  | some o => .ok ⟨o⟩
  | none => .error (.invalidKey (.length b.length))

def ofHex (s : String) : Except CryptoError PublicKey :=
  match Hex.decode s with
  | .ok b => ofBytes b
  | .error cause => .error (.invalidKey (.hex cause))

def ofPoint : P256.Point → PublicKey
  | .neutral => ⟨Vector.replicate 64 0⟩
  | .affine x y => ⟨⟨(Bytes.ofNat 32 x ++ Bytes.ofNat 32 y).toArray, by simp⟩⟩

/-- The point of the curve with these coordinates, if there is one. -/
def point? (k : PublicKey) : Option P256.Point :=
  let x := Bytes.toNat (k.toBytes.take 32)
  let y := Bytes.toNat (k.toBytes.drop 32)
  if P256.onCurve x y then some (.affine x y) else none

def describe (k : PublicKey) : String := s!"PublicKeyBytes({Hex.encode (k.toBytes.take 8)}..)"

@[simp] theorem length_toBytes (k : PublicKey) : k.toBytes.length = 64 := by simp [toBytes]

theorem ofBytes_toBytes (k : PublicKey) : ofBytes k.toBytes = .ok k := by
  simp [ofBytes, toBytes, Bytes.octets?_toList]

end PublicKey

namespace Signature

def toBytes (s : Signature) : Bytes := s.octets.toList

def ofBytes (b : Bytes) : Except CryptoError Signature :=
  match Bytes.octets? 64 b with
  | some o => .ok ⟨o⟩
  | none => .error (.invalidSignature (.length b.length))

def ofScalars (r s : Nat) : Signature := ⟨⟨(Bytes.ofNat 32 r ++ Bytes.ofNat 32 s).toArray, by simp⟩⟩

/-- The two scalars, if both lie between 1 and one less than the order of the group. -/
def scalars? (sig : Signature) : Option (Nat × Nat) :=
  let r := Bytes.toNat (sig.toBytes.take 32)
  let s := Bytes.toNat (sig.toBytes.drop 32)
  if 0 < r ∧ r < P256.n ∧ 0 < s ∧ s < P256.n then some (r, s) else none

def describe (s : Signature) : String := s!"SignatureBytes({Hex.encode (s.toBytes.take 8)}..)"

@[simp] theorem length_toBytes (s : Signature) : s.toBytes.length = 64 := by simp [toBytes]

theorem ofBytes_toBytes (s : Signature) : ofBytes s.toBytes = .ok s := by
  simp [ofBytes, toBytes, Bytes.octets?_toList]

end Signature

namespace SharedSecret

def toBytes (s : SharedSecret) : Bytes := s.octets.toList

def ofNat (n : Nat) : SharedSecret := ⟨⟨(Bytes.ofNat 32 n).toArray, by simp⟩⟩

/-- What diagnostics show of any secret. -/
def describe (_ : SharedSecret) : String := "SharedSecret([REDACTED])"

end SharedSecret

namespace PrivateKey

/-- A scalar in 24 to 32 big-endian octets. -/
def ofBytes (b : Bytes) : Except CryptoError PrivateKey :=
  let d := Bytes.toNat b
  if h : (24 ≤ b.length ∧ b.length ≤ 32) ∧ 0 < d ∧ d < P256.n then .ok ⟨d, h.2.1, h.2.2⟩
  else .error (.invalidKey .scalar)

/-- A scalar in hexadecimal, with white space around it or not. -/
def ofHex (s : String) : Except CryptoError PrivateKey :=
  match Hex.decode (Text.trim s) with
  | .ok b => ofBytes b
  | .error cause => .error (.invalidKey (.hex cause))

def publicKey (k : PrivateKey) : PublicKey := .ofPoint (P256.base.mul k.scalar)

def sign (k : PrivateKey) (message : Bytes) : Signature :=
  let (r, s) := Ecdsa.sign k.scalar (Ecdsa.messageNumber message)
  .ofScalars r s

/-- The secret shared with the holder of a public key: the first coordinate of its multiple. -/
def agree (k : PrivateKey) (peer : PublicKey) : Except CryptoError SharedSecret :=
  match peer.point? with
  | none => .error (.keyAgreement .agreementPoint)
  | some q =>
    match q.mul k.scalar with
    | .affine x _ => .ok (.ofNat x)
    | .neutral => .ok (.ofNat 0)

end PrivateKey

/-- Checks a signature: first the key, then the range of the scalars, then the equation. -/
def PublicKey.verify (k : PublicKey) (message : Bytes) (sig : Signature) : Except CryptoError Unit :=
  match k.point? with
  | none => .error (.invalidKey .verifyingPoint)
  | some q =>
    match sig.scalars? with
    | none => .error (.invalidSignature .range)
    | some (r, s) =>
      if Ecdsa.verify q (Ecdsa.messageNumber message) r s then .ok ()
      else .error .verificationFailed

end Vouch
