import Vouch.Crypto.P256
import Vouch.Crypto.Hmac
/-!
# ECDSA over P-256 with SHA-256

Signatures are pairs `(r, s)` of scalars. The secret number of a signature comes from the key and
the message by the generator of RFC 6979, so one key signs one message in one way. Neither signing
nor verification asks for a small `s`.
-/
namespace Vouch.Crypto.Ecdsa

open P256

/-- The number that a message is signed as. -/
def messageNumber (message : Bytes) : Nat := Bytes.toNat (Sha256.hash message) % n

/-- The state of the generator of secret numbers. -/
structure Generator where
  (key value : Bytes)

namespace Generator

def reseed (g : Generator) (mark : UInt8) (seed : Bytes) : Generator :=
  let key := hmac g.key (g.value ++ mark :: seed)
  ⟨key, hmac key g.value⟩

def start (d z : Nat) : Generator :=
  let seed := Bytes.ofNat 32 d ++ Bytes.ofNat 32 z
  let g : Generator := ⟨List.replicate 32 0, List.replicate 32 1⟩
  (g.reseed 0 seed).reseed 1 seed

/-- The next number between 1 and `n - 1`. A draw fails once in about four thousand million. -/
def next (g : Generator) : (fuel : Nat) → Nat
  | 0 => Bytes.toNat g.value % (n - 1) + 1
  | fuel + 1 =>
    let value := hmac g.key g.value
    let k := Bytes.toNat value
    if 0 < k ∧ k < n then k else next (reseed ⟨g.key, value⟩ 0 []) fuel

end Generator

/-- The secret number with which the key `d` signs `z`. -/
def secretNumber (d z : Nat) : Nat := (Generator.start d z).next 64

/-- The first coordinate of a point as a scalar; the neutral element counts as zero. -/
def abscissa : Point → Nat
  | .neutral => 0
  | .affine x _ => x % n

/-- The signature of `z` under the key `d`. -/
def sign (d z : Nat) : Nat × Nat :=
  let k := secretNumber d z
  let r := abscissa (base.mul k)
  (r, invMod n k * ((z + r * d) % n) % n)

/-- Whether `(r, s)` signs `z` under the public key `q`, for `r` and `s` between 1 and `n - 1`. -/
def verify (q : Point) (z r s : Nat) : Bool :=
  let i := invMod n s
  abscissa (combine (z * i % n) base (r * i % n) q) == r

end Vouch.Crypto.Ecdsa
