import Vouch.Crypto.Keys
/-!
# The crypto engine of a node

Everything above this module reaches cryptography through a `Backend`: the node's own public key,
signing with its private key, verification under any key, and key agreement with any key. Nothing is
assumed of one, so what is shown of the protocols holds whatever the engine answers.
-/
namespace Vouch

/-- The crypto jobs that a node can have done. -/
structure Backend where
  publicKey : PublicKey
  sign : Bytes → Except CryptoError Signature
  verify : Bytes → Signature → PublicKey → Except CryptoError Unit
  agree : PublicKey → Except CryptoError SharedSecret

/-- The engine that computes with a private key held in memory. -/
def Backend.ofKey (k : PrivateKey) : Backend where
  publicKey := k.publicKey
  sign := fun message => .ok (k.sign message)
  verify := fun message sig key => key.verify message sig
  agree := k.agree

end Vouch
