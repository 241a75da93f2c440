import Vouch.Crypto.Blake3
import Vouch.Crypto.Keys
import Vouch.Eui64
/-!
# Security contexts

Two devices that share a secret protect their messages with a pair of keys, one per direction. The
identifier of a direction is the end of the sender's EUI-64, so what one device sends under is what
the other receives under.

* `derive_swap`: the two ends of one secret hold one context, with sender and recipient exchanged.
-/
namespace Vouch

/-- Directional keys and identifiers for talking to one peer. -/
structure SecurityContext where
  senderId : Bytes
  recipientId : Bytes
  senderKey : Bytes
  recipientKey : Bytes
  commonIv : Bytes
  deriving DecidableEq

namespace SecurityContext

/-- The length of a context identifier. -/
def idLength : Nat := 6

def keyPurpose : String := "edgetrust 2024-01-01 security context key"

def ivPurpose : String := "edgetrust 2024-01-01 security context iv"

def contextId (subject : Eui64) : Bytes := subject.suffix idLength

/-- The key under which the owner of an identifier sends. -/
def directionalKey (secret : SharedSecret) (owner : Bytes) : Bytes :=
  Crypto.Blake3.deriveKey keyPurpose 16 (secret.toBytes ++ owner)

/-- The context that `self` uses with `peer`. -/
def derive (secret : SharedSecret) (self peer : Eui64) : SecurityContext where
  senderId := contextId self
  recipientId := contextId peer
  senderKey := directionalKey secret (contextId self)
  recipientKey := directionalKey secret (contextId peer)
  commonIv := Crypto.Blake3.deriveKey ivPurpose 13 secret.toBytes

/-- What diagnostics show of a context: its identifiers only. -/
def describe (c : SecurityContext) : String :=
  s!"SecurityContext \x7b sender_id: \"{Hex.encode c.senderId}\", recipient_id: \"{Hex.encode c.recipientId}\", .. \x7d"

/-- The same context seen from the other end. -/
def swap (c : SecurityContext) : SecurityContext :=
  ⟨c.recipientId, c.senderId, c.recipientKey, c.senderKey, c.commonIv⟩

theorem derive_swap (secret : SharedSecret) (a b : Eui64) :
    (derive secret a b).swap = derive secret b a := by
  simp only [swap, derive]

end SecurityContext
end Vouch
