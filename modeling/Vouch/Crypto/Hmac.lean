import Vouch.Crypto.Sha256
/-!
# HMAC with SHA-256

The keyed hash of RFC 2104. A key longer than a block is hashed first, a shorter one filled up with
zeros.
-/
namespace Vouch.Crypto

def blockKey (key : Bytes) : Bytes :=
  let k := if 64 < key.length then Sha256.hash key else key
  k ++ List.replicate (64 - k.length) 0

/-- The authentication code of a message under a key. -/
def hmac (key message : Bytes) : Bytes :=
  let k := blockKey key
  Sha256.hash (k.map (· ^^^ 0x5c) ++ Sha256.hash (k.map (· ^^^ 0x36) ++ message))

end Vouch.Crypto
