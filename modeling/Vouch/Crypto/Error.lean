import Vouch.Hex
/-!
# What goes wrong with keys, signatures and crypto jobs

A verifying key and an agreement key are checked by different readers of the same octets, which word
the same flaw differently. A job that the engine could not run is reported in the engine's words.
-/
namespace Vouch

/-- What is wrong with a key. -/
inductive KeyFlaw where
  | hex (cause : HexError)
  | length (found : Nat)
  | scalar
  | verifyingPoint
  | agreementPoint
  deriving DecidableEq, Repr

def KeyFlaw.message : KeyFlaw → String
  | .hex cause => cause.message
  | .length found => s!"public key must be 64 bytes, got {found}"
  | .scalar => "signature error"
  | .verifyingPoint => "signature error"
  | .agreementPoint => "crypto error"

/-- What is wrong with the form of a signature. -/
inductive SignatureFlaw where
  | length (found : Nat)
  | range
  deriving DecidableEq, Repr

def SignatureFlaw.message : SignatureFlaw → String
  | .length found => s!"signature must be 64 bytes, got {found}"
  | .range => "signature error"

/-- Why a crypto job gave no result. -/
inductive CryptoError where
  | invalidKey (flaw : KeyFlaw)
  | invalidSignature (flaw : SignatureFlaw)
  | verificationFailed
  | keyAgreement (flaw : KeyFlaw)
  | agreementFault (report : String)
  | backendFault (report : String)
  deriving DecidableEq, Repr

def CryptoError.message : CryptoError → String
  | .invalidKey flaw => s!"Invalid key: {flaw.message}"
  | .invalidSignature flaw => s!"Invalid signature encoding: {flaw.message}"
  | .verificationFailed => "Signature verification failed"
  | .keyAgreement flaw => s!"ECDH failed: Invalid key: {flaw.message}"
  | .agreementFault report => s!"ECDH failed: {report}"
  | .backendFault report => s!"Crypto backend error: {report}"

end Vouch
