import Vouch.Store.Basic
import Vouch.Crypto.Backend
import Vouch.ResponseCode
/-!
# Asking for a certificate

A node that hears from a peer it holds no certificate for asks the network root. The request is the
peer's address and the node's signature over it; the answer, under the code `2.05`, is a certificate
record and the root's signature over that record. Anything else is refused, and nothing that was
refused touches the store.

A request is a machine: it waits for the node's signature (`signing`), for the reply (`waiting`) and
for the verdict on the root's signature (`checking`). `job?` says what it then waits for, `serve` has it
done, and `exchange` is the whole of it with nothing in between.
-/
namespace Vouch

/-- An answer as it came in. -/
structure Response where
  code : ResponseCode
  payload : Bytes
  deriving DecidableEq, Repr

/-- Why no answer came in. -/
inductive TransportError where
  | timeout
  | sendFailed (report : String)
  deriving DecidableEq, Repr

def TransportError.message : TransportError → String
  | .timeout => "Request timed out"
  | .sendFailed report => s!"Send failed: {report}"

/-- What a transport hands back for a request. -/
abbrev Reply := Except TransportError Response

/-- Why a request brought no certificate. -/
inductive RequestError where
  | status (code : ResponseCode)
  | tooLong (found : Nat)
  | tooShort (found : Nat)
  | transport (e : TransportError)
  | crypto (e : CryptoError)
  | record (e : CertificateError)
  | store (e : StoreError)
  deriving DecidableEq, Repr

/-- The length of an answer: a record and a signature. -/
def Response.length : Nat := 204

def RequestError.message : RequestError → String
  | .status code => s!"Key server responded with {code.text}"
  | .tooLong found => s!"Protocol error: response of {found} bytes exceeds {Response.length}"
  | .tooShort found => s!"Protocol error: truncated response of {found} bytes"
  | .transport e => e.message
  | .crypto e => e.message
  | .record e => s!"Certificate encoding error: {e.message}"
  | .store e => e.message

/-- The octets of a request for the peer at an address. -/
def requestPayload (a : Address) (sig : Signature) : Bytes := a.toBytes ++ sig.toBytes

/-- The record in an answer and the root's signature over it. -/
def Response.parts (r : Response) : Except RequestError (Bytes × Signature) :=
  if r.code ≠ .content then .error (.status r.code)
  else if Response.length < r.payload.length then .error (.tooLong r.payload.length)
  else if r.payload.length < Response.length then .error (.tooShort r.payload.length)
  else
    match Signature.ofBytes (r.payload.drop Certificate.length) with
    | .ok sig => .ok (r.payload.take Certificate.length, sig)
    | .error e => .error (.crypto e)

/-- Where a request stands. -/
inductive Request where
  /-- The node's signature over the address is awaited. -/
  | signing (a : Address)
  /-- The payload has been sent; its answer is awaited. -/
  | waiting (payload : Bytes)
  /-- The verdict on the root's signature over the record is awaited. -/
  | checking (record : Bytes) (sig : Signature)
  /-- The record is the root's; it has not been added yet. -/
  | confirmed (record : Bytes)
  | finished (result : Except RequestError AddOutcome)

namespace Request

/-- Hands over the node's signature. -/
def sign (sig : Except CryptoError Signature) : Request → Request
  | .signing a =>
    match sig with
    | .ok sig => .waiting (requestPayload a sig)
    | .error e => .finished (.error (.crypto e))
  | r => r

/-- Hands over the reply. -/
def reply (reply : Reply) : Request → Request
  | .waiting _ =>
    match reply with
    | .error e => .finished (.error (.transport e))
    | .ok response =>
      match response.parts with
      | .ok (record, sig) => .checking record sig
      | .error e => .finished (.error e)
  | r => r

/-- Hands over the verdict on the record. -/
def judge (verdict : Except CryptoError Unit) : Request → Request
  | .checking record _ =>
    match verdict with
    | .ok () => .confirmed record
    | .error e => .finished (.error (.crypto e))
  | r => r

/-- Adds the certificate of a confirmed record to the store. -/
def settle (r : Request) (s : Store) : Request × Store × List Notice :=
  match r with
  | .confirmed record =>
    match Certificate.ofBytes record with
    | .error e => (.finished (.error (.record e)), s, [])
    | .ok c =>
      match s.add c .requested with
      | (.ok o, s) => (.finished (.ok o), s, [])
      | (.error e, s) => (.finished (.error (.store e)), s, Store.addNotices (.error e))
  | r => (r, s, [])

/-- What a request came to, if it is over. -/
def result? : Request → Option (Except RequestError AddOutcome)
  | .finished r => some r
  | _ => none

/-- A job that a request waits for. -/
inductive Job where
  | sign (message : Bytes)
  | send (destination : Address) (payload : Bytes)
  | verify (message : Bytes) (sig : Signature) (key : PublicKey)
  deriving DecidableEq, Repr

/-- The job a request waits for, if it waits. It is the root of the store that is asked, and that has
to have signed what comes back. -/
def job? (s : Store) : Request → Option Job
  | .signing a => some (.sign a.toBytes)
  | .waiting payload => some (.send s.rootAddress payload)
  | .checking record sig => some (.verify record sig s.rootKey)
  | .confirmed _ => none
  | .finished _ => none

/-- Has the backend or the transport do the job that a request waits for. -/
def serve (b : Backend) (transport : Address → Bytes → Reply) (s : Store) (r : Request) : Request :=
  match r.job? s with
  | some (.sign message) => r.sign (b.sign message)
  | some (.send destination payload) => r.reply (transport destination payload)
  | some (.verify message sig key) => r.judge (b.verify message sig key)
  | none => r

section Serve

variable (b : Backend) (transport : Address → Bytes → Reply) (s : Store)

@[simp] theorem serve_signing (a : Address) :
    (signing a).serve b transport s = (signing a).sign (b.sign a.toBytes) := rfl

@[simp] theorem serve_waiting (payload : Bytes) : (waiting payload).serve b transport s =
    (waiting payload).reply (transport s.rootAddress payload) := rfl

@[simp] theorem serve_checking (record : Bytes) (sig : Signature) :
    (checking record sig).serve b transport s =
      (checking record sig).judge (b.verify record sig s.rootKey) := rfl

@[simp] theorem serve_finished (result : Except RequestError AddOutcome) :
    (finished result).serve b transport s = finished result := rfl

end Serve

end Request

/-- A whole request for the peer at an address with nothing in between, and what is left of the store:
it waits at most three times. -/
def exchange (b : Backend) (transport : Address → Bytes → Reply) (a : Address) (s : Store) :
    Except RequestError AddOutcome × Store :=
  let r := (Request.signing a).serve b transport s
  let r := r.serve b transport s
  let r := r.serve b transport s
  let (r, s, _) := r.settle s
  (r.result?.getD (.error (.transport .timeout)), s)

end Vouch
