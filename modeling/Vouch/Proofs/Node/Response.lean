import Vouch.Proofs.Certificate
import Vouch.Proofs.Node.Inquiry
/-!
# Which answers are accepted

How a request comes out is decided by the backend that signs it and judges its answer, by the transport
that carries it, and by which root it is for: a `Query`. The query grants a record, or it refuses with an
error, never both. It grants the record of a response under `2.05` of exactly 204 octets, the last 64 of
which the backend accepts as the root's signature over the first 140; such a record is always that of a
certificate, and that is added. It refuses with what goes wrong first: the node's signature, the
transport, the code, the length, or the root's signature; then nothing is added.

* `Response.exists_parts`: an answer of the right length has its two parts.
* `Query.judged_of_grants`, `Query.judged_of_refuses`: where a request stands after its verdict.
* `Query.grants_or_refuses`: one of the two it is.
* `Query.grants_of_root`: what the root sends is granted.
* `Query.added_of_exchange`: what a request adds, and what it answers.
-/
namespace Vouch

/-! ## The parts of an answer -/

theorem Signature.exists_ofBytes {b : Bytes} (h : b.length = 64) :
    ∃ sig, Signature.ofBytes b = .ok sig := by
  unfold Signature.ofBytes
  split
  · exact ⟨_, rfl⟩
  · rename_i hnone
    exact absurd h (Bytes.octets?_eq_none.1 hnone)

namespace Response

variable {r : Response}

theorem parts_of_status (h : r.code ≠ .content) : r.parts = .error (.status r.code) := by
  simp [parts, h]

theorem parts_of_long (hc : r.code = .content) (h : 204 < r.payload.length) :
    r.parts = .error (.tooLong r.payload.length) := by
  simp [parts, hc, Response.length, h]

theorem parts_of_short (hc : r.code = .content) (h : r.payload.length < 204) :
    r.parts = .error (.tooShort r.payload.length) := by
  have hlong : ¬ 204 < r.payload.length := by omega
  simp [parts, hc, Response.length, h, hlong]

/-- Any 64 octets are a signature. -/
theorem exists_parts (hc : r.code = .content) (h : r.payload.length = 204) :
    ∃ sig, Signature.ofBytes (r.payload.drop 140) = .ok sig ∧
      r.parts = .ok (r.payload.take 140, sig) := by
  obtain ⟨sig, hsig⟩ := Signature.exists_ofBytes (b := r.payload.drop 140) (by simp [h])
  refine ⟨sig, hsig, ?_⟩
  simp [parts, hc, Response.length, h, Certificate.length, hsig]

end Response

/-! ## Queries -/

/-- All that decides how a request comes out. -/
structure Query where
  backend : Backend
  transport : Address → Bytes → Reply
  peer : Address
  root : Address
  rootKey : PublicKey

namespace Query

/-- The query for a peer, as it goes to the root of a store. -/
def ofStore (b : Backend) (transport : Address → Bytes → Reply) (a : Address) (s : Store) : Query :=
  ⟨b, transport, a, s.rootAddress, s.rootKey⟩

/-- The response comes in for the peer's address and the node's signature over it. -/
def Delivers (q : Query) (r : Response) : Prop :=
  ∃ sig, q.backend.sign q.peer.toBytes = .ok sig ∧
    q.transport q.root (q.peer.toBytes ++ sig.toBytes) = .ok r

/-- The record is in an answer under `2.05` of 204 octets, and the backend accepts the rest of the answer
as the root's signature over it. -/
def Grants (q : Query) (record : Bytes) : Prop :=
  ∃ (r : Response) (sig : Signature), q.Delivers r ∧ r.code = .content ∧ r.payload.length = 204 ∧
    record = r.payload.take 140 ∧ sig.toBytes = r.payload.drop 140 ∧
    q.backend.verify record sig q.rootKey = .ok ()

/-- What goes wrong first: each failure comes with what went well before it. -/
inductive Refuses (q : Query) : RequestError → Prop where
  | unsigned {e : CryptoError} (h : q.backend.sign q.peer.toBytes = .error e) : q.Refuses (.crypto e)
  | unanswered {sig : Signature} {e : TransportError} (hsig : q.backend.sign q.peer.toBytes = .ok sig)
      (h : q.transport q.root (q.peer.toBytes ++ sig.toBytes) = .error e) : q.Refuses (.transport e)
  | status {r : Response} (hr : q.Delivers r) (h : r.code ≠ .content) : q.Refuses (.status r.code)
  | tooLong {r : Response} (hr : q.Delivers r) (hc : r.code = .content)
      (h : 204 < r.payload.length) : q.Refuses (.tooLong r.payload.length)
  | tooShort {r : Response} (hr : q.Delivers r) (hc : r.code = .content)
      (h : r.payload.length < 204) : q.Refuses (.tooShort r.payload.length)
  | unverified {r : Response} {sig : Signature} {e : CryptoError} (hr : q.Delivers r)
      (hc : r.code = .content) (hl : r.payload.length = 204) (hsig : sig.toBytes = r.payload.drop 140)
      (h : q.backend.verify (r.payload.take 140) sig q.rootKey = .error e) : q.Refuses (.crypto e)

/-- The request once its answer is judged. -/
def judged (q : Query) : Request :=
  match (Request.signing q.peer).sign (q.backend.sign q.peer.toBytes) with
  | .waiting payload =>
    match (Request.waiting payload).reply (q.transport q.root payload) with
    | .checking record sig =>
      (Request.checking record sig).judge (q.backend.verify record sig q.rootKey)
    | r => r
  | r => r

variable {q : Query} {r : Response} {record : Bytes} {e : RequestError}

theorem judged_of_parts {sig : Signature} (h : q.Delivers r) (hp : r.parts = .ok (record, sig)) :
    q.judged = (Request.checking record sig).judge (q.backend.verify record sig q.rootKey) := by
  obtain ⟨own, hown, hr⟩ := h
  have hsent : q.transport q.root (requestPayload q.peer own) = .ok r := hr
  simp only [judged, Request.sign, hown, Request.reply, hsent, hp]

theorem judged_of_fault (h : q.Delivers r) (hp : r.parts = .error e) :
    q.judged = .finished (.error e) := by
  obtain ⟨own, hown, hr⟩ := h
  have hsent : q.transport q.root (requestPayload q.peer own) = .ok r := hr
  simp only [judged, Request.sign, hown, Request.reply, hsent, hp]

/-- An answer of the right code and length goes to the backend. -/
theorem judged_of_length {sig : Signature} (h : q.Delivers r) (hc : r.code = .content)
    (hl : r.payload.length = 204) (hsig : sig.toBytes = r.payload.drop 140) :
    q.judged = (Request.checking (r.payload.take 140) sig).judge
      (q.backend.verify (r.payload.take 140) sig q.rootKey) := by
  obtain ⟨sig', hsig', hparts⟩ := Response.exists_parts hc hl
  rw [← hsig, Signature.ofBytes_toBytes] at hsig'
  cases hsig'
  exact judged_of_parts h hparts

theorem judged_of_grants (h : q.Grants record) : q.judged = .confirmed record := by
  obtain ⟨r, sig, hr, hc, hl, rfl, hsig, hv⟩ := h
  rw [judged_of_length hr hc hl hsig, hv]
  rfl

/-- **The order of the errors.** -/
theorem judged_of_refuses (h : q.Refuses e) : q.judged = .finished (.error e) := by
  cases h with
  | unsigned h => simp [judged, Request.sign, h]
  | unanswered hsig h =>
    simp only [judged, Request.sign, hsig, Request.reply, requestPayload, h]
  | status hr h => exact judged_of_fault hr (Response.parts_of_status h)
  | tooLong hr hc h => exact judged_of_fault hr (Response.parts_of_long hc h)
  | tooShort hr hc h => exact judged_of_fault hr (Response.parts_of_short hc h)
  | unverified hr hc hl hsig h =>
    rw [judged_of_length hr hc hl hsig, h]
    rfl

/-- Nothing else can come of a request. -/
theorem grants_or_refuses (q : Query) : (∃ record, q.Grants record) ∨ ∃ e, q.Refuses e := by
  cases hsig : q.backend.sign q.peer.toBytes with
  | error e => exact .inr ⟨_, .unsigned hsig⟩
  | ok sig =>
    cases hsent : q.transport q.root (q.peer.toBytes ++ sig.toBytes) with
    | error e => exact .inr ⟨_, .unanswered hsig hsent⟩
    | ok r =>
      have hr : q.Delivers r := ⟨sig, hsig, hsent⟩
      by_cases hc : r.code = .content
      · rcases Nat.lt_trichotomy r.payload.length 204 with hl | hl | hl
        · exact .inr ⟨_, .tooShort hr hc hl⟩
        · obtain ⟨rootSig, hroot, -⟩ := Response.exists_parts hc hl
          have hbytes := Signature.toBytes_of_ofBytes hroot
          cases hv : q.backend.verify (r.payload.take 140) rootSig q.rootKey with
          | error e => exact .inr ⟨_, .unverified hr hc hl hbytes hv⟩
          | ok u => exact .inl ⟨_, r, rootSig, hr, hc, hl, rfl, hbytes, hv⟩
        · exact .inr ⟨_, .tooLong hr hc hl⟩
      · exact .inr ⟨_, .status hr hc⟩

theorem not_refuses_of_grants (hg : q.Grants record) : ¬ q.Refuses e := by
  intro he
  have hsame := (judged_of_grants hg).symm.trans (judged_of_refuses he)
  cases hsame

/-- The record that is granted is that of a certificate. -/
theorem Grants.exists_certificate (h : q.Grants record) :
    ∃ c, Certificate.ofBytes record = .ok c := by
  obtain ⟨r, sig, -, -, hl, rfl, -, -⟩ := h
  exact Certificate.exists_ofBytes (by simp [hl])

/-- What the root sends for a certificate is granted, if the backend accepts its signature. -/
theorem grants_of_root {root : RootAuthority} {c : Certificate}
    (hr : q.Delivers ⟨.content, root.response c⟩)
    (hv : q.backend.verify c.toBytes (root.key.sign c.toBytes) q.rootKey = .ok ()) :
    q.Grants c.toBytes := by
  have hlength : c.toBytes.length = 140 := Certificate.length_toBytes c
  refine ⟨_, root.key.sign c.toBytes, hr, rfl, ?_, ?_, ?_, hv⟩
  · simp [RootAuthority.response, hlength]
  · exact (List.take_left' hlength).symm
  · exact (List.drop_left' hlength).symm

/-! ## What is added -/

/-- A request waits for three jobs at most, and is judged once they are done. -/
theorem judged_eq_serve (b : Backend) (transport : Address → Bytes → Reply) (a : Address) (s : Store) :
    (ofStore b transport a s).judged =
      (((Request.signing a).serve b transport s).serve b transport s).serve b transport s := by
  unfold judged ofStore
  rw [Request.serve_signing]
  cases b.sign a.toBytes with
  | error e => simp only [Request.sign, Request.serve_finished]
  | ok sig =>
    simp only [Request.sign, Request.serve_waiting]
    cases transport s.rootAddress (requestPayload a sig) with
    | error e => simp only [Request.reply, Request.serve_finished]
    | ok r =>
      simp only [Request.reply]
      cases r.parts with
      | error e => simp only [Request.serve_finished]
      | ok parts => simp only [Request.serve_checking]

/-- A whole request is settled in the store it was sent from. -/
theorem exchange_of_settle {b : Backend} {transport : Address → Bytes → Reply} {a : Address}
    {s s' : Store} {result : Except RequestError AddOutcome} {ns : List Notice}
    (h : (ofStore b transport a s).judged.settle s = (.finished result, s', ns)) :
    exchange b transport a s = (result, s') := by
  rw [judged_eq_serve] at h
  rw [exchange, h]
  rfl

end Query

/-- To settle a record that was granted is to add its certificate. -/
theorem Request.settle_confirmed {record : Bytes} {c : Certificate}
    (hc : Certificate.ofBytes record = .ok c) (s : Store) :
    (Request.confirmed record).settle s =
      (.finished ((s.add c .requested).1.mapError .store), (s.add c .requested).2,
        Store.addNotices (s.add c .requested).1) := by
  rcases hadd : s.add c .requested with ⟨answer, s'⟩
  cases answer with
  | ok out => exact settle_added hc hadd
  | error e => exact settle_refused hc hadd

/-- The node that settles it adds the certificate likewise, and gives the lock back. -/
theorem Node.settleRequest_confirmed {record : Bytes} {c : Certificate}
    (hc : Certificate.ofBytes record = .ok c) (n : Node) (token : LockToken) :
    (n.settleRequest token (.confirmed record)).1 =
        .finished ((n.add c .requested).1.mapError .store) ∧
      (n.settleRequest token (.confirmed record)).2.1 =
        { (n.add c .requested).2.1 with lock := (n.lock.unlock token).2 } := by
  unfold settleRequest add
  rw [Request.settle_confirmed hc]
  rcases n.store.add c .requested with ⟨answer, s'⟩
  cases answer with
  | ok out => exact ⟨rfl, rfl⟩
  | error e => exact ⟨rfl, rfl⟩

namespace Query

variable {q : Query} {b : Backend} {transport : Address → Bytes → Reply} {a : Address} {s : Store}

theorem exchange_of_grants {record : Bytes} {c : Certificate}
    (hg : (ofStore b transport a s).Grants record) (hc : Certificate.ofBytes record = .ok c) :
    exchange b transport a s =
      ((s.add c .requested).1.mapError .store, (s.add c .requested).2) := by
  have hsettle := Request.settle_confirmed hc s
  rw [← judged_of_grants hg] at hsettle
  exact exchange_of_settle hsettle

theorem exchange_of_refuses {e : RequestError} (h : (ofStore b transport a s).Refuses e) :
    exchange b transport a s = (.error e, s) := by
  have hsettle : (ofStore b transport a s).judged.settle s = (.finished (.error e), s, []) := by
    rw [judged_of_refuses h]
    rfl
  exact exchange_of_settle hsettle

/-- An error of the request is the one it refuses with, or the store's. -/
theorem error_cases {e : RequestError} (h : (exchange b transport a s).1 = .error e) :
    (ofStore b transport a s).Refuses e ∨
      ∃ record c refusal, (ofStore b transport a s).Grants record ∧
        Certificate.ofBytes record = .ok c ∧ (s.add c .requested).1 = .error refusal ∧
        e = .store refusal := by
  rcases grants_or_refuses (ofStore b transport a s) with ⟨record, hg⟩ | ⟨e', he'⟩
  · obtain ⟨c, hc⟩ := hg.exists_certificate
    rw [exchange_of_grants hg hc] at h
    cases hadd : (s.add c .requested).1 with
    | ok out =>
      rw [hadd] at h
      cases h
    | error refusal =>
      rw [hadd] at h
      cases h
      exact .inr ⟨record, c, refusal, hg, hc, hadd, rfl⟩
  · rw [exchange_of_refuses he'] at h
    cases h
    exact .inl he'

/-- The record is never at fault. -/
theorem exchange_ne_record (e : CertificateError) :
    (exchange b transport a s).1 ≠ .error (.record e) := by
  intro h
  rcases error_cases h with he | ⟨_, _, _, _, _, _, he⟩ <;> cases he

/-- **A request adds the certificate it is granted.** Whatever the store, the peer, the backend and what
the transport hands back: if the query grants a record, then the record is that of a certificate, and the
request does and answers what adding that certificate as a requested one does and answers. If it does not,
it refuses with one error, which is the request's answer, and the store is left alone. So the store changes
only where a record is granted, and an error is the one refused with or the store's. A node that goes
through the request step by step, with other work in between, settles it in the same way, and
gives its lock back. -/
theorem added_of_exchange (b : Backend) (transport : Address → Bytes → Reply) (a : Address)
    (s : Store) :
    (∀ record, (ofStore b transport a s).Grants record →
      ∃ c, Certificate.ofBytes record = .ok c ∧ exchange b transport a s =
        ((s.add c .requested).1.mapError .store, (s.add c .requested).2)) ∧
    (∀ e, (ofStore b transport a s).Refuses e → exchange b transport a s = (.error e, s)) ∧
    ((∃ record, (ofStore b transport a s).Grants record) ↔
      ¬ ∃ e, (ofStore b transport a s).Refuses e) ∧
    ((exchange b transport a s).2 ≠ s → ∃ record, (ofStore b transport a s).Grants record) ∧
    (∀ e, (exchange b transport a s).1 = .error e → (ofStore b transport a s).Refuses e ∨
      ∃ record c refusal, (ofStore b transport a s).Grants record ∧
        Certificate.ofBytes record = .ok c ∧ (s.add c .requested).1 = .error refusal ∧
        e = .store refusal) ∧
    (∀ e, (exchange b transport a s).1 ≠ .error (.record e)) ∧
    (∀ r, (ofStore b transport a s).Delivers r → r.code = .content → r.payload.length = 204 →
      ∃ sig c, Signature.ofBytes (r.payload.drop 140) = .ok sig ∧
        Certificate.ofBytes (r.payload.take 140) = .ok c) ∧
    (∀ (q : Query) (n : Node) (token : LockToken),
      (∀ record, q.Grants record → ∃ c, Certificate.ofBytes record = .ok c ∧
        (n.settleRequest token q.judged).1 = .finished ((n.add c .requested).1.mapError .store) ∧
        (n.settleRequest token q.judged).2.1 =
          { (n.add c .requested).2.1 with lock := (n.lock.unlock token).2 }) ∧
      (∀ e, q.Refuses e → n.settleRequest token q.judged =
        (.finished (.error e), { n with lock := (n.lock.unlock token).2 }, [.requestFailed]))) := by
  have hgrants : ∀ record, (ofStore b transport a s).Grants record →
      ∃ c, Certificate.ofBytes record = .ok c ∧ exchange b transport a s =
        ((s.add c .requested).1.mapError .store, (s.add c .requested).2) := by
    intro record hg
    obtain ⟨c, hc⟩ := hg.exists_certificate
    exact ⟨c, hc, exchange_of_grants hg hc⟩
  have hcases := grants_or_refuses (ofStore b transport a s)
  refine ⟨hgrants, fun e => exchange_of_refuses, ?_, ?_, fun e => error_cases, exchange_ne_record,
    ?_, ?_⟩
  · constructor
    · intro hg he
      obtain ⟨record, hg⟩ := hg
      obtain ⟨e, he⟩ := he
      exact not_refuses_of_grants hg he
    · exact hcases.resolve_right
  · intro hchanged
    refine hcases.resolve_right ?_
    intro he
    obtain ⟨e, he⟩ := he
    rw [exchange_of_refuses he] at hchanged
    exact hchanged rfl
  · intro r hr hc hl
    obtain ⟨sig, hsig, -⟩ := Response.exists_parts hc hl
    obtain ⟨c, hcert⟩ := Certificate.exists_ofBytes (b := r.payload.take 140) (by simp [hl])
    exact ⟨sig, c, hsig, hcert⟩
  · intro q n token
    constructor
    · intro record hg
      obtain ⟨c, hc⟩ := hg.exists_certificate
      rw [judged_of_grants hg]
      exact ⟨c, hc, Node.settleRequest_confirmed hc n token⟩
    · intro e he
      rw [judged_of_refuses he]
      rfl

end Query
end Vouch
