import Vouch.Proofs.Pipeline.Errand
/-!
# What an answer brings in

An `Inquiry` is one request with the response that came in for it, and a store in which anything else
goes on between its steps. The transport may deliver any response. What makes a request accept one is its
status, its length, the root's signature over the record and the record itself; none of that refers to
the peer that was asked for.

* `Response.payload_of_parts`: an answer is the record and the root's signature over it.
* `Store.subject_of_add`: what is added is found under the id that the store answers.
* `stored_of_inquiry`: a request that succeeds has stored the subject of the answer, and one that does
  not has stored nothing.
* `not_stored_of_address`: that need not be the peer that was asked for.
-/
namespace Vouch

open Store (Op Effect)

/-! ## Answers -/

theorem Signature.toBytes_of_ofBytes {b : Bytes} {sig : Signature}
    (h : Signature.ofBytes b = .ok sig) : sig.toBytes = b := by
  unfold Signature.ofBytes at h
  split at h
  · rename_i o ho
    cases h
    exact Bytes.toList_of_octets? ho
  · cases h

/-- An answer comes in two parts, which make up its payload. -/
theorem Response.payload_of_parts {r : Response} {record : Bytes} {sig : Signature}
    (h : r.parts = .ok (record, sig)) : r = ⟨.content, record ++ sig.toBytes⟩ := by
  obtain ⟨code, payload⟩ := r
  unfold parts at h
  split at h
  · cases h
  · rename_i hcode
    split at h
    · cases h
    · split at h
      · cases h
      · split at h
        · rename_i sig' hsig
          cases h
          rw [Signature.toBytes_of_ofBytes hsig, List.take_append_drop]
          exact congrArg (Response.mk · payload) (Decidable.not_not.1 hcode)
        · cases h

/-- What was added, or was there already, is found under the id that the store answers. -/
theorem Store.subject_of_add {s : Store} (hs : s.FreeVacant) {c : Certificate} {o : Origin}
    {out : AddOutcome} (h : (s.add c o).1 = .ok out) :
    (s.add c o).2.Has out.id fun e => e.subject = c.subject := by
  rcases add_cases hs c o with ⟨id, hv, hadd⟩ | ⟨id, -, hp, hadd⟩ |
    ⟨id, free, -, -, -, -, hx, hadd⟩ | hadd <;> (rw [hadd] at h ⊢; cases h)
  · obtain ⟨-, e, he, hsub⟩ := find?_some hv
    exact ⟨e, he, hsub⟩
  · obtain ⟨-, e, he, hsub⟩ := findPending?_some hp
    have hold : s.Has id fun e => e.subject = c.subject := ⟨e, he, hsub⟩
    cases o with
    | unsolicited => exact hold
    | requested => exact hold.update fun _ hsub => hsub
  · exact ⟨Entry.fresh c o, by rw [show AddOutcome.id (.enqueued id) = id from rfl,
      get?_fill hx, if_pos rfl], rfl⟩

/-- To settle is to add the certificate of a confirmed record, or to fail over the same store; before
and after that there is nothing to settle. -/
theorem Request.settle_outcome (r : Request) (s : Store) :
    (∃ record c out, r = .confirmed record ∧ Certificate.ofBytes record = .ok c ∧
      (s.add c .requested).1 = .ok out ∧
      r.settle s = (.finished (.ok out), (s.add c .requested).2, [])) ∨
    (∃ err ns, r.settle s = (.finished (.error err), s, ns)) ∨ r.settle s = (r, s, []) := by
  cases r with
  | confirmed record =>
    rcases settle_cases record s with ⟨c, out, hc, hadd, hs⟩ | hfail
    · exact .inl ⟨record, c, out, rfl, hc, hadd, hs⟩
    · exact .inr (.inl hfail)
  | signing | waiting | checking | finished => exact .inr (.inr rfl)

/-! ## The inquiry -/

/-- A request, the response that came in for it, if one has, and the store it is for. -/
structure Inquiry where
  store : Store
  request : Request
  response : Option Response

/-- The verdict on a signature, or a failure of the backend. -/
def Backend.verdict (b : Backend) (record : Bytes) (sig : Signature) (rootKey : PublicKey) :
    (failure : Option CryptoError) → Except CryptoError Unit
  | none => b.verify record sig rootKey
  | some e => .error e

namespace Inquiry

inductive Event where
  /-- Anything is asked of the store, about any id. -/
  | other (op : Op)
  | sign (answer : Except CryptoError Signature)
  /-- The transport delivers what it likes. -/
  | reply (answer : Reply)
  | judge (failure : Option CryptoError)
  | settle

def step (b : Backend) (x : Inquiry) : Event → Option Inquiry
  | .other op => some { x with store := x.store.perform op }
  | .sign answer => some { x with request := x.request.sign answer }
  | .reply answer =>
    match x.request with
    | .waiting _ => some { x with
        request := x.request.reply answer
        response := answer.toOption }
    | _ => none
  | .judge failure =>
    match x.request with
    | .checking record sig => some { x with
        request := x.request.judge (b.verdict record sig x.store.rootKey failure) }
    | _ => none
  | .settle => some { x with
      store := (x.request.settle x.store).2.1
      request := (x.request.settle x.store).1 }

/-- What a request goes by is what the response says, once it is judged over the root's signature. -/
def Backed (b : Backend) (x : Inquiry) : Prop :=
  match x.request with
  | .checking record sig => x.response = some ⟨.content, record ++ sig.toBytes⟩
  | .confirmed record => ∃ sig, x.response = some ⟨.content, record ++ sig.toBytes⟩ ∧
    b.verify record sig x.store.rootKey = .ok ()
  | _ => True

/-- What holds in every run. -/
structure Sound (b : Backend) (x : Inquiry) : Prop where
  freeVacant : x.store.FreeVacant
  backed : x.Backed b

variable {b : Backend} {x x' : Inquiry}

theorem Sound.other (h : x.Sound b) (op : Op) : Sound b { x with store := x.store.perform op } := by
  have he := Store.perform_effect h.freeVacant op
  refine ⟨h.freeVacant.effect he, ?_⟩
  have hb := h.backed
  unfold Backed at hb ⊢
  rw [he.rootKey_eq]
  exact hb

theorem Sound.sign (h : x.Sound b) (answer : Except CryptoError Signature) :
    Sound b { x with request := x.request.sign answer } := by
  obtain ⟨store, request, response⟩ := x
  refine ⟨h.freeVacant, ?_⟩
  cases request with
  | signing => cases answer <;> trivial
  | waiting | checking | confirmed | finished => exact h.backed

theorem Sound.reply (h : x.Sound b) {answer : Reply}
    (hstep : x.step b (.reply answer) = some x') : x'.Sound b := by
  simp only [step] at hstep
  split at hstep
  · rename_i payload hreq
    cases hstep
    refine ⟨h.freeVacant, ?_⟩
    rw [hreq]
    cases answer with
    | error => trivial
    | ok response =>
      cases hparts : response.parts with
      | error err =>
        simp only [Backed, Request.reply, hparts]
      | ok parts =>
        obtain ⟨record, sig⟩ := parts
        simp only [Backed, Request.reply, hparts]
        exact congrArg some (Response.payload_of_parts hparts)
  · cases hstep

theorem Sound.judge (h : x.Sound b) {failure : Option CryptoError}
    (hstep : x.step b (.judge failure) = some x') : x'.Sound b := by
  simp only [step] at hstep
  split at hstep
  · rename_i record sig hreq
    cases hstep
    refine ⟨h.freeVacant, ?_⟩
    have hb := h.backed
    rw [Backed, hreq] at hb
    cases hv : b.verdict record sig x.store.rootKey failure with
    | error err => simp only [Backed, hreq, Request.judge]
    | ok u =>
      simp only [Backed, hreq, Request.judge]
      cases failure with
      | none => exact ⟨sig, hb, hv⟩
      | some => cases hv
  · cases hstep

theorem Sound.settle (h : x.Sound b) (hstep : x.step b .settle = some x') : x'.Sound b := by
  cases hstep
  rcases x.request.settle_outcome x.store with ⟨record, c, out, -, -, -, hs⟩ | ⟨err, ns, hs⟩ | hs
  · rw [hs]
    exact ⟨h.freeVacant.effect (Store.add_effect h.freeVacant c .requested), trivial⟩
  · rw [hs]
    exact ⟨h.freeVacant, trivial⟩
  · rw [hs]
    exact h

/-- **Each event.** -/
theorem Sound.step {ev : Event} (h : x.Sound b) (hstep : x.step b ev = some x') : x'.Sound b := by
  cases ev with
  | other op =>
    cases hstep
    exact h.other op
  | sign answer =>
    cases hstep
    exact h.sign answer
  | reply => exact h.reply hstep
  | judge => exact h.judge hstep
  | settle => exact h.settle hstep

end Inquiry

/-- **Nothing but the payload lets show who is asked for**: where the transport answers two payloads
alike, both requests come to the same. -/
theorem exchange_congr {b : Backend} {transport : Address → Bytes → Reply} {a a' : Address}
    {s : Store} {sig sig' : Signature} (ha : b.sign a.toBytes = .ok sig)
    (ha' : b.sign a'.toBytes = .ok sig')
    (h : transport s.rootAddress (requestPayload a sig) =
      transport s.rootAddress (requestPayload a' sig')) :
    exchange b transport a s = exchange b transport a' s := by
  simp only [exchange, Request.serve_signing, ha, ha', Request.sign, Request.serve_waiting, h]
  rfl

/-- A request for the peer at an address, over a new store of any capacity. -/
def inquiry (b : Backend) (a : Address) : System Inquiry Inquiry.Event where
  initial x := ∃ capacity root k, x = ⟨.empty capacity root k, .signing a, none⟩
  step := Inquiry.step b

namespace Inquiry

variable {b : Backend} {a : Address} {x x' : Inquiry}

theorem Sound.of_reachable (h : (inquiry b a).Reachable x) : x.Sound b := by
  refine h.invariant ?_ fun x ev x' hx hstep => hx.step hstep
  rintro x ⟨capacity, root, k, rfl⟩
  exact ⟨Store.freeVacant_empty capacity root k, trivial⟩

/-- A request that settles and succeeds has the certificate of the response added. -/
theorem Sound.settled (h : x.Sound b) {out : AddOutcome} (hopen : ∀ result, x.request ≠ .finished result)
    (hstep : x.step b .settle = some x') (hout : x'.request = .finished (.ok out)) :
    ∃ (c : Certificate) (sig : Signature), x.response = some ⟨.content, c.toBytes ++ sig.toBytes⟩ ∧
      b.verify c.toBytes sig x.store.rootKey = .ok () ∧
      x'.store.Has out.id fun e => e.subject = c.subject := by
  cases hstep
  rcases x.request.settle_outcome x.store with
    ⟨record, c, out', hreq, hc, hadd, hs⟩ | ⟨err, ns, hs⟩ | hs
  · have hb := h.backed
    rw [Backed, hreq] at hb
    obtain ⟨sig, hresp, hv⟩ := hb
    rw [hs] at hout ⊢
    cases hout
    obtain rfl := Certificate.toBytes_of_ofBytes hc
    exact ⟨c, sig, hresp, hv, Store.subject_of_add h.freeVacant hadd⟩
  · rw [hs] at hout
    cases hout
  · rw [hs] at hout
    exact absurd hout (hopen _)

/-- No other step makes a request succeed. -/
theorem Sound.completed (h : x.Sound b) {ev : Event} {out : AddOutcome}
    (hopen : ∀ result, x.request ≠ .finished result) (hstep : x.step b ev = some x')
    (hout : x'.request = .finished (.ok out)) :
    ∃ (c : Certificate) (sig : Signature), x.response = some ⟨.content, c.toBytes ++ sig.toBytes⟩ ∧
      b.verify c.toBytes sig x.store.rootKey = .ok () ∧
      x'.store.Has out.id fun e => e.subject = c.subject := by
  cases ev with
  | other =>
    cases hstep
    exact absurd hout (hopen _)
  | sign =>
    cases hstep
    exact absurd (Request.sign_eq_finished_iff.1 hout) (hopen _)
  | reply =>
    simp only [Inquiry.step] at hstep
    split at hstep
    · cases hstep
      exact absurd (Request.reply_eq_finished_iff.1 hout) (hopen _)
    · cases hstep
  | judge =>
    simp only [Inquiry.step] at hstep
    split at hstep
    · cases hstep
      exact absurd (Request.judge_eq_finished_iff.1 hout) (hopen _)
    · cases hstep
  | settle => exact h.settled hopen hstep hout

/-- A step of the request itself changes the store only by succeeding. -/
theorem store_of_step {ev : Event} (hown : ∀ op, ev ≠ .other op) (hstep : x.step b ev = some x')
    (hfail : ∀ out, x'.request ≠ .finished (.ok out)) : x'.store = x.store := by
  cases ev with
  | other op => exact absurd rfl (hown op)
  | sign =>
    cases hstep
    rfl
  | reply | judge =>
    simp only [step] at hstep
    split at hstep
    · cases hstep
      rfl
    · cases hstep
  | settle =>
    cases hstep
    rcases x.request.settle_outcome x.store with ⟨_, c, out, -, -, -, hs⟩ | ⟨err, ns, hs⟩ | hs
    · exact absurd (by rw [hs]) (hfail out)
    · rw [hs]
    · rw [hs]

/-- Whom a node has asked for makes no difference to what it does with the answer. -/
theorem exchange_eq_of_reply {a' : Address} {sig sig' : Signature} (ha : b.sign a.toBytes = .ok sig)
    (ha' : b.sign a'.toBytes = .ok sig') (reply : Reply) (s : Store) :
    exchange b (fun _ _ => reply) a s = exchange b (fun _ _ => reply) a' s :=
  exchange_congr ha ha' rfl

/-- **A request stores the subject of its answer.** Whatever the transport delivers, whatever else is
done to the store meanwhile, and wherever the backend fails: a request that succeeds was answered under
the code of a content with the record of a certificate and the root's signature over it, and the id it is
told names an entry of that certificate's subject. That is the peer that was asked for if the answer is
about it. Answers are not matched with requests: asking for another peer makes no difference to what
becomes of one. Short of success a request leaves the store alone. -/
theorem stored_of_inquiry (h : (inquiry b a).Reachable x) :
    (∀ ev x' out, (∀ result, x.request ≠ .finished result) → x.step b ev = some x' →
      x'.request = .finished (.ok out) →
      ∃ (c : Certificate) (sig : Signature),
        x.response = some ⟨.content, c.toBytes ++ sig.toBytes⟩ ∧
        b.verify c.toBytes sig x.store.rootKey = .ok () ∧
        x'.store.Has out.id fun e =>
          e.subject = c.subject ∧ (e.subject = a.eui64 ↔ c.subject = a.eui64)) ∧
    (∀ ev x', (∀ op, ev ≠ .other op) → x.step b ev = some x' →
      (∀ out, x'.request ≠ .finished (.ok out)) → x'.store = x.store) ∧
    (∀ a' sig sig' reply, b.sign a.toBytes = .ok sig → b.sign a'.toBytes = .ok sig' →
      exchange b (fun _ _ => reply) a x.store = exchange b (fun _ _ => reply) a' x.store) := by
  have hs := Sound.of_reachable h
  refine ⟨fun ev x' out hopen hstep hout => ?_, fun ev x' hown hstep => store_of_step hown hstep,
    fun a' sig sig' reply ha ha' => exchange_eq_of_reply ha ha' reply x.store⟩
  obtain ⟨c, sig, hresp, hv, he⟩ := hs.completed hopen hstep hout
  exact ⟨c, sig, hresp, hv, he.imp fun e hsub => ⟨hsub, by rw [hsub]⟩⟩

/-- The node asks for the peer of an address and is answered with the certificate of another. -/
def misled : List Event :=
  [.sign (.ok ⟨Vector.replicate 64 0⟩),
    .reply (.ok ⟨.content, (Certificate.uniform 1).toBytes ++ List.replicate 64 1⟩), .judge none]

/-- A request for the peer of the zero address, over a new store with room for one certificate. -/
def fresh : Inquiry :=
  ⟨.empty 1 ⟨Vector.replicate 16 0⟩ ⟨Vector.replicate 64 0⟩, .signing ⟨Vector.replicate 16 0⟩, none⟩

set_option maxRecDepth 4000 in
theorem run_misled : ∃ x x' e record,
    (inquiry .ones ⟨Vector.replicate 16 0⟩).run fresh misled = some x ∧
    x.request = .confirmed record ∧ x.step .ones .settle = some x' ∧
    x'.request = .finished (.ok (.enqueued ⟨0, 0⟩)) ∧
    x'.store.get? ⟨0, 0⟩ = some e ∧ e.subject = (Certificate.uniform 1).subject :=
  ⟨_, _, _, _, rfl, rfl, rfl, rfl, rfl, rfl⟩

theorem stored_after_misled : ∃ x x' e,
    (inquiry .ones ⟨Vector.replicate 16 0⟩).run fresh misled = some x ∧
    x.step .ones .settle = some x' ∧
    x'.request = .finished (.ok (.enqueued ⟨0, 0⟩)) ∧
    x'.store.get? ⟨0, 0⟩ = some e ∧ e.subject = (Certificate.uniform 1).subject ∧
    ∃ (c : Certificate) (sig : Signature),
      x.response = some ⟨.content, c.toBytes ++ sig.toBytes⟩ ∧
      Backend.ones.verify c.toBytes sig x.store.rootKey = .ok () ∧ e.subject = c.subject := by
  obtain ⟨x, x', e, record, hx, hreq, hstep, hout, he, hsub⟩ := run_misled
  have hopen (result : Except RequestError AddOutcome) : x.request ≠ .finished result := by
    rw [hreq]
    simp
  obtain ⟨hstored, -⟩ := stored_of_inquiry ⟨fresh, misled, ⟨1, _, _, rfl⟩, hx⟩
  obtain ⟨c, sig, hresp, hv, hhas⟩ := hstored _ x' _ hopen hstep hout
  exact ⟨x, x', e, hx, hstep, hout, he, hsub, c, sig, hresp, hv, (hhas.of_get? he).1⟩

/-- **Not the peer that was asked for**, although the root has signed the answer. -/
theorem not_stored_of_address : ¬ ∀ (b : Backend) (a : Address) (x x' : Inquiry) (ev : Event)
    (out : AddOutcome), (inquiry b a).Reachable x → (∀ result, x.request ≠ .finished result) →
    x.step b ev = some x' → x'.request = .finished (.ok out) →
    x'.store.Has out.id fun e => e.subject = a.eui64 := by
  intro hall
  obtain ⟨x, x', e, record, hx, hreq, hstep, hout, he, hsub⟩ := run_misled
  have hopen (result : Except RequestError AddOutcome) : x.request ≠ .finished result := by
    rw [hreq]
    simp
  have hhas := hall _ _ x x' _ _ ⟨fresh, misled, ⟨1, _, _, rfl⟩, hx⟩ hopen hstep hout
  have hpeer : e.subject = (Address.mk (Vector.replicate 16 0)).eui64 := hhas.of_get? he
  rw [hsub] at hpeer
  exact absurd hpeer (by decide)

end Inquiry
end Vouch
