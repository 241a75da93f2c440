import Vouch.Node
import Vouch.Proofs.System
import Vouch.Proofs.Pipeline.Context
/-!
# A request for a certificate that also arrives by itself

An `Errand` is a node with its pipeline and one request for the certificate of a peer. While the
request is under way copies of the certificate arrive that nobody asked for, and the pipeline may
verify one at any time. The request says that the certificate was asked for by adding it under that
origin, and the pipeline looks at the origin once, when it promotes the entry.

So all depends on which comes first. A copy that still waits when the answer is added becomes a
requested one, and gets its context; one that is verified by then is left as it is, without.

* `Sound.step`: what every event keeps, whoever it comes from.
* `isSome_context_of_request`: when the request has succeeded and the queue is empty, the peer is
  verified, and has a context unless the request was told that it already was.
-/
namespace Vouch

open Store (Op Effect)

/-- A node with its pipeline, the request with the lock it holds, and the certificate that the request
has brought. -/
structure Errand where
  node : Node
  round : Round
  request : Option (LockToken × Request)
  brought : Option Certificate

instance decidableExistsOk {ε α : Type} (x : Except ε α) : Decidable (∃ a, x = .ok a) :=
  match x with
  | .ok a => isTrue ⟨a, rfl⟩
  | .error _ => isFalse fun ⟨_, h⟩ => nomatch h

instance (b : Backend) (s : Store) (c : Certificate) : Decidable (s.Genuine b c) :=
  match h : b.verify c.signedPart c.signature s.rootKey with
  | .ok () => isTrue h
  | .error _ => isFalse fun hg => nomatch hg.symm.trans h

instance (b : Backend) (s : Store) (subject : Eui64) (c : Certificate) :
    Decidable (s.Sincere b subject c) :=
  inferInstanceAs (Decidable (_ → _ ∧ ∃ _, _))

namespace Errand

inductive Event where
  /-- A certificate arrives that nobody asked for. -/
  | arrive (c : Certificate)
  /-- The request is made. -/
  | ask (now : Nat) (a : Address)
  | sign (answer : Except CryptoError Signature)
  | reply (answer : Reply)
  | judge (verdict : Except CryptoError Unit)
  /-- What the request has brought is added. -/
  | settle
  /-- The pipeline takes a step. -/
  | act (a : Worker.Act)

/-- The pipeline's part. -/
def worker (x : Errand) : Worker := ⟨x.node.store, x.round⟩

/-- Certificates of the subject have to be sincere; of others any may come. -/
def step (b : Backend) (own subject : Eui64) (x : Errand) : Event → Option Errand
  | .arrive c =>
    if x.node.store.Sincere b subject c then
      some { x with node := (x.node.add c .unsolicited).2.1 }
    else none
  | .ask now a =>
    match x.request with
    | some _ => none
    | none =>
      match x.node.request now a with
      | (.sent token r, node, _) => some { x with node := node, request := some (token, r) }
      | (_, node, _) => some { x with node := node }
  | .sign answer => x.request.map fun tr => { x with request := some (tr.1, tr.2.sign answer) }
  | .reply answer => x.request.map fun tr => { x with request := some (tr.1, tr.2.reply answer) }
  | .judge verdict => x.request.map fun tr => { x with request := some (tr.1, tr.2.judge verdict) }
  | .settle =>
    match x.request with
    | some (token, .confirmed record) =>
      let next := x.node.settleRequest token (.confirmed record)
      match Certificate.ofBytes record with
      | .ok c =>
        if x.node.store.Sincere b subject c then
          some ⟨next.2.1, x.round, some (token, next.1), some c⟩
        else none
      | .error _ => some { x with node := next.2.1, request := some (token, next.1) }
    | _ => none
  | .act a => (x.worker.act b ⟨own, false⟩ a).map fun w =>
    { x with node := { x.node with store := w.store }, round := w.round }

/-- What the request was told when it succeeded. -/
def done? (x : Errand) : Option AddOutcome :=
  match x.request with
  | some (_, .finished (.ok out)) => some out
  | _ => none

end Errand

/-- One errand of the node `own` with the peer `subject`, which it holds no certificate of when it
begins; key exchange without a request is off. -/
def errand (b : Backend) (own subject : Eui64) : System Errand Errand.Event where
  initial x := x.node.store.Consistent ∧ x.node.store.PinnedBy none ∧
    ¬ x.node.store.Holds subject ∧ x.round = .finished .nothing ∧ x.request = none
  step := Errand.step b own subject

/-! ## What the parts do -/

theorem Node.store_add (n : Node) (c : Certificate) (o : Origin) :
    (n.add c o).2.1.store = (n.store.add c o).2 := by
  unfold add
  split <;> (rename_i h; rw [h])

theorem Node.store_request (n : Node) (now : Nat) (a : Address) :
    (n.request now a).2.1.store = n.store := by
  unfold request
  split
  · rfl
  · split <;> rfl

theorem Node.request_sent {n n' : Node} {now : Nat} {a : Address} {token : LockToken} {r : Request}
    {ns : List Notice} (h : n.request now a = (.sent token r, n', ns)) : r = .signing a := by
  unfold request at h
  split at h
  · cases h
  · split at h
    · cases h
    · cases h
      rfl

theorem Request.settle_unreadable {record : Bytes} {err : CertificateError} (s : Store)
    (hc : Certificate.ofBytes record = .error err) :
    (Request.confirmed record).settle s = (.finished (.error (.record err)), s, []) := by
  simp only [settle, hc]

theorem Request.settle_refused {record : Bytes} {c : Certificate} {s s' : Store} {err : StoreError}
    (hc : Certificate.ofBytes record = .ok c) (hadd : s.add c .requested = (.error err, s')) :
    (Request.confirmed record).settle s =
      (.finished (.error (.store err)), s', Store.addNotices (.error err)) := by
  simp only [settle, hc, hadd]

theorem Request.settle_added {record : Bytes} {c : Certificate} {s s' : Store} {out : AddOutcome}
    (hc : Certificate.ofBytes record = .ok c) (hadd : s.add c .requested = (.ok out, s')) :
    (Request.confirmed record).settle s = (.finished (.ok out), s', []) := by
  simp only [settle, hc, hadd]

/-- A request succeeds with what the store answers, or it fails and leaves the store alone. -/
theorem Request.settle_cases (record : Bytes) (s : Store) :
    (∃ c out, Certificate.ofBytes record = .ok c ∧ (s.add c .requested).1 = .ok out ∧
      (Request.confirmed record).settle s = (.finished (.ok out), (s.add c .requested).2, [])) ∨
    ∃ err ns, (Request.confirmed record).settle s = (.finished (.error err), s, ns) := by
  cases hc : Certificate.ofBytes record with
  | error err => exact .inr ⟨_, _, settle_unreadable s hc⟩
  | ok c =>
    rcases hadd : s.add c .requested with ⟨answer, s'⟩
    cases answer with
    | ok out => exact .inl ⟨c, out, rfl, by rw [hadd], by rw [settle_added hc hadd, hadd]⟩
    | error err =>
      have hsame := (Store.add_error (s := s) (c := c) (o := .requested) (by rw [hadd])).1
      rw [hadd] at hsame
      obtain rfl : s' = s := hsame
      exact .inr ⟨_, _, settle_refused hc hadd⟩

theorem Node.settleRequest_cases (n : Node) (token : LockToken) (record : Bytes) :
    (∃ c out, Certificate.ofBytes record = .ok c ∧ (n.store.add c .requested).1 = .ok out ∧
      (n.settleRequest token (.confirmed record)).1 = .finished (.ok out) ∧
      (n.settleRequest token (.confirmed record)).2.1.store = (n.store.add c .requested).2) ∨
    ∃ err, (n.settleRequest token (.confirmed record)).1 = .finished (.error err) ∧
      (n.settleRequest token (.confirmed record)).2.1.store = n.store := by
  rcases Request.settle_cases record n.store with ⟨c, out, hc, hadd, hs⟩ | ⟨err, ns, hs⟩
  · simp only [settleRequest, hs]
    exact .inl ⟨c, out, hc, hadd, rfl, rfl⟩
  · simp only [settleRequest, hs]
    exact .inr ⟨err, rfl, trivial⟩

/-- Nothing but settling makes a request succeed. -/
theorem Request.sign_eq_finished_iff {r : Request} {answer : Except CryptoError Signature}
    {out : AddOutcome} : r.sign answer = .finished (.ok out) ↔ r = .finished (.ok out) := by
  cases r with
  | signing => cases answer <;> simp [sign]
  | waiting | checking | confirmed | finished => rfl

theorem Request.reply_eq_finished_iff {r : Request} {answer : Reply} {out : AddOutcome} :
    r.reply answer = .finished (.ok out) ↔ r = .finished (.ok out) := by
  cases r with
  | waiting =>
    cases answer with
    | error => simp [reply]
    | ok response =>
      simp only [reply]
      split <;> simp
  | signing | checking | confirmed | finished => rfl

theorem Request.judge_eq_finished_iff {r : Request} {verdict : Except CryptoError Unit}
    {out : AddOutcome} : r.judge verdict = .finished (.ok out) ↔ r = .finished (.ok out) := by
  cases r with
  | checking => cases verdict <;> simp [judge]
  | signing | waiting | confirmed | finished => rfl

namespace Errand

variable {b : Backend} {own subject : Eui64} {x x' : Errand}

/-! ## What the request was told -/

/-- The entry that the request was told of: one verified before, and not as a requested one, or one
that is a requested one now. -/
def Told (subject : Eui64) (s : Store) : AddOutcome → Prop
  | .alreadyVerified id => s.Has id fun e =>
    e.subject = subject ∧ e.state = .verified ∧ e.origin = .unsolicited
  | .alreadyPending id => s.Has id fun e => e.subject = subject ∧ e.origin = .requested
  | .enqueued id => s.Has id fun e => e.subject = subject ∧ e.origin = .requested

/-- The entries of the subject stay, with their origins, and stay verified. -/
def Lasting (subject : Eui64) (s s' : Store) : Prop :=
  ∀ id e, s.get? id = some e → e.subject = subject → s'.Has id fun e' =>
    e'.subject = e.subject ∧ e'.origin = e.origin ∧ (e.state = .verified → e'.state = .verified)

theorem Told.mono {s s' : Store} {out : AddOutcome} (h : Told subject s out)
    (hl : Lasting subject s s') : Told subject s' out := by
  cases out with
  | alreadyVerified id =>
    obtain ⟨e, hx, hsub, hv, ho⟩ := h
    exact (hl id e hx hsub).imp fun e' he => ⟨he.1.trans hsub, he.2.2 hv, he.2.1.trans ho⟩
  | alreadyPending id =>
    obtain ⟨e, hx, hsub, ho⟩ := h
    exact (hl id e hx hsub).imp fun e' he => ⟨he.1.trans hsub, he.2.1.trans ho⟩
  | enqueued id =>
    obtain ⟨e, hx, hsub, ho⟩ := h
    exact (hl id e hx hsub).imp fun e' he => ⟨he.1.trans hsub, he.2.1.trans ho⟩

/-- Every entry of the subject came by itself. -/
def Unasked (subject : Eui64) (s : Store) : Prop :=
  ∀ id e, s.get? id = some e → e.subject = subject → e.origin = .unsolicited

theorem Unasked.told {s : Store} {c : Certificate} {out : AddOutcome} (h : Unasked c.subject s)
    (hs : s.Consistent) (hadd : (s.add c .requested).1 = .ok out) :
    Told c.subject (s.add c .requested).2 out := by
  by_cases hold : s.Holds c.subject
  · obtain ⟨id, e, hx, hsub⟩ := hold
    rw [hs.add_of_get? hx hsub] at hadd ⊢
    cases hst : e.state with
    | verified =>
      rw [hst] at hadd
      cases hadd
      exact ⟨e, hx, hsub, hst, h id e hx hsub⟩
    | pending =>
      rw [hst] at hadd
      cases hadd
      exact Store.Has.update (P := fun e => e.subject = c.subject) ⟨e, hx, hsub⟩ fun _ he => ⟨he, rfl⟩
  · rcases hs.add_cases .requested hold with ⟨-, hfail⟩ | ⟨id, free, -, hv, hnew⟩
    · rw [hfail] at hadd
      cases hadd
    · rw [hnew] at hadd ⊢
      cases hadd
      exact ⟨Entry.fresh c .requested, by rw [Store.get?_fill hv, if_pos rfl], rfl, rfl⟩

theorem lasting_of_arrive {s s' : Store} {c : Certificate} (he : Effect s (.add c .unsolicited) s') :
    Lasting subject s s' := by
  intro id e hx hsub
  rcases he.kept_or_vacated hx with ⟨e', hx', hst⟩ | ⟨-, -, hop | ⟨_, hop, -⟩⟩
  · refine ⟨e', hx', hst.subject, ?_, hst.verified⟩
    rcases hst.origin with ho | ⟨c', hop, -⟩
    · exact ho
    · cases hop
  · cases hop
  · cases hop

theorem Unasked.arrive {s s' : Store} {c : Certificate} (h : Unasked subject s)
    (he : Effect s (.add c .unsolicited) s') : Unasked subject s' := by
  intro id e' hx' hsub
  rcases he.get?_cases hx' with ⟨e, hx, hst⟩ | ⟨c', o, hop, rfl, -⟩
  · rcases hst.origin with ho | ⟨c', hop, -⟩
    · exact ho.trans (h id e hx (hst.subject.symm.trans hsub))
    · cases hop
  · cases hop
    rfl

/-! ## The whole -/

/-- What holds while the errand goes on. -/
structure Sound (b : Backend) (own subject : Eui64) (x : Errand) : Prop where
  worker : x.worker.Sound b ⟨own, false⟩
  attached : Worker.Attached b own subject x.node.store x.round
  unasked : x.done? = none → Unasked subject x.node.store
  told : ∀ {out c}, x.done? = some out → x.brought = some c → c.subject = subject →
    Told subject x.node.store out

theorem Sound.arrive {c : Certificate} (hx : x.Sound b own subject)
    (hc : x.node.store.Sincere b subject c) :
    Sound b own subject { x with node := (x.node.add c .unsolicited).2.1 } := by
  obtain ⟨hw, ha, hu, ht⟩ := hx
  have he := Store.add_effect hw.consistent.freeVacant c .unsolicited
  have hstore := x.node.store_add c .unsolicited
  have hw' := hw.add c .unsolicited
  have ha' := ha.add hw.consistent hc he
  refine ⟨?_, ?_, fun hn => ?_, fun ho hb hs => ?_⟩
  · unfold Errand.worker
    rw [hstore]
    exact hw'
  · rw [hstore]
    exact ha'
  · rw [hstore]
    exact (hu hn).arrive he
  · rw [hstore]
    exact (ht ho hb hs).mono (lasting_of_arrive he)

theorem done?_eq_some_iff {out : AddOutcome} :
    x.done? = some out ↔ ∃ token, x.request = some (token, .finished (.ok out)) := by
  unfold done?
  split
  · rename_i token out' hr
    simp [hr]
  · rename_i hr
    constructor
    · intro h
      cases h
    · intro h
      obtain ⟨token, h⟩ := h
      exact absurd h (hr token out)

/-- Two states that differ in what the success of the request does not depend on. -/
theorem done?_congr (h : ∀ out, (∃ token, x'.request = some (token, .finished (.ok out))) ↔
    ∃ token, x.request = some (token, .finished (.ok out))) : x'.done? = x.done? := by
  ext out
  rw [done?_eq_some_iff, done?_eq_some_iff, h]

/-- A change of the request that neither makes it succeed nor undoes its success. -/
theorem Sound.request (hx : x.Sound b own subject) (hn : x'.node.store = x.node.store)
    (hr : x'.round = x.round) (hd : x'.done? = x.done?)
    (hb : x'.brought = x.brought ∨ x.done? = none) : x'.Sound b own subject := by
  obtain ⟨hw, ha, hu, ht⟩ := hx
  refine ⟨?_, ?_, fun hnone => ?_, fun {out c} ho hc hs => ?_⟩
  · unfold Errand.worker
    rw [hn, hr]
    exact hw
  · rw [hn, hr]
    exact ha
  · rw [hn]
    exact hu (hd ▸ hnone)
  · rw [hn]
    rw [hd] at ho
    rcases hb with hsame | hnone
    · exact ht ho (hsame ▸ hc) hs
    · rw [hnone] at ho
      cases ho

theorem Sound.answered {token : LockToken} {r r' : Request} (hx : x.Sound b own subject)
    (hr : x.request = some (token, r))
    (hd : ∀ out, r' = .finished (.ok out) ↔ r = .finished (.ok out)) :
    Sound b own subject { x with request := some (token, r') } := by
  refine hx.request rfl rfl (done?_congr fun out => ?_) (.inl rfl)
  simp [hr, hd]

theorem Sound.ask {now : Nat} {a : Address} (hx : x.Sound b own subject)
    (h : x.step b own subject (.ask now a) = some x') : x'.Sound b own subject := by
  simp only [Errand.step] at h
  split at h
  · cases h
  · rename_i hnone
    have hstore := x.node.store_request now a
    split at h
    · rename_i token r node ns hreq
      cases h
      rw [hreq] at hstore
      refine hx.request hstore rfl (done?_congr fun out => ?_) (.inl rfl)
      simp [hnone, Node.request_sent hreq]
    · rename_i o node ns _ hreq
      cases h
      rw [hreq] at hstore
      exact hx.request hstore rfl rfl (.inl rfl)

theorem Sound.settle (hx : x.Sound b own subject)
    (h : x.step b own subject .settle = some x') : x'.Sound b own subject := by
  simp only [Errand.step] at h
  split at h
  · rename_i token record hr
    have hopen : x.done? = none := by simp [done?, hr]
    rcases x.node.settleRequest_cases token record with
      ⟨c, out, hc, hadd, hfin, hstore⟩ | ⟨err, hfin, hstore⟩
    · -- The certificate is added, and the request told what became of it.
      rw [hc] at h
      simp only [Option.ite_none_right_eq_some, Option.some.injEq] at h
      obtain ⟨hsinc, rfl⟩ := h
      obtain ⟨hw, ha, hu, -⟩ := hx
      have he := Store.add_effect hw.consistent.freeVacant c .requested
      have hw' := hw.add c .requested
      have ha' := ha.add hw.consistent hsinc he
      have hdone : done? ⟨(x.node.settleRequest token (.confirmed record)).2.1, x.round,
          some (token, (x.node.settleRequest token (.confirmed record)).1), some c⟩ = some out := by
        rw [done?_eq_some_iff, hfin]
        exact ⟨token, rfl⟩
      refine ⟨?_, ?_, fun hnone => ?_, fun ho hb hs => ?_⟩
      · unfold Errand.worker
        rw [hstore]
        exact hw'
      · rw [hstore]
        exact ha'
      · rw [hdone] at hnone
        cases hnone
      · rw [hdone] at ho
        cases ho
        cases hb
        subst hs
        rw [hstore]
        exact (hu hopen).told hw.consistent hadd
    · -- The request fails, and the store is as it was.
      have hfail (brought : Option Certificate) :
          done? ⟨(x.node.settleRequest token (.confirmed record)).2.1, x.round,
            some (token, (x.node.settleRequest token (.confirmed record)).1), brought⟩ = x.done? := by
        rw [hopen]
        simp [done?, hfin]
      split at h
      · simp only [Option.ite_none_right_eq_some, Option.some.injEq] at h
        obtain ⟨-, rfl⟩ := h
        exact hx.request hstore rfl (hfail _) (.inr hopen)
      · cases h
        exact hx.request hstore rfl (hfail _) (.inl rfl)
  · cases h

theorem Sound.act {a : Worker.Act} (hx : x.Sound b own subject)
    (h : x.step b own subject (.act a) = some x') : x'.Sound b own subject := by
  obtain ⟨w, hact, rfl⟩ := Option.map_eq_some_iff.1 h
  obtain ⟨hw, ha, hu, ht⟩ := hx
  refine ⟨hw.act hact, ha.act hw rfl hact, fun hnone => ?_, fun ho hb hs => ?_⟩
  · intro id e' hx' hsub
    obtain ⟨e, hx, hs, ho⟩ := Worker.origin_of_act hw hact hx'
    exact ho.symm.trans (hu hnone id e hx (hs.trans hsub))
  · refine (ht ho hb hs).mono fun id e hx hsub => ?_
    exact ha.stays hw hact hx hsub

/-- **Each event**, whoever it comes from. -/
theorem Sound.step {ev : Event} (hx : x.Sound b own subject)
    (h : x.step b own subject ev = some x') : x'.Sound b own subject := by
  cases ev with
  | arrive c =>
    simp only [Errand.step, Option.ite_none_right_eq_some, Option.some.injEq] at h
    obtain ⟨hc, rfl⟩ := h
    exact hx.arrive hc
  | ask => exact hx.ask h
  | sign =>
    obtain ⟨⟨token, r⟩, hr, rfl⟩ := Option.map_eq_some_iff.1 h
    exact hx.answered hr fun out => Request.sign_eq_finished_iff
  | reply =>
    obtain ⟨⟨token, r⟩, hr, rfl⟩ := Option.map_eq_some_iff.1 h
    exact hx.answered hr fun out => Request.reply_eq_finished_iff
  | judge =>
    obtain ⟨⟨token, r⟩, hr, rfl⟩ := Option.map_eq_some_iff.1 h
    exact hx.answered hr fun out => Request.judge_eq_finished_iff
  | settle => exact hx.settle h
  | act => exact hx.act h

theorem sound_of_reachable (h : (errand b own subject).Reachable x) : x.Sound b own subject := by
  refine h.invariant ?_ fun x ev x' hx hstep => hx.step hstep
  intro x hi
  obtain ⟨n, r, q, c⟩ := x
  obtain ⟨hs, hp, hn, rfl, rfl⟩ := hi
  refine ⟨.atRest hs hp, .of_not_holds hn, fun _ id e hx hsub => ?_, fun ho => by cases ho⟩
  exact absurd ⟨id, e, hx, hsub⟩ hn

/-- **What a request comes to.** Once a request has succeeded with the peer's certificate and the
pipeline has emptied the queue, the request was told of the peer's entry, and that entry is verified.
It has a security context, agreed on with the peer's key, unless a copy had arrived and been verified
before the request's own was added, and then it has none. -/
theorem isSome_context_of_request {token : LockToken} {out : AddOutcome} {c : Certificate}
    {result : RoundResult} (h : (errand b own subject).Reachable x)
    (hdone : x.request = some (token, .finished (.ok out))) (hc : x.brought = some c)
    (hsub : c.subject = subject) (hnil : x.node.store.pending = [])
    (hrest : x.round = .finished result) :
    x.node.store.find? subject = some out.id ∧ ∃ e, x.node.store.get? out.id = some e ∧
      e.state = .verified ∧ (e.context.isSome ↔ ∀ id, out ≠ .alreadyVerified id) ∧
      (e.context.isSome → e.Agreed b own) := by
  obtain ⟨hw, ha, -, ht⟩ := sound_of_reachable h
  have hs := hw.consistent
  rw [hrest] at ha
  have htold := ht (done?_eq_some_iff.2 ⟨token, hdone⟩) hc hsub
  have main {id : EntryId} {e : Entry} (hx : x.node.store.get? id = some e)
      (he : e.subject = subject) : x.node.store.find? subject = some id ∧ e.state = .verified ∧
        (e.context.isSome ↔ e.origin = .requested) ∧ (e.context.isSome → e.Agreed b own) := by
    have hv : e.state = .verified := by
      cases hst : e.state with
      | verified => rfl
      | pending =>
        have hm := (hs.mem_pending_iff id).2 ⟨e, hx, hst⟩
        have hnil' : x.worker.store.pending = [] := hnil
        rw [hnil'] at hm
        cases hm
    exact ⟨hs.find?_eq_some_iff.2 ⟨e, hx, hv, he⟩, hv, ha.isSome_context_iff hx he hv⟩
  cases out with
  | alreadyVerified id =>
    obtain ⟨e, hx, he, -, ho⟩ := htold
    obtain ⟨hfind, hv, hiff, hag⟩ := main hx he
    exact ⟨hfind, e, hx, hv, by simp [hiff, ho], hag⟩
  | alreadyPending id =>
    obtain ⟨e, hx, he, ho⟩ := htold
    obtain ⟨hfind, hv, hiff, hag⟩ := main hx he
    exact ⟨hfind, e, hx, hv, by simp [hiff, ho], hag⟩
  | enqueued id =>
    obtain ⟨e, hx, he, ho⟩ := htold
    obtain ⟨hfind, hv, hiff, hag⟩ := main hx he
    exact ⟨hfind, e, hx, hv, by simp [hiff, ho], hag⟩

/-- The request is on its way when the certificate of the peer arrives by itself and is verified. The
answer comes last. -/
def overtaken : List Event :=
  [.ask 0 ⟨Vector.ofFn fun i => if i.val = 8 then 3 else 1⟩, .sign (.ok ⟨Vector.replicate 64 0⟩),
    .arrive (.uniform 1), .act .start, .act .advance, .act .advance, .act .advance, .act .serve,
    .act .advance, .act .advance,
    .reply (.ok ⟨.content, (Certificate.uniform 1).toBytes ++ List.replicate 64 1⟩),
    .judge (.ok ()), .settle]

/-- A new node, with room for two certificates. -/
def fresh : Errand :=
  ⟨.new (.empty 2 ⟨Vector.replicate 16 0⟩ ⟨Vector.replicate 64 0⟩) 1000, .finished .nothing, none, none⟩

theorem initial_fresh (b : Backend) (own subject : Eui64) : (errand b own subject).initial fresh := by
  refine ⟨.empty (by decide) _ _, Store.pinnedBy_empty _ _ _, fun hh => ?_, rfl, rfl⟩
  obtain ⟨id, e, hx, -⟩ := hh
  have hnone : fresh.node.store.get? id = none := Store.get?_empty _ _ _ id
  rw [hnone] at hx
  cases hx

set_option maxRecDepth 4000 in
/-- **Without a context**, although it was asked for and everything has gone well. -/
theorem no_context_after_overtaken : ∃ x token e,
    (errand .ones ⟨Vector.replicate 8 0⟩ (Certificate.uniform 1).subject).run fresh overtaken =
      some x ∧
    x.request = some (token, .finished (.ok (.alreadyVerified ⟨0, 0⟩))) ∧
    x.node.store.pending = [] ∧ x.node.store.get? ⟨0, 0⟩ = some e ∧ e.state = .verified ∧
    e.context = none := by
  have hrun : ∃ x result,
      (errand .ones ⟨Vector.replicate 8 0⟩ (Certificate.uniform 1).subject).run fresh overtaken =
        some x ∧
      x.round = .finished result ∧
      x.request = some (⟨0⟩, .finished (.ok (.alreadyVerified ⟨0, 0⟩))) ∧
      x.brought = some (.uniform 1) ∧ x.node.store.pending = [] :=
    ⟨_, _, rfl, rfl, rfl, rfl, rfl⟩
  obtain ⟨x, result, hx, hrest, hdone, hc, hnil⟩ := hrun
  obtain ⟨-, e, he, hv, hiff, -⟩ := isSome_context_of_request
    ⟨fresh, overtaken, initial_fresh _ _ _, hx⟩ hdone hc rfl hnil hrest
  refine ⟨x, _, e, hx, hdone, hnil, he, hv, ?_⟩
  cases hctx : e.context with
  | none => rfl
  | some k =>
    rw [hctx] at hiff
    exact absurd rfl (hiff.1 rfl ⟨0, 0⟩)

end Errand
end Vouch
