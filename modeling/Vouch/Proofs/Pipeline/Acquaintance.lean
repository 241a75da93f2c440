import Vouch.Proofs.Pipeline.Drain
/-!
# Two nodes get to know each other

The root certifies each of two nodes, each is handed the certificate of the other, and each works its
queue off. The two sides run apart: they share the root, and the secret that key agreement gives both
of them. `Party` is one side, with all it contributes; the same lemma is applied to either.

* `Party.Open.add`: the certificate of a stranger is the only one that waits.
* `Party.Open.drain`: two rounds later the stranger has a verified entry, with the context derived from
  the agreed secret.
* `matching_contexts`: the contexts of the two sides are each other's, seen from the other end.
-/
namespace Vouch

section single

variable {b : Backend} {p : VerificationPolicy} {s s' : Store} {id : EntryId} {e : Entry}
  {subject : Eui64}

/-- An only entry is worked off in one round, and a second one finds the queue empty. -/
theorem drain_of_single (hs : s.Current) (hq : s.pending = [id]) (hx : s.get? id = some e)
    (hp : e.pins ≠ Store.maxPins) (hfree : ¬ s.Blocks b id) :
    ∃ s', Settled b p s [id] s' ∧ ∀ limit, 2 ≤ limit →
      ∃ ns, drain b p limit s = ([e.outcome b p s.rootKey id], true, s', ns) := by
  have hroomy : s.Roomy := by
    intro j hj e' he'
    rw [hq, List.mem_singleton] at hj
    rw [hj, hx, Option.some.injEq] at he'
    exact he' ▸ hp
  obtain ⟨s', hset, hdrain⟩ := drain_append (b := b) (p := p) hs hroomy
    (show s.pending = [id] ++ [] from hq) fun j hj => List.mem_singleton.1 hj ▸ hfree
  have hempty : s'.pending = [] := by
    have hpend := hset.pending
    rw [hq] at hpend
    exact (List.cons.inj hpend).2.symm
  have hresults : s.results b p [id] = [e.outcome b p s.rootKey id] := by
    rw [Store.results, List.filterMap_cons, hx, List.filterMap_nil]
    rfl
  -- The second round is what says that there is nothing left.
  refine ⟨s', hset, fun limit hlimit => ?_⟩
  obtain ⟨n, rfl⟩ : ∃ n, limit = [id].length + (n + 1) :=
    ⟨limit - 2, by rw [List.length_singleton]; omega⟩
  obtain ⟨ns, hrun⟩ := hdrain (n + 1)
  obtain ⟨ns', hend⟩ := drain_of_empty (b := b) (p := p) hempty n
  exact ⟨ns, by rw [hrun, hend, hresults, List.append_nil]⟩

/-- An accepted entry is found by its subject, if no verified one was before. -/
theorem Settled.find?_of_accepts (h : Settled b p s [id] s') (haccept : s.accepts b id = true)
    (hx : s'.get? id = some e) (hs : e.subject = subject)
    (hold : ∀ j ∈ s.verified, j ≠ id ∧ s.names subject j = false) : s'.find? subject = some id := by
  have hverified : s'.verified = s.verified ++ [id] := by
    rw [h.verified, List.filter_cons, if_pos haccept, List.filter_nil]
  have hnone : s.verified.find? (s'.names subject) = none := by
    refine List.find?_eq_none.2 fun j hj hn => ?_
    obtain ⟨hne, hother⟩ := hold j hj
    rw [Store.names, h.get?_of_notMem (by simpa using hne), ← Store.names, hother] at hn
    cases hn
  have hnames : s'.names subject id = true := Store.names_iff.2 ⟨e, hx, hs⟩
  rw [Store.find?, hverified, List.find?_append, hnone, Option.none_or, List.find?_cons, hnames]

end single

/-- A node as far as it matters to a peer: its engine, with its key, its identity and policy, and what it
stores. -/
structure Party where
  backend : Backend
  policy : VerificationPolicy
  store : Store

namespace Party

/-- What the root certifies of a node. -/
def certificate (a : Party) (root : RootAuthority) (tags : Tags) : Certificate :=
  root.issue a.policy.self a.backend.publicKey tags

/-- The node is handed a certificate and works off its queue, in at most `limit` rounds. -/
def meet (a : Party) (c : Certificate) (o : Origin) (limit : Nat) :
    List RoundResult × Bool × Store × List Notice :=
  drain a.backend a.policy limit (a.store.add c o).2

/-- The node trusts the root, has room for one more entry, has nothing to verify, and has never heard of
the subject. -/
structure Open (a : Party) (root : RootAuthority) (subject : Eui64) : Prop where
  attainable : a.store.Attainable
  rootKey : a.store.rootKey = root.publicKey
  room : a.store.size < a.store.capacity
  idle : a.store.pending = []
  stranger : ¬ a.store.Holds subject

/-- The store has a verified entry for the subject of a certificate, with this certificate, secret and
context. -/
def Knows (s : Store) (c : Certificate) (k : SharedSecret) (x : SecurityContext) : Prop :=
  ∃ id e, s.find? c.subject = some id ∧ s.get? id = some e ∧ e.certificate = c ∧
    e.state = .verified ∧ e.secret = some k ∧ e.context = some x

variable {a b : Party} {root : RootAuthority} {c : Certificate} {o : Origin} {k : SharedSecret}

/-- The certificate of a stranger takes a slot, whose id has not been given out before, and is alone in
the queue. -/
theorem Open.add (h : a.Open root c.subject) (o : Origin) :
    ∃ id s, a.store.add c o = (.ok (.enqueued id), s) ∧ s.Current ∧ s.rootKey = root.publicKey ∧
      s.pending = [id] ∧ s.get? id = some (.fresh c o) ∧
      ∀ j ∈ s.verified, j ≠ id ∧ s.names c.subject j = false := by
  have hvacant := Store.FreeVacant.of_attainable h.attainable
  have hspent := Store.Spent.of_attainable h.attainable
  obtain ⟨i, free, hf⟩ := List.exists_cons_of_ne_nil (Store.free_ne_nil h.room)
  obtain ⟨g, hslot⟩ := hvacant.vacant i (hf ▸ List.mem_cons_self)
  have hg := Store.generation?_of_slot hslot
  have hx : a.store.Vacant i := ⟨g, hslot⟩
  have hadd := Store.add_of_free (o := o) (Store.find?_of_not_holds h.stranger)
    (Store.findPending?_of_not_holds h.stranger) hf hg
  have hcurrent : (a.store.fill ⟨i, g⟩ free c o).Current :=
    (Store.Current.of_attainable h.attainable).fill hspent hg hx
  refine ⟨⟨i, g⟩, _, hadd, hcurrent, h.rootKey, ?_, ?_, fun j hj => ?_⟩
  · show a.store.pending ++ [(⟨i, g⟩ : EntryId)] = [⟨i, g⟩]
    rw [h.idle, List.nil_append]
  · rw [Store.get?_fill hx, if_pos rfl]
  · -- An id that is about to be given out is not on the verified list.
    have hne : j ≠ ⟨i, g⟩ := by
      rintro rfl
      exact hspent _ hj hx hg
    refine ⟨hne, Bool.eq_false_iff.2 fun hn => h.stranger ?_⟩
    obtain ⟨e, he, hs⟩ := Store.names_iff.1 hn
    rw [Store.get?_fill hx, if_neg hne] at he
    exact ⟨j, e, he, hs⟩

/-- **One side.** A certificate that the backend accepts and that leads to a key exchange has its subject
known two rounds later, if the backend can agree on a secret with the certified key. -/
theorem Open.meet (h : a.Open root c.subject)
    (hsig : a.backend.verify c.signedPart c.signature root.publicKey = .ok ())
    (hdue : o = .requested ∨ a.policy.exchangeUnsolicited)
    (hk : a.backend.agree c.publicKey = .ok k) :
    ∃ id s, (a.store.add c o).1 = .ok (.enqueued id) ∧
      (∀ limit, 2 ≤ limit →
        ∃ ns, a.meet c o limit = ([.verified id c.subject true], true, s, ns)) ∧
      Knows s c k (.derive k a.policy.self c.subject) := by
  obtain ⟨id, s, hadd, hs, hroot, hpend, hx, hold⟩ := h.add o
  have hverdict : (Entry.fresh c o).verdict a.backend s.rootKey = .ok () := by rw [hroot]; exact hsig
  have hagreed : (Entry.fresh c o).agreed? a.backend a.policy = some k := by
    simp only [Entry.agreed?, Entry.fresh, if_pos hdue, hk]
    rfl
  have haccept : s.accepts a.backend id = true := by
    rw [Store.accepts_of_get? hx, hverdict]
    rfl
  obtain ⟨s', hset, hdrain⟩ := drain_of_single (p := a.policy) hs hpend hx
    (by decide : (0 : UInt32) ≠ Store.maxPins) fun hb =>
      Bool.false_ne_true (hb.2.symm.trans haccept)
  have houtcome : (Entry.fresh c o).outcome a.backend a.policy s.rootKey id =
      .verified id c.subject true := by
    rw [Entry.outcome, hverdict, hagreed]
    rfl
  have hsettled : (Entry.fresh c o).settled a.backend a.policy =
      (Entry.fresh c o).accept.attach k (.derive k a.policy.self c.subject) := by
    rw [Entry.settled, hagreed]
    rfl
  have hx' : s'.get? id = some ((Entry.fresh c o).settled a.backend a.policy) := by
    rw [hset.get?, if_pos List.mem_cons_self, hx, Option.bind_some, Entry.after?, hverdict]
  rw [hsettled] at hx'
  rw [houtcome] at hdrain
  refine ⟨id, s', by rw [hadd], fun limit hlimit => ?_,
    id, _, hset.find?_of_accepts haccept hx' rfl hold, hx', rfl, rfl, rfl, rfl⟩
  rw [Party.meet, hadd]
  exact hdrain limit hlimit

/-- **Peers that hold each other's certificate have matching contexts.** Let the root certify two nodes,
whatever their identities, their keys and the tags, and let the stores of both be open to the other. When
each adds the certificate of the other and works its queue off, each has a verified entry for the other
with a context, derived from one secret, and the two contexts are each other's with sender and recipient
exchanged. -/
theorem matching_contexts (tagsA tagsB : Tags) (originA originB : Origin)
    (ha : a.Open root b.policy.self) (hb : b.Open root a.policy.self)
    (hsigA : a.backend.verify (b.certificate root tagsB).signedPart
      (b.certificate root tagsB).signature root.publicKey = .ok ())
    (hsigB : b.backend.verify (a.certificate root tagsA).signedPart
      (a.certificate root tagsA).signature root.publicKey = .ok ())
    (hdueA : originA = .requested ∨ a.policy.exchangeUnsolicited)
    (hdueB : originB = .requested ∨ b.policy.exchangeUnsolicited)
    (hok : (a.backend.agree b.backend.publicKey).isOk)
    (hcomm : a.backend.agree b.backend.publicKey = b.backend.agree a.backend.publicKey) :
    ∃ k idA idB s t x y,
      (a.store.add (b.certificate root tagsB) originA).1 = .ok (.enqueued idA) ∧
      (b.store.add (a.certificate root tagsA) originB).1 = .ok (.enqueued idB) ∧
      (∀ limit, 2 ≤ limit → ∃ ns, a.meet (b.certificate root tagsB) originA limit =
        ([.verified idA b.policy.self true], true, s, ns)) ∧
      (∀ limit, 2 ≤ limit → ∃ ns, b.meet (a.certificate root tagsA) originB limit =
        ([.verified idB a.policy.self true], true, t, ns)) ∧
      Knows s (b.certificate root tagsB) k x ∧ Knows t (a.certificate root tagsA) k y ∧
      x = .derive k a.policy.self b.policy.self ∧ y = .derive k b.policy.self a.policy.self ∧
      y = x.swap ∧ x.senderId = SecurityContext.contextId a.policy.self ∧
      y.senderId = SecurityContext.contextId b.policy.self ∧
      x.senderId = y.recipientId ∧ x.senderKey = y.recipientKey ∧
      y.senderId = x.recipientId ∧ y.senderKey = x.recipientKey ∧ x.commonIv = y.commonIv := by
  cases hk : a.backend.agree b.backend.publicKey with
  | error reason => rw [hk] at hok; cases hok
  | ok k =>
    obtain ⟨idA, s, haddA, hrunA, hknowsA⟩ := Open.meet (c := b.certificate root tagsB) ha hsigA hdueA hk
    obtain ⟨idB, t, haddB, hrunB, hknowsB⟩ :=
      Open.meet (c := a.certificate root tagsA) hb hsigB hdueB (hcomm.symm.trans hk)
    have hswap := SecurityContext.derive_swap k a.policy.self b.policy.self
    exact ⟨k, idA, idB, s, t, _, _, haddA, haddB, hrunA, hrunB, hknowsA, hknowsB, rfl, rfl, hswap.symm,
      rfl, rfl, rfl, rfl, rfl, rfl, rfl⟩

/-- A node that has just been set up. Its engine computes with its own key, and takes for a signature of
the root what the root signs. -/
def newcomer (root : RootAuthority) (key : PrivateKey) (p : VerificationPolicy) : Party where
  backend := { Backend.ofKey key with
    verify := fun message sig signer =>
      if signer = root.publicKey ∧ sig = root.key.sign message then .ok ()
      else .error .verificationFailed }
  policy := p
  store := .empty 1 ⟨Vector.replicate 16 0⟩ root.publicKey

theorem newcomer_open (root : RootAuthority) (key : PrivateKey) (p : VerificationPolicy)
    (subject : Eui64) : (newcomer root key p).Open root subject where
  attainable := .inl ⟨_, [], ⟨1, _, _, rfl⟩, rfl⟩
  rootKey := rfl
  room := Nat.zero_lt_one
  idle := rfl
  stranger := fun ⟨id, e, hx, _⟩ => by
    rw [newcomer, Store.get?_empty] at hx
    cases hx

theorem newcomer_accepts (root : RootAuthority) (key : PrivateKey) (p : VerificationPolicy) (b : Party)
    (tags : Tags) : (newcomer root key p).backend.verify (b.certificate root tags).signedPart
      (b.certificate root tags).signature root.publicKey = .ok () := if_pos ⟨rfl, rfl⟩

/-- A root and two nodes with keys of their own, of which one exchanges keys with whoever turns up. -/
def elder : RootAuthority := ⟨⟨Vector.replicate 8 0⟩, 3, by decide, by decide⟩

def alder : Party := newcomer elder ⟨5, by decide, by decide⟩ ⟨⟨Vector.replicate 8 1⟩, false⟩

def birch : Party := newcomer elder ⟨7, by decide, by decide⟩ ⟨⟨Vector.replicate 8 2⟩, true⟩

theorem matching_contexts_of_newcomers : ∃ k s t x y,
    (∃ id ns, alder.meet (birch.certificate elder .edge) .requested 2 =
      ([.verified id birch.policy.self true], true, s, ns)) ∧
    (∃ id ns, birch.meet (alder.certificate elder .edge) .unsolicited 2 =
      ([.verified id alder.policy.self true], true, t, ns)) ∧
    Knows s (birch.certificate elder .edge) k x ∧ Knows t (alder.certificate elder .edge) k y ∧
    x = .derive k alder.policy.self birch.policy.self ∧ y = x.swap ∧
    x.senderKey = y.recipientKey ∧ y.senderKey = x.recipientKey := by
  obtain ⟨k, idA, idB, s, t, x, y, -, -, hrunA, hrunB, hknowsA, hknowsB, hx, -, hy, -, -, -, hab, -,
    hba, -⟩ :=
    matching_contexts .edge .edge .requested .unsolicited
      (newcomer_open elder _ _ _ : alder.Open elder birch.policy.self)
      (newcomer_open elder _ _ _ : birch.Open elder alder.policy.self)
      (newcomer_accepts elder _ _ birch .edge) (newcomer_accepts elder _ _ alder .edge)
      (.inl rfl) (.inr rfl) (by decide +kernel) (by decide +kernel)
  exact ⟨k, s, t, x, y, ⟨idA, hrunA 2 (Nat.le_refl 2)⟩, ⟨idB, hrunB 2 (Nat.le_refl 2)⟩, hknowsA,
    hknowsB, hx, hy, hab, hba⟩

end Party
end Vouch
