import Vouch.Proofs.System
import Vouch.Proofs.Store.History
import Vouch.Proofs.Pipeline.Move
/-!
# Only what the root signed is ever verified

While the backend checks a signature the store is anyone's: entries come and go, and a slot can be
emptied and filled again before the verdict is in. `vetting` is the pipeline with clients that do
whatever they like to the store between its steps, except to promote.

What ties the verdict to the entry is the id. It was issued when the certificate was read, so no
later entry can have it (`Tracks`), as long as no slot goes through all of its generations.

* `Trusting.effect`, `Round.Honest.effect`: what an operation keeps, whoever asks for it.
* `Sound.step`: what an event keeps, the answers and the steps of the pipeline included.
* `verified_of_reachable`: every verified certificate was accepted by the backend under the root's
  key, and look-ups of keys answer with the root's key or with one that such a certificate names.
-/
namespace Vouch

/-- A signature that the backend was asked about, and what it said. -/
structure Check where
  message : Bytes
  sig : Signature
  key : PublicKey
  verdict : Except CryptoError Unit

/-- The signature that the backend is asked about by way of a job, with its answer. -/
def Job.check? (b : Backend) : Job → Option Check
  | .verify c key => some ⟨c.signedPart, c.signature, key, b.verify c.signedPart c.signature key⟩
  | .agree _ => none

/-- The store with its history, the pipeline, and every signature that it has had checked. -/
structure Vetting where
  history : History
  round : Round
  checks : List Check

namespace Vetting

open Store (Op Effect)

inductive Event where
  /-- Someone else changes the store. -/
  | client (op : Op)
  /-- The pipeline starts on the head of the queue. -/
  | start
  /-- The pipeline takes a step. -/
  | advance
  /-- The backend does the job that the pipeline waits for. It may answer anything, and differently
  every time. -/
  | serve (b : Backend)

/-- The backend has found the signature on a certificate to be made with the key. -/
def Accepted (v : Vetting) (key : PublicKey) (c : Certificate) : Prop :=
  ⟨c.signedPart, c.signature, key, .ok ()⟩ ∈ v.checks

def step (p : VerificationPolicy) (v : Vetting) : Event → Option Vetting
  | .client (.promote _) => none
  | .client op => some { v with history := v.history.next (v.history.store.perform op) }
  | .start =>
    match v.round with
    | .finished _ => some { v with round := .ready }
    | _ => none
  | .advance =>
    match v.round.step p v.history.store with
    | some (r, s, _) => some { v with history := v.history.next s, round := r }
    | none => none
  | .serve b =>
    match v.round.job? with
    | some job =>
      some { v with round := (v.round.serve b p).1, checks := (job.check? b).toList ++ v.checks }
    | none => none

/-- A pipeline at rest over an empty store. -/
def new (capacity : Nat) (a : Address) (key : PublicKey) : Vetting :=
  ⟨.new capacity a key, .finished .nothing, []⟩

end Vetting

/-- The pipeline among clients. -/
def vetting (p : VerificationPolicy) (capacity : Nat) (a : Address) (key : PublicKey) :
    System Vetting Vetting.Event where
  initial v := v = .new capacity a key
  step := Vetting.step p

open Store (Op Effect)

/-! ## What an id says -/

/-- The id has been issued, and the entry it names, if there still is one, is as described. -/
def History.Describes (h : History) (id : EntryId) (P : Entry → Prop) : Prop :=
  h.Issued id ∧ ∀ e, h.store.get? id = some e → P e

/-- The id has been issued for this certificate. -/
def History.Tracks (h : History) (id : EntryId) (c : Certificate) : Prop :=
  h.Describes id fun e => e.certificate = c

/-- A description that no operation spoils stays true: the id is not issued again. -/
theorem History.Describes.effect {h : History} {s' : Store} {op : Op} {id : EntryId}
    {P : Entry → Prop} (hd : h.Describes id P) (hc : h.Counted) (hb : h.Bounded)
    (he : Effect h.store op s') (hP : ∀ e e', Store.Stays op id e e' → P e → P e') :
    (h.next s').Describes id P := by
  refine ⟨hd.1.effect hc he, fun e' hx' => ?_⟩
  rcases he.get?_cases hx' with ⟨e, hx, hst⟩ | ⟨c, o, -, -, hv, hg⟩
  · exact hP e e' hst (hd.2 e hx)
  · exact absurd hd.1 (History.not_issued_of_vacant hc hb hg hv)

theorem History.Tracks.effect {h : History} {s' : Store} {op : Op} {id : EntryId}
    {c : Certificate} (ht : h.Tracks id c) (hc : h.Counted) (hb : h.Bounded)
    (he : Effect h.store op s') : (h.next s').Tracks id c :=
  History.Describes.effect ht hc hb he fun _ _ hst h => hst.certificate.trans h

/-! ## The store -/

/-- The store vouches for nothing but what was accepted. -/
structure Trusting (h : History) (Accepted : Certificate → Prop) : Prop where
  freeVacant : h.store.FreeVacant
  counted : h.Counted
  listed : ∀ id ∈ h.store.verified, h.Describes id fun e => e.state = .verified
  accepted : ∀ {id e}, h.store.get? id = some e → e.state = .verified → Accepted e.certificate

theorem Trusting.imp {h : History} {A B : Certificate → Prop} (ht : Trusting h A)
    (hAB : ∀ c, A c → B c) : Trusting h B :=
  ⟨ht.freeVacant, ht.counted, ht.listed, fun hx hv => hAB _ (ht.accepted hx hv)⟩

theorem trusting_new (capacity : Nat) (a : Address) (key : PublicKey) (A : Certificate → Prop) :
    Trusting (.new capacity a key) A where
  freeVacant := Store.freeVacant_empty capacity a key
  counted := History.counted_new capacity a key
  listed := fun id hm => absurd hm List.not_mem_nil
  accepted := fun {id e} hx => by
    have hn : (History.new capacity a key).store.get? id = none := Store.get?_empty capacity a key id
    rw [hn] at hx
    cases hx

/-- **Any operation** may befall the store, if what it promotes was accepted. -/
theorem Trusting.effect {h : History} {s' : Store} {op : Op} {A : Certificate → Prop}
    (ht : Trusting h A) (hb : h.Bounded) (he : Effect h.store op s')
    (hp : ∀ {id e}, op = .promote id → h.store.get? id = some e → A e.certificate) :
    Trusting (h.next s') A := by
  refine ⟨ht.freeVacant.effect he, ht.counted.effect he, fun id hm => ?_, fun {id e'} hx' hv => ?_⟩
  · rcases he.mem_verified hm with hm | ⟨rfl, e, hx⟩
    · exact (ht.listed id hm).effect ht.counted hb he fun _ _ hst hv => hst.verified hv
    · -- The one promoted just now.
      refine ⟨History.Issued.effect ht.counted he (.inr ⟨e, hx⟩), fun e' hx' => ?_⟩
      cases he with
      | none => exact ((ht.listed id hm).2 e' hx')
      | promote =>
        rw [History.store_next, Store.get?_promoted, if_pos rfl, hx, Option.map_some,
          Option.some.injEq] at hx'
        rw [← hx']
        rfl
  · rcases he.get?_cases hx' with ⟨e, hx, hst⟩ | ⟨c, o, -, rfl, -⟩
    · rw [hst.certificate]
      rcases hst.state with hs | ⟨hop, -⟩
      · exact ht.accepted hx (hs ▸ hv)
      · exact hp hop hx
    · cases hv

/-! ## The round -/

/-- What a round carries between its steps is true: the id it holds is that of the certificate it
has read, and a favourable verdict was given on that certificate. -/
def Round.Honest (h : History) (A : Certificate → Prop) : Round → Prop
  | .checking id c key => h.Tracks id c ∧ key = h.store.rootKey
  | .judged id c verdict => h.Tracks id c ∧ (verdict = .ok () → A c)
  | .released id c verdict => h.Tracks id c ∧ (verdict = .ok () → A c)
  | _ => True

theorem Round.Honest.effect {h : History} {s' : Store} {op : Op} {A : Certificate → Prop}
    {r : Round} (hr : r.Honest h A) (hc : h.Counted) (hb : h.Bounded) (he : Effect h.store op s') :
    r.Honest (h.next s') A := by
  cases r with
  | checking id c key => exact ⟨hr.1.effect hc hb he, hr.2.trans he.rootKey_eq.symm⟩
  | judged id c verdict => exact ⟨hr.1.effect hc hb he, hr.2⟩
  | released id c verdict => exact ⟨hr.1.effect hc hb he, hr.2⟩
  | ready | found | pinned | promoted | exchanging | finished => trivial

theorem Round.honest_ofExchange (h : History) (A : Certificate → Prop) (id : EntryId)
    (subject : Eui64) (x : Exchange) : (Round.ofExchange id subject x).Honest h A := by
  unfold Round.ofExchange
  split <;> trivial

/-- The certificate comes into the round's hands in one move, and is promoted in one. -/
theorem Round.Move.honest {p : VerificationPolicy} {h : History} {s' : Store} {r r' : Round}
    {A : Certificate → Prop} (hr : r.Honest h A) (hc : h.Counted) (hb : h.Bounded)
    (hf : h.store.FreeVacant) (hm : Move p h.store r r' s') : r'.Honest (h.next s') A := by
  obtain ⟨op, he, -⟩ := hm.effect hf
  cases hm with
  | idle | found | full | vanished | pin | unread | overdrawn | reject | missed | accept | acceptOnly
  | pinAgain | fullAgain | gone => trivial
  | @read id e hx =>
    have ht : h.Tracks id e.certificate :=
      ⟨.inr ⟨e, hx⟩, fun e' hx' => by rw [hx, Option.some.injEq] at hx'; rw [hx']⟩
    exact ⟨ht.effect hc hb he, rfl⟩
  | unpin | unpinGone => exact ⟨hr.1.effect hc hb he, hr.2⟩
  | exchange => exact Round.honest_ofExchange _ _ _ _ _

/-! ## The whole -/

namespace Vetting

/-- What holds at the address `a` of a root with the given key. -/
structure Sound (a : Address) (key : PublicKey) (v : Vetting) : Prop where
  rootAddress : v.history.store.rootAddress = a.normalise
  rootKey : v.history.store.rootKey = key
  trusting : Trusting v.history (v.Accepted key)
  honest : v.round.Honest v.history (v.Accepted key)

theorem sound_new (capacity : Nat) (a : Address) (key : PublicKey) :
    (new capacity a key).Sound a key :=
  ⟨rfl, rfl, trusting_new capacity a key _, trivial⟩

/-- Histories only grow, so a bound on where an event leads is a bound on where it came from. -/
theorem bounded_of_step {p : VerificationPolicy} {v v' : Vetting} {ev : Event}
    (h : v.step p ev = some v') (hb : v'.history.Bounded) : v.history.Bounded := by
  unfold step at h
  repeat' split at h
  all_goals first
    | (cases h; exact hb.of_next)
    | (cases h; exact hb)
    | cases h

/-- **Each event** keeps the pipeline and its store sound. -/
theorem Sound.step {p : VerificationPolicy} {a : Address} {key : PublicKey} {v v' : Vetting}
    {ev : Event} (hs : v.Sound a key) (hb : v.history.Bounded) (h : v.step p ev = some v') :
    v'.Sound a key := by
  obtain ⟨ha, hk, ht, hr⟩ := hs
  have hc := ht.counted
  cases ev with
  | client op =>
    have he := Store.perform_effect ht.freeVacant op
    have hnp : ∀ id, op ≠ .promote id := by rintro id rfl; cases h
    have hv' : v' = { v with history := v.history.next (v.history.store.perform op) } := by
      cases op <;> first | exact (Option.some.inj h).symm | cases h
    subst hv'
    exact ⟨he.rootAddress_eq.trans ha, he.rootKey_eq.trans hk,
      ht.effect hb he fun hop => absurd hop (hnp _), hr.effect hc hb he⟩
  | start =>
    simp only [Vetting.step] at h
    split at h
    · cases h
      exact ⟨ha, hk, ht, trivial⟩
    · cases h
  | advance =>
    simp only [Vetting.step] at h
    split at h
    · rename_i r s ns hstep
      cases h
      have hm := Round.move_of_step hstep
      obtain ⟨op, he, hask⟩ := hm.effect ht.freeVacant
      refine ⟨he.rootAddress_eq.trans ha, he.rootKey_eq.trans hk, ht.effect hb he ?_,
        hm.honest hr hc hb ht.freeVacant⟩
      -- What is promoted is the entry that the verdict was given on.
      intro id e hop hx
      subst hop
      obtain ⟨c, hrel⟩ := hask
      rw [hrel] at hr
      obtain ⟨⟨-, hcert⟩, hok⟩ := hr
      rw [hcert e hx]
      exact hok rfl
    · cases h
  | serve b =>
    simp only [Vetting.step] at h
    split at h
    · rename_i job hjob
      cases h
      refine ⟨ha, hk, ht.imp fun _ hm => List.mem_append_right _ hm,
        show (v.round.serve b p).1.Honest v.history _ from ?_⟩
      rcases Round.serve_cases hjob b p with
        ⟨id, c, key', hround, rfl, hserve⟩ | ⟨id, subject, i, peer, k, -, -, hserve⟩
      · rw [hround] at hr
        obtain ⟨htr, rfl⟩ := hr
        rw [hserve]
        refine ⟨htr, fun hok => List.mem_append_left _ (List.mem_singleton.2 ?_)⟩
        rw [hok, hk]
      · rw [hserve]
        trivial
    · cases h

theorem sound_of_reachable {p : VerificationPolicy} {capacity : Nat} {a : Address}
    {key : PublicKey} {v : Vetting} (h : (vetting p capacity a key).Reachable v)
    (hb : v.history.Bounded) : v.Sound a key := by
  refine h.invariant (P := fun v => v.history.Bounded → v.Sound a key) ?_ ?_ hb
  · rintro v rfl -
    exact sound_new capacity a key
  · intro v ev v' hs hstep hb'
    have hb := bounded_of_step hstep hb'
    exact (hs hb).step hb hstep

/-- **Authenticity.** However clients and the pipeline take turns, every verified entry holds a
certificate that the backend has accepted under the root's key. So a look-up of the key to check
messages with gives the root's key for the root's address in either form, and for any other address
none or that of such a certificate, of the device that the address names. -/
theorem verified_of_reachable {p : VerificationPolicy} {capacity : Nat} {a : Address}
    {key : PublicKey} {v : Vetting} (h : (vetting p capacity a key).Reachable v)
    (hb : v.history.Bounded) :
    (∀ id e, v.history.store.get? id = some e →
      (e.state = .verified ∨ id ∈ v.history.store.verified) → v.Accepted key e.certificate) ∧
    ∀ b : Address,
      (b.normalise = a.normalise → v.history.store.publicKey? b = some key) ∧
      (b.normalise ≠ a.normalise → ∀ k, v.history.store.publicKey? b = some k →
        ∃ id e, v.history.store.get? id = some e ∧ e.state = .verified ∧
          v.Accepted key e.certificate ∧ e.subject = b.eui64 ∧ k = e.certificate.publicKey) := by
  obtain ⟨ha, hk, ht, -⟩ := sound_of_reachable h hb
  have hverified : ∀ id e, v.history.store.get? id = some e →
      (e.state = .verified ∨ id ∈ v.history.store.verified) → v.Accepted key e.certificate := by
    intro id e hx hv
    rcases hv with hv | hm
    · exact ht.accepted hx hv
    · exact ht.accepted hx ((ht.listed id hm).2 e hx)
  refine ⟨hverified, fun b => ⟨fun hroot => ?_, fun hroot k hkey => ?_⟩⟩
  · rw [Store.publicKey?, ha, if_pos hroot, hk]
  · rw [Store.publicKey?, ha, if_neg hroot] at hkey
    obtain ⟨c, hcert, rfl⟩ := Option.map_eq_some_iff.1 hkey
    obtain ⟨id, hfind, hget⟩ := Option.bind_eq_some_iff.1 hcert
    obtain ⟨e, hx, rfl⟩ := Option.map_eq_some_iff.1 hget
    obtain ⟨hm, e', hx', hsub⟩ := Store.find?_some hfind
    rw [hx, Option.some.injEq] at hx'
    subst hx'
    exact ⟨id, e, hx, (ht.listed id hm).2 e hx, hverified id e hx (.inr hm),
      hsub.trans b.eui64_normalise, rfl⟩

/-! ## Short runs -/

theorem releases_le_of_step {p : VerificationPolicy} {v v' : Vetting} {ev : Event}
    (h : v.step p ev = some v') (i : UInt32) :
    v'.history.releases i ≤ v.history.releases i + 1 := by
  unfold step at h
  repeat' split at h
  all_goals first
    | (cases h; exact History.releases_next_le i)
    | (cases h; exact Nat.le_succ _)
    | cases h

/-- A run releases no slot more often than it has events. -/
theorem releases_le_of_run {p : VerificationPolicy} {capacity : Nat} {a : Address}
    {key : PublicKey} {v v' : Vetting} {es : List Event}
    (h : (vetting p capacity a key).run v es = some v') (i : UInt32) :
    v'.history.releases i ≤ v.history.releases i + es.length := by
  induction es generalizing v with
  | nil =>
    cases h
    exact Nat.le_refl _
  | cons ev es ih =>
    obtain ⟨w, hw, h⟩ := Option.bind_eq_some_iff.1 h
    have h1 := releases_le_of_step hw i
    have h2 := ih h
    rw [List.length_cons]
    omega

/-- A backend that finds every signature good. -/
def credulous : Backend where
  publicKey := ⟨Vector.replicate 64 0⟩
  sign := fun _ => .error .verificationFailed
  verify := fun _ _ _ => .ok ()
  agree := fun _ => .error .verificationFailed

/-- While the backend looks at one certificate, its entry is unpinned and discarded, and the slot goes
to another. The verdict on the first does not verify the second; its own does. -/
def swap : List Event :=
  [.client (.add (.uniform 1) .unsolicited), .start, .advance, .advance, .advance,
    .client (.unpin ⟨0, 0⟩), .client (.discard ⟨0, 0⟩),
    .client (.add (.uniform 2) .unsolicited), .serve credulous, .advance, .advance,
    .start, .advance, .advance, .advance, .serve credulous, .advance, .advance]

theorem verified_after_swap : ∃ v : Vetting,
    (vetting ⟨⟨Vector.replicate 8 0⟩, false⟩ 1 ⟨Vector.replicate 16 0⟩ ⟨Vector.replicate 64 0⟩).run
      (.new 1 ⟨Vector.replicate 16 0⟩ ⟨Vector.replicate 64 0⟩) swap = some v ∧
    v.history.Bounded ∧ v.history.store.verified = [⟨0, 1⟩] ∧
    v.Accepted ⟨Vector.replicate 64 0⟩ (.uniform 2) ∧
    v.history.store.publicKey? ⟨Vector.replicate 16 0⟩ = some ⟨Vector.replicate 64 0⟩ := by
  have hrun : ∃ v : Vetting,
      (vetting ⟨⟨Vector.replicate 8 0⟩, false⟩ 1 ⟨Vector.replicate 16 0⟩
        ⟨Vector.replicate 64 0⟩).run (.new 1 ⟨Vector.replicate 16 0⟩ ⟨Vector.replicate 64 0⟩) swap =
        some v ∧ v.history.store.verified = [⟨0, 1⟩] ∧
      v.history.store.get? ⟨0, 1⟩ = some (Entry.fresh (.uniform 2) .unsolicited).accept :=
    ⟨_, rfl, by decide⟩
  obtain ⟨v, hv, hlist, hx⟩ := hrun
  have hb : v.history.Bounded := fun i => by
    have h := releases_le_of_run hv i
    have h0 : (new 1 ⟨Vector.replicate 16 0⟩ ⟨Vector.replicate 64 0⟩).history.releases i = 0 := rfl
    have hl : swap.length < UInt32.size := by decide
    omega
  obtain ⟨hacc, hkey⟩ := verified_of_reachable ⟨_, swap, rfl, hv⟩ hb
  exact ⟨v, hv, hb, hlist, hacc _ _ hx (.inl rfl), (hkey _).1 rfl⟩

end Vetting
end Vouch
