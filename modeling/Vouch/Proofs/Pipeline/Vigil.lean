import Vouch.Proofs.Store.Current
import Vouch.Proofs.Pipeline.Custody
/-!
# The pipeline does not sleep over a certificate

A `Vigil` is a node whose pipeline works and sleeps among clients and exchanges. To add a certificate is
to put it into the queue and then to wake the pipeline, and anything may go on between the two; nor
does the pipeline fall asleep at the moment it finds the queue empty. One wake-up is kept as a permit.

The pipeline only stops looking when it has found the queue empty (`Round.Move.pending_eq_nil`): the
entry of a round is not taken from it, as it stays in the queue until the round itself promotes or
discards it (`Round.Queued`). Whatever is put into the queue after that comes with a wake-up, and only
waking uses a permit up (`Sound.alert`).

* `Round.Queued.effect`, `Round.Move.queued`: through what others do and through the steps of a round.
* `Sound.step`, `Sound.of_reachable`: each event, and any number of them.
-/
namespace Vouch

open Store (Op Effect)

/-! ## A round and the queue -/

/-- The entry of a round is in the queue, until the round is done with it. -/
def Round.Queued (s : Store) : Round → Prop
  | .found id => id ∈ s.pending
  | .pinned id => id ∈ s.pending
  | .checking id _ _ => id ∈ s.pending
  | .judged id _ _ => id ∈ s.pending
  | .released id _ _ => id ∈ s.pending
  | _ => True

section round

variable {p : VerificationPolicy} {s s' : Store} {op : Op} {r r' : Round}

/-- Nobody else takes it from there. -/
theorem Round.Queued.effect (h : r.Queued s) (he : Effect s op s')
    (hop : ∀ i, op ≠ .promote i ∧ op ≠ .discard i) : r.Queued s' := by
  cases r with
  | found id | pinned id | checking id | judged id | released id => exact he.mem_pending (hop id) h
  | ready | promoted | exchanging | finished => trivial

theorem Round.Queued.judge (h : r.Queued s) (answer : Except CryptoError Unit) :
    (r.judge answer).Queued s := by
  cases r <;> exact h

theorem Round.Queued.agree (h : r.Queued s) (own : Eui64)
    (answer : Except CryptoError SharedSecret) : (r.agree own answer).Queued s := by
  cases r <;> exact h

/-- A round promotes and discards nothing else. -/
theorem Round.Queued.orderly (h : r.Queued s) (ha : r.Asks op) : s.Orderly op := by
  cases op with
  | promote id =>
    obtain ⟨c, rfl⟩ := ha
    exact h
  | discard id =>
    obtain ⟨c, reason, rfl⟩ := ha
    exact h
  | add | pin | unpin | remove | setContext => trivial

theorem Round.Move.queued (hm : Round.Move p s r r' s') (h : r.Queued s) : r'.Queued s' := by
  cases hm with
  | found hh => exact List.mem_of_head? hh
  | pin hx hp => exact (Effect.pin hx hp).mem_pending (by simp) h
  | unpin hx hp => exact (Effect.unpin hx hp).mem_pending (by simp) h
  | read | unpinGone => exact h
  | @exchange id subject x x' _ hm =>
    cases x' with
    | finished result => cases result <;> trivial
    | pinned | agreeing | derived | settled | stopped => trivial
  | idle | full | vanished | unread | overdrawn | reject | missed | accept | acceptOnly | pinAgain
  | fullAgain | gone => trivial

/-- **A round comes to nothing only when the queue is empty.** -/
theorem Round.Move.pending_eq_nil (hm : Round.Move p s r (.finished .nothing) s') (h : r.Queued s)
    (hs : s.Current) : s'.pending = [] := by
  have live {id : EntryId} (hq : id ∈ s.pending) : s.get? id ≠ none := by
    obtain ⟨e, hx, -⟩ := hs.pending id hq
    rw [hx]
    exact Option.some_ne_none e
  generalize hr : Round.finished .nothing = r' at hm
  cases hm with
  | idle hh => exact List.head?_eq_none_iff.1 hh
  | vanished hx | unread hx | missed hx => exact absurd hx (live h)
  | @exchange id subject x x' _ hm =>
    cases x' with
    | finished result => cases result <;> cases hr
    | pinned | agreeing | derived | settled | stopped => cases hr
  | found | pin | full | read | unpin | unpinGone | overdrawn | reject | accept | acceptOnly
  | pinAgain | fullAgain | gone => cases hr

end round

/-! ## The service -/

namespace Service

/-- The entry of the round that the pipeline is at is in the queue. -/
def Queued (s : Store) : Service → Prop
  | .working r => r.Queued s
  | _ => True

/-- The pipeline has found nothing to do, and sleeps or is about to. -/
def Idle : Service → Prop
  | .asleep => True
  | .working r => r = .finished .nothing
  | .stopped => False

/-- The pipeline is answered. -/
def answer (f : Round → Round) : Service → Service
  | .working r => .working (f r)
  | u => u

variable {s : Store} {u : Service} {f : Round → Round}

theorem Queued.answer (h : u.Queued s) (hf : ∀ r, r.Queued s → (f r).Queued s) :
    (u.answer f).Queued s := by
  cases u with
  | working r => exact hf r h
  | asleep | stopped => trivial

theorem Queued.effect {s' : Store} {op : Op} (h : u.Queued s) (he : Effect s op s')
    (hop : ∀ i, op ≠ .promote i ∧ op ≠ .discard i) : u.Queued s' := by
  cases u with
  | working r => exact Round.Queued.effect h he hop
  | asleep | stopped => trivial

theorem Idle.of_answer (h : (u.answer f).Idle)
    (hf : ∀ r, f r = .finished .nothing → r = .finished .nothing) : u.Idle := by
  cases u with
  | working r => exact hf r h
  | asleep | stopped => exact h

/-- The steps of a service: it wakes, gives up, stops or starts anew, over the same store, or it is a
step of its round. -/
theorem step_cases {p : VerificationPolicy} {u u' : Service} {permit permit' : Bool}
    {s s' : Store} {ns : List Notice} (h : u.step p permit s = some (u', permit', s', ns)) :
    (u = .asleep ∧ permit = true ∧ u' = .working .ready ∧ permit' = false ∧ s' = s) ∨
    (u = .working (.finished .nothing) ∧ u' = .asleep ∧ permit' = permit ∧ s' = s) ∨
    (u' = .stopped ∧ permit' = permit ∧ s' = s) ∨
    (u' = .working .ready ∧ permit' = permit ∧ s' = s) ∨
    ∃ r r', u = .working r ∧ u' = .working r' ∧ permit' = permit ∧ Round.Move p s r r' s' := by
  unfold step at h
  split at h
  · split at h
    · rename_i hp
      cases h
      exact .inl ⟨rfl, hp, rfl, rfl, rfl⟩
    · cases h
  · cases h
    exact .inr (.inl ⟨rfl, rfl, rfl, rfl⟩)
  · cases h
    exact .inr (.inr (.inl ⟨rfl, rfl, rfl⟩))
  · cases h
    exact .inr (.inr (.inr (.inl ⟨rfl, rfl, rfl⟩)))
  · split at h
    · rename_i hr
      cases h
      exact .inr (.inr (.inr (.inr ⟨_, _, rfl, rfl, rfl, Round.move_of_step hr⟩)))
    · cases h
  · cases h

end Service

/-! ## The vigil -/

/-- A node, its pipeline, and the number of calls that have put something into the queue and not woken
the pipeline yet. -/
structure Vigil where
  node : Node
  service : Service
  midway : Nat

namespace Vigil

def store (v : Vigil) : Store := v.node.store

inductive Event where
  /-- A certificate is added, without delay. -/
  | add (c : Certificate) (o : Origin)
  /-- A certificate is put into the queue; the call has yet to wake the pipeline. -/
  | enqueue (c : Certificate) (o : Origin)
  /-- Such a call goes on. -/
  | wake
  /-- Clients and exchanges take pins and give them back, remove certificates and attach contexts. -/
  | call (op : Op)
  /-- The pipeline takes a step. -/
  | advance
  | verdict (answer : Except CryptoError Unit)
  | secret (answer : Except CryptoError SharedSecret)

/-- What comes of an event. Only the pipeline promotes and discards, and nothing comes into the queue
but by the calls that wake it. -/
def step (p : VerificationPolicy) (v : Vigil) : Event → Option Vigil
  | .add c o => some { v with node := (v.node.add c o).2.1 }
  | .enqueue c o =>
    match v.store.add c o with
    | (.ok out, s) => some { v with
        node := { v.node with store := s }
        midway := v.midway + if out.wakes then 1 else 0 }
    | (.error _, s) => some { v with node := { v.node with store := s } }
  | .wake =>
    if v.midway = 0 then none
    else some { v with node := { v.node with permit := true }, midway := v.midway - 1 }
  | .call (.add _ _) | .call (.promote _) | .call (.discard _) => none
  | .call op => some { v with node := { v.node with store := v.store.perform op } }
  | .advance =>
    match v.service.step p v.node.permit v.store with
    | some (u, permit, s, _) => some { v with
        node := { v.node with store := s, permit := permit }
        service := u }
    | none => none
  | .verdict answer => some { v with service := v.service.answer (Round.judge answer) }
  | .secret answer => some { v with service := v.service.answer (Round.agree p.self answer) }

/-- Something will have the pipeline look at the queue, or there is nothing in it. -/
def Alert (v : Vigil) : Prop := v.node.permit = true ∨ 0 < v.midway ∨ v.store.pending = []

/-- What holds in every run. -/
structure Sound (v : Vigil) : Prop where
  tended : v.store.Tended
  covered : v.store.Covered
  queued : v.service.Queued v.store
  alert : v.service.Idle → v.Alert

variable {p : VerificationPolicy} {v v' : Vigil} {op : Op}

/-- Others change the store. What they put into the queue comes with a permit or a call midway. -/
theorem Sound.other (h : v.Sound) (he : Effect v.store op v'.store)
    (hop : ∀ i, op ≠ .promote i ∧ op ≠ .discard i) (hservice : v'.service = v.service)
    (halert : v.Alert → v'.Alert) : v'.Sound := by
  have ho : v.store.Orderly op := by
    cases op with
    | promote i => exact absurd rfl (hop i).1
    | discard i => exact absurd rfl (hop i).2
    | add | pin | unpin | remove | setContext => trivial
  refine ⟨h.tended.effect ho he, h.covered.effect he, ?_, fun hi => ?_⟩
  · rw [hservice]
    exact h.queued.effect he hop
  · rw [hservice] at hi
    exact halert (h.alert hi)

/-- A call that has put something into the queue is one that wakes the pipeline. -/
theorem wakes_of_add {s : Store} (hs : s.FreeVacant) (c : Certificate) (o : Origin) :
    (∃ out s', s.add c o = (.ok out, s') ∧ (out.wakes = true ∨ s'.pending = s.pending)) ∨
    ∃ e, s.add c o = (.error e, s) := by
  rcases Store.add_cases hs c o with ⟨id, -, hadd⟩ | ⟨id, -, -, hadd⟩ |
    ⟨id, free, -, -, -, -, -, hadd⟩ | hadd
  · exact .inl ⟨_, _, hadd, .inr rfl⟩
  · exact .inl ⟨_, _, hadd, .inl rfl⟩
  · exact .inl ⟨_, _, hadd, .inl rfl⟩
  · exact .inr ⟨_, hadd⟩

theorem Sound.add (h : v.Sound) {c : Certificate} {o : Origin}
    (hstep : v.step p (.add c o) = some v') : v'.Sound := by
  cases hstep
  have he := Store.add_effect h.tended.freeVacant c o
  rcases wakes_of_add h.tended.freeVacant c o with ⟨out, s, hadd, hout⟩ | ⟨e, hadd⟩
  · rw [hadd] at he
    simp only [Node.add, show v.node.store.add c o = _ from hadd]
    refine h.other he (by simp) rfl fun ha => ?_
    rcases hout with hw | hsame
    · exact .inl (by simp [hw])
    · exact ha.imp (fun hp => by simp [hp]) (Or.imp_right hsame.trans)
  · simp only [Node.add, show v.node.store.add c o = _ from hadd]
    exact h.other (.none (.unpin ⟨0, 0⟩)) (by simp) rfl id

theorem Sound.enqueue (h : v.Sound) {c : Certificate} {o : Origin}
    (hstep : v.step p (.enqueue c o) = some v') : v'.Sound := by
  have he := Store.add_effect h.tended.freeVacant c o
  simp only [step] at hstep
  rcases wakes_of_add h.tended.freeVacant c o with ⟨out, s, hadd, hout⟩ | ⟨e, hadd⟩
  · rw [hadd] at he hstep
    cases hstep
    refine h.other he (by simp) rfl fun ha => ?_
    rcases hout with hw | hsame
    · exact .inr (.inl (by simp [hw]))
    · refine ha.imp_right (Or.imp (fun hm => ?_) hsame.trans)
      exact Nat.lt_of_lt_of_le hm (Nat.le_add_right _ _)
  · rw [hadd] at hstep
    cases hstep
    exact h.other (.none (.unpin ⟨0, 0⟩)) (by simp) rfl id

theorem Sound.wake (h : v.Sound) (hstep : v.step p .wake = some v') : v'.Sound := by
  simp only [step] at hstep
  split at hstep
  · cases hstep
  · cases hstep
    exact ⟨h.tended, h.covered, h.queued, fun _ => .inl rfl⟩

theorem Sound.call (h : v.Sound) (hstep : v.step p (.call op) = some v') : v'.Sound := by
  have he := Store.perform_effect h.tended.freeVacant op
  have hop : v' = { v with node := { v.node with store := v.store.perform op } } ∧
      (∀ c o, op ≠ .add c o) ∧ ∀ i, op ≠ .promote i ∧ op ≠ .discard i := by
    cases op with
    | add | promote | discard => cases hstep
    | pin | unpin | remove | setContext =>
      cases hstep
      exact ⟨rfl, by simp, by simp⟩
  obtain ⟨rfl, hadd, hop⟩ := hop
  exact h.other he hop rfl fun ha => ha.imp_right (Or.imp_right (he.pending_eq_nil hadd))

/-- **A step of the pipeline.** It sleeps only when it has found the queue empty, and the permit that
wakes it is used up when it looks again. -/
theorem Sound.advance (h : v.Sound) (hstep : v.step p .advance = some v') : v'.Sound := by
  simp only [step] at hstep
  split at hstep
  · rename_i u permit s ns hu
    cases hstep
    obtain ⟨htended, hcovered, hqueued, halert⟩ := h
    rcases Service.step_cases hu with ⟨-, -, rfl, -, rfl⟩ | ⟨hold, rfl, rfl, rfl⟩ |
      ⟨rfl, -, rfl⟩ | ⟨rfl, -, rfl⟩ | ⟨r, r', hr, rfl, rfl, hm⟩
    · exact ⟨htended, hcovered, trivial, fun hi => by cases hi⟩
    · rw [hold] at halert
      exact ⟨htended, hcovered, trivial, fun _ => halert rfl⟩
    · exact ⟨htended, hcovered, trivial, fun hi => by cases hi⟩
    · exact ⟨htended, hcovered, trivial, fun hi => by cases hi⟩
    · rw [hr] at hqueued
      have hq : r.Queued v.store := hqueued
      obtain ⟨op, he, hask⟩ := hm.effect htended.freeVacant
      refine ⟨htended.effect (hq.orderly hask) he, hcovered.effect he, hm.queued hq,
        fun (hi : r' = .finished .nothing) => ?_⟩
      subst hi
      exact .inr (.inr (hm.pending_eq_nil hq htended.current))
  · cases hstep

/-- The pipeline is answered: the store stays, and a round that is not over is not over by that. -/
theorem Sound.answer (h : v.Sound) {f : Round → Round}
    (hq : ∀ r, r.Queued v.store → (f r).Queued v.store)
    (hf : ∀ r, f r = .finished .nothing → r = .finished .nothing) :
    Sound { v with service := v.service.answer f } :=
  ⟨h.tended, h.covered, h.queued.answer hq, fun hi => h.alert (hi.of_answer hf)⟩

/-- **Each event** leaves something to wake the pipeline, or nothing in the queue. -/
theorem Sound.step {ev : Event} (h : v.Sound) (hstep : v.step p ev = some v') : v'.Sound := by
  cases ev with
  | add => exact h.add hstep
  | enqueue => exact h.enqueue hstep
  | wake => exact h.wake hstep
  | call => exact h.call hstep
  | advance => exact h.advance hstep
  | verdict answer =>
    cases hstep
    exact h.answer (fun _ hq => hq.judge answer) fun _ => Round.judge_eq_finished.1
  | secret answer =>
    cases hstep
    exact h.answer (fun _ hq => hq.agree p.self answer) fun _ => Round.agree_eq_finished.1

end Vigil

/-- A new node, and its pipeline about to look at the queue for the first time. -/
def vigil (p : VerificationPolicy) : System Vigil Vigil.Event where
  initial v := ∃ capacity a k timeout,
    v = ⟨.new (.empty capacity a k) timeout, .working .ready, 0⟩
  step := Vigil.step p

/-- The same, with turns taken at the lock of the store: a call that adds has woken the pipeline before
anyone else gets it. -/
def watch (p : VerificationPolicy) : System Vigil Vigil.Event where
  initial := (vigil p).initial
  step v
    | .enqueue _ _ => none
    | ev => v.step p ev

namespace Vigil

variable {p : VerificationPolicy} {v v' : Vigil}

theorem Sound.initial (h : (vigil p).initial v) : v.Sound ∧ v.midway = 0 := by
  obtain ⟨capacity, a, k, timeout, rfl⟩ := h
  exact ⟨⟨Store.tended_empty capacity a k, .empty capacity a k, trivial, fun hi => by cases hi⟩, rfl⟩

theorem Sound.of_reachable (h : (vigil p).Reachable v) : v.Sound :=
  h.invariant (fun _ hv => (Sound.initial hv).1) fun _ _ _ hv hstep => hv.step hstep

/-- Where calls wake the pipeline in time none is ever midway. -/
theorem midway_of_step {ev : Event} (h : v.midway = 0) (hstep : (watch p).step v ev = some v') :
    v.step p ev = some v' ∧ v'.midway = 0 := by
  cases ev with
  | enqueue => cases hstep
  | add =>
    cases hstep
    exact ⟨rfl, h⟩
  | wake =>
    have hnone : v.step p .wake = none := by simp only [step, h, if_true]
    exact absurd (hnone.symm.trans hstep) (by simp)
  | call op =>
    refine ⟨hstep, ?_⟩
    cases op with
    | add | promote | discard => cases hstep
    | pin | unpin | remove | setContext => cases hstep; exact h
  | advance =>
    refine ⟨hstep, ?_⟩
    have hstep : v.step p .advance = some v' := hstep
    simp only [step] at hstep
    split at hstep
    · cases hstep
      exact h
    · cases hstep
  | verdict | secret =>
    cases hstep
    exact ⟨rfl, h⟩

theorem Sound.of_watch (h : (watch p).Reachable v) : v.Sound ∧ v.midway = 0 := by
  refine h.invariant (fun _ hv => Sound.initial (p := p) hv) fun v ev v' ⟨hv, h0⟩ hstep => ?_
  obtain ⟨hstep, h0'⟩ := midway_of_step h0 hstep
  exact ⟨hv.step hstep, h0'⟩

/-- A call midway is all that the pipeline needs to get up. -/
theorem run_wake (hs : v.service = .asleep) (hmid : 0 < v.midway) :
    ∃ v', (vigil p).run v [.wake, .advance] = some v' ∧ v'.service = .working .ready ∧
      v'.store = v.store := by
  obtain ⟨node, service, midway⟩ := v
  obtain rfl : service = .asleep := hs
  have hne : midway ≠ 0 := Nat.ne_of_gt hmid
  refine ⟨⟨{ node with permit := false }, .working .ready, midway - 1⟩, ?_, rfl, rfl⟩
  simp [System.run, vigil, step, Service.step, store, hne]

/-- **The pipeline does not sleep over a certificate.** If it sleeps and no wake-up is kept, the queue is
empty, and every certificate in the store has been promoted by it. That is so whatever clients, exchanges
and the backend do, as long as turns are taken at the lock. Where a call can be held up between putting a
certificate into the queue and waking the pipeline, the queue may hold something; but then there is such
a call, and when it goes on the pipeline gets up and looks. -/
theorem pending_of_asleep (hs : v.service = .asleep) (hp : v.node.permit = false) :
    ((watch p).Reachable v →
      v.store.pending = [] ∧ ∀ id e, v.store.get? id = some e → e.state = .verified) ∧
    ((vigil p).Reachable v → v.store.pending ≠ [] → 0 < v.midway ∧
      ∃ v', (vigil p).run v [.wake, .advance] = some v' ∧ v'.service = .working .ready ∧
        v'.store = v.store) := by
  have hidle : v.service.Idle := by
    rw [hs]
    trivial
  have cases (h : v.Sound) : 0 < v.midway ∨ v.store.pending = [] :=
    (h.alert hidle).resolve_left (by simp [hp])
  refine ⟨fun h => ?_, fun h hne => ?_⟩
  · obtain ⟨hv, h0⟩ := Sound.of_watch h
    have hnil : v.store.pending = [] := (cases hv).resolve_left (by simp [h0])
    refine ⟨hnil, fun id e hx => ?_⟩
    cases hst : e.state with
    | verified => rfl
    | pending =>
      have hm := hv.covered.pending hx hst
      rw [hnil] at hm
      exact absurd hm List.not_mem_nil
  · have hmid := (cases (Sound.of_reachable h)).resolve_right hne
    exact ⟨hmid, run_wake hs hmid⟩

/-- A certificate comes in after the pipeline has found the queue empty and before it sleeps. -/
def late : List Event :=
  [.advance, .add (.uniform 1) .unsolicited, .advance, .advance, .advance, .advance, .advance,
    .verdict (.ok ()), .advance, .advance, .advance, .advance, .advance]

theorem pending_after_late : ∃ v v' v'',
    (watch ⟨⟨Vector.replicate 8 0⟩, false⟩).run
      ⟨.new (.empty 2 ⟨Vector.replicate 16 0⟩ ⟨Vector.replicate 64 0⟩) 0, .working .ready, 0⟩ late =
        some v ∧
    v.service = .asleep ∧ v.node.permit = false ∧ v.store.verified = [⟨0, 0⟩] ∧
    v.store.pending = [] ∧
    (vigil ⟨⟨Vector.replicate 8 0⟩, false⟩).run v [.enqueue (.uniform 2) .requested] = some v' ∧
    v'.service = .asleep ∧ v'.node.permit = false ∧ v'.store.pending = [⟨1, 0⟩] ∧
    (vigil ⟨⟨Vector.replicate 8 0⟩, false⟩).run v' [.wake, .advance] = some v'' ∧
    v''.service = .working .ready := by
  have hrun : ∃ v v',
      (watch ⟨⟨Vector.replicate 8 0⟩, false⟩).run
        ⟨.new (.empty 2 ⟨Vector.replicate 16 0⟩ ⟨Vector.replicate 64 0⟩) 0, .working .ready, 0⟩ late =
          some v ∧
      (vigil ⟨⟨Vector.replicate 8 0⟩, false⟩).run
        ⟨.new (.empty 2 ⟨Vector.replicate 16 0⟩ ⟨Vector.replicate 64 0⟩) 0, .working .ready, 0⟩ late =
          some v ∧
      v.service = .asleep ∧ v.node.permit = false ∧ v.store.verified = [⟨0, 0⟩] ∧
      (vigil ⟨⟨Vector.replicate 8 0⟩, false⟩).run v [.enqueue (.uniform 2) .requested] = some v' ∧
      v'.service = .asleep ∧ v'.node.permit = false ∧ v'.store.pending = [⟨1, 0⟩] :=
    ⟨_, _, rfl, rfl, rfl, rfl, rfl, rfl, rfl, rfl, rfl⟩
  obtain ⟨v, v', hw, hv, hs, hp, hver, hv', hs', hp', hq⟩ := hrun
  obtain ⟨hempty, -⟩ := (pending_of_asleep hs hp).1 ⟨_, late, ⟨2, _, _, 0, rfl⟩, hw⟩
  have hreach : (vigil ⟨⟨Vector.replicate 8 0⟩, false⟩).Reachable v :=
    ⟨_, late, ⟨2, _, _, 0, rfl⟩, hv⟩
  obtain ⟨-, v'', hv'', hs'', -⟩ :=
    (pending_of_asleep hs' hp').2 (hreach.run hv') (by simp [hq])
  exact ⟨v, v', v'', hw, hs, hp, hver, hempty, hv', hs', hp', hq, hv'', hs''⟩

end Vigil
end Vouch
