import Vouch.Proofs.Pipeline.Custody
import Vouch.Proofs.Pipeline.Talk
/-!
# Exchanges side by side

A `Parley` is a store among a pipeline, any number of exchanges that calls have started, several of
them with the same peer perhaps, and clients that add and remove certificates and hold pins through
guards. All of them take turns as they like.

Each pin on an entry has its holder: a guard, an exchange or the pipeline (`Sound.balanced`). So no
exchange loses the pin it relies on, its entry stays until it is done, and what it attaches is what the
two parties have agreed on. The pipeline, between its two pins, has to do without one: the entry it
has promoted can be removed by then, but as no other is promoted meanwhile the slot does not come round
to the same id (`Store.Lost`).

* `Round.Sits.effect`, `Round.Move.sits`: the entry of the pipeline, through what others do and through
  its own steps.
* `Sound.step`, `Sound.of_reachable`: each event, and any number of them.
-/
namespace Vouch

open Store (Op Effect)

/-! ## The entry of the pipeline -/

namespace Store

/-- The slot was released after the entry was promoted, and nothing in it has been promoted since. -/
def Lost (s : Store) (id : EntryId) : Prop :=
  s.generation? id.index ≠ some id.generation ∧
    ∀ j e, j.index = id.index → s.get? j = some e → e.state = .pending

variable {s s' : Store} {op : Op} {id : EntryId} {e : Entry}

/-- A waiting entry is in nobody's way but the pipeline's. -/
theorem Current.kept_of_pending (hs : s.Current) (he : Effect s op s')
    (hop : ∀ i, op ≠ .promote i ∧ op ≠ .discard i) (hx : s.get? id = some e)
    (hw : e.state = .pending) : s'.Has id fun e => e.state = .pending := by
  rcases he.kept_or_vacated hx with ⟨e', hx', hst⟩ | ⟨-, -, hdiscard | ⟨subject, -, hfind⟩⟩
  · exact ⟨e', hx', hst.state.elim (fun hsame => hsame.trans hw) fun hp => absurd hp.1 (hop id).1⟩
  · exact absurd hdiscard (hop id).2
  · have hv := hs.verified id (find?_some hfind).1 e hx
    rw [hw] at hv
    cases hv

theorem lost_of_vacate (hx : s.get? id = some e) (hs : s'.slots = (s.vacate id).slots) :
    s'.Lost id := by
  refine ⟨?_, fun j e' hj hx' => ?_⟩
  · rw [generation?_of_vacate hs hx, if_pos rfl]
    exact fun hcon => History.succ_ne_self _ (Option.some.inj hcon)
  · rw [get?_of_vacant (hj ▸ (vacant_of_vacate hs hx _).2 (.inl rfl))] at hx'
    cases hx'

theorem Lost.effect {h : History} {s' : Store} (hl : h.store.Lost id) (hs : h.store.Current)
    (he : Effect h.store op s') (hop : ∀ i, op ≠ .promote i ∧ op ≠ .discard i) : s'.Lost id := by
  obtain ⟨hgen, hwait⟩ := hl
  refine ⟨?_, fun j e' hj hx' => ?_⟩
  · rcases History.generation?_effect he id.index with hsame | ⟨j, e, hj, hx, hgone, -⟩
    · exact hsame ▸ hgen
    · have hkept := hs.kept_of_pending he hop hx (hwait j e hj hx)
      exact absurd hgone hkept.ne_none
  · rcases he.get?_cases hx' with ⟨e, hx, hst⟩ | ⟨c, o, -, rfl, -⟩
    · have hw := hwait j e hj hx
      exact hst.state.elim (fun hsame => hsame.trans hw) fun hp => absurd hp.1 (hop j).1
    · rfl

end Store

/-- Where the entry of a round stands. The releases that are counted for its exchange are `since`. -/
def Round.Sits (b : Backend) (own : Eui64) (h : History) (since : Nat) : Round → Prop
  | .ready => True
  | .found id => h.store.Has id fun e => e.state = .pending
  | .pinned id => h.store.Has id fun e => e.state = .pending
  | .checking id _ _ => h.store.Has id fun e => e.state = .pending
  | .judged id _ _ => h.store.Has id fun e => e.state = .pending
  | .released id _ _ => h.store.Has id fun e => e.state = .pending
  | .promoted id _ => (h.store.Has id fun e => e.state = .verified) ∨ h.store.Lost id
  | .exchanging id _ x => Talk.Keeps b own h ⟨x, id, since⟩ ∧ x.holds? = some id
  | .finished (.verified id _ true) => Talk.Keeps b own h ⟨.finished (.ok ()), id, since⟩
  | .finished _ => True

/-- The releases counted for the exchange of a round, which begins with its second pin. -/
def Round.begun (h : History) (since : Nat) : Round → Nat
  | .promoted id _ => h.releases id.index
  | _ => since

section round

variable {b : Backend} {own : Eui64} {p : VerificationPolicy} {h : History} {s' : Store} {op : Op}
  {since : Nat} {r r' : Round}

/-- What others do does not disturb a round. -/
theorem Round.Sits.effect (hr : r.Sits b own h since) (hs : h.store.Current)
    (he : Effect h.store op s') (hf : op.Faithful b own h.store)
    (hop : ∀ i, op ≠ .promote i ∧ op ≠ .discard i)
    (hpin : ∀ id e, r.holds? = some id → h.store.get? id = some e → e.pins ≠ 0) :
    r.Sits b own (h.next s') since := by
  have waits {id : EntryId} (hw : h.store.Has id fun e => e.state = .pending) :
      s'.Has id fun e => e.state = .pending := by
    obtain ⟨e, hx, hst⟩ := hw
    exact hs.kept_of_pending he hop hx hst
  cases r with
  | ready => trivial
  | found | pinned | checking | judged | released => exact waits hr
  | promoted id subject =>
    rcases hr with ⟨e, hx, hv⟩ | hlost
    · rcases he.kept_or_vacated hx with ⟨e', hx', hst⟩ | ⟨hslots, -, -⟩
      · exact .inl ⟨e', hx', hst.verified hv⟩
      · exact .inr (Store.lost_of_vacate hx hslots)
    · exact .inr (hlost.effect hs he hop)
  | exchanging id subject x => exact ⟨hr.1.effect he hf hpin, hr.2⟩
  | finished result =>
    cases result with
    | verified id subject established =>
      cases established with
      | true => exact Talk.Keeps.effect hr he hf fun j _ hj => by cases hj
      | false => trivial
    | nothing | rejected | stopped => trivial

/-- What a step of a round asks of the store. -/
theorem Round.Move.effect_faithful (hm : Round.Move p h.store r r' s')
    (hr : r.Sits b own h since) (hs : h.store.FreeVacant) (hc : h.store.Covered) :
    ∃ op, Effect h.store op s' ∧ h.store.Orderly op ∧ op.Faithful b own h.store ∧
      ∀ i k c, op = .setContext i k c → ∃ subject, r = .exchanging i subject (.derived i k c) := by
  have queued {id : EntryId} (hw : h.store.Has id fun e => e.state = .pending) :
      id ∈ h.store.pending := by
    obtain ⟨e, hx, hst⟩ := hw
    exact hc.pending hx hst
  cases hm with
  | idle => exact ⟨.unpin ⟨0, 0⟩, .none _, trivial, trivial, by simp⟩
  | @found id | @full id | @vanished id | @read id | @unread id | @unpinGone id | @overdrawn id
  | @missed id | @fullAgain id | @gone id =>
    exact ⟨.unpin id, .none _, trivial, trivial, by simp⟩
  | pin hx hp | pinAgain hx hp => exact ⟨_, .pin hx hp, trivial, trivial, by simp⟩
  | unpin hx hp => exact ⟨_, .unpin hx hp, trivial, trivial, by simp⟩
  | @reject id c reason =>
    exact ⟨.discard id, Store.perform_effect hs _, queued hr, trivial, by simp⟩
  | accept hx | acceptOnly hx => exact ⟨_, .promote hx, queued hr, trivial, by simp⟩
  | @exchange id subject x x' _ hm =>
    obtain ⟨op, he, hf, hop, hset⟩ := hm.effect_faithful hr.1
    refine ⟨op, he, ?_, hf, fun i k c hcon => ?_⟩
    · cases op with
      | promote i => exact absurd rfl (hop i).1
      | discard i => exact absurd rfl (hop i).2
      | add | pin | unpin | remove | setContext => trivial
    · have hx := hset i k c hcon
      subst hx
      obtain rfl : i = id := Option.some.inj hr.2
      exact ⟨subject, rfl⟩

/-- **One step of a round** whose pin is there. -/
theorem Round.Move.sits (hm : Round.Move p h.store r r' s') (hs : h.store.Current)
    (hr : r.Sits b own h since)
    (hpin : ∀ id e, r.holds? = some id → h.store.get? id = some e → e.pins ≠ 0) :
    r'.Sits b own (h.next s') (r.begun h since) := by
  cases hm with
  | idle | full | vanished | unread | overdrawn | reject | missed | acceptOnly | fullAgain | gone =>
    trivial
  | found hh => exact hs.pending _ (List.mem_of_head? hh)
  | pin => exact Store.Has.update hr fun _ hw => hw
  | read | unpinGone => exact hr
  | unpin => exact Store.Has.update hr fun _ hw => hw
  | @accept id c e hx =>
    refine .inl ⟨e.accept, ?_, rfl⟩
    rw [History.store_next, Store.get?_promoted, if_pos rfl, hx]
    rfl
  | @pinAgain id subject e hx =>
    rcases hr with hv | hlost
    · have hstate : e.state = .verified := Store.Has.of_get? hv hx
      have hx' : (h.store.update id Entry.takePin).get? id = some e.takePin := by
        rw [Store.get?_update, if_pos rfl, hx]
        rfl
      have hk := Talk.Keeps.start b own (h := h.next (h.store.update id Entry.takePin))
        ⟨_, hx', hstate⟩
      rw [History.releases_of_kept hx hx'] at hk
      exact ⟨hk, rfl⟩
    · exact absurd (Store.generation?_of_get? hx) hlost.1
  | @exchange id subject x x' _ hm =>
    obtain ⟨hk, hh⟩ := hr
    obtain ⟨hk', hcases⟩ := hm.keeps hk hpin
    rcases ofExchange_cases subject (hcases.imp_left fun hsame => hsame.trans hh) with
      ⟨hh', heq⟩ | ⟨result, established, rfl, -⟩
    · rw [heq]
      exact ⟨hk', hh'⟩
    · cases result with
      | ok => exact hk'
      | error => trivial

end round

/-! ## All of them together -/

/-- A store with its history, and those who work on it: the pipeline, with the releases of the slot
that its exchange is about by the time it began, the exchanges that calls have started, and clients,
with the pins they hold. -/
structure Parley where
  history : History
  round : Round
  since : Nat
  talks : List Talk
  guards : List EntryId

/-- The secret, or a failure of the backend. -/
def Backend.answer (b : Backend) (key : PublicKey) :
    (failure : Option CryptoError) → Except CryptoError SharedSecret
  | none => b.agree key
  | some e => .error e

namespace Parley

def store (t : Parley) : Store := t.history.store

inductive Event where
  | add (c : Certificate) (o : Origin)
  | remove (subject : Eui64)
  /-- A client takes a pin. -/
  | hold (id : EntryId)
  /-- The guard of a pin is dropped. -/
  | drop (id : EntryId)
  /-- A secured message has come from a sender without a context; the node may be in any state. -/
  | missing (permit : Bool) (lock : TimedLock) (now : Nat) (a : Address)
  /-- The pipeline starts on the head of the queue. -/
  | start
  /-- The pipeline takes a step. -/
  | advance
  | verdict (answer : Except CryptoError Unit)
  /-- The backend answers about the secret that the pipeline waits for. -/
  | secret (failure : Option CryptoError)
  /-- An exchange takes a step. -/
  | talk (i : Nat)
  /-- The backend answers about the secret that an exchange waits for. -/
  | reply (i : Nat) (failure : Option CryptoError)

/-- What comes of an event. The pipeline takes steps of its own, is answered, or starts anew; so do the
exchanges; and the rest may happen at any time. -/
def step (b : Backend) (p : VerificationPolicy) (t : Parley) : Event → Option Parley
  | .add c o => some { t with history := t.history.next (t.store.add c o).2 }
  | .remove subject => some { t with history := t.history.next (t.store.remove subject).2 }
  | .hold id =>
    match t.store.pin id with
    | (.ok _, s) => some { t with history := t.history.next s, guards := id :: t.guards }
    | (.error _, s) => some { t with history := t.history.next s }
  | .drop id =>
    if id ∈ t.guards then
      some { t with
        history := t.history.next (t.store.dropGuard id).2
        guards := t.guards.erase id }
    else none
  | .missing permit lock now a =>
    match (Node.mk t.store permit lock).missingContext now a with
    | (.exchanging (.pinned id), n, _) => some { t with
        history := t.history.next n.store
        talks := t.talks ++ [⟨.pinned id, id, t.history.releases id.index⟩] }
    | (_, n, _) => some { t with history := t.history.next n.store }
  | .start =>
    match t.round with
    | .finished _ => some { t with round := .ready }
    | _ => none
  | .advance =>
    match t.round.step p t.store with
    | some (r, s, _) => some { t with
        history := t.history.next s
        round := r
        since := t.round.begun t.history t.since }
    | none => none
  | .verdict answer => some { t with round := t.round.judge answer }
  | .secret failure =>
    match t.round with
    | .exchanging _ _ (.agreeing _ _ key) =>
      some { t with round := t.round.agree p.self (b.answer key failure) }
    | _ => none
  | .talk i =>
    match t.talks[i]? with
    | some d =>
      match d.exchange.step t.store with
      | some (x, s) => some { t with
          history := t.history.next s
          talks := t.talks.set i { d with exchange := x } }
      | none => none
    | none => none
  | .reply i failure =>
    match t.talks[i]? with
    | some ⟨.agreeing j peer key, id, since⟩ => some { t with
        talks := t.talks.set i
          ⟨Exchange.answer p.self (b.answer key failure) (.agreeing j peer key), id, since⟩ }
    | _ => none

/-- The pins on an entry that are accounted for. -/
def holders (guards : List EntryId) (talks : List Talk) (r : Round) (id : EntryId) : Nat :=
  guards.count id + talks.countP (fun d => d.exchange.holds? = some id) +
    if r.holds? = some id then 1 else 0

/-- An exchange under way, whoever has started it. -/
def Underway (t : Parley) (d : Talk) : Prop :=
  d.exchange.holds? = some d.id ∧
    (d ∈ t.talks ∨ d.since = t.since ∧ ∃ subject, t.round = .exchanging d.id subject d.exchange)

/-- An exchange that has ended well, whoever has started it. -/
def Succeeded (t : Parley) (d : Talk) : Prop :=
  d.exchange = .finished (.ok ()) ∧
    (d ∈ t.talks ∨ d.since = t.since ∧ ∃ subject, t.round = .finished (.verified d.id subject true))

end Parley

/-- What holds of the store itself. -/
structure Store.Kept (b : Backend) (own : Eui64) (s : Store) : Prop where
  tended : s.Tended
  covered : s.Covered
  sealed : ∀ id e, s.get? id = some e → e.Sealed b own

theorem Store.Kept.effect {b : Backend} {own : Eui64} {s s' : Store} {op : Op} (h : s.Kept b own)
    (he : Effect s op s') (ho : s.Orderly op) (hf : op.Faithful b own s) : s'.Kept b own :=
  ⟨h.tended.effect ho he, h.covered.effect he, he.sealed hf h.sealed⟩

theorem Store.kept_empty (b : Backend) (own : Eui64) (capacity : Nat) (a : Address) (k : PublicKey) :
    (Store.empty capacity a k).Kept b own := by
  refine ⟨tended_empty capacity a k, .empty capacity a k, fun id e hx => ?_⟩
  rw [get?_empty] at hx
  cases hx

namespace Parley

/-- What holds in every run. -/
structure Sound (b : Backend) (p : VerificationPolicy) (t : Parley) : Prop where
  kept : t.store.Kept b p.self
  balanced : ∀ id, t.store.pinsOn id = holders t.guards t.talks t.round id
  talks : ∀ d ∈ t.talks, d.Keeps b p.self t.history
  sits : t.round.Sits b p.self t.history t.since

/-- A step that keeps everything sound and attaches nothing but what an exchange under way has
derived. -/
structure Fair (b : Backend) (p : VerificationPolicy) (t t' : Parley) : Prop where
  sound : t'.Sound b p
  write : ∃ op, Effect t.store op t'.store ∧
    ∀ i k c, op = .setContext i k c → ∃ since, t.Underway ⟨.derived i k c, i, since⟩

variable {b : Backend} {p : VerificationPolicy} {t t' : Parley} {s' : Store} {op : Op} {d : Talk}
  {i : Nat} {id : EntryId} {x : Exchange}

/-- Whoever holds a pin can rely on it. -/
theorem Sound.pinned (h : t.Sound b p) (hheld : 0 < holders t.guards t.talks t.round id) :
    t.store.Has id fun e => e.pins ≠ 0 :=
  Store.has_of_pinsOn (h.balanced id ▸ hheld)

theorem Sound.pinned_of_talk (h : t.Sound b p) (hd : d ∈ t.talks)
    (hh : d.exchange.holds? = some id) : t.store.Has id fun e => e.pins ≠ 0 := by
  have hcount : 0 < t.talks.countP fun d => d.exchange.holds? = some id :=
    List.countP_pos_iff.2 ⟨d, hd, decide_eq_true hh⟩
  refine h.pinned ?_
  unfold holders
  omega

theorem Sound.pinned_of_round (h : t.Sound b p) (hh : t.round.holds? = some id) :
    t.store.Has id fun e => e.pins ≠ 0 := by
  refine h.pinned ?_
  unfold holders
  rw [if_pos hh]
  omega

theorem Sound.pins_of_talk (h : t.Sound b p) (hd : d ∈ t.talks) :
    ∀ id e, d.exchange.holds? = some id → t.store.get? id = some e → e.pins ≠ 0 :=
  fun _ _ hh hx => (h.pinned_of_talk hd hh).of_get? hx

theorem Sound.pins_of_round (h : t.Sound b p) :
    ∀ id e, t.round.holds? = some id → t.store.get? id = some e → e.pins ≠ 0 :=
  fun _ _ hh hx => (h.pinned_of_round hh).of_get? hx

/-! ## What each event does -/

/-- Anyone but the pipeline changes the store; guards and exchanges may come, go and get further. -/
theorem Sound.other (h : t.Sound b p) (he : Effect t.store op s')
    (hf : op.Faithful b p.self t.store) (hop : ∀ i, op ≠ .promote i ∧ op ≠ .discard i)
    {guards : List EntryId} {talks : List Talk}
    (htalks : ∀ d ∈ talks, d ∈ t.talks ∨ d.Keeps b p.self (t.history.next s'))
    (hbal : ∀ id, s'.pinsOn id = holders guards talks t.round id) :
    Sound b p ⟨t.history.next s', t.round, t.since, talks, guards⟩ := by
  have ho : t.store.Orderly op := by
    cases op with
    | promote i => exact absurd rfl (hop i).1
    | discard i => exact absurd rfl (hop i).2
    | add | pin | unpin | remove | setContext => trivial
  refine ⟨h.kept.effect he ho hf, hbal, fun d hd => ?_,
    h.sits.effect h.kept.tended.current he hf hop h.pins_of_round⟩
  rcases htalks d hd with hd | hk
  · exact (h.talks d hd).effect he hf (h.pins_of_talk hd)
  · exact hk

/-- Someone asks for something else than a pin. -/
theorem Sound.ask (h : t.Sound b p) (he : Effect t.store op s')
    (hop : ∀ i, op ≠ .promote i ∧ op ≠ .discard i) (hpin : ∀ i, op ≠ .pin i ∧ op ≠ .unpin i)
    (hset : ∀ i k c, op ≠ .setContext i k c) :
    Fair b p t { t with history := t.history.next s' } := by
  have hf : op.Faithful b p.self t.store := by
    cases op with
    | setContext i k c => exact absurd rfl (hset i k c)
    | add | pin | unpin | remove | promote | discard => trivial
  refine ⟨h.other he hf hop (fun d hd => .inl hd) fun id => ?_, op, he, fun i k c hc => ?_⟩
  · rw [he.pinsOn hpin]
    exact h.balanced id
  · exact absurd hc (hset i k c)

/-- Nothing happens to the store. -/
theorem Sound.still (h : t'.Sound b p) (hs : t'.store = t.store) : Fair b p t t' :=
  ⟨h, .unpin ⟨0, 0⟩, hs ▸ .none _, by simp⟩

theorem Sound.idle (h : t.Sound b p) : Fair b p t { t with history := t.history.next t.store } :=
  h.ask (.none (.remove ⟨Vector.replicate 8 0⟩)) (by simp) (by simp) (by simp)

/-- A pin is taken, by a guard or for an exchange. -/
theorem Sound.take (h : t.Sound b p) {e : Entry} (hx : t.store.get? id = some e)
    (hp : e.pins ≠ Store.maxPins) {guards : List EntryId} {talks : List Talk}
    (htalks : ∀ d ∈ talks, d ∈ t.talks ∨
      d.Keeps b p.self (t.history.next (t.store.update id Entry.takePin)))
    (hone : ∀ j, holders guards talks t.round j =
      holders t.guards t.talks t.round j + if id = j then 1 else 0) :
    Fair b p t ⟨t.history.next (t.store.update id Entry.takePin), t.round, t.since, talks, guards⟩ := by
  refine ⟨h.other (.pin hx hp) trivial (by simp) htalks fun j => ?_, .pin id, .pin hx hp, by simp⟩
  rw [Store.pinsOn_takePin hx hp, hone, h.balanced]
  simp only [eq_comm (a := j) (b := id)]

theorem Sound.hold (h : t.Sound b p) (hstep : t.step b p (.hold id) = some t') : Fair b p t t' := by
  simp only [step] at hstep
  rcases t.store.pin_cases id with ⟨e, hx, hp, hpin⟩ | ⟨err, hpin⟩
  · rw [hpin] at hstep
    cases hstep
    refine h.take hx hp (fun d hd => .inl hd) fun j => ?_
    simp only [holders, List.count_cons, beq_iff_eq]
    omega
  · rw [hpin] at hstep
    cases hstep
    exact h.idle

theorem Sound.drop (h : t.Sound b p) (hstep : t.step b p (.drop id) = some t') : Fair b p t t' := by
  simp only [step] at hstep
  split at hstep
  · rename_i hid
    cases hstep
    have hcount : 0 < t.guards.count id := List.count_pos_iff.2 hid
    have hheld : 0 < holders t.guards t.talks t.round id := by
      unfold holders
      omega
    obtain ⟨e, hx, hp⟩ := h.pinned hheld
    rw [Store.dropGuard_of_pos hx hp]
    refine ⟨h.other (.unpin hx hp) trivial (by simp) (fun d hd => .inl hd) fun j => ?_, .unpin id,
      .unpin hx hp, by simp⟩
    have hgive := Store.pinsOn_givePin hx hp j
    have hbal := h.balanced j
    simp only [holders, List.count_erase, beq_iff_eq] at hbal ⊢
    by_cases hj : j = id
    · subst hj
      simp only [if_true] at hgive ⊢
      omega
    · rw [if_neg hj] at hgive
      rw [if_neg (Ne.symm hj)]
      omega
  · cases hstep

theorem Sound.missing (h : t.Sound b p) {permit : Bool} {lock : TimedLock} {now : Nat} {a : Address}
    (hstep : t.step b p (.missing permit lock now a) = some t') : Fair b p t t' := by
  simp only [step] at hstep
  rcases Node.missingContext_cases ⟨t.store, permit, lock⟩ now a with
    ⟨id, e, ns, hcall, hm, hx, hp⟩ | ⟨hne, hs⟩
  · rw [hcall] at hstep
    cases hstep
    have hx : t.store.get? id = some e := hx
    have hx' : (t.store.update id Entry.takePin).get? id = some e.takePin := by
      rw [Store.get?_update, if_pos rfl, hx]
      rfl
    have hv : e.state = .verified := h.kept.tended.current.verified id hm e hx
    have hk := Talk.Keeps.start b p.self
      (h := t.history.next (t.store.update id Entry.takePin)) ⟨_, hx', hv⟩
    rw [History.releases_of_kept hx hx'] at hk
    refine h.take hx hp (fun d hd => ?_) fun j => ?_
    · rcases List.mem_append.1 hd with hd | hd
      · exact .inl hd
      · rw [List.mem_singleton.1 hd]
        exact .inr hk
    · simp only [holders, List.countP_append, List.countP_singleton, Exchange.holds?,
        Option.some.injEq, decide_eq_true_eq]
      omega
  · have hsame : t' = { t with history := t.history.next t.store } := by
      split at hstep
      · rename_i hcall
        exact absurd (by rw [hcall]) (hne _)
      · rename_i hcall
        rw [hcall] at hs
        cases hstep
        exact congrArg (fun s => { t with history := t.history.next s }) hs
    exact hsame ▸ h.idle

/-- Another state of the round takes the place of one, over the same store. -/
theorem Sound.turn (h : t.Sound b p) {r : Round} (hh : r.holds? = t.round.holds?)
    (hr : r.Sits b p.self t.history t.since) : Fair b p t { t with round := r } := by
  refine Sound.still ⟨h.kept, fun id => ?_, h.talks, hr⟩ rfl
  rw [holders, hh]
  exact h.balanced id

theorem Sound.start (h : t.Sound b p) (hstep : t.step b p .start = some t') : Fair b p t t' := by
  simp only [step] at hstep
  split at hstep
  · rename_i result hround
    cases hstep
    exact h.turn (by rw [hround]; rfl) trivial
  · cases hstep

theorem Sound.verdict (h : t.Sound b p) {answer : Except CryptoError Unit}
    (hstep : t.step b p (.verdict answer) = some t') : Fair b p t t' := by
  simp only [step, Option.some.injEq] at hstep
  subst hstep
  have hr := h.sits
  refine h.turn ?_ ?_
  · cases t.round <;> rfl
  · cases hround : t.round with
    | checking | ready | found | pinned | judged | released | promoted | exchanging | finished =>
      rw [hround] at hr
      exact hr

/-- What the backend answers is the secret, if it is one. -/
theorem agree_of_answer {key : PublicKey} {failure : Option CryptoError} {k : SharedSecret}
    (h : b.answer key failure = .ok k) : b.agree key = .ok k := by
  cases failure with
  | none => exact h
  | some => cases h

theorem Sound.secret (h : t.Sound b p) {failure : Option CryptoError}
    (hstep : t.step b p (.secret failure) = some t') : Fair b p t t' := by
  simp only [step] at hstep
  split at hstep
  · rename_i id subject j peer key hround
    cases hstep
    have hr := h.sits
    rw [hround] at hr ⊢
    refine h.turn ?_ ⟨hr.1.answer fun k hk => agree_of_answer hk, ?_⟩
    · rw [hround]
      exact Exchange.holds?_answer p.self (b.answer key failure) (.agreeing j peer key)
    · exact (Exchange.holds?_answer p.self (b.answer key failure) (.agreeing j peer key)).trans hr.2
  · cases hstep

/-- **A step of the pipeline.** -/
theorem Sound.advance (h : t.Sound b p) (hstep : t.step b p .advance = some t') :
    Fair b p t t' := by
  simp only [step] at hstep
  split at hstep
  · rename_i r s ns hround
    cases hstep
    have hm := Round.move_of_step hround
    have hfree := h.kept.tended.freeVacant
    obtain ⟨op, he, ho, hf, hset⟩ := hm.effect_faithful h.sits hfree h.kept.covered
    refine ⟨⟨h.kept.effect he ho hf, fun id => ?_, fun d hd => ?_, ?_⟩, op, he, fun i k c hc => ?_⟩
    · have hpins := hm.pinsOn hfree (fun _ => h.pinned_of_round) id
      have hbal := h.balanced id
      show s.pinsOn id = holders t.guards t.talks r id
      simp only [holders] at hbal ⊢
      omega
    · exact (h.talks d hd).effect he hf (h.pins_of_talk hd)
    · exact hm.sits h.kept.tended.current h.sits h.pins_of_round
    · obtain ⟨subject, hr⟩ := hset i k c hc
      exact ⟨t.since, rfl, .inr ⟨rfl, subject, hr⟩⟩
  · cases hstep

/-- **A step of an exchange.** -/
theorem Sound.talk (h : t.Sound b p) (hstep : t.step b p (.talk i) = some t') :
    Fair b p t t' := by
  simp only [step] at hstep
  split at hstep
  · rename_i d hd
    split at hstep
    · rename_i x s hx
      cases hstep
      have hmem : d ∈ t.talks := List.mem_of_getElem? hd
      have hm := Exchange.move_of_step hx
      have hk := h.talks d hmem
      have hpin := h.pins_of_talk hmem
      obtain ⟨op, he, hf, hop, hset⟩ := hm.effect_faithful hk
      have hnew := (hm.keeps hk hpin).1
      refine ⟨h.other he hf hop (fun d' hd' => ?_) fun id => ?_, op, he, fun j k c hc => ?_⟩
      · rcases List.mem_or_eq_of_mem_set hd' with hd' | rfl
        · exact .inl hd'
        · exact .inr hnew
      · have hpins := hm.pinsOn (fun _ => h.pinned_of_talk hmem) id
        have hcount := countP_set (P := fun d : Talk => d.exchange.holds? = some id) hd
          { d with exchange := x }
        have hbal := h.balanced id
        simp only [holders] at hcount hbal ⊢
        omega
      · obtain ⟨y, i', since⟩ := d
        obtain rfl : y = .derived j k c := hset j k c hc
        obtain rfl : j = i' := (hk.holds j rfl).1
        exact ⟨since, rfl, .inl hmem⟩
    · cases hstep
  · cases hstep

theorem Sound.reply (h : t.Sound b p) {failure : Option CryptoError}
    (hstep : t.step b p (.reply i failure) = some t') : Fair b p t t' := by
  simp only [step] at hstep
  split at hstep
  · rename_i j peer key id since hd
    cases hstep
    have hk := h.talks _ (List.mem_of_getElem? hd)
    have hnew := hk.answer fun k (hans : b.answer key failure = .ok k) => agree_of_answer hans
    refine Sound.still ⟨h.kept, fun j' => ?_, fun d' hd' => ?_, h.sits⟩ rfl
    · have hcount := countP_set (P := fun d : Talk => d.exchange.holds? = some j') hd
        ⟨Exchange.answer p.self (b.answer key failure) (.agreeing j peer key), id, since⟩
      rw [Exchange.holds?_answer] at hcount
      rw [holders, Nat.add_right_cancel hcount]
      exact h.balanced j'
    · rcases List.mem_or_eq_of_mem_set hd' with hd' | rfl
      · exact h.talks d' hd'
      · exact hnew
  · cases hstep

/-- **Each event** keeps everything sound. -/
theorem Sound.step {ev : Event} (h : t.Sound b p) (hstep : t.step b p ev = some t') :
    Fair b p t t' := by
  have hfree := h.kept.tended.freeVacant
  cases ev with
  | add c o =>
    cases hstep
    exact h.ask (Store.add_effect hfree c o) (by simp) (by simp) (by simp)
  | remove subject =>
    cases hstep
    exact h.ask (Store.perform_effect hfree (.remove subject)) (by simp) (by simp) (by simp)
  | hold => exact h.hold hstep
  | drop => exact h.drop hstep
  | missing => exact h.missing hstep
  | start => exact h.start hstep
  | advance => exact h.advance hstep
  | verdict => exact h.verdict hstep
  | secret => exact h.secret hstep
  | talk => exact h.talk hstep
  | reply => exact h.reply hstep

end Parley

/-- A new store, of any capacity, and nobody at work yet. -/
def parley (b : Backend) (p : VerificationPolicy) : System Parley Parley.Event where
  initial t := ∃ capacity a k, t = ⟨.new capacity a k, .finished .nothing, 0, [], []⟩
  step := Parley.step b p

theorem Parley.Sound.of_reachable {b : Backend} {p : VerificationPolicy} {t : Parley}
    (h : (parley b p).Reachable t) : t.Sound b p := by
  refine h.invariant ?_ fun t ev t' ht hstep => (ht.step hstep).sound
  rintro t ⟨capacity, a, k, rfl⟩
  refine ⟨Store.kept_empty b p.self capacity a k, fun id => ?_, fun d hd => ?_, trivial⟩
  · exact Store.pinsOn_of_none (Store.get?_empty capacity a k id)
  · exact absurd hd List.not_mem_nil

end Vouch
