import Vouch.Proofs.Pipeline.Parley
/-!
# In whatever order

What an exchange does in its turn depends on where it stands and on the certificate of its entry, and
on nothing that the turns of others change. So neighbouring turns of two exchanges can change places,
and a run of turns ends in the same state whatever order they come in, as long as each exchange takes
its own in order.

* `Sound.step_of_party`: a turn, as a change to one exchange and one entry.
* `Sound.swap`: two turns change places.
* `context_of_reachable`: every context in the store belongs to its peer, and which ones are there in
  the end does not depend on the order.
-/
namespace Vouch

/-! ## A turn of one exchange -/

/-- What an exchange does by itself about a pinned entry with the certificate: where it gets to, and
what becomes of the entry. -/
def Exchange.turn (c : Certificate) : Exchange → Option (Exchange × (Entry → Entry))
  | .pinned i => some (.agreeing i c.subject c.publicKey, fun e => e)
  | .derived i k x => some (.settled i (.ok ()), .attach k x)
  | .settled _ result => some (.finished result, .givePin)
  | _ => none

/-- An exchange whose pin is there takes its turn. -/
theorem Exchange.step_eq {b : Backend} {own : Eui64} {h : History} {d : Talk}
    (hk : d.Keeps b own h)
    (hpin : ∀ i e, d.exchange.holds? = some i → h.store.get? i = some e → e.pins ≠ 0) :
    d.exchange.step h.store = ((h.store.get? d.id).map Entry.certificate).bind fun c =>
      (d.exchange.turn c).map fun w => (w.1, h.store.update d.id w.2) := by
  obtain ⟨x, i, since⟩ := d
  cases hx : x.holds? with
  | none =>
    cases x with
    | finished | stopped => cases h.store.get? i <;> rfl
    | pinned | agreeing | derived | settled => cases hx
  | some j =>
    obtain ⟨rfl, -⟩ := hk.holds j hx
    obtain ⟨e, he, -⟩ := hk.has hx
    have hp := hpin j e hx he
    rw [he, Option.map_some, Option.bind_some]
    cases x with
    | pinned =>
      cases hx
      have hsame : h.store.update j (fun e => e) = h.store := Store.update_eq_self he rfl
      simp only [step, turn, he, Option.map_some, hsame]
      rfl
    | agreeing => rfl
    | derived =>
      cases hx
      simp only [step, turn, Option.map_some, Store.setContext_of_some he]
    | settled =>
      cases hx
      simp only [step, turn, Option.map_some, Store.dropGuard_of_pos he hp]
    | finished | stopped => cases hx

/-! ## Whose turn it is -/

/-- The round is at its exchange, or over. -/
def Round.Late : Round → Prop
  | .exchanging _ _ _ => True
  | .finished _ => True
  | _ => False

/-- The round, when its exchange has got to `x`. -/
def Round.further (x : Exchange) : Round → Round
  | .exchanging id subject _ => .ofExchange id subject x
  | r => r

theorem Round.late_ofExchange (id : EntryId) (subject : Eui64) (x : Exchange) :
    (Round.ofExchange id subject x).Late := by
  unfold ofExchange
  split <;> trivial

theorem Round.Late.further {r : Round} (h : r.Late) (x : Exchange) : (r.further x).Late := by
  cases r with
  | exchanging id subject => exact late_ofExchange id subject x
  | ready | found | pinned | checking | judged | released | promoted | finished => exact h

namespace Parley

/-- Whose exchange it is: the pipeline's, or one that a call has started. -/
inductive Party where
  | pipeline
  | caller (i : Nat)
  deriving DecidableEq

/-- The party whose exchange takes a turn or is answered. -/
def Event.party? : Event → Option Party
  | .advance => some .pipeline
  | .secret _ => some .pipeline
  | .talk i => some (.caller i)
  | .reply i _ => some (.caller i)
  | _ => none

/-- What an exchange about an entry with the certificate does in its turn or with the answer. -/
def Event.turn (b : Backend) (own : Eui64) (c : Certificate) (x : Exchange) :
    Event → Option (Exchange × (Entry → Entry))
  | .advance => x.turn c
  | .talk _ => x.turn c
  | .secret failure => heard failure
  | .reply _ failure => heard failure
  | _ => none
where
  heard (failure : Option CryptoError) : Option (Exchange × (Entry → Entry)) :=
    match x with
    | .agreeing _ _ key => some (x.answer own (b.answer key failure), fun e => e)
    | _ => none

def talk? (t : Parley) : Party → Option Talk
  | .pipeline =>
    match t.round with
    | .exchanging id _ x => some ⟨x, id, t.since⟩
    | _ => none
  | .caller i => t.talks[i]?

/-- The state after a turn that has brought `d` to `x` and done `f` to its entry. -/
def put (t : Parley) (d : Talk) (x : Exchange) (f : Entry → Entry) (q : Party) : Parley :=
  let h := { t.history with store := t.store.update d.id f }
  match q with
  | .pipeline => { t with history := h, round := t.round.further x }
  | .caller i => { t with history := h, talks := t.talks.set i { d with exchange := x } }

/-- The state after an event that is the turn of a party, if it may take one. -/
def turned (b : Backend) (own : Eui64) (t : Parley) (ev : Event) (q : Party) : Option Parley :=
  (t.talk? q).bind fun d => ((t.store.get? d.id).map Entry.certificate).bind fun c =>
    (ev.turn b own c d.exchange).map fun w => t.put d w.1 w.2 q

section turns

variable {b : Backend} {p : VerificationPolicy} {t t₁ t₂ : Parley} {ev ev' : Event} {q r : Party}
  {d d' : Talk} {x x' : Exchange} {f g : Entry → Entry}

@[simp] theorem store_put : (t.put d x f q).store = t.store.update d.id f := by
  cases q <;> rfl

theorem late_put (hl : t.round.Late) : (t.put d x f q).round.Late := by
  cases q with
  | pipeline => exact hl.further x
  | caller => exact hl

/-- The turn of one party leaves the exchanges of the others where they are. -/
theorem talk?_put (hqr : q ≠ r) : (t.put d x f q).talk? r = t.talk? r := by
  cases q with
  | pipeline =>
    cases r with
    | pipeline => exact absurd rfl hqr
    | caller => rfl
  | caller i =>
    cases r with
    | pipeline => rfl
    | caller j => exact List.getElem?_set_ne fun hij => hqr (congrArg _ hij)

theorem turned_eq_some_iff {own : Eui64} : t.turned b own ev q = some t₁ ↔
    ∃ d c x f, t.talk? q = some d ∧ (t.store.get? d.id).map Entry.certificate = some c ∧
      ev.turn b own c d.exchange = some (x, f) ∧ t₁ = t.put d x f q := by
  constructor
  · intro h
    obtain ⟨d, hd, h⟩ := Option.bind_eq_some_iff.1 h
    obtain ⟨c, hc, h⟩ := Option.bind_eq_some_iff.1 h
    obtain ⟨⟨x, f⟩, hturn, rfl⟩ := Option.map_eq_some_iff.1 h
    exact ⟨d, c, x, f, hd, hc, hturn, rfl⟩
  · rintro ⟨d, c, x, f, hd, hc, hturn, rfl⟩
    rw [turned, hd, Option.bind_some, hc, Option.bind_some, hturn, Option.map_some]

/-- Turns that leave the same store whichever comes first leave the same state. -/
theorem put_comm (hqr : q ≠ r)
    (hs : (t.store.update d.id f).update d'.id g = (t.store.update d'.id g).update d.id f) :
    (t.put d x f q).put d' x' g r = (t.put d' x' g r).put d x f q := by
  have hs' := congrArg (fun s => ({ t.history with store := s } : History)) hs
  cases q with
  | pipeline =>
    cases r with
    | pipeline => exact absurd rfl hqr
    | caller i =>
      exact congrArg (fun h => { t with
        history := h
        round := t.round.further x
        talks := t.talks.set i { d' with exchange := x' } }) hs'
  | caller i =>
    cases r with
    | pipeline =>
      exact congrArg (fun h => { t with
        history := h
        round := t.round.further x'
        talks := t.talks.set i { d with exchange := x } }) hs'
    | caller j =>
      have hij : i ≠ j := fun hij => hqr (congrArg _ hij)
      simp only [put, List.set_comm _ _ hij]
      exact congrArg (fun h => { t with
        history := h
        talks := (t.talks.set j { d' with exchange := x' }).set i { d with exchange := x } }) hs'

/-- What an exchange under way knows, whoever has started it. -/
theorem Sound.keeps (h : t.Sound b p) (hd : t.talk? q = some d) : d.Keeps b p.self t.history ∧
    ∀ j e, d.exchange.holds? = some j → t.store.get? j = some e → e.pins ≠ 0 := by
  cases q with
  | caller i =>
    have hm := List.mem_of_getElem? hd
    exact ⟨h.talks d hm, h.pins_of_talk hm⟩
  | pipeline =>
    have hr := h.sits
    have hpin := h.pins_of_round
    simp only [talk?] at hd
    split at hd
    · rename_i hround
      cases hd
      rw [hround] at hr hpin
      exact ⟨hr.1, hpin⟩
    · cases hd

theorem next_update (id : EntryId) (f : Entry → Entry) :
    t.history.next (t.store.update id f) = { t.history with store := t.store.update id f } :=
  History.next_update id f

theorem Sound.step_of_talk (h : t.Sound b p) (hd : t.talk? q = some d) :
    d.exchange.step t.store = ((t.store.get? d.id).map Entry.certificate).bind fun c =>
      (d.exchange.turn c).map fun w => (w.1, t.store.update d.id w.2) :=
  Exchange.step_eq (h.keeps hd).1 (h.keeps hd).2

/-- The entry of an exchange that waits is there, and leaving it alone changes nothing. -/
theorem unchanged {own : Eui64} {j : EntryId} (hk : d.Keeps b own t.history)
    (hh : d.exchange.holds? = some j) : ∃ e, t.store.get? d.id = some e ∧
      ({ t.history with store := t.store.update d.id fun e => e } : History) = t.history := by
  obtain ⟨e, hx, -⟩ := hk.has hh
  rw [(hk.holds j hh).1] at hx
  refine ⟨e, hx, ?_⟩
  rw [show t.store.update d.id (fun e => e) = t.store from Store.update_eq_self hx rfl]
  rfl

theorem Sound.step_talk (h : t.Sound b p) (i : Nat) :
    t.step b p (.talk i) = t.turned b p.self (.talk i) (.caller i) := by
  cases hd : t.talk? (.caller i) with
  | none => simp only [Parley.step, show t.talks[i]? = none from hd, turned, hd, Option.bind_none]
  | some d =>
    simp only [Parley.step, show t.talks[i]? = some d from hd, h.step_of_talk hd, turned, hd,
      Option.bind_some, Event.turn]
    cases (t.store.get? d.id).map Entry.certificate with
    | none => rfl
    | some c =>
      cases hw : d.exchange.turn c with
      | none => simp only [Option.bind_some, hw, Option.map_none]
      | some w => simp only [Option.bind_some, hw, Option.map_some, put, next_update]

theorem Sound.step_advance (h : t.Sound b p) (hl : t.round.Late) :
    t.step b p .advance = t.turned b p.self .advance .pipeline := by
  cases hr : t.round with
  | exchanging id subject x =>
    have hd : t.talk? .pipeline = some ⟨x, id, t.since⟩ := by simp only [talk?, hr]
    simp only [Parley.step, hr, Round.step, h.step_of_talk hd, turned, hd, Option.bind_some,
      Event.turn]
    cases (t.store.get? id).map Entry.certificate with
    | none => rfl
    | some c =>
      cases hw : x.turn c with
      | none => simp only [Option.bind_some, hw, Option.map_none]
      | some w =>
        simp only [Option.bind_some, hw, Option.map_some, put, next_update, hr, Round.further,
          Round.begun]
  | finished => simp only [Parley.step, hr, Round.step, turned, talk?, Option.bind_none]
  | ready | found | pinned | checking | judged | released | promoted =>
    rw [hr] at hl
    exact hl.elim

theorem Sound.step_secret (h : t.Sound b p) (failure : Option CryptoError) :
    t.step b p (.secret failure) = t.turned b p.self (.secret failure) .pipeline := by
  cases hr : t.round with
  | exchanging id subject x =>
    have hd : t.talk? .pipeline = some ⟨x, id, t.since⟩ := by simp only [talk?, hr]
    cases x with
    | agreeing j peer key =>
      obtain ⟨e, hx, hsame⟩ := unchanged (h.keeps hd).1 rfl
      simp only [Parley.step, hr, turned, hd, Option.bind_some, hx, Event.turn, Event.turn.heard,
        Option.map_some, put, Round.further, hsame]
      cases b.answer key failure <;> rfl
    | pinned | derived | settled | finished | stopped =>
      simp only [Parley.step, hr, turned, hd, Option.bind_some, Event.turn, Event.turn.heard,
        Option.map_none, Option.bind_fun_none]
  | ready | found | pinned | checking | judged | released | promoted | finished =>
    simp only [Parley.step, hr, turned, talk?, Option.bind_none]

theorem Sound.step_reply (h : t.Sound b p) (i : Nat) (failure : Option CryptoError) :
    t.step b p (.reply i failure) = t.turned b p.self (.reply i failure) (.caller i) := by
  cases hd : t.talk? (.caller i) with
  | none => simp only [Parley.step, show t.talks[i]? = none from hd, turned, hd, Option.bind_none]
  | some d =>
    obtain ⟨x, id, since⟩ := d
    have hd' : t.talks[i]? = some ⟨x, id, since⟩ := hd
    cases x with
    | agreeing j peer key =>
      obtain ⟨e, hx, hsame⟩ := unchanged (h.keeps hd).1 rfl
      simp only [Parley.step, hd', turned, hd, Option.bind_some, hx, Event.turn, Event.turn.heard,
        Option.map_some, put, hsame]
    | pinned | derived | settled | finished | stopped =>
      simp only [Parley.step, hd', turned, hd, Option.bind_some, Event.turn, Event.turn.heard,
        Option.map_none, Option.bind_fun_none]

/-- **A turn** changes one exchange and the entry it is about. -/
theorem Sound.step_of_party (h : t.Sound b p) (hl : ev = .advance → t.round.Late)
    (hq : ev.party? = some q) : t.step b p ev = t.turned b p.self ev q := by
  cases ev with
  | talk i => cases hq; exact h.step_talk i
  | advance => cases hq; exact h.step_advance (hl rfl)
  | secret failure => cases hq; exact h.step_secret failure
  | reply i failure => cases hq; exact h.step_reply i failure
  | add | remove | hold | drop | missing | start | verdict => cases hq

/-! ## Turns change places -/

/-- What can become of an entry in a turn. -/
theorem Event.turn_cases {own : Eui64} {c : Certificate} (h : ev.turn b own c x = some (x', f)) :
    f = (fun e => e) ∨ f = Entry.givePin ∨ ∃ i k y, x = .derived i k y ∧ f = .attach k y := by
  have act (h : x.turn c = some (x', f)) :
      f = (fun e => e) ∨ f = Entry.givePin ∨ ∃ i k y, x = .derived i k y ∧ f = .attach k y := by
    cases x with
    | pinned => cases h; exact .inl rfl
    | derived i k y => cases h; exact .inr (.inr ⟨i, k, y, rfl, rfl⟩)
    | settled => cases h; exact .inr (.inl rfl)
    | agreeing | finished | stopped => cases h
  have heard {failure : Option CryptoError}
      (h : Event.turn.heard b own x failure = some (x', f)) : f = fun e => e := by
    cases x with
    | agreeing => cases h; rfl
    | pinned | derived | settled | finished | stopped => cases h
  cases ev with
  | advance | talk => exact act h
  | secret | reply => exact .inl (heard h)
  | add | remove | hold | drop | missing | start | verdict => cases h

theorem Event.turn_keeps {own : Eui64} {c : Certificate} (h : ev.turn b own c x = some (x', f)) :
    Entry.Keeps f := by
  rcases turn_cases h with rfl | rfl | ⟨i, k, y, -, rfl⟩
  · exact fun _ => ⟨rfl, rfl⟩
  · exact Entry.keeps_givePin
  · exact Entry.keeps_attach k y

/-- An exchange that is about to attach something has it from the entry. -/
theorem derived_of_keeps {own : Eui64} {j : EntryId} {k : SharedSecret} {y : SecurityContext}
    {e : Entry} (hk : d.Keeps b own t.history) (hd : d.exchange = .derived j k y)
    (hx : t.store.get? d.id = some e) :
    b.agree e.certificate.publicKey = .ok k ∧ y = .derive k own e.subject := by
  have hh : d.exchange.holds? = some j := by rw [hd]; rfl
  have hb := hk.has hh
  rw [(hk.holds j hh).1, hd] at hb
  exact (hb.of_get? hx).2

/-- Two exchanges about one entry attach the same to it. -/
theorem Sound.turns_agree (h : t.Sound b p) {e : Entry} (hd : t.talk? q = some d)
    (hd' : t.talk? r = some d') (hid : d.id = d'.id) (hx : t.store.get? d.id = some e)
    (hturn : ev.turn b p.self e.certificate d.exchange = some (x, f))
    (hturn' : ev'.turn b p.self e.certificate d'.exchange = some (x', g)) : g (f e) = f (g e) := by
  rcases Event.turn_cases hturn with rfl | rfl | ⟨i, k, y, hxd, rfl⟩
  · rfl
  · rcases Event.turn_cases hturn' with rfl | rfl | ⟨-, -, -, -, rfl⟩ <;> rfl
  · rcases Event.turn_cases hturn' with rfl | rfl | ⟨i', k', y', hxd', rfl⟩
    · rfl
    · rfl
    · obtain ⟨hk, rfl⟩ := derived_of_keeps (h.keeps hd).1 hxd hx
      obtain ⟨hk', rfl⟩ := derived_of_keeps (h.keeps hd').1 hxd' (hid ▸ hx)
      rw [hk, Except.ok.injEq] at hk'
      rw [hk']

/-- **Two turns** of different parties can change places. -/
theorem Sound.swap (h : t.Sound b p) (hl : ev = .advance → t.round.Late)
    (hl' : ev' = .advance → t.round.Late) (hq : ev.party? = some q) (hr : ev'.party? = some r)
    (hqr : q ≠ r) (h₁ : t.step b p ev = some t₁) (h₂ : t₁.step b p ev' = some t₂) :
    ∃ t₁', t.step b p ev' = some t₁' ∧ t₁'.step b p ev = some t₂ := by
  have hs₁ := (h.step h₁).sound
  rw [h.step_of_party hl hq] at h₁
  obtain ⟨d, c, x, f, hd, hc, hturn, rfl⟩ := turned_eq_some_iff.1 h₁
  rw [hs₁.step_of_party (fun hev => late_put (hl' hev)) hr] at h₂
  obtain ⟨d', c', x', g, hd', hc', hturn', rfl⟩ := turned_eq_some_iff.1 h₂
  rw [talk?_put hqr] at hd'
  rw [store_put, Store.map_certificate_update (Event.turn_keeps hturn)] at hc'
  have h₁' : t.step b p ev' = some (t.put d' x' g r) :=
    (h.step_of_party hl' hr).trans (turned_eq_some_iff.2 ⟨d', c', x', g, hd', hc', hturn', rfl⟩)
  refine ⟨_, h₁', ?_⟩
  rw [(h.step h₁').sound.step_of_party (fun hev => late_put (hl hev)) hq]
  refine turned_eq_some_iff.2 ⟨d, c, x, f, (talk?_put (Ne.symm hqr)).trans hd, ?_, hturn,
    put_comm hqr ?_⟩
  · rw [store_put, Store.map_certificate_update (Event.turn_keeps hturn'), hc]
  · by_cases hid : d.id = d'.id
    · obtain ⟨e, hx, rfl⟩ := Option.map_eq_some_iff.1 hc
      rw [← hid, hc, Option.some.injEq] at hc'
      rw [← hid, Store.update_update, Store.update_update]
      exact Store.update_congr hx (h.turns_agree hd hd' hid hx hturn (hc' ▸ hturn'))
    · exact Store.update_comm hid g

/-- A turn does not take the pipeline anywhere but to the end of its exchange. -/
theorem Sound.late_of_step (h : t.Sound b p) (hq : ev.party? = some q) (hl : t.round.Late)
    (hstep : t.step b p ev = some t₁) : t₁.round.Late := by
  rw [h.step_of_party (fun _ => hl) hq] at hstep
  obtain ⟨d, c, x, f, -, -, -, rfl⟩ := turned_eq_some_iff.1 hstep
  exact late_put hl

/-- A turn comes before those of others that it came after. -/
theorem Sound.run_front {pre post : List Event} (h : t.Sound b p)
    (hl : .advance ∈ pre ++ ev :: post → t.round.Late) (hq : ev.party? = some q)
    (hpre : ∀ a ∈ pre, ∃ r, a.party? = some r ∧ r ≠ q)
    (hrun : (parley b p).run t (pre ++ ev :: post) = some t₂) :
    (parley b p).run t (ev :: (pre ++ post)) = some t₂ := by
  induction pre generalizing t with
  | nil => exact hrun
  | cons a pre ih =>
    obtain ⟨r, hr, hne⟩ := hpre a List.mem_cons_self
    obtain ⟨t₁, h₁, hrun⟩ := Option.bind_eq_some_iff.1 hrun
    have hla (hev : a = .advance) : t.round.Late := hl (hev ▸ List.mem_cons_self)
    have hlev (hev : ev = .advance) : t.round.Late := hl (by simp [hev])
    have hrun' := ih (h.step h₁).sound
      (fun hm => h.late_of_step hr (hl (List.mem_cons_of_mem _ hm)) h₁)
      (fun a' ha' => hpre a' (List.mem_cons_of_mem _ ha')) hrun
    obtain ⟨t₃, h₃, hrest⟩ := Option.bind_eq_some_iff.1 hrun'
    obtain ⟨t₁', h₁', h₃'⟩ := h.swap hla hlev hr hq hne h₁ h₃
    exact Option.bind_eq_some_iff.2 ⟨t₁', h₁', Option.bind_eq_some_iff.2 ⟨t₃, h₃', hrest⟩⟩

/-- The first turn in one order has none of its own party before it in another. -/
theorem split_of_filter_eq {es fs : List Event}
    (hsame : ∀ q, es.filter (·.party? = q) = (ev :: fs).filter (·.party? = q)) :
    ∃ pre post, es = pre ++ ev :: post ∧ (∀ a ∈ pre, a.party? ≠ ev.party?) ∧
      ∀ q, (pre ++ post).filter (·.party? = q) = fs.filter (·.party? = q) := by
  have hq := hsame ev.party?
  rw [List.filter_cons_of_pos (by simp)] at hq
  obtain ⟨pre, post, rfl, hpre, -, hpost⟩ := List.filter_eq_cons_iff.1 hq
  refine ⟨pre, post, rfl, fun a ha => by simpa using hpre a ha, fun q => ?_⟩
  by_cases hev : ev.party? = q
  · subst hev
    rw [List.filter_append, List.filter_eq_nil_iff.2 hpre, List.nil_append, hpost]
  · have hrest := hsame q
    rw [List.filter_append, List.filter_cons_of_neg (by simpa using hev),
      List.filter_cons_of_neg (by simpa using hev)] at hrest
    rw [List.filter_append, hrest]

/-- **Whatever order the turns come in**, they end in the same state, if each party takes its own in
the same order. -/
theorem Sound.run_of_filter_eq {es fs : List Event} (h : t.Sound b p)
    (hl : .advance ∈ es → t.round.Late) (hes : ∀ ev ∈ es, ev.party? ≠ none)
    (hsame : ∀ q, es.filter (·.party? = q) = fs.filter (·.party? = q))
    (hrun : (parley b p).run t es = some t₂) : (parley b p).run t fs = some t₂ := by
  induction fs generalizing t es with
  | nil =>
    cases es with
    | nil => exact hrun
    | cons ev es =>
      have hq := hsame ev.party?
      simp at hq
  | cons ev fs ih =>
    obtain ⟨pre, post, rfl, hpre, hrest⟩ := split_of_filter_eq hsame
    have hsub {a : Event} (ha : a ∈ pre ++ post) : a ∈ pre ++ ev :: post :=
      ((List.sublist_cons_self ev post).append_left pre).subset ha
    have party {a : Event} (ha : a ∈ pre ++ ev :: post) : ∃ q, a.party? = some q :=
      Option.ne_none_iff_exists'.1 (hes a ha)
    obtain ⟨q, hq⟩ := party (List.mem_append_right pre List.mem_cons_self)
    have hothers (a : Event) (ha : a ∈ pre) : ∃ r, a.party? = some r ∧ r ≠ q := by
      obtain ⟨r, hr⟩ := party (List.mem_append_left _ ha)
      exact ⟨r, hr, fun hrq => hpre a ha (by rw [hr, hrq, hq])⟩
    obtain ⟨t₁, h₁, hrun₁⟩ := Option.bind_eq_some_iff.1 (h.run_front hl hq hothers hrun)
    have hend := ih (h.step h₁).sound (fun hm => h.late_of_step hq (hl (hsub hm)) h₁)
      (fun a ha => hes a (hsub ha)) hrest hrun₁
    exact Option.bind_eq_some_iff.2 ⟨t₁, h₁, hend⟩

/-! ## Every context belongs to its peer -/

/-- Only an exchange under way attaches anything. -/
theorem Fair.attached {id : EntryId} {e' : Entry} (h : Fair b p t t₁)
    (hx' : t₁.store.get? id = some e') (hsome : e'.secret ≠ none ∨ e'.context ≠ none) :
    (t.store.Has id fun e => e.secret = e'.secret ∧ e.context = e'.context) ∨
      ∃ k y since, t.Underway ⟨.derived id k y, id, since⟩ ∧ e'.secret = some k ∧
        e'.context = some y := by
  obtain ⟨op, he, hwrite⟩ := h.write
  rcases he.get?_cases hx' with ⟨e, hx, -⟩ | ⟨c, o, -, rfl, -⟩
  · rcases he.context hx hx' with ⟨hsec, hctx⟩ | ⟨k, y, hop, hsec, hctx⟩
    · exact .inl ⟨e, hx, hsec.symm, hctx.symm⟩
    · obtain ⟨since, hd⟩ := hwrite id k y hop
      exact .inr ⟨k, y, since, hd, hsec, hctx⟩
  · exact absurd hsome (by simp [Entry.fresh])

/-- What an exchange under way knows, whoever has started it. -/
theorem Sound.underway (h : t.Sound b p) (hd : t.Underway d) :
    t.history.releases d.id.index = d.since ∧
      t.store.Has d.id fun e => e.state = .verified ∧ d.exchange.Bears b p.self e := by
  obtain ⟨hh, hm | ⟨hsince, subject, hround⟩⟩ := hd
  · have hk := h.talks d hm
    exact ⟨(hk.holds d.id hh).2, hk.has hh⟩
  · have hr := h.sits
    rw [hround, ← hsince] at hr
    exact ⟨(hr.1.holds d.id hh).2, hr.1.has hh⟩

/-- The entry is left as the exchange has agreed with the peer. -/
theorem Sound.succeeded (h : t.Sound b p) (hd : t.Succeeded d)
    (hrel : t.history.releases d.id.index = d.since) :
    t.store.Has d.id (Entry.Agreed b p.self) := by
  obtain ⟨x, id, since⟩ := d
  obtain ⟨hx, hm⟩ := hd
  simp only at hx hrel hm
  subst hx
  have hk : Talk.Keeps b p.self t.history ⟨.finished (.ok ()), id, since⟩ := by
    rcases hm with hm | ⟨rfl, subject, hround⟩
    · exact h.talks _ hm
    · have hr := h.sits
      rw [hround] at hr
      exact hr
  exact (hk.bears hrel).imp fun _ hb => hb.2

/-- **Every context belongs to its peer**, whatever goes on between the steps of an exchange. What is
attached to an entry is the secret that the backend agrees on with the key of that entry's own
certificate and the context derived from it, and the entry is verified. While an exchange is under way
the slot it is about is not released, and what it carries is true of the entry there; nobody but such
an exchange attaches anything, and one that ended well has left its entry with the context, whoever
came after it. Exchanges that take the same turns in another order end in the same state. -/
theorem context_of_reachable (h : (parley b p).Reachable t) :
    (∀ id e, t.store.get? id = some e → e.secret ≠ none ∨ e.context ≠ none →
      e.state = .verified ∧ e.Agreed b p.self) ∧
    (∀ d, t.Underway d → t.history.releases d.id.index = d.since ∧
      t.store.Has d.id fun e => e.state = .verified ∧ d.exchange.Bears b p.self e) ∧
    (∀ ev t' id e', t.step b p ev = some t' → t'.store.get? id = some e' →
      e'.secret ≠ none ∨ e'.context ≠ none →
      (t.store.Has id fun e => e.secret = e'.secret ∧ e.context = e'.context) ∨
        ∃ k y since, t.Underway ⟨.derived id k y, id, since⟩ ∧ e'.secret = some k ∧
          e'.context = some y) ∧
    (∀ d, t.Succeeded d → t.history.releases d.id.index = d.since →
      t.store.Has d.id (Entry.Agreed b p.self)) ∧
    (∀ es fs t', (.advance ∈ es → t.round.Late) → (∀ ev ∈ es, ev.party? ≠ none) →
      (∀ q, es.filter (·.party? = q) = fs.filter (·.party? = q)) →
      (parley b p).run t es = some t' → (parley b p).run t fs = some t') := by
  have hs := Sound.of_reachable h
  refine ⟨fun id e hx hsome => ?_, fun d hd => hs.underway hd, fun ev t' id e' hstep hx' hsome => ?_,
    fun d hd hrel => hs.succeeded hd hrel,
    fun es fs t' hl hes hsame hrun => hs.run_of_filter_eq hl hes hsame hrun⟩
  · rcases hs.kept.sealed id e hx with ⟨hsec, hctx⟩ | hsealed
    · exact absurd hsome (by simp [hsec, hctx])
    · exact hsealed
  · exact (hs.step hstep).attached hx' hsome

/-- A new store with room for one certificate. -/
def fresh : Parley :=
  ⟨.new 1 ⟨Vector.replicate 16 0⟩ ⟨Vector.replicate 64 0⟩, .finished .nothing, 0, [], []⟩

/-- Three exchanges with one peer: the pipeline has promoted its certificate, a secured message from it
comes in before the pipeline has pinned the entry again, and another one after that. -/
def rivals : List Event :=
  let a : Address := ⟨Vector.ofFn fun i => if i.val = 8 then 3 else 1⟩
  [.add (.uniform 1) .requested, .start, .advance, .advance, .advance, .verdict (.ok ()), .advance,
    .advance, .missing false (.new 0) 0 a, .advance, .missing true (.new 0) 0 a]

/-- They get through one after the other; the backend fails the last. -/
def inTurn : List Event :=
  [.advance, .secret none, .advance, .advance, .talk 0, .reply 0 none, .talk 0, .talk 0,
    .talk 1, .reply 1 (some .verificationFailed), .talk 1]

/-- The same turns, all mixed up. -/
def atOnce : List Event :=
  [.talk 1, .talk 0, .advance, .reply 1 (some .verificationFailed), .reply 0 none, .talk 0,
    .secret none, .talk 1, .advance, .talk 0, .advance]

theorem filter_inTurn (q : Option Party) :
    inTurn.filter (·.party? = q) = atOnce.filter (·.party? = q) := by
  rcases q with _ | _ | _ | _ | i <;> rfl

theorem context_after_rivals : ∃ t t' e,
    (parley .ones ⟨⟨Vector.replicate 8 0⟩, false⟩).run fresh rivals = some t ∧
    (parley .ones ⟨⟨Vector.replicate 8 0⟩, false⟩).run t inTurn = some t' ∧
    (parley .ones ⟨⟨Vector.replicate 8 0⟩, false⟩).run t atOnce = some t' ∧
    t'.store.get? ⟨0, 0⟩ = some e ∧ e.state = .verified ∧ e.pins = 0 ∧
    e.Agreed .ones ⟨Vector.replicate 8 0⟩ := by
  have hrun : ∃ t t' e,
      (parley .ones ⟨⟨Vector.replicate 8 0⟩, false⟩).run fresh rivals = some t ∧
      t.round = .exchanging ⟨0, 0⟩ (Certificate.uniform 1).subject (.pinned ⟨0, 0⟩) ∧
      (parley .ones ⟨⟨Vector.replicate 8 0⟩, false⟩).run t inTurn = some t' ∧
      t'.store.get? ⟨0, 0⟩ = some e ∧ e.pins = 0 ∧ e.secret = some ⟨Vector.replicate 32 0⟩ :=
    ⟨_, _, _, rfl, rfl, rfl, rfl, rfl, rfl⟩
  obtain ⟨t, t', e, ht, hround, hin, hx, hp, hsec⟩ := hrun
  have hreach : (parley .ones ⟨⟨Vector.replicate 8 0⟩, false⟩).Reachable t :=
    ⟨fresh, rivals, ⟨1, _, _, rfl⟩, ht⟩
  obtain ⟨-, -, -, -, horder⟩ := context_of_reachable hreach
  obtain ⟨hown, -⟩ := context_of_reachable (hreach.run hin)
  obtain ⟨hv, ha⟩ := hown _ e hx (.inl (by simp [hsec]))
  have hlate : t.round.Late := by rw [hround]; trivial
  have hat := horder inTurn atOnce t' (fun _ => hlate) (by decide) filter_inTurn hin
  exact ⟨t, t', e, ht, hin, hat, hx, hv, hp, ha⟩

end turns

end Parley

end Vouch
