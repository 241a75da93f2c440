import Vouch.Proofs.Pipeline.Worker
/-!
# Which verified entries get a context

A pipeline that does not exchange keys for certificates that nobody asked for looks at the origin of
an entry once, when it promotes it. `Attached` is what follows for a subject whose certificates are
all genuine and whose key agreements succeed: a verified entry that was asked for has its context, or
the round under way is about to attach it; every other entry of the subject has none.

* `Attached.add`, `Attached.act`: additions and steps of the pipeline keep it so.
* `Attached.isSome_context_iff`: between rounds, a verified entry has a context if it was asked for
  in time, and only then.
-/
namespace Vouch

open Store (Op Effect)

/-- If the certificate is the subject's, it is genuine and a secret can be agreed on with its key. -/
def Store.Sincere (b : Backend) (s : Store) (subject : Eui64) (c : Certificate) : Prop :=
  c.subject = subject → s.Genuine b c ∧ ∃ k, b.agree c.publicKey = .ok k

theorem Store.Sincere.congr {b : Backend} {s s' : Store} {subject : Eui64} {c : Certificate}
    (h : s.Sincere b subject c) (hk : s'.rootKey = s.rootKey) : s'.Sincere b subject c := by
  intro hc
  obtain ⟨hg, hagree⟩ := h hc
  refine ⟨?_, hagree⟩
  rw [Genuine, hk]
  exact hg

/-- The entry that a round still has to attach a context to. -/
def Round.owes? : Round → Option EntryId
  | .promoted id _ => some id
  | .exchanging id _ _ => some id
  | _ => none

namespace Worker

/-- The contexts of a subject's entries, while a round is under way. -/
structure Attached (b : Backend) (own subject : Eui64) (s : Store) (r : Round) : Prop where
  sincere : ∀ {id e}, s.get? id = some e → s.Sincere b subject e.certificate
  owed : ∀ {id}, r.owes? = some id → s.Has id fun e => e.origin = .requested
  bare : ∀ {id e}, s.get? id = some e → e.subject = subject →
    (e.state = .pending ∨ e.origin = .unsolicited) → e.context = none
  met : ∀ {id e}, s.get? id = some e → e.subject = subject → e.state = .verified →
    e.origin = .requested → e.Agreed b own ∨ r.owes? = some id

variable {b : Backend} {p : VerificationPolicy} {own subject : Eui64} {s s' : Store} {r r' : Round}

theorem Attached.of_not_holds (h : ¬ s.Holds subject) :
    Attached b own subject s (.finished .nothing) where
  sincere {id e} hx hsub := absurd ⟨id, e, hx, hsub⟩ h
  owed hid := by cases hid
  bare {id e} hx hsub := absurd ⟨id, e, hx, hsub⟩ h
  met {id e} hx hsub := absurd ⟨id, e, hx, hsub⟩ h

/-- **Between rounds.** -/
theorem Attached.isSome_context_iff {result : RoundResult} {id : EntryId} {e : Entry}
    (h : Attached b own subject s (.finished result)) (hx : s.get? id = some e)
    (hsub : e.subject = subject) (hv : e.state = .verified) :
    (e.context.isSome ↔ e.origin = .requested) ∧ (e.context.isSome → e.Agreed b own) := by
  cases ho : e.origin with
  | unsolicited =>
    have hnone := h.bare hx hsub (.inr ho)
    simp [hnone]
  | requested =>
    rcases h.met hx hsub hv ho with ha | hid
    · obtain ⟨k, hk, hsec, hctx⟩ := ha
      exact ⟨by simp [hctx], fun _ => ⟨k, hk, hsec, hctx⟩⟩
    · cases hid

/-! ## Moves that leave contexts alone -/

theorem Attached.round (h : Attached b own subject s r) (ho : r'.owes? = r.owes?) :
    Attached b own subject s r' :=
  ⟨h.sincere, fun hid => h.owed (ho ▸ hid), h.bare, fun hx hsub hv hr => ho ▸ h.met hx hsub hv hr⟩

/-- Taking or giving back a pin. -/
theorem Attached.update {id : EntryId} {f : Entry → Entry} (h : Attached b own subject s r)
    (hf : ∀ e, ∃ n, f e = { e with pins := n }) :
    Attached b own subject (s.update id f) r := by
  have hget {j : EntryId} {e' : Entry} (hx' : (s.update id f).get? j = some e') :
      ∃ e n, s.get? j = some e ∧ e' = { e with pins := n } := by
    rw [Store.get?_update] at hx'
    split at hx'
    · rename_i hj
      obtain ⟨e, hx, rfl⟩ := Option.map_eq_some_iff.1 hx'
      obtain ⟨n, hn⟩ := hf e
      exact ⟨e, n, hj ▸ hx, hn⟩
    · exact ⟨e', e'.pins, hx', rfl⟩
  refine ⟨fun hx' => ?_, fun {j} hid => ?_, fun hx' => ?_, fun hx' => ?_⟩
  · obtain ⟨e, n, hx, rfl⟩ := hget hx'
    have hc := h.sincere hx
    exact hc.congr Store.rootKey_update
  · obtain ⟨e, hx, ho⟩ := h.owed hid
    by_cases hj : j = id
    · subst hj
      refine Store.Has.update (P := fun e => e.origin = .requested) ⟨e, hx, ho⟩ fun e he => ?_
      obtain ⟨n, hn⟩ := hf e
      rw [hn]
      exact he
    · exact ⟨e, by rw [Store.get?_update, if_neg hj, hx], ho⟩
  · obtain ⟨e, n, hx, rfl⟩ := hget hx'
    have hbare := h.bare hx
    exact hbare
  · obtain ⟨e, n, hx, rfl⟩ := hget hx'
    have hmet := h.met hx
    exact hmet

/-- Dropping an entry between promotions. -/
theorem Attached.discarded {id : EntryId} {e : Entry} (h : Attached b own subject s r)
    (hx : s.get? id = some e) (ho : r'.owes? = none) (hr : r.owes? = none) :
    Attached b own subject (s.discarded id) r' := by
  have hget {j : EntryId} {e' : Entry} (hx' : (s.discarded id).get? j = some e') :
      s.get? j = some e' := by
    rw [Store.get?_discarded hx] at hx'
    split at hx'
    · cases hx'
    · exact hx'
  refine ⟨fun hx' => h.sincere (hget hx'), fun hid => ?_, fun hx' => h.bare (hget hx'),
    fun hx' hsub hv hreq => ?_⟩
  · rw [ho] at hid
    cases hid
  · rw [ho, ← hr]
    exact h.met (hget hx') hsub hv hreq

theorem Attached.add {c : Certificate} {o : Origin} (h : Attached b own subject s r)
    (hs : s.Consistent) (hc : s.Sincere b subject c) (he : Effect s (.add c o) s') :
    Attached b own subject s' r := by
  refine ⟨fun {id e'} hx' => ?_, fun hid => ?_, fun {id e'} hx' hsub hbare => ?_,
    fun {id e'} hx' hsub hv hreq => ?_⟩
  · rcases he.get?_cases hx' with ⟨e, hx, hst⟩ | ⟨c', o', hop, rfl, -⟩
    · rw [hst.certificate]
      exact (h.sincere hx).congr he.rootKey_eq
    · cases hop
      exact hc.congr he.rootKey_eq
  · obtain ⟨e, hx, ho⟩ := h.owed hid
    exact Store.Has.add ⟨e, hx, ho⟩ he fun _ _ => rfl
  · cases he with
    | none => exact h.bare hx' hsub hbare
    | fill _ _ _ _ hv =>
      rw [Store.get?_fill hv] at hx'
      split at hx'
      · cases hx'
        rfl
      · exact h.bare hx' hsub hbare
    | @ask _ j _ hp =>
      rw [Store.get?_update] at hx'
      split at hx'
      · -- Only an entry that waits is asked for.
        obtain ⟨e, hx, hst, -⟩ := hs.findPending?_eq_some_iff.1 hp
        rw [hx] at hx'
        cases hx'
        have hnone := h.bare hx hsub (.inl hst)
        exact hnone
      · exact h.bare hx' hsub hbare
  · cases he with
    | none => exact h.met hx' hsub hv hreq
    | fill _ _ _ _ hvac =>
      rw [Store.get?_fill hvac] at hx'
      split at hx'
      · cases hx'
        cases hv
      · exact h.met hx' hsub hv hreq
    | @ask _ j _ hp =>
      rw [Store.get?_update] at hx'
      split at hx'
      · obtain ⟨e, hx, hst, -⟩ := hs.findPending?_eq_some_iff.1 hp
        rw [hx] at hx'
        cases hx'
        rw [show e.ask.state = e.state from rfl, hst] at hv
        cases hv
      · exact h.met hx' hsub hv hreq

/-! ## Moves that matter -/

/-- The origin is read now; `r'` owes a context if the entry was asked for. -/
theorem Attached.promoted {id : EntryId} {e : Entry} (h : Attached b own subject s r)
    (hx : s.get? id = some e) (hwait : e.state = .pending) (hr : r.owes? = none)
    (ho : r'.owes? = if e.origin = .requested then some id else none) :
    Attached b own subject (s.promoted id) r' := by
  have hget {j : EntryId} {e' : Entry} (hx' : (s.promoted id).get? j = some e') :
      (j = id ∧ e' = e.accept) ∨ (j ≠ id ∧ s.get? j = some e') := by
    rw [Store.get?_promoted] at hx'
    split at hx'
    · rename_i hj
      rw [hx] at hx'
      exact .inl ⟨hj, (Option.some.inj hx').symm⟩
    · rename_i hj
      exact .inr ⟨hj, hx'⟩
  have hk : (s.promoted id).rootKey = s.rootKey := Store.rootKey_update
  refine ⟨fun {j e'} hx' => ?_, fun {j} hid => ?_, fun {j e'} hx' hsub hbare => ?_,
    fun {j e'} hx' hsub hv hreq => ?_⟩
  · rcases hget hx' with ⟨rfl, rfl⟩ | ⟨-, hj⟩
    · have hc := h.sincere hx
      exact hc.congr hk
    · exact (h.sincere hj).congr hk
  · rw [ho] at hid
    split at hid
    · rename_i hreq
      cases hid
      exact Store.Has.promoted (P := fun e => e.origin = .requested) ⟨e, hx, hreq⟩ fun _ he => he
    · cases hid
  · rcases hget hx' with ⟨rfl, rfl⟩ | ⟨-, hj⟩
    · have hnone := h.bare hx hsub (.inl hwait)
      exact hnone
    · exact h.bare hj hsub hbare
  · rcases hget hx' with ⟨rfl, rfl⟩ | ⟨-, hj⟩
    · have hor : e.origin = .requested := hreq
      right
      rw [ho, if_pos hor]
    · left
      rcases h.met hj hsub hv hreq with ha | hid
      · exact ha
      · rw [hr] at hid
        cases hid

theorem Attached.attach {id : EntryId} {k : SharedSecret} {x : SecurityContext}
    (h : Attached b own subject s r) (hr : r.owes? = some id) (ho : r'.owes? = some id)
    (hv : s.Has id fun e => e.state = .verified) :
    Attached b own subject (s.update id (Entry.attach k x)) r' := by
  have hget {j : EntryId} {e' : Entry} (hx' : (s.update id (Entry.attach k x)).get? j = some e') :
      (j = id ∧ ∃ e, s.get? id = some e ∧ e' = e.attach k x) ∨ (j ≠ id ∧ s.get? j = some e') := by
    rw [Store.get?_update] at hx'
    split at hx'
    · rename_i hj
      obtain ⟨e, hx, rfl⟩ := Option.map_eq_some_iff.1 hx'
      exact .inl ⟨hj, e, hx, rfl⟩
    · rename_i hj
      exact .inr ⟨hj, hx'⟩
  have hreq := h.owed hr
  refine ⟨fun {j e'} hx' => ?_, fun {j} hid => ?_, fun {j e'} hx' hsub hbare => ?_,
    fun {j e'} hx' hsub hst hor => ?_⟩
  · rcases hget hx' with ⟨-, e, hx, rfl⟩ | ⟨-, hj⟩
    · have hc := h.sincere hx
      exact hc.congr Store.rootKey_update
    · exact (h.sincere hj).congr Store.rootKey_update
  · rw [ho] at hid
    cases hid
    exact hreq.update fun _ he => he
  · rcases hget hx' with ⟨-, e, hx, rfl⟩ | ⟨-, hj⟩
    · -- The entry was verified and asked for, so it may have a context.
      rcases hbare with hp | hu
      · have hst := hv.of_get? hx
        rw [show (e.attach k x).state = e.state from rfl, hst] at hp
        cases hp
      · have hor := hreq.of_get? hx
        rw [show (e.attach k x).origin = e.origin from rfl, hor] at hu
        cases hu
    · exact h.bare hj hsub hbare
  · rcases hget hx' with ⟨rfl, -⟩ | ⟨hne, hj⟩
    · exact .inr ho
    · rcases h.met hj hsub hst hor with ha | hid
      · exact .inl ha
      · rw [hr] at hid
        exact absurd (Option.some.inj hid).symm hne

/-- The exchange is over, and with a sincere peer it has come to a context. -/
theorem Attached.settled {id : EntryId} {result : Except ExchangeError Unit}
    (h : Attached b own subject s r) (hr : r.owes? = some id) (ho : r'.owes? = none)
    (ht : Exchange.Told b own s id result) : Attached b own subject s r' := by
  refine ⟨h.sincere, fun hid => ?_, h.bare, fun {j e} hx hsub hv hor => .inl ?_⟩
  · rw [ho] at hid
    cases hid
  · rcases h.met hx hsub hv hor with ha | hid
    · exact ha
    · rw [hr, Option.some.injEq] at hid
      subst hid
      cases result with
      | ok => exact Store.Has.of_get? ht hx
      | error =>
        obtain ⟨-, k, hk⟩ := h.sincere hx hsub
        exact absurd hk (Store.Has.of_get? ht hx k)

/-! ## Steps -/

theorem Attached.exchange {id : EntryId} {peer : Eui64} {x x' : Exchange}
    (h : Attached b own subject s (.exchanging id peer x))
    (hv : s.Has id fun e => e.state = .verified) (hf : x.Fits b own s id)
    (hh : x.holds? = some id) (hp : s.PinnedBy (some id)) (hm : Exchange.Move s x x' s') :
    Attached b own subject s' (.ofExchange id peer x') := by
  cases hm with
  | read => exact h.round rfl
  | unread => exact h.round rfl
  | attach =>
    obtain ⟨rfl, -⟩ := hf
    exact h.attach rfl rfl hv
  | unattached => exact h.round rfl
  | @unpin i result =>
    obtain ⟨rfl, ht⟩ := hf
    have ho : (Round.ofExchange i peer (.finished result)).owes? = none := by
      cases result <;> rfl
    exact (h.settled rfl ho ht).update fun e => ⟨_, rfl⟩
  | unpinGone hx =>
    obtain ⟨rfl, -⟩ := hf
    exact absurd hx hv.ne_none
  | overdrawn hx h0 =>
    cases hh
    rw [hp.pins_eq_one hx] at h0
    cases h0

theorem Attached.move (h : Attached b p.self subject s r) (hno : p.exchangeUnsolicited = false)
    (hf : r.Fits b p s) (hp : s.PinnedBy r.holds?) (hm : Round.Move p s r r' s') :
    Attached b p.self subject s' r' := by
  cases hm with
  | idle | found | full | vanished | read | unread | unpinGone | overdrawn | missed =>
    exact h.round rfl
  | pin | unpin | pinAgain => exact (h.update fun e => ⟨_, rfl⟩).round rfl
  | reject =>
    obtain ⟨⟨e, hx, -⟩, -⟩ := hf
    rw [Store.discard_of_zero hx (hp.pins_eq_zero hx)]
    exact h.discarded hx rfl rfl
  | accept hx ho =>
    have hor : _ = Origin.requested := ho.resolve_right (by simp [hno])
    obtain ⟨hwait, -⟩ := hf.1.of_get? hx
    exact h.promoted hx hwait rfl (by rw [if_pos hor]; rfl)
  | acceptOnly hx ho =>
    obtain ⟨hwait, -⟩ := hf.1.of_get? hx
    exact h.promoted hx hwait rfl (by rw [if_neg fun hor => ho (.inl hor)]; rfl)
  | fullAgain hx hmax =>
    rw [hp.pins_eq_zero hx] at hmax
    cases hmax
  | gone hx => exact absurd hx (Store.Has.ne_none hf)
  | exchange hm =>
    obtain ⟨hv, hxf, hh⟩ := hf
    rw [show (Round.exchanging _ _ _).holds? = some _ from hh] at hp
    exact h.exchange (hv.imp fun _ he => he.1) hxf hh hp hm

/-- **Each step of the pipeline** keeps contexts where they belong. -/
theorem Attached.act {w w' : Worker} {a : Act} (hw : w.Sound b p)
    (hno : p.exchangeUnsolicited = false) (h : Attached b p.self subject w.store w.round)
    (ha : w.act b p a = some w') : Attached b p.self subject w'.store w'.round := by
  cases a with
  | start =>
    obtain ⟨result, hr, rfl⟩ := start_cases ha
    exact h.round (by rw [hr]; rfl)
  | advance => exact h.move hno hw.fits hw.pinned (move_of_advance ha)
  | serve =>
    rcases serve_cases ha with ⟨_, _, _, hr, rfl⟩ | ⟨_, _, _, _, _, hr, rfl⟩
    · exact h.round (by rw [hr]; rfl)
    · exact h.round (by rw [hr]; rfl)

/-! ## Entries across a step -/

/-- The pipeline does not give up a certificate that is sincere, and leaves origins alone. -/
theorem Attached.stays {w w' : Worker} {a : Act} {id : EntryId} {e : Entry} (hw : w.Sound b p)
    (h : Attached b own subject w.store w.round) (ha : w.act b p a = some w')
    (hx : w.store.get? id = some e) (hsub : e.subject = subject) :
    w'.store.Has id fun e' => e'.subject = e.subject ∧ e'.origin = e.origin ∧
      (e.state = .verified → e'.state = .verified) := by
  obtain ⟨op, he, hask⟩ := hw.effect_of_act ha
  rcases he.kept_or_vacated hx with ⟨e', hx', hst⟩ | ⟨-, -, rfl | ⟨subject', rfl, -⟩⟩
  · refine ⟨e', hx', hst.subject, ?_, hst.verified⟩
    rcases hst.origin with ho | ⟨c, rfl, -⟩
    · exact ho
    · exact hask.elim
  · obtain ⟨hg, -⟩ := h.sincere hx hsub
    exact absurd hg ((hw.not_genuine hask).of_get? hx).2
  · exact hask.elim

/-- The pipeline makes no entries. -/
theorem origin_of_act {w w' : Worker} {a : Act} {id : EntryId} {e' : Entry} (hw : w.Sound b p)
    (ha : w.act b p a = some w') (hx' : w'.store.get? id = some e') :
    w.store.Has id fun e => e.subject = e'.subject ∧ e.origin = e'.origin := by
  obtain ⟨op, he, hask⟩ := hw.effect_of_act ha
  rcases he.get?_cases hx' with ⟨e, hx, hst⟩ | ⟨c, o, rfl, -⟩
  · refine ⟨e, hx, hst.subject.symm, ?_⟩
    rcases hst.origin with ho | ⟨c, rfl, -⟩
    · exact ho.symm
    · exact hask.elim
  · exact hask.elim

end Worker
end Vouch
