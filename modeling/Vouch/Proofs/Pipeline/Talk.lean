import Vouch.Proofs.Store.Current
import Vouch.Proofs.Store.Pins
import Vouch.Proofs.Pipeline.Worker
/-!
# An exchange among others

Between two steps of an exchange anything may be done to the store. What the exchange has read of its
entry stays true all the same, since the entry is pinned: its slot is not released before the pin is
given back. A `Talk` is an exchange with the entry it was started for and the number of times the slot
had been released by then.

* `Store.Effect.sealed`: as long as nothing else is attached to an entry than what the two parties have
  agreed on, every context in the store is of that kind.
* `Talk.Keeps.effect`: what an exchange knows of its entry, whatever others do.
* `Exchange.Move.keeps`: what it knows after a step of its own.
-/
namespace Vouch

open Store (Op Effect)

/-! ## What is attached to entries -/

/-- Nothing is attached to the entry, or it is verified and has what it should have. -/
def Entry.Sealed (b : Backend) (own : Eui64) (e : Entry) : Prop :=
  e.secret = none ∧ e.context = none ∨ e.state = .verified ∧ e.Agreed b own

/-- Nothing is attached but what the two parties have agreed on, to a verified entry. -/
def Store.Op.Faithful (b : Backend) (own : Eui64) (s : Store) : Op → Prop
  | .setContext id k x => s.Has id fun e =>
    e.state = .verified ∧ b.agree e.certificate.publicKey = .ok k ∧ x = .derive k own e.subject
  | _ => True

namespace Store.Effect

variable {b : Backend} {own : Eui64} {s s' : Store} {op : Op} {id : EntryId} {e e' : Entry}

theorem stays (he : Effect s op s') (hx : s.get? id = some e) (hx' : s'.get? id = some e') :
    Stays op id e e' := by
  rcases he.kept_or_vacated hx with ⟨e₁, hx₁, hst⟩ | ⟨hs, -, -⟩
  · rw [hx', Option.some.injEq] at hx₁
    exact hx₁ ▸ hst
  · rw [get?_of_vacate hs hx, if_pos rfl] at hx'
    cases hx'

/-- Nothing but attaching changes what is attached. -/
theorem context (he : Effect s op s') (hx : s.get? id = some e) (hx' : s'.get? id = some e') :
    e'.secret = e.secret ∧ e'.context = e.context ∨
      ∃ k x, op = .setContext id k x ∧ e'.secret = some k ∧ e'.context = some x := by
  have same {j : EntryId} {f : Entry → Entry}
      (hf : ∀ e, (f e).secret = e.secret ∧ (f e).context = e.context)
      (h : (s.update j f).get? id = some e') : e'.secret = e.secret ∧ e'.context = e.context := by
    obtain ⟨e₀, h₀, hcases⟩ := get?_of_get?_update h
    rw [hx, Option.some.injEq] at h₀
    subst h₀
    rcases hcases with rfl | ⟨-, rfl⟩
    · exact ⟨rfl, rfl⟩
    · exact hf e
  have kept (h : s.get? id = some e') : e'.secret = e.secret ∧ e'.context = e.context := by
    rw [hx, Option.some.injEq] at h
    exact h ▸ ⟨rfl, rfl⟩
  cases he with
  | none => exact .inl (kept hx')
  | fill _ _ _ _ hv =>
    rw [get?_fill hv] at hx'
    split at hx'
    · rename_i hid
      rw [hid, get?_of_vacant hv] at hx
      cases hx
    · exact .inl (kept hx')
  | ask => exact .inl (same (f := Entry.ask) (fun _ => ⟨rfl, rfl⟩) hx')
  | pin => exact .inl (same (f := Entry.takePin) (fun _ => ⟨rfl, rfl⟩) hx')
  | unpin => exact .inl (same (f := Entry.givePin) (fun _ => ⟨rfl, rfl⟩) hx')
  | promote => exact .inl (same (f := Entry.accept) (fun _ => ⟨rfl, rfl⟩) hx')
  | discard h =>
    rw [get?_discarded h] at hx'
    split at hx'
    · cases hx'
    · exact .inl (kept hx')
  | remove _ h =>
    rw [get?_removed h] at hx'
    split at hx'
    · cases hx'
    · exact .inl (kept hx')
  | @attach j e₀ k x h =>
    obtain ⟨e₁, h₁, rfl | ⟨rfl, rfl⟩⟩ := get?_of_get?_update hx'
    · exact .inl (kept h₁)
    · exact .inr ⟨k, x, rfl, rfl, rfl⟩

theorem agreed (he : Effect s op s') (hf : op.Faithful b own s) (hx : s.get? id = some e)
    (hx' : s'.get? id = some e') (ha : e.Agreed b own) : e'.Agreed b own := by
  have hc := (he.stays hx hx').certificate
  rcases he.context hx hx' with ⟨hsec, hctx⟩ | ⟨k, x, rfl, hsec, hctx⟩
  · obtain ⟨k, hk, hs, hcon⟩ := ha
    exact ⟨k, hc ▸ hk, hsec.trans hs, by rw [hctx, hcon, Entry.subject, Entry.subject, hc]⟩
  · obtain ⟨-, hk, rfl⟩ := Has.of_get? hf hx
    exact ⟨k, hc ▸ hk, hsec, by rw [hctx, Entry.subject, Entry.subject, hc]⟩

/-- **Sealed entries** stay sealed, and new ones are. -/
theorem sealed (he : Effect s op s') (hf : op.Faithful b own s)
    (hs : ∀ id e, s.get? id = some e → e.Sealed b own) :
    ∀ id e, s'.get? id = some e → e.Sealed b own := by
  intro id e' hx'
  rcases he.get?_cases hx' with ⟨e, hx, hst⟩ | ⟨c, o, -, rfl, -⟩
  · rcases hs id e hx with ⟨hsec, hctx⟩ | ⟨hv, ha⟩
    · rcases he.context hx hx' with ⟨hsec', hctx'⟩ | ⟨k, x, rfl, hsec', hctx'⟩
      · exact .inl ⟨hsec'.trans hsec, hctx'.trans hctx⟩
      · obtain ⟨hv, hk, rfl⟩ := Has.of_get? hf hx
        refine .inr ⟨hst.verified hv, k, hst.certificate ▸ hk, hsec', ?_⟩
        rw [hctx', hst.subject]
    · exact .inr ⟨hst.verified hv, he.agreed hf hx hx' ha⟩
  · exact .inl ⟨rfl, rfl⟩

end Store.Effect

/-! ## What an exchange knows -/

/-- What an exchange carries is true of the entry. -/
def Exchange.Bears (b : Backend) (own : Eui64) (e : Entry) : Exchange → Prop
  | .agreeing _ peer key => e.subject = peer ∧ e.certificate.publicKey = key
  | .derived _ k x => b.agree e.certificate.publicKey = .ok k ∧ x = .derive k own e.subject
  | .settled _ (.ok ()) => e.Agreed b own
  | .finished (.ok ()) => e.Agreed b own
  | _ => True

/-- An exchange with the entry it was started for, and the releases of its slot by then. -/
structure Talk where
  exchange : Exchange
  id : EntryId
  since : Nat

/-- While an exchange holds its pin, the slot is not released. Until it is, the entry is verified, and
what the exchange carries, or has come to, is true of it. -/
structure Talk.Keeps (b : Backend) (own : Eui64) (h : History) (d : Talk) : Prop where
  since_le : d.since ≤ h.releases d.id.index
  holds : ∀ id, d.exchange.holds? = some id → id = d.id ∧ h.releases d.id.index = d.since
  bears : h.releases d.id.index = d.since →
    h.store.Has d.id fun e => e.state = .verified ∧ d.exchange.Bears b own e

section talk

variable {b : Backend} {own : Eui64} {h : History} {s' : Store} {op : Op} {d : Talk} {id : EntryId}
  {since : Nat} {x x' : Exchange} {e e' : Entry}

theorem Exchange.Bears.effect (hb : x.Bears b own e) (he : Effect h.store op s')
    (hf : op.Faithful b own h.store) (hx : h.store.get? id = some e) (hx' : s'.get? id = some e') :
    x.Bears b own e' := by
  have hst := he.stays hx hx'
  cases x with
  | pinned | stopped => trivial
  | agreeing => exact ⟨hst.subject.trans hb.1, hst.certificate ▸ hb.2⟩
  | derived => exact ⟨hst.certificate ▸ hb.1, hst.subject ▸ hb.2⟩
  | settled _ result | finished result =>
    cases result with
    | ok => exact he.agreed hf hx hx' hb
    | error => trivial

/-- A pinned entry is where it was. -/
theorem Talk.Keeps.has (hk : d.Keeps b own h) (hh : d.exchange.holds? = some id) :
    h.store.Has id fun e => e.state = .verified ∧ d.exchange.Bears b own e := by
  obtain ⟨rfl, hrel⟩ := hk.holds id hh
  exact hk.bears hrel

/-- **Whatever others do**, as long as the pin of the exchange is there. -/
theorem Talk.Keeps.effect (hk : d.Keeps b own h) (he : Effect h.store op s')
    (hf : op.Faithful b own h.store)
    (hpin : ∀ id e, d.exchange.holds? = some id → h.store.get? id = some e → e.pins ≠ 0) :
    d.Keeps b own (h.next s') := by
  have hnext : h.releases d.id.index ≤ (h.next s').releases d.id.index :=
    History.releases_le_next d.id.index
  have hle := Nat.le_trans hk.since_le hnext
  by_cases hrel : h.releases d.id.index = d.since
  · obtain ⟨e, hx, hv, hb⟩ := hk.bears hrel
    rcases he.kept_or_vacated hx with ⟨e', hx', hst⟩ | ⟨hs, h0, -⟩
    · have hsame := History.releases_of_kept hx hx'
      refine ⟨hle, fun id hh => ⟨(hk.holds id hh).1, hsame.trans hrel⟩, fun _ => ?_⟩
      exact ⟨e', hx', hst.verified hv, hb.effect he hf hx hx'⟩
    · -- Released now, so the exchange has given its pin back before.
      have hmore := History.releases_of_vacate hx hs
      refine ⟨hle, fun id hh => ?_, fun hcon => by omega⟩
      obtain ⟨rfl, -⟩ := hk.holds id hh
      exact absurd h0 (hpin _ e hh hx)
  · have hlt := hk.since_le
    refine ⟨hle, fun id hh => absurd (hk.holds id hh).2 hrel, fun hcon => ?_⟩
    exact absurd (show h.releases d.id.index = d.since by omega) hrel

/-- The exchange gets further over the same store. -/
theorem Talk.Keeps.advance (hk : Talk.Keeps b own h ⟨x, id, since⟩)
    (hh : ∀ j, x'.holds? = some j → x.holds? = some j)
    (hb : ∀ e, h.store.get? id = some e → x.Bears b own e → x'.Bears b own e) :
    Talk.Keeps b own h ⟨x', id, since⟩ := by
  refine ⟨hk.since_le, fun j hj => hk.holds j (hh j hj), fun hrel => ?_⟩
  obtain ⟨e, hx, hv, hbears⟩ := hk.bears hrel
  exact ⟨e, hx, hv, hb e hx hbears⟩

/-- An exchange with a verified entry begins. -/
theorem Talk.Keeps.start (b : Backend) (own : Eui64)
    (hx : h.store.Has id fun e => e.state = .verified) :
    Talk.Keeps b own h ⟨.pinned id, id, h.releases id.index⟩ := by
  refine ⟨Nat.le_refl _, fun j hj => ⟨(Option.some.inj hj).symm, rfl⟩, fun _ => ?_⟩
  exact hx.imp fun e hv => ⟨hv, trivial⟩

/-- The backend answers: with the secret, or it fails. -/
theorem Talk.Keeps.answer {peer : Eui64} {key : PublicKey} {j : EntryId}
    (hk : Talk.Keeps b own h ⟨.agreeing j peer key, id, since⟩)
    {answer : Except CryptoError SharedSecret} (ha : ∀ k, answer = .ok k → b.agree key = .ok k) :
    Talk.Keeps b own h ⟨Exchange.answer own answer (.agreeing j peer key), id, since⟩ := by
  cases answer with
  | error => exact hk.advance (fun _ hj => hj) fun _ _ _ => trivial
  | ok k =>
    refine hk.advance (fun _ hj => hj) fun e _ hb => ?_
    obtain ⟨rfl, rfl⟩ := hb
    exact ⟨ha k rfl, rfl⟩

/-! ## The steps of an exchange -/

/-- What a step of an exchange asks of the store. -/
theorem Exchange.Move.effect_faithful (hm : Exchange.Move h.store x x' s')
    (hk : Talk.Keeps b own h ⟨x, id, since⟩) :
    ∃ op, Effect h.store op s' ∧ op.Faithful b own h.store ∧
      (∀ i, op ≠ .promote i ∧ op ≠ .discard i) ∧
      ∀ i k c, op = .setContext i k c → x = .derived i k c := by
  cases hm with
  | @read i | @unread i | @unattached i | @unpinGone i | @overdrawn i =>
    exact ⟨.unpin i, .none _, trivial, by simp, by simp⟩
  | @attach i k c e hx =>
    refine ⟨_, .attach hx, ?_, by simp, by simp⟩
    exact (hk.has rfl).imp fun _ hb => hb
  | @unpin i result e hx hp => exact ⟨_, .unpin hx hp, trivial, by simp, by simp⟩

/-- **One step** of an exchange whose pin is there: it knows what it knew and perhaps more, and either
it still has its pin or it is over. -/
theorem Exchange.Move.keeps (hm : Exchange.Move h.store x x' s')
    (hk : Talk.Keeps b own h ⟨x, id, since⟩)
    (hpin : ∀ i e, x.holds? = some i → h.store.get? i = some e → e.pins ≠ 0) :
    Talk.Keeps b own (h.next s') ⟨x', id, since⟩ ∧
      (x'.holds? = x.holds? ∨ ∃ result, x' = .finished result) := by
  obtain ⟨op, he, hf, -⟩ := hm.effect_faithful hk
  have hnext := hk.effect he hf hpin
  cases hm with
  | @read i e hx =>
    obtain ⟨rfl, -⟩ := hk.holds i rfl
    refine ⟨hnext.advance (fun _ hj => hj) fun e' hx' _ => ?_, .inl rfl⟩
    rw [History.store_next, hx, Option.some.injEq] at hx'
    exact hx' ▸ ⟨rfl, rfl⟩
  | unread hx => exact absurd hx (hk.has rfl).ne_none
  | @attach i k c e hx =>
    obtain ⟨rfl, -⟩ := hk.holds i rfl
    refine ⟨hnext.advance (fun _ hj => hj) fun e' hx' hb => ?_, .inl rfl⟩
    rw [History.store_next, Store.get?_update, if_pos rfl, hx] at hx'
    cases hx'
    exact ⟨k, hb.1, rfl, congrArg some hb.2⟩
  | unattached hx => exact absurd hx (hk.has rfl).ne_none
  | @unpin i result e hx hp =>
    refine ⟨hnext.advance (fun _ hj => by cases hj) fun e' _ hb => ?_, .inr ⟨result, rfl⟩⟩
    cases result with
    | ok => exact hb
    | error => trivial
  | unpinGone hx => exact absurd hx (hk.has rfl).ne_none
  | @overdrawn i result e hx hp => exact absurd hp (hpin i e rfl hx)

end talk

end Vouch
