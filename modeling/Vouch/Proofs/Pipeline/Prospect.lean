import Vouch.Proofs.Pipeline.Context
import Vouch.Proofs.Pipeline.Drain
/-!
# What will be known of a peer

The pipeline takes an entry through many states: it is pinned and given back, promoted, pinned again
and given a context, or dropped. The `prospect?` of an entry is what it says of its peer at the end of
all that, if anything. It is there to be read off at any moment, because a step of the pipeline brings
entries closer to their ends and changes no end.

* `Entry.prospect?_pins`, `Entry.prospect?_accept`, `Entry.prospect?_attach`: the steps an entry takes.
* `Store.prospect?_fill`: a new entry has the prospect of its certificate.
* `Round.Move.prospect?`: no step of a round changes a prospect.
-/
namespace Vouch

/-! ## Profiles -/

/-- What a verified entry says of its peer. -/
structure Profile where
  certificate : Certificate
  origin : Origin
  secret : Option SharedSecret
  context : Option SecurityContext
  deriving DecidableEq

namespace Entry

def profile (e : Entry) : Profile := ⟨e.certificate, e.origin, e.secret, e.context⟩

/-- The entry after an exchange of keys. -/
def exchanged (b : Backend) (own : Eui64) (e : Entry) : Entry :=
  match b.agree e.certificate.publicKey with
  | .ok k => e.attach k (.derive k own e.subject)
  | .error _ => e

/-- What the entry says of its peer once the pipeline is through with it. A verified one stays as it
is, unless it is owed an exchange of keys. -/
def prospect? (b : Backend) (p : VerificationPolicy) (key : PublicKey) (owed : Bool) (e : Entry) :
    Option Profile :=
  match e.state with
  | .pending => (e.after? b p key).map profile
  | .verified => some (if owed then e.exchanged b p.self else e).profile

variable {b : Backend} {p : VerificationPolicy} {key : PublicKey} {owed : Bool} {e : Entry}

theorem settled_of_due (ho : e.origin = .requested ∨ p.exchangeUnsolicited) :
    e.settled b p = e.accept.exchanged b p.self := by
  unfold settled agreed? exchanged
  rw [if_pos ho, show e.accept.certificate = e.certificate from rfl]
  cases b.agree e.certificate.publicKey <;> rfl

theorem settled_of_not_due (ho : ¬ (e.origin = .requested ∨ p.exchangeUnsolicited)) :
    e.settled b p = e.accept := by
  unfold settled agreed?
  rw [if_neg ho]

theorem certificate_settled (b : Backend) (p : VerificationPolicy) (e : Entry) :
    (e.settled b p).certificate = e.certificate := by
  unfold settled
  split <;> rfl

/-- A second exchange comes to the same. -/
theorem exchanged_of_agreed (h : e.Agreed b p.self) : e.exchanged b p.self = e := by
  obtain ⟨k, hk, hsec, hctx⟩ := h
  unfold exchanged
  rw [hk]
  simp [attach, ← hsec, ← hctx]

theorem exchanged_of_error (h : ∀ k, b.agree e.certificate.publicKey ≠ .ok k) :
    e.exchanged b p.self = e := by
  unfold exchanged
  split
  · rename_i k hk
    exact absurd hk (h k)
  · rfl

/-- What is attached in the meantime is replaced. -/
theorem prospect?_attach {k : SharedSecret} {x : SecurityContext}
    (hk : b.agree e.certificate.publicKey = .ok k) (hv : e.state = .verified) :
    (e.attach k x).prospect? b p key true = e.prospect? b p key true := by
  have hv' : (e.attach k x).state = .verified := hv
  have hk' : b.agree (e.attach k x).certificate.publicKey = .ok k := hk
  simp [prospect?, hv, hv', exchanged, hk, hk']
  rfl

/-- Pins do not matter. -/
theorem prospect?_pins (b : Backend) (p : VerificationPolicy) (key : PublicKey) (owed : Bool)
    {e e' : Entry} (hc : e'.certificate = e.certificate) (ho : e'.origin = e.origin)
    (hst : e'.state = e.state) (hs : e'.secret = e.secret) (hx : e'.context = e.context) :
    e'.prospect? b p key owed = e.prospect? b p key owed := by
  have hv : e'.verdict b key = e.verdict b key := by
    unfold verdict
    rw [hc]
  have hk : e'.agreed? b p = e.agreed? b p := by
    unfold agreed?
    rw [ho, hc]
  have hprofile : e'.profile = e.profile := by simp [profile, hc, ho, hs, hx]
  have hsettled : (e'.settled b p).profile = (e.settled b p).profile := by
    unfold settled
    rw [hk]
    cases e.agreed? b p <;> simp [profile, accept, attach, subject, hc, ho, hs, hx]
  have hexchanged : (e'.exchanged b p.self).profile = (e.exchanged b p.self).profile := by
    unfold exchanged
    rw [hc]
    cases b.agree e.certificate.publicKey <;> simp [profile, attach, subject, hc, ho, hs, hx]
  unfold prospect? after?
  rw [hst, hv]
  cases e.state with
  | pending => cases e.verdict b key <;> simp [hsettled]
  | verified => cases owed <;> simp [hprofile, hexchanged]

theorem prospect?_takePin (b : Backend) (p : VerificationPolicy) (key : PublicKey) (owed : Bool)
    (e : Entry) : e.takePin.prospect? b p key owed = e.prospect? b p key owed :=
  prospect?_pins b p key owed rfl rfl rfl rfl rfl

theorem prospect?_givePin (b : Backend) (p : VerificationPolicy) (key : PublicKey) (owed : Bool)
    (e : Entry) : e.givePin.prospect? b p key owed = e.prospect? b p key owed :=
  prospect?_pins b p key owed rfl rfl rfl rfl rfl

/-- What an accepted entry comes to is not changed by its promotion. -/
theorem prospect?_accept (hw : e.state = .pending) (hv : e.verdict b key = .ok ())
    (ho : owed = true ↔ e.origin = .requested ∨ p.exchangeUnsolicited) :
    e.accept.prospect? b p key owed = e.prospect? b p key false := by
  have hstate : e.accept.state = .verified := rfl
  simp only [prospect?, hw, hstate, after?, hv, Option.map_some]
  cases owed with
  | true => rw [settled_of_due (ho.1 rfl), if_pos rfl]
  | false => rw [settled_of_not_due (mt ho.2 (by simp))]; rfl

theorem prospect?_of_verified (hv : e.state = .verified) :
    e.prospect? b p key false = some e.profile := by
  simp [prospect?, hv]

theorem prospect?_of_error {reason : CryptoError} (hw : e.state = .pending)
    (hv : e.verdict b key = .error reason) : e.prospect? b p key owed = none := by
  simp [prospect?, hw, after?, hv]

/-- What a certificate comes to that has just arrived. -/
theorem map_profile_after?_fresh {c : Certificate} {o : Origin} {pr : Profile} :
    ((fresh c o).after? b p key).map profile = some pr ↔
      b.verify c.signedPart c.signature key = .ok () ∧ ((fresh c o).settled b p).profile = pr := by
  have hv : (fresh c o).verdict b key = b.verify c.signedPart c.signature key := rfl
  unfold after?
  rw [hv]
  cases b.verify c.signedPart c.signature key <;> simp

end Entry

namespace Store

/-- What the entries will say of their peers, with an exchange of keys owed to one of them. -/
def prospect? (b : Backend) (p : VerificationPolicy) (s : Store) (owed : Option EntryId)
    (id : EntryId) : Option Profile :=
  (s.get? id).bind (Entry.prospect? b p s.rootKey (owed = some id))

variable {b : Backend} {p : VerificationPolicy} {s s' : Store} {id : EntryId} {e : Entry}
  {o o' : Option EntryId}

/-- Changes to one entry do not change the prospects of others. -/
theorem prospect?_congr (hk : s'.rootKey = s.rootKey) (hget : ∀ j, j ≠ id → s'.get? j = s.get? j)
    (ho : o = none ∨ o = some id) (ho' : o' = none ∨ o' = some id)
    (hid : s'.prospect? b p o' id = s.prospect? b p o id) :
    s'.prospect? b p o' = s.prospect? b p o := by
  funext j
  by_cases hj : j = id
  · rw [hj, hid]
  · have hne : o ≠ some j ∧ o' ≠ some j := by
      rcases ho with rfl | rfl <;> rcases ho' with rfl | rfl <;> simp [Ne.symm hj]
    simp [prospect?, hget j hj, hk, hne]

theorem prospect?_of_get? (hx : s.get? id = some e) :
    s.prospect? b p o id = e.prospect? b p s.rootKey (o = some id) := by
  rw [prospect?, hx, Option.bind_some]

theorem prospect?_of_none (hx : s.get? id = none) : s.prospect? b p o id = none := by
  rw [prospect?, hx, Option.bind_none]

theorem prospect?_update {f : Entry → Entry} (hx : s.get? id = some e)
    (ho : o = none ∨ o = some id)
    (hf : (f e).prospect? b p s.rootKey (o = some id) = e.prospect? b p s.rootKey (o = some id)) :
    (s.update id f).prospect? b p o = s.prospect? b p o := by
  have hx' : (s.update id f).get? id = some (f e) := by simp [get?_update, hx]
  refine prospect?_congr rootKey_update (fun j hj => by simp [get?_update, hj]) ho ho ?_
  rw [prospect?_of_get? hx, prospect?_of_get? hx', rootKey_update, hf]

/-- Taking a pin, or giving one back. -/
theorem prospect?_takePin (s : Store) (id : EntryId) (ho : o = none ∨ o = some id) :
    (s.update id Entry.takePin).prospect? b p o = s.prospect? b p o := by
  cases hx : s.get? id with
  | none => rw [update_of_none hx]
  | some e => exact prospect?_update hx ho (Entry.prospect?_takePin ..)

theorem prospect?_givePin (s : Store) (id : EntryId) (ho : o = none ∨ o = some id) :
    (s.update id Entry.givePin).prospect? b p o = s.prospect? b p o := by
  cases hx : s.get? id with
  | none => rw [update_of_none hx]
  | some e => exact prospect?_update hx ho (Entry.prospect?_givePin ..)

/-- An accepted entry is promoted. -/
theorem prospect?_promoted (hx : s.get? id = some e) (hw : e.state = .pending)
    (hv : e.verdict b s.rootKey = .ok ()) (ho : o = none ∨ o = some id)
    (hdue : o = some id ↔ e.origin = .requested ∨ p.exchangeUnsolicited) :
    (s.promoted id).prospect? b p o = s.prospect? b p none := by
  have hk : (s.promoted id).rootKey = s.rootKey := rootKey_update (f := Entry.accept)
  have hx' : (s.promoted id).get? id = some e.accept := by simp [get?_promoted, hx]
  refine prospect?_congr hk (fun j hj => by simp [get?_promoted, hj]) (.inl rfl) ho ?_
  rw [prospect?_of_get? hx, prospect?_of_get? hx', hk,
    Entry.prospect?_accept hw hv (by simpa using hdue)]
  simp

/-- A refused one is dropped. -/
theorem prospect?_discarded {reason : CryptoError} (hx : s.get? id = some e)
    (hw : e.state = .pending) (hv : e.verdict b s.rootKey = .error reason) :
    (s.discarded id).prospect? b p none = s.prospect? b p none := by
  have hget (j : EntryId) (hj : j ≠ id) : (s.discarded id).get? j = s.get? j := by
    simp [get?_discarded hx, hj]
  refine prospect?_congr rfl hget (.inl rfl) (.inl rfl) ?_
  rw [prospect?_of_none (by simp [get?_discarded hx]), prospect?_of_get? hx,
    Entry.prospect?_of_error hw hv]

/-- A new entry has the prospect of its certificate. -/
theorem prospect?_fill {free : List UInt32} {c : Certificate} {org : Origin}
    (hx : s.Vacant id.index) (j : EntryId) : (s.fill id free c org).prospect? b p o j =
      if j = id then ((Entry.fresh c org).after? b p s.rootKey).map Entry.profile
      else s.prospect? b p o j := by
  have hk : (s.fill id free c org).rootKey = s.rootKey := rfl
  unfold prospect?
  rw [get?_fill hx, hk]
  split <;> rfl

/-- There are the old prospects, and that of the new certificate if it is genuine. -/
theorem exists_prospect?_fill {free : List UInt32} {c : Certificate} {org : Origin} {pr : Profile}
    (hx : s.Vacant id.index) : (∃ j, (s.fill id free c org).prospect? b p o j = some pr) ↔
      (∃ j, s.prospect? b p o j = some pr) ∨
        s.Genuine b c ∧ ((Entry.fresh c org).settled b p).profile = pr := by
  constructor
  · rintro ⟨j, hj⟩
    rw [prospect?_fill hx] at hj
    split at hj
    · exact .inr (Entry.map_profile_after?_fresh.1 hj)
    · exact .inl ⟨j, hj⟩
  · rintro (⟨j, hj⟩ | hgenuine)
    · have hne : j ≠ id := by
        rintro rfl
        simp [prospect?_of_none (get?_of_vacant hx)] at hj
      exact ⟨j, by rwa [prospect?_fill hx, if_neg hne]⟩
    · refine ⟨id, ?_⟩
      rw [prospect?_fill hx, if_pos rfl]
      exact Entry.map_profile_after?_fresh.2 hgenuine

end Store

/-- A round owes nothing once its exchange is over. -/
theorem Round.owes?_ofExchange (id : EntryId) (subject : Eui64) (x : Exchange) :
    (ofExchange id subject x).owes? = if x.holds?.isSome then some id else none := by
  cases x with
  | finished result => cases result <;> rfl
  | pinned | agreeing | derived | settled | stopped => rfl

section moves

variable {b : Backend} {p : VerificationPolicy} {s s' : Store}

theorem Exchange.Move.prospect? {id : EntryId} {subject : Eui64} {x x' : Exchange}
    (hf : x.Fits b p.self s id) (hh : x.holds? = some id) (hx : s.Has id fun e => e.pins ≠ 0)
    (hv : s.Has id fun e => e.state = .verified ∧ e.subject = subject) (h : Move s x x' s') :
    s'.prospect? b p (Round.ofExchange id subject x').owes? = s.prospect? b p (some id) := by
  cases h with
  | read => rfl
  | unread hn | unattached hn | unpinGone hn => cases hh; exact absurd hn hx.ne_none
  | attach =>
    obtain ⟨rfl, e, hx, hk, rfl⟩ := hf
    refine Store.prospect?_update hx (.inr rfl) ?_
    simp [Entry.prospect?_attach hk (hv.of_get? hx).1, Round.owes?_ofExchange, Exchange.holds?]
  | overdrawn hn h0 => cases hh; exact absurd h0 (hx.of_get? hn)
  | @unpin i result =>
    obtain ⟨rfl, ht⟩ := hf
    have howes : (Round.ofExchange i subject (.finished result)).owes? = none :=
      Round.owes?_ofExchange ..
    obtain ⟨e, hx, hst, -⟩ := hv
    rw [howes, Store.prospect?_givePin s i (.inl rfl)]
    refine Store.prospect?_congr rfl (fun _ _ => rfl) (.inr rfl) (.inl rfl) ?_
    have hex : e.exchanged b p.self = e := by
      cases result with
      | ok => exact Entry.exchanged_of_agreed (Store.Has.of_get? ht hx)
      | error => exact Entry.exchanged_of_error (Store.Has.of_get? ht hx)
    rw [Store.prospect?_of_get? hx, Store.prospect?_of_get? hx]
    simp [Entry.prospect?, hst, hex]

/-- **One step of a round** changes no prospects. -/
theorem Round.Move.prospect? {r r' : Round} (hf : r.Fits b p s) (hc : r.Counted s)
    (h : Move p s r r' s') : s'.prospect? b p r'.owes? = s.prospect? b p r.owes? := by
  cases h with
  | idle | found | full | read => rfl
  | vanished h | unread h | gone h => exact absurd h (Store.Has.ne_none hf)
  | unpinGone h | missed h => exact absurd h hf.1.ne_none
  | @pin id => exact Store.prospect?_takePin s id (.inl rfl)
  | @unpin id => exact Store.prospect?_givePin s id (.inl rfl)
  | @pinAgain id => exact Store.prospect?_takePin s id (.inr rfl)
  | overdrawn h h0 =>
    have h1 := hc _ rfl _ h
    simp [holds?, h0] at h1
  | fullAgain h hm =>
    have h0 := (hc _ rfl _ h).symm.trans hm
    cases h0
  | reject =>
    obtain ⟨⟨e, hx, hw, rfl⟩, hv⟩ := hf
    rw [Store.discard_of_zero hx (hc _ rfl e hx)]
    exact Store.prospect?_discarded hx hw hv.symm
  | @accept id c e hx ho =>
    obtain ⟨⟨e, hx', hw, rfl⟩, hv⟩ := hf
    rw [hx', Option.some.injEq] at hx
    subst hx
    exact Store.prospect?_promoted hx' hw hv.symm (.inr rfl) (by simpa [owes?] using ho)
  | @acceptOnly id c e hx ho =>
    obtain ⟨⟨e, hx', hw, rfl⟩, hv⟩ := hf
    rw [hx', Option.some.injEq] at hx
    subst hx
    exact Store.prospect?_promoted hx' hw hv.symm (.inl rfl) (by simpa [owes?] using ho)
  | @exchange id subject x x' _ h =>
    have hpin := hc.has_pin hf hf.2.2
    obtain ⟨hv, hxf, hh⟩ := hf
    exact h.prospect? hxf hh hpin hv

end moves

end Vouch
