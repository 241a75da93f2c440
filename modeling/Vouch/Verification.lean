import Vouch.KeyExchange
/-!
# Verifying the queue

The pipeline takes the head of the queue, pins it so that it cannot be reclaimed meanwhile, has the
backend check the root's signature, gives the pin back, and promotes or discards the entry. A
promoted entry that was asked for goes through a key exchange at once; one that was not, only if the
node is told to. One such `Round` is a machine like `Exchange`: `step` makes the steps that need no
answer, and a round waits in the states `checking` and, within its exchange, `agreeing`.

* `rank_step`: every step brings a round closer to its end, so a round is never stuck but for an
  answer.
-/
namespace Vouch

/-- How a node treats the certificates it verifies. -/
structure VerificationPolicy where
  /-- The node's own identity. -/
  self : Eui64
  /-- Whether certificates that nobody asked for lead to a key exchange too. -/
  exchangeUnsolicited : Bool
  deriving DecidableEq, Repr

/-- What a round came to. -/
inductive RoundResult where
  /-- There was nothing to verify, or it went away. -/
  | nothing
  | verified (id : EntryId) (subject : Eui64) (established : Bool)
  | rejected (subject : Eui64) (reason : CryptoError)
  /-- Giving a pin back broke a promise. -/
  | stopped (m : PinMisuse)
  deriving DecidableEq, Repr

/-- Where a round stands. -/
inductive Round where
  /-- The queue has not been looked at. -/
  | ready
  | found (id : EntryId)
  | pinned (id : EntryId)
  /-- The backend checks the signature of the certificate that was read. -/
  | checking (id : EntryId) (c : Certificate) (rootKey : PublicKey)
  /-- The verdict is in; the pin is still held. -/
  | judged (id : EntryId) (c : Certificate) (verdict : Except CryptoError Unit)
  | released (id : EntryId) (c : Certificate) (verdict : Except CryptoError Unit)
  /-- Promoted, and a key exchange is due. -/
  | promoted (id : EntryId) (subject : Eui64)
  | exchanging (id : EntryId) (subject : Eui64) (x : Exchange)
  | finished (r : RoundResult)

namespace Round

def rank : Round → Nat
  | .ready => 12
  | .found _ => 11
  | .pinned _ => 10
  | .checking _ _ _ => 9
  | .judged _ _ _ => 8
  | .released _ _ _ => 7
  | .promoted _ _ => 6
  | .exchanging _ _ x => x.rank + 1
  | .finished _ => 0

/-- The state of a round whose exchange has got to `x`. -/
def ofExchange (id : EntryId) (subject : Eui64) : Exchange → Round
  | .finished (.ok ()) => .finished (.verified id subject true)
  | .finished (.error _) => .finished (.verified id subject false)
  | .stopped m => .finished (.stopped m)
  | x => .exchanging id subject x

/-- Drops an entry whose signature is not the root's. -/
def reject (id : EntryId) (subject : Eui64) (reason : CryptoError) (s : Store) :
    Round × Store × List Notice :=
  match s.discard id with
  | (.ok _, s) => (.finished (.rejected subject reason), s, [.signatureRejected])
  | (.error _, s) =>
    (.finished (.rejected subject reason), s, [.signatureRejected, .rejectedNotFreed])

/-- Promotes an entry whose signature is the root's. -/
def accept (p : VerificationPolicy) (id : EntryId) (subject : Eui64) (s : Store) :
    Round × Store × List Notice :=
  match s.promote id with
  | (.error _, s) => (.finished .nothing, s, [.promotionMissed])
  | (.ok (), s) =>
    match s.get? id with
    | none => (.finished .nothing, s, [.promotionMissed])
    | some e =>
      if e.origin = .requested ∨ p.exchangeUnsolicited then (.promoted id subject, s, [])
      else (.finished (.verified id subject false), s, [])

/-- The step a round makes by itself, if it is not waiting and not over. -/
def step (p : VerificationPolicy) (r : Round) (s : Store) : Option (Round × Store × List Notice) :=
  match r with
  | .ready =>
    match s.head? with
    | none => some (.finished .nothing, s, [])
    | some id => some (.found id, s, [])
  | .found id =>
    match s.pin id with
    | (.ok _, s) => some (.pinned id, s, [])
    | (.error (.misuse m), s) => some (.finished (.stopped m), s, [])
    | (.error (.unknownEntry _), s) => some (.finished .nothing, s, [.headVanished])
  | .pinned id =>
    match s.get? id with
    | none => some (.finished .nothing, s, [])
    | some e => some (.checking id e.certificate s.rootKey, s, [])
  | .checking _ _ _ => none
  | .judged id c verdict =>
    match s.dropGuard id with
    | (some m, s) => some (.finished (.stopped m), s, [])
    | (none, s) => some (.released id c verdict, s, [])
  | .released id c verdict =>
    match verdict with
    | .error reason => some (reject id c.subject reason s)
    | .ok () => some (accept p id c.subject s)
  | .promoted id subject =>
    match s.pin id with
    | (.ok _, s) => some (.exchanging id subject (.pinned id), s, [])
    | (.error (.misuse m), s) => some (.finished (.stopped m), s, [])
    | (.error (.unknownEntry _), s) =>
      some (.finished (.verified id subject false), s, [.entryNotPinned])
  | .exchanging id subject x =>
    match x.step s with
    | some (x, s) => some (ofExchange id subject x, s, [])
    | none => none
  | .finished _ => none

/-- Hands over the backend's verdict on the signature. -/
def judge (verdict : Except CryptoError Unit) : Round → Round
  | .checking id c _ => .judged id c verdict
  | r => r

/-- Hands over the secret that the backend agreed on. -/
def agree (self : Eui64) (secret : Except CryptoError SharedSecret) : Round → Round
  | .exchanging id subject x => .exchanging id subject (x.answer self secret)
  | r => r

theorem rank_ofExchange (id : EntryId) (subject : Eui64) (x : Exchange) :
    (ofExchange id subject x).rank ≤ x.rank + 1 := by
  unfold ofExchange
  split <;> simp [rank]

theorem rank_accept (p : VerificationPolicy) (id : EntryId) (subject : Eui64) (s : Store) :
    (accept p id subject s).1.rank ≤ 6 := by
  unfold accept
  repeat' split
  all_goals simp [rank]

theorem rank_reject (id : EntryId) (subject : Eui64) (reason : CryptoError) (s : Store) :
    (reject id subject reason s).1.rank = 0 := by
  unfold reject
  split <;> rfl

theorem rank_step {p : VerificationPolicy} {r r' : Round} {s s' : Store} {ns : List Notice}
    (h : r.step p s = some (r', s', ns)) : r'.rank < r.rank := by
  cases r with
  | ready | found | pinned | judged | promoted =>
    simp only [step] at h
    split at h <;> (obtain ⟨rfl, rfl, rfl⟩ := h; simp [rank, Exchange.rank])
  | checking | finished => simp [step] at h
  | released id c verdict =>
    cases verdict with
    | error reason =>
      have hr := rank_reject id c.subject reason s
      simp only [step, Option.some.injEq] at h
      simp only [h] at hr
      rw [hr]
      exact Nat.zero_lt_succ 6
    | ok =>
      have hr := rank_accept p id c.subject s
      simp only [step, Option.some.injEq] at h
      simp only [h] at hr
      exact Nat.lt_succ_of_le hr
  | exchanging id subject x =>
    simp only [step] at h
    split at h
    · rename_i x' s'' hx
      have h1 := Exchange.rank_step hx
      have h2 := rank_ofExchange id subject x'
      obtain ⟨rfl, rfl, rfl⟩ := h
      show (ofExchange id subject x').rank < x.rank + 1
      omega
    · cases h

/-- The steps up to the next wait or the end. -/
def settle (p : VerificationPolicy) (r : Round) (s : Store) : Round × Store × List Notice :=
  match h : r.step p s with
  | some (r', s', ns) =>
    have := rank_step h
    let (r'', s'', more) := r'.settle p s'
    (r'', s'', ns ++ more)
  | none => (r, s, [])
termination_by r.rank

end Round
end Vouch
