import Vouch.KeyRequest
import Vouch.TimedLock
/-!
# What a request sends

A `Flight` is a request under way, with the token of the lock that it was started under. Its message goes
to the key server when the node's signature comes, and it is signed once: so it has sent none or one, and
which of the two can be told from where it stands, unless a signature has failed (`Flight.Sent`).

* `Flight.posts_cases`: what an answer makes a request send.
* `Flight.Sent.hear`, `Flight.Sent.settle`: what a request has sent, through every answer and when it
  settles.
-/
namespace Vouch

/-! ## Answers -/

/-- An answer to a request. -/
inductive Word where
  | signature (sig : Except CryptoError Signature)
  | reply (reply : Reply)
  | verdict (verdict : Except CryptoError Unit)

namespace Request

def hear (r : Request) : Word → Request
  | .signature sig => r.sign sig
  | .reply reply => r.reply reply
  | .verdict verdict => r.judge verdict

/-- The request shows that its message has been sent. Where a signature has failed it does not show: that
may have been the node's own or the root's. -/
def isOut : Request → Bool
  | .signing _ => false
  | .finished (.error (.crypto _)) => false
  | _ => true

/-- A request does not go back to where nothing has been sent. -/
theorem signing_of_hear {r : Request} {w : Word} {a : Address} (h : r.hear w = .signing a) :
    r = .signing a := by
  cases r with
  | signing a' =>
    cases w with
    | signature sig => cases sig <;> cases h
    | reply | verdict => exact h
  | waiting =>
    cases w with
    | reply reply =>
      simp only [hear, Request.reply] at h
      repeat' split at h
      all_goals cases h
    | signature | verdict => cases h
  | checking =>
    cases w with
    | verdict v => cases v <;> cases h
    | signature | reply => cases h
  | confirmed | finished => cases w <;> cases h

/-- Nothing but a signature brings a request to where its message has been sent. -/
theorem isOut_of_hear {r : Request} {w : Word} (h : (r.hear w).isOut = true) :
    r.isOut = true ∨ ∃ a sig, r = .signing a ∧ w = .signature (.ok sig) := by
  cases r with
  | signing a =>
    cases w with
    | signature answer =>
      cases answer with
      | ok sig => exact .inr ⟨a, sig, rfl, rfl⟩
      | error e => cases h
    | reply | verdict => cases h
  | waiting | checking | confirmed => exact .inl rfl
  | finished => exact .inl (by cases w <;> exact h)

/-- All that a request has waited for has come. -/
def Ends (r : Request) : Prop := (∃ record, r = .confirmed record) ∨ ∃ result, r = .finished result

theorem finished_of_settle {r : Request} (h : r.Ends) (s : Store) :
    ∃ result, (r.settle s).1 = .finished result := by
  rcases h with ⟨record, rfl⟩ | ⟨result, rfl⟩
  · simp only [settle]
    repeat' split
    all_goals exact ⟨_, rfl⟩
  · exact ⟨result, rfl⟩

/-- Settling is the last step. -/
theorem settle_eq_or (r : Request) (s : Store) : (r.settle s).1 = r ∨
    (∃ record, r = .confirmed record) ∧ ∃ result, (r.settle s).1 = .finished result := by
  cases r with
  | confirmed record => exact .inr ⟨⟨record, rfl⟩, finished_of_settle (.inl ⟨record, rfl⟩) s⟩
  | signing | waiting | checking | finished => exact .inl rfl

end Request

/-! ## Messages -/

/-- A message that has gone to the key server, and the token of its request. -/
structure Posting where
  token : LockToken
  destination : Address
  payload : Bytes
  deriving DecidableEq, Repr

/-- A request under way, with the token it was started under, the time, and the peer it asks for. -/
structure Flight where
  token : LockToken
  started : Nat
  peer : Address
  request : Request

namespace Flight

variable {f : Flight} {ms : List Posting}

def hear (f : Flight) (w : Word) : Flight := { f with request := f.request.hear w }

theorem hear_signature {a : Address} (h : f.request = .signing a)
    (answer : Except CryptoError Signature) :
    f.hear (.signature answer) = { f with request := (Request.signing a).sign answer } := by
  rw [hear, h]
  rfl

/-- What an answer makes a request send: the message that it waits for an answer to now, if it did not
before. -/
def posts (f : Flight) (s : Store) (w : Word) : List Posting :=
  match f.request.job? s, (f.request.hear w).job? s with
  | some (.send _ _), _ => []
  | _, some (.send destination payload) => [⟨f.token, destination, payload⟩]
  | _, _ => []

/-- A signature makes a request send the address of the peer and the signature to the root. -/
theorem posts_of_signing {a : Address} (h : f.request = .signing a) (s : Store) (sig : Signature) :
    f.posts s (.signature (.ok sig)) = [⟨f.token, s.rootAddress, requestPayload a sig⟩] := by
  rw [posts, h]
  rfl

theorem posts_of_unsigned {a : Address} (h : f.request = .signing a) (s : Store) {w : Word}
    (hw : ∀ sig, w ≠ .signature (.ok sig)) : f.posts s w = [] := by
  rw [posts, h]
  cases w with
  | signature answer =>
    cases answer with
    | ok sig => exact absurd rfl (hw sig)
    | error e => rfl
  | reply | verdict => rfl

/-- Once it is signed, a request sends nothing more. -/
theorem posts_of_signed (h : ∀ a, f.request ≠ .signing a) (s : Store) (w : Word) :
    f.posts s w = [] := by
  unfold posts
  cases hr : f.request with
  | signing a => exact absurd hr (h a)
  | waiting => rfl
  | checking =>
    cases w with
    | verdict v => cases v <;> rfl
    | signature | reply => rfl
  | confirmed | finished => cases w <;> rfl

theorem posts_cases (f : Flight) (s : Store) (w : Word) : f.posts s w = [] ∨
    ∃ a sig, f.request = .signing a ∧ w = .signature (.ok sig) ∧
      f.posts s w = [⟨f.token, s.rootAddress, requestPayload a sig⟩] := by
  by_cases hr : ∃ a, f.request = .signing a
  · obtain ⟨a, hr⟩ := hr
    by_cases hw : ∃ sig, w = .signature (.ok sig)
    · obtain ⟨sig, rfl⟩ := hw
      exact .inr ⟨a, sig, hr, rfl, posts_of_signing hr s sig⟩
    · exact .inl (posts_of_unsigned hr s fun sig h => hw ⟨sig, h⟩)
  · exact .inl (posts_of_signed (fun a h => hr ⟨a, h⟩) s w)

theorem token_of_posts {s : Store} {w : Word} : ∀ m ∈ f.posts s w, m.token = f.token := by
  intro m hm
  rcases f.posts_cases s w with h | ⟨a, sig, -, -, h⟩
  · rw [h] at hm
    exact absurd hm List.not_mem_nil
  · rw [h] at hm
    rw [List.mem_singleton.1 hm]

/-- What a request has sent: one message for its peer at most, none while its signature is awaited, and
one if that shows. -/
structure Sent (f : Flight) (ms : List Posting) : Prop where
  once : ms = [] ∨ ∃ root sig, ms = [⟨f.token, root, requestPayload f.peer sig⟩]
  unsigned : ∀ a, f.request = .signing a → a = f.peer ∧ ms = []
  out : f.request.isOut = true → ms ≠ []

theorem Sent.length_le (h : f.Sent ms) : ms.length ≤ 1 := by
  rcases h.once with rfl | ⟨root, sig, rfl⟩
  · exact Nat.zero_le 1
  · exact Nat.le_refl 1

/-- The request gets further and sends nothing. -/
theorem Sent.further (h : f.Sent ms) {r : Request} (hsigning : ∀ a, r = .signing a → f.request = r)
    (hout : r.isOut = true → f.request.isOut = true) : Sent { f with request := r } ms :=
  ⟨h.once, fun a ha => h.unsigned a ((hsigning a ha).trans ha), fun hr => h.out (hout hr)⟩

/-- **Each answer** sends at most what has to be sent. -/
theorem Sent.hear (h : f.Sent ms) (s : Store) (w : Word) : (f.hear w).Sent (ms ++ f.posts s w) := by
  rcases f.posts_cases s w with hposts | ⟨a, sig, hr, rfl, hposts⟩
  · rw [hposts, List.append_nil]
    refine h.further (fun a ha => (Request.signing_of_hear ha).trans ha.symm) fun hout => ?_
    rcases Request.isOut_of_hear hout with hout | ⟨a, sig, hr, rfl⟩
    · exact hout
    · rw [posts_of_signing hr] at hposts
      cases hposts
  · obtain ⟨rfl, rfl⟩ := h.unsigned a hr
    rw [hposts, List.nil_append, hear_signature hr]
    exact ⟨.inr ⟨s.rootAddress, sig, rfl⟩, fun a ha => (by cases ha), fun _ => List.cons_ne_nil _ _⟩

theorem Sent.settle (h : f.Sent ms) (s : Store) :
    Sent { f with request := (f.request.settle s).1 } ms := by
  rcases f.request.settle_eq_or s with hr | ⟨⟨record, hr⟩, result, hsettle⟩
  · rw [hr]
    exact h
  · rw [hsettle]
    exact h.further (fun a ha => by cases ha) fun _ => by rw [hr]; rfl

end Flight

end Vouch
