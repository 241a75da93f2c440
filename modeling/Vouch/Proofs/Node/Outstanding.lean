import Vouch.Node
import Vouch.Proofs.Node.Flight
import Vouch.Proofs.Node.Lock
import Vouch.Proofs.Store.Lookup
import Mathlib.Data.List.Nodup
/-!
# One outstanding request

`traffic` is a node that is called for any peers at any times, with the requests that the calls have
started and the messages that these have sent to the key server. A request may be answered at any time,
in any order with the others and with any result, or never, and the store may change in any way
meanwhile. The lock is all that keeps requests apart: a request holds it until it is over or the timeout
has passed, and the one that is started then holds it under a token of its own.

* `Sound.step`: which requests the lock counts and what they have sent, through every event.
* `posted_of_step`: only a signature makes anything be sent.
* `outstanding_of_reachable`: at most one request is younger than the timeout, a call is turned away
  exactly while there is one and starts a request otherwise, a request sends one message once it is
  signed, and one that ends late leaves the lock of a later one alone.
-/
namespace Vouch

/-! ## Calls -/

/-- What makes a node look for a peer's certificate. -/
inductive Call where
  /-- It is told to. -/
  | request
  /-- A secured message has come from a sender without a context. -/
  | missingContext
  deriving DecidableEq, Repr

namespace Node

def call (n : Node) (now : Nat) (a : Address) : Call → RequestOutcome × Node × List Notice
  | .request => n.request now a
  | .missingContext => n.missingContext now a

variable {n : Node} {now : Nat} {a : Address} {id : EntryId}

theorem request_of_known (h : n.store.findAddress? a = some id) :
    n.request now a = (.alreadyKnown, n, []) := by
  simp [request, h]

/-- Without a verified certificate both calls do the same. -/
theorem call_of_unknown (h : n.store.findAddress? a = none) (k : Call) :
    n.call now a k = n.request now a := by
  cases k with
  | request => rfl
  | missingContext =>
    have hnone : n.withoutContext? a = none := by rw [withoutContext?, h]
    simp only [call, missingContext, hnone]

theorem call_of_locked (h : n.store.findAddress? a = none) (hl : n.lock.isLocked now = true)
    (k : Call) : ∃ ns, n.call now a k = (.busy, n, ns) := by
  rw [call_of_unknown h, request, h, TimedLock.tryLock_of_locked hl]
  exact ⟨_, rfl⟩

theorem call_of_free (h : n.store.findAddress? a = none) (hl : n.lock.isLocked now = false)
    (k : Call) : ∃ ns, n.call now a k =
      (.sent ⟨n.lock.nextGeneration⟩ (.signing a), { n with lock := n.lock.taken now }, ns) := by
  rw [call_of_unknown h, request, h, TimedLock.tryLock_of_free hl]
  exact ⟨_, rfl⟩

theorem store_of_pin_error {s s' : Store} {err : PinError} (h : s.pin id = (.error err, s')) :
    s' = s := by
  unfold Store.pin at h
  repeat' split at h
  all_goals cases h
  all_goals rfl

/-- For a verified peer nothing is sent, and the lock is not looked at. -/
theorem call_of_known (now : Nat) (h : n.store.findAddress? a = some id) (k : Call) :
    ∃ o s ns, n.call now a k = (o, { n with store := s }, ns) ∧
      (o = .alreadyKnown ∨ ∃ x, o = .exchanging x) := by
  cases k with
  | request => exact ⟨_, n.store, _, request_of_known h, .inl rfl⟩
  | missingContext =>
    simp only [call, missingContext]
    split
    · exact ⟨_, n.store, _, request_of_known h, .inl rfl⟩
    · rename_i j _
      split
      · exact ⟨_, _, _, rfl, .inr ⟨_, rfl⟩⟩
      · rename_i hpin
        rw [store_of_pin_error hpin, request_of_known h]
        exact ⟨_, n.store, _, rfl, .inl rfl⟩

end Node

/-- Whatever a request comes to, the lock is given back. -/
theorem Node.settleRequest_of_ends {r : Request} (h : r.Ends) (n : Node) (token : LockToken) :
    ∃ result n' ns, n.settleRequest token r = (.finished result, n', ns) ∧
      n'.lock = (n.lock.unlock token).2 := by
  obtain ⟨result, hr⟩ := Request.finished_of_settle h n.store
  rcases hsettle : r.settle n.store with ⟨r', s, ns⟩
  rw [hsettle] at hr
  subst hr
  cases result with
  | ok o => exact ⟨.ok o, _, _, by rw [settleRequest, hsettle], rfl⟩
  | error e => exact ⟨.error e, _, _, by rw [settleRequest, hsettle], rfl⟩

theorem Node.ends_of_settleRequest {r : Request} {n n' : Node} {token : LockToken}
    {result : Except RequestError AddOutcome} {ns : List Notice}
    (h : n.settleRequest token r = (.finished result, n', ns)) : r.Ends := by
  cases r with
  | signing | waiting | checking => cases h
  | confirmed record => exact .inl ⟨record, rfl⟩
  | finished result => exact .inr ⟨result, rfl⟩

/-! ## Requests under way -/

/-- A node, the time, the requests under way, and the messages that have gone to the key server. -/
structure Traffic where
  node : Node
  now : Nat
  flights : List Flight
  posted : List Posting

namespace Traffic

inductive Event where
  | wait (d : Nat)
  /-- Other work of the node. -/
  | meanwhile (s : Store) (permit : Bool)
  | call (k : Call) (a : Address)
  /-- A request under way gets an answer. -/
  | hear (i : Nat) (w : Word)
  /-- The certificate that a request has brought is added. -/
  | take (i : Nat)
  /-- A request is over and gives the lock back. -/
  | complete (i : Nat)

def step (t : Traffic) : Event → Option Traffic
  | .wait d => some { t with now := t.now + d }
  | .meanwhile s permit => some { t with node := { t.node with store := s, permit := permit } }
  | .call k a =>
    match t.node.call t.now a k with
    | (.sent token r, n, _) =>
      some { t with node := n, flights := t.flights ++ [⟨token, t.now, a, r⟩] }
    | (_, n, _) => some { t with node := n }
  | .hear i w => t.flights[i]?.map fun f => { t with
      flights := t.flights.set i (f.hear w)
      posted := t.posted ++ f.posts t.node.store w }
  | .take i => t.flights[i]?.map fun f => { t with
      node := { t.node with store := (f.request.settle t.node.store).2.1 }
      flights := t.flights.set i { f with request := (f.request.settle t.node.store).1 } }
  | .complete i =>
    match t.flights[i]? with
    | some f =>
      match t.node.settleRequest f.token f.request with
      | (.finished _, n, _) => some { t with node := n, flights := t.flights.eraseIdx i }
      | _ => none
    | none => none

theorem step_hear {t : Traffic} {f : Flight} {i : Nat} (hf : t.flights[i]? = some f) (w : Word) :
    t.step (.hear i w) = some { t with
      flights := t.flights.set i (f.hear w)
      posted := t.posted ++ f.posts t.node.store w } := by
  rw [step, hf, Option.map_some]

/-- A request for the peer has been started. -/
def started (t : Traffic) (a : Address) : Traffic :=
  { t with
    node := { t.node with lock := t.node.lock.taken t.now }
    flights := t.flights ++ [⟨⟨t.node.lock.nextGeneration⟩, t.now, a, .signing a⟩] }

/-- The request was started less than the timeout ago. -/
def Fresh (t : Traffic) (limit : Nat) (f : Flight) : Prop := t.now < f.started + limit

instance (t : Traffic) (limit : Nat) (f : Flight) : Decidable (t.Fresh limit f) :=
  inferInstanceAs (Decidable (_ < _))

/-- No request was started after it. -/
def Latest (t : Traffic) (f : Flight) : Prop :=
  f.token.generation + 1 = t.node.lock.nextGeneration

/-- The messages of the request that was started under a token. -/
def messages (t : Traffic) (token : LockToken) : List Posting :=
  t.posted.filter fun m => m.token = token

/-- What the lock says of the requests under way, and what they have sent. -/
structure Sound (limit : Nat) (t : Traffic) : Prop where
  timeout : t.node.lock.timeout = limit
  distinct : (t.flights.map Flight.token).Nodup
  issued : ∀ f ∈ t.flights, f.token.generation < t.node.lock.nextGeneration
  held : ∀ h, t.node.lock.holder = some h → ∃ f ∈ t.flights,
    t.Latest f ∧ h = ⟨f.token.generation, f.started + limit⟩
  latest : ∀ f ∈ t.flights, t.Latest f →
    t.node.lock.holder = some ⟨f.token.generation, f.started + limit⟩
  fresh : ∀ f ∈ t.flights, t.Fresh limit f → t.Latest f
  known : ∀ m ∈ t.posted, m.token.generation < t.node.lock.nextGeneration
  once : ∀ token, (t.messages token).length ≤ 1
  sent : ∀ f ∈ t.flights, f.Sent (t.messages f.token)

variable {limit : Nat} {t t' : Traffic} {f g : Flight} {i j : Nat}

/-- A request is known by its token. -/
theorem Sound.token_ne (h : t.Sound limit) (hf : t.flights[i]? = some f) (hg : t.flights[j]? = some g)
    (hij : j ≠ i) : g.token ≠ f.token := by
  intro htoken
  obtain ⟨hlt, -⟩ := List.getElem?_eq_some_iff.1 hg
  refine hij ((List.getElem?_inj (by rwa [List.length_map]) h.distinct).1 ?_)
  rw [List.getElem?_map, List.getElem?_map, hf, hg, Option.map_some, Option.map_some, htoken]

/-- Under a token that has not been handed out nothing has been sent. -/
theorem Sound.messages_eq_nil (h : t.Sound limit) {token : LockToken}
    (hnew : t.node.lock.nextGeneration ≤ token.generation) : t.messages token = [] := by
  refine List.filter_eq_nil_iff.2 fun m hm htoken => ?_
  have hlt := h.known m hm
  rw [of_decide_eq_true htoken] at hlt
  exact absurd hlt (Nat.not_lt.2 hnew)

theorem mem_set {f' : Flight} (hg : g ∈ t.flights.set i f') :
    g = f' ∨ ∃ j, j ≠ i ∧ t.flights[j]? = some g := by
  obtain ⟨j, hj⟩ := List.mem_iff_getElem?.1 hg
  rw [List.getElem?_set] at hj
  split at hj
  · split at hj
    · exact .inl (Option.some.inj hj).symm
    · cases hj
  · rename_i hij
    exact .inr ⟨j, Ne.symm hij, hj⟩

/-- The lock is held exactly while a request is fresh. -/
theorem Sound.isLocked_iff (h : t.Sound limit) :
    t.node.lock.isLocked t.now = true ↔ ∃ f ∈ t.flights, t.Fresh limit f := by
  rw [TimedLock.isLocked_iff]
  constructor
  · rintro ⟨holder, hh, hlt⟩
    obtain ⟨f, hf, -, rfl⟩ := h.held holder hh
    exact ⟨f, hf, hlt⟩
  · rintro ⟨f, hf, hfresh⟩
    exact ⟨_, h.latest f hf (h.fresh f hf hfresh), hfresh⟩

/-! ## What events keep -/

theorem Sound.wait (h : t.Sound limit) (d : Nat) : Sound limit { t with now := t.now + d } := by
  refine ⟨h.timeout, h.distinct, h.issued, h.held, h.latest, fun f hf hfresh => ?_, h.known, h.once,
    h.sent⟩
  have hlt : t.now + d < f.started + limit := hfresh
  exact h.fresh f hf (show t.now < f.started + limit by omega)

theorem Sound.meanwhile (h : t.Sound limit) (s : Store) (permit : Bool) :
    Sound limit { t with node := { t.node with store := s, permit := permit } } :=
  ⟨h.timeout, h.distinct, h.issued, h.held, h.latest, h.fresh, h.known, h.once, h.sent⟩

/-- A new request takes the lock, which nobody holds any more. -/
theorem Sound.start (h : t.Sound limit) (hl : t.node.lock.isLocked t.now = false) (a : Address) :
    (t.started a).Sound limit := by
  have hcases {f : Flight} (hf : f ∈ (t.started a).flights) :
      f ∈ t.flights ∧ f.token.generation < t.node.lock.nextGeneration ∨
        f = ⟨⟨t.node.lock.nextGeneration⟩, t.now, a, .signing a⟩ := by
    rcases List.mem_append.1 hf with hf | hf
    · exact .inl ⟨hf, h.issued f hf⟩
    · exact .inr (List.mem_singleton.1 hf)
  refine ⟨h.timeout, ?_, fun f hf => ?_, fun holder hh => ?_, fun f hf hlast => ?_,
    fun f hf hfresh => ?_, fun m hm => Nat.lt_succ_of_lt (h.known m hm), h.once, fun f hf => ?_⟩
  · rw [started, List.map_append, List.nodup_append]
    refine ⟨h.distinct, List.nodup_singleton _, fun token hm token' hm' => ?_⟩
    obtain ⟨f, hf, rfl⟩ := List.mem_map.1 hm
    have hlt := h.issued f hf
    rw [List.map_singleton, List.mem_singleton] at hm'
    rintro rfl
    rw [hm'] at hlt
    exact Nat.lt_irrefl _ hlt
  · rcases hcases hf with ⟨-, hlt⟩ | rfl
    · exact Nat.lt_succ_of_lt hlt
    · exact Nat.lt_succ_self _
  · cases hh
    exact ⟨_, List.mem_append_right _ List.mem_cons_self, rfl, by rw [h.timeout]⟩
  · rcases hcases hf with ⟨-, hlt⟩ | rfl
    · have hgen : f.token.generation + 1 = t.node.lock.nextGeneration + 1 := hlast
      omega
    · show some _ = some _
      rw [h.timeout]
  · rcases hcases hf with ⟨hf, -⟩ | rfl
    · have hlocked := h.isLocked_iff.2 ⟨f, hf, hfresh⟩
      rw [hl] at hlocked
      cases hlocked
    · rfl
  · rcases hcases hf with ⟨hf, -⟩ | rfl
    · exact h.sent f hf
    · have hnone : t.messages ⟨t.node.lock.nextGeneration⟩ = [] := h.messages_eq_nil (Nat.le_refl _)
      refine ⟨.inl hnone, fun a' ha => ?_, fun hout => by cases hout⟩
      cases ha
      exact ⟨rfl, hnone⟩

/-- A call starts a request, or it does not; it does only for an unverified peer, and while no request
is fresh. -/
theorem call_cases (t : Traffic) (k : Call) (a : Address) :
    (∃ id s, t.node.store.findAddress? a = some id ∧
      t.step (.call k a) = some { t with node := { t.node with store := s } }) ∨
    (t.node.store.findAddress? a = none ∧ t.node.lock.isLocked t.now = true ∧
      t.step (.call k a) = some t) ∨
    (t.node.store.findAddress? a = none ∧ t.node.lock.isLocked t.now = false ∧
      t.step (.call k a) = some (t.started a)) := by
  cases hx : t.node.store.findAddress? a with
  | some id =>
    obtain ⟨o, s, ns, hcall, ho⟩ := Node.call_of_known t.now hx k
    refine .inl ⟨id, s, rfl, ?_⟩
    rcases ho with rfl | ⟨x, rfl⟩ <;> simp only [step, hcall]
  | none =>
    cases hl : t.node.lock.isLocked t.now with
    | true =>
      obtain ⟨ns, hcall⟩ := Node.call_of_locked hx hl k
      exact .inr (.inl ⟨rfl, rfl, by simp only [step, hcall]⟩)
    | false =>
      obtain ⟨ns, hcall⟩ := Node.call_of_free hx hl k
      exact .inr (.inr ⟨rfl, rfl, by simp only [step, hcall, started]⟩)

theorem Sound.call (h : t.Sound limit) {k : Call} {a : Address} (hstep : t.step (.call k a) = some t') :
    t'.Sound limit := by
  rcases call_cases t k a with ⟨id, s, -, hs⟩ | ⟨-, -, hs⟩ | ⟨-, hl, hs⟩
  · rw [hstep, Option.some.injEq] at hs
    exact hs ▸ h.meanwhile s t.node.permit
  · rw [hstep, Option.some.injEq] at hs
    exact hs ▸ h
  · rw [hstep, Option.some.injEq] at hs
    exact hs ▸ h.start hl a

theorem messages_append_self {more : List Posting} {token : LockToken}
    (hmore : ∀ m ∈ more, m.token = token) :
    messages { t with posted := t.posted ++ more } token = t.messages token ++ more := by
  rw [messages, List.filter_append, List.filter_eq_self.2 fun m hm => decide_eq_true (hmore m hm)]
  rfl

theorem messages_append_of_ne {more : List Posting} {token other : LockToken}
    (hmore : ∀ m ∈ more, m.token = token) (hne : other ≠ token) :
    messages { t with posted := t.posted ++ more } other = t.messages other := by
  have hnone : more.filter (fun m => m.token = other) = [] :=
    List.filter_eq_nil_iff.2 fun m hm heq => hne ((of_decide_eq_true heq).symm.trans (hmore m hm))
  rw [messages, List.filter_append, hnone, List.append_nil]
  rfl

/-- A request gets further, and may send its message. -/
theorem Sound.set (h : t.Sound limit) (hf : t.flights[i]? = some f) (s : Store) (r : Request)
    {more : List Posting} (hmore : ∀ m ∈ more, m.token = f.token)
    (hsent : Flight.Sent { f with request := r } (t.messages f.token ++ more)) :
    Sound limit { t with
      node := { t.node with store := s }
      flights := t.flights.set i { f with request := r }
      posted := t.posted ++ more } := by
  have hfm : f ∈ t.flights := List.mem_of_getElem? hf
  obtain ⟨hi, hfi⟩ := List.getElem?_eq_some_iff.1 hf
  have htokens : (t.flights.set i { f with request := r }).map Flight.token =
      t.flights.map Flight.token := by
    refine List.ext_getElem? fun j => ?_
    rw [List.getElem?_map, List.getElem?_map, List.getElem?_set]
    by_cases hij : i = j
    · subst hij
      simp [hfi, hi]
    · rw [if_neg hij]
  have hcases {g : Flight} (hg : g ∈ t.flights.set i { f with request := r }) :
      g = { f with request := r } ∨ g ∈ t.flights ∧ g.token ≠ f.token := by
    rcases mem_set hg with rfl | ⟨j, hij, hj⟩
    · exact .inl rfl
    · exact .inr ⟨List.mem_of_getElem? hj, h.token_ne hf hj hij⟩
  refine ⟨h.timeout, ?_, fun g hg => ?_, fun holder hh => ?_, fun g hg hlast => ?_,
    fun g hg hfresh => ?_, fun m hm => ?_, fun token => ?_, fun g hg => ?_⟩
  · rw [htokens]
    exact h.distinct
  · rcases hcases hg with rfl | ⟨hg, -⟩
    · exact h.issued f hfm
    · exact h.issued g hg
  · obtain ⟨g, hg, hlast, hgen⟩ := h.held holder hh
    obtain ⟨j, hj⟩ := List.mem_iff_getElem?.1 hg
    by_cases hij : i = j
    · subst hij
      rw [hf, Option.some.injEq] at hj
      subst hj
      exact ⟨_, List.mem_set hi _, hlast, hgen⟩
    · exact ⟨g, List.mem_iff_getElem?.2 ⟨j, by rw [List.getElem?_set_ne hij, hj]⟩, hlast, hgen⟩
  · rcases hcases hg with rfl | ⟨hg, -⟩
    · exact h.latest f hfm hlast
    · exact h.latest g hg hlast
  · rcases hcases hg with rfl | ⟨hg, -⟩
    · exact h.fresh f hfm hfresh
    · exact h.fresh g hg hfresh
  · rcases List.mem_append.1 hm with hm | hm
    · exact h.known m hm
    · rw [hmore m hm]
      exact h.issued f hfm
  · show (messages { t with posted := t.posted ++ more } token).length ≤ 1
    by_cases htoken : token = f.token
    · rw [htoken, messages_append_self hmore]
      exact hsent.length_le
    · rw [messages_append_of_ne hmore htoken]
      exact h.once token
  · show g.Sent (messages { t with posted := t.posted ++ more } g.token)
    rcases hcases hg with rfl | ⟨hg, hne⟩
    · rw [messages_append_self hmore]
      exact hsent
    · rw [messages_append_of_ne hmore hne]
      exact h.sent g hg

theorem Sound.hear (h : t.Sound limit) (hf : t.flights[i]? = some f) (w : Word) :
    Sound limit { t with
      flights := t.flights.set i (f.hear w)
      posted := t.posted ++ f.posts t.node.store w } :=
  h.set hf t.node.store _ Flight.token_of_posts
    ((h.sent f (List.mem_of_getElem? hf)).hear t.node.store w)

theorem Sound.take (h : t.Sound limit) (hf : t.flights[i]? = some f) :
    Sound limit { t with
      node := { t.node with store := (f.request.settle t.node.store).2.1 }
      flights := t.flights.set i { f with request := (f.request.settle t.node.store).1 } } := by
  have hsent := (h.sent f (List.mem_of_getElem? hf)).settle t.node.store
  have hset := h.set hf (f.request.settle t.node.store).2.1 (f.request.settle t.node.store).1
    (fun m hm => absurd hm List.not_mem_nil) (by rwa [List.append_nil])
  rwa [List.append_nil] at hset

/-- The latest request has the lock or has lapsed with it; an earlier one has nothing to give back. -/
theorem Sound.unlock (h : t.Sound limit) (hf : f ∈ t.flights) :
    (t.Latest f → (t.node.lock.unlock f.token).2 = { t.node.lock with holder := none }) ∧
    (¬ t.Latest f → (t.node.lock.unlock f.token).2 = t.node.lock) := by
  refine ⟨fun hlast => ?_, fun hold => ?_⟩
  · rw [TimedLock.unlock_of_holder (h.latest f hf hlast) rfl]
  · rw [TimedLock.unlock_of_ne fun holder hh hgen => ?_]
    obtain ⟨g, -, hlast, rfl⟩ := h.held holder hh
    have hgen : g.token.generation = f.token.generation := hgen
    exact hold (show f.token.generation + 1 = t.node.lock.nextGeneration from hgen ▸ hlast)

/-- A request that is over gives the lock back, if it is still its own. -/
theorem Sound.complete (h : t.Sound limit) (hf : t.flights[i]? = some f) (n : Node)
    (hn : n.lock = (t.node.lock.unlock f.token).2) :
    Sound limit { t with node := n, flights := t.flights.eraseIdx i } := by
  have hfm : f ∈ t.flights := List.mem_of_getElem? hf
  have hrest {g : Flight} (hg : g ∈ t.flights.eraseIdx i) : g ∈ t.flights ∧ g.token ≠ f.token := by
    obtain ⟨j, hij, hj⟩ := List.mem_eraseIdx_iff_getElem?.1 hg
    exact ⟨List.mem_of_getElem? hj, h.token_ne hf hj hij⟩
  have hdistinct : ((t.flights.eraseIdx i).map Flight.token).Nodup :=
    h.distinct.sublist ((List.eraseIdx_sublist _ _).map _)
  have hnext : n.lock.nextGeneration = t.node.lock.nextGeneration ∧
      n.lock.timeout = t.node.lock.timeout := by
    rw [hn]
    unfold TimedLock.unlock
    repeat' split
    all_goals exact ⟨rfl, rfl⟩
  have hlatest {g : Flight} : Latest { t with node := n, flights := t.flights.eraseIdx i } g ↔
      t.Latest g := by
    rw [Latest, Latest, ← hnext.1]
  obtain ⟨hfirst, hother⟩ := h.unlock hfm
  refine ⟨hnext.2.trans h.timeout, hdistinct, fun g hg => hnext.1 ▸ h.issued g (hrest hg).1,
    fun holder hh => ?_, fun g hg hlast => ?_,
    fun g hg hfresh => hlatest.2 (h.fresh g (hrest hg).1 hfresh),
    fun m hm => hnext.1 ▸ h.known m hm, h.once, fun g hg => h.sent g (hrest hg).1⟩
  · have hh : n.lock.holder = some holder := hh
    by_cases hf' : t.Latest f
    · rw [hn, hfirst hf'] at hh
      cases hh
    · rw [hn, hother hf'] at hh
      obtain ⟨g, hg, hg', rfl⟩ := h.held holder hh
      obtain ⟨j, hj⟩ := List.mem_iff_getElem?.1 hg
      refine ⟨g, List.mem_eraseIdx_iff_getElem?.2 ⟨j, ?_, hj⟩, hlatest.2 hg', rfl⟩
      rintro rfl
      rw [hf, Option.some.injEq] at hj
      exact hf' (hj ▸ hg')
  · obtain ⟨hg, hne⟩ := hrest hg
    rw [hlatest] at hlast
    by_cases hf' : t.Latest f
    · -- There is only one latest request.
      have hgen : g.token.generation + 1 = f.token.generation + 1 := hlast.trans hf'.symm
      exact absurd (congrArg LockToken.mk (Nat.succ.inj hgen)) hne
    · show n.lock.holder = _
      rw [hn, hother hf']
      exact h.latest g hg hlast

/-- **Each event** keeps the lock and the requests under way in step. -/
theorem Sound.step {ev : Event} (h : t.Sound limit) (hstep : t.step ev = some t') : t'.Sound limit := by
  cases ev with
  | wait d =>
    cases hstep
    exact h.wait d
  | meanwhile s permit =>
    cases hstep
    exact h.meanwhile s permit
  | call k a => exact h.call hstep
  | hear i w =>
    obtain ⟨f, hf, rfl⟩ := Option.map_eq_some_iff.1 hstep
    exact h.hear hf w
  | take i =>
    obtain ⟨f, hf, rfl⟩ := Option.map_eq_some_iff.1 hstep
    exact h.take hf
  | complete i =>
    simp only [Traffic.step] at hstep
    split at hstep
    · rename_i f hf
      split at hstep
      · rename_i result n ns hsettle
        cases hstep
        obtain ⟨_, _, _, hsettle', hn⟩ :=
          Node.settleRequest_of_ends (Node.ends_of_settleRequest hsettle) t.node f.token
        rw [hsettle] at hsettle'
        cases hsettle'
        exact h.complete hf n hn
      · cases hstep
    · cases hstep

/-- Only a signature makes anything be sent, and that is the message it was asked for. -/
theorem posted_of_step {ev : Event} (hstep : t.step ev = some t') : t'.posted = t.posted ∨
    ∃ i f a sig, ev = .hear i (.signature (.ok sig)) ∧ t.flights[i]? = some f ∧
      f.request = .signing a ∧
      t'.posted = t.posted ++ [⟨f.token, t.node.store.rootAddress, requestPayload a sig⟩] := by
  cases ev with
  | wait | meanwhile =>
    cases hstep
    exact .inl rfl
  | call k a =>
    rcases call_cases t k a with ⟨id, s, -, hs⟩ | ⟨-, -, hs⟩ | ⟨-, -, hs⟩
    all_goals
      rw [hstep, Option.some.injEq] at hs
      exact .inl (hs ▸ rfl)
  | hear i w =>
    obtain ⟨f, hf, rfl⟩ := Option.map_eq_some_iff.1 hstep
    rcases f.posts_cases t.node.store w with hposts | ⟨a, sig, hr, rfl, hposts⟩
    · exact .inl (by rw [hposts, List.append_nil])
    · exact .inr ⟨i, f, a, sig, rfl, hf, hr, by rw [hposts]⟩
  | take i =>
    obtain ⟨f, hf, rfl⟩ := Option.map_eq_some_iff.1 hstep
    exact .inl rfl
  | complete i =>
    simp only [step] at hstep
    repeat' split at hstep
    all_goals cases hstep
    exact .inl rfl

end Traffic

/-- A node whose lock lapses after `limit`, with no request under way at first. -/
def traffic (limit : Nat) : System Traffic Traffic.Event where
  initial t := t.node.lock = .new limit ∧ t.flights = [] ∧ t.posted = []
  step := Traffic.step

namespace Traffic

variable {limit : Nat} {t t' : Traffic} {f g : Flight} {i j : Nat}

theorem Sound.of_reachable (h : (traffic limit).Reachable t) : t.Sound limit := by
  refine h.invariant ?_ fun t ev t' ht hstep => ht.step hstep
  rintro ⟨⟨store, permit, lock⟩, now, flights, posted⟩ ⟨rfl, rfl, rfl⟩
  refine ⟨rfl, List.nodup_nil, fun f hf => ?_, fun holder hh => ?_, fun f hf => ?_, fun f hf => ?_,
    fun m hm => ?_, fun token => Nat.zero_le 1, fun f hf => ?_⟩
  all_goals first
    | cases hh
    | exact absurd hf List.not_mem_nil
    | exact absurd hm List.not_mem_nil

/-- Two requests are never fresh at once. -/
theorem Sound.fresh_le_one (h : t.Sound limit) :
    (t.flights.filter fun f => t.Fresh limit f).length ≤ 1 := by
  have hsame : ∀ f ∈ t.flights.filter (fun f => t.Fresh limit f), ∀ g ∈ t.flights.filter
      (fun f => t.Fresh limit f), f.token = g.token := by
    intro f hf g hg
    obtain ⟨hf, hf'⟩ := List.mem_filter.1 hf
    obtain ⟨hg, hg'⟩ := List.mem_filter.1 hg
    have hflast := h.fresh f hf (of_decide_eq_true hf')
    have hglast := h.fresh g hg (of_decide_eq_true hg')
    exact congrArg LockToken.mk (Nat.succ.inj (hflast.trans hglast.symm))
  have hdistinct : ((t.flights.filter fun f => t.Fresh limit f).map Flight.token).Nodup :=
    h.distinct.sublist (List.filter_sublist.map _)
  match hl : t.flights.filter fun f => t.Fresh limit f with
  | [] => exact Nat.zero_le 1
  | [f] => exact Nat.le_refl 1
  | f :: g :: rest =>
    rw [hl] at hsame hdistinct
    have heq := hsame f List.mem_cons_self g (List.mem_cons_of_mem f List.mem_cons_self)
    simp [heq] at hdistinct

theorem Sound.messages_of_mem (h : t.Sound limit) {m : Posting} (hm : m ∈ t.posted) :
    t.messages m.token = [m] := by
  have hmem : m ∈ t.messages m.token := List.mem_filter.2 ⟨hm, decide_eq_true rfl⟩
  obtain ⟨m', hm'⟩ := List.length_eq_one_iff.1
    (Nat.le_antisymm (h.once m.token) (List.length_pos_of_mem hmem))
  rw [hm'] at hmem ⊢
  rw [List.mem_singleton.1 hmem]

/-- A message that was sent is the only one of its request ever after. -/
theorem Sound.messages_of_run (h : t.Sound limit) {m : Posting} (hm : m ∈ t.posted)
    {es : List Event} (hrun : (traffic limit).run t es = some t') : t'.messages m.token = [m] := by
  have hend := System.run_invariant (P := fun t => t.Sound limit ∧ m ∈ t.posted)
    (fun t ev t' ht hstep => ?_) ⟨h, hm⟩ hrun
  · exact hend.1.messages_of_mem hend.2
  · refine ⟨ht.1.step hstep, ?_⟩
    rcases posted_of_step hstep with hp | ⟨_, _, _, _, -, -, -, hp⟩
    · exact hp ▸ ht.2
    · exact hp ▸ List.mem_append_left _ ht.2

/-- **One outstanding request.** At every moment of every run at most one of the requests under way
was started less than `limit` ago. A call for a peer without a verified certificate is turned away
exactly while there is one, and otherwise starts one request, under a token that no other has had. Once
the node has signed it, the request sends the address of the peer and the signature to the root, and
nothing else at any time; if it cannot be signed nothing is sent, and nothing but a signature makes
anything be sent. A call for a verified peer starts none. A request that is over, whatever it came to,
gives the lock back if no later one was started, and if one was, leaves the lock as it is. -/
theorem outstanding_of_reachable (h : (traffic limit).Reachable t) :
    (t.flights.filter fun f => t.Fresh limit f).length ≤ 1 ∧
    (∀ k a, t.node.store.findAddress? a = none →
      ((t.node.call t.now a k).1 = .busy ↔ ∃ f ∈ t.flights, t.Fresh limit f) ∧
      ((∃ f ∈ t.flights, t.Fresh limit f) → t.step (.call k a) = some t) ∧
      ((¬ ∃ f ∈ t.flights, t.Fresh limit f) → ∃ token t',
        (t.node.call t.now a k).1 = .sent token (.signing a) ∧ t.step (.call k a) = some t' ∧
        t'.flights = t.flights ++ [⟨token, t.now, a, .signing a⟩] ∧ t'.posted = t.posted ∧
        t.messages token = [] ∧ ∀ f ∈ t.flights, f.token ≠ token)) ∧
    (∀ i f a, t.flights[i]? = some f → f.request = .signing a →
      t.messages f.token = [] ∧
      (∀ sig, ∃ t', t.step (.hear i (.signature (.ok sig))) = some t' ∧
        t'.flights = t.flights.set i { f with request := .waiting (requestPayload a sig) } ∧
        ∀ es t'', (traffic limit).run t' es = some t'' → t''.messages f.token =
          [⟨f.token, t.node.store.rootAddress, requestPayload a sig⟩]) ∧
      ∀ e, ∃ t', t.step (.hear i (.signature (.error e))) = some t' ∧
        t'.flights = t.flights.set i { f with request := .finished (.error (.crypto e)) } ∧
        t'.posted = t.posted) ∧
    (∀ ev t', t.step ev = some t' → t'.posted = t.posted ∨
      ∃ i f a sig, ev = .hear i (.signature (.ok sig)) ∧ t.flights[i]? = some f ∧
        f.request = .signing a ∧
        t'.posted = t.posted ++ [⟨f.token, t.node.store.rootAddress, requestPayload a sig⟩]) ∧
    ((∀ token, (t.messages token).length ≤ 1) ∧
      ∀ f ∈ t.flights, f.Sent (t.messages f.token)) ∧
    (∀ k a, t.node.store.findAddress? a ≠ none →
      ((t.node.call t.now a k).1 = .alreadyKnown ∨
        ∃ x, (t.node.call t.now a k).1 = .exchanging x) ∧
      ∃ t', t.step (.call k a) = some t' ∧ t'.flights = t.flights ∧ t'.posted = t.posted ∧
        t'.node.lock = t.node.lock) ∧
    (∀ i f, t.flights[i]? = some f → f.request.Ends → ∃ t', t.step (.complete i) = some t' ∧
      t'.flights = t.flights.eraseIdx i ∧
      (t.Latest f → t'.node.lock.holder = none) ∧ (¬ t.Latest f → t'.node.lock = t.node.lock)) := by
  have hs := Sound.of_reachable h
  refine ⟨hs.fresh_le_one, fun k a hx => ?_, fun i f a hf hr => ?_,
    fun ev t' hstep => posted_of_step hstep, ⟨hs.once, hs.sent⟩, fun k a hx => ?_,
    fun i f hf hends => ?_⟩
  · rw [← hs.isLocked_iff]
    cases hl : t.node.lock.isLocked t.now with
    | true =>
      obtain ⟨ns, hcall⟩ := Node.call_of_locked hx hl k
      refine ⟨by simp [hcall], fun _ => by simp only [step, hcall], fun hn => absurd rfl hn⟩
    | false =>
      obtain ⟨ns, hcall⟩ := Node.call_of_free hx hl k
      refine ⟨by simp [hcall], fun hl' => by simp at hl', fun _ => ?_⟩
      refine ⟨⟨t.node.lock.nextGeneration⟩, t.started a, by rw [hcall],
        by simp only [step, hcall, started], rfl, rfl, hs.messages_eq_nil (Nat.le_refl _),
        fun f hf htoken => ?_⟩
      have hlt := hs.issued f hf
      rw [htoken] at hlt
      exact Nat.lt_irrefl _ hlt
  · refine ⟨((hs.sent f (List.mem_of_getElem? hf)).unsigned a hr).2, fun sig => ?_, fun e => ?_⟩
    · have hstep := step_hear hf (.signature (.ok sig))
      rw [Flight.hear_signature hr, Flight.posts_of_signing hr] at hstep
      exact ⟨_, hstep, rfl, fun es t'' hrun => (hs.step hstep).messages_of_run
        (List.mem_append_right _ List.mem_cons_self) hrun⟩
    · have hstep := step_hear hf (.signature (.error e))
      rw [Flight.hear_signature hr, Flight.posts_of_unsigned hr _ fun sig => by simp,
        List.append_nil] at hstep
      exact ⟨_, hstep, rfl, rfl⟩
  · obtain ⟨id, hid⟩ := Option.ne_none_iff_exists'.1 hx
    obtain ⟨o, s, ns, hcall, ho⟩ := Node.call_of_known t.now hid k
    rw [hcall]
    refine ⟨ho, { t with node := { t.node with store := s } }, ?_, rfl, rfl, rfl⟩
    rcases ho with rfl | ⟨x, rfl⟩ <;> simp only [step, hcall]
  · obtain ⟨result, n, ns, hsettle, hn⟩ := Node.settleRequest_of_ends hends t.node f.token
    obtain ⟨hfirst, hother⟩ := hs.unlock (List.mem_of_getElem? hf)
    refine ⟨{ t with node := n, flights := t.flights.eraseIdx i }, by simp only [step, hf, hsettle],
      rfl, fun hlast => ?_, fun hold => ?_⟩
    · show n.lock.holder = none
      rw [hn, hfirst hlast]
    · show n.lock = t.node.lock
      rw [hn, hother hold]

/-- The answer to a request is lost until the timeout has passed and another request is started. -/
def lateReply : List Event :=
  [.call .request ⟨Vector.replicate 16 1⟩, .hear 0 (.signature (.ok ⟨Vector.replicate 64 0⟩)), .wait 5,
    .call .missingContext ⟨Vector.replicate 16 2⟩, .hear 0 (.reply (.error .timeout))]

theorem outstanding_after_lateReply : ∃ t t' t'',
    (traffic 5).run ⟨.new (.empty 1 ⟨Vector.replicate 16 0⟩ ⟨Vector.replicate 64 0⟩) 5, 0, [], []⟩
      lateReply = some t ∧
    t.step (.complete 0) = some t' ∧ t'.flights = t.flights.eraseIdx 0 ∧
    t'.node.lock = t.node.lock ∧
    (t.node.call t.now ⟨Vector.replicate 16 3⟩ .request).1 = .busy ∧
    t.step (.hear 1 (.signature (.ok ⟨Vector.replicate 64 1⟩))) = some t'' ∧
    t''.messages ⟨1⟩ = [⟨⟨1⟩, ⟨Vector.replicate 16 0⟩, List.replicate 16 2 ++ List.replicate 64 1⟩] := by
  have hrun : ∃ t f g,
      (traffic 5).run ⟨.new (.empty 1 ⟨Vector.replicate 16 0⟩ ⟨Vector.replicate 64 0⟩) 5, 0, [], []⟩
        lateReply = some t ∧
      t.flights = [f, g] ∧ f.request = .finished (.error (.transport .timeout)) ∧ f.token = ⟨0⟩ ∧
      t.node.lock.nextGeneration = 2 ∧ g.request = .signing ⟨Vector.replicate 16 2⟩ ∧ g.token = ⟨1⟩ ∧
      t.Fresh 5 g ∧ t.node.store = .empty 1 ⟨Vector.replicate 16 0⟩ ⟨Vector.replicate 64 0⟩ :=
    ⟨_, _, _, rfl, rfl, rfl, rfl, rfl, rfl, rfl, by decide, rfl⟩
  obtain ⟨t, f, g, ht, hflights, hend, hf, hnext, hsigning, hg, hfresh, hstore⟩ := hrun
  obtain ⟨-, hcall, hsend, -, -, -, hcomplete⟩ :=
    outstanding_of_reachable ⟨_, lateReply, ⟨rfl, rfl, rfl⟩, ht⟩
  have hold : ¬ t.Latest f := by simp [Latest, hf, hnext]
  obtain ⟨t', hstep, hrest, -, hlock⟩ := hcomplete 0 f (by rw [hflights]; rfl) (.inr ⟨_, hend⟩)
  obtain ⟨hbusy, -, -⟩ := hcall .request ⟨Vector.replicate 16 3⟩ (by rw [hstore]; rfl)
  obtain ⟨-, hsent, -⟩ := hsend 1 g _ (by rw [hflights]; rfl) hsigning
  obtain ⟨t'', hsign, -, hmessages⟩ := hsent ⟨Vector.replicate 64 1⟩
  have hone := hmessages [] t'' rfl
  rw [hg, hstore] at hone
  exact ⟨t, t', t'', ht, hstep, hrest, hlock hold, hbusy.2 ⟨g, by simp [hflights], hfresh⟩, hsign, hone⟩

end Traffic

end Vouch
