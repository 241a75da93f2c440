import Vouch.Proofs.Node.Inquiry
import Vouch.Proofs.Node.Outstanding
/-!
# A peer under either form of its address

A peer is seen under its link-local or its global address, and its identity is the same under both. So
a call for the peer has the same outcome under either form, and leaves the same node behind. What it
sends need not be the same: the payload of a request is the address as it was given, with the node's
signature over it, and it is not brought into its global form first.

* `Node.call_normalise`: one call, under both forms of the address.
* `requestPayload_inj`: a payload tells the address that is asked for.
* `payload_eq_iff_of_call`: so a call under a link-local address sends another payload than the call
  under the global one, whatever the node, and a key server that knows the peer by its global address
  only cannot tell whom the first asks for.
-/
namespace Vouch

/-! ## The outcome of a call -/

/-- The same outcome, but for the address that a request asks for. -/
inductive RequestOutcome.Alike (a a' : Address) : RequestOutcome → RequestOutcome → Prop
  | alreadyKnown : Alike a a' .alreadyKnown .alreadyKnown
  | busy : Alike a a' .busy .busy
  | sent (token : LockToken) : Alike a a' (.sent token (.signing a)) (.sent token (.signing a'))
  | exchanging (x : Exchange) : Alike a a' (.exchanging x) (.exchanging x)

theorem Store.findAddress?_normalise (s : Store) (a : Address) :
    s.findAddress? a.normalise = s.findAddress? a := by
  simp only [findAddress?, Address.eui64_normalise]

namespace Node

variable (n : Node) (now : Nat) (a : Address)

theorem request_normalise : ∃ o o' n' ns, n.request now a = (o, n', ns) ∧
    n.request now a.normalise = (o', n', ns) ∧ o.Alike a a.normalise o' := by
  unfold request
  rw [Store.findAddress?_normalise]
  split
  · exact ⟨_, _, _, _, rfl, rfl, .alreadyKnown⟩
  · split
    · exact ⟨_, _, _, _, rfl, rfl, .busy⟩
    · rename_i token lock _
      exact ⟨_, _, _, _, rfl, rfl, .sent token⟩

theorem withoutContext?_normalise : n.withoutContext? a.normalise = n.withoutContext? a := by
  simp only [withoutContext?, Store.findAddress?_normalise]

/-- **One call, under both forms of the address.** -/
theorem call_normalise (k : Call) : ∃ o o' n' ns, n.call now a k = (o, n', ns) ∧
    n.call now a.normalise k = (o', n', ns) ∧ o.Alike a a.normalise o' := by
  cases k with
  | request => exact n.request_normalise now a
  | missingContext =>
    simp only [call, missingContext, withoutContext?_normalise]
    split
    · exact n.request_normalise now a
    · split
      · exact ⟨_, _, _, _, rfl, rfl, .exchanging _⟩
      · rename_i s _
        obtain ⟨o, o', n', ns, h, h', halike⟩ := request_normalise { n with store := s } now a
        rw [h, h']
        exact ⟨o, o', n', _, rfl, rfl, halike⟩

end Node

/-! ## What is sent -/

/-- A payload tells the address that is asked for. -/
theorem requestPayload_inj {a a' : Address} {sig sig' : Signature}
    (h : requestPayload a sig = requestPayload a' sig') : a = a' := by
  obtain ⟨ha, -⟩ := List.append_inj h (by simp [Address.toBytes])
  cases a
  cases a'
  exact congrArg Address.mk (Vector.toList_inj.1 ha)

/-- What goes to the key server once the request of a call is signed, if it comes to that. -/
def RequestOutcome.payload? (b : Backend) : RequestOutcome → Option Bytes
  | .sent _ (.signing a) =>
    match (Request.signing a).sign (b.sign a.toBytes) with
    | .waiting payload => some payload
    | _ => none
  | _ => none

theorem RequestOutcome.payload?_sent {b : Backend} {token : LockToken} {a : Address} {p : Bytes} :
    (sent token (.signing a)).payload? b = some p ↔
      ∃ sig, b.sign a.toBytes = .ok sig ∧ p = requestPayload a sig := by
  cases h : b.sign a.toBytes <;> simp [payload?, Request.sign, h, eq_comm]

/-- **What a call sends under either form.** For every node, backend and address, a call has the same
outcome under the address and under its global form, up to the address that it asks for, and leaves the
same node behind with the same notices. What it sends is the address as it was given, with the node's
signature over it. So both calls send one payload, or neither sends any, exactly if the address is not a
link-local one or neither request can be signed or is made. From there on nothing differs: if the
transport answers both payloads alike, both requests come to the same. -/
theorem payload_eq_iff_of_call (b : Backend) (n : Node) (now : Nat) (a : Address) (k : Call) :
    ∃ o o' n' ns, n.call now a k = (o, n', ns) ∧ n.call now a.normalise k = (o', n', ns) ∧
      o.Alike a a.normalise o' ∧
      (∀ p, o.payload? b = some p → ∃ sig, b.sign a.toBytes = .ok sig ∧ p = requestPayload a sig) ∧
      (o.payload? b = o'.payload? b ↔
        ¬ a.IsLinkLocal ∨ o.payload? b = none ∧ o'.payload? b = none) ∧
      ∀ transport s p p', o.payload? b = some p → o'.payload? b = some p' →
        transport s.rootAddress p = transport s.rootAddress p' →
          exchange b transport a s = exchange b transport a.normalise s := by
  obtain ⟨o, o', n', ns, h, h', halike⟩ := n.call_normalise now a k
  refine ⟨o, o', n', ns, h, h', halike, ?_⟩
  cases halike with
  | alreadyKnown | busy | exchanging =>
    simp [RequestOutcome.payload?]
  | sent token =>
    refine ⟨fun p hp => RequestOutcome.payload?_sent.1 hp, ⟨fun heq => ?_, ?_⟩, ?_⟩
    · cases hp : (RequestOutcome.sent token (.signing a)).payload? b with
      | none => exact .inr ⟨rfl, heq ▸ hp⟩
      | some p =>
        obtain ⟨sig, -, rfl⟩ := RequestOutcome.payload?_sent.1 hp
        obtain ⟨sig', -, hpay⟩ := RequestOutcome.payload?_sent.1 (heq ▸ hp)
        have hsame := requestPayload_inj hpay
        exact .inl (hsame ▸ a.not_isLinkLocal_normalise)
    · rintro (hform | ⟨hnone, hnone'⟩)
      · rw [Address.normalise_of_not_isLinkLocal hform]
      · rw [hnone, hnone']
    · intro transport s p p' hp hp' hreply
      obtain ⟨sig, hsig, rfl⟩ := RequestOutcome.payload?_sent.1 hp
      obtain ⟨sig', hsig', rfl⟩ := RequestOutcome.payload?_sent.1 hp'
      exact exchange_congr hsig hsig' hreply

namespace Node

/-- A backend that signs everything alike. -/
def scribe : Backend := { Backend.ones with sign := fun _ => .ok ⟨Vector.replicate 64 1⟩ }

def peerGlobal : Address := ⟨#v[0xfd, 0, 0, 0, 0, 0, 0, 0, 3, 1, 1, 1, 1, 1, 1, 1]⟩

def peerLinkLocal : Address := ⟨#v[0xfe, 0x80, 0, 0, 0, 0, 0, 0, 3, 1, 1, 1, 1, 1, 1, 1]⟩

/-- A key server that knows one peer, by its global address. -/
def keyServer (_ : Address) (payload : Bytes) : Reply :=
  .ok (if payload.take 16 = peerGlobal.toBytes then
    ⟨.content, (Certificate.uniform 1).toBytes ++ List.replicate 64 1⟩ else ⟨⟨4, 4⟩, []⟩)

def stranger : Node := .new (.empty 1 ⟨Vector.replicate 16 0⟩ ⟨Vector.replicate 64 0⟩) 60

set_option maxRecDepth 4000 in
/-- A sender that is seen under its link-local address is asked for under that, in vain. -/
theorem payload_differs_of_linkLocal :
    peerLinkLocal.normalise = peerGlobal ∧ ∃ o o' n' ns,
      stranger.call 0 peerLinkLocal .missingContext = (o, n', ns) ∧
      stranger.call 0 peerGlobal .missingContext = (o', n', ns) ∧
      o.payload? scribe ≠ o'.payload? scribe ∧
      (exchange scribe keyServer peerLinkLocal stranger.store).1 = .error (.status ⟨4, 4⟩) ∧
      (exchange scribe keyServer peerGlobal stranger.store).1 = .ok (.enqueued ⟨0, 0⟩) ∧
      exchange scribe (fun _ _ => .error .timeout) peerLinkLocal stranger.store =
        exchange scribe (fun _ _ => .error .timeout) peerGlobal stranger.store := by
  have hform : peerLinkLocal.normalise = peerGlobal := by decide
  obtain ⟨o, o', n', ns, h, h', halike, -, hiff, hrest⟩ :=
    payload_eq_iff_of_call scribe stranger 0 peerLinkLocal .missingContext
  have ho : o = .sent ⟨0⟩ (.signing peerLinkLocal) := (congrArg Prod.fst h).symm.trans rfl
  subst ho
  cases halike
  rw [hform] at h' hiff hrest
  refine ⟨hform, _, _, n', ns, h, h', fun heq => ?_, by decide, by decide,
    hrest (fun _ _ => .error .timeout) stranger.store _ _ rfl rfl rfl⟩
  rcases hiff.1 heq with hnot | ⟨hnone, -⟩
  · exact hnot (by decide)
  · cases hnone

end Node

end Vouch
