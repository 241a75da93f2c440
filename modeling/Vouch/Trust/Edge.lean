import Vouch.Registry
import Vouch.Trust.Format
import Vouch.Json.Reader
/-!
# Edges with statistics

What happens between a node and an edge changes the statistics of the edge or of one of its
capabilities, and nothing else of it. Saved statistics are put back as a whole or not at all.

Every operation returns its answer with the edge it leaves behind, also when it refuses.
-/
namespace Vouch

/-- An edge with the statistics of a model. -/
abbrev TrustEdge (α : Type) (k : ModelKind) := Edge (EdgeTrust α) (CapabilityTrust α k)

/-- A registry with the statistics of a model. -/
abbrev TrustRegistry (α : Type) (k : ModelKind) := Registry (EdgeTrust α) (CapabilityTrust α k)

/-- Why statistics were not changed. -/
inductive UpdateError where
  | unknownCapability (edge capability : String)
  | record (cause : RecordError)
  deriving DecidableEq, Repr

def UpdateError.message : UpdateError → String
  | .unknownCapability edge capability => s!"Edge {edge} has no capability {capability}"
  | .record cause => cause.message

variable {α : Type} [Scalar α] {k : ModelKind}

instance : Fresh (EdgeTrust α) := ⟨EdgeTrust.fresh, 48⟩

instance : Fresh (CapabilityTrust α k) := ⟨CapabilityTrust.fresh, if k = .throughput then 64 else 16⟩

namespace Edge

/-- Notes what became of a submitted task; the answer says whether that was evidence. -/
def recordSubmission (o : SubmissionOutcome) (e : TrustEdge α k) : Bool × TrustEdge α k :=
  match o.evidence with
  | some good => (true, { e with trust := e.trust.recordSubmission good })
  | none => (false, e)

/-- Notes what became of a task's result. -/
def recordResult (o : ResultOutcome) (e : TrustEdge α k) : TrustEdge α k :=
  { e with trust := e.trust.recordResult o.isGood }

/-- Notes the time of an answer to a ping. -/
def ping (now : Nat) (p : PingEvent) (e : TrustEdge α k) : TrustEdge α k :=
  { e with trust := e.trust.ping now p }

omit [Scalar α] in
/-- Changes the statistics of the first capability of a name. -/
def modifyCapability (name : String) (f : CapabilityTrust α k → CapabilityTrust α k) :
    List (Capability (CapabilityTrust α k)) → List (Capability (CapabilityTrust α k))
  | [] => []
  | c :: rest =>
    if c.name = name then { c with trust := f c.trust } :: rest
    else c :: modifyCapability name f rest

omit [Scalar α] in
/-- Changes the statistics of a capability and answers with what the change came to. -/
def withCapability {β : Type} (name : String) (f : CapabilityTrust α k → β × CapabilityTrust α k)
    (e : TrustEdge α k) : Except UpdateError β × TrustEdge α k :=
  match e.capability? name with
  | none => (.error (.unknownCapability e.identity name), e)
  | some c =>
    (.ok (f c.trust).1,
      { e with capabilities := modifyCapability name (fun t => (f t).2) e.capabilities })

omit [Scalar α] in
theorem modifyCapability_eq_self (f : CapabilityTrust α k → CapabilityTrust α k) {name : String}
    {cs : List (Capability (CapabilityTrust α k))} (h : ∀ c ∈ cs, c.name ≠ name) :
    modifyCapability name f cs = cs := by
  induction cs with
  | nil => rfl
  | cons c cs ih =>
    rw [modifyCapability, if_neg (h c (by simp)), ih fun c' hc' => h c' (by simp [hc'])]

omit [Scalar α] in
/-- Where no name stands twice, every capability of the name is changed. -/
theorem modifyCapability_eq_map (f : CapabilityTrust α k → CapabilityTrust α k) (name : String)
    {cs : List (Capability (CapabilityTrust α k))} (hn : (cs.map Capability.name).Nodup) :
    modifyCapability name f cs =
      cs.map fun c => if c.name = name then { c with trust := f c.trust } else c := by
  induction cs with
  | nil => rfl
  | cons c cs ih =>
    rw [List.map_cons, List.nodup_cons] at hn
    rw [modifyCapability, List.map_cons]
    split
    · rename_i hc
      have hrest : ∀ c' ∈ cs, c'.name ≠ name := by
        rintro c' hc' rfl
        exact hn.1 (hc ▸ List.mem_map_of_mem hc')
      rw [List.map_congr_left fun c' hc' => if_neg (hrest c' hc')]
      simp
    · rw [ih hn.2]

omit [Scalar α] in
@[simp] theorem names_modifyCapability (f : CapabilityTrust α k → CapabilityTrust α k)
    (name : String) (cs : List (Capability (CapabilityTrust α k))) :
    (modifyCapability name f cs).map Capability.name = cs.map Capability.name := by
  induction cs with
  | nil => rfl
  | cons c cs ih =>
    unfold modifyCapability
    split <;> simp [ih]

omit [Scalar α] in
/-- What the change keeps holds of every capability afterwards. -/
theorem forall_modifyCapability {P : CapabilityTrust α k → Prop} (name : String)
    {f : CapabilityTrust α k → CapabilityTrust α k} (hf : ∀ t, P t → P (f t))
    {cs : List (Capability (CapabilityTrust α k))} (h : ∀ c ∈ cs, P c.trust) :
    ∀ c ∈ modifyCapability name f cs, P c.trust := by
  induction cs with
  | nil => exact h
  | cons c cs ih =>
    rw [List.forall_mem_cons] at h
    unfold modifyCapability
    split
    · exact List.forall_mem_cons.2 ⟨hf c.trust h.1, h.2⟩
    · exact List.forall_mem_cons.2 ⟨h.1, ih h.2⟩

omit [Scalar α] in
/-- A capability that is not there is not changed. -/
theorem withCapability_snd {β : Type} (name : String)
    (f : CapabilityTrust α k → β × CapabilityTrust α k) (e : TrustEdge α k) :
    (e.withCapability name f).2 =
      { e with capabilities := modifyCapability name (fun t => (f t).2) e.capabilities } := by
  unfold withCapability
  cases h : e.capability? name with
  | none =>
    rw [modifyCapability_eq_self]
    intro c hc
    simpa using List.find?_eq_none.1 h c hc
  | some c => rfl

/-- Notes how good a result was. -/
def recordQuality (capability : String) (good : Bool) (e : TrustEdge α k) :
    Except UpdateError Unit × TrustEdge α k :=
  e.withCapability capability fun t => ((), t.recordQuality good)

/-- Notes a sample of the traffic; the answer says whether the model keeps it. -/
def recordTraffic (capability : String) (d : Direction) (x : α) (e : TrustEdge α k) :
    Except UpdateError Bool × TrustEdge α k :=
  e.withCapability capability fun t => t.recordTraffic d x

/-- Notes what became of a challenge, as the quality of a result of the capability that stands for
challenges; the answer says whether that was evidence. -/
def recordChallenge (challenge : Option String) (o : ChallengeOutcome) (e : TrustEdge α k) :
    Except UpdateError Bool × TrustEdge α k :=
  match o.evidence with
  | none => (.ok false, e)
  | some good =>
    match challenge with
    | none => (.error (.unknownCapability e.identity ""), e)
    | some capability => e.withCapability capability fun t => (true, t.recordQuality good)

omit [Scalar α] in
/-- A challenge that counts for no capability is worth a notice. -/
def challengeNotices (challenge : Option String) (o : ChallengeOutcome) (e : TrustEdge α k) :
    List Notice :=
  match o.evidence, challenge with
  | none, _ => []
  | some _, none => [.challengeUnconfigured]
  | some _, some capability =>
    if (e.capability? capability).isNone then [.challengeMissing] else []

/-! ## Saving and restoring -/

/-- The saved statistics of an edge. -/
def save (e : TrustEdge α k) : Json α := EdgeTrust.format.toJson e.trust

/-- Puts statistics of an edge back. The time of the last ping stays. -/
def putBack (saved : Except RecordError (EdgeTrust α)) (e : TrustEdge α k) :
    Except UpdateError Unit × TrustEdge α k :=
  match saved with
  | .error cause => (.error (.record cause), e)
  | .ok t => (.ok (), { e with trust := { t with lastPing := e.trust.lastPing } })

/-- Restores what was saved of an edge. -/
def restore (saved : Json α) (e : TrustEdge α k) : Except UpdateError Unit × TrustEdge α k :=
  e.putBack (EdgeTrust.format.ofJson saved)

omit [Scalar α] in
/-- Puts statistics of a capability back; unreadable ones are refused before the capability is
looked up. -/
def putBackCapability (capability : String) (saved : Except RecordError (CapabilityTrust α k))
    (e : TrustEdge α k) : Except UpdateError Unit × TrustEdge α k :=
  match saved with
  | .error cause => (.error (.record cause), e)
  | .ok t => e.withCapability capability fun _ => ((), t)

/-- Restores what was saved of a capability. -/
def restoreCapability (capability : String) (saved : Json α) (e : TrustEdge α k) :
    Except UpdateError Unit × TrustEdge α k :=
  e.putBackCapability capability (CapabilityTrust.format.ofJson saved)

end Edge

/-- Reads a record from JSON text. -/
def RecordFormat.ofOctets {ρ : Type} (f : RecordFormat Float ρ) (b : Bytes) :
    Except RecordError ρ :=
  match Json.parseOctets? b with
  | some v => f.ofJson v
  | none => .error .malformed

/-- Restores an edge from JSON text. -/
def Edge.restoreOctets (b : Bytes) (e : TrustEdge Float k) :
    Except UpdateError Unit × TrustEdge Float k :=
  e.putBack (EdgeTrust.format.ofOctets b)

/-- Restores a capability from JSON text. -/
def Edge.restoreCapabilityOctets (capability : String) (b : Bytes) (e : TrustEdge Float k) :
    Except UpdateError Unit × TrustEdge Float k :=
  e.putBackCapability capability (CapabilityTrust.format.ofOctets b)

end Vouch
