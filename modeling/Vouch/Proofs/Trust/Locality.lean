import Vouch.Proofs.Trust.Lifetime
/-!
# What an update leaves alone

The records of an edge have parts: the beliefs about submissions and about results, the time of the last
ping, and for each capability a record under its name. An update touches few of them (`Update.touches`),
and a score depends on few. Where the two have nothing in common the score stays. They can meet in a
place that one might not think of: the record of the capability that stands for challenges enters the
scores of all others.

An edge is updated where it stands among the edges of its registry, however it was found.

* `Edge.frame_apply`: an update changes what it touches and nothing else.
* `Engine.trust_eq_of_frame`: the parts that a score depends on.
* `Registry.trust_after_update`: what this means for the scores of all edges.
-/
namespace Vouch

variable {α : Type} [Scalar α] {k : ModelKind}

/-! ## Parts of an edge -/

/-- A part of the records of an edge, or the list of its capabilities. -/
inductive Part where
  | submission
  | result
  | ping
  | capability (name : String)
  | roster
  deriving DecidableEq

/-- The parts that an outcome can go into. A challenge counts for the capability that stands for
challenges, if there is one. -/
def Experience.touches (challenge : Option String) : Experience → List Part
  | .submission _ => [.submission]
  | .result _ => [.result]
  | .quality name _ => [.capability name]
  | .challenge _ => (challenge.map Part.capability).toList

/-- The parts that an update can change. -/
def Update.touches : Update α → List Part
  | .announce name => [.capability name, .roster]
  | .learn challenge x => x.touches challenge
  | .ping _ _ => [.ping]
  | .traffic name _ _ => [.capability name]
  | .restore _ => [.submission, .result]
  | .restoreCapability name _ => [.capability name]

namespace Edge

/-- Two states of an edge that differ in some parts at most. What is known of a capability is the same
both where it stands and where it is looked up. -/
structure Frame (parts : List Part) (e e' : TrustEdge α k) : Prop where
  id : e'.id = e.id
  address : e'.address = e.address
  identity : e'.identity = e.identity
  submission : .submission ∉ parts → e'.trust.submission = e.trust.submission
  result : .result ∉ parts → e'.trust.result = e.trust.result
  ping : .ping ∉ parts → e'.trust.lastPing = e.trust.lastPing
  names : .roster ∉ parts → e'.capabilities.map Capability.name = e.capabilities.map Capability.name
  capability : ∀ (i : Nat) (c : Capability (CapabilityTrust α k)), e.capabilities[i]? = some c →
    .capability c.name ∉ parts → e'.capabilities[i]? = some c
  capability? : ∀ name, .capability name ∉ parts → e'.capability? name = e.capability? name

variable {e e' : TrustEdge α k} {parts : List Part}

omit [Scalar α] in
theorem Frame.refl (parts : List Part) (e : TrustEdge α k) : e.Frame parts e :=
  ⟨rfl, rfl, rfl, fun _ => rfl, fun _ => rfl, fun _ => rfl, fun _ => rfl, fun _ _ h _ => h,
    fun _ _ => rfl⟩

omit [Scalar α] in
/-- A change of the records that are not of a capability. -/
theorem frame_trust {t : EdgeTrust α} (hs : .submission ∉ parts → t.submission = e.trust.submission)
    (hr : .result ∉ parts → t.result = e.trust.result)
    (hp : .ping ∉ parts → t.lastPing = e.trust.lastPing) : e.Frame parts { e with trust := t } :=
  ⟨rfl, rfl, rfl, hs, hr, hp, fun _ => rfl, fun _ _ h _ => h, fun _ _ => rfl⟩

/-! ## One update -/

omit [Scalar α] in
theorem getElem?_modifyCapability {name : String} (f : CapabilityTrust α k → CapabilityTrust α k)
    {cs : List (Capability (CapabilityTrust α k))} {i : Nat} {c : Capability (CapabilityTrust α k)}
    (h : cs[i]? = some c) (hc : c.name ≠ name) : (modifyCapability name f cs)[i]? = some c := by
  induction cs generalizing i with
  | nil => simp at h
  | cons c' cs ih =>
    unfold modifyCapability
    cases i with
    | zero =>
      rw [List.getElem?_cons_zero, Option.some.injEq] at h
      rw [h, if_neg hc]
      rfl
    | succ i =>
      rw [List.getElem?_cons_succ] at h
      split
      · exact h
      · exact ih h

omit [Scalar α] in
theorem find?_modifyCapability {name other : String} (f : CapabilityTrust α k → CapabilityTrust α k)
    (hn : other ≠ name) (cs : List (Capability (CapabilityTrust α k))) :
    (modifyCapability name f cs).find? (fun c => c.name = other) =
      cs.find? fun c => c.name = other := by
  induction cs with
  | nil => rfl
  | cons c cs ih =>
    unfold modifyCapability
    split
    · rename_i hc
      have hne : ¬ c.name = other := fun h => hn (h.symm.trans hc)
      simp only [List.find?_cons, hne, decide_false]
    · simp only [List.find?_cons, ih]

omit [Scalar α] in
theorem frame_withCapability {β : Type} (name : String)
    (f : CapabilityTrust α k → β × CapabilityTrust α k) (e : TrustEdge α k) :
    e.Frame [.capability name] (e.withCapability name f).2 := by
  rw [withCapability_snd]
  have hne {other : String} (h : Part.capability other ∉ [.capability name]) : other ≠ name :=
    fun heq => h (by rw [heq]; exact List.mem_cons_self)
  exact ⟨rfl, rfl, rfl, fun _ => rfl, fun _ => rfl, fun _ => rfl, fun _ => names_modifyCapability _ _ _,
    fun i c hc h => getElem?_modifyCapability _ hc (hne h),
    fun other h => find?_modifyCapability _ (hne h) _⟩

theorem frame_learn (challenge : Option String) (x : Experience) (e : TrustEdge α k) :
    e.Frame (x.touches challenge) (e.learn challenge x) := by
  cases x with
  | submission o =>
    show e.Frame [.submission] (e.recordSubmission o).2
    unfold recordSubmission
    split
    · exact frame_trust (fun h => absurd List.mem_cons_self h) (fun _ => rfl) fun _ => rfl
    · exact .refl _ e
  | result o => exact frame_trust (fun _ => rfl) (fun h => absurd List.mem_cons_self h) fun _ => rfl
  | quality name good => exact frame_withCapability name _ e
  | challenge o =>
    show e.Frame (challenge.map Part.capability).toList (e.recordChallenge challenge o).2
    unfold recordChallenge
    split
    · exact .refl _ e
    · cases challenge with
      | none => exact .refl _ e
      | some name => exact frame_withCapability name _ e

omit [Scalar α] in
/-- Whatever was read of a saved record, the time of the last ping stays. -/
theorem frame_putBack (saved : Except RecordError (EdgeTrust α)) (e : TrustEdge α k) :
    e.Frame [.submission, .result] (e.putBack saved).2 := by
  cases saved with
  | error cause => exact .refl _ e
  | ok t => exact frame_trust (fun h => absurd (by simp) h) (fun h => absurd (by simp) h) fun _ => rfl

omit [Scalar α] in
theorem frame_putBackCapability (name : String) (saved : Except RecordError (CapabilityTrust α k))
    (e : TrustEdge α k) : e.Frame [.capability name] (e.putBackCapability name saved).2 := by
  cases saved with
  | error cause => exact .refl _ e
  | ok t => exact frame_withCapability name _ e

theorem frame_announce (name : String) (e : TrustEdge α k) :
    e.Frame [.capability name, .roster] (e.announce name) := by
  refine ⟨rfl, rfl, rfl, fun _ => rfl, fun _ => rfl, fun _ => rfl, fun h => absurd (by simp) h,
    fun i c hc _ => ?_, fun other h => ?_⟩
  · obtain ⟨hi, -⟩ := List.getElem?_eq_some_iff.1 hc
    show (e.capabilities ++ _)[i]? = some c
    rw [List.getElem?_append_left hi, hc]
  · have hne : ¬ name = other := fun heq => h (by rw [heq]; exact List.mem_cons_self)
    show (e.capabilities ++ _).find? _ = _
    simp [List.find?_append, hne, Edge.capability?]

/-- **An update changes what it touches** and nothing else. -/
theorem frame_apply (e : TrustEdge α k) (u : Update α) : e.Frame u.touches (e.apply u) := by
  cases u with
  | announce name => exact frame_announce name e
  | learn challenge x => exact frame_learn challenge x e
  | ping now p =>
    cases p with
    | sent => exact .refl _ e
    | received => exact frame_trust (fun _ => rfl) (fun _ => rfl) fun h => absurd List.mem_cons_self h
  | traffic name d x => exact frame_withCapability name _ e
  | restore saved => exact frame_putBack _ e
  | restoreCapability name saved => exact frame_putBackCapability name _ e

end Edge

/-! ## Scores -/

namespace Engine

variable {g : Engine α} {s : Store} {e e' : TrustEdge α k} {parts : List Part}

/-- **What a score depends on**: the two beliefs about the edge, and the capability that stands for
challenges, unless it is the one that is scored. -/
theorem trust_eq_of_frame (h : e.Frame parts e') (hs : .submission ∉ parts) (hr : .result ∉ parts)
    {c : Capability (CapabilityTrust α k)}
    (hc : ∀ name, g.challenge = some name → name ≠ c.name → .capability name ∉ parts) :
    g.trust s e' c = g.trust s e c :=
  trust_eq_of_records h.address (h.submission hs) (h.result hr) fun name hn hne =>
    h.capability? name (hc name hn hne)

/-- The scores of an edge for its own capabilities. -/
theorem scores_eq_of_frame (h : e.Frame parts e') (hs : .submission ∉ parts) (hr : .result ∉ parts)
    {name : String} (hname : .capability name ∉ parts)
    (hc : ∀ cr, g.challenge = some cr → cr ≠ name → .capability cr ∉ parts) :
    ((e'.capability? name).map fun c => g.trust s e' c) =
      (e.capability? name).map fun c => g.trust s e c := by
  rw [h.capability? name hname]
  cases hf : e.capability? name with
  | none => rw [Option.map_none, Option.map_none]
  | some c =>
    obtain ⟨-, rfl⟩ := Edge.capability?_some hf
    exact congrArg some (trust_eq_of_frame h hs hr hc)

end Engine

/-! ## Registries -/

namespace Registry

section
variable {ε κ : Type} {r : Registry ε κ} {i : Nat} {f : Edge ε κ → Edge ε κ} {id : EdgeId}

/-- Changes the edge at a place. -/
def reviseAt (r : Registry ε κ) (i : Nat) (f : Edge ε κ → Edge ε κ) : Registry ε κ :=
  { r with edges := r.edges.modify i f }

/-- The place of the edge that an id names. -/
def position? (r : Registry ε κ) (id : EdgeId) : Option Nat := r.edges.findIdx? fun e => e.id = id

theorem get?_eq_of_position? (r : Registry ε κ) (id : EdgeId) :
    r.get? id = (r.position? id).bind fun i => r.edges[i]? :=
  List.find?_eq_bind_findIdx?_getElem?

/-- An edge that is named by its id is changed where it stands. -/
theorem modify_eq_reviseAt (r : Registry ε κ) (id : EdgeId) (f : Edge ε κ → Edge ε κ) :
    r.modify id f = ((r.position? id).map fun i => r.reviseAt i f).getD r := by
  have hlist (es : List (Edge ε κ)) : modifyFirst (fun e => e.id = id) f es =
      ((es.findIdx? fun e => e.id = id).map fun i => es.modify i f).getD es := by
    induction es with
    | nil => rfl
    | cons e es ih =>
      rw [modifyFirst, List.findIdx?_cons]
      split
      · rfl
      · rw [ih]
        cases es.findIdx? fun e => e.id = id <;> rfl
  unfold modify position?
  rw [hlist]
  cases r.edges.findIdx? fun e => e.id = id <;> rfl

theorem position?_reviseAt (hf : ∀ e, (f e).id = e.id) (id : EdgeId) :
    (r.reviseAt i f).position? id = r.position? id := by
  -- A place is found by looking at ids alone, and those stay.
  have hids : (r.edges.modify i f).map Edge.id = r.edges.map Edge.id := by
    refine List.ext_getElem? fun j => ?_
    rw [List.getElem?_map, List.getElem?_map, List.getElem?_modify]
    cases r.edges[j]? with
    | none => rfl
    | some e =>
      show some (if i = j then f e else e).id = some e.id
      split
      · rw [hf]
      · rfl
  have hplace (es : List (Edge ε κ)) : es.findIdx? (fun e => e.id = id) =
      (es.map Edge.id).findIdx? fun j => j = id := by
    rw [List.findIdx?_map]
    rfl
  rw [position?, position?, hplace, hplace, reviseAt, hids]

theorem getElem?_reviseAt (j : Nat) :
    (r.reviseAt i f).edges[j]? = if i = j then r.edges[j]?.map f else r.edges[j]? := by
  show (r.edges.modify i f)[j]? = _
  rw [List.getElem?_modify]
  split
  · rfl
  · cases r.edges[j]? <;> rfl

/-- Only the id of the edge that is changed leads to anything new. -/
theorem get?_reviseAt (hf : ∀ e, (f e).id = e.id) (id : EdgeId) :
    (r.reviseAt i f).get? id = if r.position? id = some i then (r.get? id).map f else r.get? id := by
  rw [get?_eq_of_position?, get?_eq_of_position? r, position?_reviseAt hf]
  cases r.position? id with
  | none => rfl
  | some j =>
    simp only [Option.bind_some, Option.some.injEq, getElem?_reviseAt, eq_comm]

end

variable {g : Engine α} {s : Store} {r : TrustRegistry α k} {i : Nat} {e : TrustEdge α k}

/-- Updates the edge at a place. -/
def updateAt (r : TrustRegistry α k) (i : Nat) (u : Update α) : TrustRegistry α k :=
  r.reviseAt i fun e => e.apply u

/-- The scores that can be asked for are those of the edge that was updated, before and after. -/
theorem trustIn?_updateAt (he : r.edges[i]? = some e) (u : Update α) (id : EdgeId) (name : String) :
    g.trustIn? s (r.updateAt i u) id name =
      if r.position? id = some i then
        ((e.apply u).capability? name).map fun c => g.trust s (e.apply u) c
      else g.trustIn? s r id name := by
  unfold Engine.trustIn? updateAt
  rw [get?_reviseAt fun e => (e.frame_apply u).id]
  split
  · rename_i hid
    rw [get?_eq_of_position?, hid, Option.bind_some, he]
    rfl
  · rfl

/-- An update that does not touch what the score of a capability depends on leaves the score. -/
theorem trustIn?_eq_of_untouched (he : r.edges[i]? = some e) {u : Update α} {name : String}
    (hs : .submission ∉ u.touches) (hr : .result ∉ u.touches) (hname : .capability name ∉ u.touches)
    (hc : ∀ cr, g.challenge = some cr → cr ≠ name → .capability cr ∉ u.touches) (id : EdgeId) :
    g.trustIn? s (r.updateAt i u) id name = g.trustIn? s r id name := by
  rw [trustIn?_updateAt he]
  split
  · rename_i hid
    rw [Engine.scores_eq_of_frame (e.frame_apply u) hs hr hname hc, Engine.trustIn?,
      get?_eq_of_position?, hid, Option.bind_some, he]
    rfl
  · rfl

/-- **Updates are local.** Let an edge be updated, wherever it stands in whatever registry; an update by
way of its id is one. No other edge changes, nor does anything else of the registry, and of the edge only
what the update touches. So the scores of all other edges stay. If one capability is touched, and it is not the one that stands for
challenges, the scores of the edge for all other capabilities stay, and so does the score of any given
record of a capability next to those of the edge. A ping changes no score at all. -/
theorem trust_after_update (g : Engine α) (s : Store) (he : r.edges[i]? = some e) (u : Update α) :
    ((r.updateAt i u).limits = r.limits ∧ (r.updateAt i u).nextId = r.nextId ∧
      (r.updateAt i u).edges[i]? = some (e.apply u) ∧
      (∀ j, j ≠ i → (r.updateAt i u).edges[j]? = r.edges[j]?) ∧
      ∀ id, r.position? id = some i → r.modify id (fun e => e.apply u) = r.updateAt i u) ∧
    e.Frame u.touches (e.apply u) ∧
    (∀ id, r.position? id ≠ some i →
      ∀ name, g.trustIn? s (r.updateAt i u) id name = g.trustIn? s r id name) ∧
    (∀ name, u.touches = [.capability name] → g.challenge ≠ some name →
      (∀ id other, other ≠ name →
        g.trustIn? s (r.updateAt i u) id other = g.trustIn? s r id other) ∧
      ∀ c, g.trust s (e.apply u) c = g.trust s e c) ∧
    (u.touches = [.ping] →
      (∀ id name, g.trustIn? s (r.updateAt i u) id name = g.trustIn? s r id name) ∧
      ∀ c, g.trust s (e.apply u) c = g.trust s e c) := by
  have hframe := e.frame_apply u
  have hapart {name : String} (ht : u.touches = [.capability name]) (hcr : g.challenge ≠ some name)
      (cr : String) (hg : g.challenge = some cr) : .capability cr ∉ u.touches := by
    rw [ht, List.mem_singleton, Part.capability.injEq]
    rintro rfl
    exact hcr hg
  refine ⟨⟨rfl, rfl, ?_, fun j hj => ?_, fun id hid => ?_⟩, hframe, fun id hid name => ?_,
    fun name ht hcr => ⟨fun id other hne => ?_, fun c => ?_⟩,
    fun ht => ⟨fun id name => ?_, fun c => ?_⟩⟩
  · rw [updateAt, getElem?_reviseAt, if_pos rfl, he]
    rfl
  · rw [updateAt, getElem?_reviseAt, if_neg (Ne.symm hj)]
  · rw [modify_eq_reviseAt, hid]
    rfl
  · rw [trustIn?_updateAt he, if_neg hid]
  · exact trustIn?_eq_of_untouched he (by simp [ht]) (by simp [ht]) (by simpa [ht] using hne)
      (fun cr hg _ => hapart ht hcr cr hg) id
  · exact Engine.trust_eq_of_frame hframe (by simp [ht]) (by simp [ht]) fun cr hg _ =>
      hapart ht hcr cr hg
  · exact trustIn?_eq_of_untouched he (by simp [ht]) (by simp [ht]) (by simp [ht]) (by simp [ht]) id
  · exact Engine.trust_eq_of_frame hframe (by simp [ht]) (by simp [ht]) (by simp [ht])

/-- A registry of one edge, which routes and answers challenges. -/
def visited : TrustRegistry Rat .baseline := ⟨[Engine.newcomer], ⟨1, 2, 2⟩, 1⟩

/-- A bad route does not count against the answers to challenges, and a ping counts for nothing. -/
theorem trust_after_bad_route :
    Engine.wary.trustIn? Engine.acquainted
        (visited.updateAt 0 (.learn (some "echo") (.quality "routing" false))) ⟨0⟩ "echo" =
      Engine.wary.trustIn? Engine.acquainted visited ⟨0⟩ "echo" ∧
    Engine.wary.trustIn? Engine.acquainted (visited.updateAt 0 (.ping 7 .received)) ⟨0⟩ "routing" =
      Engine.wary.trustIn? Engine.acquainted visited ⟨0⟩ "routing" := by
  have he : visited.edges[0]? = some Engine.newcomer := rfl
  obtain ⟨-, -, -, hroute, -⟩ := trust_after_update Engine.wary Engine.acquainted he
    (.learn (some "echo") (.quality "routing" false))
  obtain ⟨-, -, -, -, hping⟩ := trust_after_update Engine.wary Engine.acquainted he
    (.ping 7 .received)
  exact ⟨(hroute "routing" rfl (by decide)).1 ⟨0⟩ "echo" (by decide), (hping rfl).1 ⟨0⟩ "routing"⟩

end Registry
end Vouch
