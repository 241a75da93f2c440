import Mathlib.Data.List.Perm.Subperm
import Mathlib.Data.List.Nodup
import Vouch.Json.Writer
import Vouch.Proofs.Registry.Operation
import Vouch.Trust.Engine
/-!
# Statistics survive a restart

A node saves the statistics of its edges as text and, when it comes up again, registers the edges in
a fresh registry and restores each record. This can be done in any order that makes sense: an edge is
registered before it announces anything and before its record is restored, a capability is announced
before its record is (`Plan`). The text is taken to give back every value that was written
(`TextLayer`); the octets of a running node are one such layer.

What each step leaves behind is a part of the saved registry (`Revived`): every edge in it is a copy,
of which what was restored agrees with what was saved. The limits that the saved registry kept leave
room for every step.

* `EdgeTrust.ofJson_toJson`, `CapabilityTrust.ofJson_toJson`: finite records read back, but for the
  time of the last ping.
* `Revived.step`: a step of a plan succeeds and leaves a part behind.
* `plan_revivals`: there is always a plan.
* `trust_of_plan`: every plan succeeds, and all records and scores are what they were.
-/
namespace Vouch

variable {α τ : Type} [Scalar α] {k : ModelKind}

/-! ## Records as values -/

/-- Both counts can be written down. -/
structure Beta.IsFinite (d : Beta α) : Prop where
  alpha : Scalar.isFinite d.alpha = true
  beta : Scalar.isFinite d.beta = true

structure Gaussian.IsFinite (d : Gaussian α) : Prop where
  mean : Scalar.isFinite d.mean = true
  variance : Scalar.isFinite d.variance = true

structure EdgeTrust.IsFinite (t : EdgeTrust α) : Prop where
  submission : t.submission.IsFinite
  result : t.result.IsFinite

/-- All numbers of a capability's record can be written down. -/
def CapabilityTrust.IsFinite : CapabilityTrust α k → Prop
  | .baseline quality => quality.IsFinite
  | .throughput quality inbound outbound =>
    quality.IsFinite ∧ inbound.IsFinite ∧ outbound.IsFinite

theorem EdgeTrust.ofJson_toJson {t : EdgeTrust α} (h : t.IsFinite) :
    EdgeTrust.format.ofJson (EdgeTrust.format.toJson t) = .ok { t with lastPing := none } :=
  EdgeTrust.ofJson_eq_ok_iff.2 ⟨_, _, rfl, Beta.ofJson?_toJson h.submission.alpha h.submission.beta,
    Beta.ofJson?_toJson h.result.alpha h.result.beta, rfl⟩

theorem CapabilityTrust.ofJson_toJson {t : CapabilityTrust α k} (h : t.IsFinite) :
    CapabilityTrust.format.ofJson (CapabilityTrust.format.toJson t) = .ok t := by
  cases t with
  | baseline quality =>
    exact ofJson_baseline_eq_ok_iff.2 ⟨_, rfl, Beta.ofJson?_toJson h.alpha h.beta⟩
  | throughput quality inbound outbound =>
    obtain ⟨hq, hi, ho⟩ := h
    exact ofJson_throughput_eq_ok_iff.2 ⟨_, _, _, rfl, Beta.ofJson?_toJson hq.alpha hq.beta,
      Gaussian.ofJson?_toJson hi.mean hi.variance, Gaussian.ofJson?_toJson ho.mean ho.variance⟩

/-! ## Records as text -/

/-- How values become text and text becomes values again. -/
structure TextLayer (α τ : Type) where
  write : Json α → τ
  read : τ → Option (Json α)

/-- A value that the text gives back. -/
def TextLayer.Keeps (l : TextLayer α τ) (v : Json α) : Prop := l.read (l.write v) = some v

/-- Reads a record from text. -/
def RecordFormat.ofText {ρ : Type} (f : RecordFormat α ρ) (l : TextLayer α τ) (saved : τ) :
    Except RecordError ρ :=
  match l.read saved with
  | some v => f.ofJson v
  | none => .error .malformed

/-- What a running node writes and reads. -/
def Json.octets : TextLayer Float Bytes := ⟨fun v => v.render.toUTF8.data.toList, Json.parseOctets?⟩

/-- Whether two values are the same arrays of numbers, down to some depth. -/
def Json.agree : (depth : Nat) → Json Float → Json Float → Bool
  | _, .int i, .int j => i = j
  | _, .real x, .real y => x = y
  | n + 1, .arr vs, .arr ws => vs.length = ws.length && (vs.zip ws).all fun p => agree n p.1 p.2
  | _, _, _ => false

theorem Json.eq_of_agree {depth : Nat} {v w : Json Float} (h : v.agree depth w = true) : v = w := by
  induction depth generalizing v w with
  | zero => cases v <;> cases w <;> simp_all [agree]
  | succ n ih =>
    cases v <;> cases w <;> try simp_all [agree]
    rename_i vs ws
    obtain ⟨hlen, hall⟩ := h
    refine List.ext_getElem hlen fun i hi hj => ih (hall _ _ ?_)
    have hi' : i < (vs.zip ws).length := by
      simp only [List.length_zip]
      omega
    simpa using List.getElem_mem hi'

theorem Json.keeps_of_agree {v : Json Float} (depth : Nat)
    (h : ((octets.read (octets.write v)).any fun w => w.agree depth v) = true) : octets.Keeps v := by
  unfold TextLayer.Keeps
  obtain ⟨w, hw, hagree⟩ := (Option.any_eq_true _ _).1 h
  rw [hw, Json.eq_of_agree hagree]

theorem RecordFormat.ofOctets_eq {ρ : Type} (f : RecordFormat Float ρ) (b : Bytes) :
    f.ofOctets b = f.ofText Json.octets b := by
  unfold RecordFormat.ofOctets RecordFormat.ofText
  have hread : Json.octets.read b = Json.parseOctets? b := by unfold Json.octets; rfl
  rw [hread]
  cases Json.parseOctets? b <;> rfl

omit [Scalar α] in
theorem RecordFormat.ofText_write {ρ : Type} (f : RecordFormat α ρ) {l : TextLayer α τ} {v : Json α}
    (h : l.Keeps v) : f.ofText l (l.write v) = f.ofJson v := by
  unfold RecordFormat.ofText
  rw [h]

/-- The saved statistics of a capability. -/
def Capability.save (c : Capability (CapabilityTrust α k)) : Json α :=
  CapabilityTrust.format.toJson c.trust

namespace Edge

omit [Scalar α] in
theorem steady_trust (f : TrustEdge α k → EdgeTrust α) :
    Steady fun e : TrustEdge α k => { e with trust := f e } :=
  ⟨fun _ => rfl, fun _ => rfl, fun _ => rfl, fun _ => rfl⟩

omit [Scalar α] in
theorem steady_withCapability {β : Type} (name : String)
    (f : CapabilityTrust α k → β × CapabilityTrust α k) :
    Steady fun e : TrustEdge α k => (e.withCapability name f).2 := by
  refine ⟨fun e => ?_, fun e => ?_, fun e => ?_, fun e => ?_⟩ <;> simp [withCapability_snd]

end Edge

/-! ## Plans -/

/-- A step towards having the saved statistics back. -/
inductive Revival (τ : Type) where
  | register (a : Address) (identity : String)
  | announce (identity name : String)
  | restore (identity : String) (saved : τ)
  | restoreCapability (identity name : String) (saved : τ)

namespace Revival

/-- The edge that a step is about. -/
def identity : Revival τ → String
  | .register _ identity => identity
  | .announce identity _ => identity
  | .restore identity _ => identity
  | .restoreCapability identity _ _ => identity

/-- Whether what a step builds on is among the steps done. -/
def Ready (done : List (Revival τ)) : Revival τ → Prop
  | .register _ _ => True
  | .announce identity _ => ∃ a, .register a identity ∈ done
  | .restore identity _ => ∃ a, .register a identity ∈ done
  | .restoreCapability identity name _ => .announce identity name ∈ done

theorem Ready.mono {done done' : List (Revival τ)} {act : Revival τ} (h : act.Ready done)
    (hs : ∀ x ∈ done, x ∈ done') : act.Ready done' := by
  cases act with
  | register => trivial
  | announce | restore => exact h.imp fun _ ha => hs _ ha
  | restoreCapability => exact hs _ h

/-- Each step is ready when its turn comes. -/
def Scheduled (done : List (Revival τ)) : List (Revival τ) → Prop
  | [] => True
  | act :: rest => act.Ready done ∧ Scheduled (done ++ [act]) rest

end Revival

namespace Registry

/-- The steps that bring an edge back. -/
def revivalsOf (l : TextLayer α τ) (e : TrustEdge α k) : List (Revival τ) :=
  .register e.address e.identity :: .restore e.identity (l.write e.save) ::
    e.capabilities.flatMap fun c =>
      [.announce e.identity c.name, .restoreCapability e.identity c.name (l.write c.save)]

/-- The steps that bring a registry back. -/
def revivals (l : TextLayer α τ) (r : TrustRegistry α k) : List (Revival τ) :=
  r.edges.flatMap (revivalsOf l)

/-- The steps that bring a registry back, in any order that makes sense, some perhaps repeatedly. -/
structure Plan (l : TextLayer α τ) (r : TrustRegistry α k) (acts : List (Revival τ)) : Prop where
  mem_iff : ∀ act, act ∈ acts ↔ act ∈ r.revivals l
  scheduled : Revival.Scheduled [] acts

/-- Takes a step, if it succeeds. -/
def revive (l : TextLayer α τ) (r : TrustRegistry α k) : Revival τ → Option (TrustRegistry α k)
  | .register a identity =>
    match r.add a identity with
    | (.ok _, r') => some r'
    | (.error _, _) => none
  | .announce identity name => do
    let e ← r.findIdentity? identity
    match r.addCapability e.id name with
    | (.ok _, r') => some r'
    | (.error _, _) => none
  | .restore identity saved => do
    let e ← r.findIdentity? identity
    match r.withEdge e.id (Edge.putBack (EdgeTrust.format.ofText l saved)) with
    | (some (.ok ()), r') => some r'
    | _ => none
  | .restoreCapability identity name saved => do
    let e ← r.findIdentity? identity
    match r.withEdge e.id (Edge.putBackCapability name (CapabilityTrust.format.ofText l saved)) with
    | (some (.ok ()), r') => some r'
    | _ => none

/-- A node that comes up again. -/
def revival (l : TextLayer α τ) (limits : RegistryLimits) :
    System (TrustRegistry α k) (Revival τ) where
  initial r := r = empty limits
  step := revive l

end Registry

/-! ## Parts of the saved registry -/

/-- An edge of which as much as the steps done have brought back is as it was. -/
structure Edge.Copy (done : List (Revival τ)) (e e' : TrustEdge α k) : Prop where
  address : e'.address = e.address
  identity : e'.identity = e.identity
  record : ∀ saved, .restore e.identity saved ∈ done →
    e'.trust.submission = e.trust.submission ∧ e'.trust.result = e.trust.result
  names : ∀ name ∈ e'.capabilities.map Capability.name, name ∈ e.capabilities.map Capability.name
  announced : ∀ name, .announce e.identity name ∈ done →
    name ∈ e'.capabilities.map Capability.name
  capability : ∀ c ∈ e.capabilities, ∀ c' ∈ e'.capabilities, c'.name = c.name →
    ∀ saved, .restoreCapability e.identity c.name saved ∈ done → c'.trust = c.trust

namespace Edge.Copy

variable {done : List (Revival τ)} {e e' : TrustEdge α k} {name : String}

theorem newcomer {r : TrustRegistry α k} (ha : e.address.normalise = e.address)
    (hdone : ∀ act ∈ done, act.identity ≠ e.identity) :
    Copy (done ++ [.register e.address e.identity]) e (r.newcomer e.address e.identity) := by
  refine ⟨ha, rfl, fun saved hs => ?_, by simp [Registry.newcomer], fun name hs => ?_,
    by simp [Registry.newcomer]⟩
  all_goals
    simp only [List.mem_append, List.mem_singleton, reduceCtorEq, or_false] at hs
    exact absurd rfl (hdone _ hs)

theorem announce (h : Copy done e e') (hready : ∀ act ∈ done, act.Ready done)
    (hname : name ∈ e.capabilities.map Capability.name)
    (hnew : name ∉ e'.capabilities.map Capability.name) :
    Copy (done ++ [.announce e.identity name]) e (e'.announce name) := by
  have hnames : (e'.announce name).capabilities.map Capability.name =
      e'.capabilities.map Capability.name ++ [name] := by simp [Edge.announce]
  refine ⟨h.address, h.identity, ?_, fun n hn => ?_, fun n hn => ?_,
    fun c hc c' hc' hn saved hs => ?_⟩
  · simpa [Edge.announce] using h.record
  · rw [hnames] at hn
    rcases List.mem_append.1 hn with hn | hn
    · exact h.names n hn
    · rwa [List.mem_singleton.1 hn]
  · rw [hnames]
    rcases List.mem_append.1 hn with hn | hn
    · exact List.mem_append_left _ (h.announced n hn)
    · cases List.mem_singleton.1 hn
      exact List.mem_append_right _ (List.mem_singleton.2 rfl)
  · simp only [List.mem_append, List.mem_singleton, reduceCtorEq, or_false] at hs
    rcases List.mem_append.1 hc' with hc' | hc'
    · exact h.capability c hc c' hc' hn saved hs
    · -- Its record was not restored before it was announced.
      rw [List.mem_singleton.1 hc'] at hn
      have hann := h.announced c.name (hready _ hs)
      rw [← hn] at hann
      exact absurd hann hnew

omit [Scalar α]

/-- A step for another edge does not matter. -/
theorem later (h : Copy done e e') {act : Revival τ} (hact : act.identity ≠ e.identity) :
    Copy (done ++ [act]) e e' := by
  have hold {act' : Revival τ} (hi : act'.identity = e.identity) (hm : act' ∈ done ++ [act]) :
      act' ∈ done := by
    rcases List.mem_append.1 hm with hm | hm
    · exact hm
    · rw [List.mem_singleton.1 hm] at hi
      exact absurd hi hact
  exact ⟨h.address, h.identity, fun saved hm => h.record saved (hold rfl hm), h.names,
    fun name hm => h.announced name (hold rfl hm),
    fun c hc c' hc' hn saved hm => h.capability c hc c' hc' hn saved (hold rfl hm)⟩

theorem registered (h : Copy done e e') (a : Address) (identity : String) :
    Copy (done ++ [.register a identity]) e e' := by
  refine ⟨h.address, h.identity, ?_, h.names, ?_, ?_⟩
  · simpa using h.record
  · simpa using h.announced
  · simpa using h.capability

theorem known (h : Copy done e e') (hm : name ∈ e'.capabilities.map Capability.name) :
    Copy (done ++ [.announce e.identity name]) e e' := by
  refine ⟨h.address, h.identity, ?_, h.names, fun n hn => ?_, ?_⟩
  · simpa using h.record
  · rcases List.mem_append.1 hn with hn | hn
    · exact h.announced n hn
    · cases List.mem_singleton.1 hn
      exact hm
  · simpa using h.capability

theorem restore (h : Copy done e e') (saved : τ) :
    Copy (done ++ [.restore e.identity saved]) e
      { e' with trust := { e.trust with lastPing := e'.trust.lastPing } } := by
  refine ⟨h.address, h.identity, fun _ _ => ⟨rfl, rfl⟩, h.names, ?_, ?_⟩
  · simpa using h.announced
  · simpa using h.capability

theorem restoreCapability (h : Copy done e e') {c : Capability (CapabilityTrust α k)}
    (hc : c ∈ e.capabilities) (hn : (e.capabilities.map Capability.name).Nodup)
    (hn' : (e'.capabilities.map Capability.name).Nodup) (saved : τ) :
    Copy (done ++ [.restoreCapability e.identity c.name saved]) e
      (e'.withCapability c.name fun _ => ((), c.trust)).2 := by
  have hsteady := steady_withCapability (α := α) (k := k) c.name fun _ => ((), c.trust)
  refine ⟨(hsteady.address e').trans h.address, (hsteady.identity e').trans h.identity, ?_, ?_, ?_,
    fun c₀ hc₀ c₁ hc₁ hname saved' hs => ?_⟩
  · rw [withCapability_snd]
    simpa using h.record
  · rw [hsteady.names]
    exact h.names
  · rw [hsteady.names]
    simpa using h.announced
  · rw [withCapability_snd, modifyCapability_eq_map _ _ hn'] at hc₁
    obtain ⟨x, hx, rfl⟩ := List.mem_map.1 hc₁
    by_cases hxn : x.name = c.name
    · rw [if_pos hxn] at hname ⊢
      obtain rfl := List.inj_on_of_nodup_map hn hc₀ hc (hname.symm.trans hxn)
      rfl
    · rw [if_neg hxn] at hname ⊢
      rcases List.mem_append.1 hs with hs | hs
      · exact h.capability c₀ hc₀ x hx hname saved' hs
      · simp only [List.mem_singleton, Revival.restoreCapability.injEq] at hs
        exact absurd (hname.trans hs.2.1) hxn

end Edge.Copy

namespace Registry

/-- What the steps done have left of a saved registry: copies of some of its edges, numbered from
zero. -/
structure Revived (r : TrustRegistry α k) (done : List (Revival τ)) (r' : TrustRegistry α k) :
    Prop where
  sound : r'.Sound
  limits : r'.limits = r.limits
  nextId : r'.nextId = UInt32.ofNat r'.edges.length
  ids : r'.edges.map Edge.id = (List.range r'.edges.length).map fun i => ⟨UInt32.ofNat i⟩
  copies : ∀ e' ∈ r'.edges, ∃ e ∈ r.edges, Edge.Copy done e e'
  ready : ∀ act ∈ done, act.Ready done
  present : ∀ act ∈ done, ∃ e' ∈ r'.edges, e'.identity = act.identity

/-- The identity of an edge with the name of a capability. -/
def announced (r : TrustRegistry α k) : List (String × String) :=
  r.edges.flatMap fun e => e.capabilities.map fun c => (e.identity, c.name)

/-- The number of edges that can be told apart. -/
def maxEdges : Nat := UInt32.size

theorem length_le_maxEdges {ids : List EdgeId} (h : ids.Nodup) : ids.length ≤ maxEdges := by
  have hinj : Function.Injective fun id : EdgeId => id.number.toNat :=
    fun ⟨_⟩ ⟨_⟩ heq => congrArg EdgeId.mk (UInt32.toNat_inj.1 heq)
  have hsub : (ids.map fun id => id.number.toNat) ⊆ List.range maxEdges := by
    intro n hn
    obtain ⟨id, -, rfl⟩ := List.mem_map.1 hn
    exact List.mem_range.2 id.number.toNat_lt
  simpa using (List.subperm_of_subset (h.map hinj) hsub).length_le

/-- Past that number some edge is out of reach of its own id, and nothing can be announced for it. -/
theorem Sound.exists_shadowed {r : TrustRegistry α k} (h : r.Sound)
    (hlen : maxEdges < r.edges.length) : ∃ e ∈ r.edges, r.get? e.id ≠ some e := by
  by_contra! hall
  have hids : (r.edges.map Edge.id).Nodup := by
    refine h.identities.of_map.map_on fun e he e' he' hid => ?_
    exact Option.some_inj.1 ((hall e he).symm.trans (hid ▸ hall e' he'))
  have hle := length_le_maxEdges hids
  rw [List.length_map] at hle
  omega

section parts

variable {r r' : TrustRegistry α k} {done : List (Revival τ)} {e e' : TrustEdge α k}

omit [Scalar α] in
theorem length_announced (r : TrustRegistry α k) : r.announced.length = r.capabilityTotal := by
  rw [capabilityTotal_eq]
  simp [announced, List.length_flatMap]

omit [Scalar α] in
theorem mem_announced {identity name : String} :
    (identity, name) ∈ r.announced ↔
      ∃ e ∈ r.edges, e.identity = identity ∧ name ∈ e.capabilities.map Capability.name := by
  simp only [announced, List.mem_flatMap, List.mem_map, Prod.mk.injEq]
  constructor
  · rintro ⟨e, he, c, hc, rfl, rfl⟩
    exact ⟨e, he, rfl, c, hc, rfl⟩
  · rintro ⟨e, he, rfl, c, hc, rfl⟩
    exact ⟨e, he, c, hc, rfl, rfl⟩

theorem Sound.nodup_announced (h : r.Sound) : r.announced.Nodup := by
  refine List.nodup_flatMap.2 ⟨fun e he => ?_, ?_⟩
  · have hn := (h.edge e he).names.map (f := fun name => (e.identity, name))
      fun _ _ heq => (Prod.mk.inj heq).2
    rwa [List.map_map] at hn
  · refine (List.pairwise_map.1 h.identities).imp fun {e e'} hne => ?_
    simp only [Function.onFun, List.disjoint_left, List.mem_map]
    rintro _ ⟨c, -, rfl⟩ ⟨c', -, heq⟩
    exact hne (Prod.mk.inj heq).1.symm

/-- A list without duplicates is shorter than one that has all its elements and one more. -/
theorem length_lt_of_notMem {β : Type} {l l' : List β} {x : β} (hn : l.Nodup) (hx : x ∉ l)
    (hx' : x ∈ l') (hs : ∀ y ∈ l, y ∈ l') : l.length < l'.length := by
  have hsub : x :: l ⊆ l' := List.cons_subset.2 ⟨hx', hs⟩
  exact (List.subperm_of_subset (List.nodup_cons.2 ⟨hx, hn⟩) hsub).length_le

namespace Revived

variable (h : Revived r done r') (hr : r.Sound)
include h

theorem mem_identities : ∀ identity ∈ r'.edges.map Edge.identity,
    identity ∈ r.edges.map Edge.identity := by
  intro identity hm
  obtain ⟨e', he', rfl⟩ := List.mem_map.1 hm
  obtain ⟨e, he, hcopy⟩ := h.copies e' he'
  exact hcopy.identity ▸ List.mem_map_of_mem he

theorem length_le : r'.edges.length ≤ r.edges.length := by
  have hsub := List.subperm_of_subset h.sound.identities h.mem_identities
  simpa using hsub.length_le

/-- There are no more edges than ids, so no id was given out twice. -/
theorem nodup_ids (hlen : r.edges.length ≤ maxEdges) : (r'.edges.map Edge.id).Nodup := by
  have hle := h.length_le
  rw [h.ids]
  refine List.Nodup.map_on (fun i hi j hj heq => ?_) List.nodup_range
  have hi := List.mem_range.1 hi
  have hj := List.mem_range.1 hj
  have hsize : maxEdges = 2 ^ 32 := rfl
  have hi' : i < 2 ^ 32 := by omega
  have hj' : j < 2 ^ 32 := by omega
  simp only [EdgeId.mk.injEq] at heq
  have hnat := congrArg UInt32.toNat heq
  rwa [UInt32.toNat_ofNat', UInt32.toNat_ofNat', Nat.mod_eq_of_lt hi', Nat.mod_eq_of_lt hj'] at hnat

include hr

/-- An edge of the part that has the identity of a saved one is a copy of that one. -/
theorem copy_of (he : e ∈ r.edges) (he' : e' ∈ r'.edges) (hi : e'.identity = e.identity) :
    Edge.Copy done e e' := by
  obtain ⟨e₀, he₀, hcopy⟩ := h.copies e' he'
  obtain rfl := hr.eq_of_identity_eq he₀ he (hcopy.identity.symm.trans hi)
  exact hcopy

/-- An edge that a step was about is there. -/
theorem exists_copy {act : Revival τ} (hm : act ∈ done) (he : e ∈ r.edges)
    (hi : act.identity = e.identity) : ∃ e' ∈ r'.edges,
      r'.findIdentity? e.identity = some e' ∧ Edge.Copy done e e' := by
  obtain ⟨e', he', hi'⟩ := h.present act hm
  have hcopy := h.copy_of hr he he' (hi'.trans hi)
  exact ⟨e', he', hcopy.identity ▸ h.sound.findIdentity?_of_mem he', hcopy⟩

omit hr in
/-- An edge of the part is replaced by a better copy. -/
theorem replace {act : Revival τ} (hready : act.Ready done) {pre post : List (TrustEdge α k)}
    (heq : r'.edges = pre ++ e' :: post) (he : e ∈ r.edges) (hact : act.identity = e.identity)
    {e'' : TrustEdge α k} (hid : e''.id = e'.id) (hcopy : Edge.Copy (done ++ [act]) e e'')
    (hi : e'.identity = e.identity) (hsound : Sound { r' with edges := pre ++ e'' :: post }) :
    Revived r (done ++ [act]) { r' with edges := pre ++ e'' :: post } := by
  have hnodup := h.sound.identities
  simp only [heq, List.map_append, List.map_cons] at hnodup
  have hother : ∀ x ∈ pre ++ post, x.identity ≠ e.identity := by
    intro x hx hxi
    have hperm := hnodup.perm List.perm_middle
    refine (List.nodup_cons.1 hperm).1 ?_
    rw [hi, ← hxi, ← List.map_append]
    exact List.mem_map_of_mem hx
  refine ⟨hsound, h.limits, ?_, ?_, fun x hx => ?_, fun x hx => ?_, fun x hx => ?_⟩
  · have hn := h.nextId
    rw [heq] at hn
    simpa using hn
  · have hids := h.ids
    rw [heq] at hids
    simpa [hid] using hids
  · by_cases hxe : x = e''
    · exact ⟨e, he, hxe ▸ hcopy⟩
    · have hx' : x ∈ pre ++ post := by
        simp only [List.mem_append, List.mem_cons] at hx ⊢
        tauto
      have hx₀ : x ∈ r'.edges := by
        rw [heq]
        simp only [List.mem_append, List.mem_cons] at hx' ⊢
        tauto
      obtain ⟨e₀, he₀, hcopy₀⟩ := h.copies x hx₀
      refine ⟨e₀, he₀, hcopy₀.later ?_⟩
      rw [hact, ← hcopy₀.identity]
      exact (hother x hx').symm
  · rcases List.mem_append.1 hx with hx | hx
    · exact (h.ready x hx).mono fun y hy => List.mem_append_left _ hy
    · rw [List.mem_singleton.1 hx]
      exact hready.mono fun y hy => List.mem_append_left _ hy
  · have hsame : e''.identity = e'.identity := hcopy.identity.trans hi.symm
    rcases List.mem_append.1 hx with hx | hx
    · obtain ⟨y, hy, hyi⟩ := h.present x hx
      rw [heq] at hy
      by_cases hye : y = e'
      · exact ⟨e'', by simp, by rw [hsame, ← hye, hyi]⟩
      · refine ⟨y, ?_, hyi⟩
        simp only [List.mem_append, List.mem_cons] at hy ⊢
        tauto
    · refine ⟨e'', by simp, ?_⟩
      rw [List.mem_singleton.1 hx, hact, hcopy.identity]

omit hr in
/-- A step that finds its work done. -/
theorem keep {act : Revival τ} (hready : act.Ready done) (he : e ∈ r.edges)
    (hact : act.identity = e.identity) (he' : e' ∈ r'.edges)
    (hcopy : Edge.Copy (done ++ [act]) e e') : Revived r (done ++ [act]) r' := by
  obtain ⟨pre, post, heq⟩ := List.append_of_mem he'
  have hsame : { r' with edges := pre ++ e' :: post } = r' := by rw [← heq]
  have hsound := h.sound
  rw [← hsame] at hsound ⊢
  exact h.replace hready heq he hact rfl hcopy hcopy.identity hsound

end Revived

end parts

/-! ## The steps -/

/-- All numbers of a registry can be written down, and its records are kept by a text layer. -/
structure Storable (l : TextLayer α τ) (r : TrustRegistry α k) : Prop where
  record : ∀ e ∈ r.edges, e.trust.IsFinite ∧ l.Keeps e.save
  capability : ∀ e ∈ r.edges, ∀ c ∈ e.capabilities, c.trust.IsFinite ∧ l.Keeps c.save

theorem mem_revivals {l : TextLayer α τ} {r : TrustRegistry α k} {act : Revival τ} :
    act ∈ r.revivals l ↔ ∃ e ∈ r.edges, act = .register e.address e.identity ∨
      act = .restore e.identity (l.write e.save) ∨ ∃ c ∈ e.capabilities,
        act = .announce e.identity c.name ∨
        act = .restoreCapability e.identity c.name (l.write c.save) := by
  simp [revivals, revivalsOf]

namespace Revived

variable {l : TextLayer α τ} {r r' : TrustRegistry α k} {done : List (Revival τ)}
  {e : TrustEdge α k} {c : Capability (CapabilityTrust α k)}

theorem empty (r : TrustRegistry α k) :
    Revived r ([] : List (Revival τ)) (Registry.empty r.limits) where
  sound := .empty r.limits
  limits := rfl
  nextId := rfl
  ids := rfl
  copies := fun _ he => absurd he List.not_mem_nil
  ready := fun _ hm => absurd hm List.not_mem_nil
  present := fun _ hm => absurd hm List.not_mem_nil

/-- The saved registry has the edge too and kept the limits, so there is room for it. -/
theorem room (h : Revived r done r') (hr : r.Sound) (he : e ∈ r.edges)
    (hm : e.identity ∉ r'.edges.map Edge.identity) :
    e.address.normalise ∉ r'.edges.map Edge.address ∧ r'.size < r'.limits.edges ∧
      hasRoomPerEdge (CapabilityTrust α k) r'.limits = true := by
  refine ⟨?_, ?_, h.limits ▸ hr.room (List.ne_nil_of_mem he)⟩
  · rw [(hr.edge e he).address]
    intro ha
    obtain ⟨e', he', ha⟩ := List.mem_map.1 ha
    obtain ⟨e₀, he₀, hcopy⟩ := h.copies e' he'
    obtain rfl := hr.eq_of_address_eq he₀ he (hcopy.address.symm.trans ha)
    exact hm (hcopy.identity ▸ List.mem_map_of_mem he')
  · have hlt := length_lt_of_notMem h.sound.identities hm (List.mem_map_of_mem he)
      h.mem_identities
    have hle := hr.size_le
    rw [List.length_map, List.length_map] at hlt
    rw [h.limits]
    unfold size at hle ⊢
    omega

/-- **Registering an edge.** -/
theorem register (h : Revived r done r') (hr : r.Sound) (l : TextLayer α τ) (he : e ∈ r.edges) :
    ∃ r'', r'.revive l (.register e.address e.identity) = some r'' ∧
      Revived r (done ++ [.register e.address e.identity]) r'' := by
  have hlength := (hr.edge e he).identity_le
  by_cases hm : e.identity ∈ r'.edges.map Edge.identity
  · obtain ⟨e', he', hi⟩ := List.mem_map.1 hm
    have hf := h.sound.findIdentity?_of_mem he'
    rw [hi] at hf
    refine ⟨r', by simp only [revive, add_of_known hlength hf], ?_⟩
    exact h.keep trivial he rfl he' ((h.copy_of hr he he' hi).registered _ _)
  · obtain ⟨haddress, hsize, hroom⟩ := h.room hr he hm
    refine ⟨_, by simp only [revive, add_of_new hlength hm haddress hsize hroom]; rfl, ?_⟩
    have hdone : ∀ act ∈ done, act.identity ≠ e.identity := by
      intro act hact hi
      obtain ⟨e', he', hi'⟩ := h.present act hact
      exact hm (by rw [← hi, ← hi']; exact List.mem_map_of_mem he')
    refine ⟨h.sound.register hlength hm haddress hsize hroom, h.limits, ?_, ?_, fun x hx => ?_,
      fun x hx => ?_, fun x hx => ?_⟩
    · simp [h.nextId]
    · simp only [List.map_append, h.ids, List.map_cons, List.map_nil, List.length_append,
        List.length_cons, List.length_nil, List.range_add]
      simp [newcomer, h.nextId]
    · rcases List.mem_append.1 hx with hx | hx
      · obtain ⟨e₀, he₀, hcopy⟩ := h.copies x hx
        refine ⟨e₀, he₀, hcopy.later ?_⟩
        rintro hi
        have hx := List.mem_map_of_mem (f := Edge.identity) hx
        exact hm (by rwa [hcopy.identity, ← show e.identity = e₀.identity from hi] at hx)
      · rw [List.mem_singleton.1 hx]
        exact ⟨e, he, .newcomer (hr.edge e he).address hdone⟩
    · rcases List.mem_append.1 hx with hx | hx
      · exact (h.ready x hx).mono fun y hy => List.mem_append_left _ hy
      · rw [List.mem_singleton.1 hx]
        trivial
    · rcases List.mem_append.1 hx with hx | hx
      · obtain ⟨y, hy, hyi⟩ := h.present x hx
        exact ⟨y, List.mem_append_left _ hy, hyi⟩
      · rw [List.mem_singleton.1 hx]
        exact ⟨_, List.mem_append_right _ (List.mem_singleton.2 rfl), rfl⟩

/-- The saved registry has the capability too and kept the limits, so there is room for it. -/
theorem capabilityRoom (h : Revived r done r') (hr : r.Sound) (he : e ∈ r.edges)
    {e' : TrustEdge α k} (he' : e' ∈ r'.edges) (hcopy : Edge.Copy done e e') {name : String}
    (hname : name ∈ e.capabilities.map Capability.name)
    (hm : name ∉ e'.capabilities.map Capability.name) :
    e'.capabilities.length < r'.limits.perEdge ∧ r'.capabilityTotal < r'.limits.capabilities := by
  constructor
  · have hlt := length_lt_of_notMem (h.sound.edge e' he').names hm hname hcopy.names
    have hle := (hr.edge e he).perEdge_le
    rw [List.length_map, List.length_map] at hlt
    rw [h.limits]
    omega
  · have hnew : (e.identity, name) ∉ r'.announced := by
      intro hx
      obtain ⟨x, hx, hxi, hxn⟩ := mem_announced.1 hx
      obtain rfl := h.sound.eq_of_identity_eq hx he' (hxi.trans hcopy.identity.symm)
      exact hm hxn
    have hold : ∀ p ∈ r'.announced, p ∈ r.announced := by
      rintro ⟨identity, n⟩ hp
      obtain ⟨x, hx, rfl, hxn⟩ := mem_announced.1 hp
      obtain ⟨x₀, hx₀, hxcopy⟩ := h.copies x hx
      exact mem_announced.2 ⟨x₀, hx₀, hxcopy.identity.symm, hxcopy.names n hxn⟩
    have hlt := length_lt_of_notMem h.sound.nodup_announced hnew
      (mem_announced.2 ⟨e, he, rfl, hname⟩) hold
    have hle := hr.total_le
    rw [length_announced, length_announced] at hlt
    rw [h.limits]
    omega

/-- **Announcing a capability.** -/
theorem announce (h : Revived r done r') (hr : r.Sound) (hlen : r.edges.length ≤ maxEdges)
    (l : TextLayer α τ) (he : e ∈ r.edges) (hc : c ∈ e.capabilities)
    (hready : Revival.Ready done (.announce e.identity c.name : Revival τ)) :
    ∃ r'', r'.revive l (.announce e.identity c.name) = some r'' ∧
      Revived r (done ++ [.announce e.identity c.name]) r'' := by
  have hregistered := hready
  obtain ⟨a, ha⟩ := hregistered
  obtain ⟨e', he', hf, hcopy⟩ := h.exists_copy hr ha he rfl
  have hget := get?_of_mem (h.nodup_ids hlen) he'
  have hname : c.name ∈ e.capabilities.map Capability.name := List.mem_map_of_mem hc
  have hlength := (hr.edge e he).name_le c.name hname
  by_cases hm : c.name ∈ e'.capabilities.map Capability.name
  · obtain ⟨c', hc'⟩ := Edge.exists_capability hm
    refine ⟨r', by simp [revive, hf, addCapability_of_known hlength hget hc'], ?_⟩
    exact h.keep hready he rfl he' (hcopy.known hm)
  · obtain ⟨hper, htotal⟩ := h.capabilityRoom hr he he' hcopy hname hm
    obtain ⟨pre, post, heq, hpre, -⟩ := exists_split hget
    have hadd := addCapability_of_new hlength hget hm hper htotal
    have hsound := h.sound.effect (perform_effect r' (.addCapability e'.id c.name))
    simp only [perform, hadd] at hsound
    rw [modify_eq heq hpre rfl] at hadd hsound
    refine ⟨{ r' with edges := pre ++ e'.announce c.name :: post }, ?_, ?_⟩
    · simp only [revive, hf, Option.bind_eq_bind, Option.bind_some, hadd]
    · exact h.replace hready heq he rfl rfl (hcopy.announce h.ready hname hm) hcopy.identity hsound

/-- The statistics of an edge of the part are changed. -/
theorem revise (h : Revived r done r') (hlen : r.edges.length ≤ maxEdges) {act : Revival τ}
    (hready : act.Ready done) (he : e ∈ r.edges) (hact : act.identity = e.identity)
    {e' : TrustEdge α k} (he' : e' ∈ r'.edges) {f : TrustEdge α k → TrustEdge α k}
    (hf : Edge.Steady f) (hcopy : Edge.Copy (done ++ [act]) e (f e')) :
    Revived r (done ++ [act]) (r'.modify e'.id f) := by
  obtain ⟨pre, post, heq, hpre, -⟩ := exists_split (get?_of_mem (h.nodup_ids hlen) he')
  have hsound := h.sound.effect (perform_effect r' (.revise e'.id f hf))
  simp only [perform] at hsound
  rw [modify_eq heq hpre rfl] at hsound ⊢
  exact h.replace hready heq he hact (hf.id e') hcopy
    ((hf.identity e').symm.trans hcopy.identity) hsound

/-- **Restoring the record of an edge.** -/
theorem restore (h : Revived r done r') (hr : r.Sound) (hlen : r.edges.length ≤ maxEdges)
    (hs : r.Storable l) (he : e ∈ r.edges)
    (hready : Revival.Ready done (.restore e.identity (l.write e.save))) :
    ∃ r'', r'.revive l (.restore e.identity (l.write e.save)) = some r'' ∧
      Revived r (done ++ [.restore e.identity (l.write e.save)]) r'' := by
  have hregistered := hready
  obtain ⟨a, ha⟩ := hregistered
  obtain ⟨e', he', hf, hcopy⟩ := h.exists_copy hr ha he rfl
  have hget := get?_of_mem (h.nodup_ids hlen) he'
  obtain ⟨hfinite, hkeeps⟩ := hs.record e he
  have hread : EdgeTrust.format.ofText l (l.write e.save) = .ok { e.trust with lastPing := none } :=
    (RecordFormat.ofText_write _ hkeeps).trans (EdgeTrust.ofJson_toJson hfinite)
  refine ⟨_, ?_, h.revise hlen hready he rfl he'
    (Edge.steady_trust fun e' => { e.trust with lastPing := e'.trust.lastPing }) (hcopy.restore _)⟩
  simp only [revive, hf, Option.bind_eq_bind, Option.bind_some, hread, withEdge_of_some hget]
  rfl

/-- **Restoring the record of a capability.** -/
theorem restoreCapability (h : Revived r done r') (hr : r.Sound)
    (hlen : r.edges.length ≤ maxEdges) (hs : r.Storable l) (he : e ∈ r.edges)
    (hc : c ∈ e.capabilities)
    (hready : Revival.Ready done (.restoreCapability e.identity c.name (l.write c.save))) :
    ∃ r'', r'.revive l (.restoreCapability e.identity c.name (l.write c.save)) = some r'' ∧
      Revived r (done ++ [.restoreCapability e.identity c.name (l.write c.save)]) r'' := by
  obtain ⟨e', he', hf, hcopy⟩ := h.exists_copy hr hready he rfl
  have hget := get?_of_mem (h.nodup_ids hlen) he'
  obtain ⟨hfinite, hkeeps⟩ := hs.capability e he c hc
  have hread : CapabilityTrust.format.ofText l (l.write c.save) = .ok c.trust :=
    (RecordFormat.ofText_write _ hkeeps).trans (CapabilityTrust.ofJson_toJson hfinite)
  obtain ⟨c', hc'⟩ := Edge.exists_capability (hcopy.announced c.name hready)
  have hsteady := Edge.steady_withCapability (α := α) (k := k) c.name fun _ => ((), c.trust)
  refine ⟨_, ?_, h.revise hlen hready he rfl he' hsteady
    (hcopy.restoreCapability hc (hr.edge e he).names (h.sound.edge e' he').names _)⟩
  simp only [revive, hf, Option.bind_eq_bind, Option.bind_some, hread, withEdge_of_some hget,
    Edge.putBackCapability, Edge.withCapability, hc']

/-- **One step of a plan.** -/
theorem step (h : Revived r done r') (hr : r.Sound) (hlen : r.edges.length ≤ maxEdges)
    (hs : r.Storable l) {act : Revival τ} (hm : act ∈ r.revivals l) (hready : act.Ready done) :
    ∃ r'', r'.revive l act = some r'' ∧ Revived r (done ++ [act]) r'' := by
  obtain ⟨e, he, rfl | rfl | ⟨c, hc, rfl | rfl⟩⟩ := mem_revivals.1 hm
  · exact h.register hr l he
  · exact h.restore hr hlen hs he hready
  · exact h.announce hr hlen l he hc hready
  · exact h.restoreCapability hr hlen hs he hc hready

/-- **Any number of steps.** -/
theorem run (h : Revived r done r') (hr : r.Sound) (hlen : r.edges.length ≤ maxEdges)
    (hs : r.Storable l) {acts : List (Revival τ)} (hm : ∀ act ∈ acts, act ∈ r.revivals l)
    (hscheduled : Revival.Scheduled done acts) :
    ∃ r'', (revival l r.limits).run r' acts = some r'' ∧ Revived r (done ++ acts) r'' := by
  induction acts generalizing done r' with
  | nil => exact ⟨r', rfl, by simpa using h⟩
  | cons act acts ih =>
    obtain ⟨hready, hrest⟩ := hscheduled
    obtain ⟨r₁, hstep, h₁⟩ := h.step hr hlen hs (hm act (by simp)) hready
    obtain ⟨r₂, hrun, h₂⟩ := ih h₁ (fun x hx => hm x (by simp [hx])) hrest
    exact ⟨r₂, Option.bind_eq_some_iff.2 ⟨r₁, hstep, hrun⟩, by simpa using h₂⟩

end Revived

end Registry

/-! ## There is a plan -/

namespace Revival

theorem Scheduled.append {done xs ys : List (Revival τ)} (hx : Scheduled done xs)
    (hy : Scheduled (done ++ xs) ys) : Scheduled done (xs ++ ys) := by
  induction xs generalizing done with
  | nil => simpa using hy
  | cons x xs ih =>
    obtain ⟨hready, hrest⟩ := hx
    exact ⟨hready, ih hrest (by simpa using hy)⟩

/-- Lists that may be done at any time may be done one after the other. -/
theorem scheduled_flatMap {β : Type} {f : β → List (Revival τ)} {done : List (Revival τ)}
    {l : List β} (hf : ∀ x ∈ l, ∀ more, Scheduled (done ++ more) (f x)) :
    Scheduled done (l.flatMap f) := by
  induction l generalizing done with
  | nil => trivial
  | cons x l ih =>
    have hx := hf x (by simp) []
    rw [List.append_nil] at hx
    refine hx.append (ih fun y hy more => ?_)
    rw [List.append_assoc]
    exact hf y (by simp [hy]) (f x ++ more)

end Revival

namespace Registry

theorem scheduled_revivalsOf (l : TextLayer α τ) (e : TrustEdge α k) (done : List (Revival τ)) :
    Revival.Scheduled done (revivalsOf l e) := by
  refine ⟨trivial, ⟨e.address, by simp⟩, Revival.scheduled_flatMap fun c hc more => ?_⟩
  exact ⟨⟨e.address, by simp⟩, by simp [Revival.Ready], trivial⟩

/-- **There is always a plan**: edge by edge, and capability by capability. -/
theorem plan_revivals (l : TextLayer α τ) (r : TrustRegistry α k) : r.Plan l (r.revivals l) :=
  ⟨fun _ => Iff.rfl, Revival.scheduled_flatMap fun e _ _ => scheduled_revivalsOf l e _⟩

end Registry

/-! ## Everything is back -/

/-- The same edge with the same statistics; its number and the time of its last ping are apart. -/
structure Edge.Same (e e' : TrustEdge α k) : Prop where
  address : e'.address = e.address
  identity : e'.identity = e.identity
  submission : e'.trust.submission = e.trust.submission
  result : e'.trust.result = e.trust.result
  capabilities : e'.capabilities.Perm e.capabilities

/-- A copy of which everything was brought back. -/
theorem Edge.Copy.same {l : TextLayer α τ} {done : List (Revival τ)} {e e' : TrustEdge α k}
    (h : Copy done e e') (hall : ∀ act ∈ Registry.revivalsOf l e, act ∈ done)
    (hn : (e.capabilities.map Capability.name).Nodup)
    (hn' : (e'.capabilities.map Capability.name).Nodup) : e.Same e' := by
  have hrecord := h.record (l.write e.save) (hall _ (by simp [Registry.revivalsOf]))
  have hannounced : ∀ c ∈ e.capabilities, c.name ∈ e'.capabilities.map Capability.name :=
    fun c hc => h.announced c.name (hall _ (by simp [Registry.revivalsOf]; exact ⟨c, hc, rfl⟩))
  have htrust : ∀ c ∈ e.capabilities, ∀ c' ∈ e'.capabilities, c'.name = c.name → c' = c := by
    intro c hc c' hc' hname
    have ht := h.capability c hc c' hc' hname (l.write c.save)
      (hall _ (by simp [Registry.revivalsOf]; exact ⟨c, hc, rfl, rfl⟩))
    cases c
    cases c'
    simp_all
  refine ⟨h.address, h.identity, hrecord.1, hrecord.2, ?_⟩
  apply (List.perm_ext_iff_of_nodup (hn'.of_map _) (hn.of_map _)).2
  intro x
  refine ⟨fun hx => ?_, fun hx => ?_⟩
  · obtain ⟨c, hc, hname⟩ := List.mem_map.1 (h.names x.name (List.mem_map_of_mem hx))
    rwa [htrust c hc x hx hname.symm]
  · obtain ⟨c', hc', hname⟩ := List.mem_map.1 (hannounced x hx)
    rwa [← htrust x hx c' hc' hname]

/-- What a score depends on of an edge: the address, the two beliefs, and the capability that stands for
challenges, unless it is the one that is scored. -/
theorem Engine.trust_eq_of_records {g : Engine α} {s : Store} {e e' : TrustEdge α k}
    {c : Capability (CapabilityTrust α k)} (ha : e'.address = e.address)
    (hs : e'.trust.submission = e.trust.submission) (hr : e'.trust.result = e.trust.result)
    (hc : ∀ name, g.challenge = some name → name ≠ c.name →
      e'.capability? name = e.capability? name) : g.trust s e' c = g.trust s e c := by
  have hbeliefs (prior : Option (Stereotype α)) : g.beliefs prior e' c = g.beliefs prior e c := by
    unfold beliefs
    rw [hs, hr]
  have hchallenges : g.challenges e' c = g.challenges e c := by
    unfold challenges
    cases hg : g.challenge with
    | none => rfl
    | some name =>
      dsimp only
      split
      · rfl
      · rename_i hne
        rw [hc name hg hne]
  have hstereotype : g.stereotypeFor? s e' = g.stereotypeFor? s e := by
    unfold stereotypeFor?
    rw [ha]
  unfold trust terms
  rw [hbeliefs, hchallenges, hstereotype]

namespace Edge.Same

variable {e e' : TrustEdge α k} (h : e.Same e') (hn : (e.capabilities.map Capability.name).Nodup)
include h hn

omit [Scalar α] in
theorem capability? (name : String) : e'.capability? name = e.capability? name := by
  have hn' := (h.capabilities.map Capability.name).nodup_iff.2 hn
  refine Option.ext fun c => ?_
  rw [Edge.capability?_eq_some_iff hn, Edge.capability?_eq_some_iff hn', h.capabilities.mem_iff]

/-- A score depends on nothing else of an edge. -/
theorem trust (g : Engine α) (s : Store) (c : Capability (CapabilityTrust α k)) :
    g.trust s e' c = g.trust s e c :=
  Engine.trust_eq_of_records h.address h.submission h.result fun name _ _ => h.capability? hn name

end Edge.Same

namespace Registry

/-- **Saved statistics restore to the same trust.** Save the records of any registry whose numbers are
all finite, in a text that gives them back, and register its edges and capabilities in a fresh registry
with its limits, restoring each record, in any order that makes sense. Every step succeeds. The registry
then has the same edges with the same records, ping times apart, and for every engine and certificate
store the score of each edge for each capability is the same. There are no more edges than ids to call
them by: otherwise some edge cannot be named at all (`Sound.exists_shadowed`). -/
theorem trust_of_plan {l : TextLayer α τ} {r : TrustRegistry α k} {acts : List (Revival τ)}
    (h : (directory (EdgeTrust α) (CapabilityTrust α k)).Reachable r)
    (hlen : r.edges.length ≤ maxEdges) (hs : r.Storable l) (hp : r.Plan l acts) :
    ∃ r', (revival l r.limits).run (empty r.limits) acts = some r' ∧ r'.size = r.size ∧
      ∀ e ∈ r.edges, ∃ e' ∈ r'.edges, e.Same e' ∧ ∀ (g : Engine α) (s : Store) (name : String),
        g.trustIn? s r' e'.id name = ((e.capability? name).map fun c => g.trust s e c) ∧
        (r.get? e.id = some e → g.trustIn? s r' e'.id name = g.trustIn? s r e.id name) := by
  have hr := Sound.of_reachable h
  obtain ⟨r', hrun, hpart⟩ :=
    (Revived.empty r).run hr hlen hs (fun act hm => (hp.mem_iff act).1 hm) hp.scheduled
  rw [List.nil_append] at hpart
  have hdone {e : TrustEdge α k} (he : e ∈ r.edges) : ∀ act ∈ revivalsOf l e, act ∈ acts :=
    fun act hact => (hp.mem_iff act).2 (List.mem_flatMap.2 ⟨e, he, hact⟩)
  have hback : ∀ e ∈ r.edges, ∃ e' ∈ r'.edges, e.Same e' := by
    intro e he
    obtain ⟨e', he', -, hcopy⟩ := hpart.exists_copy hr (hdone he _ List.mem_cons_self) he rfl
    exact ⟨e', he', hcopy.same (hdone he) (hr.edge e he).names (hpart.sound.edge e' he').names⟩
  refine ⟨r', hrun, ?_, fun e he => ?_⟩
  · have hsub : ∀ identity ∈ r.edges.map Edge.identity, identity ∈ r'.edges.map Edge.identity := by
      intro identity hm
      obtain ⟨e, he, rfl⟩ := List.mem_map.1 hm
      obtain ⟨e', he', hsame⟩ := hback e he
      exact hsame.identity ▸ List.mem_map_of_mem he'
    have hle := (List.subperm_of_subset hr.identities hsub).length_le
    rw [List.length_map, List.length_map] at hle
    exact Nat.le_antisymm hpart.length_le hle
  · obtain ⟨e', he', hsame⟩ := hback e he
    have hn := (hr.edge e he).names
    refine ⟨e', he', hsame, fun g s name => ?_⟩
    have hscore : g.trustIn? s r' e'.id name = (e.capability? name).map fun c => g.trust s e c := by
      simp only [Engine.trustIn?, get?_of_mem (hpart.nodup_ids hlen) he', Option.bind_some,
        hsame.capability? hn, hsame.trust hn]
    refine ⟨hscore, fun hget => ?_⟩
    rw [hscore, Engine.trustIn?, hget, Option.bind_some]

def promising (t : EdgeTrust Float) : EdgeTrust Float := t.recordSubmission true

def busy (t : CapabilityTrust Float .throughput) : Bool × CapabilityTrust Float .throughput :=
  (t.recordQuality true).recordTraffic .inbound 2.5

/-- An edge is registered, announces a capability, and makes a good start. -/
def start : List (Op (EdgeTrust Float) (CapabilityTrust Float .throughput)) :=
  [.add ⟨Vector.replicate 16 1⟩ "edge-20", .addCapability ⟨0⟩ "routing",
    .revise ⟨0⟩ _ (Edge.steady_trust fun e => promising e.trust),
    .revise ⟨0⟩ _ (Edge.steady_withCapability "routing" busy)]

def started : TrustRegistry Float .throughput := start.foldl perform (empty ⟨2, 3, 2⟩)

def routing : Capability (CapabilityTrust Float .throughput) := ⟨"routing", (busy .fresh).2⟩

def starter : TrustEdge Float .throughput :=
  ⟨⟨0⟩, ⟨Vector.replicate 16 1⟩, "edge-20", [routing], promising .fresh⟩

theorem trust_after_restart : ∃ r',
    (revival Json.octets ⟨2, 3, 2⟩).run (empty ⟨2, 3, 2⟩) (started.revivals Json.octets) = some r' ∧
    r'.size = 1 ∧ ∃ e' ∈ r'.edges, starter.Same e' ∧ ∀ (g : Engine Float) (s : Store),
      g.trustIn? s r' e'.id "routing" = some (g.trust s starter routing) ∧
      g.trustIn? s r' e'.id "routing" = g.trustIn? s started ⟨0⟩ "routing" := by
  have hedges : started.edges = [starter] := by decide +kernel
  have hreach : (directory (EdgeTrust Float) (CapabilityTrust Float .throughput)).Reachable started :=
    ⟨_, start, ⟨_, rfl⟩, rfl⟩
  have hlen : started.edges.length ≤ maxEdges := by
    rw [hedges]
    decide
  have hstorable : started.Storable Json.octets := by
    refine ⟨?_, ?_⟩
    · simp only [hedges, List.mem_singleton, forall_eq]
      refine ⟨⟨⟨?_, ?_⟩, ⟨?_, ?_⟩⟩, Json.keeps_of_agree 2 ?_⟩ <;> decide +kernel
    · simp only [hedges, List.mem_singleton, forall_eq, starter]
      refine ⟨⟨⟨?_, ?_⟩, ⟨?_, ?_⟩, ⟨?_, ?_⟩⟩, Json.keeps_of_agree 2 ?_⟩ <;> decide +kernel
  have hlimits : started.limits = ⟨2, 3, 2⟩ := by decide +kernel
  obtain ⟨r', hrun, hsize, hback⟩ :=
    trust_of_plan hreach hlen hstorable (plan_revivals Json.octets started)
  obtain ⟨e', he', hsame, hscore⟩ := hback starter (by simp [hedges])
  rw [hlimits] at hrun
  refine ⟨r', hrun, by rw [hsize, size, hedges]; rfl, e', he', hsame, fun g s => ?_⟩
  obtain ⟨htrust, hkept⟩ := hscore g s "routing"
  have hget : started.get? ⟨0⟩ = some starter := by simp [get?, hedges, starter]
  refine ⟨by rw [htrust]; rfl, hkept hget⟩

end Registry
end Vouch
