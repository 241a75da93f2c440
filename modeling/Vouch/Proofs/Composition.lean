import Vouch.Config.Basic
import Vouch.Proofs.Registry.Operation
import Vouch.Proofs.Store.Consistency
import Vouch.Proofs.Trust.Assembly
/-!
# What a valid configuration is good for

`validate` accepts the configurations that are in bounds (`NodeConfig.InBounds`). An engine takes every
threshold of such a configuration, every name in it can be announced by an edge that has room, and a store
made from it accepts a first certificate.

A registry made from it accepts a first edge only if there is room for as many edges, and for as many
capabilities of one edge, as the configuration asks for. `validate` has no bound for these two numbers.

* `NodeConfig.validate_eq_ok_iff`: what is accepted.
* `Registry.addCapability_of_room`, `Store.add_first`, `Registry.add_first`: what the parts accept.
* `NodeConfig.composes_of_validate`: what an accepted configuration makes.
-/
namespace Vouch

/-! ## What is accepted -/

namespace NodeConfig

variable {α : Type}

/-- The names of capabilities in a configuration. -/
def names (c : NodeConfig α) : List String :=
  c.trust.challenge.toList ++ c.trust.applications.map ApplicationWeights.application ++
    c.trust.thresholds.map ThresholdSetting.capability

/-- Everything in the configuration is within its bounds. -/
structure InBounds [Scalar α] (c : NodeConfig α) : Prop where
  store : c.store.capacity ≠ 0
  registry : c.registry.edges ≠ 0
  names : ∀ name ∈ c.names, 1 ≤ name.utf8ByteSize ∧ name.utf8ByteSize ≤ 16
  thresholds : ∀ t ∈ c.trust.thresholds, 0 < t.threshold.inbound ∧ 0 < t.threshold.outbound

theorem isCapabilityName_iff {name : String} :
    IsCapabilityName name ↔ 1 ≤ name.utf8ByteSize ∧ name.utf8ByteSize ≤ 16 := by
  unfold IsCapabilityName maxCapabilityNameLength
  omega

theorem forall_mem_names_iff {c : NodeConfig α} {p : String → Prop} :
    (∀ name ∈ c.names, p name) ↔ (∀ name ∈ c.trust.challenge.toList, p name) ∧
      (∀ a ∈ c.trust.applications, p a.application) ∧ ∀ t ∈ c.trust.thresholds, p t.capability := by
  simp only [names, List.forall_mem_append, List.forall_mem_map, and_assoc]

theorem checkAll_bind_eq_ok_iff {τ : Type} {check : τ → Except ConfigError Unit} {l : List τ}
    {next : Except ConfigError Unit} :
    (checkAll check l >>= fun _ => next) = .ok () ↔ (∀ x ∈ l, check x = .ok ()) ∧ next = .ok () := by
  rw [← checkAll_eq_ok_iff]
  cases checkAll check l with
  | error e => simp [bind, Except.bind]
  | ok u => simp [bind, Except.bind]

variable [Scalar α] {c : NodeConfig α}

/-- The checks in their order. -/
theorem validate_eq_ok_iff_checks : c.validate = .ok () ↔
    c.store.capacity ≠ 0 ∧ c.registry.edges ≠ 0 ∧
      (∀ name ∈ c.trust.challenge.toList, checkName .challenge name = .ok ()) ∧
      (∀ a ∈ c.trust.applications, checkName .applications a.application = .ok ()) ∧
      ∀ t ∈ c.trust.thresholds, checkThreshold t = .ok () := by
  unfold validate
  by_cases hs : c.store.capacity = 0
  · simp [hs, throw, throwThe, MonadExceptOf.throw, bind, Except.bind]
  · by_cases hr : c.registry.edges = 0
    · simp [hs, hr, throw, throwThe, MonadExceptOf.throw, bind, Except.bind]
    · simp [hs, hr, checkAll_bind_eq_ok_iff, checkAll_eq_ok_iff]

theorem validate_eq_ok_iff : c.validate = .ok () ↔ c.InBounds := by
  rw [validate_eq_ok_iff_checks]
  simp only [checkName_eq_ok_iff, checkThreshold_eq_ok_iff]
  constructor
  · intro h
    obtain ⟨hs, hr, hchallenge, happlications, hthresholds⟩ := h
    refine ⟨hs, hr, ?_, fun t ht => (hthresholds t ht).2⟩
    have hnames := forall_mem_names_iff.2 ⟨hchallenge, happlications, fun t ht => (hthresholds t ht).1⟩
    exact fun name hn => isCapabilityName_iff.1 (hnames name hn)
  · intro h
    have hnames : ∀ name ∈ c.names, IsCapabilityName name :=
      fun name hn => isCapabilityName_iff.2 (h.names name hn)
    obtain ⟨hchallenge, happlications, hthresholds⟩ := forall_mem_names_iff.1 hnames
    exact ⟨h.store, h.registry, hchallenge, happlications,
      fun t ht => ⟨hthresholds t ht, h.thresholds t ht⟩⟩

end NodeConfig

/-! ## What the parts accept -/

namespace Store

/-- A store with a slot accepts a first certificate. -/
theorem add_first {capacity : Nat} (hpos : capacity ≠ 0) (hlt : capacity < 2 ^ 32) (a : Address)
    (k : PublicKey) (c : Certificate) (o : Origin) :
    ∃ id s, (empty capacity a k).add c o = (.ok (.enqueued id), s) ∧
      s.get? id = some (Entry.fresh c o) := by
  have hconsistent := Consistent.empty hlt a k
  have hnone : ¬ (empty capacity a k).Holds c.subject := by
    intro h
    obtain ⟨id, e, hx, -⟩ := h
    rw [get?_empty] at hx
    cases hx
  rcases hconsistent.add_cases o hnone with ⟨hfull, -⟩ | ⟨id, free, hfree, hvacant, hadd⟩
  · simp only [empty, List.map_eq_nil_iff, List.range_eq_nil] at hfull
    have hmod : capacity % UInt32.size = capacity := Nat.mod_eq_of_lt hlt
    omega
  · refine ⟨id, _, hadd, ?_⟩
    rw [get?_fill hvacant, if_pos rfl]

theorem create?_of_lt {capacity : Nat} (hlt : capacity < 2 ^ 32) (a : Address) (k : PublicKey) :
    create? capacity a k = some (empty capacity a k) := by
  have hroom : Room.isFor (2 ^ 32) slotOctets = true := by decide
  rw [create?, if_pos (Room.isFor_of_le (Nat.le_of_lt hlt) hroom)]

end Store

namespace Registry

variable {ε κ : Type}

/-- An edge announces a capability of any name that is not too long if it has announced it already, or if
neither it nor the registry has as many as it may have. -/
theorem addCapability_of_room [Fresh κ] {r : Registry ε κ} {id : EdgeId} {e : Edge ε κ} {name : String}
    (hlength : name.utf8ByteSize ≤ 16) (h : r.get? id = some e)
    (hroom : name ∈ e.capabilities.map Capability.name ∨
      e.capabilities.length < r.limits.perEdge ∧ r.capabilityTotal < r.limits.capabilities) :
    ∃ c r', r.addCapability id name = (.ok c, r') ∧ c.name = name ∧
      r'.findCapability? id name = some c := by
  by_cases hknown : name ∈ e.capabilities.map Capability.name
  · obtain ⟨c, hc⟩ := Edge.exists_capability hknown
    refine ⟨c, r, addCapability_of_known hlength h hc, (Edge.capability?_some hc).2, ?_⟩
    rw [findCapability?, h]
    exact hc
  · obtain ⟨hper, htotal⟩ := hroom.resolve_left hknown
    refine ⟨_, _, addCapability_of_new hlength h hknown hper htotal, rfl, ?_⟩
    have hfound : (e.announce name).capability? name = some ⟨name, Fresh.fresh⟩ := by
      have hnone := Edge.capability?_eq_none_iff.2 hknown
      rw [Edge.capability?] at hnone
      simp [Edge.announce, Edge.capability?, List.find?_append, hnone]
    rw [findCapability?, get?_modify (f := Edge.announce name) h rfl]
    exact hfound

variable [Fresh ε]

theorem create?_eq_some_iff {limits : RegistryLimits} {r : Registry ε κ} :
    create? limits = some r ↔
      limits.edges * (72 + Fresh.octets ε) ≤ Room.limit ∧ r = empty limits := by
  unfold create? hasRoom Room.isFor
  by_cases h : limits.edges * (72 + Fresh.octets ε) ≤ Room.limit <;> simp [h, eq_comm]

variable [Fresh κ]

/-- A registry for edges registers a first one if there is room for the capabilities that it may have. -/
theorem add_first {limits : RegistryLimits} (hpos : limits.edges ≠ 0) (a : Address) {identity : String}
    (hlength : identity.utf8ByteSize ≤ 32)
    (hroom : limits.perEdge * (24 + Fresh.octets κ) ≤ Room.limit) :
    ∃ e r, (empty limits : Registry ε κ).add a identity = (.ok e, r) ∧ r.edges = [e] ∧
      e.address = a.normalise ∧ e.identity = identity ∧ e.capabilities = [] := by
  have hsize : (empty limits : Registry ε κ).size < limits.edges := Nat.pos_of_ne_zero hpos
  exact ⟨_, _, add_of_new hlength List.not_mem_nil List.not_mem_nil hsize (decide_eq_true hroom),
    rfl, rfl, rfl, rfl⟩

/-- Where there is none, it registers none. -/
theorem add_of_no_room {limits : RegistryLimits} (hpos : limits.edges ≠ 0) (a : Address)
    {identity : String} (hlength : identity.utf8ByteSize ≤ 32)
    (hroom : ¬ limits.perEdge * (24 + Fresh.octets κ) ≤ Room.limit) :
    ((empty limits : Registry ε κ).add a identity).1 = .error .noRoom := by
  have hlong : ¬ maxIdentityLength < identity.utf8ByteSize := Nat.not_lt.2 hlength
  have hno : hasRoomPerEdge κ limits = false := decide_eq_false hroom
  have hsize : ¬ limits.edges ≤ (empty limits : Registry ε κ).size := by
    show ¬ limits.edges ≤ 0
    omega
  have hidentity : (empty limits : Registry ε κ).findIdentity? identity = none := rfl
  have haddress : (empty limits : Registry ε κ).findAddress? a = none := rfl
  have hlimits : (empty limits : Registry ε κ).limits = limits := rfl
  simp [add, hlong, hidentity, haddress, hlimits, hsize, hno]

end Registry

namespace NodeConfig

variable {α : Type} [Scalar α] {ε κ : Type} [Fresh ε] [Fresh κ] {c : NodeConfig α}

theorem InBounds.isPositive (h : c.InBounds) {t : ThresholdSetting α} (ht : t ∈ c.trust.thresholds) :
    t.threshold.IsPositive := h.thresholds t ht

/-- No threshold is passed over. -/
theorem InBounds.thresholds_taken (h : c.InBounds) (k : ModelKind) :
    .thresholdsIgnored ∉ (Engine.ofConfig k c.trust).2 ∧
      ∀ name, (Engine.ofConfig k c.trust).1.thresholds.find? name =
        Engine.lastThreshold? c.trust.thresholds name := by
  constructor
  · rw [Engine.thresholdsIgnored_mem_iff]
    intro hex
    obtain ⟨t, ht, hnot⟩ := hex
    exact hnot (h.isPositive ht)
  · intro name
    have hall : (c.trust.thresholds.filter fun t => t.threshold.IsPositive) = c.trust.thresholds :=
      List.filter_eq_self.2 fun t ht => decide_eq_true (h.isPositive ht)
    rw [Engine.find?_ofConfig, hall]

/-- **What a configuration is good for.** `validate` accepts exactly the configurations in bounds. Whatever
the statistics that are kept of edges and of capabilities, and however large they are, an accepted
configuration makes
* an engine that has passed over none of the thresholds, takes each of them whenever it is set, and holds for
  every name the one given last for it;
* names that can be announced by every edge, of every registry, that has announced them already or has room;
* for a capacity below 2^32, a store in which every first certificate gets an entry;
* a registry just if there is room for its edges, and that registers a first edge just if there is
  room for the capabilities of one; both numbers are as configured, however large. -/
theorem composes_of_validate (ε κ : Type) [Fresh ε] [Fresh κ] (k : ModelKind) (c : NodeConfig α) :
    (c.validate = .ok () ↔ c.InBounds) ∧
    (c.validate = .ok () →
      (.thresholdsIgnored ∉ (Engine.ofConfig k c.trust).2 ∧
        (∀ (g : Engine α), ∀ t ∈ c.trust.thresholds,
          (g.setThreshold t.capability t.threshold).1 = .ok ()) ∧
        ∀ name, (Engine.ofConfig k c.trust).1.thresholds.find? name =
          Engine.lastThreshold? c.trust.thresholds name) ∧
      (∀ name ∈ c.names, ∀ (r : Registry ε κ) id e, r.get? id = some e →
        name ∈ e.capabilities.map Capability.name ∨
          e.capabilities.length < r.limits.perEdge ∧ r.capabilityTotal < r.limits.capabilities →
        ∃ capability r', r.addCapability id name = (.ok capability, r') ∧ capability.name = name ∧
          r'.findCapability? id name = some capability) ∧
      (c.store.capacity < 2 ^ 32 → ∀ a rootKey, ∃ s,
        Store.create? c.store.capacity a rootKey = some s ∧
        ∀ certificate o, ∃ id s', s.add certificate o = (.ok (.enqueued id), s') ∧
          s'.get? id = some (Entry.fresh certificate o)) ∧
      ((∃ r : Registry ε κ, Registry.create? c.registry = some r) ↔
        c.registry.edges * (72 + Fresh.octets ε) ≤ 9223372036854775807) ∧
      ∀ r : Registry ε κ, Registry.create? c.registry = some r → ∀ a identity,
        identity.utf8ByteSize ≤ 32 →
        (c.registry.perEdge * (24 + Fresh.octets κ) ≤ 9223372036854775807 →
          ∃ e r', r.add a identity = (.ok e, r') ∧ r'.edges = [e] ∧ e.address = a.normalise ∧
            e.identity = identity ∧ e.capabilities = []) ∧
        (¬ c.registry.perEdge * (24 + Fresh.octets κ) ≤ 9223372036854775807 →
          (r.add a identity).1 = .error .noRoom)) := by
  refine ⟨validate_eq_ok_iff, ?_⟩
  intro hvalid
  have h := validate_eq_ok_iff.1 hvalid
  obtain ⟨hnotice, hlast⟩ := h.thresholds_taken k
  refine ⟨⟨hnotice, ?_, hlast⟩, ?_, ?_, ?_, ?_⟩
  · intro g t ht
    rw [Engine.setThreshold_of_isPositive (h.isPositive ht)]
  · intro name hn r id e hx hroom
    exact Registry.addCapability_of_room (h.names name hn).2 hx hroom
  · intro hlt a rootKey
    exact ⟨_, Store.create?_of_lt hlt a rootKey, Store.add_first h.store hlt a rootKey⟩
  · simp only [Registry.create?_eq_some_iff, exists_and_left, exists_eq, and_true, Room.limit]
  · intro r hr a identity hlength
    obtain ⟨-, rfl⟩ := Registry.create?_eq_some_iff.1 hr
    exact ⟨Registry.add_first h.registry a hlength, Registry.add_of_no_room h.registry a hlength⟩

/-- The default configuration, but for more edges than there is room for. -/
def sprawling : NodeConfig α := { default with registry := ⟨9223372036854775807, 12, 4⟩ }

/-- It is accepted, and no registry is made from it. -/
theorem no_registry_of_sprawling :
    (sprawling : NodeConfig Rat).validate = .ok () ∧
    (Registry.create? (sprawling : NodeConfig Rat).registry : Option (TrustRegistry Rat .baseline)) =
      none := by
  have hvalid : (sprawling : NodeConfig Rat).validate = .ok () := rfl
  obtain ⟨-, hmade⟩ := composes_of_validate (EdgeTrust Rat) (CapabilityTrust Rat .baseline) .baseline
    (sprawling : NodeConfig Rat)
  obtain ⟨-, -, -, hroom, -⟩ := hmade hvalid
  refine ⟨hvalid, Option.eq_none_iff_forall_ne_some.2 ?_⟩
  intro r hr
  exact absurd (hroom.1 ⟨r, hr⟩) (by decide)

end NodeConfig
end Vouch
