import Vouch.Proofs.Registry.Numbering
/-!
# What comes of a call of the registry

A call comes out in one way only. What is there already is given back (`Knows`), even by a registry
that is full. What is new is granted if nothing stands in its way, and then one edge is appended, taken
out, or replaced in its place, while all others stay as they are and where they are (`Grants`). Otherwise
the call is refused for what is checked first, and nothing changes (`Refuses`).

One call fails in another way. An edge that may be registered is not if there is no room for as many
capabilities as the limits allow it; then a number is used up. Only limits that are out of all proportion
come to this.

* `Outcome.call_eq`, `outcome_iff`: in a registry that keeps its promise, the outcome is what the call
  answers and leaves behind, and there is one for every call.
* `outcome_of_reachable`: so it is in every registry, and when exactly a call succeeds.
-/
namespace Vouch.Registry

variable {ε κ : Type}

/-- Something that is asked of the registry. -/
inductive Call where
  | add (a : Address) (identity : String)
  | remove (id : EdgeId)
  | addCapability (id : EdgeId) (name : String)
  | removeCapability (id : EdgeId) (name : String)

/-- What a call gives back. -/
inductive Answer (ε κ : Type) where
  | edge (e : Edge ε κ)
  | capability (c : Capability κ)
  deriving DecidableEq

/-- An answer of either kind, with the registry that is left behind. -/
def reply {τ : Type} (f : τ → Answer ε κ) (p : Except RegistryError τ × Registry ε κ) :
    Except RegistryError (Answer ε κ) × Registry ε κ := (p.1.map f, p.2)

/-- The answer to a call, with the registry that it leaves behind. -/
def call [Fresh ε] [Fresh κ] (r : Registry ε κ) :
    Call → Except RegistryError (Answer ε κ) × Registry ε κ
  | .add a identity => reply .edge (r.add a identity)
  | .remove id => reply .edge (r.remove id)
  | .addCapability id name => reply .capability (r.addCapability id name)
  | .removeCapability id name => reply .capability (r.removeCapability id name)

/-! ## Outcomes -/

/-- Where the edge that an id names stands among the others. -/
structure Stands (r : Registry ε κ) (id : EdgeId) (pre : List (Edge ε κ)) (e : Edge ε κ)
    (post : List (Edge ε κ)) : Prop where
  edges : r.edges = pre ++ e :: post
  first : ∀ x ∈ pre, x.id ≠ id
  id : e.id = id

/-- By the limits an edge may be registered under an address and an identity that no other has. -/
structure Admits (r : Registry ε κ) (a : Address) (identity : String) : Prop where
  length : identity.utf8ByteSize ≤ maxIdentityLength
  identity : identity ∉ r.edges.map Edge.identity
  address : a.normalise ∉ r.edges.map Edge.address
  size : r.size < r.limits.edges

/-- What a call asks for is there already. -/
inductive Knows (r : Registry ε κ) : Call → Answer ε κ → Prop where
  | edge (a : Address) {e : Edge ε κ} (he : e ∈ r.edges) : Knows r (.add a e.identity) (.edge e)
  | capability {id : EdgeId} {e : Edge ε κ} {c : Capability κ} (hget : r.get? id = some e)
      (hc : c ∈ e.capabilities) : Knows r (.addCapability id c.name) (.capability c)

/-- A call is granted: its answer, and the registry that it leaves behind. -/
inductive Grants [Fresh ε] [Fresh κ] (r : Registry ε κ) :
    Call → Answer ε κ → Registry ε κ → Prop where
  | add {a : Address} {identity : String} (h : r.Admits a identity)
      (hroom : hasRoomPerEdge κ r.limits = true) :
      Grants r (.add a identity) (.edge ⟨⟨r.nextId⟩, a.normalise, identity, [], Fresh.fresh⟩)
        { r with
          edges := r.edges ++ [⟨⟨r.nextId⟩, a.normalise, identity, [], Fresh.fresh⟩]
          nextId := r.nextId + 1 }
  | remove {id : EdgeId} {pre post : List (Edge ε κ)} {e : Edge ε κ} (h : r.Stands id pre e post) :
      Grants r (.remove id) (.edge e) { r with edges := pre ++ post }
  | addCapability {id : EdgeId} {name : String} {pre post : List (Edge ε κ)} {e : Edge ε κ}
      (h : r.Stands id pre e post) (hlength : name.utf8ByteSize ≤ maxCapabilityNameLength)
      (hname : name ∉ e.capabilities.map Capability.name)
      (hper : e.capabilities.length < r.limits.perEdge)
      (htotal : r.capabilityTotal < r.limits.capabilities) :
      Grants r (.addCapability id name) (.capability ⟨name, Fresh.fresh⟩)
        { r with
          edges := pre ++ { e with capabilities := e.capabilities ++ [⟨name, Fresh.fresh⟩] } :: post }
  | removeCapability {id : EdgeId} {pre post : List (Edge ε κ)} {e : Edge ε κ}
      {before after : List (Capability κ)} {c : Capability κ} (h : r.Stands id pre e post)
      (hc : e.capabilities = before ++ c :: after) :
      Grants r (.removeCapability id c.name) (.capability c)
        { r with edges := pre ++ { e with capabilities := before ++ after } :: post }

/-- A call is refused, for what goes wrong first. -/
inductive Refuses (r : Registry ε κ) : Call → RegistryError → Prop where
  | longIdentity {a : Address} {identity : String}
      (h : maxIdentityLength < identity.utf8ByteSize) :
      Refuses r (.add a identity) (.nameTooLong identity maxIdentityLength)
  | addressInUse {a : Address} {identity : String} {owner : Edge ε κ}
      (hlength : identity.utf8ByteSize ≤ maxIdentityLength)
      (hidentity : identity ∉ r.edges.map Edge.identity) (howner : owner ∈ r.edges)
      (haddress : owner.address = a.normalise) :
      Refuses r (.add a identity) (.addressInUse a.normalise owner.identity)
  | full {a : Address} {identity : String} (hlength : identity.utf8ByteSize ≤ maxIdentityLength)
      (hidentity : identity ∉ r.edges.map Edge.identity)
      (haddress : a.normalise ∉ r.edges.map Edge.address) (hsize : r.limits.edges ≤ r.size) :
      Refuses r (.add a identity) (.exhausted .edges r.limits.edges)
  | removeUnknown {id : EdgeId} (h : r.get? id = none) : Refuses r (.remove id) (.unknownEdge id)
  | longName {id : EdgeId} {name : String} (h : maxCapabilityNameLength < name.utf8ByteSize) :
      Refuses r (.addCapability id name) (.nameTooLong name maxCapabilityNameLength)
  | announceUnknown {id : EdgeId} {name : String}
      (hlength : name.utf8ByteSize ≤ maxCapabilityNameLength) (h : r.get? id = none) :
      Refuses r (.addCapability id name) (.unknownEdge id)
  | fullEdge {id : EdgeId} {name : String} {e : Edge ε κ}
      (hlength : name.utf8ByteSize ≤ maxCapabilityNameLength) (hget : r.get? id = some e)
      (hname : name ∉ e.capabilities.map Capability.name)
      (hper : r.limits.perEdge ≤ e.capabilities.length) :
      Refuses r (.addCapability id name) (.exhausted .capabilitiesPerEdge r.limits.perEdge)
  | fullPool {id : EdgeId} {name : String} {e : Edge ε κ}
      (hlength : name.utf8ByteSize ≤ maxCapabilityNameLength) (hget : r.get? id = some e)
      (hname : name ∉ e.capabilities.map Capability.name)
      (hper : e.capabilities.length < r.limits.perEdge)
      (htotal : r.limits.capabilities ≤ r.capabilityTotal) :
      Refuses r (.addCapability id name) (.exhausted .capabilities r.limits.capabilities)
  | withdrawUnknown {id : EdgeId} {name : String} (h : r.get? id = none) :
      Refuses r (.removeCapability id name) (.unknownEdge id)
  | unknownCapability {id : EdgeId} {name : String} {e : Edge ε κ} (hget : r.get? id = some e)
      (hname : name ∉ e.capabilities.map Capability.name) :
      Refuses r (.removeCapability id name) (.unknownCapability e.identity name)

/-- What comes of a call. -/
inductive Outcome [Fresh ε] [Fresh κ] (r : Registry ε κ) :
    Call → Except RegistryError (Answer ε κ) × Registry ε κ → Prop where
  | known {c : Call} {x : Answer ε κ} (h : r.Knows c x) : Outcome r c (.ok x, r)
  | granted {c : Call} {x : Answer ε κ} {r' : Registry ε κ} (h : r.Grants c x r') :
      Outcome r c (.ok x, r')
  | refused {c : Call} {error : RegistryError} (h : r.Refuses c error) : Outcome r c (.error error, r)
  /-- There is no room for the capabilities of one more edge. -/
  | noRoom {a : Address} {identity : String} (h : r.Admits a identity)
      (hroom : ¬ hasRoomPerEdge κ r.limits = true) :
      Outcome r (.add a identity) (.error .noRoom, { r with nextId := r.nextId + 1 })

variable {r r' : Registry ε κ} {c : Call} {id : EdgeId} {e : Edge ε κ} {pre post : List (Edge ε κ)}
  {a : Address} {identity name : String}

theorem stands_of_get? (h : r.get? id = some e) : ∃ pre post, r.Stands id pre e post := by
  obtain ⟨pre, post, heq, hpre, he⟩ := exists_split h
  exact ⟨pre, post, heq, hpre, he⟩

theorem Stands.get?_eq (h : r.Stands id pre e post) : r.get? id = some e := by
  refine List.find?_eq_some_iff_append.2 ⟨by simp [h.id], pre, post, h.edges, ?_⟩
  simpa using h.first

theorem Stands.modify_eq (h : r.Stands id pre e post) (f : Edge ε κ → Edge ε κ) :
    r.modify id f = { r with edges := pre ++ f e :: post } :=
  Registry.modify_eq h.edges h.first h.id

/-! ## Every call comes out in its way -/

theorem remove_of_stands (h : r.Stands id pre e post) :
    r.remove id = (.ok e, { r with edges := pre ++ post }) := by
  have herase : (r.edges.eraseP fun e => e.id = id) = pre ++ post := by
    rw [h.edges, List.eraseP_append_right _ (by simpa using h.first),
      List.eraseP_cons_of_pos (by simpa using h.id)]
  simp only [remove, h.get?_eq, herase]

/-- Only the first capability of a name is withdrawn, and there is no other. -/
theorem removeCapability_of_stands {c : Capability κ} {before after : List (Capability κ)}
    (h : r.Stands id pre e post) (hn : (e.capabilities.map Capability.name).Nodup)
    (hc : e.capabilities = before ++ c :: after) :
    r.removeCapability id c.name =
      (.ok c, { r with edges := pre ++ { e with capabilities := before ++ after } :: post }) := by
  have hfound : e.capability? c.name = some c :=
    (Edge.capability?_eq_some_iff hn).2 ⟨by simp [hc], rfl⟩
  have hbefore : ∀ x ∈ before, x.name ≠ c.name := by
    rw [hc, List.map_append, List.map_cons, List.nodup_middle, List.nodup_cons] at hn
    intro x hx heq
    exact hn.1 (heq ▸ List.mem_append_left _ (List.mem_map_of_mem hx))
  have herase : (e.capabilities.eraseP fun x => x.name = c.name) = before ++ after := by
    rw [hc, List.eraseP_append_right _ (by simpa using hbefore), List.eraseP_cons_of_pos (by simp)]
  simp only [removeCapability, h.get?_eq, hfound, h.modify_eq, herase]

variable [Fresh κ]

theorem call_of_knows [Fresh ε] (hr : r.Sound) {x : Answer ε κ} (h : r.Knows c x) :
    r.call c = (.ok x, r) := by
  cases h with
  | edge a he =>
    simp only [call, add_of_known (hr.edge _ he).identity_le (hr.findIdentity?_of_mem he)]
    rfl
  | capability hget hc =>
    have he := hr.edge _ (get?_some hget).1
    have hfound := (Edge.capability?_eq_some_iff he.names).2 ⟨hc, rfl⟩
    have hlength := he.name_le _ (List.mem_map_of_mem hc)
    simp only [call, addCapability_of_known hlength hget hfound]
    rfl

theorem call_of_grants [Fresh ε] (hr : r.Sound) {x : Answer ε κ} (h : r.Grants c x r') :
    r.call c = (.ok x, r') := by
  cases h with
  | add h hroom =>
    simp only [call, add_of_new h.length h.identity h.address h.size hroom]
    rfl
  | remove h =>
    simp only [call, remove_of_stands h]
    rfl
  | addCapability h hlength hname hper htotal =>
    simp only [call, addCapability_of_new hlength h.get?_eq hname hper htotal, h.modify_eq]
    rfl
  | @removeCapability _ _ _ e _ _ _ h hc =>
    have he := hr.edge e (by simp [h.edges])
    simp only [call, removeCapability_of_stands h he.names hc]
    rfl

theorem call_of_refuses [Fresh ε] (hr : r.Sound) {error : RegistryError} (h : r.Refuses c error) :
    r.call c = (.error error, r) := by
  have habsent {e : Edge ε κ} {name : String} (hname : name ∉ e.capabilities.map Capability.name) :
      e.capability? name = none := Edge.capability?_eq_none_iff.2 hname
  cases h with
  | longIdentity h => simp [call, reply, add, h, Except.map]
  | addressInUse hlength hidentity howner haddress =>
    have hfound := hr.findAddress?_of_mem howner haddress.symm
    simp [call, reply, add, Nat.not_lt.2 hlength, findIdentity?_eq_none_iff.2 hidentity, hfound,
      Except.map]
  | full hlength hidentity haddress hsize =>
    simp [call, reply, add, Nat.not_lt.2 hlength, findIdentity?_eq_none_iff.2 hidentity,
      findAddress?_eq_none_iff.2 haddress, hsize, Except.map]
  | removeUnknown h => simp [call, reply, remove, h, Except.map]
  | longName h => simp [call, reply, addCapability, h, Except.map]
  | announceUnknown hlength h =>
    simp [call, reply, addCapability, Nat.not_lt.2 hlength, h, Except.map]
  | fullEdge hlength hget hname hper =>
    simp [call, reply, addCapability, Nat.not_lt.2 hlength, hget, habsent hname, hper, Except.map]
  | fullPool hlength hget hname hper htotal =>
    simp [call, reply, addCapability, Nat.not_lt.2 hlength, hget, habsent hname, Nat.not_le.2 hper,
      htotal, Except.map]
  | withdrawUnknown h => simp [call, reply, removeCapability, h, Except.map]
  | unknownCapability hget hname =>
    simp [call, reply, removeCapability, hget, habsent hname, Except.map]

/-- **The outcome is what the call answers and leaves behind.** -/
theorem Outcome.call_eq [Fresh ε] (hr : r.Sound)
    {p : Except RegistryError (Answer ε κ) × Registry ε κ} (h : r.Outcome c p) : r.call c = p := by
  cases h with
  | known h => exact call_of_knows hr h
  | granted h => exact call_of_grants hr h
  | refused h => exact call_of_refuses hr h
  | noRoom h hroom =>
    simp [call, reply, add, Nat.not_lt.2 h.length, findIdentity?_eq_none_iff.2 h.identity,
      findAddress?_eq_none_iff.2 h.address, Nat.not_le.2 h.size, hroom, Except.map]

/-! ## Every call comes out -/

variable [Fresh ε]

theorem exists_outcome_add (r : Registry ε κ) (a : Address) (identity : String) :
    ∃ p, r.Outcome (.add a identity) p := by
  by_cases hidentity : identity ∈ r.edges.map Edge.identity
  · obtain ⟨e, he, rfl⟩ := List.mem_map.1 hidentity
    exact ⟨_, .known (.edge a he)⟩
  · rcases Nat.lt_or_ge maxIdentityLength identity.utf8ByteSize with hlong | hlength
    · exact ⟨_, .refused (.longIdentity hlong)⟩
    · by_cases haddress : a.normalise ∈ r.edges.map Edge.address
      · obtain ⟨owner, howner, ha⟩ := List.mem_map.1 haddress
        exact ⟨_, .refused (.addressInUse hlength hidentity howner ha)⟩
      · rcases Nat.lt_or_ge r.size r.limits.edges with hsize | hfull
        · have hadmits : r.Admits a identity := ⟨hlength, hidentity, haddress, hsize⟩
          by_cases hroom : hasRoomPerEdge κ r.limits = true
          · exact ⟨_, .granted (.add hadmits hroom)⟩
          · exact ⟨_, .noRoom hadmits hroom⟩
        · exact ⟨_, .refused (.full hlength hidentity haddress hfull)⟩

theorem exists_outcome_addCapability (r : Registry ε κ) (id : EdgeId) (name : String) :
    ∃ p, r.Outcome (.addCapability id name) p := by
  cases hget : r.get? id with
  | none =>
    rcases Nat.lt_or_ge maxCapabilityNameLength name.utf8ByteSize with hlong | hlength
    · exact ⟨_, .refused (.longName hlong)⟩
    · exact ⟨_, .refused (.announceUnknown hlength hget)⟩
  | some e =>
    by_cases hname : name ∈ e.capabilities.map Capability.name
    · obtain ⟨c, hc, rfl⟩ := List.mem_map.1 hname
      exact ⟨_, .known (.capability hget hc)⟩
    · rcases Nat.lt_or_ge maxCapabilityNameLength name.utf8ByteSize with hlong | hlength
      · exact ⟨_, .refused (.longName hlong)⟩
      · rcases Nat.lt_or_ge e.capabilities.length r.limits.perEdge with hper | hfull
        · rcases Nat.lt_or_ge r.capabilityTotal r.limits.capabilities with htotal | hpool
          · obtain ⟨pre, post, hstands⟩ := stands_of_get? hget
            exact ⟨_, .granted (.addCapability hstands hlength hname hper htotal)⟩
          · exact ⟨_, .refused (.fullPool hlength hget hname hper hpool)⟩
        · exact ⟨_, .refused (.fullEdge hlength hget hname hfull)⟩

theorem exists_outcome (r : Registry ε κ) (c : Call) : ∃ p, r.Outcome c p := by
  cases c with
  | add a identity => exact exists_outcome_add r a identity
  | addCapability id name => exact exists_outcome_addCapability r id name
  | remove id =>
    cases hget : r.get? id with
    | none => exact ⟨_, .refused (.removeUnknown hget)⟩
    | some e =>
      obtain ⟨pre, post, hstands⟩ := stands_of_get? hget
      exact ⟨_, .granted (.remove hstands)⟩
  | removeCapability id name =>
    cases hget : r.get? id with
    | none => exact ⟨_, .refused (.withdrawUnknown hget)⟩
    | some e =>
      by_cases hname : name ∈ e.capabilities.map Capability.name
      · obtain ⟨pre, post, hstands⟩ := stands_of_get? hget
        obtain ⟨c, hc, rfl⟩ := List.mem_map.1 hname
        obtain ⟨before, after, heq⟩ := List.append_of_mem hc
        exact ⟨_, .granted (.removeCapability hstands heq)⟩
      · exact ⟨_, .refused (.unknownCapability hget hname)⟩

theorem outcome_iff (hr : r.Sound) {p : Except RegistryError (Answer ε κ) × Registry ε κ} :
    r.Outcome c p ↔ r.call c = p := by
  constructor
  · exact fun h => h.call_eq hr
  · intro h
    obtain ⟨p', hp'⟩ := exists_outcome r c
    rwa [← h, hp'.call_eq hr]

/-- **Calls are exact and leave nothing half done.** In every registry that operations lead to, a call
comes out in one way, and in the way that its circumstances call for (`Outcome`). So a call that fails
leaves the registry as it was, unless what fails is to find room for the capabilities of one more edge,
which uses up a number; and a new edge or capability is registered exactly if what would stand in its way
does not. -/
theorem outcome_of_reachable (h : (directory ε κ).Reachable r) :
    (∀ c p, r.call c = p ↔ r.Outcome c p) ∧
    (∀ c error r', r.call c = (.error error, r') →
      r' = r ∨ error = .noRoom ∧ r' = { r with nextId := r.nextId + 1 }) ∧
    (∀ a identity, identity ∉ r.edges.map Edge.identity →
      ((∃ x r', r.call (.add a identity) = (.ok x, r')) ↔
        identity.utf8ByteSize ≤ 32 ∧ a.normalise ∉ r.edges.map Edge.address ∧
          r.size < r.limits.edges ∧ hasRoomPerEdge κ r.limits = true)) ∧
    (∀ id name, (∀ e, r.get? id = some e → name ∉ e.capabilities.map Capability.name) →
      ((∃ x r', r.call (.addCapability id name) = (.ok x, r')) ↔
        name.utf8ByteSize ≤ 16 ∧ ∃ e, r.get? id = some e ∧
          e.capabilities.length < r.limits.perEdge ∧ r.capabilityTotal < r.limits.capabilities)) := by
  have hr : r.Sound := .of_reachable h
  refine ⟨fun c p => (outcome_iff hr).symm, ?_, ?_, ?_⟩
  · intro c error r' hcall
    cases (outcome_iff hr).2 hcall with
    | refused => exact .inl rfl
    | noRoom => exact .inr ⟨rfl, rfl⟩
  · intro a identity hnew
    constructor
    · intro hok
      obtain ⟨x, r', hcall⟩ := hok
      cases (outcome_iff hr).2 hcall with
      | known hknows =>
        cases hknows with
        | edge a he => exact absurd (List.mem_map_of_mem he) hnew
      | granted hgrants =>
        cases hgrants with
        | add hadmits hroom => exact ⟨hadmits.length, hadmits.address, hadmits.size, hroom⟩
    · intro hfree
      obtain ⟨hlength, haddress, hsize, hroom⟩ := hfree
      exact ⟨_, _, call_of_grants hr (.add ⟨hlength, hnew, haddress, hsize⟩ hroom)⟩
  · intro id name hnew
    constructor
    · intro hok
      obtain ⟨x, r', hcall⟩ := hok
      cases (outcome_iff hr).2 hcall with
      | known hknows =>
        cases hknows with
        | capability hget hc => exact absurd (List.mem_map_of_mem hc) (hnew _ hget)
      | granted hgrants =>
        cases hgrants with
        | addCapability hstands hlength hname hper htotal =>
          exact ⟨hlength, _, hstands.get?_eq, hper, htotal⟩
    · intro hfree
      obtain ⟨hlength, e, hget, hper, htotal⟩ := hfree
      obtain ⟨pre, post, hstands⟩ := stands_of_get? hget
      exact ⟨_, _, call_of_grants hr (.addCapability hstands hlength (hnew e hget) hper htotal)⟩

/-- A result of the edge was good. -/
def praised (e : TrustEdge Rat .baseline) : TrustEdge Rat .baseline :=
  { e with trust := e.trust.recordResult true }

theorem steady_praised : Edge.Steady praised :=
  ⟨fun _ => rfl, fun _ => rfl, fun _ => rfl, fun _ => rfl⟩

/-- The one edge that there may be, with the one capability. -/
def crowding : List (Op (EdgeTrust Rat) (CapabilityTrust Rat .baseline)) :=
  [.add firstAddress "edge-a", .addCapability ⟨0⟩ "routing", .revise ⟨0⟩ praised steady_praised]

def crowded : TrustRegistry Rat .baseline := (Registry.empty ⟨1, 1, 1⟩).after crowding

/-- The edge of that registry. -/
def incumbent : TrustEdge Rat .baseline :=
  ⟨⟨0⟩, firstAddress, "edge-a", [⟨"routing", .fresh⟩], ⟨.uniform, ⟨2, 1⟩, none⟩⟩

/-- A registry whose edges may have more capabilities than there is room for. -/
def boundless : TrustRegistry Rat .baseline := Registry.empty ⟨2, 3, 9223372036854775807⟩

theorem outcome_when_full :
    crowded.call (.add secondAddress "edge-a") = (.ok (.edge incumbent), crowded) ∧
      crowded.call (.addCapability ⟨0⟩ "routing") =
        (.ok (.capability ⟨"routing", .fresh⟩), crowded) ∧
      crowded.call (.add secondAddress "edge-b") = (.error (.exhausted .edges 1), crowded) ∧
      boundless.call (.add firstAddress "edge-a") = (.error .noRoom, { boundless with nextId := 1 }) := by
  have hedges : crowded.edges = [incumbent] := by decide +kernel
  have hlimits : crowded.limits = ⟨1, 1, 1⟩ := by decide +kernel
  have hincumbent : incumbent ∈ crowded.edges := by simp [hedges]
  have hget : crowded.get? ⟨0⟩ = some incumbent := by simp [get?, hedges, incumbent]
  have hrefused : crowded.Refuses (.add secondAddress "edge-b") (.exhausted .edges 1) := by
    have hidentity : "edge-b" ∉ crowded.edges.map Edge.identity := by rw [hedges]; decide
    have haddress : secondAddress.normalise ∉ crowded.edges.map Edge.address := by
      rw [hedges]
      decide
    have hfull := Refuses.full (by decide) hidentity haddress (by rw [hlimits, size, hedges]; decide)
    rwa [hlimits] at hfull
  have hcrowded : (directory _ _).Reachable crowded := reachable_after ⟨1, 1, 1⟩ crowding
  have hboundless : (directory _ _).Reachable boundless := reachable_after _ []
  obtain ⟨houtcome, -⟩ := outcome_of_reachable hcrowded
  obtain ⟨houtcome', -⟩ := outcome_of_reachable hboundless
  refine ⟨(houtcome _ _).2 (.known (.edge secondAddress hincumbent)),
    (houtcome _ _).2 (.known (.capability hget (List.mem_singleton.2 rfl))),
    (houtcome _ _).2 (.refused hrefused), (houtcome' _ _).2 (.noRoom ?_ (by decide))⟩
  exact ⟨by decide, List.not_mem_nil, List.not_mem_nil, by decide⟩

end Vouch.Registry
