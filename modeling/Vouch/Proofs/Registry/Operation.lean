import Mathlib.Algebra.GroupWithZero.Nat
import Mathlib.Data.List.Nodup
import Vouch.Registry
import Vouch.Proofs.System
/-!
# Operations of the registry as data

A run of the registry is a list of operations, among them changes of the statistics of an edge,
which leave everything else of it alone (`Edge.Steady`). `Registry.Effect` says once what an
operation can do: an edge is appended, one is taken out, or one is replaced in its place.

`Registry.Sound` is what the registry promises: no two edges share an identity or an address, no two
capabilities of an edge a name, nothing is longer than it may be, and the limits are kept.

* `perform_effect`: an operation has one of these effects.
* `Sound.effect`: one operation keeps the promise.
* `Sound.of_reachable`: and so does a run.
-/
namespace Vouch

variable {ε κ : Type}

namespace Edge

/-- A change that leaves the edge itself and the names of its capabilities alone. -/
structure Steady (f : Edge ε κ → Edge ε κ) : Prop where
  id : ∀ e, (f e).id = e.id
  address : ∀ e, (f e).address = e.address
  identity : ∀ e, (f e).identity = e.identity
  names : ∀ e, (f e).capabilities.map Capability.name = e.capabilities.map Capability.name

def announce [Fresh κ] (name : String) (e : Edge ε κ) : Edge ε κ :=
  { e with capabilities := e.capabilities ++ [⟨name, Fresh.fresh⟩] }

def withdraw (name : String) (e : Edge ε κ) : Edge ε κ :=
  { e with capabilities := e.capabilities.eraseP fun c => c.name = name }

theorem capability?_eq_none_iff {e : Edge ε κ} {name : String} :
    e.capability? name = none ↔ name ∉ e.capabilities.map Capability.name := by
  simp [capability?, List.find?_eq_none]

theorem capability?_some {e : Edge ε κ} {name : String} {c : Capability κ}
    (h : e.capability? name = some c) : c ∈ e.capabilities ∧ c.name = name :=
  ⟨List.mem_of_find?_eq_some h, by simpa using List.find?_some h⟩

theorem exists_capability {e : Edge ε κ} {name : String}
    (h : name ∈ e.capabilities.map Capability.name) : ∃ c, e.capability? name = some c :=
  Option.ne_none_iff_exists'.1 fun hn => capability?_eq_none_iff.1 hn h

/-- Names that differ make a capability known by its name. -/
theorem capability?_eq_some_iff {e : Edge ε κ}
    (hn : (e.capabilities.map Capability.name).Nodup) {name : String} {c : Capability κ} :
    e.capability? name = some c ↔ c ∈ e.capabilities ∧ c.name = name := by
  refine ⟨capability?_some, ?_⟩
  rintro ⟨hc, rfl⟩
  obtain ⟨c', hf⟩ := exists_capability (List.mem_map_of_mem hc)
  obtain ⟨hc', hname⟩ := capability?_some hf
  rw [hf, List.inj_on_of_nodup_map hn hc' hc hname]

end Edge

namespace Registry

/-! ## Looking up -/

variable {r r' : Registry ε κ} {e e' : Edge ε κ} {id : EdgeId}

theorem get?_some (h : r.get? id = some e) : e ∈ r.edges ∧ e.id = id :=
  ⟨List.mem_of_find?_eq_some h, by simpa using List.find?_some h⟩

theorem findIdentity?_some {identity : String} (h : r.findIdentity? identity = some e) :
    e ∈ r.edges ∧ e.identity = identity :=
  ⟨List.mem_of_find?_eq_some h, by simpa using List.find?_some h⟩

theorem findIdentity?_eq_none_iff {identity : String} :
    r.findIdentity? identity = none ↔ identity ∉ r.edges.map Edge.identity := by
  simp [findIdentity?, List.find?_eq_none]

theorem findAddress?_eq_none_iff {a : Address} :
    r.findAddress? a = none ↔ a.normalise ∉ r.edges.map Edge.address := by
  simp [findAddress?, List.find?_eq_none]

/-- Where no two edges share an id, each is found under its own. -/
theorem get?_of_mem (hn : (r.edges.map Edge.id).Nodup) (he : e ∈ r.edges) :
    r.get? e.id = some e := by
  cases h : r.get? e.id with
  | none =>
    have hne : e.id ≠ e.id := by simpa using List.find?_eq_none.1 h e he
    exact absurd rfl hne
  | some e' =>
    obtain ⟨he', hid⟩ := get?_some h
    rw [List.inj_on_of_nodup_map hn he' he hid]

theorem modifyFirst_append {p : Edge ε κ → Bool} {f : Edge ε κ → Edge ε κ}
    {pre post : List (Edge ε κ)} (hpre : ∀ x ∈ pre, p x = false) (he : p e = true) :
    modifyFirst p f (pre ++ e :: post) = pre ++ f e :: post := by
  induction pre with
  | nil => simp [modifyFirst, he]
  | cons x pre ih =>
    rw [List.cons_append, modifyFirst, hpre x (by simp)]
    simp [ih fun y hy => hpre y (by simp [hy])]

theorem exists_split (h : r.get? id = some e) :
    ∃ pre post, r.edges = pre ++ e :: post ∧ (∀ x ∈ pre, x.id ≠ id) ∧ e.id = id := by
  obtain ⟨he, pre, post, heq, hpre⟩ := List.find?_eq_some_iff_append.1 h
  exact ⟨pre, post, heq, by simpa using hpre, by simpa using he⟩

theorem modify_eq {f : Edge ε κ → Edge ε κ} {pre post : List (Edge ε κ)}
    (heq : r.edges = pre ++ e :: post) (hpre : ∀ x ∈ pre, x.id ≠ id) (he : e.id = id) :
    r.modify id f = { r with edges := pre ++ f e :: post } := by
  rw [modify, heq, modifyFirst_append (by simpa using hpre) (by simpa using he)]

/-- A replaced edge is found where it was. -/
theorem get?_modify (h : r.get? id = some e) {f : Edge ε κ → Edge ε κ} (hf : (f e).id = e.id) :
    (r.modify id f).get? id = some (f e) := by
  obtain ⟨pre, post, heq, hpre, he⟩ := exists_split h
  rw [modify_eq heq hpre he]
  exact List.find?_eq_some_iff_append.2 ⟨by simp [hf, he], pre, post, rfl, by simpa using hpre⟩

/-! ## Operations -/

/-- A change that is asked of the registry. -/
inductive Op (ε κ : Type) where
  | add (a : Address) (identity : String)
  | remove (id : EdgeId)
  | addCapability (id : EdgeId) (name : String)
  | removeCapability (id : EdgeId) (name : String)
  /-- The statistics of an edge are changed. -/
  | revise (id : EdgeId) (f : Edge ε κ → Edge ε κ) (h : Edge.Steady f)

variable [Fresh ε] [Fresh κ]

/-- The registry that an operation leaves behind. -/
def perform (r : Registry ε κ) : Op ε κ → Registry ε κ
  | .add a identity => (r.add a identity).2
  | .remove id => (r.remove id).2
  | .addCapability id name => (r.addCapability id name).2
  | .removeCapability id name => (r.removeCapability id name).2
  | .revise id f _ => r.modify id f

/-- An edge that has just been registered. -/
def newcomer (r : Registry ε κ) (a : Address) (identity : String) : Edge ε κ :=
  ⟨⟨r.nextId⟩, a.normalise, identity, [], Fresh.fresh⟩

/-! ## What the operations answer -/

section answers

variable {a : Address} {identity name : String} {c : Capability κ}

theorem add_of_known (hlength : identity.utf8ByteSize ≤ maxIdentityLength)
    (h : r.findIdentity? identity = some e) : r.add a identity = (.ok e, r) := by
  simp [add, Nat.not_lt.2 hlength, h]

theorem add_of_new (hlength : identity.utf8ByteSize ≤ maxIdentityLength)
    (hidentity : identity ∉ r.edges.map Edge.identity)
    (haddress : a.normalise ∉ r.edges.map Edge.address) (hsize : r.size < r.limits.edges)
    (hroom : hasRoomPerEdge κ r.limits = true) :
    r.add a identity = (.ok (r.newcomer a identity),
      { r with edges := r.edges ++ [r.newcomer a identity], nextId := r.nextId + 1 }) := by
  simp [add, Nat.not_lt.2 hlength, findIdentity?_eq_none_iff.2 hidentity,
    findAddress?_eq_none_iff.2 haddress, Nat.not_le.2 hsize, hroom, newcomer]

omit [Fresh ε] in
theorem addCapability_of_known (hlength : name.utf8ByteSize ≤ maxCapabilityNameLength)
    (h : r.get? id = some e) (hc : e.capability? name = some c) :
    r.addCapability id name = (.ok c, r) := by
  simp [addCapability, Nat.not_lt.2 hlength, h, hc]

omit [Fresh ε] in
theorem addCapability_of_new (hlength : name.utf8ByteSize ≤ maxCapabilityNameLength)
    (h : r.get? id = some e) (hname : name ∉ e.capabilities.map Capability.name)
    (hper : e.capabilities.length < r.limits.perEdge)
    (htotal : r.capabilityTotal < r.limits.capabilities) :
    r.addCapability id name = (.ok ⟨name, Fresh.fresh⟩, r.modify id (Edge.announce name)) := by
  simp only [addCapability, if_neg (Nat.not_lt.2 hlength), h, Edge.capability?_eq_none_iff.2 hname,
    if_neg (Nat.not_le.2 hper), if_neg (Nat.not_le.2 htotal)]
  rfl

omit [Fresh ε] [Fresh κ] in
theorem withEdge_of_some {β : Type} (h : r.get? id = some e) (f : Edge ε κ → β × Edge ε κ) :
    r.withEdge id f = (some (f e).1, r.modify id fun e => (f e).2) := by
  simp [withEdge, h]

end answers

/-- What an operation can do to a registry. -/
inductive Effect (r : Registry ε κ) : Op ε κ → Registry ε κ → Prop
  | none (op : Op ε κ) : Effect r op r
  /-- There is no room for the capabilities of one more edge. -/
  | squander {a : Address} {identity : String} (hroom : ¬ hasRoomPerEdge κ r.limits = true) :
      Effect r (.add a identity) { r with nextId := r.nextId + 1 }
  | register {a : Address} {identity : String}
      (hlength : identity.utf8ByteSize ≤ maxIdentityLength)
      (hidentity : identity ∉ r.edges.map Edge.identity)
      (haddress : a.normalise ∉ r.edges.map Edge.address) (hsize : r.size < r.limits.edges)
      (hroom : hasRoomPerEdge κ r.limits = true) :
      Effect r (.add a identity)
        { r with edges := r.edges ++ [r.newcomer a identity], nextId := r.nextId + 1 }
  | remove {id : EdgeId} {pre post : List (Edge ε κ)} {e : Edge ε κ}
      (heq : r.edges = pre ++ e :: post) (hpre : ∀ x ∈ pre, x.id ≠ id) (he : e.id = id) :
      Effect r (.remove id) { r with edges := pre ++ post }
  | announce {id : EdgeId} {name : String} {pre post : List (Edge ε κ)} {e : Edge ε κ}
      (heq : r.edges = pre ++ e :: post) (hpre : ∀ x ∈ pre, x.id ≠ id) (he : e.id = id)
      (hlength : name.utf8ByteSize ≤ maxCapabilityNameLength)
      (hname : name ∉ e.capabilities.map Capability.name)
      (hper : e.capabilities.length < r.limits.perEdge)
      (htotal : r.capabilityTotal < r.limits.capabilities) :
      Effect r (.addCapability id name) { r with edges := pre ++ e.announce name :: post }
  | withdraw {id : EdgeId} {name : String} {pre post : List (Edge ε κ)} {e : Edge ε κ}
      (heq : r.edges = pre ++ e :: post) (hpre : ∀ x ∈ pre, x.id ≠ id) (he : e.id = id) :
      Effect r (.removeCapability id name) { r with edges := pre ++ e.withdraw name :: post }
  | revise {id : EdgeId} {f : Edge ε κ → Edge ε κ} (h : Edge.Steady f) {pre post : List (Edge ε κ)}
      {e : Edge ε κ} (heq : r.edges = pre ++ e :: post) (hpre : ∀ x ∈ pre, x.id ≠ id)
      (he : e.id = id) : Effect r (.revise id f h) { r with edges := pre ++ f e :: post }

omit [Fresh ε] [Fresh κ] in
theorem modify_of_none (h : r.get? id = none) (f : Edge ε κ → Edge ε κ) : r.modify id f = r := by
  have hno : ∀ e ∈ r.edges, e.id ≠ id := by simpa [get?, List.find?_eq_none] using h
  have hsame : ∀ l : List (Edge ε κ), (∀ e ∈ l, e.id ≠ id) →
      modifyFirst (fun e => e.id = id) f l = l := by
    intro l
    induction l with
    | nil => exact fun _ => rfl
    | cons e l ih =>
      intro hl
      have hrest := ih fun e he => hl e (by simp [he])
      simp [modifyFirst, hl e (by simp), hrest]
  rw [modify, hsame r.edges hno]

/-- **Nothing else happens.** -/
theorem perform_effect (r : Registry ε κ) (op : Op ε κ) : Effect r op (r.perform op) := by
  cases op with
  | add a identity =>
    simp only [perform, add]
    split
    · exact .none _
    · rename_i hlength
      split
      · exact .none _
      · rename_i hidentity
        split
        · exact .none _
        · rename_i haddress
          split
          · exact .none _
          · rename_i hsize
            split
            · rename_i hroom
              exact .squander hroom
            · rename_i hroom
              exact .register (Nat.not_lt.1 hlength) (findIdentity?_eq_none_iff.1 hidentity)
                (findAddress?_eq_none_iff.1 haddress) (Nat.not_le.1 hsize)
                (Decidable.not_not.1 hroom)
  | remove id =>
    simp only [perform, remove]
    cases h : r.get? id with
    | none => exact .none _
    | some e =>
      obtain ⟨pre, post, heq, hpre, he⟩ := exists_split h
      have herase : (r.edges.eraseP fun e => e.id = id) = pre ++ post := by
        rw [heq, List.eraseP_append_right _ (by simpa using hpre),
          List.eraseP_cons_of_pos (by simpa using he)]
      simp only [herase]
      exact .remove heq hpre he
  | addCapability id name =>
    simp only [perform, addCapability]
    split
    · exact .none _
    · rename_i hlength
      cases h : r.get? id with
      | none => exact .none _
      | some e =>
        obtain ⟨pre, post, heq, hpre, he⟩ := exists_split h
        dsimp only
        split
        · exact .none _
        · rename_i hname
          split
          · exact .none _
          · rename_i hper
            split
            · exact .none _
            · rename_i htotal
              rw [modify_eq heq hpre he]
              exact .announce heq hpre he (Nat.not_lt.1 hlength)
                (Edge.capability?_eq_none_iff.1 hname) (Nat.not_le.1 hper) (Nat.not_le.1 htotal)
  | removeCapability id name =>
    simp only [perform, removeCapability]
    cases h : r.get? id with
    | none => exact .none _
    | some e =>
      obtain ⟨pre, post, heq, hpre, he⟩ := exists_split h
      dsimp only
      split
      · exact .none _
      · rw [modify_eq heq hpre he]
        exact .withdraw heq hpre he
  | revise id f hf =>
    simp only [perform]
    cases h : r.get? id with
    | none =>
      rw [modify_of_none h]
      exact .none _
    | some e =>
      obtain ⟨pre, post, heq, hpre, he⟩ := exists_split h
      rw [modify_eq heq hpre he]
      exact .revise hf heq hpre he

end Registry

/-! ## What the registry promises -/

/-- What the registry promises of one edge. -/
structure Edge.Sound (limits : RegistryLimits) (e : Edge ε κ) : Prop where
  address : e.address.normalise = e.address
  identity_le : e.identity.utf8ByteSize ≤ maxIdentityLength
  names : (e.capabilities.map Capability.name).Nodup
  name_le : ∀ name ∈ e.capabilities.map Capability.name,
    name.utf8ByteSize ≤ maxCapabilityNameLength
  perEdge_le : e.capabilities.length ≤ limits.perEdge

namespace Edge.Sound

variable {limits : RegistryLimits} {e : Edge ε κ}

theorem revise (h : e.Sound limits) {f : Edge ε κ → Edge ε κ} (hf : Edge.Steady f) :
    (f e).Sound limits where
  address := by rw [hf.address, h.address]
  identity_le := by rw [hf.identity]; exact h.identity_le
  names := by rw [hf.names]; exact h.names
  name_le := by rw [hf.names]; exact h.name_le
  perEdge_le := by
    have hlen := congrArg List.length (hf.names e)
    rw [List.length_map, List.length_map] at hlen
    rw [hlen]
    exact h.perEdge_le

theorem announce [Fresh κ] (h : e.Sound limits) {name : String}
    (hlength : name.utf8ByteSize ≤ maxCapabilityNameLength)
    (hname : name ∉ e.capabilities.map Capability.name)
    (hper : e.capabilities.length < limits.perEdge) : (e.announce name).Sound limits where
  address := h.address
  identity_le := h.identity_le
  names := by
    simp only [Edge.announce, List.map_append, List.map_cons, List.map_nil]
    exact List.nodup_append_comm.1 (List.nodup_cons.2 ⟨hname, h.names⟩)
  name_le := by
    intro n hn
    simp only [Edge.announce, List.map_append, List.map_cons, List.map_nil, List.mem_append,
      List.mem_singleton] at hn
    rcases hn with hn | rfl
    · exact h.name_le n hn
    · exact hlength
  perEdge_le := by
    simp only [Edge.announce, List.length_append, List.length_singleton]
    omega

theorem withdraw (h : e.Sound limits) (name : String) : (e.withdraw name).Sound limits := by
  have hsub : (e.withdraw name).capabilities.Sublist e.capabilities := List.eraseP_sublist
  exact ⟨h.address, h.identity_le, h.names.sublist (hsub.map _),
    fun n hn => h.name_le n ((hsub.map _).subset hn), Nat.le_trans hsub.length_le h.perEdge_le⟩

end Edge.Sound

namespace Registry

/-- What the registry promises. -/
structure Sound [Fresh κ] (r : Registry ε κ) : Prop where
  identities : (r.edges.map Edge.identity).Nodup
  addresses : (r.edges.map Edge.address).Nodup
  edge : ∀ e ∈ r.edges, e.Sound r.limits
  size_le : r.size ≤ r.limits.edges
  total_le : r.capabilityTotal ≤ r.limits.capabilities
  room : r.edges ≠ [] → hasRoomPerEdge κ r.limits = true

theorem capabilityTotal_eq (r : Registry ε κ) :
    r.capabilityTotal = (r.edges.map fun e => e.capabilities.length).sum := by
  unfold capabilityTotal
  induction r.edges with
  | nil => rfl
  | cons e edges ih => simp [ih]

namespace Sound

variable [Fresh κ] {r r' : Registry ε κ} {pre post : List (Edge ε κ)} {e e' : Edge ε κ}

theorem empty (limits : RegistryLimits) : (Registry.empty limits : Registry ε κ).Sound where
  identities := List.nodup_nil
  addresses := List.nodup_nil
  edge := fun _ he => absurd he List.not_mem_nil
  size_le := Nat.zero_le _
  total_le := Nat.zero_le _
  room := fun h => absurd rfl h

/-- An edge is replaced in its place. -/
theorem replace (h : r.Sound) (heq : r.edges = pre ++ e :: post)
    (hidentity : e'.identity = e.identity) (haddress : e'.address = e.address)
    (he' : e'.Sound r.limits)
    (htotal : r.capabilityTotal + e'.capabilities.length ≤
      r.limits.capabilities + e.capabilities.length) :
    Sound { r with edges := pre ++ e' :: post } := by
  obtain ⟨hi, ha, hedge, hsize, -, hroom⟩ := h
  rw [capabilityTotal_eq] at htotal
  rw [size] at hsize
  simp only [heq, List.map_append, List.map_cons, List.sum_append, List.sum_cons,
    List.length_append, List.length_cons] at hi ha hedge hsize htotal
  refine ⟨by simpa [hidentity] using hi, by simpa [haddress] using ha, fun x hx => ?_,
    by simpa [size] using hsize, ?_, fun _ => hroom (by simp [heq])⟩
  · rcases List.mem_append.1 hx with hx | hx
    · exact hedge x (by simp [hx])
    · rcases List.mem_cons.1 hx with rfl | hx
      · exact he'
      · exact hedge x (by simp [hx])
  · rw [capabilityTotal_eq]
    simp only [List.map_append, List.map_cons, List.sum_append, List.sum_cons]
    omega

theorem remove (h : r.Sound) (heq : r.edges = pre ++ e :: post) :
    Sound { r with edges := pre ++ post } := by
  obtain ⟨hi, ha, hedge, hsize, htotal, hroom⟩ := h
  have hsub : (pre ++ post).Sublist r.edges := by
    rw [heq]
    exact List.Sublist.append_left (List.sublist_cons_self e post) pre
  refine ⟨hi.sublist (hsub.map _), ha.sublist (hsub.map _), fun x hx => hedge x (hsub.subset hx),
    Nat.le_trans hsub.length_le hsize, ?_, fun _ => hroom (by simp [heq])⟩
  refine Nat.le_trans ?_ htotal
  rw [capabilityTotal_eq, capabilityTotal_eq, heq]
  simp only [List.map_append, List.map_cons, List.sum_append, List.sum_cons]
  omega

theorem register [Fresh ε] (h : r.Sound) {a : Address} {identity : String}
    (hlength : identity.utf8ByteSize ≤ maxIdentityLength)
    (hidentity : identity ∉ r.edges.map Edge.identity)
    (haddress : a.normalise ∉ r.edges.map Edge.address) (hsize : r.size < r.limits.edges)
    (hroom : hasRoomPerEdge κ r.limits = true) :
    Sound { r with edges := r.edges ++ [r.newcomer a identity], nextId := r.nextId + 1 } where
  identities := by
    simp only [List.map_append, List.map_cons, List.map_nil]
    exact List.nodup_append_comm.1 (List.nodup_cons.2 ⟨hidentity, h.identities⟩)
  addresses := by
    simp only [List.map_append, List.map_cons, List.map_nil]
    exact List.nodup_append_comm.1 (List.nodup_cons.2 ⟨haddress, h.addresses⟩)
  edge := by
    intro x hx
    rcases List.mem_append.1 hx with hx | hx
    · exact h.edge x hx
    · rw [List.mem_singleton.1 hx]
      exact ⟨Address.normalise_normalise a, hlength, List.nodup_nil,
        fun _ hn => absurd hn List.not_mem_nil, Nat.zero_le _⟩
  size_le := by
    simp only [size, List.length_append, List.length_singleton] at hsize ⊢
    omega
  total_le := by
    have htotal := h.total_le
    rw [capabilityTotal_eq] at htotal ⊢
    simpa [newcomer] using htotal
  room := fun _ => hroom

/-- **One operation.** -/
theorem effect [Fresh ε] {op : Op ε κ} (h : r.Sound) (he : Effect r op r') : r'.Sound := by
  cases he with
  | none => exact h
  | squander => exact ⟨h.identities, h.addresses, h.edge, h.size_le, h.total_le, h.room⟩
  | register hlength hidentity haddress hsize hroom =>
    exact h.register hlength hidentity haddress hsize hroom
  | remove heq => exact h.remove heq
  | @announce _ name _ _ e heq _ _ hlength hname hper htotal =>
    have hs := h.edge e (by simp [heq])
    refine h.replace heq rfl rfl (hs.announce hlength hname hper) ?_
    simp only [Edge.announce, List.length_append, List.length_singleton]
    omega
  | @withdraw _ name _ _ e heq =>
    have hs := h.edge e (by simp [heq])
    have hlen : (e.withdraw name).capabilities.length ≤ e.capabilities.length :=
      List.eraseP_sublist.length_le
    exact h.replace heq rfl rfl (hs.withdraw name) (Nat.add_le_add h.total_le hlen)
  | @revise _ f hf _ _ e heq =>
    have hs := h.edge e (by simp [heq])
    have hlen := congrArg List.length (hf.names e)
    rw [List.length_map, List.length_map] at hlen
    refine h.replace heq (hf.identity e) (hf.address e) (hs.revise hf) ?_
    rw [hlen]
    exact Nat.add_le_add_right h.total_le _

end Sound

namespace Sound

variable [Fresh κ] {r : Registry ε κ} {e e' : Edge ε κ}

theorem eq_of_identity_eq (h : r.Sound) (he : e ∈ r.edges) (he' : e' ∈ r.edges)
    (hi : e.identity = e'.identity) : e = e' :=
  List.inj_on_of_nodup_map h.identities he he' hi

theorem eq_of_address_eq (h : r.Sound) (he : e ∈ r.edges) (he' : e' ∈ r.edges)
    (ha : e.address = e'.address) : e = e' :=
  List.inj_on_of_nodup_map h.addresses he he' ha

theorem findIdentity?_of_mem (h : r.Sound) (he : e ∈ r.edges) :
    r.findIdentity? e.identity = some e := by
  cases hf : r.findIdentity? e.identity with
  | none => exact absurd (List.mem_map_of_mem he) (findIdentity?_eq_none_iff.1 hf)
  | some e' =>
    obtain ⟨he', hi⟩ := findIdentity?_some hf
    rw [h.eq_of_identity_eq he' he hi]

end Sound

/-- The runs of a registry. -/
def directory (ε κ : Type) [Fresh ε] [Fresh κ] : System (Registry ε κ) (Op ε κ) where
  initial r := ∃ limits, r = empty limits
  step r op := some (r.perform op)

/-- **Any number of operations.** -/
theorem Sound.of_reachable [Fresh ε] [Fresh κ] {r : Registry ε κ}
    (h : (directory ε κ).Reachable r) : r.Sound := by
  refine h.invariant ?_ ?_
  · rintro r ⟨limits, rfl⟩
    exact .empty limits
  · intro r op r' hr hstep
    obtain rfl := Option.some.inj hstep
    exact hr.effect (perform_effect r op)

end Registry
end Vouch
