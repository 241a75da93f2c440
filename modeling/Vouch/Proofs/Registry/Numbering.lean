import Vouch.Proofs.Registry.Operation
import Vouch.Trust.Edge
/-!
# The numbers of edges

An edge is known by the number it was registered under. Numbers are thirty-two bits wide and are given
out in turn, so no two edges have one number, and the number of an edge that was removed is not given
out again, until the registry has been through all of them. `registrations` counts how far it has
come, without a bound.

* `Numbered.effect`: after `n` registrations the numbers given out are those below `n`, in the order in
  which the edges are kept.
* `Numbered.vacant_run`: a number that was given out and names no edge is not given out again.
* `promises_of_run`: what the registry promises holds after every run, every edge is found as itself
  in each way there is to look for it, and the id of a removed edge is never found again.
-/
namespace Vouch.Registry

variable {ε κ : Type} [Fresh ε] [Fresh κ] {r r' : Registry ε κ} {op : Op ε κ} {e : Edge ε κ}
  {id : EdgeId} {n : Nat}

/-- The registry after a run of operations. -/
def after (r : Registry ε κ) (ops : List (Op ε κ)) : Registry ε κ := ops.foldl perform r

omit [Fresh ε] [Fresh κ] in
/-- One if a registry has become larger, which only a registration does to it. -/
def growth (r r' : Registry ε κ) : Nat := if r.size < r'.size then 1 else 0

/-- How many edges some operations register. -/
def registrations (r : Registry ε κ) : List (Op ε κ) → Nat
  | [] => 0
  | op :: ops => growth r (r.perform op) + registrations (r.perform op) ops

theorem after_append (r : Registry ε κ) (us vs : List (Op ε κ)) :
    r.after (us ++ vs) = (r.after us).after vs := List.foldl_append

theorem registrations_append (r : Registry ε κ) (us vs : List (Op ε κ)) :
    registrations r (us ++ vs) = registrations r us + registrations (r.after us) vs := by
  induction us generalizing r with
  | nil => exact (Nat.zero_add _).symm
  | cons op us ih =>
    rw [List.cons_append, registrations, registrations, ih, Nat.add_assoc]
    rfl

theorem reachable_after (limits : RegistryLimits) (ops : List (Op ε κ)) :
    (directory ε κ).Reachable ((empty limits).after ops) := by
  have hrun (r : Registry ε κ) : (directory ε κ).run r ops = some (r.after ops) := by
    induction ops generalizing r with
    | nil => rfl
    | cons op ops ih => exact ih (r.perform op)
  exact ⟨_, ops, ⟨limits, rfl⟩, hrun _⟩

/-! ## What an operation does to the numbers -/

theorem limits_effect (he : Effect r op r') : r'.limits = r.limits := by
  cases he <;> rfl

theorem limits_after (r : Registry ε κ) (ops : List (Op ε κ)) : (r.after ops).limits = r.limits := by
  induction ops generalizing r with
  | nil => rfl
  | cons op ops ih => exact (ih (r.perform op)).trans (limits_effect (perform_effect r op))

/-- **A registration appends the next number, and nothing else adds any.** -/
theorem ids_effect (he : Effect r op r') :
    (growth r r' = 0 ∧ (r'.edges.map Edge.id).Sublist (r.edges.map Edge.id) ∧
        (hasRoomPerEdge κ r.limits = true → r'.nextId = r.nextId)) ∨
      (growth r r' = 1 ∧ hasRoomPerEdge κ r.limits = true ∧
        r'.edges.map Edge.id = r.edges.map Edge.id ++ [⟨r.nextId⟩] ∧
        r'.nextId = r.nextId + 1) := by
  have kept (hsub : (r'.edges.map Edge.id).Sublist (r.edges.map Edge.id))
      (hnext : hasRoomPerEdge κ r.limits = true → r'.nextId = r.nextId) :
      growth r r' = 0 ∧ (r'.edges.map Edge.id).Sublist (r.edges.map Edge.id) ∧
        (hasRoomPerEdge κ r.limits = true → r'.nextId = r.nextId) := by
    have hlen := hsub.length_le
    rw [List.length_map, List.length_map] at hlen
    exact ⟨if_neg (Nat.not_lt.2 hlen), hsub, hnext⟩
  cases he with
  | none => exact .inl (kept (.refl _) fun _ => rfl)
  | squander hroom => exact .inl (kept (.refl _) fun hr => absurd hr hroom)
  | register _ _ _ _ hroom =>
    exact .inr ⟨if_pos (by simp [size]), hroom, by simp [newcomer], rfl⟩
  | @remove _ pre post e heq =>
    refine .inl (kept (List.Sublist.map Edge.id ?_) fun _ => rfl)
    rw [heq]
    exact List.Sublist.append_left (List.sublist_cons_self e post) pre
  | announce heq => exact .inl (kept (by simp [heq, Edge.announce]) fun _ => rfl)
  | withdraw heq => exact .inl (kept (by simp [heq, Edge.withdraw]) fun _ => rfl)
  | revise hf heq => exact .inl (kept (by simp [heq, hf.id]) fun _ => rfl)

omit [Fresh ε] [Fresh κ] in
theorem get?_eq_none_iff : r.get? id = none ↔ id ∉ r.edges.map Edge.id := by
  simp [get?, List.find?_eq_none]

omit [Fresh ε] in
/-- What has come of `n` registrations. Where there is no room for the capabilities of an edge, numbers
are used up and no edge is ever registered. -/
structure Numbered (r : Registry ε κ) (n : Nat) : Prop where
  nextId : hasRoomPerEdge κ r.limits = true → r.nextId = UInt32.ofNat n
  ascending : (r.edges.map Edge.id).Pairwise fun a b => a.number < b.number
  lt : ∀ id ∈ r.edges.map Edge.id, id.number.toNat < n

namespace Numbered

omit [Fresh ε] in
theorem empty (limits : RegistryLimits) : (Registry.empty limits : Registry ε κ).Numbered 0 :=
  ⟨fun _ => rfl, .nil, fun _ hm => absurd hm List.not_mem_nil⟩

omit [Fresh ε] in
theorem nodup_ids (h : r.Numbered n) : (r.edges.map Edge.id).Nodup := by
  refine h.ascending.imp fun {a b} (hlt : a.number < b.number) => ?_
  rintro rfl
  exact UInt32.lt_irrefl _ hlt

omit [Fresh ε] in
/-- The number that is given out next. -/
theorem toNat_nextId (h : r.Numbered n) (hroom : hasRoomPerEdge κ r.limits = true)
    (hn : n < UInt32.size) : r.nextId.toNat = n := by
  rw [h.nextId hroom, UInt32.toNat_ofNat', Nat.mod_eq_of_lt hn]

/-- **One operation.** -/
theorem effect (h : r.Numbered n) (he : Effect r op r') (hn : n + growth r r' ≤ UInt32.size) :
    r'.Numbered (n + growth r r') := by
  have hlimits := limits_effect he
  rcases ids_effect he with ⟨hg, hsub, hnext⟩ | ⟨hg, hroom, hids, hnext⟩
  · rw [hg]
    refine ⟨fun hr => ?_, h.ascending.sublist hsub, fun id hm => h.lt id (hsub.subset hm)⟩
    rw [hlimits] at hr
    rw [hnext hr]
    exact h.nextId hr
  · rw [hg] at hn ⊢
    have hnat := h.toNat_nextId hroom hn
    refine ⟨fun _ => ?_, ?_, fun id hm => ?_⟩
    · rw [hnext, h.nextId hroom, UInt32.ofNat_add]
      rfl
    · rw [hids]
      refine List.pairwise_append.2 ⟨h.ascending, List.pairwise_singleton _ _, fun a ha b hb => ?_⟩
      rw [List.mem_singleton.1 hb]
      exact UInt32.lt_iff_toNat_lt.2 (hnat ▸ h.lt a ha)
    · rw [hids, List.mem_append, List.mem_singleton] at hm
      rcases hm with hm | rfl
      · exact Nat.lt_succ_of_lt (h.lt id hm)
      · exact Nat.lt_succ_of_le (Nat.le_of_eq hnat)

/-- **Any number of operations.** -/
theorem run (h : r.Numbered n) {ops : List (Op ε κ)}
    (hn : n + registrations r ops ≤ UInt32.size) :
    (r.after ops).Numbered (n + registrations r ops) := by
  induction ops generalizing r n with
  | nil => exact h
  | cons op ops ih =>
    rw [registrations, ← Nat.add_assoc] at hn ⊢
    exact ih (h.effect (perform_effect r op) (Nat.le_of_add_right_le hn)) hn

/-! ## Numbers are not given out again -/

/-- A number that was given out and names no edge still names none after an operation. -/
theorem vacant_effect (h : r.Numbered n) (he : Effect r op r')
    (hn : n + growth r r' ≤ UInt32.size) (hlt : id.number.toNat < n) (hv : r.get? id = none) :
    r'.get? id = none := by
  rw [get?_eq_none_iff] at hv ⊢
  rcases ids_effect he with ⟨-, hsub, -⟩ | ⟨hg, hroom, hids, -⟩
  · exact fun hm => hv (hsub.subset hm)
  · rw [hg] at hn
    rw [hids, List.mem_append, List.mem_singleton]
    rintro (hm | rfl)
    · exact hv hm
    · -- the new number is `n`
      exact Nat.lt_irrefl n (h.toNat_nextId hroom hn ▸ hlt)

/-- **A number that was given out and names no edge** is not given out again. -/
theorem vacant_run (h : r.Numbered n) {ops : List (Op ε κ)}
    (hn : n + registrations r ops ≤ UInt32.size) (hlt : id.number.toNat < n)
    (hv : r.get? id = none) : (r.after ops).get? id = none := by
  induction ops generalizing r n with
  | nil => exact hv
  | cons op ops ih =>
    rw [registrations, ← Nat.add_assoc] at hn
    have he := perform_effect r op
    have hle := Nat.le_of_add_right_le hn
    exact ih (h.effect he hle) hn (Nat.lt_add_right _ hlt) (h.vacant_effect he hle hlt hv)

/-- A removed edge is not found under its id, because no other edge has that id. -/
theorem get?_remove (h : r.Numbered n) (hget : r.get? id = some e) :
    (r.perform (.remove id)).get? id = none := by
  obtain ⟨pre, post, heq, hpre, rfl⟩ := exists_split hget
  have hids := h.nodup_ids
  rw [heq, List.map_append, List.map_cons, List.nodup_middle, List.nodup_cons] at hids
  have hedges : (r.perform (.remove e.id)).edges = pre ++ post := by
    simp only [perform, remove, hget]
    rw [heq, List.eraseP_append_right _ (by simpa using hpre), List.eraseP_cons_of_pos (by simp)]
  rw [get?_eq_none_iff, hedges, List.map_append]
  exact hids.1

end Numbered

/-! ## What holds after every run -/

omit [Fresh ε] in
theorem Sound.findAddress?_of_mem (h : r.Sound) (he : e ∈ r.edges) {a : Address}
    (ha : a.normalise = e.address) : r.findAddress? a = some e := by
  cases hf : r.findAddress? a with
  | none => exact absurd (ha ▸ List.mem_map_of_mem he) (findAddress?_eq_none_iff.1 hf)
  | some e' =>
    have haddress : e'.address = a.normalise := by simpa using List.find?_some hf
    rw [h.eq_of_address_eq (List.mem_of_find?_eq_some hf) he (haddress.trans ha)]

/-- **The registry keeps its promises.** Take any limits and any run of registering and removing
edges, announcing and withdrawing capabilities and changing statistics, from an empty registry, that
registers no more edges than there are numbers. Then identities and addresses are different and of the
right form, the capabilities of an edge have different names that are short enough, and no limit is
exceeded (`Sound`); ids are different; the id of an edge that was removed on the way names nothing; and
every edge is found, as itself, by its id, by its identity, and by every address that normalises to its
own. -/
theorem promises_of_run {limits : RegistryLimits} {ops : List (Op ε κ)}
    (hr : r = (Registry.empty limits).after ops)
    (hn : registrations (Registry.empty limits) ops ≤ UInt32.size) :
    r.limits = limits ∧ r.Sound ∧ (r.edges.map Edge.id).Nodup ∧
      (∀ us id vs, ops = us ++ .remove id :: vs →
        (((Registry.empty limits).after us).get? id).isSome → r.get? id = none) ∧
      ∀ e ∈ r.edges, r.get? e.id = some e ∧ r.findIdentity? e.identity = some e ∧
        ∀ a : Address, a.normalise = e.address → r.findAddress? a = some e := by
  have hsound : r.Sound := hr ▸ Sound.of_reachable (reachable_after limits ops)
  have hempty : (Registry.empty limits : Registry ε κ).Numbered 0 := .empty limits
  have hids : (r.edges.map Edge.id).Nodup := by
    rw [← Nat.zero_add (registrations _ _)] at hn
    exact hr ▸ (hempty.run hn).nodup_ids
  refine ⟨hr ▸ limits_after _ ops, hsound, hids, ?_, fun e he => ⟨get?_of_mem hids he,
    hsound.findIdentity?_of_mem he, fun a ha => hsound.findAddress?_of_mem he ha⟩⟩
  rintro us id vs rfl hsome
  obtain ⟨e, hget⟩ := Option.isSome_iff_exists.1 hsome
  -- up to the removal, at the removal, and after it
  rw [registrations_append, registrations, ← Nat.zero_add (registrations _ us), ← Nat.add_assoc]
    at hn
  have hus := hempty.run (Nat.le_of_add_right_le (Nat.le_of_add_right_le hn))
  have hlt := hus.lt id (List.mem_map.2 ⟨e, get?_some hget⟩)
  have hremoved := hus.effect (perform_effect _ (.remove id)) (Nat.le_of_add_right_le hn)
  rw [hr, after_append]
  exact hremoved.vacant_run hn (Nat.lt_add_right _ hlt) (hus.get?_remove hget)

def firstAddress : Address := ⟨#v[0xfd, 0, 0, 0, 0, 0, 0, 0, 2, 0, 0, 0, 0, 0, 0, 1]⟩

def secondAddress : Address := ⟨#v[0xfd, 0, 0, 0, 0, 0, 0, 0, 2, 0, 0, 0, 0, 0, 0, 2]⟩

/-- The first address under its link-local form. -/
def firstLinkLocal : Address := ⟨#v[0xfe, 0x80, 0, 0, 0, 0, 0, 0, 2, 0, 0, 0, 0, 0, 0, 1]⟩

/-- An edge leaves, and another takes its address, its place and what it had announced. -/
def turnover : List (Op (EdgeTrust Rat) (CapabilityTrust Rat .baseline)) :=
  [.add firstAddress "edge-a", .addCapability ⟨0⟩ "routing", .add secondAddress "edge-b",
    .remove ⟨0⟩, .add firstLinkLocal "edge-c", .addCapability ⟨2⟩ "routing"]

def turned : TrustRegistry Rat .baseline := (Registry.empty ⟨2, 1, 1⟩).after turnover

theorem promises_after_turnover :
    registrations (Registry.empty ⟨2, 1, 1⟩) turnover ≤ UInt32.size ∧
      turned.Sound ∧ turned.get? ⟨0⟩ = none ∧
      ∃ e, turned.edges[1]? = some e ∧ e.identity = "edge-c" ∧ e.capabilities.length = 1 ∧
        turned.get? ⟨2⟩ = some e ∧ turned.findAddress? firstAddress = some e ∧
        turned.findAddress? firstLinkLocal = some e := by
  have hn : registrations (Registry.empty ⟨2, 1, 1⟩) turnover ≤ UInt32.size := by decide +kernel
  obtain ⟨-, hsound, -, hremoved, hfound⟩ := promises_of_run (r := turned) rfl hn
  have hleft : turned.get? ⟨0⟩ = none :=
    hremoved (turnover.take 3) ⟨0⟩ (turnover.drop 4) rfl (by decide +kernel)
  let e : TrustEdge Rat .baseline := ⟨⟨2⟩, firstAddress, "edge-c", [⟨"routing", .fresh⟩], .fresh⟩
  have hat : turned.edges[1]? = some e := by decide +kernel
  obtain ⟨hid, -, haddress⟩ := hfound e (List.mem_of_getElem? hat)
  exact ⟨hn, hsound, hleft, e, hat, rfl, rfl, hid, haddress _ (by decide), haddress _ (by decide)⟩

end Vouch.Registry
