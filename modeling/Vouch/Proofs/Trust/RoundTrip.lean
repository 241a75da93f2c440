import Vouch.Proofs.Trust.Figure
import Vouch.Proofs.Trust.Recovery
/-!
# Records as values

A record is written as an array of its parts, each of which is read back by itself. For the parts and for
the records that are made of them the same is true (`Json.Faithful`): a finite one reads back, but for what
is not persisted; one with a number that is not finite is written with a `null` in it, and no value with a
`null` in it is ever read. So what cannot be written down is refused, and never comes back as something
else.

* `Json.HasNull`: there is a `null` somewhere in a value.
* `Json.Faithful.ofOption`: what a part has to do with that.
* `EdgeTrust.faithful`, `CapabilityTrust.faithful`, `Stereotype.faithful`: the records.
* `RecordFormat.faithful_formats`: all of them.
-/
namespace Vouch

variable {α τ : Type}

/-! ## Values with a null -/

namespace Json

/-- There is a `null` somewhere in a value. -/
inductive HasNull : Json α → Prop where
  | null : HasNull .null
  | item {v : Json α} {items : List (Json α)} (hv : v ∈ items) (h : v.HasNull) :
      HasNull (.arr items)
  | member {m : String × Json α} {members : List (String × Json α)} (hm : m ∈ members)
      (h : m.2.HasNull) : HasNull (.obj members)

@[simp] theorem hasNull_arr {items : List (Json α)} :
    (arr items).HasNull ↔ ∃ v ∈ items, v.HasNull := by
  constructor
  · intro h
    cases h with
    | item hv h => exact ⟨_, hv, h⟩
  · rintro ⟨v, hv, h⟩
    exact .item hv h

@[simp] theorem hasNull_obj {members : List (String × Json α)} :
    (obj members).HasNull ↔ ∃ m ∈ members, m.2.HasNull := by
  constructor
  · intro h
    cases h with
    | member hm h => exact ⟨_, hm, h⟩
  · rintro ⟨m, hm, h⟩
    exact .member hm h

@[simp] theorem not_hasNull_int (i : Int) : ¬ (int i : Json α).HasNull := by
  intro h
  cases h

@[simp] theorem hasNull_ofScalar [Scalar α] {x : α} :
    (ofScalar x).HasNull ↔ ¬ Scalar.isFinite x = true := by
  unfold ofScalar
  split
  · rename_i hx
    refine iff_of_false ?_ (not_not_intro hx)
    intro h
    cases h
  · rename_i hx
    exact iff_of_true .null hx

theorem not_hasNull_of_scalar? [Scalar α] {v : Json α} {x : α} (h : v.scalar? = some x) :
    ¬ v.HasNull := by
  intro hnull
  cases hnull <;> cases h

theorem not_hasNull_of_word? {v : Json α} {n : UInt32} (h : v.word? = some n) : ¬ v.HasNull := by
  intro hnull
  cases hnull <;> cases h

/-! ## Faithful writing -/

/-- What becomes of a thing that is written as a value and read again, where `kept` is what is to be
left of it. -/
structure Faithful (write : τ → Json α) (read : Json α → Except RecordError τ) (IsFinite : τ → Prop)
    (kept : τ → τ) : Prop where
  /-- Just what is finite reads back, and only as what is kept of it. -/
  read_eq_ok_iff : ∀ x y, read (write x) = .ok y ↔ IsFinite x ∧ y = kept x
  /-- Anything else is refused as malformed. -/
  read_eq_error_iff : ∀ x e, read (write x) = .error e ↔ ¬ IsFinite x ∧ e = .malformed
  /-- What is not kept is not written: what was read is written as it was before. -/
  write_kept : ∀ x, write (kept x) = write x
  /-- All of what was read is kept from then on. -/
  kept_of_read : ∀ v x, read v = .ok x → kept x = x
  /-- What is not finite shows in what is written. -/
  hasNull_iff : ∀ x, (write x).HasNull ↔ ¬ IsFinite x
  /-- Nothing is read from a value with a `null` in it, whoever wrote it. -/
  not_hasNull : ∀ v x, read v = .ok x → ¬ v.HasNull

namespace Faithful

variable {write : τ → Json α} {read : Json α → Except RecordError τ} {IsFinite : τ → Prop}
  {kept : τ → τ} {x : τ}

/-- The two ways in which it can go are all there are. -/
theorem ofCases (hfinite : ∀ x, IsFinite x → read (write x) = .ok (kept x))
    (hnot : ∀ x, ¬ IsFinite x → read (write x) = .error .malformed)
    (hkept : ∀ x, write (kept x) = write x) (hread : ∀ v x, read v = .ok x → kept x = x)
    (hnull : ∀ x, (write x).HasNull ↔ ¬ IsFinite x)
    (hsound : ∀ v x, read v = .ok x → ¬ v.HasNull) : Faithful write read IsFinite kept := by
  refine ⟨fun x y => ?_, fun x e => ?_, hkept, hread, hnull, hsound⟩ <;>
    by_cases hx : IsFinite x
  · simp [hfinite x hx, hx, eq_comm]
  · simp [hnot x hx, hx]
  · simp [hfinite x hx, hx]
  · simp [hnot x hx, hx, eq_comm]

/-- A part, of which all is kept. -/
theorem ofOption {read : Json α → Option τ}
    (hfinite : ∀ x, IsFinite x → read (write x) = some x)
    (hnull : ∀ x, (write x).HasNull ↔ ¬ IsFinite x)
    (hsound : ∀ v x, read v = some x → ¬ v.HasNull) :
    Faithful write (fun v => element (read v)) IsFinite id := by
  have helement {v x} (h : element (read v) = .ok x) : read v = some x := by
    cases hv : read v with
    | none => simp [element, hv] at h
    | some y =>
      rw [hv] at h
      cases h
      rfl
  refine ofCases ?_ ?_ (fun _ => rfl) (fun _ _ _ => rfl) hnull fun v x h => hsound v x (helement h)
  · intro x hx
    simp only [hfinite x hx]
    rfl
  · intro x hx
    cases hv : read (write x) with
    | none => rfl
    | some y => exact absurd ((hnull x).2 hx) (hsound _ y hv)

theorem read_of_isFinite (h : Faithful write read IsFinite kept) (hx : IsFinite x) :
    read (write x) = .ok (kept x) := (h.read_eq_ok_iff x _).2 ⟨hx, rfl⟩

theorem read_of_not (h : Faithful write read IsFinite kept) (hx : ¬ IsFinite x) :
    read (write x) = .error .malformed := (h.read_eq_error_iff x _).2 ⟨hx, rfl⟩

end Faithful
end Json

open Json (Faithful)

/-! ## The parts of records -/

variable [Scalar α]

theorem Beta.isFinite_iff {d : Beta α} :
    d.IsFinite ↔ Scalar.isFinite d.alpha = true ∧ Scalar.isFinite d.beta = true :=
  ⟨fun h => ⟨h.alpha, h.beta⟩, fun h => ⟨h.1, h.2⟩⟩

theorem Beta.not_hasNull_of_ofJson? {v : Json α} {d : Beta α} (h : ofJson? v = some d) :
    ¬ v.HasNull := by
  obtain ⟨a, b, rfl, ha, hb⟩ := ofJson?_eq_some_iff.1 h
  simp [Json.not_hasNull_of_scalar? ha, Json.not_hasNull_of_scalar? hb]

theorem Beta.faithful :
    Faithful (α := α) Beta.toJson (fun v => element (Beta.ofJson? v)) Beta.IsFinite id := by
  refine .ofOption (fun d hd => Beta.ofJson?_toJson hd.alpha hd.beta) (fun d => ?_)
    fun v d => Beta.not_hasNull_of_ofJson?
  simp [Beta.toJson, Beta.isFinite_iff, imp_iff_not_or]

theorem Gaussian.isFinite_iff {d : Gaussian α} :
    d.IsFinite ↔ Scalar.isFinite d.mean = true ∧ Scalar.isFinite d.variance = true :=
  ⟨fun h => ⟨h.mean, h.variance⟩, fun h => ⟨h.1, h.2⟩⟩

theorem Gaussian.not_hasNull_of_ofJson? {v : Json α} {d : Gaussian α} (h : ofJson? v = some d) :
    ¬ v.HasNull := by
  obtain ⟨m, s, n, rfl, hm, hs, hn⟩ := ofJson?_eq_some_iff.1 h
  simp [Json.not_hasNull_of_scalar? hm, Json.not_hasNull_of_scalar? hs,
    Json.not_hasNull_of_word? hn]

theorem Gaussian.faithful :
    Faithful (α := α) Gaussian.toJson (fun v => element (Gaussian.ofJson? v)) Gaussian.IsFinite
      id := by
  refine .ofOption (fun d hd => Gaussian.ofJson?_toJson hd.mean hd.variance) (fun d => ?_)
    fun v d => Gaussian.not_hasNull_of_ofJson?
  simp [Gaussian.toJson, Gaussian.isFinite_iff, imp_iff_not_or]

/-! ## Beliefs by name -/

omit [Scalar α] in
/-- A list is read entry by entry. -/
theorem mapM_eq_some_iff {β γ : Type} {f : β → Option γ} {l : List β} {r : List γ} :
    l.mapM f = some r ↔ l.map f = r.map some := by
  induction l generalizing r with
  | nil => cases r <;> simp
  | cons b l ih =>
    cases r with
    | nil => simp [List.mapM_cons, Option.bind_eq_some_iff]
    | cons c r => simp [List.mapM_cons, Option.bind_eq_some_iff, ih]

namespace Table

/-- All beliefs of a table can be written down. -/
def IsFinite (t : Table (Beta α)) : Prop := ∀ e ∈ t.toList, e.2.IsFinite

def betasToJson (t : Table (Beta α)) : Json α := .obj (t.toList.map fun e => (e.1, e.2.toJson))

theorem betasOfJson?_betasToJson {t : Table (Beta α)} (h : t.IsFinite) :
    betasOfJson? t.betasToJson = some t := by
  have hentries : (t.toList.map fun e => (e.1, e.2.toJson)).mapM
      (fun m => (Beta.ofJson? m.2).map fun d => (m.1, d)) = some t.toList := by
    refine mapM_eq_some_iff.2 ?_
    rw [List.map_map]
    refine List.map_congr_left fun e he => ?_
    simp [Beta.ofJson?_toJson (h e he).alpha (h e he).beta]
  simp only [betasOfJson?, betasToJson, hentries]
  exact congrArg some t.ofList_toList

/-- A table is read from an object, of which every member is read. -/
theorem exists_members_of_betasOfJson? {v : Json α} {t : Table (Beta α)}
    (h : betasOfJson? v = some t) :
    ∃ members, v = .obj members ∧ ∀ m ∈ members, ∃ d, Beta.ofJson? m.2 = some d := by
  unfold betasOfJson? at h
  split at h
  · rename_i members
    simp only [Option.bind_eq_bind, Option.bind_eq_some_iff] at h
    obtain ⟨l, hl, -⟩ := h
    refine ⟨members, rfl, fun m hm => ?_⟩
    have hread := List.mem_map_of_mem (f := fun m => (Beta.ofJson? m.2).map fun d => (m.1, d)) hm
    rw [mapM_eq_some_iff.1 hl] at hread
    obtain ⟨e, -, he⟩ := List.mem_map.1 hread
    obtain ⟨d, hd, -⟩ := Option.map_eq_some_iff.1 he.symm
    exact ⟨d, hd⟩
  · cases h

theorem not_hasNull_of_betasOfJson? {v : Json α} {t : Table (Beta α)} (h : betasOfJson? v = some t) :
    ¬ v.HasNull := by
  obtain ⟨members, rfl, hread⟩ := exists_members_of_betasOfJson? h
  rw [Json.hasNull_obj]
  rintro ⟨m, hm, hnull⟩
  obtain ⟨d, hd⟩ := hread m hm
  exact Beta.not_hasNull_of_ofJson? hd hnull

theorem faithful_betas :
    Faithful (α := α) betasToJson (fun v => element (betasOfJson? v)) IsFinite id := by
  refine .ofOption (fun t => betasOfJson?_betasToJson) (fun t => ?_)
    fun v t => not_hasNull_of_betasOfJson?
  simp [betasToJson, IsFinite, Beta.faithful.hasNull_iff]

end Table

/-! ## The records -/

/-- A record keeps to its format. -/
abbrev RecordFormat.Faithful {ρ : Type} (f : RecordFormat α ρ) (IsFinite : ρ → Prop) (kept : ρ → ρ) :
    Prop := Json.Faithful f.toJson f.ofJson IsFinite kept

namespace EdgeTrust

/-- What is left of a record that was saved. -/
def persisted (t : EdgeTrust α) : EdgeTrust α := { t with lastPing := none }

theorem isFinite_iff {t : EdgeTrust α} : t.IsFinite ↔ t.submission.IsFinite ∧ t.result.IsFinite :=
  ⟨fun h => ⟨h.submission, h.result⟩, fun h => ⟨h.1, h.2⟩⟩

theorem ofJson_toJson_of_not {t : EdgeTrust α} (h : ¬ t.IsFinite) :
    format.ofJson (format.toJson t) = .error .malformed := by
  have hparts : format.ofJson (format.toJson t) = (do
      let submission ← element (Beta.ofJson? t.submission.toJson)
      let result ← element (Beta.ofJson? t.result.toJson)
      return ⟨submission, result, none⟩) := rfl
  rw [isFinite_iff, not_and] at h
  by_cases hs : t.submission.IsFinite
  · rw [hparts, Beta.faithful.read_of_isFinite hs, Beta.faithful.read_of_not (h hs)]
    rfl
  · rw [hparts, Beta.faithful.read_of_not hs]
    rfl

theorem faithful : (format (α := α)).Faithful IsFinite persisted := by
  refine .ofCases (fun t => ofJson_toJson) (fun t => ofJson_toJson_of_not) (fun t => rfl) ?_ ?_ ?_
  · intro v t h
    obtain ⟨-, -, -, -, -, hping⟩ := ofJson_eq_ok_iff.1 h
    rw [persisted, ← hping]
  · intro t
    simp [RecordFormat.toJson, format, Beta.faithful.hasNull_iff, isFinite_iff, imp_iff_not_or]
  · intro v t h
    obtain ⟨s, r, rfl, hs, hr, -⟩ := ofJson_eq_ok_iff.1 h
    simp [Beta.not_hasNull_of_ofJson? hs, Beta.not_hasNull_of_ofJson? hr]

end EdgeTrust

namespace CapabilityTrust

theorem not_hasNull_of_ofJson {k : ModelKind} {v : Json α} {t : CapabilityTrust α k}
    (h : format.ofJson v = .ok t) : ¬ v.HasNull := by
  cases t with
  | baseline quality =>
    obtain ⟨q, rfl, hq⟩ := ofJson_baseline_eq_ok_iff.1 h
    simp [Beta.not_hasNull_of_ofJson? hq]
  | throughput quality inbound outbound =>
    obtain ⟨q, i, o, rfl, hq, hi, ho⟩ := ofJson_throughput_eq_ok_iff.1 h
    simp [Beta.not_hasNull_of_ofJson? hq, Gaussian.not_hasNull_of_ofJson? hi,
      Gaussian.not_hasNull_of_ofJson? ho]

theorem ofJson_toJson_of_not {k : ModelKind} {t : CapabilityTrust α k} (h : ¬ t.IsFinite) :
    (format (k := k)).ofJson (format.toJson t) = .error .malformed := by
  cases t with
  | baseline quality =>
    have hparts : format.ofJson (format.toJson (.baseline quality)) = (do
        let quality ← element (Beta.ofJson? quality.toJson)
        return .baseline quality) := rfl
    rw [hparts, Beta.faithful.read_of_not h]
    rfl
  | throughput quality inbound outbound =>
    have hparts : format.ofJson (format.toJson (.throughput quality inbound outbound)) = (do
        let quality ← element (Beta.ofJson? quality.toJson)
        let inbound ← element (Gaussian.ofJson? inbound.toJson)
        let outbound ← element (Gaussian.ofJson? outbound.toJson)
        return .throughput quality inbound outbound) := rfl
    rw [IsFinite, not_and, not_and] at h
    by_cases hq : quality.IsFinite
    · by_cases hi : inbound.IsFinite
      · rw [hparts, Beta.faithful.read_of_isFinite hq, Gaussian.faithful.read_of_isFinite hi,
          Gaussian.faithful.read_of_not (h hq hi)]
        rfl
      · rw [hparts, Beta.faithful.read_of_isFinite hq, Gaussian.faithful.read_of_not hi]
        rfl
    · rw [hparts, Beta.faithful.read_of_not hq]
      rfl

theorem faithful (k : ModelKind) : (format (α := α) (k := k)).Faithful IsFinite id := by
  refine .ofCases (fun t => ofJson_toJson) (fun t => ofJson_toJson_of_not) (fun t => rfl)
    (fun v t _ => rfl) ?_ fun v t => not_hasNull_of_ofJson
  intro t
  cases t with
  | baseline quality =>
    simp [RecordFormat.toJson, format, CapabilityTrust.quality, Beta.faithful.hasNull_iff, IsFinite]
  | throughput quality inbound outbound =>
    simp [RecordFormat.toJson, format, Beta.faithful.hasNull_iff, Gaussian.faithful.hasNull_iff,
      IsFinite, imp_iff_not_or]

end CapabilityTrust

namespace Stereotype

/-- All numbers of a stereotype can be written down. -/
structure IsFinite (s : Stereotype α) : Prop where
  edge : s.edge.IsFinite
  capabilities : s.capabilities.IsFinite

def persisted (s : Stereotype α) : Stereotype α := { s with edge := s.edge.persisted }

theorem isFinite_iff {s : Stereotype α} : s.IsFinite ↔ s.edge.IsFinite ∧ s.capabilities.IsFinite :=
  ⟨fun h => ⟨h.edge, h.capabilities⟩, fun h => ⟨h.1, h.2⟩⟩

theorem ofJson_toJson {s : Stereotype α} (h : s.IsFinite) :
    format.ofJson (format.toJson s) = .ok s.persisted :=
  ofJson_eq_ok_iff.2 ⟨_, _, _, rfl, Json.word?_toNat _, EdgeTrust.ofJson_toJson h.edge,
    Table.betasOfJson?_betasToJson h.capabilities⟩

theorem ofJson_toJson_of_not {s : Stereotype α} (h : ¬ s.IsFinite) :
    format.ofJson (format.toJson s) = .error .malformed := by
  have hparts : format.ofJson (format.toJson s) = (do
      let tags ← element (Json.word? (.int s.tags.bits.toNat : Json α))
      let edge ← EdgeTrust.format.ofJson (EdgeTrust.format.toJson s.edge)
      let capabilities ← element (Table.betasOfJson? s.capabilities.betasToJson)
      return ⟨⟨tags⟩, edge, capabilities⟩) := rfl
  rw [isFinite_iff, not_and] at h
  by_cases he : s.edge.IsFinite
  · rw [hparts, Json.word?_toNat, EdgeTrust.faithful.read_of_isFinite he,
      Table.faithful_betas.read_of_not (h he)]
    rfl
  · rw [hparts, Json.word?_toNat, EdgeTrust.faithful.read_of_not he]
    rfl

theorem faithful : (format (α := α)).Faithful IsFinite persisted := by
  refine .ofCases (fun s => ofJson_toJson) (fun s => ofJson_toJson_of_not) (fun s => rfl) ?_ ?_ ?_
  · intro v s h
    obtain ⟨-, e, -, -, -, he, -⟩ := ofJson_eq_ok_iff.1 h
    rw [persisted, EdgeTrust.faithful.kept_of_read e _ he]
  · intro s
    have hvalue : format.toJson s = .arr [.int s.tags.bits.toNat, EdgeTrust.format.toJson s.edge,
      s.capabilities.betasToJson] := rfl
    rw [hvalue, isFinite_iff]
    simp [EdgeTrust.faithful.hasNull_iff, Table.faithful_betas.hasNull_iff, imp_iff_not_or]
  · intro v s h
    obtain ⟨t, e, c, rfl, ht, he, hc⟩ := ofJson_eq_ok_iff.1 h
    simp [Json.not_hasNull_of_word? ht, EdgeTrust.faithful.not_hasNull e _ he,
      Table.not_hasNull_of_betasOfJson? hc]

end Stereotype

/-- **Every kind of record reads back just if it is finite.** An edge's record and a stereotype with any
capabilities come back but for the time of the last ping, and a capability's record under either model
comes back whole; written again, it is the value that it was read from. A record with a number that is not
finite is written with a `null` in it and refused, as is any value with a `null` in it. -/
theorem RecordFormat.faithful_formats :
    (EdgeTrust.format (α := α)).Faithful EdgeTrust.IsFinite (fun t => { t with lastPing := none }) ∧
    (CapabilityTrust.format (α := α) (k := .baseline)).Faithful CapabilityTrust.IsFinite id ∧
    (CapabilityTrust.format (α := α) (k := .throughput)).Faithful CapabilityTrust.IsFinite id ∧
    (Stereotype.format (α := α)).Faithful Stereotype.IsFinite
      (fun s => { s with edge := { s.edge with lastPing := none } }) :=
  ⟨EdgeTrust.faithful, CapabilityTrust.faithful _, CapabilityTrust.faithful _, Stereotype.faithful⟩

/-- What to expect of an edge that routes, as far as that is a number. -/
def Stereotype.routing (x : Figure) : Stereotype Figure :=
  ⟨.edge, ⟨.uniform, .uniform, some 7⟩, Table.empty.insert "routing" ⟨x, 1⟩⟩

/-- A stereotype with a ping, and one with a prior that has no value. -/
theorem RecordFormat.faithful_formats_routing :
    Stereotype.format.ofJson (Stereotype.format.toJson (.routing (.exact 3))) =
        .ok { Stereotype.routing (.exact 3) with edge := .fresh } ∧
      (Stereotype.format.toJson (.routing .undefined)).HasNull ∧
      Stereotype.format.ofJson (Stereotype.format.toJson (.routing .undefined)) =
        .error .malformed := by
  obtain ⟨-, -, -, hformat⟩ := RecordFormat.faithful_formats (α := Figure)
  have hfinite : (Stereotype.routing (.exact 3)).IsFinite := by
    refine ⟨⟨⟨rfl, rfl⟩, ⟨rfl, rfl⟩⟩, fun e he => ?_⟩
    obtain rfl : e = ("routing", ⟨.exact 3, 1⟩) := List.mem_singleton.1 he
    exact ⟨rfl, rfl⟩
  have hnot : ¬ (Stereotype.routing .undefined).IsFinite := by
    intro h
    have hprior := h.capabilities ("routing", ⟨.undefined, 1⟩) (List.mem_singleton.2 rfl)
    cases hprior.alpha
  exact ⟨(hformat.read_eq_ok_iff _ _).2 ⟨hfinite, rfl⟩, (hformat.hasNull_iff _).2 hnot,
    (hformat.read_eq_error_iff _ _).2 ⟨hnot, rfl⟩⟩

end Vouch
