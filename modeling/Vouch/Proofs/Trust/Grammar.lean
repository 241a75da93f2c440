import Mathlib.Data.List.Forall2
import Vouch.Proofs.Trust.RoundTrip
/-!
# What records are read from

The written form of a record is an array with one element for each part, and each element has a shape of
its own (`Json.ArrayOf`): a belief is an array of two numbers, a running mean one of two numbers and a
count, and a stereotype holds a set of tags, the record of an edge and an object of beliefs. Reading takes
every value of that form and no other. What is not an array is refused as such, and an array of another
length for its length, before any of its elements is looked at.

The elements of a record can also be read without their array. That comes to the same, but for a
capability of the baseline model: there the first element is read and what follows it is not looked at.

* `Beta.exists_ofJson?_iff`, `Gaussian.exists_ofJson?_iff`, `Table.exists_betasOfJson?_iff`: the elements.
* `RecordFormat.accepts_formats`: the records.
* `RecordFormat.decode_eq_ofJson_iff`: elements without their array.
-/
namespace Vouch

variable {α : Type}

/-! ## Shapes -/

namespace Json

/-- A number, whole or not. -/
inductive IsNumber : Json α → Prop where
  | int (i : Int) : IsNumber (.int i)
  | real (x : α) : IsNumber (.real x)

/-- A whole number of thirty-two bits. -/
inductive IsWord : Json α → Prop where
  | int {i : Int} (hmin : 0 ≤ i) (hmax : i ≤ 2 ^ 32 - 1) : IsWord (.int i)

/-- An array of just as many elements as there are shapes, each of its own shape. -/
inductive ArrayOf (shapes : List (Json α → Prop)) : Json α → Prop where
  | arr {items : List (Json α)} (h : List.Forall₂ (fun P v => P v) shapes items) :
      ArrayOf shapes (.arr items)

/-- An object under each name of which there is a value of some shape. -/
inductive ObjectOf (P : Json α → Prop) : Json α → Prop where
  | obj {members : List (String × Json α)} (h : ∀ m ∈ members, P m.2) : ObjectOf P (.obj members)

end Json

open Json (IsNumber IsWord ArrayOf ObjectOf)

/-- Two counts. -/
def Beta.Shape : Json α → Prop := ArrayOf [IsNumber, IsNumber]

/-- Mean, variance and count. -/
def Gaussian.Shape : Json α → Prop := ArrayOf [IsNumber, IsNumber, IsWord]

/-- Submissions and results. -/
def EdgeTrust.shapes : List (Json α → Prop) := [Beta.Shape, Beta.Shape]

/-- Result quality and, under the throughput model, traffic in and out. -/
def CapabilityTrust.shapes : ModelKind → List (Json α → Prop)
  | .baseline => [Beta.Shape]
  | .throughput => [Beta.Shape, Gaussian.Shape, Gaussian.Shape]

/-- Tags, the record of an edge, and a belief for each capability. -/
def Stereotype.shapes : List (Json α → Prop) :=
  [IsWord, ArrayOf EdgeTrust.shapes, ObjectOf Beta.Shape]

/-! ## Elements -/

theorem Json.exists_word?_iff {v : Json α} : (∃ n, v.word? = some n) ↔ v.IsWord := by
  constructor
  · rintro ⟨n, h⟩
    cases v with
    | int i =>
      rw [word?, Option.ite_none_right_eq_some] at h
      exact .int h.1.1 (Int.le_sub_one_of_lt h.1.2)
    | _ => cases h
  · rintro ⟨hmin, hmax⟩
    rw [word?, if_pos ⟨hmin, Int.lt_of_le_sub_one hmax⟩]
    exact ⟨_, rfl⟩

section reading

variable [Scalar α] {v : Json α}

theorem Json.exists_scalar?_iff : (∃ x, v.scalar? = some x) ↔ v.IsNumber := by
  constructor
  · rintro ⟨x, h⟩
    cases v with
    | int i => exact .int i
    | real y => exact .real y
    | _ => cases h
  · rintro (i | y)
    · exact ⟨(i : α), rfl⟩
    · exact ⟨y, rfl⟩

theorem Beta.exists_ofJson?_iff : (∃ d, ofJson? v = some d) ↔ Shape v := by
  constructor
  · rintro ⟨d, h⟩
    obtain ⟨a, b, rfl, ha, hb⟩ := ofJson?_eq_some_iff.1 h
    exact .arr (.cons (Json.exists_scalar?_iff.1 ⟨_, ha⟩) (.cons (Json.exists_scalar?_iff.1 ⟨_, hb⟩) .nil))
  · rintro ⟨_ | ⟨ha, _ | ⟨hb, _ | _⟩⟩⟩
    obtain ⟨alpha, ha⟩ := Json.exists_scalar?_iff.2 ha
    obtain ⟨beta, hb⟩ := Json.exists_scalar?_iff.2 hb
    exact ⟨⟨alpha, beta⟩, ofJson?_eq_some_iff.2 ⟨_, _, rfl, ha, hb⟩⟩

theorem Gaussian.exists_ofJson?_iff : (∃ d, ofJson? v = some d) ↔ Shape v := by
  constructor
  · rintro ⟨d, h⟩
    obtain ⟨m, s, n, rfl, hm, hs, hn⟩ := ofJson?_eq_some_iff.1 h
    exact .arr (.cons (Json.exists_scalar?_iff.1 ⟨_, hm⟩) (.cons (Json.exists_scalar?_iff.1 ⟨_, hs⟩)
      (.cons (Json.exists_word?_iff.1 ⟨_, hn⟩) .nil)))
  · rintro ⟨_ | ⟨hm, _ | ⟨hs, _ | ⟨hn, _ | _⟩⟩⟩⟩
    obtain ⟨mean, hm⟩ := Json.exists_scalar?_iff.2 hm
    obtain ⟨variance, hs⟩ := Json.exists_scalar?_iff.2 hs
    obtain ⟨count, hn⟩ := Json.exists_word?_iff.2 hn
    exact ⟨⟨mean, variance, count⟩, ofJson?_eq_some_iff.2 ⟨_, _, _, rfl, hm, hs, hn⟩⟩

/-- One member that is not a belief is enough for none to be read. -/
theorem Table.exists_betasOfJson?_iff : (∃ t, betasOfJson? v = some t) ↔ ObjectOf Beta.Shape v := by
  constructor
  · rintro ⟨t, h⟩
    obtain ⟨members, rfl, hread⟩ := exists_members_of_betasOfJson? h
    exact .obj fun m hm => Beta.exists_ofJson?_iff.1 (hread m hm)
  · rintro ⟨h⟩
    rename_i members
    choose! read hread using fun m hm => Beta.exists_ofJson?_iff.2 (h m hm)
    refine ⟨.ofList (members.map fun m => (m.1, read m)), ?_⟩
    have hl : members.mapM (fun m => (Beta.ofJson? m.2).map fun d => (m.1, d)) =
        some (members.map fun m => (m.1, read m)) := by
      rw [mapM_eq_some_iff, List.map_map]
      refine List.map_congr_left fun m hm => ?_
      simp [hread m hm]
    simp [betasOfJson?, hl]

/-! ## Records -/

theorem EdgeTrust.exists_ofJson_iff : (∃ t, format.ofJson v = .ok t) ↔ ArrayOf shapes v := by
  constructor
  · rintro ⟨t, h⟩
    obtain ⟨s, r, rfl, hs, hr, -⟩ := ofJson_eq_ok_iff.1 h
    exact .arr (.cons (Beta.exists_ofJson?_iff.1 ⟨_, hs⟩) (.cons (Beta.exists_ofJson?_iff.1 ⟨_, hr⟩) .nil))
  · rintro ⟨_ | ⟨hs, _ | ⟨hr, _ | _⟩⟩⟩
    obtain ⟨submission, hs⟩ := Beta.exists_ofJson?_iff.2 hs
    obtain ⟨result, hr⟩ := Beta.exists_ofJson?_iff.2 hr
    exact ⟨⟨submission, result, none⟩, ofJson_eq_ok_iff.2 ⟨_, _, rfl, hs, hr, rfl⟩⟩

theorem CapabilityTrust.exists_ofJson_iff {k : ModelKind} :
    (∃ t : CapabilityTrust α k, format.ofJson v = .ok t) ↔ ArrayOf (shapes k) v := by
  constructor
  · rintro ⟨t, h⟩
    cases t with
    | baseline quality =>
      obtain ⟨q, rfl, hq⟩ := ofJson_baseline_eq_ok_iff.1 h
      exact .arr (.cons (Beta.exists_ofJson?_iff.1 ⟨_, hq⟩) .nil)
    | throughput quality inbound outbound =>
      obtain ⟨q, i, o, rfl, hq, hi, ho⟩ := ofJson_throughput_eq_ok_iff.1 h
      exact .arr (.cons (Beta.exists_ofJson?_iff.1 ⟨_, hq⟩) (.cons (Gaussian.exists_ofJson?_iff.1 ⟨_, hi⟩)
        (.cons (Gaussian.exists_ofJson?_iff.1 ⟨_, ho⟩) .nil)))
  · cases k with
    | baseline =>
      rintro ⟨_ | ⟨hq, _ | _⟩⟩
      obtain ⟨quality, hq⟩ := Beta.exists_ofJson?_iff.2 hq
      exact ⟨.baseline quality, ofJson_baseline_eq_ok_iff.2 ⟨_, rfl, hq⟩⟩
    | throughput =>
      rintro ⟨_ | ⟨hq, _ | ⟨hi, _ | ⟨ho, _ | _⟩⟩⟩⟩
      obtain ⟨quality, hq⟩ := Beta.exists_ofJson?_iff.2 hq
      obtain ⟨inbound, hi⟩ := Gaussian.exists_ofJson?_iff.2 hi
      obtain ⟨outbound, ho⟩ := Gaussian.exists_ofJson?_iff.2 ho
      exact ⟨.throughput quality inbound outbound,
        ofJson_throughput_eq_ok_iff.2 ⟨_, _, _, rfl, hq, hi, ho⟩⟩

/-- The first element is read or malformed. Nothing is made of their number. -/
theorem CapabilityTrust.decode_baseline_ne (q : Json α) (rest : List (Json α))
    (expected found : Nat) :
    (CapabilityTrust.format (α := α) (k := .baseline)).decode (q :: rest) ≠
      .error (.arity expected found) := by
  intro h
  simp only [CapabilityTrust.format] at h
  cases hq : Beta.ofJson? q <;> rw [hq] at h <;> cases h

theorem Stereotype.exists_ofJson_iff : (∃ s, format.ofJson v = .ok s) ↔ ArrayOf shapes v := by
  constructor
  · rintro ⟨s, h⟩
    obtain ⟨t, e, c, rfl, ht, he, hc⟩ := ofJson_eq_ok_iff.1 h
    exact .arr (.cons (Json.exists_word?_iff.1 ⟨_, ht⟩) (.cons (EdgeTrust.exists_ofJson_iff.1 ⟨_, he⟩)
      (.cons (Table.exists_betasOfJson?_iff.1 ⟨_, hc⟩) .nil)))
  · rintro ⟨_ | ⟨ht, _ | ⟨he, _ | ⟨hc, _ | _⟩⟩⟩⟩
    obtain ⟨tags, ht⟩ := Json.exists_word?_iff.2 ht
    obtain ⟨edge, he⟩ := EdgeTrust.exists_ofJson_iff.2 he
    obtain ⟨capabilities, hc⟩ := Table.exists_betasOfJson?_iff.2 hc
    exact ⟨⟨⟨tags⟩, edge, capabilities⟩, ofJson_eq_ok_iff.2 ⟨_, _, _, rfl, ht, he, hc⟩⟩

end reading

namespace RecordFormat

variable {ρ : Type}

/-- Which values a record is read from, and what becomes of the others. -/
structure Accepts (f : RecordFormat α ρ) (shapes : List (Json α → Prop)) : Prop where
  /-- It is read from the arrays of its shape and from nothing else. -/
  exists_ofJson_iff : ∀ v, (∃ r, f.ofJson v = .ok r) ↔ ArrayOf shapes v
  notAnArray : ∀ v, (∀ items, v ≠ .arr items) → f.ofJson v = .error .notAnArray
  /-- Whatever the elements are, their number is checked first. -/
  arity : ∀ items, items.length ≠ shapes.length →
    f.ofJson (.arr items) = .error (.arity shapes.length items.length)

theorem Accepts.of_exists_iff {f : RecordFormat α ρ} {shapes : List (Json α → Prop)}
    (harity : f.arity = shapes.length)
    (h : ∀ v, (∃ r, f.ofJson v = .ok r) ↔ ArrayOf shapes v) : f.Accepts shapes := by
  refine ⟨h, fun v hv => ?_, fun items hlength => ?_⟩
  · cases v with
    | arr items => exact absurd rfl (hv items)
    | _ => rfl
  · rw [← harity] at hlength ⊢
    rw [ofJson, if_neg hlength]

variable [Scalar α]

/-- **A record is read from what is laid out like one, and from nothing else.** The record of an edge is
read from two beliefs, that of a capability from a belief and, under the throughput model, from two running
means as well, and a stereotype from tags, the record of an edge and an object of beliefs. The record in a
stereotype is held to the same rules: what is wrong with it is wrong with the stereotype. -/
theorem accepts_formats :
    (EdgeTrust.format (α := α)).Accepts [Beta.Shape, Beta.Shape] ∧
    (CapabilityTrust.format (α := α) (k := .baseline)).Accepts [Beta.Shape] ∧
    (CapabilityTrust.format (α := α) (k := .throughput)).Accepts
      [Beta.Shape, Gaussian.Shape, Gaussian.Shape] ∧
    (Stereotype.format (α := α)).Accepts
      [IsWord, ArrayOf [Beta.Shape, Beta.Shape], ObjectOf Beta.Shape] ∧
    ∀ (t e c : Json α) (cause : RecordError), t.IsWord → EdgeTrust.format.ofJson e = .error cause →
      Stereotype.format.ofJson (.arr [t, e, c]) = .error cause := by
  refine ⟨.of_exists_iff rfl fun v => EdgeTrust.exists_ofJson_iff,
    .of_exists_iff rfl fun v => CapabilityTrust.exists_ofJson_iff,
    .of_exists_iff rfl fun v => CapabilityTrust.exists_ofJson_iff,
    .of_exists_iff rfl fun v => Stereotype.exists_ofJson_iff, fun t e c cause ht he => ?_⟩
  obtain ⟨tags, ht⟩ := Json.exists_word?_iff.2 ht
  have hparts : Stereotype.format.ofJson (.arr [t, e, c]) = (do
      let tags ← element t.word?
      let edge ← EdgeTrust.format.ofJson e
      let capabilities ← element (Table.betasOfJson? c)
      return ⟨⟨tags⟩, edge, capabilities⟩) := rfl
  rw [hparts, ht, he]
  rfl

/-- A belief as it was before there was anything to go by. -/
def level : Json Rat := .arr [.int 1, .int 1]

/-- A stereotype with one belief too few about edges, one that is read, and what is not looked at in an
array that is too long. -/
theorem accepts_formats_nested :
    Stereotype.format.ofJson (.arr [.int 1, .arr [level], .obj []]) = .error (.arity 2 1) ∧
      (∃ s, Stereotype.format.ofJson
        (.arr [.int 1, .arr [level, level], .obj [("routing", level)]]) = .ok s) ∧
      EdgeTrust.format.ofJson (.arr [level, level, .null] : Json Rat) = .error (.arity 2 3) := by
  obtain ⟨hedge, -, -, hstereotype, hnested⟩ := accepts_formats (α := Rat)
  have hlevel : Beta.Shape level := .arr (.cons (.int 1) (.cons (.int 1) .nil))
  have hmembers : ∀ m ∈ [("routing", level)], Beta.Shape m.2 := by simpa using hlevel
  have htags : (Json.int 1 : Json Rat).IsWord := .int (by decide) (by decide)
  refine ⟨hnested _ _ _ _ htags (hedge.arity [level] (by decide)), ?_,
    hedge.arity [level, level, .null] (by decide)⟩
  exact (hstereotype.exists_ofJson_iff _).2
    (.arr (.cons htags (.cons (.arr (.cons hlevel (.cons hlevel .nil))) (.cons (.obj hmembers) .nil))))

/-! ## Elements without their array -/

omit [Scalar α] in
/-- An array of the right length is read as its elements are. -/
theorem ofJson_arr_of_length {f : RecordFormat α ρ} {items : List (Json α)}
    (h : items.length = f.arity) : f.ofJson (.arr items) = f.decode items := by
  rw [ofJson, if_pos h]

omit [Scalar α] in
/-- So all depends on what is made of the wrong number of elements. -/
theorem decode_eq_ofJson_of_refuses {f : RecordFormat α ρ} {items : List (Json α)}
    (h : items.length ≠ f.arity → f.decode items = .error (.arity f.arity items.length)) :
    f.decode items = f.ofJson (.arr items) := by
  by_cases hlength : items.length = f.arity
  · rw [ofJson_arr_of_length hlength]
  · rw [h hlength, ofJson, if_neg hlength]

/-- **Elements are read as their array is**, and refused with the same error, unless they are more than one
and meant for a capability of the baseline model. Then only the first one counts. -/
theorem decode_eq_ofJson_iff :
    (∀ items, (EdgeTrust.format (α := α)).decode items = EdgeTrust.format.ofJson (.arr items)) ∧
    (∀ items, (CapabilityTrust.format (α := α) (k := .throughput)).decode items =
      CapabilityTrust.format.ofJson (.arr items)) ∧
    (∀ items, (Stereotype.format (α := α)).decode items = Stereotype.format.ofJson (.arr items)) ∧
    (∀ items, (CapabilityTrust.format (α := α) (k := .baseline)).decode items =
      CapabilityTrust.format.ofJson (.arr items) ↔ items.length ≤ 1) ∧
    ∀ q rest, (CapabilityTrust.format (α := α) (k := .baseline)).decode (q :: rest) =
      CapabilityTrust.format.ofJson (.arr [q]) := by
  refine ⟨fun items => decode_eq_ofJson_of_refuses fun h => ?_,
    fun items => decode_eq_ofJson_of_refuses fun h => ?_,
    fun items => decode_eq_ofJson_of_refuses fun h => ?_, fun items => ⟨fun h => ?_, fun h => ?_⟩,
    fun q rest => rfl⟩
  · match items with
    | [] | [_] | _ :: _ :: _ :: _ => rfl
    | [_, _] => exact absurd rfl h
  · match items with
    | [] | [_] | [_, _] | _ :: _ :: _ :: _ :: _ => rfl
    | [_, _, _] => exact absurd rfl h
  · match items with
    | [] | [_] | [_, _] | _ :: _ :: _ :: _ :: _ => rfl
    | [_, _, _] => exact absurd rfl h
  · match items with
    | [] | [_] => exact Nat.le_of_ble_eq_true rfl
    | q :: _ :: rest => exact absurd h (CapabilityTrust.decode_baseline_ne q _ 1 (rest.length + 2))
  · match items with
    | [] | [_] => rfl

end RecordFormat
end Vouch
