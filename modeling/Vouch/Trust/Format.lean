import Vouch.Trust.Stereotype
import Vouch.Json.Basic
/-!
# The persisted form of statistics

Every record is written as an array of a fixed number of elements in a fixed order. Reading refuses
anything but an array, an array of another length, and an element of another shape, in that order. A
number that is not finite is written as `null`, which no record reads back.

* `Beta.ofJson?_toJson`, `Gaussian.ofJson?_toJson`: finite distributions read back as themselves.
* `RecordFormat.ofJson_eq_ok_iff`: a record is read from an array of the right length and from nothing
  else.
* `EdgeTrust.ofJson_eq_ok_iff`, `CapabilityTrust.ofJson_baseline_eq_ok_iff`,
  `CapabilityTrust.ofJson_throughput_eq_ok_iff`, `Stereotype.ofJson_eq_ok_iff`: the parts that each kind
  of record is read from.
-/
namespace Vouch

/-- Why a record cannot be read. -/
inductive RecordError where
  | notAnArray
  | arity (expected found : Nat)
  | malformed
  deriving DecidableEq, Repr

def RecordError.message : RecordError → String
  | .notAnArray => "Expected an array"
  | .arity expected found => s!"Expected {expected} elements, found {found}"
  | .malformed => "Malformed record"

variable {α : Type} [Scalar α]

/-- A number as JSON. -/
def Json.ofScalar (x : α) : Json α := if Scalar.isFinite x then .real x else .null

/-- The number that a JSON number stands for. -/
def Json.scalar? : Json α → Option α
  | .int i => some (i : α)
  | .real x => some x
  | _ => none

omit [Scalar α] in
/-- The value of a count or of a set of tags. -/
def Json.word? : Json α → Option UInt32
  | .int i => if 0 ≤ i ∧ i < UInt32.size then some (UInt32.ofNat i.toNat) else none
  | _ => none

omit [Scalar α] in
theorem Json.word?_toNat (n : UInt32) : Json.word? (.int n.toNat : Json α) = some n := by
  have h : (n.toNat : Int) < UInt32.size := Int.ofNat_lt.2 n.toNat_lt
  rw [Json.word?, if_pos ⟨Int.natCast_nonneg _, h⟩]
  simp

namespace Beta

def toJson (d : Beta α) : Json α := .arr [.ofScalar d.alpha, .ofScalar d.beta]

def ofJson? : Json α → Option (Beta α)
  | .arr [a, b] => do
    let alpha ← a.scalar?
    let beta ← b.scalar?
    return ⟨alpha, beta⟩
  | _ => none

theorem ofJson?_eq_some_iff {v : Json α} {d : Beta α} :
    ofJson? v = some d ↔
      ∃ a b, v = .arr [a, b] ∧ a.scalar? = some d.alpha ∧ b.scalar? = some d.beta := by
  constructor
  · intro h
    unfold ofJson? at h
    split at h
    · simp only [Option.bind_eq_bind, Option.bind_eq_some_iff, Option.pure_def,
        Option.some.injEq] at h
      obtain ⟨alpha, ha, beta, hb, rfl⟩ := h
      exact ⟨_, _, rfl, ha, hb⟩
    · cases h
  · rintro ⟨a, b, rfl, ha, hb⟩
    simp [ofJson?, ha, hb]

theorem ofJson?_toJson {d : Beta α} (ha : Scalar.isFinite d.alpha) (hb : Scalar.isFinite d.beta) :
    ofJson? d.toJson = some d := by
  simp [toJson, ofJson?, Json.ofScalar, Json.scalar?, ha, hb]

end Beta

namespace Gaussian

def toJson (d : Gaussian α) : Json α :=
  .arr [.ofScalar d.mean, .ofScalar d.variance, .int d.count.toNat]

def ofJson? : Json α → Option (Gaussian α)
  | .arr [m, v, n] => do
    let mean ← m.scalar?
    let variance ← v.scalar?
    let count ← n.word?
    return ⟨mean, variance, count⟩
  | _ => none

theorem ofJson?_eq_some_iff {v : Json α} {d : Gaussian α} :
    ofJson? v = some d ↔
      ∃ m s n, v = .arr [m, s, n] ∧ m.scalar? = some d.mean ∧ s.scalar? = some d.variance ∧
        n.word? = some d.count := by
  constructor
  · intro h
    unfold ofJson? at h
    split at h
    · simp only [Option.bind_eq_bind, Option.bind_eq_some_iff, Option.pure_def,
        Option.some.injEq] at h
      obtain ⟨mean, hm, variance, hs, count, hn, rfl⟩ := h
      exact ⟨_, _, _, rfl, hm, hs, hn⟩
    · cases h
  · rintro ⟨m, s, n, rfl, hm, hs, hn⟩
    simp [ofJson?, hm, hs, hn]

theorem ofJson?_toJson {d : Gaussian α} (hm : Scalar.isFinite d.mean)
    (hv : Scalar.isFinite d.variance) : ofJson? d.toJson = some d := by
  simp [toJson, ofJson?, Json.ofScalar, Json.scalar?, hm, hv, Json.word?_toNat]

end Gaussian

/-- How a kind of record is laid out in an array. -/
structure RecordFormat (α ρ : Type) where
  arity : Nat
  encode : ρ → List (Json α)
  /-- Reads the elements of an array of length `arity`. -/
  decode : List (Json α) → Except RecordError ρ

namespace RecordFormat

variable {ρ : Type}

omit [Scalar α]

def toJson (f : RecordFormat α ρ) (r : ρ) : Json α := .arr (f.encode r)

def ofJson (f : RecordFormat α ρ) : Json α → Except RecordError ρ
  | .arr items =>
    if items.length = f.arity then f.decode items else .error (.arity f.arity items.length)
  | _ => .error .notAnArray

theorem ofJson_eq_ok_iff (f : RecordFormat α ρ) {v : Json α} {r : ρ} :
    f.ofJson v = .ok r ↔
      ∃ items, v = .arr items ∧ items.length = f.arity ∧ f.decode items = .ok r := by
  constructor
  · intro h
    cases v with
    | arr items =>
      simp only [ofJson] at h
      split at h
      · rename_i hl
        exact ⟨items, rfl, hl, h⟩
      · cases h
    | _ => cases h
  · rintro ⟨items, rfl, hl, hd⟩
    simp [ofJson, hl, hd]

end RecordFormat

/-- An element of a record, which has to be of the right shape. -/
def element {τ : Type} : Option τ → Except RecordError τ
  | some x => .ok x
  | none => .error .malformed

omit [Scalar α] in
theorem element_bind_eq_ok_iff {τ ρ : Type} {o : Option τ} {f : τ → Except RecordError ρ} {r : ρ} :
    (element o >>= f) = .ok r ↔ ∃ x, o = some x ∧ f x = .ok r := by
  cases o with
  | none => simp [element, bind, Except.bind]
  | some x => simp [element, bind, Except.bind]

/-- Submission and result statistics. -/
def EdgeTrust.format : RecordFormat α (EdgeTrust α) where
  arity := 2
  encode t := [t.submission.toJson, t.result.toJson]
  decode
    | [s, r] => do
      let submission ← element (Beta.ofJson? s)
      let result ← element (Beta.ofJson? r)
      return ⟨submission, result, none⟩
    | items => .error (.arity 2 items.length)

/-- A record is read from its two parts. -/
theorem EdgeTrust.ofJson_eq_ok_iff {v : Json α} {t : EdgeTrust α} :
    format.ofJson v = .ok t ↔
      ∃ s r, v = .arr [s, r] ∧ Beta.ofJson? s = some t.submission ∧
        Beta.ofJson? r = some t.result ∧ t.lastPing = none := by
  constructor
  · intro h
    obtain ⟨items, rfl, -, h⟩ := (RecordFormat.ofJson_eq_ok_iff _).1 h
    simp only [format] at h
    split at h
    · obtain ⟨submission, hs, h⟩ := element_bind_eq_ok_iff.1 h
      obtain ⟨result, hr, h⟩ := element_bind_eq_ok_iff.1 h
      cases h
      exact ⟨_, _, rfl, hs, hr, rfl⟩
    · cases h
  · rintro ⟨s, r, rfl, hs, hr, hping⟩
    refine (RecordFormat.ofJson_eq_ok_iff _).2 ⟨_, rfl, rfl, ?_⟩
    simp only [format, hs, hr]
    exact congrArg (fun ping => Except.ok (EdgeTrust.mk t.submission t.result ping)) hping.symm

/-- Result quality and, under the throughput model, inbound and outbound traffic. -/
def CapabilityTrust.format : {k : ModelKind} → RecordFormat α (CapabilityTrust α k)
  | .baseline =>
    { arity := 1
      encode := fun t => [t.quality.toJson]
      decode := fun
        | [] => .error (.arity 1 0)
        | q :: _ => do
          let quality ← element (Beta.ofJson? q)
          return .baseline quality }
  | .throughput =>
    { arity := 3
      encode := fun
        | .throughput q inbound outbound => [q.toJson, inbound.toJson, outbound.toJson]
      decode := fun
        | [q, i, o] => do
          let quality ← element (Beta.ofJson? q)
          let inbound ← element (Gaussian.ofJson? i)
          let outbound ← element (Gaussian.ofJson? o)
          return .throughput quality inbound outbound
        | items => .error (.arity 3 items.length) }

theorem CapabilityTrust.ofJson_baseline_eq_ok_iff {v : Json α} {quality : Beta α} :
    format.ofJson v = .ok (.baseline quality) ↔
      ∃ q, v = .arr [q] ∧ Beta.ofJson? q = some quality := by
  constructor
  · intro h
    obtain ⟨items, rfl, hlength, h⟩ := (RecordFormat.ofJson_eq_ok_iff _).1 h
    simp only [format] at h hlength
    split at h
    · cases h
    · rename_i q rest _
      obtain rfl : rest = [] := List.eq_nil_of_length_eq_zero (by simpa using hlength)
      obtain ⟨quality, hq, h⟩ := element_bind_eq_ok_iff.1 h
      cases h
      exact ⟨q, rfl, hq⟩
  · rintro ⟨q, rfl, hq⟩
    refine (RecordFormat.ofJson_eq_ok_iff _).2 ⟨_, rfl, rfl, ?_⟩
    simp only [format, hq]
    rfl

theorem CapabilityTrust.ofJson_throughput_eq_ok_iff {v : Json α} {quality : Beta α}
    {inbound outbound : Gaussian α} :
    format.ofJson v = .ok (.throughput quality inbound outbound) ↔
      ∃ q i o, v = .arr [q, i, o] ∧ Beta.ofJson? q = some quality ∧
        Gaussian.ofJson? i = some inbound ∧ Gaussian.ofJson? o = some outbound := by
  constructor
  · intro h
    obtain ⟨items, rfl, -, h⟩ := (RecordFormat.ofJson_eq_ok_iff _).1 h
    simp only [format] at h
    split at h
    · obtain ⟨quality, hq, h⟩ := element_bind_eq_ok_iff.1 h
      obtain ⟨inbound, hi, h⟩ := element_bind_eq_ok_iff.1 h
      obtain ⟨outbound, ho, h⟩ := element_bind_eq_ok_iff.1 h
      cases h
      exact ⟨_, _, _, rfl, hq, hi, ho⟩
    · cases h
  · rintro ⟨q, i, o, rfl, hq, hi, ho⟩
    refine (RecordFormat.ofJson_eq_ok_iff _).2 ⟨_, rfl, rfl, ?_⟩
    simp only [format, hq, hi, ho]
    rfl

/-- A belief under each name of an object. -/
def Table.betasOfJson? : Json α → Option (Table (Beta α))
  | .obj members => do
    let l ← members.mapM fun m => (Beta.ofJson? m.2).map fun d => (m.1, d)
    return .ofList l
  | _ => none

/-- Tags, edge statistics and the expected quality of each capability. -/
def Stereotype.format : RecordFormat α (Stereotype α) where
  arity := 3
  encode s :=
    [.int s.tags.bits.toNat, EdgeTrust.format.toJson s.edge,
      .obj (s.capabilities.toList.map fun e => (e.1, e.2.toJson))]
  decode
    | [t, e, c] => do
      let tags ← element t.word?
      let edge ← EdgeTrust.format.ofJson e
      let capabilities ← element (Table.betasOfJson? c)
      return ⟨⟨tags⟩, edge, capabilities⟩
    | items => .error (.arity 3 items.length)

/-- A stereotype is read from its three parts. -/
theorem Stereotype.ofJson_eq_ok_iff {v : Json α} {s : Stereotype α} :
    format.ofJson v = .ok s ↔
      ∃ t e c, v = .arr [t, e, c] ∧ t.word? = some s.tags.bits ∧
        EdgeTrust.format.ofJson e = .ok s.edge ∧ Table.betasOfJson? c = some s.capabilities := by
  constructor
  · intro h
    obtain ⟨items, rfl, -, h⟩ := (RecordFormat.ofJson_eq_ok_iff _).1 h
    simp only [format] at h
    split at h
    · rename_i t e c _
      obtain ⟨tags, ht, h⟩ := element_bind_eq_ok_iff.1 h
      cases he : EdgeTrust.format.ofJson e with
      | error cause =>
        rw [he] at h
        cases h
      | ok edge =>
        rw [he] at h
        obtain ⟨capabilities, hc, h⟩ := element_bind_eq_ok_iff.1 h
        cases h
        exact ⟨t, e, c, rfl, ht, he, hc⟩
    · cases h
  · rintro ⟨t, e, c, rfl, ht, he, hc⟩
    refine (RecordFormat.ofJson_eq_ok_iff _).2 ⟨_, rfl, rfl, ?_⟩
    simp only [format, ht, he, hc]
    rfl

end Vouch
