import Vouch.Proofs.Json.Value
import Vouch.Proofs.Trust.Grammar
import Vouch.Proofs.Trust.Locality
/-!
# Restoring is all or nothing

Whatever octets come in, the record of an edge or of a capability is either refused, and then nothing has
changed, or replaced by the record that was read, and then nothing else has (`Edge.Refuses`,
`Edge.Replaced`). Which of the two is settled before anything is written: the octets are read first, and
all that can be wrong with them comes out there (`RecordFormat.Rejects`), then the capability is looked up,
then the whole record is put in place.

A record that was read has finite numbers only, so the octets it is saved as are read as the same record.
Restoring from them is restoring what is there.

* `RecordFormat.rejects_of_error`: why no record is read.
* `Edge.restoreOf_cases`: refused, or replaced.
* `Edge.Replaced.again`: a restored record restores to itself.
* `Registry.restore_all_or_nothing`: an edge among others.
-/
namespace Vouch

open Json (ArrayOf)

variable {k : ModelKind}

/-! ## What was read -/

namespace RecordFormat

variable {ρ : Type} {f : RecordFormat Float ρ} {shapes : List (Json Float → Prop)} {b : Bytes}

/-- Why no record with elements of some shapes is read from octets. -/
inductive Rejects (f : RecordFormat Float ρ) (shapes : List (Json Float → Prop)) (b : Bytes) :
    RecordError → Prop where
  | notJson (h : Json.parseOctets? b = none) : Rejects f shapes b .malformed
  | notAnArray {v : Json Float} (h : Json.parseOctets? b = some v) (hv : ∀ items, v ≠ .arr items) :
      Rejects f shapes b .notAnArray
  | arity {items : List (Json Float)} (h : Json.parseOctets? b = some (.arr items))
      (hlength : items.length ≠ f.arity) : Rejects f shapes b (.arity f.arity items.length)
  | element {items : List (Json Float)} (h : Json.parseOctets? b = some (.arr items))
      (hlength : items.length = f.arity) (hshape : ¬ ArrayOf shapes (.arr items)) :
      Rejects f shapes b .malformed

/-- Octets are checked for being a value, an array, one of the right length, and one of the right elements,
in this order. -/
theorem rejects_of_error {cause : RecordError} (h : f.ofOctets b = .error cause)
    (hshapes : ∀ v, (∃ t, f.ofJson v = .ok t) ↔ ArrayOf shapes v)
    (helement : ∀ items cause, items.length = f.arity → f.decode items = .error cause →
      cause = .malformed) : f.Rejects shapes b cause := by
  unfold ofOctets at h
  cases hparse : Json.parseOctets? b with
  | none =>
    rw [hparse] at h
    cases h
    exact .notJson hparse
  | some v =>
    rw [hparse] at h
    cases v with
    | arr items =>
      by_cases hlength : items.length = f.arity
      · have hshape : ¬ ArrayOf shapes (.arr items) := fun hshape => by
          obtain ⟨t, ht⟩ := (hshapes _).2 hshape
          cases ht.symm.trans h
        change f.ofJson (.arr items) = .error cause at h
        rw [ofJson_arr_of_length hlength] at h
        rw [helement items cause hlength h]
        exact .element hparse hlength hshape
      · simp only [ofJson, if_neg hlength, Except.error.injEq] at h
        rw [← h]
        exact .arity hparse hlength
    | _ =>
      cases h
      exact .notAnArray hparse fun _ hv => by cases hv

/-- What was read as a value, if a record was read. -/
theorem exists_parseOctets? {t : ρ} (h : f.ofOctets b = .ok t) :
    ∃ v, Json.parseOctets? b = some v ∧ f.ofJson v = .ok t := by
  unfold ofOctets at h
  split at h
  · rename_i v hv
    exact ⟨v, hv, h⟩
  · cases h

end RecordFormat

theorem EdgeTrust.rejects_of_error {b : Bytes} {cause : RecordError}
    (h : (format (α := Float)).ofOctets b = .error cause) : format.Rejects EdgeTrust.shapes b cause := by
  refine RecordFormat.rejects_of_error h (fun v => exists_ofJson_iff) fun items cause hlength hdecode => ?_
  obtain ⟨s, r, rfl⟩ := List.length_eq_two.1 hlength
  simp only [format] at hdecode
  cases hs : Beta.ofJson? s <;> cases hr : Beta.ofJson? r <;> rw [hs, hr] at hdecode <;>
    cases hdecode <;> rfl

theorem CapabilityTrust.rejects_of_error {b : Bytes} {cause : RecordError}
    (h : (format (k := k)).ofOctets b = .error cause) :
    (format (k := k)).Rejects (CapabilityTrust.shapes k) b cause := by
  refine RecordFormat.rejects_of_error h (fun v => exists_ofJson_iff) fun items cause hlength hdecode => ?_
  cases k with
  | baseline =>
    obtain ⟨q, rfl⟩ := List.length_eq_one_iff.1 hlength
    simp only [format] at hdecode
    cases hq : Beta.ofJson? q <;> rw [hq] at hdecode <;> cases hdecode
    rfl
  | throughput =>
    obtain ⟨q, i, o, rfl⟩ := List.length_eq_three.1 hlength
    simp only [format] at hdecode
    cases hq : Beta.ofJson? q <;> cases hi : Gaussian.ofJson? i <;> cases ho : Gaussian.ofJson? o <;>
      rw [hq, hi, ho] at hdecode <;> cases hdecode <;> rfl

theorem EdgeTrust.isFinite_of_ofOctets {b : Bytes} {t : EdgeTrust Float}
    (h : format.ofOctets b = .ok t) : t.IsFinite := by
  obtain ⟨v, hparse, hv⟩ := RecordFormat.exists_parseOctets? h
  exact isFinite_ofJson (Json.finite_of_parseOctets? hparse) hv

theorem CapabilityTrust.isFinite_of_ofOctets {b : Bytes} {t : CapabilityTrust Float k}
    (h : format.ofOctets b = .ok t) : t.IsFinite := by
  obtain ⟨v, hparse, hv⟩ := RecordFormat.exists_parseOctets? h
  exact isFinite_ofJson (Json.finite_of_parseOctets? hparse) hv

/-- What is saved of a finite record is read as that record, without the time of the last ping. -/
theorem EdgeTrust.ofOctets_write {t : EdgeTrust Float} (h : t.IsFinite) :
    format.ofOctets (Json.octets.write (format.toJson t)) = .ok { t with lastPing := none } := by
  rw [RecordFormat.ofOctets_eq, RecordFormat.ofText_write _ (keeps_toJson h), ofJson_toJson h]

theorem CapabilityTrust.ofOctets_write {t : CapabilityTrust Float k} (h : t.IsFinite) :
    format.ofOctets (Json.octets.write (format.toJson t)) = .ok t := by
  rw [RecordFormat.ofOctets_eq, RecordFormat.ofText_write _ (keeps_toJson h), ofJson_toJson h]

/-! ## What is restored -/

/-- Whose record is saved and restored: that of an edge, or of its capability of some name. -/
inductive Holder where
  | edge
  | capability (name : String)

/-- The parts of an edge that a record makes up. -/
def Holder.parts : Holder → List Part
  | .edge => [.submission, .result]
  | .capability name => [.capability name]

namespace Edge

/-- Restores a record from JSON text. -/
def restoreOf (h : Holder) (b : Bytes) (e : TrustEdge Float k) :
    Except UpdateError Unit × TrustEdge Float k :=
  match h with
  | .edge => e.restoreOctets b
  | .capability name => e.restoreCapabilityOctets name b

/-- The saved record. -/
def saved? (h : Holder) (e : TrustEdge Float k) : Option (Json Float) :=
  match h with
  | .edge => some e.save
  | .capability name => (e.capability? name).map Capability.save

/-- Why a record is not restored: it cannot be read, or there is no capability that it could be the
record of. -/
inductive Refuses (e : TrustEdge Float k) (b : Bytes) : Holder → UpdateError → Prop where
  | edge {cause : RecordError} (h : EdgeTrust.format.Rejects EdgeTrust.shapes b cause) :
      Refuses e b .edge (.record cause)
  | capability {name : String} {cause : RecordError}
      (h : (CapabilityTrust.format (k := k)).Rejects (CapabilityTrust.shapes k) b cause) :
      Refuses e b (.capability name) (.record cause)
  | unknown {name : String} {t : CapabilityTrust Float k}
      (h : CapabilityTrust.format.ofOctets b = .ok t)
      (hnone : name ∉ e.capabilities.map Capability.name) :
      Refuses e b (.capability name) (.unknownCapability e.identity name)

/-- The record that was read in the place of the old one. The time of the last ping is not part of it. -/
inductive Replaced (e : TrustEdge Float k) (b : Bytes) : Holder → TrustEdge Float k → Prop where
  | edge {t : EdgeTrust Float} (h : EdgeTrust.format.ofOctets b = .ok t) :
      Replaced e b .edge { e with trust := { t with lastPing := e.trust.lastPing } }
  | capability {name : String} {t : CapabilityTrust Float k}
      {pre post : List (Capability (CapabilityTrust Float k))} {c : Capability (CapabilityTrust Float k)}
      (h : CapabilityTrust.format.ofOctets b = .ok t) (heq : e.capabilities = pre ++ c :: post)
      (hpre : ∀ x ∈ pre, x.name ≠ name) (hc : c.name = name) :
      Replaced e b (.capability name) { e with capabilities := pre ++ { c with trust := t } :: post }

variable {e e' : TrustEdge Float k} {b : Bytes} {h : Holder}

/-! ## Refused, or replaced -/

theorem modifyCapability_append {name : String} (f : CapabilityTrust Float k → CapabilityTrust Float k)
    {pre post : List (Capability (CapabilityTrust Float k))} {c : Capability (CapabilityTrust Float k)}
    (hpre : ∀ x ∈ pre, x.name ≠ name) (hc : c.name = name) :
    modifyCapability name f (pre ++ c :: post) = pre ++ { c with trust := f c.trust } :: post := by
  induction pre with
  | nil => rw [List.nil_append, modifyCapability, if_pos hc, List.nil_append]
  | cons x pre ih =>
    rw [List.cons_append, modifyCapability, if_neg (hpre x (by simp)),
      ih fun y hy => hpre y (by simp [hy]), List.cons_append]

/-- Where a capability is found. -/
theorem exists_split_of_capability? {name : String} {c : Capability (CapabilityTrust Float k)}
    (h : e.capability? name = some c) : ∃ pre post, e.capabilities = pre ++ c :: post ∧
      (∀ x ∈ pre, x.name ≠ name) ∧ c.name = name := by
  obtain ⟨hc, pre, post, heq, hpre⟩ := List.find?_eq_some_iff_append.1 h
  exact ⟨pre, post, heq, fun x hx => by simpa using hpre x hx, by simpa using hc⟩

/-- **One record.** It is refused and nothing has changed, or it is replaced. -/
theorem restoreOf_cases (e : TrustEdge Float k) (h : Holder) (b : Bytes) :
    (∃ cause, e.Refuses b h cause ∧ e.restoreOf h b = (.error cause, e)) ∨
      ∃ e', e.Replaced b h e' ∧ e.restoreOf h b = (.ok (), e') := by
  cases h with
  | edge =>
    cases hread : (EdgeTrust.format (α := Float)).ofOctets b with
    | error cause =>
      refine .inl ⟨_, .edge (EdgeTrust.rejects_of_error hread), ?_⟩
      simp only [restoreOf, restoreOctets, hread, putBack]
    | ok t =>
      refine .inr ⟨_, .edge hread, ?_⟩
      simp only [restoreOf, restoreOctets, hread, putBack]
  | capability name =>
    cases hread : (CapabilityTrust.format (k := k)).ofOctets b with
    | error cause =>
      refine .inl ⟨_, .capability (CapabilityTrust.rejects_of_error hread), ?_⟩
      simp only [restoreOf, restoreCapabilityOctets, hread, putBackCapability]
    | ok t =>
      cases hfind : e.capability? name with
      | none =>
        refine .inl ⟨_, .unknown hread (capability?_eq_none_iff.1 hfind), ?_⟩
        simp only [restoreOf, restoreCapabilityOctets, hread, putBackCapability, withCapability, hfind]
      | some c =>
        obtain ⟨pre, post, heq, hpre, hc⟩ := exists_split_of_capability? hfind
        refine .inr ⟨_, .capability hread heq hpre hc, ?_⟩
        simp only [restoreOf, restoreCapabilityOctets, hread, putBackCapability, withCapability, hfind]
        rw [heq, modifyCapability_append _ hpre hc]

/-- Whatever is restored, only the parts of that record change. -/
theorem frame_restoreOf (e : TrustEdge Float k) (h : Holder) (b : Bytes) :
    e.Frame h.parts (e.restoreOf h b).2 := by
  cases h with
  | edge => exact frame_putBack _ e
  | capability name => exact frame_putBackCapability name _ e

/-! ## Restored again -/

/-- **Once restored, always restored.** The record that was read is saved as octets that it is read from. -/
theorem Replaced.again (hr : e.Replaced b h e') :
    ∃ v, e'.saved? h = some v ∧ e'.restoreOf h (Json.octets.write v) = (.ok (), e') := by
  cases hr with
  | @edge t hread =>
    have hfinite := EdgeTrust.isFinite_of_ofOctets hread
    refine ⟨_, rfl, ?_⟩
    have hsaved : (EdgeTrust.format (α := Float)).ofOctets (Json.octets.write
        (EdgeTrust.format.toJson { t with lastPing := e.trust.lastPing })) =
        .ok { t with lastPing := none } :=
      EdgeTrust.ofOctets_write ⟨hfinite.submission, hfinite.result⟩
    simp only [restoreOf, restoreOctets, save, hsaved, putBack]
  | @capability name t pre post c hread heq hpre hc =>
    have hfind : ({ e with capabilities := pre ++ { c with trust := t } :: post } :
        TrustEdge Float k).capability? name = some { c with trust := t } := by
      refine List.find?_eq_some_iff_append.2 ⟨by simpa using hc, pre, post, rfl, fun x hx => ?_⟩
      simpa using hpre x hx
    have hsaved := CapabilityTrust.ofOctets_write (CapabilityTrust.isFinite_of_ofOctets hread)
    refine ⟨CapabilityTrust.format.toJson t, ?_, ?_⟩
    · simp only [saved?, hfind, Option.map_some]
      rfl
    · have hname : ({ c with trust := t } : Capability (CapabilityTrust Float k)).name = name := hc
      simp only [restoreOf, restoreCapabilityOctets, hsaved, putBackCapability, withCapability, hfind]
      rw [modifyCapability_append _ hpre hname]

end Edge

/-! ## An edge among others -/

namespace Registry

variable {r : TrustRegistry Float k} {id : EdgeId} {e : TrustEdge Float k}

/-- What is done to an edge is done where it stands. -/
theorem withEdge_of_split {β : Type} {pre post : List (TrustEdge Float k)}
    (heq : r.edges = pre ++ e :: post) (hpre : ∀ x ∈ pre, x.id ≠ id) (he : e.id = id)
    (f : TrustEdge Float k → β × TrustEdge Float k) :
    r.withEdge id f = (some (f e).1, { r with edges := pre ++ (f e).2 :: post }) := by
  have hget : r.get? id = some e := by
    refine List.find?_eq_some_iff_append.2 ⟨by simpa using he, pre, post, heq, fun x hx => ?_⟩
    simpa using hpre x hx
  rw [withEdge_of_some hget, modify_eq heq hpre he]

/-- **Restoring is all or nothing.** Take any registry, an edge in it, any octets, and the record of the
edge or of a capability of any name. Either the octets cannot be read as such a record or there is no such
capability; then restoring answers why, and the registry is the same as before. Or the record that was
read is in the place of the old one; then the edge is the same but for the parts of that record, so its
identity, its address, the time of its last ping, its list of capabilities and its other records are what
they were, as are all other edges. Saving that record and restoring it once more changes nothing. -/
theorem restore_all_or_nothing (he : r.get? id = some e) (h : Holder) (b : Bytes) :
    (∃ cause, e.Refuses b h cause ∧
      r.withEdge id (Edge.restoreOf h b) = (some (.error cause), r)) ∨
    ∃ e' pre post, e.Replaced b h e' ∧ e.Frame h.parts e' ∧ r.edges = pre ++ e :: post ∧
      r.withEdge id (Edge.restoreOf h b) =
        (some (.ok ()), { r with edges := pre ++ e' :: post }) ∧
      ∃ v, e'.saved? h = some v ∧
        ({ r with edges := pre ++ e' :: post } : TrustRegistry Float k).withEdge id
            (Edge.restoreOf h (Json.octets.write v)) =
          (some (.ok ()), { r with edges := pre ++ e' :: post }) := by
  obtain ⟨pre, post, heq, hpre, hid⟩ := exists_split he
  have hwith := withEdge_of_split heq hpre hid (Edge.restoreOf h b)
  have hframe := e.frame_restoreOf h b
  obtain ⟨cause, hrefuses, hanswer⟩ | ⟨e', hreplaced, hanswer⟩ := e.restoreOf_cases h b
  · refine .inl ⟨cause, hrefuses, ?_⟩
    rw [hwith, hanswer, ← heq]
  · rw [hanswer] at hwith hframe
    obtain ⟨v, hsaved, hagain⟩ := hreplaced.again
    refine .inr ⟨e', pre, post, hreplaced, hframe, heq, hwith, v, hsaved, ?_⟩
    rw [withEdge_of_split rfl hpre (hframe.id.trans hid), hagain]

/-- A record of traffic, written with numbers of several forms. -/
def report : Bytes := "[[3, 1.5], [0.1, 25e-2, 7], [1E2, -0.0, 0]]".toUTF8.data.toList

theorem restored_from_report : ∃ e', starter.Frame [.capability "routing"] e' ∧
    started.withEdge ⟨0⟩ (Edge.restoreOf (.capability "routing") report) =
      (some (.ok ()), { started with edges := [e'] }) ∧
    ∃ v, e'.saved? (.capability "routing") = some v ∧
      ({ started with edges := [e'] } : TrustRegistry Float .throughput).withEdge ⟨0⟩
          (Edge.restoreOf (.capability "routing") (Json.octets.write v)) =
        (some (.ok ()), { started with edges := [e'] }) := by
  have hedges : started.edges = [starter] := by decide +kernel
  have hget : started.get? ⟨0⟩ = some starter := by simp [get?, hedges, starter]
  have hok : ((started.withEdge ⟨0⟩ (Edge.restoreOf (.capability "routing") report)).1.map
      Except.isOk) = some true := by decide +kernel
  obtain ⟨cause, -, hanswer⟩ | ⟨e', pre, post, -, hframe, hsplit, hanswer, hagain⟩ :=
    restore_all_or_nothing hget (.capability "routing") report
  · rw [hanswer] at hok
    cases hok
  · rw [hedges] at hsplit
    obtain rfl : pre = [] := by
      cases pre with
      | nil => rfl
      | cons x pre => simp at hsplit
    obtain rfl : post = [] := by simpa using hsplit
    exact ⟨e', hframe, hanswer, hagain⟩

end Registry
end Vouch
