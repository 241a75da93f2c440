import Vouch.Proofs.Store.Current
import Vouch.Proofs.Store.Pins
import Mathlib.Data.List.Induction
/-!
# Promoting and discarding what is verified

Promoting and discarding are for entries that wait, and neither checks that its entry does. `Accurate`
is what the verified list and the counts should be. It lasts as long as no verified entry is promoted
again or discarded (`Stray`), whatever else is done about whatever ids, and ends with the first time
one is.

* `orderly_or_same`: anything but a stray operation is in order or does nothing.
* `Neat.perform`: what is kept by such operations.
* `not_accurate_of_stray`: a verified entry is listed twice when it is promoted, and still listed when it
  is discarded.
* `accurate_iff`: so a run is free of strays exactly if the store is accurate all along.
-/
namespace Vouch

namespace Store

/-- The store after a run of operations. -/
def after (s : Store) (ops : List Op) : Store := ops.foldl perform s

/-- The verified list names entries, each once, and everything in the store is counted on one of the two
lists. -/
structure Accurate (s : Store) : Prop where
  nodup : s.verified.Nodup
  listed : ∀ id ∈ s.verified, ∃ e, s.get? id = some e
  size_eq : s.capacity < UInt32.size → s.size = s.pending.length + s.verified.length

/-- A verified entry is promoted again, or discarded though it is verified. One that is pinned is not
discarded. -/
def Stray (s : Store) : Op → Prop
  | .promote id => ∃ e, s.get? id = some e ∧ e.state = .verified
  | .discard id => ∃ e, s.get? id = some e ∧ e.state = .verified ∧ e.pins = 0
  | _ => False

variable {s s' : Store} {op : Op} {ops : List Op}

theorem after_concat (s : Store) (ops : List Op) (op : Op) :
    s.after (ops ++ [op]) = (s.after ops).perform op :=
  List.foldl_append

/-- An operation that is not stray is for an entry that waits, or it comes to nothing. -/
theorem orderly_or_same (h : s.Covered) (hop : ¬ s.Stray op) :
    s.Orderly op ∨ s.perform op = s := by
  cases op with
  | add | pin | unpin | remove | setContext => exact .inl trivial
  | promote id =>
    cases hx : s.get? id with
    | none => exact .inr (congrArg Prod.snd (promote_of_none hx))
    | some e =>
      cases hst : e.state with
      | pending => exact .inl (h.pending hx hst)
      | verified => exact absurd ⟨e, hx, hst⟩ hop
  | discard id =>
    cases hx : s.get? id with
    | none => exact .inr (congrArg Prod.snd (discard_of_none hx))
    | some e =>
      by_cases hp : e.pins = 0
      · cases hst : e.state with
        | pending => exact .inl (h.pending hx hst)
        | verified => exact absurd ⟨e, hx, hst, hp⟩ hop
      · exact .inr (congrArg Prod.snd (discard_of_pinned hx hp))

/-- What holds before the first stray operation. -/
structure Neat (s : Store) : Prop where
  tended : s.Tended
  covered : s.Covered
  nodup : s.verified.Nodup
  consistent : s.capacity < UInt32.size → s.Consistent

theorem neat_empty (capacity : Nat) (a : Address) (k : PublicKey) : (empty capacity a k).Neat where
  tended := tended_empty capacity a k
  covered := .empty capacity a k
  nodup := List.nodup_nil
  consistent hc := .empty (by simpa [Store.capacity, empty] using hc) a k

theorem Neat.accurate (h : s.Neat) : s.Accurate :=
  ⟨h.nodup, h.tended.listed, fun hc => (h.consistent hc).size_eq⟩

/-- In order, an entry is promoted from the queue, where no verified one is. -/
theorem Tended.nodup_verified (h : s.Tended) (hn : s.verified.Nodup) (ho : s.Orderly op)
    (he : Effect s op s') : s'.verified.Nodup := by
  cases he with
  | none | fill | discard => exact hn
  | ask | pin | unpin | attach => rwa [verified_update]
  | @promote id e hx =>
    refine List.nodup_append.2 ⟨hn, List.nodup_singleton id, fun j hj i hi => ?_⟩
    obtain rfl := List.mem_singleton.1 hi
    rintro rfl
    exact h.current.ne_of_mem hj hx ho rfl
  | remove => exact hn.filter _

/-- **An operation that is not stray**, about any id at all. -/
theorem Neat.perform (h : s.Neat) (hop : ¬ s.Stray op) : (s.perform op).Neat := by
  rcases orderly_or_same h.covered hop with ho | hsame
  · have he := perform_effect h.tended.freeVacant op
    exact ⟨h.tended.effect ho he, h.covered.effect he, h.tended.nodup_verified h.nodup ho he,
      fun hc => (h.consistent (he.capacity_eq ▸ hc)).effect ho he⟩
  · rw [hsame]
    exact h

/-- **The first stray operation** spoils the verified list. -/
theorem not_accurate_of_stray (h : s.Covered) (hop : s.Stray op) : ¬ (s.perform op).Accurate := by
  intro ha
  cases op with
  | promote id =>
    obtain ⟨e, hx, hv⟩ := hop
    have hnodup : (s.verified ++ [id]).Nodup := by
      have hn := ha.nodup
      rwa [perform, promote_of_some hx] at hn
    exact (List.nodup_append.1 hnodup).2.2 id (h.verified hx hv) id List.mem_cons_self rfl
  | discard id =>
    obtain ⟨e, hx, hv, hp⟩ := hop
    have hlisted := ha.listed id
    rw [perform, discard_of_zero hx hp, get?_discarded hx, if_pos rfl] at hlisted
    obtain ⟨e', he'⟩ := hlisted (h.verified hx hv)
    cases he'
  | add | pin | unpin | remove | setContext => exact hop

theorem Covered.after (hs : s.FreeVacant) (hc : s.Covered) (ops : List Op) :
    (s.after ops).Covered := by
  induction ops generalizing s with
  | nil => exact hc
  | cons op ops ih => exact ih (hs.perform op) (hc.effect (perform_effect hs op))

/-- **A run is free of strays** exactly if the store is accurate all along. -/
theorem Neat.accurate_iff (h : s.Neat) :
    (∀ pre, pre <+: ops → (s.after pre).Accurate) ↔
      ∀ pre op, pre ++ [op] <+: ops → ¬ (s.after pre).Stray op := by
  constructor
  · intro ha pre op hpre hop
    have hcov := Covered.after h.tended.freeVacant h.covered pre
    exact not_accurate_of_stray hcov hop (after_concat s pre op ▸ ha _ hpre)
  · intro hop pre hpre
    refine Neat.accurate ?_
    induction pre using List.reverseRecOn with
    | nil => exact h
    | append_singleton pre op ih =>
      rw [after_concat]
      exact (ih ((List.prefix_append pre [op]).trans hpre)).perform (hop pre op hpre)

/-- What promoting and discarding do with a verified entry. The one lists it a second time; the other
empties its slot and leaves it listed, unless it is pinned. -/
structure Exposed (s : Store) (id : EntryId) (e : Entry) : Prop where
  listed : id ∈ s.verified
  promote : s.promote id = (.ok (), s.promoted id)
  twice : (s.promoted id).verified = s.verified ++ [id] ∧ (s.promoted id).size = s.size
  discard : e.pins = 0 → s.discard id = (.ok e.certificate, s.discarded id)
  dangling : e.pins = 0 → (s.discarded id).get? id = none ∧ id ∈ (s.discarded id).verified
  pinned : e.pins ≠ 0 → s.discard id = (.error (.pinned e.subject e.pins), s)

theorem Covered.exposed (h : s.Covered) {id : EntryId} {e : Entry} (hx : s.get? id = some e)
    (hv : e.state = .verified) : s.Exposed id e where
  listed := h.verified hx hv
  promote := promote_of_some hx
  twice := by
    refine ⟨rfl, ?_⟩
    show (s.update id Entry.accept).capacity - (s.update id Entry.accept).free.length = s.size
    rw [capacity_update, free_update]
    rfl
  discard := discard_of_zero hx
  dangling _ := ⟨by rw [get?_discarded hx, if_pos rfl], h.verified hx hv⟩
  pinned := discard_of_pinned hx

/-- **Promoting and discarding are not guarded.** Take any run of operations from a new store, of any
capacity, about any ids. Its verified list names entries and each of them once, with everything counted,
all along if and only if no operation promotes a verified entry again or discards one without pins. And
whenever an entry is verified, nothing but a pin against the second keeps either from being done. -/
theorem accurate_iff_of_run (capacity : Nat) (a : Address) (k : PublicKey) (ops : List Op) :
    ((∀ pre, pre <+: ops → ((empty capacity a k).after pre).Accurate) ↔
      ∀ pre op, pre ++ [op] <+: ops → ¬ ((empty capacity a k).after pre).Stray op) ∧
    ∀ id e, ((empty capacity a k).after ops).get? id = some e → e.state = .verified →
      ((empty capacity a k).after ops).Exposed id e := by
  have hneat := neat_empty capacity a k
  refine ⟨hneat.accurate_iff, fun id e hx hv => ?_⟩
  exact (Covered.after hneat.tended.freeVacant hneat.covered ops).exposed hx hv

/-- A certificate that is promoted twice has the store count two, and one that is discarded after its
promotion stays on the list. -/
example : ((empty 2 ⟨Vector.replicate 16 0⟩ ⟨Vector.replicate 64 0⟩).after
    [.add (.uniform 1) .requested, .promote ⟨0, 0⟩, .promote ⟨0, 0⟩, .discard ⟨0, 0⟩]).verified =
      [⟨0, 0⟩, ⟨0, 0⟩] := rfl

end Store
end Vouch
