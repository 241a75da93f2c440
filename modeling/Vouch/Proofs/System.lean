/-!
# Systems that run in steps

A node's tasks interleave: between any two steps of one task the others may do anything they are able
to. A `System` says where runs begin and what each event does, `run` follows a list of events, and a
state is `Reachable` if some run from a beginning ends in it.

* `Reachable.invariant`: what holds at every beginning and is kept by every step holds in every
  reachable state.
-/
namespace Vouch

/-- A transition system. An event that a state does not allow leads nowhere. -/
structure System (σ ε : Type) where
  initial : σ → Prop
  step : σ → ε → Option σ

namespace System

variable {σ ε : Type} {M : System σ ε} {P : σ → Prop}

/-- The state after a list of events. -/
def run (M : System σ ε) : σ → List ε → Option σ
  | s, [] => some s
  | s, e :: es => (M.step s e).bind fun s' => M.run s' es

/-- A state at the end of a run from a beginning. -/
def Reachable (M : System σ ε) (s : σ) : Prop := ∃ s₀ es, M.initial s₀ ∧ M.run s₀ es = some s

/-- What every step keeps, a run keeps. -/
theorem run_invariant (hstep : ∀ s e s', P s → M.step s e = some s' → P s') {s s' : σ} {es : List ε}
    (hs : P s) (h : M.run s es = some s') : P s' := by
  induction es generalizing s with
  | nil =>
    simp only [run, Option.some.injEq] at h
    exact h ▸ hs
  | cons e es ih =>
    simp only [run, Option.bind_eq_some_iff] at h
    obtain ⟨t, ht, h⟩ := h
    exact ih (hstep s e t hs ht) h

theorem Reachable.invariant {s : σ} (h : M.Reachable s) (h0 : ∀ s, M.initial s → P s)
    (hstep : ∀ s e s', P s → M.step s e = some s' → P s') : P s := by
  obtain ⟨s₀, es, hi, hr⟩ := h
  exact run_invariant hstep (h0 s₀ hi) hr

theorem run_append (s : σ) (es fs : List ε) :
    M.run s (es ++ fs) = (M.run s es).bind fun t => M.run t fs := by
  induction es generalizing s with
  | nil => rfl
  | cons e es ih =>
    simp only [List.cons_append, run, Option.bind_assoc]
    congr 1
    funext t
    exact ih t

theorem Reachable.run {s s' : σ} {es : List ε} (h : M.Reachable s) (hr : M.run s es = some s') :
    M.Reachable s' := by
  obtain ⟨s₀, es₀, hi, h₀⟩ := h
  exact ⟨s₀, es₀ ++ es, hi, by rw [run_append, h₀]; exact hr⟩

end System
end Vouch
