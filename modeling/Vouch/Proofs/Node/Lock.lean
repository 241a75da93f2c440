import Vouch.TimedLock
import Vouch.Proofs.System
import Mathlib.Data.List.Nodup
/-!
# Who holds the lock

A `Tenancy` is a lock with the time and with what has been done with it: under which token it was taken
and when, and which tokens were given back. Time passes as it likes, also not at all, and anybody may try
the lock, look at it, or give back any token, any number of times.

The holder is determined by what has been done: it is the one who took the lock last, unless that token
was given back since (`Standing`). Everything else is read off this. The timeout plays no part in it, so
a holder whose time is up can still give the lock back, until somebody else has taken it.

* `standing_took`, `standing_gave`: what stands after one more deed.
* `Apart.took`: the lock is taken anew when it was given back, or a timeout later.
* `Sound.step`: the holder through every call.
* `tenure_of_reachable`: when the lock is taken, when it is given back, and how far apart holders are.
-/
namespace Vouch

namespace TimedLock

variable {l : TimedLock} {now : Nat} {token : LockToken} {h : LockHolder}

theorem tryLock_of_locked (hl : l.isLocked now = true) : l.tryLock now = (none, l) := by
  simp [tryLock, hl]

/-- The lock once it is taken. -/
def taken (l : TimedLock) (now : Nat) : TimedLock :=
  { l with
    holder := some ⟨l.nextGeneration, now + l.timeout⟩
    nextGeneration := l.nextGeneration + 1 }

theorem tryLock_of_free (hl : l.isLocked now = false) :
    l.tryLock now = (some ⟨l.nextGeneration⟩, l.taken now) := by
  simp [tryLock, hl, taken]

theorem isLocked_iff : l.isLocked now = true ↔ ∃ h, l.holder = some h ∧ now < h.deadline := by
  unfold isLocked
  split <;> simp_all

theorem unlock_of_holder (hh : l.holder = some h) (hg : h.generation = token.generation) :
    l.unlock token = (true, { l with holder := none }) := by
  simp [unlock, hh, hg]

theorem unlock_of_ne (hg : ∀ h, l.holder = some h → h.generation ≠ token.generation) :
    l.unlock token = (false, l) := by
  unfold unlock
  split
  · rename_i h hh
    rw [if_neg (hg h hh)]
  · rfl

end TimedLock

/-! ## What has been done with a lock -/

/-- What came of a call: the lock was taken, or given back. -/
inductive Deed where
  | took (time : Nat) (token : LockToken)
  | gave (token : LockToken)
  deriving DecidableEq, Repr

namespace Deed

/-- The token that was handed out. -/
def issued? : Deed → Option LockToken
  | .took _ token => some token
  | .gave _ => none

variable {deeds : List Deed} {token k : LockToken} {since t limit now : Nat}

/-- The lock was last taken at a time under a token, and that has not been given back. -/
def Standing (deeds : List Deed) (token : LockToken) (since : Nat) : Prop :=
  ∃ newer older, deeds = newer ++ .took since token :: older ∧
    ∀ d ∈ newer, ∃ other, d = .gave other ∧ other ≠ token

theorem not_standing_nil : ¬ Standing [] token since := by
  intro h
  obtain ⟨newer, older, h, -⟩ := h
  simp at h

/-- Whoever takes the lock is the only one that stands. -/
theorem standing_took : Standing (.took t k :: deeds) token since ↔ token = k ∧ since = t := by
  constructor
  · intro h
    obtain ⟨newer, older, h, hnewer⟩ := h
    cases newer with
    | nil =>
      cases h
      exact ⟨rfl, rfl⟩
    | cons d newer =>
      obtain ⟨rfl, -⟩ := List.cons.inj h
      obtain ⟨other, hd, -⟩ := hnewer _ List.mem_cons_self
      cases hd
  · intro h
    obtain ⟨rfl, rfl⟩ := h
    exact ⟨[], deeds, rfl, by simp⟩

/-- A token that is given back stands no more, and every other stands as it did. -/
theorem standing_gave :
    Standing (.gave k :: deeds) token since ↔ k ≠ token ∧ Standing deeds token since := by
  constructor
  · intro h
    obtain ⟨newer, older, h, hnewer⟩ := h
    cases newer with
    | nil => cases h
    | cons d newer =>
      obtain ⟨rfl, rfl⟩ := List.cons.inj h
      obtain ⟨other, hd, hne⟩ := hnewer _ List.mem_cons_self
      cases hd
      exact ⟨hne, newer, older, rfl, fun d hd => hnewer d (List.mem_cons_of_mem _ hd)⟩
  · intro h
    obtain ⟨hne, newer, older, rfl, hnewer⟩ := h
    refine ⟨.gave k :: newer, older, rfl, ?_⟩
    intro d hd
    rcases List.mem_cons.1 hd with rfl | hd
    · exact ⟨k, rfl, hne⟩
    · exact hnewer d hd

theorem ne_of_took (hnew : ((Deed.took t k :: deeds).filterMap issued?).Nodup)
    (hk : .took since token ∈ deeds) : token ≠ k := by
  intro heq
  have hmem : token ∈ deeds.filterMap issued? := List.mem_filterMap.2 ⟨_, hk, rfl⟩
  have hcons : (k :: deeds.filterMap issued?).Nodup := hnew
  exact (List.nodup_cons.1 hcons).1 (heq ▸ hmem)

/-- Once the lock is taken again, no earlier token stands. -/
theorem not_standing_of_took {newer older : List Deed}
    (hnew : ((newer ++ .took t k :: older).filterMap issued?).Nodup) (hk : .took since token ∈ older)
    (time : Nat) : ¬ Standing (newer ++ .took t k :: older) token time := by
  induction newer with
  | nil =>
    intro h
    exact ne_of_took hnew hk (standing_took.1 h).1
  | cons d newer ih =>
    intro h
    cases d with
    | took t' k' =>
      have hlater : .took since token ∈ newer ++ .took t k :: older := by simp [hk]
      exact ne_of_took hnew hlater (standing_took.1 h).1
    | gave k' => exact ih hnew (standing_gave.1 h).2

/-- Where the lock is taken twice, the first token was given back in between or `limit` has passed. -/
def Apart (limit : Nat) (deeds : List Deed) : Prop :=
  ∀ newer t k between since token older,
    deeds = newer ++ .took t k :: (between ++ .took since token :: older) →
    .gave token ∉ between → since + limit ≤ t

theorem Apart.gave (h : Apart limit deeds) (k : LockToken) : Apart limit (.gave k :: deeds) := by
  intro newer t j between since token older heq
  cases newer with
  | nil => cases heq
  | cons d newer => exact h newer t j between since token older (List.cons.inj heq).2

theorem Apart.took (h : Apart limit deeds) (htime : ∀ t j, .took t j ∈ deeds → t ≤ now)
    (hlapsed : ∀ j since, Standing deeds j since → since + limit ≤ now) (k : LockToken) :
    Apart limit (.took now k :: deeds) := by
  intro newer t j between since token older heq hkept
  cases newer with
  | cons d newer => exact h newer t j between since token older (List.cons.inj heq).2 hkept
  | nil =>
    cases heq
    by_cases hother : ∃ t j, .took t j ∈ between
    · -- Somebody else has had the lock in between, and took it a timeout later already.
      obtain ⟨t, j, hmem⟩ := hother
      obtain ⟨newer, between', rfl⟩ := List.append_of_mem hmem
      have hkept' : .gave token ∉ between' := by
        intro hm
        simp [hm] at hkept
      have hle := h newer t j between' since token older (by simp) hkept'
      have hnow := htime t j (by simp)
      omega
    · refine hlapsed token since ⟨between, older, rfl, ?_⟩
      intro d hd
      cases d with
      | took t j => exact absurd ⟨t, j, hd⟩ hother
      | gave other =>
        refine ⟨other, rfl, ?_⟩
        intro heq
        exact hkept (heq ▸ hd)

end Deed

/-! ## Calls -/

/-- A lock, the time, and what has been done with the lock, the latest first. -/
structure Tenancy where
  lock : TimedLock
  now : Nat
  deeds : List Deed

namespace Tenancy

open Deed (Standing Apart issued?)

inductive Event where
  | wait (d : Nat)
  | tryLock
  | unlock (token : LockToken)
  | isLocked

/-- A call; what came of it is entered. -/
def step (x : Tenancy) : Event → Option Tenancy
  | .wait d => some { x with now := x.now + d }
  | .tryLock =>
    match x.lock.tryLock x.now with
    | (some token, l) => some { x with lock := l, deeds := .took x.now token :: x.deeds }
    | (none, l) => some { x with lock := l }
  | .unlock token =>
    match x.lock.unlock token with
    | (true, l) => some { x with lock := l, deeds := .gave token :: x.deeds }
    | (false, l) => some { x with lock := l }
  | .isLocked => some x

/-- The holder is the token that stands, and all tokens are distinct. -/
structure Sound (limit : Nat) (x : Tenancy) : Prop where
  timeout : x.lock.timeout = limit
  holder : ∀ h, x.lock.holder = some h ↔
    ∃ since, Standing x.deeds ⟨h.generation⟩ since ∧ h.deadline = since + limit
  issued : ∀ t token, .took t token ∈ x.deeds →
    t ≤ x.now ∧ token.generation < x.lock.nextGeneration
  nodup : (x.deeds.filterMap issued?).Nodup
  apart : Apart limit x.deeds

variable {limit : Nat} {x x' : Tenancy} {token : LockToken} {since : Nat}

theorem Sound.isLocked_iff (h : x.Sound limit) : x.lock.isLocked x.now = true ↔
    ∃ token since, Standing x.deeds token since ∧ x.now < since + limit := by
  rw [TimedLock.isLocked_iff]
  constructor
  · intro hl
    obtain ⟨holder, hh, hlt⟩ := hl
    obtain ⟨since, hs, hd⟩ := (h.holder holder).1 hh
    exact ⟨_, since, hs, hd ▸ hlt⟩
  · intro hs
    obtain ⟨token, since, hs, hlt⟩ := hs
    exact ⟨⟨token.generation, since + limit⟩, (h.holder _).2 ⟨since, hs, rfl⟩, hlt⟩

/-- A token is taken back exactly if it stands. -/
theorem Sound.unlock_cases (h : x.Sound limit) (token : LockToken) :
    (∃ since, Standing x.deeds token since) ∧
      x.lock.unlock token = (true, { x.lock with holder := none }) ∨
    (¬ ∃ since, Standing x.deeds token since) ∧ x.lock.unlock token = (false, x.lock) := by
  by_cases hs : ∃ since, Standing x.deeds token since
  · obtain ⟨since, hs⟩ := hs
    have hh := (h.holder ⟨token.generation, since + limit⟩).2 ⟨since, hs, rfl⟩
    exact .inl ⟨⟨since, hs⟩, TimedLock.unlock_of_holder hh rfl⟩
  · refine .inr ⟨hs, TimedLock.unlock_of_ne ?_⟩
    intro holder hh hg
    obtain ⟨since, hstand, -⟩ := (h.holder holder).1 hh
    rw [hg] at hstand
    exact hs ⟨since, hstand⟩

theorem Sound.wait (h : x.Sound limit) (d : Nat) : Sound limit { x with now := x.now + d } := by
  refine ⟨h.timeout, h.holder, ?_, h.nodup, h.apart⟩
  intro t token hm
  obtain ⟨ht, hg⟩ := h.issued t token hm
  exact ⟨show t ≤ x.now + d by omega, hg⟩

/-- The lock is taken under a token that nobody has had. -/
theorem Sound.take (h : x.Sound limit) (hl : x.lock.isLocked x.now = false) :
    Sound limit { x with
      lock := x.lock.taken x.now
      deeds := .took x.now ⟨x.lock.nextGeneration⟩ :: x.deeds } := by
  refine ⟨h.timeout, ?_, ?_, ?_, ?_⟩
  · intro holder
    show some _ = some holder ↔ _
    simp only [Deed.standing_took, Option.some.injEq]
    constructor
    · intro hh
      subst hh
      exact ⟨x.now, ⟨rfl, rfl⟩, by rw [h.timeout]⟩
    · intro hh
      obtain ⟨generation, deadline⟩ := holder
      obtain ⟨since, ⟨hg, rfl⟩, rfl⟩ := hh
      cases hg
      rw [h.timeout]
  · intro t token hm
    show t ≤ x.now ∧ token.generation < x.lock.nextGeneration + 1
    rcases List.mem_cons.1 hm with heq | hm
    · cases heq
      simp
    · have := h.issued t token hm
      omega
  · show (⟨x.lock.nextGeneration⟩ :: x.deeds.filterMap issued?).Nodup
    refine List.nodup_cons.2 ⟨?_, h.nodup⟩
    intro hm
    obtain ⟨d, hd, htoken⟩ := List.mem_filterMap.1 hm
    cases d with
    | took t token =>
      cases htoken
      exact Nat.lt_irrefl _ (h.issued t _ hd).2
    | gave => cases htoken
  · refine h.apart.took (fun t token hm => (h.issued t token hm).1) ?_ _
    intro token since hs
    have hlapsed : ¬ x.now < since + limit := by
      intro hlt
      rw [h.isLocked_iff.2 ⟨token, since, hs, hlt⟩] at hl
      cases hl
    omega

/-- The token that stands is given back. -/
theorem Sound.give (h : x.Sound limit) (hs : Standing x.deeds token since) :
    Sound limit { x with
      lock := { x.lock with holder := none }
      deeds := .gave token :: x.deeds } := by
  refine ⟨h.timeout, ?_, ?_, h.nodup, h.apart.gave token⟩
  · intro holder
    show none = some holder ↔ _
    simp only [Deed.standing_gave, reduceCtorEq, false_iff]
    intro hother
    obtain ⟨t, ⟨hne, hstand⟩, hd⟩ := hother
    -- No other token can stand beside it.
    have hh := (h.holder holder).2 ⟨t, hstand, hd⟩
    rw [(h.holder ⟨token.generation, since + limit⟩).2 ⟨since, hs, rfl⟩, Option.some.injEq] at hh
    exact hne (by rw [← hh])
  · intro t k hm
    rcases List.mem_cons.1 hm with heq | hm
    · cases heq
    · exact h.issued t k hm

/-- **Each call.** -/
theorem Sound.step {ev : Event} (h : x.Sound limit) (hstep : x.step ev = some x') :
    x'.Sound limit := by
  cases ev with
  | wait d =>
    cases hstep
    exact h.wait d
  | tryLock =>
    cases hl : x.lock.isLocked x.now with
    | true =>
      simp only [Tenancy.step, TimedLock.tryLock_of_locked hl, Option.some.injEq] at hstep
      exact hstep ▸ h
    | false =>
      simp only [Tenancy.step, TimedLock.tryLock_of_free hl, Option.some.injEq] at hstep
      exact hstep ▸ h.take hl
  | unlock token =>
    rcases h.unlock_cases token with ⟨⟨since, hs⟩, hu⟩ | ⟨-, hu⟩ <;>
      simp only [Tenancy.step, hu, Option.some.injEq] at hstep
    · exact hstep ▸ h.give hs
    · exact hstep ▸ h
  | isLocked =>
    cases hstep
    exact h

end Tenancy

/-- The runs of a lock, from any moment on. -/
def tenancy (limit : Nat) : System Tenancy Tenancy.Event where
  initial x := x.lock = .new limit ∧ x.deeds = []
  step := Tenancy.step

namespace Tenancy

open Deed (Standing Apart issued?)

variable {limit : Nat} {x : Tenancy}

theorem Sound.of_reachable (h : (tenancy limit).Reachable x) : x.Sound limit := by
  refine h.invariant ?_ fun x ev x' hx hstep => hx.step hstep
  intro x hx
  obtain ⟨lock, now, deeds⟩ := x
  obtain ⟨rfl, rfl⟩ := hx
  refine ⟨rfl, ?_, by simp, List.nodup_nil, ?_⟩
  · intro holder
    show none = some holder ↔ _
    simp [Deed.not_standing_nil]
  · intro newer t k between since token older heq
    simp at heq

/-- **Tenure.** At every moment of every run the tokens that were handed out are distinct. The lock can be
taken, under a new token, exactly when it does not count as locked, and it does exactly while the latest
holder has had it for less than `limit` and has not given it back; a try that fails changes nothing. A
token is taken back exactly if it is that of the latest holder, in time or not, and has not been taken
back yet; the lock is then free, and nothing changes otherwise. So whoever takes the lock without its
having been given back by an earlier holder does so `limit` after that holder at least, and an earlier
holder never gives back the lock of a later one. -/
theorem tenure_of_reachable (h : (tenancy limit).Reachable x) :
    (x.deeds.filterMap issued?).Nodup ∧
    (x.lock.isLocked x.now = true ↔
      ∃ token since, Standing x.deeds token since ∧ x.now < since + limit) ∧
    (x.lock.isLocked x.now = true → x.lock.tryLock x.now = (none, x.lock)) ∧
    (x.lock.isLocked x.now = false → ∃ token l, x.lock.tryLock x.now = (some token, l) ∧
      token ∉ x.deeds.filterMap issued? ∧ ∀ t, l.isLocked t = true ↔ t < x.now + limit) ∧
    (∀ token, (x.lock.unlock token).1 = true ↔ ∃ since, Standing x.deeds token since) ∧
    (∀ token, (x.lock.unlock token).1 = true → ∀ t, (x.lock.unlock token).2.isLocked t = false) ∧
    (∀ token, (x.lock.unlock token).1 = false → (x.lock.unlock token).2 = x.lock) ∧
    (∀ newer t k between since token older,
      x.deeds = newer ++ .took t k :: (between ++ .took since token :: older) →
      .gave token ∉ between → since + limit ≤ t) ∧
    (∀ newer t k older since token, x.deeds = newer ++ .took t k :: older →
      .took since token ∈ older → x.lock.unlock token = (false, x.lock)) := by
  have hs := Sound.of_reachable h
  refine ⟨hs.nodup, hs.isLocked_iff, TimedLock.tryLock_of_locked, ?_, ?_, ?_, ?_, hs.apart, ?_⟩
  · intro hl
    refine ⟨_, _, TimedLock.tryLock_of_free hl, ?_, ?_⟩
    · exact (List.nodup_cons.1 (hs.take hl).nodup).1
    · intro t
      simp [TimedLock.isLocked, TimedLock.taken, hs.timeout]
  · intro token
    rcases hs.unlock_cases token with ⟨hstand, hu⟩ | ⟨hstand, hu⟩ <;> simp [hu, hstand]
  · intro token
    rcases hs.unlock_cases token with ⟨-, hu⟩ | ⟨-, hu⟩ <;> simp [hu, TimedLock.isLocked]
  · intro token
    rcases hs.unlock_cases token with ⟨-, hu⟩ | ⟨-, hu⟩ <;> simp [hu]
  · intro newer t k older since token heq hm
    rcases hs.unlock_cases token with ⟨⟨time, hstand⟩, -⟩ | ⟨-, hu⟩
    · rw [heq] at hstand
      exact absurd hstand (Deed.not_standing_of_took (heq ▸ hs.nodup) hm time)
    · exact hu

/-- The lock is taken and never given back; at the deadline it is taken by another, whom the first one's
late return does not touch. -/
def overstay : List Event :=
  [.tryLock, .wait 4, .tryLock, .wait 1, .isLocked, .tryLock, .unlock ⟨0⟩, .wait 3]

theorem tenure_after_overstay : ∃ x,
    (tenancy 5).run ⟨.new 5, 0, []⟩ overstay = some x ∧
    x.deeds = [.took 5 ⟨1⟩, .took 0 ⟨0⟩] ∧ x.now = 8 ∧
    x.lock.isLocked x.now = true ∧ x.lock.unlock ⟨0⟩ = (false, x.lock) ∧
    (x.lock.unlock ⟨1⟩).1 = true := by
  have hrun : ∃ x, (tenancy 5).run ⟨.new 5, 0, []⟩ overstay = some x ∧
      x.deeds = [.took 5 ⟨1⟩, .took 0 ⟨0⟩] ∧ x.now = 8 := ⟨_, rfl, rfl, rfl⟩
  obtain ⟨x, hx, hdeeds, hnow⟩ := hrun
  have hstand : Standing x.deeds ⟨1⟩ 5 := by
    rw [hdeeds]
    exact Deed.standing_took.2 ⟨rfl, rfl⟩
  obtain ⟨-, hlocked, -, -, hunlock, -, -, -, hold⟩ :=
    tenure_of_reachable ⟨_, overstay, ⟨rfl, rfl⟩, hx⟩
  exact ⟨x, hx, hdeeds, hnow, hlocked.2 ⟨_, 5, hstand, by rw [hnow]; decide⟩,
    hold [] 5 ⟨1⟩ _ 0 ⟨0⟩ hdeeds List.mem_cons_self, (hunlock _).2 ⟨5, hstand⟩⟩

/-- With no timeout the lock can be taken at any time, and only the latest holder gives it back. -/
example : ((tenancy 0).run ⟨.new 0, 0, []⟩ [.tryLock, .tryLock, .unlock ⟨0⟩, .unlock ⟨1⟩]).map deeds =
    some [.gave ⟨1⟩, .took 0 ⟨1⟩, .took 0 ⟨0⟩] := rfl

end Tenancy
end Vouch
