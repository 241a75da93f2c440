import Vouch.Proofs.System
import Vouch.Proofs.Pipeline.Worker
/-!
# What becomes of a genuine certificate

`intake` is a pipeline at work while certificates are added, forged ones among them, at any moment of
a round. A certificate that the root did sign is `Assured` once its subject has an entry that is
verified or holds such a certificate: the pipeline drops nothing but what fails its check, so the
subject stays assured until the queue is empty and its entry is verified.

An addition is answered with the entry that its subject already has. A genuine certificate that finds
a forged one waiting is therefore not taken in, and goes with it.

* `Assured.step`: every event keeps a subject assured.
* `drained_of_run`: left to itself, the pipeline empties the queue.
* `verified_of_genuine`: a genuine certificate that was not answered with a forged one leads to a
  verified entry.
* `not_verified_of_genuine`: one that was, need not.
-/
namespace Vouch

open Store (Op Effect)

namespace Worker

/-- What can happen to a worker: certificates arrive, and the pipeline takes its steps. -/
inductive Event where
  | add (c : Certificate) (o : Origin)
  | act (a : Act)

def step (b : Backend) (p : VerificationPolicy) (w : Worker) : Event → Option Worker
  | .add c o => some ⟨(w.store.add c o).2, w.round⟩
  | .act a => w.act b p a

end Worker

/-- A pipeline that starts over a store in order, in which nothing is pinned. -/
def intake (b : Backend) (p : VerificationPolicy) : System Worker Worker.Event where
  initial w := w.store.Consistent ∧ w.store.PinnedBy none ∧ w.round = .finished .nothing
  step := Worker.step b p

namespace Worker

variable {b : Backend} {p : VerificationPolicy} {w w' : Worker} {subject : Eui64}

theorem Sound.step {ev : Event} (hw : w.Sound b p) (h : w.step b p ev = some w') :
    w'.Sound b p := by
  cases ev with
  | add c o =>
    cases h
    exact hw.add c o
  | act a => exact hw.act h

theorem Sound.of_reachable (h : (intake b p).Reachable w) : w.Sound b p := by
  refine h.invariant ?_ fun w ev w' hw hstep => hw.step hstep
  intro w hi
  obtain ⟨s, r⟩ := w
  obtain ⟨hs, hp, rfl⟩ := hi
  exact .atRest hs hp

/-! ## Assured subjects -/

/-- The subject has an entry that was verified or will be. -/
def Assured (b : Backend) (s : Store) (subject : Eui64) : Prop :=
  ∃ id e, s.get? id = some e ∧ e.subject = subject ∧
    (e.state = .verified ∨ s.Genuine b e.certificate)

/-- Only an entry that waits and fails its check is dropped. -/
theorem Assured.effect {s s' : Store} {op : Op} (ha : Assured b s subject) (he : Effect s op s')
    (hd : ∀ id, op = .discard id →
      s.Has id fun e => e.state = .pending ∧ ¬ s.Genuine b e.certificate)
    (hr : ∀ subject, op ≠ .remove subject) : Assured b s' subject := by
  obtain ⟨id, e, hx, hsub, hgood⟩ := ha
  rcases he.kept_or_vacated hx with ⟨e', hx', hst⟩ | ⟨-, -, hop | ⟨subject', hop, -⟩⟩
  · refine ⟨id, e', hx', hst.subject.trans hsub, ?_⟩
    rcases hgood with hv | hg
    · exact .inl (hst.verified hv)
    · refine .inr ?_
      rw [Store.Genuine, hst.certificate, he.rootKey_eq]
      exact hg
  · -- The entry would have to be a waiting one that fails its check, and it is neither.
    obtain ⟨hwait, hbad⟩ := (hd id hop).of_get? hx
    rcases hgood with hv | hg
    · rw [hwait] at hv
      cases hv
    · exact absurd hg hbad
  · exact absurd hop (hr subject')

theorem Assured.step {ev : Event} (hw : w.Sound b p) (ha : Assured b w.store subject)
    (h : w.step b p ev = some w') : Assured b w'.store subject := by
  cases ev with
  | add c o =>
    cases h
    exact ha.effect (Store.add_effect hw.consistent.freeVacant c o) (fun _ hop => by cases hop)
      fun _ hop => by cases hop
  | act a =>
    obtain ⟨op, he, hask⟩ := hw.effect_of_act h
    refine ha.effect he (fun id hop => ?_) fun subject' hop => ?_
    · subst hop
      exact hw.not_genuine hask
    · subst hop
      exact hask

/-- Every way in which an addition succeeds leaves its subject assured, but for one. -/
theorem Assured.add {s : Store} {c : Certificate} {o : Origin} {out : AddOutcome}
    (hs : s.Consistent) (hg : s.Genuine b c) (hadd : (s.add c o).1 = .ok out)
    (hfree : ∀ id e, out = .alreadyPending id → s.get? id = some e → s.Genuine b e.certificate) :
    Assured b (s.add c o).2 c.subject := by
  by_cases hold : s.Holds c.subject
  · -- The entry that is there is verified, or genuine like the certificate.
    obtain ⟨id, e, hx, hsub⟩ := hold
    have ha : Assured b s c.subject := by
      refine ⟨id, e, hx, hsub, ?_⟩
      have hout := hs.add_of_get? (o := o) hx hsub
      cases hst : e.state with
      | verified => exact .inl rfl
      | pending =>
        rw [hout, hst] at hadd
        exact .inr (hfree id e (Except.ok.inj hadd).symm hx)
    exact ha.effect (Store.add_effect hs.freeVacant c o) (fun _ hop => by cases hop)
      fun _ hop => by cases hop
  · -- The certificate gets an entry of its own.
    rcases hs.add_cases o hold with ⟨-, hfail⟩ | ⟨id, free, -, hv, hnew⟩
    · rw [hfail] at hadd
      cases hadd
    · rw [hnew]
      exact ⟨id, Entry.fresh c o, by rw [Store.get?_fill hv, if_pos rfl], rfl, .inr hg⟩

/-- **On an empty queue** an assured subject has a verified entry. -/
theorem Assured.verified {s : Store} (ha : Assured b s subject) (hs : s.Consistent)
    (hnil : s.pending = []) : ∃ id, s.find? subject = some id ∧ s.Has id fun e =>
      e.state = .verified ∧ e.subject = subject := by
  obtain ⟨id, e, hx, hsub, -⟩ := ha
  have hv : e.state = .verified := by
    cases hst : e.state with
    | verified => rfl
    | pending =>
      have hm := (hs.mem_pending_iff id).2 ⟨e, hx, hst⟩
      rw [hnil] at hm
      cases hm
  exact ⟨id, hs.find?_eq_some_iff.2 ⟨e, hx, hv, hsub⟩, e, hx, hv, hsub⟩

/-! ## Runs -/

theorem Assured.run {es : List Event} (hw : w.Sound b p) (ha : Assured b w.store subject)
    (h : (intake b p).run w es = some w') : Assured b w'.store subject := by
  have hboth := System.run_invariant (M := intake b p)
    (P := fun w => w.Sound b p ∧ Assured b w.store subject)
    (fun w ev w' hP hstep => ⟨hP.1.step hstep, hP.2.step hP.1 hstep⟩) ⟨hw, ha⟩ h
  exact hboth.2

/-- **Draining.** So many steps of the pipeline in a row leave nothing in the queue. -/
theorem drained_of_run {as : List Act} (hw : w.Sound b p)
    (hend : w.store.pending = [] ∨ w.work < as.length)
    (h : (intake b p).run w (as.map .act) = some w') : w'.store.pending = [] := by
  induction as generalizing w with
  | nil =>
    cases h
    rcases hend with hnil | hlt
    · exact hnil
    · cases hlt
  | cons a as ih =>
    obtain ⟨v, hv, h⟩ := Option.bind_eq_some_iff.1 h
    have hact : w.act b p a = some v := hv
    apply ih (hw.act hact) ?_ h
    by_cases hnil : w.store.pending = []
    · exact .inl (hw.pending_eq_nil hact hnil)
    · have hless := hw.work_lt hact hnil
      rw [List.length_cons] at hend
      right
      rcases hend with hc | hlt
      · exact absurd hc hnil
      · omega

/-! ## Genuine certificates -/

/-- The certificate of all ones, but for the signature. -/
def forged : Certificate := { Certificate.uniform 1 with signature := ⟨Vector.replicate 64 2⟩ }

/-- A pipeline at rest over two empty slots. -/
def idle : Worker := ⟨.empty 2 ⟨Vector.replicate 16 0⟩ ⟨Vector.replicate 64 0⟩, .finished .nothing⟩

theorem initial_idle (b : Backend) (p : VerificationPolicy) : (intake b p).initial idle :=
  ⟨.empty (by decide) _ _, Store.pinnedBy_empty _ _ _, rfl⟩

/-- The steps from the start of a round to the promotion or the end of its entry. -/
def check : List Event :=
  [.act .start, .act .advance, .act .advance, .act .advance, .act .serve, .act .advance, .act .advance]

/-- **A genuine certificate is not lost** once it has been taken in, or answered with an entry that is
verified or as genuine as itself, whatever else arrives and whenever it does: when the queue is empty,
its subject has a verified entry. And the queue does get empty: the pipeline is never stuck, and
takes no more than `work` steps when nothing new arrives. -/
theorem verified_of_genuine {c : Certificate} {o : Origin} {out : AddOutcome} {es : List Event}
    (h : (intake b p).Reachable w) (hg : w.store.Genuine b c)
    (hadd : (w.store.add c o).1 = .ok out)
    (hfree : ∀ id e, out = .alreadyPending id → w.store.get? id = some e →
      w.store.Genuine b e.certificate)
    (hrun : (intake b p).run w (.add c o :: es) = some w') :
    (w'.store.pending = [] → ∃ id, w'.store.find? c.subject = some id ∧
      w'.store.Has id fun e => e.state = .verified ∧ e.subject = c.subject) ∧
    ∀ (as : List Act) w'', (intake b p).run w' (as.map .act) = some w'' →
      (∃ a next, w''.act b p a = some next) ∧ (w'.work < as.length → w''.store.pending = []) := by
  have hw := Sound.of_reachable h
  have hr' := h.run hrun
  have hw' := Sound.of_reachable hr'
  obtain ⟨v, hv, hrun⟩ := Option.bind_eq_some_iff.1 hrun
  have hadd' : w.step b p (.add c o) = some v := hv
  have ha : Assured b v.store c.subject := by
    cases hadd'
    exact .add hw.consistent hg hadd hfree
  refine ⟨fun hnil => (ha.run (hw.step hadd') hrun).verified hw'.consistent hnil,
    fun as w'' hrest => ⟨?_, fun hlt => drained_of_run hw' (.inr hlt) hrest⟩⟩
  have hw'' := Sound.of_reachable (hr'.run hrest)
  exact hw''.progress

/-- The forgery comes while the genuine certificate is being checked. -/
theorem verified_of_genuine_before_forged : ∃ w w',
    (intake .ones ⟨⟨Vector.replicate 8 0⟩, false⟩).run idle [.add (.uniform 2) .unsolicited] =
      some w ∧
    (intake .ones ⟨⟨Vector.replicate 8 0⟩, false⟩).run w (.add (.uniform 1) .unsolicited ::
      (check ++ check.take 4 ++ [.add forged .requested] ++ check.drop 4)) = some w' ∧
    w'.store.pending = [] ∧ ∃ id, w'.store.find? forged.subject = some id := by
  have hrun : ∃ w w',
      (intake .ones ⟨⟨Vector.replicate 8 0⟩, false⟩).run idle [.add (.uniform 2) .unsolicited] =
        some w ∧
      (intake .ones ⟨⟨Vector.replicate 8 0⟩, false⟩).run w (.add (.uniform 1) .unsolicited ::
        (check ++ check.take 4 ++ [.add forged .requested] ++ check.drop 4)) = some w' ∧
      (w.store.add (.uniform 1) .unsolicited).1 = .ok (.enqueued ⟨1, 0⟩) ∧
      w'.store.pending = [] := ⟨_, _, rfl, rfl, by decide⟩
  obtain ⟨w, w', hw, hw', hadd, hnil⟩ := hrun
  have hg : w.store.Genuine .ones (.uniform 1) := rfl
  have hv := verified_of_genuine ⟨_, _, initial_idle _ _, hw⟩ hg hadd (fun _ _ hc => by cases hc) hw'
  obtain ⟨id, hfind, -⟩ := hv.1 hnil
  exact ⟨w, w', hw, hw', hnil, id, hfind⟩

/-- **Counterexample** without the last condition: a forged certificate waits, the genuine one is
answered with it, and when the queue is empty neither is there. -/
theorem not_verified_of_genuine : ¬ ∀ (b : Backend) (p : VerificationPolicy) (w w' : Worker)
    (c : Certificate) (o : Origin) (out : AddOutcome) (es : List Event),
    (intake b p).Reachable w → w.store.Genuine b c → (w.store.add c o).1 = .ok out →
    (intake b p).run w (.add c o :: es) = some w' → w'.store.pending = [] →
    ∃ id, w'.store.find? c.subject = some id := by
  intro hall
  have hrun : ∃ w w',
      (intake .ones ⟨⟨Vector.replicate 8 0⟩, false⟩).run idle [.add forged .unsolicited] = some w ∧
      (intake .ones ⟨⟨Vector.replicate 8 0⟩, false⟩).run w (.add (.uniform 1) .requested :: check) =
        some w' ∧
      (w.store.add (.uniform 1) .requested).1 = .ok (.alreadyPending ⟨0, 0⟩) ∧
      w'.store.pending = [] ∧ w'.store.find? (Certificate.uniform 1).subject = none :=
    ⟨_, _, rfl, rfl, by decide⟩
  obtain ⟨w, w', hw, hw', hadd, hnil, hnone⟩ := hrun
  have hg : w.store.Genuine .ones (.uniform 1) := rfl
  obtain ⟨id, hfind⟩ := hall _ _ w w' _ _ _ _ ⟨_, _, initial_idle _ _, hw⟩ hg hadd hw' hnil
  rw [hnone] at hfind
  cases hfind

end Worker
end Vouch
