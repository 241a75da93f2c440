import Mathlib.Algebra.Order.Field.Rat
import Mathlib.Data.List.Forall2
import Mathlib.Tactic.GCongr
import Mathlib.Tactic.Linarith
import Mathlib.Tactic.Positivity
import Vouch.Proofs.Store.Operation
import Vouch.Proofs.Trust.Assembly
/-!
# Scores follow the evidence

A good outcome should never count against an edge, nor a bad one for it, whichever of its beliefs
the outcome goes into and whichever capability is then scored. Scores are compared over exact
fractions; doubles round.

One relation carries the comparison through the computation: of two beliefs, of two capabilities, of
two edges and of two scores, the first speaks at most as well as the second (`AtMost`). An outcome
moves an edge along this relation, one way or the other (`Toward`), and each stage of a score
preserves it.

* `Engine.trust_atMost`: an edge that speaks at most as well scores at most as high.
* `Engine.toward_learn`: what a good outcome leaves behind speaks at least as well as what was there
  before, what a bad one leaves behind at most as well.
* `Engine.trust_follows_evidence`: one more good outcome never lowers the score of any capability,
  one more bad outcome never raises it. `trust_follows_experience` is the same of any number.
-/
namespace Vouch

/-- A change along a relation where the outcome was good, against it where it was bad. -/
def Toward {β : Type} (R : β → β → Prop) : Bool → β → β → Prop
  | true, before, after => R before after
  | false, before, after => R after before

theorem Toward.imp {β γ : Type} {R : β → β → Prop} {S : γ → γ → Prop} {good : Bool} {x y : β}
    {x' y' : γ} (h : Toward R good x y) (hf : R x y → S x' y') (hf' : R y x → S y' x') :
    Toward S good x' y' := by
  cases good with
  | true => exact hf h
  | false => exact hf' h

theorem Toward.trans {β : Type} {R : β → β → Prop} (hR : ∀ x y z, R x y → R y z → R x z)
    {good : Bool} {x y z : β} (h : Toward R good x y) (h' : Toward R good y z) :
    Toward R good x z := by
  cases good with
  | true => exact hR x y z h h'
  | false => exact hR z y x h' h

theorem Toward.refl {β : Type} {R : β → β → Prop} (hR : ∀ x, R x x) (good : Bool) (x : β) :
    Toward R good x x := by
  cases good <;> exact hR x

/-! ## Beliefs -/

namespace Beta

/-- Neither count has run out. -/
structure IsPositive (d : Beta Rat) : Prop where
  alpha : 0 < d.alpha
  beta : 0 < d.beta

/-- No more good outcomes, and no fewer bad ones. -/
structure AtMost (d d' : Beta Rat) : Prop where
  alpha : d.alpha ≤ d'.alpha
  beta : d'.beta ≤ d.beta

variable {d d' : Beta Rat}

theorem AtMost.refl (d : Beta Rat) : d.AtMost d := ⟨le_rfl, le_rfl⟩

theorem AtMost.trans {d'' : Beta Rat} (h : d.AtMost d') (h' : d'.AtMost d'') : d.AtMost d'' :=
  ⟨h.alpha.trans h'.alpha, h'.beta.trans h.beta⟩

theorem IsPositive.record (h : d.IsPositive) (good : Bool) : (d.record good).IsPositive := by
  obtain ⟨ha, hb⟩ := h
  unfold Beta.record
  split
  · exact ⟨by positivity, hb⟩
  · exact ⟨ha, by positivity⟩

theorem toward_record (d : Beta Rat) (good : Bool) : Toward AtMost good d (d.record good) := by
  cases good with
  | true => exact ⟨by simp [record], le_rfl⟩
  | false => exact ⟨le_rfl, by simp [record]⟩

theorem AtMost.expected (h : d.AtMost d') (hd : d.IsPositive) (hd' : d'.IsPositive) :
    d.expected ≤ d'.expected := by
  obtain ⟨ha, hb⟩ := hd
  obtain ⟨ha', hb'⟩ := hd'
  unfold Beta.expected
  rw [div_le_div_iff₀ (by positivity) (by positivity)]
  -- multiplied out, `alpha * alpha'` stands on both sides
  have hcross : d.alpha * d'.beta ≤ d'.alpha * d.beta :=
    mul_le_mul h.alpha h.beta hb'.le ha'.le
  linarith [mul_comm d.alpha d'.alpha]

end Beta

namespace Pooling

variable {p : Pooling} {d d' prior : Beta Rat}

theorem minCount_pos : (0 : Rat) < minCount := by
  simp only [minCount, Scalar.ratio]
  norm_num

theorem le_atLeast (bound x : Rat) : bound ≤ atLeast bound x := by
  unfold atLeast
  split <;> simp_all

theorem atLeast_mono {bound x y : Rat} (h : x ≤ y) : atLeast bound x ≤ atLeast bound y := by
  unfold atLeast
  split <;> split <;> simp_all
  linarith

/-- However little a prior counts, a pooled belief has something to divide by. -/
theorem isPositive_pool (hd : d.IsPositive) (hp : prior.IsPositive) :
    (p.pool d prior).IsPositive := by
  cases p with
  | evidence =>
    exact ⟨minCount_pos.trans_le (le_atLeast _ _), minCount_pos.trans_le (le_atLeast _ _)⟩
  | sum => exact ⟨add_pos hd.alpha hp.alpha, add_pos hd.beta hp.beta⟩

theorem pool_atMost (p : Pooling) (h : d.AtMost d') :
    (p.pool d prior).AtMost (p.pool d' prior) := by
  have ha := h.alpha
  have hb := h.beta
  cases p with
  | evidence => exact ⟨atLeast_mono (by linarith), atLeast_mono (by linarith)⟩
  | sum => exact ⟨by simp only [pool]; linarith, by simp only [pool]; linarith⟩

theorem expected_le (p : Pooling) {prior : Option (Beta Rat)}
    (hp : ∀ q, prior = some q → q.IsPositive) (hd : d.IsPositive) (hd' : d'.IsPositive)
    (h : d.AtMost d') : p.expected d prior ≤ p.expected d' prior := by
  cases prior with
  | none => exact h.expected hd hd'
  | some q =>
    have hq := hp q rfl
    exact (pool_atMost p h).expected (isPositive_pool hd hq) (isPositive_pool hd' hq)

end Pooling

/-! ## Edges -/

variable {k : ModelKind}

/-- Neither count of any expectation has run out. -/
structure Stereotype.IsPositive (st : Stereotype Rat) : Prop where
  submission : st.edge.submission.IsPositive
  result : st.edge.result.IsPositive
  quality : ∀ name d, st.quality? name = some d → d.IsPositive

namespace Capability

/-- The same capability with results of at most the same quality. -/
structure AtMost (c c' : Capability (CapabilityTrust Rat k)) : Prop where
  name : c'.name = c.name
  traffic : c'.trust.traffic? = c.trust.traffic?
  quality : c.trust.quality.AtMost c'.trust.quality

theorem AtMost.refl (c : Capability (CapabilityTrust Rat k)) : c.AtMost c :=
  ⟨rfl, rfl, .refl _⟩

theorem AtMost.trans {c c' c'' : Capability (CapabilityTrust Rat k)} (h : c.AtMost c')
    (h' : c'.AtMost c'') : c.AtMost c'' :=
  ⟨h'.name.trans h.name, h'.traffic.trans h.traffic, h.quality.trans h'.quality⟩

end Capability

namespace Edge

/-- Neither count of any belief about the edge has run out. -/
structure IsPositive (e : TrustEdge Rat k) : Prop where
  submission : e.trust.submission.IsPositive
  result : e.trust.result.IsPositive
  quality : ∀ c ∈ e.capabilities, c.trust.quality.IsPositive

/-- The same edge of which less good, or more bad, is known. -/
structure AtMost (e e' : TrustEdge Rat k) : Prop where
  address : e'.address = e.address
  submission : e.trust.submission.AtMost e'.trust.submission
  result : e.trust.result.AtMost e'.trust.result
  capabilities : List.Forall₂ Capability.AtMost e.capabilities e'.capabilities

variable {e e' : TrustEdge Rat k}

theorem AtMost.refl (e : TrustEdge Rat k) : e.AtMost e :=
  ⟨rfl, .refl _, .refl _, List.forall₂_same.2 fun c _ => Capability.AtMost.refl c⟩

theorem AtMost.trans {e'' : TrustEdge Rat k} (h : e.AtMost e') (h' : e'.AtMost e'') :
    e.AtMost e'' := by
  refine ⟨h'.address.trans h.address, h.submission.trans h'.submission,
    h.result.trans h'.result, List.forall₂_iff_get.2 ?_⟩
  obtain ⟨hlen, hget⟩ := List.forall₂_iff_get.1 h.capabilities
  obtain ⟨hlen', hget'⟩ := List.forall₂_iff_get.1 h'.capabilities
  exact ⟨hlen.trans hlen', fun i hi hi' => (hget i hi (hlen ▸ hi)).trans (hget' i _ hi')⟩

/-- Capabilities of one name are looked up at the same place. -/
theorem AtMost.capability? (h : e.AtMost e') (name : String) :
    Option.Rel Capability.AtMost (e.capability? name) (e'.capability? name) := by
  have hfind : ∀ {cs cs' : List (Capability (CapabilityTrust Rat k))},
      List.Forall₂ Capability.AtMost cs cs' →
        Option.Rel Capability.AtMost (cs.find? fun c => c.name = name)
          (cs'.find? fun c => c.name = name) := by
    intro cs cs' hcs
    induction hcs with
    | nil => exact .none
    | cons hc _ ih =>
      simp only [List.find?_cons, hc.name]
      split
      · exact .some hc
      · exact ih
  exact hfind h.capabilities

theorem AtMost.exists_right (h : e.AtMost e') {i : Nat} {c : Capability (CapabilityTrust Rat k)}
    (hc : e.capabilities[i]? = some c) : ∃ c', e'.capabilities[i]? = some c' ∧ c.AtMost c' := by
  obtain ⟨hlen, hget⟩ := List.forall₂_iff_get.1 h.capabilities
  obtain ⟨hi, rfl⟩ := List.getElem?_eq_some_iff.1 hc
  exact ⟨_, List.getElem?_eq_getElem (hlen ▸ hi), hget i hi (hlen ▸ hi)⟩

theorem AtMost.exists_left (h : e.AtMost e') {i : Nat} {c' : Capability (CapabilityTrust Rat k)}
    (hc : e'.capabilities[i]? = some c') : ∃ c, e.capabilities[i]? = some c ∧ c.AtMost c' := by
  obtain ⟨hlen, hget⟩ := List.forall₂_iff_get.1 h.capabilities
  obtain ⟨hi, rfl⟩ := List.getElem?_eq_some_iff.1 hc
  exact ⟨_, List.getElem?_eq_getElem (hlen ▸ hi), hget i (hlen ▸ hi) hi⟩

end Edge

/-! ## Scores -/

/-- Both scores were refused alike, or the first is at most the second. -/
inductive Score.AtMost : Except (ThresholdMisuse Rat) Rat → Except (ThresholdMisuse Rat) Rat → Prop
  | refused (m : ThresholdMisuse Rat) : AtMost (.error m) (.error m)
  | given {x y : Rat} (h : x ≤ y) : AtMost (.ok x) (.ok y)

/-- The same metric with at most the same value. -/
def Metric.AtMost (t t' : Metric × Rat) : Prop := t'.1 = t.1 ∧ t.2 ≤ t'.2

namespace Engine

variable {g : Engine Rat} {s : Store} {e e' : TrustEdge Rat k}
  {c c' : Capability (CapabilityTrust Rat k)}

/-- A metric may count for nothing, but not against an edge. -/
def WeighsNothingNegative (g : Engine Rat) : Prop :=
  ∀ application m, 0 ≤ g.weights.weight application m

/-- Every threshold can be held against something. -/
def HasPositiveThresholds (g : Engine Rat) : Prop :=
  ∀ name t, g.thresholds.find? name = some t → t.IsPositive

theorem hasPositiveThresholds_of_reachable (h : (assembly k).Reachable g) : g.HasPositiveThresholds :=
  guarded_of_reachable h

theorem weigh_le (hw : g.WeighsNothingNegative) (application : String)
    {ts ts' : List (Metric × Rat)} (h : List.Forall₂ Metric.AtMost ts ts') :
    g.weigh application ts ≤ g.weigh application ts' := by
  have hfold : ∀ acc acc' : Rat, acc ≤ acc' →
      ts.foldl (fun acc t => acc + g.weights.weight application t.1 * t.2) acc ≤
        ts'.foldl (fun acc t => acc + g.weights.weight application t.1 * t.2) acc' := by
    induction h with
    | nil => exact fun _ _ hacc => hacc
    | @cons t t' _ _ ht _ ih =>
      intro acc acc' hacc
      refine ih _ _ ?_
      show acc + _ ≤ acc' + g.weights.weight application t'.1 * t'.2
      rw [ht.1]
      exact add_le_add hacc (mul_le_mul_of_nonneg_left ht.2 (hw application t.1))
  exact hfold 0 0 le_rfl

theorem beliefs_atMost {prior : Option (Stereotype Rat)}
    (hst : ∀ st, prior = some st → st.IsPositive) (he : e.IsPositive) (he' : e'.IsPositive)
    (hq : c.trust.quality.IsPositive) (hq' : c'.trust.quality.IsPositive) (h : e.AtMost e')
    (hc : c.AtMost c') :
    List.Forall₂ Metric.AtMost (g.beliefs prior e c) (g.beliefs prior e' c') := by
  unfold beliefs
  rw [hc.name]
  refine .cons ⟨rfl, ?_⟩ (.cons ⟨rfl, ?_⟩ (.cons ⟨rfl, ?_⟩ .nil))
  · refine g.pooling.expected_le ?_ he.submission he'.submission h.submission
    intro q hp
    obtain ⟨st, hs, rfl⟩ := Option.map_eq_some_iff.1 hp
    exact (hst st hs).submission
  · refine g.pooling.expected_le ?_ he.result he'.result h.result
    intro q hp
    obtain ⟨st, hs, rfl⟩ := Option.map_eq_some_iff.1 hp
    exact (hst st hs).result
  · refine g.pooling.expected_le ?_ hq hq' hc.quality
    intro q hp
    obtain ⟨st, hs, hf⟩ := Option.bind_eq_some_iff.1 hp
    exact (hst st hs).quality _ _ hf

theorem traffic_eq (hc : c.AtMost c') : g.traffic c' = g.traffic c := by
  unfold traffic
  rw [hc.traffic, hc.name]

theorem challenges_atMost (he : e.IsPositive) (he' : e'.IsPositive) (h : e.AtMost e')
    (hc : c.AtMost c') : List.Forall₂ Metric.AtMost (g.challenges e c) (g.challenges e' c') := by
  unfold challenges
  rw [hc.name]
  cases g.challenge with
  | none => exact .nil
  | some name =>
    dsimp only
    split
    · exact .nil
    · cases hcr : e.capability? name <;> cases hcr' : e'.capability? name <;>
        have hrel := h.capability? name <;> rw [hcr, hcr'] at hrel <;> cases hrel
      · exact .nil
      · rename_i cr cr' hcr''
        refine .cons ⟨rfl, hcr''.quality.expected ?_ ?_⟩ .nil
        · exact he.quality cr (List.mem_of_find?_eq_some hcr)
        · exact he'.quality cr' (List.mem_of_find?_eq_some hcr')

/-- A score is refused only against a threshold that nothing can be held against. -/
theorem exists_trust (ht : g.HasPositiveThresholds) (s : Store) (e : TrustEdge Rat k)
    (c : Capability (CapabilityTrust Rat k)) : ∃ x, g.trust s e c = .ok x := by
  obtain ⟨ts, hts⟩ := Guarded.exists_traffic ht c
  simp only [trust, terms, hts]
  exact ⟨_, rfl⟩

theorem stereotypeFor?_eq (h : e.AtMost e') : g.stereotypeFor? s e' = g.stereotypeFor? s e := by
  unfold stereotypeFor?
  rw [h.address]

/-- **An edge that speaks at most as well scores at most as high**, or both scores are refused
against the same threshold. -/
theorem trust_atMost (hw : g.WeighsNothingNegative)
    (hst : ∀ st, g.stereotypeFor? s e = some st → st.IsPositive) (he : e.IsPositive)
    (he' : e'.IsPositive) (h : e.AtMost e') (hm : c ∈ e.capabilities) (hm' : c' ∈ e'.capabilities)
    (hc : c.AtMost c') : Score.AtMost (g.trust s e c) (g.trust s e' c') := by
  simp only [trust, terms, traffic_eq hc, stereotypeFor?_eq h, hc.name]
  cases g.traffic c with
  | error m => exact .refused m
  | ok ts =>
    refine .given (weigh_le hw c.name ?_)
    have hbeliefs := beliefs_atMost (g := g) hst he he' (he.quality c hm) (he'.quality c' hm') h hc
    have htraffic : List.Forall₂ Metric.AtMost ts ts := List.forall₂_same.2 fun _ _ => ⟨rfl, le_rfl⟩
    have hchallenges := challenges_atMost (g := g) he he' h hc
    exact List.rel_append (List.rel_append hbeliefs htraffic) hchallenges

end Engine

/-! ## Outcomes -/

/-- Something that happened between the node and an edge and says something about the edge. -/
inductive Experience where
  | submission (o : SubmissionOutcome)
  | result (o : ResultOutcome)
  | quality (capability : String) (good : Bool)
  | challenge (o : ChallengeOutcome)
  deriving DecidableEq, Repr

/-- Whether it went well or badly, if it says either. -/
def Experience.evidence : Experience → Option Bool
  | .submission o => o.evidence
  | .result o => some o.isGood
  | .quality _ good => some good
  | .challenge o => o.evidence

namespace Edge

section
variable {α : Type} [Scalar α]

/-- What an outcome leaves of an edge. -/
def learn (challenge : Option String) (x : Experience) (e : TrustEdge α k) : TrustEdge α k :=
  match x with
  | .submission o => (e.recordSubmission o).2
  | .result o => e.recordResult o
  | .quality capability good => (e.recordQuality capability good).2
  | .challenge o => (e.recordChallenge challenge o).2

/-- Counts one more outcome in the quality of the first capability of a name. -/
def rate (name : String) (good : Bool) (e : TrustEdge α k) : TrustEdge α k :=
  { e with capabilities := modifyCapability name (fun t => t.recordQuality good) e.capabilities }

/-- An outcome that is no evidence changes nothing; one that is goes into one belief, unless it is
that of a challenge and no capability stands for challenges. -/
theorem learn_cases (challenge : Option String) (x : Experience) (e : TrustEdge α k) :
    (x.evidence = none ∧ e.learn challenge x = e) ∨
      ∃ good, x.evidence = some good ∧
        (e.learn challenge x = { e with trust := e.trust.recordSubmission good } ∨
          e.learn challenge x = { e with trust := e.trust.recordResult good } ∨
          (∃ name, e.learn challenge x = e.rate name good) ∨ e.learn challenge x = e) := by
  cases x with
  | submission o =>
    cases ho : o.evidence with
    | none => exact .inl ⟨ho, by simp [learn, recordSubmission, ho]⟩
    | some good => exact .inr ⟨good, ho, .inl (by simp [learn, recordSubmission, ho])⟩
  | result o => exact .inr ⟨o.isGood, rfl, .inr (.inl rfl)⟩
  | quality name good => exact .inr ⟨good, rfl, .inr (.inr (.inl ⟨name, withCapability_snd ..⟩))⟩
  | challenge o =>
    cases ho : o.evidence with
    | none => exact .inl ⟨ho, by simp [learn, recordChallenge, ho]⟩
    | some good =>
      refine .inr ⟨good, ho, .inr (.inr ?_)⟩
      cases challenge with
      | none => exact .inr (by simp [learn, recordChallenge, ho])
      | some name =>
        refine .inl ⟨name, ?_⟩
        simp only [learn, recordChallenge, ho]
        exact withCapability_snd ..

end

variable {e e' : TrustEdge Rat k} {c : Capability (CapabilityTrust Rat k)}

theorem toward_rate (name : String) (good : Bool) (e : TrustEdge Rat k) :
    Toward AtMost good e (e.rate name good) := by
  have hlist : ∀ cs : List (Capability (CapabilityTrust Rat k)),
      Toward (List.Forall₂ Capability.AtMost) good cs
        (modifyCapability name (fun t => t.recordQuality good) cs) := by
    intro cs
    induction cs with
    | nil => cases good <;> exact .nil
    | cons c cs ih =>
      have hsame : List.Forall₂ Capability.AtMost cs cs :=
        List.forall₂_same.2 fun c _ => Capability.AtMost.refl c
      have hq := c.trust.quality.toward_record good
      unfold modifyCapability
      split
      · refine hq.imp (fun h => .cons ⟨rfl, ?_, ?_⟩ hsame) fun h => .cons ⟨rfl, ?_, ?_⟩ hsame
        all_goals simp [h]
      · exact ih.imp (fun h => .cons (.refl c) h) fun h => .cons (.refl c) h
  exact (hlist e.capabilities).imp (fun h => ⟨rfl, .refl _, .refl _, h⟩)
    fun h => ⟨rfl, .refl _, .refl _, h⟩

/-- **What an outcome leaves behind** speaks at least as well as what was there before where the
outcome was good, and at most as well where it was bad. -/
theorem toward_learn {x : Experience} {good : Bool} (hx : x.evidence = some good)
    (challenge : Option String) (e : TrustEdge Rat k) :
    Toward AtMost good e (e.learn challenge x) := by
  have hsame : List.Forall₂ Capability.AtMost e.capabilities e.capabilities :=
    List.forall₂_same.2 fun c _ => Capability.AtMost.refl c
  obtain ⟨hn, -⟩ | ⟨good', hg, hl⟩ := learn_cases challenge x e
  · rw [hn] at hx
    cases hx
  · obtain rfl : good' = good := by simpa [hg] using hx
    obtain hl | hl | ⟨name, hl⟩ | hl := hl <;> rw [hl]
    · exact (e.trust.submission.toward_record good').imp (fun h => ⟨rfl, h, .refl _, hsame⟩)
        fun h => ⟨rfl, h, .refl _, hsame⟩
    · exact (e.trust.result.toward_record good').imp (fun h => ⟨rfl, .refl _, h, hsame⟩)
        fun h => ⟨rfl, .refl _, h, hsame⟩
    · exact toward_rate name good' e
    · exact .refl AtMost.refl good' e

theorem IsPositive.rate (h : e.IsPositive) (name : String) (good : Bool) :
    (e.rate name good).IsPositive := by
  refine ⟨h.submission, h.result, ?_⟩
  refine forall_modifyCapability (P := fun t => t.quality.IsPositive) name (fun t ht => ?_) h.quality
  rw [CapabilityTrust.quality_recordQuality]
  exact ht.record good

/-- Counting outcomes keeps every count positive. -/
theorem IsPositive.learn (h : e.IsPositive) (challenge : Option String) (x : Experience) :
    (e.learn challenge x).IsPositive := by
  obtain ⟨-, hl⟩ | ⟨good, -, hl⟩ := learn_cases challenge x e
  · rwa [hl]
  · obtain hl | hl | ⟨name, hl⟩ | hl := hl <;> rw [hl]
    · exact ⟨h.submission.record good, h.result, h.quality⟩
    · exact ⟨h.submission, h.result.record good, h.quality⟩
    · exact h.rate name good
    · exact h

/-- Outcomes that all go the same way. -/
theorem toward_learn_all {xs : List Experience} {good : Bool}
    (hxs : ∀ x ∈ xs, x.evidence = some good) (challenge : Option String) (e : TrustEdge Rat k) :
    Toward AtMost good e (xs.foldl (fun e x => e.learn challenge x) e) ∧
      (e.IsPositive → (xs.foldl (fun e x => e.learn challenge x) e).IsPositive) := by
  induction xs generalizing e with
  | nil => exact ⟨.refl AtMost.refl good e, fun he => he⟩
  | cons x xs ih =>
    have hx := toward_learn (hxs x (by simp)) challenge e
    obtain ⟨hrest, hpos⟩ := ih (fun x' hx' => hxs x' (by simp [hx'])) (e.learn challenge x)
    exact ⟨hx.trans (fun _ _ _ h h' => h.trans h') hrest, fun he => hpos (he.learn challenge x)⟩

end Edge

namespace Engine

variable {g : Engine Rat} {s : Store} {e e' : TrustEdge Rat k}
  {c : Capability (CapabilityTrust Rat k)} {i : Nat} {good : Bool}

/-- Every capability of an edge that moved is still there, and its score moved the same way. -/
theorem toward_trust (hw : g.WeighsNothingNegative)
    (hst : ∀ st, g.stereotypeFor? s e = some st → st.IsPositive) (he : e.IsPositive)
    (he' : e'.IsPositive) (h : Toward Edge.AtMost good e e') (hc : e.capabilities[i]? = some c) :
    ∃ c', e'.capabilities[i]? = some c' ∧ c'.name = c.name ∧
      Toward Score.AtMost good (g.trust s e c) (g.trust s e' c') := by
  have hm := List.mem_of_getElem? hc
  cases good with
  | true =>
    obtain ⟨c', hc', hcc⟩ := Edge.AtMost.exists_right h hc
    have hm' := List.mem_of_getElem? hc'
    exact ⟨c', hc', hcc.name, trust_atMost hw hst he he' h hm hm' hcc⟩
  | false =>
    obtain ⟨c', hc', hcc⟩ := Edge.AtMost.exists_left h hc
    have hm' := List.mem_of_getElem? hc'
    rw [stereotypeFor?_eq h] at hst
    exact ⟨c', hc', hcc.name.symm, trust_atMost hw hst he' he h hm' hm hcc⟩

/-- **Scores follow the evidence.** Whatever outcome goes into whichever belief about an edge or one
of its capabilities, every capability of the edge is still there under its name. If the outcome was
good, no score falls; if it was bad, none rises; if it was no evidence, nothing changes. There are
two scores to compare wherever the thresholds were set through the engine. -/
theorem trust_follows_evidence (hw : g.WeighsNothingNegative)
    (hst : ∀ st, g.stereotypeFor? s e = some st → st.IsPositive) (he : e.IsPositive)
    (hc : e.capabilities[i]? = some c) (x : Experience) :
    ∃ c', (e.learn g.challenge x).capabilities[i]? = some c' ∧ c'.name = c.name ∧
      (x.evidence = some true →
        Score.AtMost (g.trust s e c) (g.trust s (e.learn g.challenge x) c')) ∧
      (x.evidence = some false →
        Score.AtMost (g.trust s (e.learn g.challenge x) c') (g.trust s e c)) ∧
      (x.evidence = none → e.learn g.challenge x = e ∧ c' = c) ∧
      (g.HasPositiveThresholds → ∃ y y', g.trust s e c = .ok y ∧
        g.trust s (e.learn g.challenge x) c' = .ok y') := by
  have hscored (c') : g.HasPositiveThresholds → ∃ y y', g.trust s e c = .ok y ∧
      g.trust s (e.learn g.challenge x) c' = .ok y' := by
    intro ht
    obtain ⟨y, hy⟩ := exists_trust ht s e c
    obtain ⟨y', hy'⟩ := exists_trust ht s (e.learn g.challenge x) c'
    exact ⟨y, y', hy, hy'⟩
  cases hx : x.evidence with
  | none =>
    have hsame : e.learn g.challenge x = e := by
      obtain ⟨-, hl⟩ | ⟨good, hg, -⟩ := Edge.learn_cases g.challenge x e
      · exact hl
      · simp [hx] at hg
    exact ⟨c, by rwa [hsame], rfl, by simp, by simp, fun _ => ⟨hsame, rfl⟩, hscored c⟩
  | some good =>
    obtain ⟨c', hc', hn, hmove⟩ := toward_trust hw hst he (he.learn g.challenge x)
      (Edge.toward_learn hx g.challenge e) hc
    refine ⟨c', hc', hn, ?_, ?_, by simp, hscored c'⟩
    · rintro ⟨⟩
      exact hmove
    · rintro ⟨⟩
      exact hmove

/-- An engine that lets challenges count for routing, with a stereotype for ordinary edges. -/
def wary : Engine Rat where
  weights := Weights.empty.set "routing" .challengeResponse 1
  stereotypes := StereotypeTable.empty.insert ⟨.edge, ⟨⟨3, 1⟩, ⟨2, 1⟩, none⟩, .empty⟩
  thresholds := .empty
  pooling := .evidence
  challenge := some "echo"

/-- A store with one verified certificate. -/
def acquainted : Store :=
  ((Store.empty 1 ⟨Vector.replicate 16 0⟩ ⟨Vector.replicate 64 0⟩).perform
    (.add (.uniform 1) .requested)).perform (.promote ⟨0, 0⟩)

/-- The edge of that certificate, which routes and answers challenges. -/
def newcomer : TrustEdge Rat .baseline where
  id := ⟨0⟩
  address := ⟨#v[0, 0, 0, 0, 0, 0, 0, 0, 3, 1, 1, 1, 1, 1, 1, 1]⟩
  identity := ""
  capabilities := [⟨"routing", .fresh⟩, ⟨"echo", .fresh⟩]
  trust := .fresh

/-- A challenge that is not answered in time is a bad outcome for another capability of the edge. -/
theorem trust_after_missed_challenge :
    (wary.stereotypeFor? acquainted newcomer).isSome ∧ ∃ y y',
      wary.trust acquainted newcomer ⟨"routing", .fresh⟩ = .ok y ∧
      wary.trust acquainted (newcomer.learn (some "echo") (.challenge .timedOut))
        ⟨"routing", .fresh⟩ = .ok y' ∧ y' ≤ y := by
  have htags : acquainted.tags? newcomer.address = some .edge := by decide
  have hs : wary.stereotypeFor? acquainted newcomer =
      some ⟨.edge, ⟨⟨3, 1⟩, ⟨2, 1⟩, none⟩, .empty⟩ := by
    rw [stereotypeFor?, htags]
    rfl
  have hw : wary.WeighsNothingNegative := by
    intro application m
    show 0 ≤ (Weights.empty.set "routing" .challengeResponse (1 : Rat)).weight application m
    rw [Weights.weight_set]
    split
    · norm_num
    · exact le_rfl
  have hst : ∀ st, wary.stereotypeFor? acquainted newcomer = some st → st.IsPositive := by
    intro st h
    rw [hs] at h
    cases h
    exact ⟨⟨by norm_num, by norm_num⟩, ⟨by norm_num, by norm_num⟩, fun _ _ h => by cases h⟩
  have hfresh : (Beta.uniform : Beta Rat).IsPositive := ⟨one_pos, one_pos⟩
  have he : newcomer.IsPositive := by
    refine ⟨hfresh, hfresh, fun c hc => ?_⟩
    rcases hc with _ | ⟨_, _ | ⟨_, ⟨⟩⟩⟩ <;> exact hfresh
  obtain ⟨c', hc', -, -, hbad, -, hscores⟩ :=
    trust_follows_evidence (i := 0) hw hst he rfl (.challenge .timedOut)
  cases hc'
  obtain ⟨y, y', hy, hy'⟩ := hscores fun _ _ h => by cases h
  have hle := hbad rfl
  rw [hy, hy'] at hle
  cases hle with
  | given hle => exact ⟨by rw [hs]; rfl, y, y', hy, hy', hle⟩

/-- Any number of outcomes that all go the same way. -/
theorem trust_follows_experience (hw : g.WeighsNothingNegative)
    (hst : ∀ st, g.stereotypeFor? s e = some st → st.IsPositive) (he : e.IsPositive)
    (hc : e.capabilities[i]? = some c) {xs : List Experience}
    (hxs : ∀ x ∈ xs, x.evidence = some good) :
    ∃ c', (xs.foldl (fun e x => e.learn g.challenge x) e).capabilities[i]? = some c' ∧
      c'.name = c.name ∧
      Toward Score.AtMost good (g.trust s e c)
        (g.trust s (xs.foldl (fun e x => e.learn g.challenge x) e) c') := by
  obtain ⟨hmove, hpos⟩ := Edge.toward_learn_all hxs g.challenge e
  exact toward_trust hw hst he (hpos he) hmove hc

end Engine
end Vouch
