import Vouch.Proofs.Trust.Assembly
import Vouch.Proofs.Trust.Relevance
/-!
# The range of a score

Callers hold scores against bounds of their own, so a score has to stay within some range. If no weight
is negative, it lies between zero and all weights of the application together. Nothing is clamped on the
way: every metric that enters has a value from zero to one, since what experience leaves in a record
is regular: counts are positive and mean traffic is not negative. Records that were put back may be otherwise
and are not among those here.

Scores are figures, so that a division by zero would show: it has no value, and neither would the score.

* `Figure.UpTo`: the range of a figure, through sums and products.
* `Edge.regular_of_reachable`: records that grew out of experience.
* `Engine.upTo_value?`: the value of a metric.
* `Engine.trust_upTo`: the score.
-/
namespace Vouch

namespace Figure

variable {p q : Rat} {x y w v : Figure}

/-! ## Ranges -/

theorem pos_iff : 0 < x ↔ ∃ q : Rat, 0 < q ∧ x = .exact q := by
  cases x with
  | exact q => exact ⟨fun h => ⟨q, h, rfl⟩, fun ⟨_, h, hq⟩ => by cases hq; exact h⟩
  | undefined => exact ⟨fun h => h.elim, fun ⟨_, _, h⟩ => by cases h⟩

theorem nonneg_iff : 0 ≤ x ↔ ∃ q : Rat, 0 ≤ q ∧ x = .exact q := by
  cases x with
  | exact q => exact ⟨fun h => ⟨q, h, rfl⟩, fun ⟨_, h, hq⟩ => by cases hq; exact h⟩
  | undefined => exact ⟨fun h => h.elim, fun ⟨_, _, h⟩ => by cases h⟩

/-- A figure lies between zero and another. An undefined one lies nowhere. -/
def UpTo (x w : Figure) : Prop := 0 ≤ x ∧ x ≤ w

theorem upTo_iff : x.UpTo w ↔ ∃ p q : Rat, 0 ≤ p ∧ p ≤ q ∧ x = .exact p ∧ w = .exact q := by
  unfold UpTo
  rw [nonneg_iff]
  constructor
  · rintro ⟨⟨p, hp, rfl⟩, hle⟩
    cases w with
    | exact q => exact ⟨p, q, hp, hle, rfl, rfl⟩
    | undefined => exact hle.elim
  · rintro ⟨p, q, hp, hle, rfl, rfl⟩
    exact ⟨⟨p, hp, rfl⟩, hle⟩

theorem add_pos (hx : 0 < x) (hy : 0 < y) : 0 < x + y := by
  obtain ⟨p, hp, rfl⟩ := pos_iff.1 hx
  obtain ⟨q, hq, rfl⟩ := pos_iff.1 hy
  exact pos_iff.2 ⟨p + q, Left.add_pos hp hq, rfl⟩

theorem UpTo.zero (h : 0 ≤ w) : UpTo 0 w := ⟨le_refl (0 : Rat), h⟩

theorem UpTo.add (hx : x.UpTo w) (hy : y.UpTo v) : (x + y).UpTo (w + v) := by
  obtain ⟨p, q, hp, hpq, rfl, rfl⟩ := upTo_iff.1 hx
  obtain ⟨p', q', hp', hpq', rfl, rfl⟩ := upTo_iff.1 hy
  exact upTo_iff.2 ⟨p + p', q + q', add_nonneg hp hp', add_le_add hpq hpq', rfl, rfl⟩

/-- What is at most one counts for its weight at most. -/
theorem UpTo.weigh (hw : 0 ≤ w) (hx : x.UpTo 1) : (w * x).UpTo w := by
  obtain ⟨q, hq, rfl⟩ := nonneg_iff.1 hw
  obtain ⟨p, _, hp, hp1, rfl, h1⟩ := upTo_iff.1 hx
  cases h1
  exact upTo_iff.2 ⟨q * p, q, mul_nonneg hq hp, mul_le_of_le_one_right hq hp1, rfl, rfl⟩

/-- Sums grow together. -/
theorem UpTo.foldl {β : Type} {f g : β → Figure} {l : List β} (h : ∀ m ∈ l, (f m).UpTo (g m))
    (hx : x.UpTo w) :
    (l.foldl (fun acc m => acc + f m) x).UpTo (l.foldl (fun acc m => acc + g m) w) := by
  induction l generalizing x w with
  | nil => exact hx
  | cons m l ih =>
    exact ih (fun m' hm' => h m' (List.mem_cons_of_mem m hm')) (hx.add (h m List.mem_cons_self))

theorem UpTo.div (hx : 0 ≤ x) (hy : 0 < y) (hle : ¬ y ≤ x) : (x / y).UpTo 1 := by
  obtain ⟨p, hp, rfl⟩ := nonneg_iff.1 hx
  obtain ⟨q, hq, rfl⟩ := pos_iff.1 hy
  have hlt : p < q := not_le.1 hle
  refine upTo_iff.2 ⟨p / q, 1, div_nonneg hp hq.le, (div_le_one hq).2 hlt.le, ?_, rfl⟩
  rw [exact_div_exact, quotient, if_neg hq.ne']

end Figure

/-! ## Records that grew out of experience -/

variable {k : ModelKind}

namespace Beta

/-- Both counts are positive numbers. -/
structure Regular (d : Beta Figure) : Prop where
  alpha : 0 < d.alpha
  beta : 0 < d.beta

variable {d d' : Beta Figure}

theorem regular_uniform : (uniform : Beta Figure).Regular :=
  ⟨zero_lt_one (α := Rat), zero_lt_one (α := Rat)⟩

theorem Regular.record (h : d.Regular) (good : Bool) : (d.record good).Regular := by
  have hone : (0 : Figure) < 1 := zero_lt_one (α := Rat)
  cases good with
  | true => exact ⟨Figure.add_pos h.alpha hone, h.beta⟩
  | false => exact ⟨h.alpha, Figure.add_pos h.beta hone⟩

/-- Of positive counts, neither is more than both together. -/
theorem Regular.upTo_expected (h : d.Regular) : d.expected.UpTo 1 := by
  obtain ⟨a, ha, hda⟩ := Figure.pos_iff.1 h.alpha
  obtain ⟨b, hb, hdb⟩ := Figure.pos_iff.1 h.beta
  have hsum : 0 < a + b := add_pos ha hb
  refine Figure.upTo_iff.2 ⟨a / (a + b), 1, (div_pos ha hsum).le, ?_, ?_, rfl⟩
  · rw [div_le_one hsum]
    exact le_add_of_nonneg_right hb.le
  · rw [expected, hda, hdb, Figure.exact_add_exact, Figure.exact_div_exact, Figure.quotient,
      if_neg hsum.ne']

end Beta

namespace Gaussian

/-- The mean is a number and not negative. -/
def Regular (d : Gaussian Figure) : Prop := 0 ≤ d.mean

theorem regular_empty : (empty : Gaussian Figure).Regular := le_refl (0 : Rat)

/-- The new mean is between the old one and the sample. -/
theorem Regular.update {d : Gaussian Figure} (h : d.Regular) {x : Figure} (hx : 0 ≤ x) :
    (d.update x).Regular := by
  obtain ⟨m, hm, hmean⟩ := Figure.nonneg_iff.1 h
  obtain ⟨q, hq, rfl⟩ := Figure.nonneg_iff.1 hx
  have hn : (1 : Rat) ≤ (nextCount d.count).toNat := by
    exact_mod_cast Nat.one_le_iff_ne_zero.2 (toNat_nextCount_ne_zero d.count)
  have hpos : (0 : Rat) < (nextCount d.count).toNat := zero_lt_one.trans_le hn
  refine Figure.nonneg_iff.2 ⟨m + (q - m) / (nextCount d.count).toNat, ?_, ?_⟩
  · -- The old mean gives up a share of itself, which is less than all of it, for one of the sample.
    have hshare : m / (nextCount d.count).toNat ≤ m := div_le_self hm hn
    have hsample : 0 ≤ q / (nextCount d.count).toNat := div_nonneg hq hpos.le
    rw [sub_div]
    linarith
  · show d.mean + (.exact q - d.mean) / ((nextCount d.count).toNat : Figure) = _
    rw [hmean, Figure.natCast_def, Figure.exact_sub_exact, Figure.exact_div_exact, Figure.quotient,
      if_neg hpos.ne', Figure.exact_add_exact]

end Gaussian

namespace CapabilityTrust

/-- The record of a capability that grew out of experience. -/
def Regular : CapabilityTrust Figure k → Prop
  | .baseline q => q.Regular
  | .throughput q inbound outbound => q.Regular ∧ inbound.Regular ∧ outbound.Regular

variable {t : CapabilityTrust Figure k}

theorem regular_fresh : (fresh : CapabilityTrust Figure k).Regular := by
  cases k with
  | baseline => exact Beta.regular_uniform
  | throughput => exact ⟨Beta.regular_uniform, Gaussian.regular_empty, Gaussian.regular_empty⟩

theorem Regular.quality (h : t.Regular) : t.quality.Regular := by
  cases t with
  | baseline => exact h
  | throughput => exact h.1

theorem Regular.traffic (h : t.Regular) {inbound outbound : Gaussian Figure}
    (ht : t.traffic? = some (inbound, outbound)) : inbound.Regular ∧ outbound.Regular := by
  cases t with
  | baseline => cases ht
  | throughput =>
    cases ht
    exact h.2

theorem Regular.recordQuality (h : t.Regular) (good : Bool) : (t.recordQuality good).Regular := by
  cases t with
  | baseline => exact Beta.Regular.record h good
  | throughput => exact ⟨h.1.record good, h.2⟩

theorem Regular.recordTraffic (h : t.Regular) (d : Direction) {x : Figure} (hx : 0 ≤ x) :
    (t.recordTraffic d x).2.Regular := by
  cases t with
  | baseline => exact h
  | throughput =>
    obtain ⟨hq, hi, ho⟩ := h
    cases d with
    | inbound => exact ⟨hq, hi.update hx, ho⟩
    | outbound => exact ⟨hq, hi, ho.update hx⟩

end CapabilityTrust

/-- Neither of two expectations of a stereotype, nor any of a capability, leaves a count out. -/
structure Stereotype.Regular (st : Stereotype Figure) : Prop where
  submission : st.edge.submission.Regular
  result : st.edge.result.Regular
  quality : ∀ name d, st.quality? name = some d → d.Regular

/-- An update out of experience: nothing is put back, and no sample of the traffic is negative. -/
def Update.Lived : Update Figure → Prop
  | .announce _ | .learn _ _ | .ping _ _ => True
  | .traffic _ _ x => 0 ≤ x
  | .restore _ | .restoreCapability _ _ => False

instance (u : Update Figure) : Decidable u.Lived :=
  match u with
  | .announce _ | .learn _ _ | .ping _ _ => isTrue trivial
  | .traffic _ _ x => inferInstanceAs (Decidable (0 ≤ x))
  | .restore _ | .restoreCapability _ _ => isFalse id

namespace Edge

/-- What can happen to an edge while it is registered. -/
inductive Event where
  | update (u : Update Figure)
  | withdraw (capability : String)

/-- The life of an edge since it was registered, with no records from before. -/
def firstLife : System (TrustEdge Figure k) Event where
  initial e := e.capabilities = [] ∧ e.trust = .fresh
  step e
    | .update u => if u.Lived then some (e.apply u) else none
    | .withdraw capability => some (e.withdraw capability)

/-- All records of the edge are such as grow out of experience. -/
structure Regular (e : TrustEdge Figure k) : Prop where
  submission : e.trust.submission.Regular
  result : e.trust.result.Regular
  capability : ∀ c ∈ e.capabilities, c.trust.Regular

variable {e : TrustEdge Figure k}

theorem Regular.learn (h : e.Regular) (challenge : Option String) (x : Experience) :
    (e.learn challenge x).Regular := by
  obtain ⟨-, hl⟩ | ⟨good, -, hl⟩ := learn_cases challenge x e
  · rwa [hl]
  · obtain hl | hl | ⟨name, hl⟩ | hl := hl <;> rw [hl]
    · exact ⟨h.submission.record good, h.result, h.capability⟩
    · exact ⟨h.submission, h.result.record good, h.capability⟩
    · exact ⟨h.submission, h.result,
        forall_modifyCapability name (fun t ht => ht.recordQuality good) h.capability⟩
    · exact h

/-- **One update.** -/
theorem Regular.apply (h : e.Regular) {u : Update Figure} (hu : u.Lived) : (e.apply u).Regular := by
  cases u with
  | announce capability =>
    refine ⟨h.submission, h.result, fun c hc => ?_⟩
    rcases List.mem_append.1 hc with hc | hc
    · exact h.capability c hc
    · rw [List.mem_singleton.1 hc]
      exact CapabilityTrust.regular_fresh
  | learn challenge x => exact h.learn challenge x
  | ping now p =>
    cases p with
    | sent => exact h
    | received => exact ⟨h.submission, h.result, h.capability⟩
  | traffic capability d x =>
    show (e.recordTraffic capability d x).2.Regular
    rw [recordTraffic, withCapability_snd]
    exact ⟨h.submission, h.result,
      forall_modifyCapability capability (fun t ht => ht.recordTraffic d hu) h.capability⟩
  | restore | restoreCapability => exact hu.elim

/-- **A life.** -/
theorem regular_of_reachable (h : firstLife.Reachable e) : e.Regular := by
  refine h.invariant (P := Regular) ?_ ?_
  · rintro e ⟨hnone, hfresh⟩
    refine ⟨?_, ?_, by simp [hnone]⟩ <;> rw [hfresh]
    · exact Beta.regular_uniform
    · exact Beta.regular_uniform
  · intro e u e' he hstep
    cases u with
    | update u =>
      simp only [firstLife, Option.ite_none_right_eq_some, Option.some.injEq] at hstep
      obtain ⟨hu, rfl⟩ := hstep
      exact he.apply hu
    | withdraw capability =>
      obtain rfl := Option.some.inj hstep
      exact ⟨he.submission, he.result, fun c hc => he.capability c (List.mem_of_mem_eraseP hc)⟩

end Edge

/-! ## Values of metrics -/

/-- A pooled belief has positive counts, whatever was pooled. -/
theorem Pooling.upTo_expected (p : Pooling) {own : Beta Figure} (h : own.Regular)
    {prior : Option (Beta Figure)} (hp : ∀ d, prior = some d → d.Regular) :
    (p.expected own prior).UpTo 1 := by
  cases prior with
  | none => exact h.upTo_expected
  | some d =>
    have hd := hp d rfl
    refine Beta.Regular.upTo_expected (d := p.pool own d) ?_
    cases p with
    | evidence =>
      -- The prior that both share is taken off once; a floor keeps what is left positive.
      obtain ⟨x, hx, hx'⟩ := exists_atLeast (own.alpha + d.alpha - 1)
      obtain ⟨y, hy, hy'⟩ := exists_atLeast (own.beta + d.beta - 1)
      exact ⟨Figure.pos_iff.2 ⟨x, hx, hx'⟩, Figure.pos_iff.2 ⟨y, hy, hy'⟩⟩
    | sum => exact ⟨Figure.add_pos h.alpha hd.alpha, Figure.add_pos h.beta hd.beta⟩

/-- A shortfall scales the score; everything else is all or nothing. -/
theorem upTo_score {inbound outbound : Gaussian Figure} (hi : inbound.Regular) (ho : outbound.Regular)
    {t : Threshold Figure} (ht : t.IsPositive) : (score inbound outbound t).UpTo 1 := by
  have hone : (1 : Figure).UpTo 1 := ⟨zero_le_one (α := Rat), le_refl (1 : Rat)⟩
  have hmeets (d : Gaussian Figure) (least : Figure) : (meets d least).UpTo 1 := by
    unfold meets
    split
    · exact hone
    · exact .zero (zero_le_one (α := Rat))
  unfold score
  split
  · split
    · exact hone
    · exact hmeets _ _
  · split
    · exact hmeets _ _
    · split
      · rename_i hshort
        exact .div ho ht.2 hshort
      · split
        · rename_i hshort
          exact .div hi ht.1 hshort
        · exact hone

namespace Engine

variable {g : Engine Figure} {s : Store} {e : TrustEdge Figure k}
  {c : Capability (CapabilityTrust Figure k)}

theorem regular_prior? (hst : ∀ tags st, g.stereotypes.find? tags = some st → st.Regular) (m : Metric) :
    ∀ d, g.prior? s e c m = some d → d.Regular := by
  have hstereotype (st : Stereotype Figure) (h : g.stereotypeFor? s e = some st) : st.Regular := by
    obtain ⟨tags, -, hf⟩ := Option.bind_eq_some_iff.1 h
    exact hst tags st hf
  intro d hd
  cases m with
  | taskSubmission =>
    obtain ⟨st, h, rfl⟩ := Option.map_eq_some_iff.1 hd
    exact (hstereotype st h).submission
  | taskResult =>
    obtain ⟨st, h, rfl⟩ := Option.map_eq_some_iff.1 hd
    exact (hstereotype st h).result
  | resultQuality =>
    obtain ⟨st, h, hq⟩ := Option.bind_eq_some_iff.1 hd
    exact (hstereotype st h).quality _ _ hq
  | throughput | challengeResponse => cases hd

/-- **The value of a metric**, if it has one, is from zero to one. -/
theorem upTo_value? (hg : g.Guarded)
    (hst : ∀ tags st, g.stereotypes.find? tags = some st → st.Regular) (he : e.Regular)
    (hc : c.trust.Regular) {m : Metric} {x : Figure} (hx : g.value? s e c m = some x) : x.UpTo 1 := by
  have hbelief {d : Beta Figure} (hev : g.evidence? e c m = some (.belief d)) (hd : d.Regular) :
      x.UpTo 1 := by
    unfold value? at hx
    rw [hev] at hx
    cases hx
    exact g.pooling.upTo_expected hd (regular_prior? hst m)
  cases m with
  | taskSubmission => exact hbelief rfl he.submission
  | taskResult => exact hbelief rfl he.result
  | resultQuality => exact hbelief rfl hc.quality
  | throughput =>
    unfold value? evidence? at hx
    cases ht : c.trust.traffic? with
    | none => simp [ht] at hx
    | some samples =>
      simp only [ht, Option.map_some, Option.map_eq_some_iff] at hx
      obtain ⟨t, hf, rfl⟩ := hx
      obtain ⟨hi, ho⟩ := hc.traffic ht
      exact upTo_score hi ho (hg _ t hf)
  | challengeResponse =>
    cases hcr : g.challenger? e c with
    | none => simp [value?, evidence?, hcr] at hx
    | some cr =>
      refine hbelief (by rw [evidence?, hcr]; rfl) (he.capability cr ?_).quality
      exact mem_of_challenger? hcr

/-- What a metric adds is at most its weight. -/
theorem upTo_contribution (hg : g.Guarded)
    (hst : ∀ tags st, g.stereotypes.find? tags = some st → st.Regular) (he : e.Regular)
    (hc : c.trust.Regular) {m : Metric} (hw : 0 ≤ g.weights.weight c.name m) :
    (g.contribution s e c m).UpTo (g.weights.weight c.name m) := by
  unfold contribution
  split
  · rename_i x hx
    exact .weigh hw (upTo_value? hg hst he hc hx)
  · exact .zero hw

/-- All five weights of an application together. -/
def allWeights (g : Engine Figure) (application : String) : Figure :=
  Metric.all.foldl (fun acc m => acc + g.weights.weight application m) 0

/-- **A score has a range.** Take any engine that can be put together, with weights that are not negative
and stereotypes of positive counts, and records that grew out of experience, those of the edge and of the
capability maybe in different lives. The score is not refused, nothing is divided by zero for it, and it
lies between zero and the five weights of the application together. -/
theorem trust_upTo (hg : (assembly k).Reachable g)
    (hw : ∀ m, 0 ≤ g.weights.weight c.name m)
    (hst : ∀ tags st, g.stereotypes.find? tags = some st → st.Regular)
    (he : Edge.firstLife.Reachable e)
    (hc : ∃ e', Edge.firstLife.Reachable e' ∧ c ∈ e'.capabilities) (s : Store) :
    ∃ q total : Rat, g.trust s e c = .ok (.exact q) ∧ g.allWeights c.name = .exact total ∧
      0 ≤ q ∧ q ≤ total := by
  obtain ⟨e', he', hmem⟩ := hc
  have hguarded := guarded_of_reachable hg
  have hregular := (Edge.regular_of_reachable he').capability c hmem
  obtain ⟨ts, hts⟩ := hguarded.exists_traffic c
  have hzero : Figure.UpTo 0 0 := .zero (le_refl (0 : Rat))
  have hrange := hzero.foldl (l := Metric.all) fun m _ =>
    upTo_contribution (s := s) hguarded hst (Edge.regular_of_reachable he) hregular (hw m)
  obtain ⟨q, total, hq, hle, hscore, htotal⟩ := Figure.upTo_iff.1 hrange
  exact ⟨q, total, by rw [trust_eq_foldl hts, hscore], htotal, hq, hle⟩

/-- How routing is set up: one threshold is taken and another refused, and a stereotype is put in. -/
def routine : List (Setting Figure) :=
  [.threshold "routing" ⟨.exact 2, .exact 4⟩, .threshold "routing" ⟨.exact 2, .undefined⟩,
    .pooling .sum, .insertStereotype ⟨.edge, ⟨⟨.exact 3, 1⟩, ⟨.exact 2, 1⟩, none⟩, .empty⟩]

def router : Engine Figure :=
  routine.foldl Engine.set
    (.new ((Weights.empty.set "routing" .throughput 1).set "routing" .taskSubmission (.exact 2)))

/-- What an edge that routes goes through. -/
def trial : List Edge.Event :=
  [.update (.announce "routing"), .update (.traffic "routing" .inbound (.exact 3)),
    .update (.traffic "routing" .outbound (.exact 1)), .update (.learn none (.submission .timeout))]

/-- The edge of the verified certificate, before it does anything. -/
def beginner : TrustEdge Figure .throughput := ⟨⟨0⟩, newcomer.address, "", [], .fresh⟩

theorem trust_of_trial : ∃ e c, Edge.firstLife.run beginner trial = some e ∧
    e.capabilities = [c] ∧ router.thresholds.find? "routing" = some ⟨.exact 2, .exact 4⟩ ∧
    ∃ q total : Rat, router.trust acquainted e c = .ok (.exact q) ∧
      router.allWeights c.name = .exact total ∧ 0 ≤ q ∧ q ≤ total := by
  have hone : (0 : Figure) < 1 := zero_lt_one (α := Rat)
  have hw (m : Metric) : 0 ≤ router.weights.weight "routing" m := by
    show 0 ≤ ((Weights.empty.set "routing" .throughput (1 : Figure)).set "routing" .taskSubmission
      (.exact 2)).weight "routing" m
    rw [Weights.weight_set, Weights.weight_set]
    split
    · exact zero_le_two (α := Rat)
    · split
      · exact zero_le_one (α := Rat)
      · exact le_refl (0 : Rat)
  have hst : ∀ tags st, router.stereotypes.find? tags = some st → st.Regular := by
    intro tags st h
    have hinsert : (StereotypeTable.empty.insert (α := Figure)
        ⟨.edge, ⟨⟨.exact 3, 1⟩, ⟨.exact 2, 1⟩, none⟩, .empty⟩).find? tags = some st := h
    rw [StereotypeTable.find?_insert] at hinsert
    split at hinsert
    · cases hinsert
      exact ⟨⟨three_pos (α := Rat), hone⟩, ⟨two_pos (α := Rat), hone⟩, fun _ _ h => by cases h⟩
    · cases hinsert
  have hreach : (assembly .throughput).Reachable router := ⟨_, routine, .inl ⟨_, rfl⟩, rfl⟩
  refine ⟨_, _, rfl, rfl, rfl, ?_⟩
  exact trust_upTo hreach hw hst ⟨beginner, trial, ⟨rfl, rfl⟩, rfl⟩
    ⟨_, ⟨beginner, trial, ⟨rfl, rfl⟩, rfl⟩, List.mem_singleton.2 rfl⟩ acquainted

end Engine
end Vouch
