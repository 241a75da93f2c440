import Vouch.Proofs.Trust.Lifetime
/-!
# What a score depends on

A score adds up, for each metric, its weight times its value. An application that gives a metric no
weight means its records not to matter, and as long as every value is a number they do not: nothing
times a number is nothing. But a belief whose counts add up to zero has no expectation, and nothing
times an undefined value is undefined. A record with such a belief can be restored, and makes every
score undefined that it enters, with whatever weight.

Scores are figures here: exact fractions with an undefined value.

* `Engine.trust_eq_foldl`: the score as a sum over all metrics.
* `Pooling.expected_eq_undefined_iff`: which beliefs have no expectation. Pooling evidence with a
  stereotype always gives one, adding counts up does not.
* `Engine.trust_eq_iff_of_replaced`: other records behind metrics without weight leave the score as it
  is, unless they make it undefined, or make an undefined one defined.
-/
namespace Vouch

/-! ## Values of metrics -/

/-- What the value of a metric is worked out from. -/
inductive Evidence (α : Type) where
  | belief (d : Beta α)
  | traffic (inbound outbound : Gaussian α)

namespace Engine

section
variable {α : Type} [Scalar α] {k : ModelKind} (g : Engine α) (s : Store) (e : TrustEdge α k)
  (c : Capability (CapabilityTrust α k))

omit [Scalar α] in
/-- The capability that stands for challenges, next to any other capability. -/
def challenger? : Option (Capability (CapabilityTrust α k)) :=
  g.challenge.bind fun name => if name = c.name then none else e.capability? name

omit [Scalar α] in
theorem mem_of_challenger? {g : Engine α} {e : TrustEdge α k}
    {c cr : Capability (CapabilityTrust α k)} (h : g.challenger? e c = some cr) :
    cr ∈ e.capabilities := by
  obtain ⟨name, -, h⟩ := Option.bind_eq_some_iff.1 h
  split at h
  · cases h
  · exact List.mem_of_find?_eq_some h

omit [Scalar α] in
/-- The record behind a metric. -/
def evidence? : Metric → Option (Evidence α)
  | .taskSubmission => some (.belief e.trust.submission)
  | .taskResult => some (.belief e.trust.result)
  | .resultQuality => some (.belief c.trust.quality)
  | .throughput => c.trust.traffic?.map fun t => .traffic t.1 t.2
  | .challengeResponse => (g.challenger? e c).map fun cr => .belief cr.trust.quality

omit [Scalar α] in
/-- What a stereotype says of a metric. -/
def prior? : Metric → Option (Beta α)
  | .taskSubmission => (g.stereotypeFor? s e).map fun st => st.edge.submission
  | .taskResult => (g.stereotypeFor? s e).map fun st => st.edge.result
  | .resultQuality => (g.stereotypeFor? s e).bind fun st => st.quality? c.name
  | .throughput | .challengeResponse => none

/-- The value of a metric, if it enters the score. -/
def value? (m : Metric) : Option α :=
  match g.evidence? e c m with
  | none => none
  | some (.belief d) => some (g.pooling.expected d (g.prior? s e c m))
  | some (.traffic inbound outbound) => (g.thresholds.find? c.name).map (score inbound outbound)

variable {g s e c}

/-- A score is refused on account of the threshold, whatever the traffic was. -/
theorem traffic_eq_error_iff {misuse : ThresholdMisuse α} :
    g.traffic c = .error misuse ↔ c.trust.traffic?.isSome ∧
      g.thresholds.find? c.name = some misuse.threshold ∧ ¬ misuse.threshold.IsPositive := by
  obtain ⟨t⟩ := misuse
  unfold traffic goodness
  cases c.trust.traffic? with
  | none => simp
  | some samples =>
    cases g.thresholds.find? c.name with
    | none => simp
    | some t' =>
      by_cases ht : t'.IsPositive
      · simp only [ht, ↓reduceIte, bind, Except.bind, pure, Except.pure, reduceCtorEq, false_iff]
        rintro ⟨-, heq, hneg⟩
        cases heq
        exact hneg ht
      · simp only [ht, ↓reduceIte, bind, Except.bind, Except.error.injEq, ThresholdMisuse.mk.injEq,
          Option.isSome_some, Option.some.injEq, true_and]
        exact ⟨fun heq => ⟨heq, heq ▸ ht⟩, And.left⟩

theorem eq_of_traffic_eq_ok {ts : List (Metric × α)} (h : g.traffic c = .ok ts) :
    ts = ((g.value? s e c .throughput).map (Metric.throughput, ·)).toList := by
  unfold traffic at h
  unfold value? evidence?
  cases ht : c.trust.traffic? with
  | none =>
    rw [ht] at h
    cases h
    rfl
  | some samples =>
    cases hf : g.thresholds.find? c.name with
    | none =>
      rw [ht, hf] at h
      cases h
      rfl
    | some t =>
      simp only [ht, hf, goodness] at h
      split at h
      · cases h
        rfl
      · cases h

theorem challenges_eq (g : Engine α) (e : TrustEdge α k) (c : Capability (CapabilityTrust α k)) :
    g.challenges e c =
      ((g.value? s e c .challengeResponse).map (Metric.challengeResponse, ·)).toList := by
  unfold challenges value? evidence? challenger?
  cases g.challenge with
  | none => rfl
  | some name =>
    by_cases hn : name = c.name
    · simp [hn]
    · cases hcr : e.capability? name <;> simp [hn, hcr, prior?, Pooling.expected]

/-- The metrics of a score are those that have a value. -/
theorem terms_eq_filterMap {ts : List (Metric × α)} (h : g.traffic c = .ok ts) :
    g.terms s e c = .ok (Metric.all.filterMap fun m => (g.value? s e c m).map (m, ·)) := by
  unfold terms
  rw [h, eq_of_traffic_eq_ok (s := s) (e := e) h, challenges_eq (s := s)]
  -- the first three metrics always have a value
  show Except.ok _ = Except.ok ((_, _) :: (_, _) :: (_, _) :: _)
  simp only [List.filterMap_cons, List.filterMap_nil]
  cases g.value? s e c .throughput <;> cases g.value? s e c .challengeResponse <;> rfl

theorem trust_eq_error_iff {misuse : ThresholdMisuse α} :
    g.trust s e c = .error misuse ↔ g.traffic c = .error misuse := by
  unfold trust terms
  cases g.traffic c <;> simp [bind, Except.bind, pure, Except.pure]

end

/-! ## Sums -/

section
variable {k : ModelKind} {g : Engine Figure} {s : Store} {e : TrustEdge Figure k}
  {c : Capability (CapabilityTrust Figure k)}

/-- What a metric adds to the score. -/
def contribution (g : Engine Figure) (s : Store) (e : TrustEdge Figure k)
    (c : Capability (CapabilityTrust Figure k)) (m : Metric) : Figure :=
  match g.value? s e c m with
  | some x => g.weights.weight c.name m * x
  | none => 0

/-- **A score is a sum over all metrics.** -/
theorem trust_eq_foldl {ts : List (Metric × Figure)} (h : g.traffic c = .ok ts) :
    g.trust s e c = .ok (Metric.all.foldl (fun acc m => acc + g.contribution s e c m) 0) := by
  unfold trust
  rw [terms_eq_filterMap h]
  refine congrArg Except.ok ?_
  unfold weigh
  rw [List.foldl_filterMap]
  refine List.foldl_ext _ _ 0 fun acc m _ => ?_
  unfold contribution
  cases g.value? s e c m with
  | none => exact (Figure.add_zero acc).symm
  | some x => rfl

/-- Without a weight a metric adds nothing, unless its value is undefined. -/
theorem contribution_of_weightless {m : Metric} (hw : g.weights.weight c.name m = 0) :
    g.contribution s e c m = if g.value? s e c m = some .undefined then .undefined else 0 := by
  unfold contribution
  cases g.value? s e c m with
  | none => rfl
  | some x => simp [hw, Figure.zero_mul]

theorem trust_eq_undefined_iff {ts : List (Metric × Figure)} (h : g.traffic c = .ok ts) :
    g.trust s e c = .ok .undefined ↔ ∃ m, g.contribution s e c m = .undefined := by
  rw [trust_eq_foldl h, Except.ok.injEq, Figure.foldl_add_eq_undefined_iff]
  simp [Metric.mem_all, Figure.zero_def]

end
end Engine

/-! ## Values of records that a lifetime leads to -/

theorem Beta.expected_eq_undefined_iff {d : Beta Figure} :
    d.expected = .undefined ↔ d.alpha + d.beta = 0 ∨ d.alpha + d.beta = .undefined := by
  unfold Beta.expected
  rw [Figure.div_eq_undefined_iff, Figure.add_eq_undefined_iff]
  tauto

namespace Pooling

/-- A pooled belief without an expectation. -/
def Hollow (p : Pooling) (own : Beta Figure) : (prior : Option (Beta Figure)) → Prop
  | none => own.alpha + own.beta = 0
  | some prior => p = .sum ∧
      (own.alpha + prior.alpha + (own.beta + prior.beta) = 0 ∨
        prior.alpha = .undefined ∨ prior.beta = .undefined)

theorem minCount_figure : (minCount : Figure) = .exact minCount := by
  simp only [minCount, Scalar.ratio, Figure.natCast_def, Figure.exact_div_exact, Figure.quotient]
  norm_num

theorem atLeast_exact (q : Rat) :
    atLeast (minCount : Figure) (.exact q) = .exact (atLeast minCount q) := by
  simp only [atLeast, minCount_figure, Figure.exact_le_exact]
  split <;> rfl

theorem atLeast_undefined : atLeast (minCount : Figure) .undefined = .exact minCount := by
  rw [minCount_figure]
  exact if_neg id

/-- A count that pooling evidence yields is a positive number, whatever the counts were. -/
theorem exists_atLeast (x : Figure) : ∃ q, 0 < q ∧ atLeast minCount x = .exact q := by
  cases x with
  | undefined => exact ⟨minCount, minCount_pos, atLeast_undefined⟩
  | exact q => exact ⟨_, minCount_pos.trans_le (le_atLeast minCount q), atLeast_exact q⟩

/-- **Beliefs without an expectation.** Pooled evidence is never among them. -/
theorem expected_eq_undefined_iff (p : Pooling) {own : Beta Figure} (h : own.IsFinite)
    (prior : Option (Beta Figure)) : p.expected own prior = .undefined ↔ p.Hollow own prior := by
  obtain ⟨a, ha⟩ := Figure.isFinite_iff.1 h.alpha
  obtain ⟨b, hb⟩ := Figure.isFinite_iff.1 h.beta
  cases prior with
  | none =>
    show own.expected = .undefined ↔ own.alpha + own.beta = 0
    rw [Beta.expected_eq_undefined_iff, ha, hb]
    simp
  | some prior =>
    show (p.pool own prior).expected = .undefined ↔ _
    rw [Beta.expected_eq_undefined_iff]
    cases p with
    | evidence =>
      obtain ⟨x, hx, hx'⟩ := exists_atLeast (own.alpha + prior.alpha - 1)
      obtain ⟨y, hy, hy'⟩ := exists_atLeast (own.beta + prior.beta - 1)
      simp only [pool, hx', hy', Hollow]
      simp [Figure.zero_def]
      positivity
    | sum => simp [pool, Hollow, Figure.add_eq_undefined_iff, ha, hb]

end Pooling

/-- Against a threshold that means something, known traffic has a score. -/
theorem isFinite_score {inbound outbound : Gaussian Figure} (hi : inbound.IsFinite)
    (ho : outbound.IsFinite) {t : Threshold Figure} (ht : t.IsPositive) :
    Scalar.isFinite (score inbound outbound t) = true := by
  have hmeets (d : Gaussian Figure) (least : Figure) : Scalar.isFinite (meets d least) = true := by
    unfold meets
    split <;> rfl
  unfold score
  split
  · split
    · rfl
    · exact hmeets _ _
  · split
    · exact hmeets _ _
    · split
      · exact Figure.isFinite_div_of_pos ho.mean ht.2
      · split
        · exact Figure.isFinite_div_of_pos hi.mean ht.1
        · rfl

namespace Engine

section
variable {k : ModelKind} {g : Engine Figure} {s : Store} {e : TrustEdge Figure k}
  {c : Capability (CapabilityTrust Figure k)} {m : Metric}

/-- A metric whose value comes from a belief without an expectation. -/
def Hollow (g : Engine Figure) (s : Store) (e : TrustEdge Figure k)
    (c : Capability (CapabilityTrust Figure k)) (m : Metric) : Prop :=
  ∃ d, g.evidence? e c m = some (.belief d) ∧ g.pooling.Hollow d (g.prior? s e c m)

/-- An edge and a capability that can stand in for others: the same records are behind each metric that
weighs something, and whatever records behind the rest. -/
structure Replaced (g : Engine Figure) (e : TrustEdge Figure k)
    (c : Capability (CapabilityTrust Figure k)) (e' : TrustEdge Figure k)
    (c' : Capability (CapabilityTrust Figure k)) : Prop where
  address : e'.address = e.address
  name : c'.name = c.name
  evidence : ∀ m, g.weights.weight c.name m ≠ 0 → g.evidence? e' c' m = g.evidence? e c m

/-- An edge and a capability with records that a lifetime leads to, maybe one of each. -/
structure Attained (e : TrustEdge Figure k) (c : Capability (CapabilityTrust Figure k)) : Prop where
  edge : Edge.lifetime.Reachable e
  capability : ∃ e, Edge.lifetime.Reachable e ∧ c ∈ e.capabilities

theorem Attained.isFinite (h : Attained e c) : e.IsFinite ∧ c.trust.IsFinite := by
  obtain ⟨e₀, he₀, hc⟩ := h.capability
  exact ⟨Edge.isFinite_of_reachable h.edge, (Edge.isFinite_of_reachable he₀).capability c hc⟩

/-- Where the score is given, known traffic has a value. -/
theorem value?_throughput_ne (h : c.trust.IsFinite) {ts : List (Metric × Figure)}
    (hok : g.traffic c = .ok ts) : g.value? s e c .throughput ≠ some .undefined := by
  intro hv
  unfold value? evidence? at hv
  cases ht : c.trust.traffic? with
  | none => simp [ht] at hv
  | some samples =>
    simp only [ht, Option.map_some, Option.map_eq_some_iff] at hv
    obtain ⟨t, hf, hv⟩ := hv
    have hpos : t.IsPositive := by
      by_contra hneg
      have herror : g.traffic c = .error ⟨t⟩ :=
        traffic_eq_error_iff.2 ⟨by rw [ht]; rfl, hf, hneg⟩
      rw [hok] at herror
      cases herror
    obtain ⟨hi, ho⟩ := h.traffic ht
    exact Figure.isFinite_iff_ne.1 (isFinite_score hi ho hpos) hv

/-- Where the score is given, the value of a metric is undefined just if it is the expectation of a
belief that has none. -/
theorem Attained.value?_eq_undefined_iff (h : Attained e c) {ts : List (Metric × Figure)}
    (hok : g.traffic c = .ok ts) : g.value? s e c m = some .undefined ↔ g.Hollow s e c m := by
  obtain ⟨he, hc⟩ := h.isFinite
  have hbelief {m : Metric} {d : Beta Figure} (hev : g.evidence? e c m = some (.belief d))
      (hd : d.IsFinite) : g.value? s e c m = some .undefined ↔ g.Hollow s e c m := by
    unfold value? Hollow
    rw [hev]
    simp [Pooling.expected_eq_undefined_iff _ hd]
  cases m with
  | taskSubmission => exact hbelief rfl he.record.submission
  | taskResult => exact hbelief rfl he.record.result
  | resultQuality => exact hbelief rfl hc.quality
  | throughput =>
    refine iff_of_false (value?_throughput_ne hc hok) ?_
    rintro ⟨d, hd, -⟩
    obtain ⟨samples, -, hd⟩ := Option.map_eq_some_iff.1 hd
    cases hd
  | challengeResponse =>
    cases hcr : g.challenger? e c with
    | none => simp [value?, Hollow, evidence?, hcr]
    | some cr =>
      refine hbelief (by rw [evidence?, hcr]; rfl) (he.capability cr ?_).quality
      exact mem_of_challenger? hcr

/-- A score is undefined on account of what weighs something or of a belief behind what does not. -/
theorem Attained.trust_eq_undefined_iff (h : Attained e c) {ts : List (Metric × Figure)}
    (hok : g.traffic c = .ok ts) :
    g.trust s e c = .ok .undefined ↔
      (∃ m, g.weights.weight c.name m ≠ 0 ∧ g.contribution s e c m = .undefined) ∨
        ∃ m, g.weights.weight c.name m = 0 ∧ g.Hollow s e c m := by
  have hweightless {m} (hm : g.weights.weight c.name m = 0) :
      g.contribution s e c m = .undefined ↔ g.Hollow s e c m := by
    rw [contribution_of_weightless hm, ← h.value?_eq_undefined_iff hok]
    simp [Figure.zero_def]
  rw [Engine.trust_eq_undefined_iff hok, ← exists_or]
  refine exists_congr fun m => ?_
  by_cases hm : g.weights.weight c.name m = 0 <;> simp [hm, hweightless]

namespace Replaced

variable {e' : TrustEdge Figure k} {c' : Capability (CapabilityTrust Figure k)}
  (h : g.Replaced e c e' c')
include h

theorem prior? (m : Metric) : g.prior? s e' c' m = g.prior? s e c m := by
  have hst : g.stereotypeFor? s e' = g.stereotypeFor? s e := by
    unfold stereotypeFor?
    rw [h.address]
  cases m <;> simp only [Engine.prior?, hst, h.name]

/-- What weighs something adds the same as before. -/
theorem contribution {m : Metric} (hm : g.weights.weight c.name m ≠ 0) :
    g.contribution s e' c' m = g.contribution s e c m := by
  unfold Engine.contribution value?
  rw [h.name, h.evidence m hm, h.prior?]

theorem traffic_eq_error_iff {misuse : ThresholdMisuse Figure} :
    g.traffic c' = .error misuse ↔ g.traffic c = .error misuse := by
  rw [Engine.traffic_eq_error_iff, Engine.traffic_eq_error_iff, h.name,
    CapabilityTrust.isSome_traffic?, CapabilityTrust.isSome_traffic?]

theorem exists_traffic {ts : List (Metric × Figure)} (hok : g.traffic c = .ok ts) :
    ∃ ts', g.traffic c' = .ok ts' := by
  cases hok' : g.traffic c' with
  | error misuse =>
    rw [h.traffic_eq_error_iff.1 hok'] at hok
    cases hok
  | ok ts' => exact ⟨ts', rfl⟩

/-- Where no metric without weight is undefined before or after, the score stays. -/
theorem trust_eq {ts : List (Metric × Figure)} (hok : g.traffic c = .ok ts)
    (hv : ∀ m, g.weights.weight c.name m = 0 → g.value? s e c m ≠ some .undefined)
    (hv' : ∀ m, g.weights.weight c.name m = 0 → g.value? s e' c' m ≠ some .undefined) :
    g.trust s e' c' = g.trust s e c := by
  obtain ⟨ts', hok'⟩ := h.exists_traffic hok
  rw [trust_eq_foldl hok, trust_eq_foldl hok']
  refine congrArg Except.ok (List.foldl_ext _ _ 0 fun acc m _ => congrArg (acc + ·) ?_)
  by_cases hm : g.weights.weight c.name m = 0
  · rw [contribution_of_weightless hm, contribution_of_weightless (h.name ▸ hm), if_neg (hv m hm),
      if_neg (hv' m hm)]
  · exact h.contribution hm

end Replaced

/-- **Records that weigh nothing.** Take an edge and a capability, and the same with other records
behind metrics to which the application gives no weight, all of them records that lifetimes lead to.
The scores are the same just if they are refused, or undefined on account of what does weigh, or
either both have a belief without an expectation among what weighs nothing or none of them has. -/
theorem trust_eq_iff_of_replaced {e' : TrustEdge Figure k}
    {c' : Capability (CapabilityTrust Figure k)} (ha : Attained e c) (ha' : Attained e' c')
    (h : g.Replaced e c e' c') :
    g.trust s e' c' = g.trust s e c ↔
      (∃ misuse, g.trust s e c = .error misuse) ∨
      (∃ m, g.weights.weight c.name m ≠ 0 ∧ g.contribution s e c m = .undefined) ∨
      ((∃ m, g.weights.weight c.name m = 0 ∧ g.Hollow s e' c' m) ↔
        ∃ m, g.weights.weight c.name m = 0 ∧ g.Hollow s e c m) := by
  cases hok : g.traffic c with
  | error misuse =>
    have hok' := h.traffic_eq_error_iff.2 hok
    rw [← trust_eq_error_iff (s := s)] at hok hok'
    exact iff_of_true (hok'.trans hok.symm) (.inl ⟨misuse, hok⟩)
  | ok ts =>
    obtain ⟨ts', hok'⟩ := h.exists_traffic hok
    have hundefined := ha.trust_eq_undefined_iff (s := s) hok
    have hundefined' := ha'.trust_eq_undefined_iff (s := s) hok'
    have hweighed (m) : g.weights.weight c.name m ≠ 0 ∧ g.contribution s e' c' m = .undefined ↔
        g.weights.weight c.name m ≠ 0 ∧ g.contribution s e c m = .undefined :=
      and_congr_right fun hm => by rw [h.contribution hm]
    rw [h.name, exists_congr hweighed] at hundefined'
    constructor
    · intro heq
      by_cases hw : ∃ m, g.weights.weight c.name m ≠ 0 ∧ g.contribution s e c m = .undefined
      · exact .inr (.inl hw)
      · rw [heq, hundefined, or_iff_right hw, or_iff_right hw] at hundefined'
        exact .inr (.inr hundefined'.symm)
    · rintro (⟨misuse, herror⟩ | hw | hsame)
      · rw [trust_eq_error_iff, hok] at herror
        cases herror
      · exact (hundefined'.2 (.inl hw)).trans (hundefined.2 (.inl hw)).symm
      · by_cases hh : ∃ m, g.weights.weight c.name m = 0 ∧ g.Hollow s e c m
        · exact (hundefined'.2 (.inr (hsame.2 hh))).trans (hundefined.2 (.inr hh)).symm
        · refine h.trust_eq hok (fun m hm hv => ?_) fun m hm hv => ?_
          · exact hh ⟨m, hm, (ha.value?_eq_undefined_iff hok).1 hv⟩
          · exact hh (hsame.1 ⟨m, hm, (ha'.value?_eq_undefined_iff hok').1 hv⟩)

end

/-- An engine under which monitoring looks at submissions and at nothing else. -/
def watchful : Engine Figure := .new (Weights.empty.set "monitoring" .taskSubmission 1)

theorem weight_watchful (m : Metric) :
    watchful.weights.weight "monitoring" m = if m = .taskSubmission then 1 else 0 := by
  show (Weights.empty.set "monitoring" .taskSubmission (1 : Figure)).weight "monitoring" m = _
  rw [Weights.weight_set]
  simp only [true_and]
  rfl

/-- A store without certificates. -/
def vacant : Store := .empty 1 ⟨Vector.replicate 16 0⟩ ⟨Vector.replicate 64 0⟩

/-- What an edge does of which nothing is known. -/
def monitor : Capability (CapabilityTrust Figure .baseline) := ⟨"monitoring", .fresh⟩

/-- An edge of which nothing is known, and which does nothing yet. -/
def unwatched : TrustEdge Figure .baseline := ⟨⟨0⟩, ⟨Vector.replicate 16 0⟩, "", [], .fresh⟩

/-- The edge once it has announced what it does. -/
def watched : TrustEdge Figure .baseline := unwatched.apply (.announce "monitoring")

/-- A record of as many submissions as before, and of no results, not even the two that every record
starts from. -/
def resultless : Update Figure := .restore (.arr [.arr [.int 1, .int 1], .arr [.int 0, .int 0]])

theorem contribution_watchful (e : TrustEdge Figure .baseline) (m : Metric) :
    watchful.contribution vacant e monitor m =
      match m with
      | .taskSubmission => 1 * e.trust.submission.expected
      | .taskResult => 0 * e.trust.result.expected
      | .resultQuality => 0 * Beta.uniform.expected
      | .throughput | .challengeResponse => 0 := by
  unfold contribution
  rw [show monitor.name = "monitoring" from rfl, weight_watchful]
  cases m <;> rfl

/-- Results without weight, of which a restored record has none, change the score. -/
theorem trust_after_resultless :
    watchful.trust vacant watched monitor = .ok (.exact (1 / 2)) ∧
    watchful.trust vacant (watched.apply resultless) monitor ≠
      watchful.trust vacant watched monitor := by
  have huniform : (Beta.uniform : Beta Figure).expected = .exact (1 / 2) := by
    simp only [Beta.expected, Beta.uniform, Figure.one_def, Figure.exact_add_exact,
      Figure.exact_div_exact, Figure.quotient]
    norm_num
  have hcontribution (m : Metric) : watchful.contribution vacant watched monitor m =
      if m = .taskSubmission then .exact (1 / 2) else 0 := by
    rw [contribution_watchful, show watched.trust = .fresh from rfl, EdgeTrust.fresh, huniform]
    cases m <;> simp [Figure.one_def, Figure.zero_def]
  have hscore : watchful.trust vacant watched monitor = .ok (.exact (1 / 2)) := by
    rw [trust_eq_foldl rfl]
    simp [hcontribution, Metric.all, Figure.zero_def]
  have hreach : Edge.lifetime.Reachable watched :=
    ⟨unwatched, [.announce "monitoring"], ⟨rfl, rfl⟩, rfl⟩
  have hreach' : Edge.lifetime.Reachable (watched.apply resultless) :=
    hreach.run (show Edge.lifetime.run watched [resultless] = _ from rfl)
  have hmonitor : ∃ e, Edge.lifetime.Reachable e ∧ monitor ∈ e.capabilities :=
    ⟨watched, hreach, List.mem_singleton.2 rfl⟩
  have hreplaced : watchful.Replaced watched monitor (watched.apply resultless) monitor := by
    refine ⟨rfl, rfl, fun m hm => ?_⟩
    rw [show monitor.name = "monitoring" from rfl, weight_watchful] at hm
    cases m with
    | taskSubmission => rfl
    | _ => exact absurd rfl hm
  refine ⟨hscore, fun heq => ?_⟩
  rcases (trust_eq_iff_of_replaced ⟨hreach, hmonitor⟩ ⟨hreach', hmonitor⟩ hreplaced).1 heq with
    ⟨misuse, herror⟩ | ⟨m, -, hm⟩ | hsame
  · rw [hscore] at herror
    cases herror
  · rw [hcontribution] at hm
    split at hm <;> cases hm
  · have hempty : watchful.Hollow vacant (watched.apply resultless) monitor .taskResult :=
      ⟨⟨0, 0⟩, rfl, Figure.add_zero 0⟩
    have hundefined := (Attained.trust_eq_undefined_iff ⟨hreach, hmonitor⟩ rfl).2
      (.inr (hsame.1 ⟨.taskResult, rfl, hempty⟩))
    rw [hscore] at hundefined
    cases hundefined

end Engine
end Vouch
