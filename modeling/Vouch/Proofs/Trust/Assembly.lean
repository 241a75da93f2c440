import Vouch.Proofs.System
import Vouch.Proofs.Trust.Weights
import Vouch.Trust.Engine
/-!
# How an engine is put together

An engine starts from weights or from a configuration, and is set up further one setting at a time. A
threshold is only taken if something can be held against it, whichever way it comes, so a score is never
refused for one. Of the thresholds in a configuration the last one of a capability counts, among those that
are taken.

* `find?_ofConfig`, `thresholdsIgnored_mem_iff`: the thresholds of a configuration, and what is said of them.
* `Guarded.set`: one setting.
* `guarded_of_reachable`: any number of them.
* `Guarded.exists_traffic`: there is always something to hold the traffic against, or nothing to hold.
-/
namespace Vouch

variable {α : Type} [Scalar α] {k : ModelKind}

/-- Something to set about an engine. -/
inductive Setting (α : Type) where
  | threshold (capability : String) (t : Threshold α)
  | pooling (p : Pooling)
  | challenge (capability : String)
  | insertStereotype (s : Stereotype α)
  | eraseStereotype (tags : Tags)

namespace Engine

/-- What a setting leaves of an engine, also when it is refused. -/
def set (g : Engine α) : Setting α → Engine α
  | .threshold capability t => (g.setThreshold capability t).2
  | .pooling p => { g with pooling := p }
  | .challenge capability => { g with challenge := some capability }
  | .insertStereotype s => { g with stereotypes := g.stereotypes.insert s }
  | .eraseStereotype tags => { g with stereotypes := g.stereotypes.erase tags }

/-- The engines that can be put together for statistics of a model. -/
def assembly (k : ModelKind) : System (Engine α) (Setting α) where
  initial g := (∃ weights, g = new weights) ∨ ∃ config, g = (ofConfig k config).1
  step g a := some (g.set a)

/-- The threshold that settings give last for a capability. -/
def lastThreshold? (l : List (ThresholdSetting α)) (name : String) : Option (Threshold α) :=
  (l.reverse.find? fun t => t.capability = name).map ThresholdSetting.threshold

omit [Scalar α] in
theorem lastThreshold?_cons (t : ThresholdSetting α) (l : List (ThresholdSetting α)) (name : String) :
    lastThreshold? (t :: l) name =
      (lastThreshold? l name).or (if name = t.capability then some t.threshold else none) := by
  unfold lastThreshold?
  rw [List.reverse_cons, List.find?_append, Option.map_or]
  by_cases h : name = t.capability
  · simp [h]
  · simp [h, Ne.symm h]

theorem setThreshold_of_isPositive {t : Threshold α} (h : t.IsPositive) (g : Engine α) (name : String) :
    g.setThreshold name t = (.ok (), { g with thresholds := g.thresholds.insert name t }) := by
  rw [setThreshold, if_pos h]

theorem setThreshold_of_not_isPositive {t : Threshold α} (h : ¬ t.IsPositive) (g : Engine α)
    (name : String) : g.setThreshold name t = (.error ⟨name, t⟩, g) := by
  rw [setThreshold, if_neg h]

/-- Settings that are taken go into the table, a later one in place of an earlier one. -/
theorem find?_takeThresholds (l : List (ThresholdSetting α)) (g : Engine α × List Notice)
    (name : String) :
    (l.foldl takeThreshold g).1.thresholds.find? name =
      (lastThreshold? (l.filter fun t => t.threshold.IsPositive) name).or
        (g.1.thresholds.find? name) := by
  induction l generalizing g with
  | nil => rfl
  | cons t l ih =>
    rw [List.foldl_cons, ih]
    by_cases h : t.threshold.IsPositive
    · rw [List.filter_cons_of_pos (by simpa using h), lastThreshold?_cons, Option.or_assoc]
      simp only [takeThreshold, setThreshold_of_isPositive h, Table.find?_insert]
      by_cases hn : name = t.capability <;> simp [hn]
    · rw [List.filter_cons_of_neg (by simpa using h)]
      simp only [takeThreshold, setThreshold_of_not_isPositive h]

/-- There is a notice for each setting that is passed over. -/
theorem notices_takeThresholds (l : List (ThresholdSetting α)) (g : Engine α × List Notice) :
    (l.foldl takeThreshold g).2 =
      g.2 ++ (l.filter fun t => ¬ t.threshold.IsPositive).map fun _ => .thresholdsIgnored := by
  induction l generalizing g with
  | nil => simp
  | cons t l ih =>
    rw [List.foldl_cons, ih]
    by_cases h : t.threshold.IsPositive
    · rw [List.filter_cons_of_neg (by simpa using h)]
      simp only [takeThreshold, setThreshold_of_isPositive h]
    · rw [List.filter_cons_of_pos (by simpa using h)]
      simp [takeThreshold, setThreshold_of_not_isPositive h]

/-- **The thresholds of a configuration.** -/
theorem find?_ofConfig (k : ModelKind) (config : TrustConfig α) (name : String) :
    (ofConfig k config).1.thresholds.find? name =
      lastThreshold? (config.thresholds.filter fun t => t.threshold.IsPositive) name := by
  have hnone : (new (Weights.ofConfig config.applications).1).thresholds.find? name = none := rfl
  unfold ofConfig
  rw [find?_takeThresholds]
  exact (congrArg _ hnone).trans (Option.or_none)

/-- Weights give rise to notices of their own only. -/
theorem notMem_weights (apps : List (ApplicationWeights α)) :
    .thresholdsIgnored ∉ (Weights.ofConfig apps).2 := by
  simp [Weights.ofConfig_eq, ApplicationWeights.ignored]

/-- A threshold of a configuration is passed over just if it is not positive, and that is said. -/
theorem thresholdsIgnored_mem_iff (k : ModelKind) (config : TrustConfig α) :
    .thresholdsIgnored ∈ (ofConfig k config).2 ↔
      ∃ t ∈ config.thresholds, ¬ t.threshold.IsPositive := by
  unfold ofConfig
  rw [notices_takeThresholds]
  simp [notMem_weights]

/-- Every threshold can be held against something. -/
def Guarded (g : Engine α) : Prop :=
  ∀ name t, g.thresholds.find? name = some t → t.IsPositive

variable {g : Engine α}

theorem guarded_new (weights : Weights α) : (new weights).Guarded := fun _ _ h => by cases h

theorem Guarded.setThreshold (h : g.Guarded) (name : String) (t : Threshold α) :
    (g.setThreshold name t).2.Guarded := by
  unfold Engine.setThreshold
  split
  · rename_i ht
    intro other t' hf
    rw [Table.find?_insert] at hf
    split at hf
    · cases hf
      exact ht
    · exact h other t' hf
  · exact h

/-- A threshold of a configuration is taken, or passed over with a notice. -/
theorem Guarded.takeThreshold {g : Engine α × List Notice} (h : g.1.Guarded) (t : ThresholdSetting α) :
    (Engine.takeThreshold g t).1.Guarded := by
  have ht := h.setThreshold t.capability t.threshold
  unfold Engine.takeThreshold
  split
  · rename_i hset
    rwa [hset] at ht
  · rename_i hset
    rwa [hset] at ht

/-- A configuration cannot set a threshold that a score is refused against. -/
theorem guarded_ofConfig (k : ModelKind) (config : TrustConfig α) : (ofConfig k config).1.Guarded := by
  have hfresh (weights : Weights α) :
      ({ new weights with challenge := config.challenge } : Engine α).Guarded := guarded_new weights
  unfold ofConfig
  refine List.foldlRecOn (motive := fun g : Engine α × List Notice => g.1.Guarded) _ _ (hfresh _) ?_
  intro g h t _
  exact h.takeThreshold t

/-- **One setting.** -/
theorem Guarded.set (h : g.Guarded) (a : Setting α) : (g.set a).Guarded := by
  cases a with
  | threshold capability t => exact h.setThreshold capability t
  | pooling | challenge | insertStereotype | eraseStereotype => exact h

/-- **Any engine** that can be put together. -/
theorem guarded_of_reachable (h : (assembly k).Reachable g) : g.Guarded := by
  refine h.invariant ?_ ?_
  · rintro g (⟨weights, rfl⟩ | ⟨config, rfl⟩)
    · exact guarded_new weights
    · exact guarded_ofConfig k config
  · intro g a g' hg hstep
    obtain rfl := Option.some.inj hstep
    exact hg.set a

theorem Guarded.exists_traffic (h : g.Guarded) (c : Capability (CapabilityTrust α k)) :
    ∃ ts, g.traffic c = .ok ts := by
  unfold traffic
  split
  · rename_i inbound outbound t _ hf
    rw [goodness, if_pos (h _ t hf)]
    exact ⟨_, rfl⟩
  · exact ⟨_, rfl⟩

end Engine
end Vouch
