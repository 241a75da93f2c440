import Mathlib.Data.List.Forall2
import Vouch.Trust.Metric
/-!
# What metrics weigh

A configuration lists tables of weights. An application may be named by several tables, and a table may hold
names that no metric has. Reading the tables one after the other and setting weights afterwards comes to one
sequence of wishes, and a metric weighs for an application what the last wish about the two asks for. So
tables of one application complement each other, metric by metric, instead of replacing each other.

* `ofConfig_eq`: a configuration as a sequence of wishes, with a notice for each name that is passed over.
* `weight_foldl_grant`, `mem_applications_foldl_grant`: what a sequence of wishes leaves behind.
* `filterMap_wishes`: what a table asks for.
* `weight_of_wishes`: all of this together.
-/
namespace Vouch

/-! ## Wishes -/

variable {α : Type}

/-- What one metric should weigh for one application. -/
structure Wish (α : Type) where
  application : String
  metric : Metric
  weight : α

/-- What a wish asks for, if it is about an application and a metric. -/
def Wish.about? (a : String) (m : Metric) (x : Wish α) : Option α :=
  if x.application = a ∧ x.metric = m then some x.weight else none

/-- The wish of one item in a table, unless no metric has its name. -/
def Wish.ofItem? (application : String) (e : String × α) : Option (Wish α) :=
  (Metric.ofName? e.1).map fun m => ⟨application, m, e.2⟩

theorem Wish.bind_about?_ofItem? (application a : String) (m : Metric) (e : String × α) :
    (ofItem? application e).bind (about? a m) =
      if application = a then (if m.name = e.1 then some e.2 else none) else none := by
  simp only [ofItem?, ← Metric.ofName?_eq_some_iff]
  cases Metric.ofName? e.1 with
  | none => simp
  | some k => simp [about?, ite_and]

namespace ApplicationWeights

variable (app : ApplicationWeights α)

/-- What a table asks for, in the order of the names. -/
def wishes : List (Wish α) := app.weights.toList.filterMap (Wish.ofItem? app.application)

/-- What is said of the names in a table that no metric has. -/
def ignored : List Notice :=
  (app.weights.names.filter fun name => (Metric.ofName? name).isNone).map fun name =>
    .weightIgnored app.application (Metric.unknown name)

/-- What a table says of a metric, if it is about an application. -/
def about? (a : String) (m : Metric) : Option α :=
  if app.application = a then app.weights.find? m.name else none

variable {app}

/-- **What a table asks for** of a metric is what it lists under the name of that metric. -/
theorem filterMap_wishes (app : ApplicationWeights α) (a : String) (m : Metric) :
    app.wishes.filterMap (Wish.about? a m) = (app.about? a m).toList := by
  rw [wishes, List.filterMap_filterMap]
  simp only [Wish.bind_about?_ofItem?]
  unfold about?
  split
  · exact Entries.filterMap_of_sorted app.weights.sorted m.name
  · simp

theorem mem_wishes_iff {x : Wish α} :
    x ∈ app.wishes ↔
      x.application = app.application ∧ app.weights.find? x.metric.name = some x.weight := by
  rw [wishes, List.mem_filterMap, Table.find?_eq_some_iff]
  constructor
  · rintro ⟨e, he, hx⟩
    obtain ⟨m, hm, rfl⟩ := Option.map_eq_some_iff.1 hx
    refine ⟨rfl, ?_⟩
    rwa [Metric.ofName?_eq_some_iff.1 hm]
  · rintro ⟨happ, hw⟩
    refine ⟨_, hw, ?_⟩
    rw [Wish.ofItem?, Metric.ofName?_eq_some_iff.2 rfl, ← happ]
    rfl

end ApplicationWeights

namespace Weights

variable [Scalar α] {w : Weights α} {l : List (Wish α)} {a : String} {m : Metric}

def grant (w : Weights α) (x : Wish α) : Weights α := w.set x.application x.metric x.weight

theorem weight_grant (w : Weights α) (x : Wish α) (a : String) (m : Metric) :
    (w.grant x).weight a m = (x.about? a m).getD (w.weight a m) := by
  rw [grant, weight_set, Wish.about?]
  simp only [eq_comm (a := a), eq_comm (a := m)]
  split <;> rfl

/-- **The last wish counts.** -/
theorem weight_foldl_grant (l : List (Wish α)) (w : Weights α) (a : String) (m : Metric) :
    (l.foldl grant w).weight a m = (l.filterMap (Wish.about? a m)).getLast?.getD (w.weight a m) := by
  induction l generalizing w with
  | nil => rfl
  | cons x l ih =>
    rw [List.foldl_cons, ih, weight_grant, List.filterMap_cons]
    cases Wish.about? a m x with
    | none => rfl
    | some weight =>
      rw [List.getLast?_cons]
      rfl

omit [Scalar α] in
theorem mem_applications_iff : a ∈ w.applications ↔ (w.tables.find? a).isSome :=
  w.tables.mem_names_iff

theorem mem_applications_grant (w : Weights α) (x : Wish α) :
    a ∈ (w.grant x).applications ↔ x.application = a ∨ a ∈ w.applications := by
  rw [mem_applications_iff, mem_applications_iff, grant, set, Table.find?_insert]
  by_cases h : a = x.application
  · simp [h]
  · simp [h, Ne.symm h]

/-- An application weighs something once anything was asked for. -/
theorem mem_applications_foldl_grant (l : List (Wish α)) (w : Weights α) :
    a ∈ (l.foldl grant w).applications ↔ (∃ x ∈ l, x.application = a) ∨ a ∈ w.applications := by
  induction l generalizing w with
  | nil => simp
  | cons x l ih => simp [ih, mem_applications_grant, or_assoc, or_left_comm]

/-! ## Configurations -/

theorem take_eq (application : String) (w : Weights α × List Notice) (e : String × α) :
    take application w e = match Wish.ofItem? application e with
      | some x => (w.1.grant x, w.2)
      | none => (w.1, w.2 ++ [.weightIgnored application (Metric.unknown e.1)]) := by
  unfold take Wish.ofItem?
  cases Metric.ofName? e.1 <;> rfl

/-- **One table**, entry by entry. -/
theorem foldl_take (app : ApplicationWeights α) (w : Weights α × List Notice) :
    app.weights.toList.foldl (take app.application) w =
      (app.wishes.foldl grant w.1, w.2 ++ app.ignored) := by
  simp only [ApplicationWeights.wishes, ApplicationWeights.ignored, Table.names]
  generalize app.weights.toList = l
  induction l generalizing w with
  | nil => simp
  | cons e l ih =>
    rw [List.foldl_cons, ih, take_eq, Wish.ofItem?]
    cases h : Metric.ofName? e.1 <;> simp [h, Wish.ofItem?]

/-- **A configuration** is the sequence of what its tables ask for. -/
theorem ofConfig_eq (apps : List (ApplicationWeights α)) :
    ofConfig apps = ((apps.flatMap ApplicationWeights.wishes).foldl grant empty,
      apps.flatMap ApplicationWeights.ignored) := by
  have hfold (w : Weights α × List Notice) :
      apps.foldl (fun w app => app.weights.toList.foldl (take app.application) w) w =
        ((apps.flatMap ApplicationWeights.wishes).foldl grant w.1,
          w.2 ++ apps.flatMap ApplicationWeights.ignored) := by
    induction apps generalizing w with
    | nil => simp
    | cons app apps ih =>
      rw [List.foldl_cons, ih, foldl_take, List.flatMap_cons, List.flatMap_cons, List.foldl_append,
        List.append_assoc]
  exact hfold (empty, [])

theorem weight_ofConfig (apps : List (ApplicationWeights α)) (a : String) (m : Metric) :
    (ofConfig apps).1.weight a m =
      (apps.filterMap fun app => app.about? a m).getLast?.getD 0 := by
  have htables : (apps.flatMap ApplicationWeights.wishes).filterMap (Wish.about? a m) =
      apps.filterMap fun app => app.about? a m := by
    rw [List.filterMap_flatMap, List.filterMap_eq_flatMap_toList]
    simp only [ApplicationWeights.filterMap_wishes]
  rw [ofConfig_eq, weight_foldl_grant, htables]
  rfl

theorem mem_applications_ofConfig (apps : List (ApplicationWeights α)) :
    a ∈ (ofConfig apps).1.applications ↔
      ∃ app ∈ apps, app.application = a ∧ ∃ m : Metric, (app.weights.find? m.name).isSome := by
  rw [ofConfig_eq, mem_applications_foldl_grant]
  constructor
  · rintro (⟨x, hx, rfl⟩ | h)
    · obtain ⟨app, happ, hx⟩ := List.mem_flatMap.1 hx
      obtain ⟨ha, hw⟩ := ApplicationWeights.mem_wishes_iff.1 hx
      exact ⟨app, happ, ha.symm, x.metric, Option.isSome_of_eq_some hw⟩
    · cases h
  · rintro ⟨app, happ, rfl, m, hm⟩
    obtain ⟨weight, hw⟩ := Option.isSome_iff_exists.1 hm
    refine .inl ⟨⟨app.application, m, weight⟩, List.mem_flatMap.2 ⟨app, happ, ?_⟩, rfl⟩
    exact ApplicationWeights.mem_wishes_iff.2 ⟨rfl, hw⟩

/-- Two configurations say the same of an application: its tables, one by one, agree on every name that a
metric has. What they say under other names, and of other applications, is not compared. -/
def SameFor (a : String) (apps apps' : List (ApplicationWeights α)) : Prop :=
  List.Forall₂ (fun app app' => ∀ m : Metric, app.weights.find? m.name = app'.weights.find? m.name)
    (apps.filter fun app => app.application = a) (apps'.filter fun app => app.application = a)

omit [Scalar α] in
theorem filterMap_about? (apps : List (ApplicationWeights α)) (a : String) (m : Metric) :
    (apps.filterMap fun app => app.about? a m) =
      (apps.filter fun app => app.application = a).filterMap fun app => app.weights.find? m.name := by
  rw [List.filterMap_filter]
  simp only [ApplicationWeights.about?, decide_eq_true_eq]

omit [Scalar α] in
theorem SameFor.filterMap_eq {apps apps' : List (ApplicationWeights α)} (h : SameFor a apps apps')
    (m : Metric) :
    (apps.filterMap fun app => app.about? a m) = apps'.filterMap fun app => app.about? a m := by
  rw [filterMap_about?, filterMap_about?]
  unfold SameFor at h
  generalize apps.filter (fun app => app.application = a) = l at h ⊢
  generalize apps'.filter (fun app => app.application = a) = l' at h ⊢
  induction h with
  | nil => rfl
  | cons hsame _ ih => rw [List.filterMap_cons, List.filterMap_cons, hsame m, ih]

/-- **What a metric weighs.** After a configuration and any weights set one by one, a metric weighs for an
application what was set last for the two, failing that what the last table of the application lists that
has the name of the metric, and failing that nothing. Names that no metric has and tables of other
applications have no part in it. The applications that weigh something are those for which a weight was set
or a table lists one under the name of a metric, each once. -/
theorem weight_of_wishes (apps : List (ApplicationWeights α)) (wishes : List (Wish α)) (a : String) :
    (∀ m, (wishes.foldl grant (ofConfig apps).1).weight a m =
      ((wishes.filterMap fun x => x.about? a m).getLast?.or
        (apps.filterMap fun app => app.about? a m).getLast?).getD 0) ∧
    (∀ apps', SameFor a apps apps' → ∀ m,
      (wishes.foldl grant (ofConfig apps').1).weight a m =
        (wishes.foldl grant (ofConfig apps).1).weight a m) ∧
    (a ∈ (wishes.foldl grant (ofConfig apps).1).applications ↔
      (∃ x ∈ wishes, x.application = a) ∨
        ∃ app ∈ apps, app.application = a ∧ ∃ m : Metric, (app.weights.find? m.name).isSome) ∧
    (wishes.foldl grant (ofConfig apps).1).applications.Nodup := by
  refine ⟨fun m => ?_, fun apps' h m => ?_, ?_, Table.nodup_names _⟩
  · rw [weight_foldl_grant, weight_ofConfig, Option.getD_or]
  · rw [weight_foldl_grant, weight_foldl_grant, weight_ofConfig, weight_ofConfig, h.filterMap_eq]
  · rw [mem_applications_foldl_grant, mem_applications_ofConfig]

/-- Two tables for routing, one of which holds a name that no metric has, and one for something else. -/
def layered : List (ApplicationWeights Rat) :=
  [⟨"routing", .ofList [("task_result", 1 / 2), ("throughput", 1 / 4), ("latency", 9)]⟩,
    ⟨"monitoring", .ofList [("task_result", 1)]⟩, ⟨"routing", .ofList [("task_result", 1 / 3)]⟩]

/-- The same for routing, and nothing else. -/
def bare : List (ApplicationWeights Rat) :=
  [⟨"routing", .ofList [("task_result", 1 / 2), ("throughput", 1 / 4)]⟩,
    ⟨"routing", .ofList [("task_result", 1 / 3)]⟩]

/-- The later table takes one metric over and leaves the other, and what was set counts before both. -/
theorem weight_of_layered :
    (ofConfig layered).1.weight "routing" .taskResult = 1 / 3 ∧
    (ofConfig layered).1.weight "routing" .throughput = 1 / 4 ∧
    ([⟨"routing", .throughput, 2⟩].foldl grant (ofConfig layered).1).weight "routing" .throughput = 2 ∧
    SameFor "routing" bare layered ∧
    ([⟨"routing", .throughput, 2⟩].foldl grant (ofConfig layered).1).weight "routing" .taskResult =
      ([⟨"routing", .throughput, 2⟩].foldl grant (ofConfig bare).1).weight "routing" .taskResult := by
  have hsame : SameFor "routing" bare layered := by
    refine .cons (fun m => ?_) (.cons (fun m => rfl) .nil)
    cases m <;> rfl
  have hread := (weight_of_wishes layered [] "routing").1
  have hset := (weight_of_wishes layered [⟨"routing", .throughput, 2⟩] "routing").1
  have hbare := (weight_of_wishes bare [⟨"routing", .throughput, 2⟩] "routing").2.1
  exact ⟨hread .taskResult, hread .throughput, hset .throughput, hsame, hbare layered hsame .taskResult⟩

end Weights
end Vouch
