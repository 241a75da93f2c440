import Vouch.Proofs.Trust.Locality
import Vouch.Proofs.Trust.Statistics
/-!
# What the reports about edges come to

A node reports what it saw of its edges, one call after the other. Whatever the calls were and whatever
edges they were about, each belief ends as a count: one and the number of good outcomes that were
credited to it, one and the number of bad ones. Traffic ends as the statistics of all samples. A call
that is refused, or answered with no, has left everything as it was.

Counts and statistics do not depend on an order, so neither do the records, nor any score.

* `Report.credit`: which outcome counts for which belief, as a table.
* `Edge.tallied_concat`: one more report.
* `Registry.hear_eq`: any number of reports about any edges.
* `Registry.evidence_counts`: this, what is refused, and any order.
-/
namespace Vouch

variable {k : ModelKind}

/-! ## Reports -/

/-- What a node can report of an edge. -/
inductive Report (α : Type) where
  | outcome (x : Experience)
  | traffic (capability : String) (d : Direction) (x : α)

namespace Report

section
variable {α : Type}

/-- The update that a report asks for. -/
def update (challenge : Option String) : Report α → Update α
  | .outcome x => .learn challenge x
  | .traffic name d x => .traffic name d x

/-- The belief that an outcome is credited to, and whether as a good one. Of responses the class
decides, a challenge counts for the capability that stands for challenges, and of some outcomes nothing
can be said. -/
def credit (challenge : Option String) : Report α → Option (Part × Bool)
  | .outcome (.submission (.response code)) =>
    if code.cls = 2 then some (.submission, true)
    else if code.cls = 5 then some (.submission, false)
    else none
  | .outcome (.submission .timeout) => some (.submission, false)
  | .outcome (.submission .sendFailed) => none
  | .outcome (.result .delivered) => some (.result, true)
  | .outcome (.result .missing) => some (.result, false)
  | .outcome (.quality name good) => some (.capability name, good)
  | .outcome (.challenge .correct) => challenge.map fun name => (.capability name, true)
  | .outcome (.challenge .incorrect) => challenge.map fun name => (.capability name, false)
  | .outcome (.challenge .timedOut) => challenge.map fun name => (.capability name, false)
  | .outcome (.challenge .localFailure) => none
  | .traffic _ _ _ => none

/-- The sample that a report has of the traffic of a capability in a direction. -/
def sample? (name : String) (d : Direction) : Report α → Option α
  | .outcome _ => none
  | .traffic name' d' x => if name' = name ∧ d' = d then some x else none

/-- All samples of the traffic of a capability in a direction. -/
def samples (name : String) (d : Direction) (xs : List (Report α)) : List α :=
  xs.filterMap (sample? name d)

/-- The reports about the edge at a place, out of those about all edges. -/
def about (i : Nat) (calls : List (Nat × Report α)) : List (Report α) :=
  calls.filterMap fun call => if call.1 = i then some call.2 else none

theorem about_cons (i : Nat) (call : Nat × Report α) (calls : List (Nat × Report α)) :
    about i (call :: calls) = if call.1 = i then call.2 :: about i calls else about i calls := by
  rw [about, List.filterMap_cons]
  split <;> simp_all [about]

end

/-- How often an outcome was credited to a belief. -/
def count (challenge : Option String) (xs : List (Report Rat)) (p : Part) (good : Bool) : Nat :=
  xs.countP fun x => x.credit challenge = some (p, good)

/-- The belief in which one good and one bad outcome were counted, and all that were credited. -/
def tally (challenge : Option String) (xs : List (Report Rat)) (p : Part) : Beta Rat :=
  ⟨1 + count challenge xs p true, 1 + count challenge xs p false⟩

variable {challenge : Option String} {xs ys : List (Report Rat)} {x : Report Rat}

theorem tally_nil (p : Part) : tally challenge [] p = .uniform := by
  simp [tally, count, Beta.uniform]

/-- **One more report** counts once, in the belief that it is credited to. -/
theorem tally_concat (p : Part) : tally challenge (xs ++ [x]) p =
    match x.credit challenge with
    | some (q, good) =>
      if q = p then (tally challenge xs p).record good else tally challenge xs p
    | none => tally challenge xs p := by
  simp only [tally, count, List.countP_append, List.countP_singleton]
  cases x.credit challenge with
  | none => simp
  | some credit =>
    obtain ⟨q, good⟩ := credit
    by_cases hq : q = p
    · cases good <;> simp [hq, Beta.record, add_assoc]
    · simp [hq]

theorem samples_concat (name : String) (d : Direction) :
    samples name d (xs ++ [x]) = samples name d xs ++ (x.sample? name d).toList := by
  rw [samples, List.filterMap_append]
  cases h : x.sample? name d <;> simp [samples, h]

theorem tally_perm (h : xs.Perm ys) (p : Part) : tally challenge xs p = tally challenge ys p := by
  rw [tally, tally, count, count, count, count, h.countP_eq, h.countP_eq]

end Report

/-! ## Answers -/

namespace Edge

section
variable {α : Type} [Scalar α]

/-- What a report is answered with, and what it leaves of the edge. An answer of no says that nothing was
noted; what became of a task's result is always noted. -/
def report (challenge : Option String) (x : Report α) (e : TrustEdge α k) :
    Except UpdateError Bool × TrustEdge α k :=
  match x with
  | .outcome (.submission o) => (.ok (e.recordSubmission o).1, (e.recordSubmission o).2)
  | .outcome (.result o) => (.ok true, e.recordResult o)
  | .outcome (.quality name good) =>
    ((e.recordQuality name good).1.map fun _ => true, (e.recordQuality name good).2)
  | .outcome (.challenge o) => e.recordChallenge challenge o
  | .traffic name d x => e.recordTraffic name d x

theorem report_snd (challenge : Option String) (x : Report α) (e : TrustEdge α k) :
    (e.report challenge x).2 = e.apply (x.update challenge) := by
  cases x with
  | outcome x => cases x <;> rfl
  | traffic name d x => rfl

omit [Scalar α] in
theorem modifyCapability_id (name : String) {f : CapabilityTrust α k → CapabilityTrust α k}
    (hf : ∀ t, f t = t) (cs : List (Capability (CapabilityTrust α k))) :
    modifyCapability name f cs = cs := by
  induction cs with
  | nil => rfl
  | cons c cs ih =>
    unfold modifyCapability
    split
    · rw [hf]
    · rw [ih]

omit [Scalar α] in
/-- A change with one answer is made, unless it is refused. -/
theorem withCapability_eq_self {β : Type} {name : String}
    {f : CapabilityTrust α k → β × CapabilityTrust α k} {e : TrustEdge α k} {b : β}
    (hf : ∀ t, (f t).1 = b) (h : (e.withCapability name f).1 ≠ .ok b) :
    (e.withCapability name f).2 = e := by
  unfold withCapability at h ⊢
  cases hc : e.capability? name with
  | none => rfl
  | some c => exact absurd (by simp only [hc, hf]) h

/-- **What is not noted changes nothing.** -/
theorem report_eq_self {challenge : Option String} {x : Report α} {e : TrustEdge α k}
    (h : (e.report challenge x).1 ≠ .ok true) : (e.report challenge x).2 = e := by
  cases x with
  | outcome x =>
    cases x with
    | submission o =>
      simp only [report, recordSubmission] at h ⊢
      cases ho : o.evidence with
      | none => rfl
      | some good => exact absurd (by rw [ho]) h
    | result o => exact absurd rfl h
    | quality name good =>
      have hq : (e.recordQuality name good).1 ≠ .ok () := fun hb => h (by rw [report, hb]; rfl)
      show (e.recordQuality name good).2 = e
      exact withCapability_eq_self (fun _ => rfl) hq
    | challenge o =>
      simp only [report, recordChallenge] at h ⊢
      cases ho : o.evidence with
      | none => rfl
      | some good =>
        rw [ho] at h
        cases challenge with
        | none => rfl
        | some name => exact withCapability_eq_self (fun _ => rfl) h
  | traffic name d x =>
    simp only [report, recordTraffic] at h ⊢
    cases k with
    | baseline => rw [withCapability_snd, modifyCapability_id name fun t => by cases t; rfl]
    | throughput => exact withCapability_eq_self (fun t => by cases t; cases d <;> rfl) h

end

end Edge

/-! ## What records come to -/

namespace CapabilityTrust

section
variable {α : Type}

/-- The record of a capability with some belief and, where the model keeps them, some statistics. -/
def ofStatistics (q : Beta α) (inbound outbound : Gaussian α) :
    {k : ModelKind} → CapabilityTrust α k
  | .baseline => .baseline q
  | .throughput => .throughput q inbound outbound

variable [Scalar α] {q : Beta α} {inbound outbound : Gaussian α}

theorem recordQuality_ofStatistics (good : Bool) :
    (ofStatistics q inbound outbound : CapabilityTrust α k).recordQuality good =
      ofStatistics (q.record good) inbound outbound := by
  cases k <;> rfl

theorem recordTraffic_ofStatistics (d : Direction) (x : α) :
    ((ofStatistics q inbound outbound : CapabilityTrust α k).recordTraffic d x).2 =
      match d with
      | .inbound => ofStatistics q (inbound.update x) outbound
      | .outbound => ofStatistics q inbound (outbound.update x) := by
  cases k <;> cases d <;> rfl

end

end CapabilityTrust

namespace Edge

/-- Nothing is known of the edge or its capabilities, except when a ping was answered. -/
structure IsFresh (e : TrustEdge Rat k) : Prop where
  submission : e.trust.submission = .uniform
  result : e.trust.result = .uniform
  capability : ∀ c ∈ e.capabilities, c.trust = .fresh

/-- The edge with beliefs and statistics as some reports amount to. -/
def tallied (challenge : Option String) (xs : List (Report Rat)) (e : TrustEdge Rat k) :
    TrustEdge Rat k :=
  { e with
    trust :=
      { submission := Report.tally challenge xs .submission
        result := Report.tally challenge xs .result
        lastPing := e.trust.lastPing }
    capabilities := e.capabilities.map fun c =>
      ⟨c.name, .ofStatistics (Report.tally challenge xs (.capability c.name))
        (.batch (Report.samples c.name .inbound xs)) (.batch (Report.samples c.name .outbound xs))⟩ }

/-- The edge with one more outcome in a belief. -/
def credited (p : Part) (good : Bool) (e : TrustEdge Rat k) : TrustEdge Rat k :=
  match p with
  | .submission => { e with trust := e.trust.recordSubmission good }
  | .result => { e with trust := e.trust.recordResult good }
  | .capability name => e.rate name good
  | .ping | .roster => e

/-- An outcome goes where the table says. -/
theorem learn_eq_credited (challenge : Option String) (x : Experience) (e : TrustEdge Rat k) :
    e.learn challenge x =
      match (Report.outcome x : Report Rat).credit challenge with
      | some (p, good) => e.credited p good
      | none => e := by
  cases x with
  | submission o =>
    cases o with
    | response code =>
      simp only [learn, recordSubmission, SubmissionOutcome.evidence, ResponseCode.isSuccess,
        ResponseCode.isServerError, Report.credit, beq_iff_eq]
      by_cases h2 : code.cls = 2
      · simp only [if_pos h2, credited]
      · by_cases h5 : code.cls = 5
        · simp only [if_neg h2, if_pos h5, credited]
        · simp only [if_neg h2, if_neg h5]
    | timeout => rfl
    | sendFailed => rfl
  | result o => cases o <;> rfl
  | quality name good => exact withCapability_snd _ _ e
  | challenge o =>
    cases challenge with
    | none => cases o <;> rfl
    | some name =>
      cases o with
      | localFailure => rfl
      | correct | incorrect | timedOut => exact withCapability_snd _ _ e

variable {challenge : Option String} {xs : List (Report Rat)} {e : TrustEdge Rat k}

theorem tallied_nil (h : e.IsFresh) : e.tallied challenge [] = e := by
  have htrust : (⟨.uniform, .uniform, e.trust.lastPing⟩ : EdgeTrust Rat) = e.trust :=
    congrArg₂ (fun s r => EdgeTrust.mk s r e.trust.lastPing) h.submission.symm h.result.symm
  have hbatch : Gaussian.batch [] = .empty :=
    (Gaussian.foldl_update (by decide : ([] : List Rat).length < 2 ^ 32)).symm
  have hcapabilities : e.capabilities.map (fun c => (⟨c.name, .ofStatistics .uniform .empty .empty⟩ :
      Capability (CapabilityTrust Rat k))) = e.capabilities := by
    refine (List.map_congr_left fun c hc => ?_).trans (List.map_id _)
    have hfresh : (.ofStatistics .uniform .empty .empty : CapabilityTrust Rat k) = .fresh := by
      cases k <;> rfl
    rw [hfresh, ← h.capability c hc]
    rfl
  simp only [tallied, Report.tally_nil, Report.samples, List.filterMap_nil, hbatch, hcapabilities,
    htrust]

/-- An outcome that is credited. -/
theorem tallied_outcome {x : Experience} {p : Part} {good : Bool}
    (hx : (Report.outcome x : Report Rat).credit challenge = some (p, good))
    (hn : (e.capabilities.map Capability.name).Nodup) :
    (e.tallied challenge xs).credited p good = e.tallied challenge (xs ++ [.outcome x]) := by
  have hsamples (name : String) (d : Direction) :
      Report.samples name d (xs ++ [.outcome x]) = Report.samples name d xs := by
    rw [Report.samples_concat]
    exact List.append_nil _
  have htally (q : Part) : Report.tally challenge (xs ++ [.outcome x]) q =
      if p = q then (Report.tally challenge xs q).record good else Report.tally challenge xs q := by
    rw [Report.tally_concat, hx]
  simp only [tallied, hsamples, htally]
  cases p with
  | submission => simp [credited, EdgeTrust.recordSubmission]
  | result => simp [credited, EdgeTrust.recordResult]
  | capability name =>
    simp only [credited, rate, reduceCtorEq, if_false, Part.capability.injEq]
    rw [modifyCapability_eq_map _ _ (by rw [List.map_map]; exact hn), List.map_map]
    congr 1
    refine List.map_congr_left fun c _ => ?_
    simp only [Function.comp_apply, eq_comm]
    split
    · rw [CapabilityTrust.recordQuality_ofStatistics]
    · rfl
  | ping => simp [credited]
  | roster => simp [credited]

/-- Outcomes that are not credited. -/
theorem tallied_eq_self {x : Report Rat} (hx : x.credit challenge = none)
    (hs : ∀ name d, x.sample? name d = none) :
    e.tallied challenge (xs ++ [x]) = e.tallied challenge xs := by
  simp only [tallied, Report.tally_concat, hx, Report.samples_concat, hs, Option.toList_none,
    List.append_nil]

/-- Where the model keeps traffic, the samples of each capability and direction can be counted. -/
def Countable (xs : List (Report Rat)) (e : TrustEdge Rat k) : Prop :=
  k = .throughput → ∀ c ∈ e.capabilities, ∀ d, (Report.samples c.name d xs).length < 2 ^ 32

theorem Countable.of_concat {x : Report Rat} (h : e.Countable (xs ++ [x])) : e.Countable xs := by
  intro hk c hc d
  refine Nat.lt_of_le_of_lt ?_ (h hk c hc d)
  rw [Report.samples_concat, List.length_append]
  exact Nat.le_add_right _ _

/-- A sample of the traffic. -/
theorem tallied_traffic {name : String} {d : Direction} {x : Rat}
    (hn : (e.capabilities.map Capability.name).Nodup) (h : e.Countable (xs ++ [.traffic name d x])) :
    ((e.tallied challenge xs).recordTraffic name d x).2 =
      e.tallied challenge (xs ++ [.traffic name d x]) := by
  have htally (q : Part) : Report.tally challenge (xs ++ [.traffic name d x]) q =
      Report.tally challenge xs q := Report.tally_concat q
  rw [recordTraffic, withCapability_snd]
  simp only [tallied, htally]
  rw [modifyCapability_eq_map _ _ (by rw [List.map_map]; exact hn), List.map_map]
  congr 1
  refine List.map_congr_left fun c hc => ?_
  simp only [Function.comp_apply]
  by_cases hname : c.name = name
  · rw [if_pos hname]
    cases k with
    | baseline => rfl
    | throughput =>
      have hlen := h rfl c hc d
      rw [hname, Report.samples_concat, Report.sample?, if_pos ⟨rfl, rfl⟩, List.length_append] at hlen
      rw [CapabilityTrust.recordTraffic_ofStatistics]
      cases d <;> simp only [Report.samples_concat, Report.sample?, hname, true_and, reduceCtorEq,
        if_true, if_false, Option.toList_some, Option.toList_none, List.append_nil,
        Gaussian.batch_concat x hlen]
  · have hname' : ¬ name = c.name := fun h => hname h.symm
    simp only [if_neg hname, Report.samples_concat, Report.sample?, hname', false_and, if_false,
      Option.toList_none, List.append_nil]

/-- **One more report.** -/
theorem tallied_concat (hn : (e.capabilities.map Capability.name).Nodup) {x : Report Rat}
    (h : e.Countable (xs ++ [x])) :
    (e.tallied challenge xs).apply (x.update challenge) = e.tallied challenge (xs ++ [x]) := by
  cases x with
  | outcome x =>
    show (e.tallied challenge xs).learn challenge x = _
    rw [learn_eq_credited]
    cases hx : (Report.outcome x : Report Rat).credit challenge with
    | none => exact (tallied_eq_self hx fun _ _ => rfl).symm
    | some credit => exact tallied_outcome hx hn
  | traffic name d x => exact tallied_traffic hn h

/-- **Any number of reports** about an edge of which nothing was known. -/
theorem foldl_report (hf : e.IsFresh) (hn : (e.capabilities.map Capability.name).Nodup)
    (h : e.Countable xs) :
    xs.foldl (fun e x => (e.report challenge x).2) e = e.tallied challenge xs := by
  -- Reports are taken off the end: the last one meets an edge of which all the others are known.
  induction xs using List.reverseRecOn with
  | nil => exact (tallied_nil hf).symm
  | append_singleton xs x ih =>
    rw [List.foldl_append, ih h.of_concat, List.foldl_cons, List.foldl_nil, report_snd,
      tallied_concat hn h]

end Edge

/-! ## Registries -/

namespace Registry

section
variable {α : Type} [Scalar α]

/-- The registry after some calls, each about the edge at a place. -/
def hear (challenge : Option String) (calls : List (Nat × Report α)) (r : TrustRegistry α k) :
    TrustRegistry α k :=
  calls.foldl (fun r call => r.reviseAt call.1 fun e => (e.report challenge call.2).2) r

/-- Each edge hears what is said about it. -/
theorem getElem?_hear (challenge : Option String) (calls : List (Nat × Report α))
    (r : TrustRegistry α k) (i : Nat) :
    (r.hear challenge calls).edges[i]? = r.edges[i]?.map fun e =>
      (Report.about i calls).foldl (fun e x => (e.report challenge x).2) e := by
  induction calls generalizing r with
  | nil => simp [hear, Report.about]
  | cons call calls ih =>
    have hstep : r.hear challenge (call :: calls) =
        (r.reviseAt call.1 fun e => (e.report challenge call.2).2).hear challenge calls := rfl
    rw [hstep, ih, getElem?_reviseAt, Report.about_cons]
    split
    · cases r.edges[i]? <;> rfl
    · rfl

/-- Nothing else of the registry changes, and no edge goes or comes. -/
theorem limits_hear (challenge : Option String) (calls : List (Nat × Report α))
    (r : TrustRegistry α k) :
    (r.hear challenge calls).limits = r.limits ∧ (r.hear challenge calls).nextId = r.nextId := by
  induction calls generalizing r with
  | nil => exact ⟨rfl, rfl⟩
  | cons call calls ih => exact ih _

end

/-- What the registry comes to after some reports, if nothing was known of its edges. -/
def tallied (challenge : Option String) (calls : List (Nat × Report Rat)) (r : TrustRegistry Rat k) :
    TrustRegistry Rat k :=
  { r with edges := r.edges.mapIdx fun i e => e.tallied challenge (Report.about i calls) }

variable {r : TrustRegistry Rat k} {challenge : Option String} {calls : List (Nat × Report Rat)}

theorem hear_eq (hr : r.Sound) (hf : ∀ e ∈ r.edges, e.IsFresh)
    (hcount : ∀ (i : Nat) (e : TrustEdge Rat k), r.edges[i]? = some e →
      e.Countable (Report.about i calls)) :
    r.hear challenge calls = r.tallied challenge calls := by
  have hedges : (r.hear challenge calls).edges = (r.tallied challenge calls).edges := by
    refine List.ext_getElem? fun i => ?_
    rw [getElem?_hear, tallied, List.getElem?_mapIdx]
    cases he : r.edges[i]? with
    | none => rfl
    | some e =>
      have hm := List.mem_of_getElem? he
      exact congrArg some (Edge.foldl_report (hf e hm) (hr.edge e hm).names (hcount i e he))
  obtain ⟨hlimits, hnext⟩ := limits_hear challenge calls r
  calc r.hear challenge calls
      = ⟨(r.hear challenge calls).edges, (r.hear challenge calls).limits,
          (r.hear challenge calls).nextId⟩ := rfl
    _ = r.tallied challenge calls := by rw [hedges, hlimits, hnext]; rfl

/-- What reports come to does not depend on their order. -/
theorem tallied_perm {calls' : List (Nat × Report Rat)} (h : calls.Perm calls') :
    r.tallied challenge calls = r.tallied challenge calls' := by
  have habout (i : Nat) : (Report.about i calls).Perm (Report.about i calls') := h.filterMap _
  have hsamples (i : Nat) (name : String) (d : Direction) :
      Gaussian.batch (Report.samples name d (Report.about i calls)) =
        .batch (Report.samples name d (Report.about i calls')) :=
    Gaussian.batch_perm ((habout i).filterMap _)
  simp only [tallied, Edge.tallied, Report.tally_perm (habout _), hsamples]

/-- **Evidence is counted exactly, and in any order.** Let nothing be known of the edges of a registry, and
let any reports be made about them, of each capability fewer than 2^32 samples of the traffic in each
direction if the model keeps traffic. Then every belief of every edge ends as one and the number of good
outcomes credited to it, and one and the number of bad ones; the traffic ends as the statistics of its
samples; and nothing else has changed. A report that is refused, or answered with no, changes nothing
about any edge. The same reports in another order lead to the same registry, and so to the same
scores. -/
theorem evidence_counts
    (hr : (directory (EdgeTrust Rat) (CapabilityTrust Rat k)).Reachable r)
    (hf : ∀ e ∈ r.edges, e.IsFresh) (challenge : Option String) {calls : List (Nat × Report Rat)}
    (hcount : ∀ (i : Nat) (e : TrustEdge Rat k), r.edges[i]? = some e →
      e.Countable (Report.about i calls)) :
    r.hear challenge calls = r.tallied challenge calls ∧
    (∀ (e : TrustEdge Rat k) (x : Report Rat), (e.report challenge x).1 ≠ .ok true →
      (e.report challenge x).2 = e) ∧
    ∀ calls' : List (Nat × Report Rat), calls.Perm calls' →
      r.hear challenge calls' = r.hear challenge calls ∧
      ∀ (g : Engine Rat) (s : Store) (id : EdgeId) (name : String),
        g.trustIn? s (r.hear challenge calls') id name =
          g.trustIn? s (r.hear challenge calls) id name := by
  have hs := Sound.of_reachable hr
  -- Either order comes to what it tallies to, and a bound on samples holds in any order.
  have hsame : ∀ calls' : List (Nat × Report Rat), calls.Perm calls' →
      r.hear challenge calls' = r.hear challenge calls := by
    intro calls' hp
    have hcount' : ∀ (i : Nat) (e : TrustEdge Rat k), r.edges[i]? = some e →
        e.Countable (Report.about i calls') := by
      intro i e he hk c hc d
      have hlen : (Report.samples c.name d (Report.about i calls)).length =
          (Report.samples c.name d (Report.about i calls')).length :=
        ((hp.filterMap _).filterMap _).length_eq
      rw [← hlen]
      exact hcount i e he hk c hc d
    rw [hear_eq hs hf hcount, hear_eq hs hf hcount', tallied_perm hp]
  exact ⟨hear_eq hs hf hcount, fun e x h => Edge.report_eq_self h,
    fun calls' hp => ⟨hsame calls' hp, fun g s id name => by rw [hsame calls' hp]⟩⟩

/-- An edge is registered and announces two capabilities, of which one stands for challenges. -/
def welcome : List (Op (EdgeTrust Rat) (CapabilityTrust Rat .throughput)) :=
  [.add ⟨Vector.replicate 16 1⟩ "edge-20", .addCapability ⟨0⟩ "routing", .addCapability ⟨0⟩ "echo"]

def welcomed : TrustRegistry Rat .throughput := welcome.foldl perform (empty ⟨2, 3, 2⟩)

def guest : TrustEdge Rat .throughput :=
  ⟨⟨0⟩, ⟨Vector.replicate 16 1⟩, "edge-20", [⟨"routing", .fresh⟩, ⟨"echo", .fresh⟩], .fresh⟩

/-- Good and bad news, some of them about what is not there. -/
def news : List (Nat × Report Rat) :=
  [(0, .outcome (.submission (.response ⟨2, 5⟩))), (0, .traffic "routing" .inbound 3),
    (0, .outcome (.submission .timeout)), (0, .outcome (.challenge .timedOut)),
    (0, .outcome (.submission (.response ⟨4, 4⟩))), (1, .outcome (.result .delivered)),
    (0, .outcome (.quality "rooting" true)), (0, .traffic "routing" .inbound 5),
    (0, .outcome (.quality "routing" true))]

theorem evidence_of_news : ∃ e, (welcomed.hear (some "echo") news).edges = [e] ∧
    e.trust.submission = ⟨2, 2⟩ ∧ e.trust.result = ⟨1, 1⟩ ∧
    e.capabilities = [⟨"routing", .throughput ⟨2, 1⟩ ⟨4, 2, 2⟩ .empty⟩,
      ⟨"echo", .throughput ⟨1, 2⟩ .empty .empty⟩] ∧
    welcomed.hear (some "echo") news.reverse = welcomed.hear (some "echo") news := by
  have hreach : (directory (EdgeTrust Rat) (CapabilityTrust Rat .throughput)).Reachable welcomed :=
    ⟨_, welcome, ⟨_, rfl⟩, rfl⟩
  have hedges : welcomed.edges = [guest] := by decide +kernel
  have hfresh : ∀ e ∈ welcomed.edges, e.IsFresh := by
    rw [hedges]
    simp only [List.mem_singleton, forall_eq]
    exact ⟨rfl, rfl, by simp [guest]⟩
  have hcount : ∀ (i : Nat) (e : TrustEdge Rat .throughput), welcomed.edges[i]? = some e →
      e.Countable (Report.about i news) := fun i e _ _ c _ d =>
    Nat.lt_of_le_of_lt
      (Nat.le_trans (List.length_filterMap_le _ _) (List.length_filterMap_le _ news)) (by decide)
  obtain ⟨hall, -, horder⟩ := evidence_counts hreach hfresh (some "echo") hcount
  refine ⟨guest.tallied (some "echo") (Report.about 0 news), ?_, by decide +kernel, by decide +kernel,
    by decide +kernel, (horder news.reverse news.reverse_perm.symm).1⟩
  rw [hall, tallied, hedges]
  rfl

end Registry
end Vouch
