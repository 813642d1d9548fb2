import ReleaseOperator.Cluster.Client
import ReleaseOperator.Proofs.Codec.Records

/-!
# Complete rollouts

What the fields of an object say about its rollout, and when the rollout is complete. The three
kinds of workload are judged by one rule: as many replicas as are wanted are ready, and as many
run what was asked for last. The rule differs in one point. A report on replicas that is about an
earlier generation does not count, but one on nodes does; so a rollout to all nodes passes for
complete before it has begun, until the report is renewed.
-/

namespace ReleaseOperator

namespace Json

/-- The value at the end of a path of keys. -/
def at? : List String → Json → Option Json
  | [], v => some v
  | key :: path, v => (v.get? key).bind (at? path)

/-- The whole number that a value is. -/
def number? : Json → Option Int
  | whole i => some i
  | _ => none

/-- The whole number at the end of a path of keys. -/
def numberAt (path : List String) (v : Json) : Option Int :=
  (v.at? path).bind number?

variable {α : Type} {v w : Json} {f : Record} {key : String} {path : List String}
  {read : Json → Option α} {low high : Int} {n : Option Int}

theorem get?_of_fields? (h : v.fields? = some f) : v.get? key = f key := by
  cases v with
  | object fields =>
      obtain rfl := Option.some.inj h
      rfl
  | _ => exact absurd h (by simp [fields?])

/-- The reader of an optional number gives what stands in its field. -/
theorem numberAt_of_optional (hf : v.fields? = some f)
    (h : optional (wholeIn? low high) (f key) = some n) : v.numberAt [key] = n := by
  rw [numberAt, at?, get?_of_fields? hf]
  cases n with
  | none =>
      cases hfield : f key with
      | none => rfl
      | some w =>
          rw [hfield] at h
          cases w with
          | null => rfl
          | _ => exact absurd h (by simp [optional])
  | some i =>
      obtain ⟨w, -, hfield, hread⟩ := read_of_optional h
      obtain ⟨rfl, -⟩ := wholeIn?_eq_some_iff.1 hread
      rw [hfield]
      rfl

/-- An optional part of an object is missing, and then there are no numbers in it, or it was read
from what stands in its field. -/
theorem part_of_optional {part : Option α} (hf : v.fields? = some f)
    (h : optional read (f key) = some part) :
    ((v.get? key).any fun w => !w.isNull) = part.isSome ∧
      ((part = none ∧ ∀ k, v.numberAt [key, k] = none) ∨
        ∃ w a, part = some a ∧ read w = some a ∧ ∀ k, v.numberAt [key, k] = w.numberAt [k]) := by
  simp only [numberAt, at?, get?_of_fields? hf]
  cases part with
  | none =>
      cases hfield : f key with
      | none => exact ⟨rfl, .inl ⟨rfl, fun _ => rfl⟩⟩
      | some w =>
          rw [hfield] at h
          cases w with
          | null => exact ⟨rfl, .inl ⟨rfl, fun _ => rfl⟩⟩
          | _ => exact absurd h (by simp [optional])
  | some a =>
      obtain ⟨w, hw, hfield, hread⟩ := read_of_optional h
      rw [hfield]
      refine ⟨?_, .inr ⟨w, a, rfl, hread, fun _ => rfl⟩⟩
      cases w with
      | null => exact absurd rfl hw
      | _ => rfl

end Json

namespace WorkloadKind

/-- Where an object of a kind says how many replicas there shall be. -/
def wantedPath : WorkloadKind → List String
  | daemonSet => ["status", "desiredNumberScheduled"]
  | _ => ["spec", "replicas"]

/-- How many replicas there shall be where an object does not say. -/
def wantedDefault : WorkloadKind → Int
  | daemonSet => 0
  | _ => 1

/-- Where an object of a kind says how many replicas are ready. -/
def readyPath : WorkloadKind → List String
  | daemonSet => ["status", "numberReady"]
  | _ => ["status", "readyReplicas"]

/-- Where an object of a kind says how many replicas run what was asked for last. -/
def updatedPath : WorkloadKind → List String
  | daemonSet => ["status", "updatedNumberScheduled"]
  | _ => ["status", "updatedReplicas"]

end WorkloadKind

namespace Rollout

/-! ### What an object says -/

/-- What a rollout tells, each kind in fields of its own. -/
structure Figures where
  reported : Bool
  wanted : Int
  ready : Int
  updated : Int
  generation : Option Int
  observed : Option Int

/-- The figures of a rollout; a count that is missing is zero. -/
def figures : Rollout → Figures
  | deployment r | statefulSet r =>
    ⟨r.report.isSome, r.desired, (r.report.bind (·.ready)).getD 0,
      (r.report.bind (·.updated)).getD 0, r.generation, r.report.bind (·.observed)⟩
  | daemonSet r =>
    ⟨r.report.isSome, (r.report.map (·.desired)).getD 0, (r.report.map (·.ready)).getD 0,
      (r.report.bind (·.updated)).getD 0, r.generation, r.report.bind (·.observed)⟩

/-- The figures that stand in an object of a kind. -/
def figuresIn (k : WorkloadKind) (v : Json) : Figures where
  reported := (v.get? "status").any fun s => !s.isNull
  wanted := (v.numberAt k.wantedPath).getD k.wantedDefault
  ready := (v.numberAt k.readyPath).getD 0
  updated := (v.numberAt k.updatedPath).getD 0
  generation := v.numberAt ["metadata", "generation"]
  observed := v.numberAt ["status", "observedGeneration"]

namespace Figures

/-- The report is about an earlier generation than the one that is asked for. -/
def Overdue (x : Figures) : Prop :=
  ∃ g o, x.generation = some g ∧ x.observed = some o ∧ o < g

/-- As many replicas as are wanted are ready, and as many run what was asked for last. -/
def Reached (x : Figures) : Prop := x.wanted ≤ x.ready ∧ x.wanted ≤ x.updated

/-- Something is known of the rollout. Of replicas it is also known when there shall be none. -/
def Known (k : WorkloadKind) (x : Figures) : Prop :=
  x.reported = true ∨ k ≠ .daemonSet ∧ x.wanted = 0

/-- The same rollout with more replicas that are ready or run what was asked for last. -/
structure Raised (x y : Figures) : Prop where
  reported : x.reported = true → y.reported = true
  wanted : y.wanted = x.wanted
  generation : y.generation = x.generation
  observed : y.observed = x.observed
  ready : x.ready ≤ y.ready
  updated : x.updated ≤ y.updated

theorem isStale_iff {x : Figures} : isStale x.generation x.observed = true ↔ x.Overdue := by
  unfold isStale Overdue
  cases x.generation <;> cases x.observed <;> simp

end Figures

/-- The kind of workload that is rolled out. -/
def kind : Rollout → WorkloadKind
  | deployment _ => .deployment
  | statefulSet _ => .statefulSet
  | daemonSet _ => .daemonSet

/-! ### The rule -/

theorem isReady_replicas {k : WorkloadKind} (hk : k ≠ .daemonSet) (r : Replicas) :
    r.isReady = true ↔ (deployment r).figures.Known k ∧ (deployment r).figures.Reached ∧
      ¬ (deployment r).figures.Overdue := by
  rw [← Figures.isStale_iff, Bool.not_eq_true, Replicas.isReady]
  cases hreport : r.report with
  | none =>
      simp only [figures, Figures.Known, Figures.Reached, hreport, isStale, decide_eq_true_eq]
      constructor
      · intro hnone
        have hle : r.desired ≤ 0 := Int.le_of_eq hnone
        exact ⟨.inr ⟨hk, hnone⟩, ⟨hle, hle⟩, by cases r.generation <;> rfl⟩
      · rintro ⟨hreported | ⟨_, hnone⟩, _⟩
        · exact absurd hreported Bool.false_ne_true
        · exact hnone
  | some s =>
      simp only [figures, Figures.Known, Figures.Reached, hreport, Bool.and_eq_true,
        Bool.not_eq_true', decide_eq_true_eq]
      constructor
      · rintro ⟨⟨hnew, hready⟩, hupdated⟩
        exact ⟨.inl rfl, ⟨hready, hupdated⟩, hnew⟩
      · rintro ⟨_, ⟨hready, hupdated⟩, hnew⟩
        exact ⟨⟨hnew, hready⟩, hupdated⟩

theorem isReady_nodes (r : NodeReplicas) :
    r.isReady = true ↔
      (daemonSet r).figures.Known .daemonSet ∧ (daemonSet r).figures.Reached := by
  rw [NodeReplicas.isReady]
  cases hreport : r.report with
  | none => simp [figures, Figures.Known, hreport]
  | some s => simp [figures, Figures.Known, Figures.Reached, hreport]

/-- A rollout is complete when something is known of it and its counts are reached, and unless
it goes to all nodes, what is known is not about an earlier generation. -/
theorem isReady_iff (r : Rollout) :
    r.isReady = true ↔ r.figures.Known r.kind ∧ r.figures.Reached ∧
      (r.kind = .daemonSet ∨ ¬ r.figures.Overdue) := by
  cases r with
  | deployment r =>
      have hk : (deployment r).kind ≠ .daemonSet := WorkloadKind.noConfusion
      rw [or_iff_right hk]
      exact isReady_replicas hk r
  | statefulSet r =>
      have hk : (statefulSet r).kind ≠ .daemonSet := WorkloadKind.noConfusion
      rw [or_iff_right hk]
      exact isReady_replicas hk r
  | daemonSet r =>
      have hk : (daemonSet r).kind = .daemonSet := rfl
      rw [and_iff_left (Or.inl hk : _ ∨ ¬ (daemonSet r).figures.Overdue), hk]
      exact isReady_nodes r

/-- A complete rollout stays complete when more replicas come to be ready. -/
theorem isReady_of_raised {r r' : Rollout} (hkind : r'.kind = r.kind)
    (h : r.figures.Raised r'.figures) (hready : r.isReady = true) : r'.isReady = true := by
  obtain ⟨hknown, ⟨hr, hu⟩, hnew⟩ := (isReady_iff r).1 hready
  refine (isReady_iff r').2 ⟨?_, ⟨?_, ?_⟩, ?_⟩
  · rw [Figures.Known, hkind, h.wanted]
    exact hknown.imp_left h.reported
  · rw [h.wanted]
    exact Int.le_trans hr h.ready
  · rw [h.wanted]
    exact Int.le_trans hu h.updated
  · rw [Figures.Overdue, hkind, h.generation, h.observed]
    exact hnew

/-! ### Reading an object -/

section Reading

variable {k : WorkloadKind} {v : Json} {r : Rollout} {f : Json.Record} {metadata : Metadata}
  {apiVersion name : String}

theorem generation_of_metadata (h : Metadata.ofJson? v = some metadata) :
    v.numberAt ["generation"] = metadata.generation := by
  obtain ⟨f, hf, h⟩ := Option.bind_eq_some_iff.1 h
  obtain ⟨name, -, h⟩ := Option.bind_eq_some_iff.1 h
  obtain ⟨generateName, -, h⟩ := Option.bind_eq_some_iff.1 h
  obtain ⟨ns, -, h⟩ := Option.bind_eq_some_iff.1 h
  obtain ⟨uid, -, h⟩ := Option.bind_eq_some_iff.1 h
  obtain ⟨generation, hgeneration, h⟩ := Option.bind_eq_some_iff.1 h
  simp only [bind, Option.bind_eq_some_iff] at h
  obtain ⟨_, _, _, _, _, _, _, _, _, _, _, _, h⟩ := h
  obtain rfl := Option.some.inj h
  exact Json.numberAt_of_optional hf hgeneration

theorem generation_of_object? (h : Typed.object? apiVersion name v = some (f, metadata)) :
    v.fields? = some f ∧ v.numberAt ["metadata", "generation"] = metadata.generation := by
  obtain ⟨f', hf, h⟩ := Option.bind_eq_some_iff.1 h
  obtain ⟨-, -, h⟩ := Option.bind_eq_some_iff.1 h
  obtain ⟨-, -, h⟩ := Option.bind_eq_some_iff.1 h
  obtain ⟨m, hm, h⟩ := Option.bind_eq_some_iff.1 h
  obtain ⟨rfl, rfl⟩ := Prod.mk.inj (Option.some.inj h)
  refine ⟨hf, ?_⟩
  obtain ⟨-, ⟨rfl, hnone⟩ | ⟨w, m, rfl, hread, hpart⟩⟩ := Json.part_of_optional hf hm
  · exact hnone _
  · rw [hpart]
    exact generation_of_metadata hread

/-- The numbers in a report on replicas. -/
theorem numbers_of_report {numbers : List String} {report : ReplicaReport}
    (h : Replicas.report? numbers v = some report) :
    v.numberAt ["observedGeneration"] = report.observed ∧
      v.numberAt ["readyReplicas"] = report.ready ∧
      v.numberAt ["updatedReplicas"] = report.updated := by
  obtain ⟨f, hf, h⟩ := Option.bind_eq_some_iff.1 h
  obtain ⟨-, -, h⟩ := Option.bind_eq_some_iff.1 h
  obtain ⟨-, -, h⟩ := Option.bind_eq_some_iff.1 h
  obtain ⟨-, -, h⟩ := Option.bind_eq_some_iff.1 h
  obtain ⟨observed, hobserved, h⟩ := Option.bind_eq_some_iff.1 h
  obtain ⟨ready, hready, h⟩ := Option.bind_eq_some_iff.1 h
  obtain ⟨updated, hupdated, h⟩ := Option.bind_eq_some_iff.1 h
  obtain rfl := Option.some.inj h
  exact ⟨Json.numberAt_of_optional hf hobserved, Json.numberAt_of_optional hf hready,
    Json.numberAt_of_optional hf hupdated⟩

/-- The numbers in a report on nodes. -/
theorem numbers_of_nodeReport {report : NodeReport} (h : NodeReplicas.report? v = some report) :
    v.numberAt ["observedGeneration"] = report.observed ∧
      (v.numberAt ["desiredNumberScheduled"]).getD 0 = report.desired ∧
      (v.numberAt ["numberReady"]).getD 0 = report.ready ∧
      v.numberAt ["updatedNumberScheduled"] = report.updated := by
  obtain ⟨f, hf, h⟩ := Option.bind_eq_some_iff.1 h
  obtain ⟨-, -, h⟩ := Option.bind_eq_some_iff.1 h
  obtain ⟨-, -, h⟩ := Option.bind_eq_some_iff.1 h
  obtain ⟨observed, hobserved, h⟩ := Option.bind_eq_some_iff.1 h
  obtain ⟨desired, hdesired, h⟩ := Option.bind_eq_some_iff.1 h
  obtain ⟨ready, hready, h⟩ := Option.bind_eq_some_iff.1 h
  obtain ⟨updated, hupdated, h⟩ := Option.bind_eq_some_iff.1 h
  obtain rfl := Option.some.inj h
  refine ⟨Json.numberAt_of_optional hf hobserved, ?_, ?_, Json.numberAt_of_optional hf hupdated⟩
  · rw [Json.numberAt_of_optional hf hdesired]
  · rw [Json.numberAt_of_optional hf hready]

/-- The number of replicas that a specification asks for. -/
theorem numberAt_of_spec {numbers objects : List String} {wanted : Option Int}
    (h : Replicas.spec? numbers objects v = some wanted) : v.numberAt ["replicas"] = wanted := by
  obtain ⟨f, hf, h⟩ := Option.bind_eq_some_iff.1 h
  obtain ⟨-, -, h⟩ := Option.bind_eq_some_iff.1 h
  obtain ⟨-, -, h⟩ := Option.bind_eq_some_iff.1 h
  obtain ⟨-, -, h⟩ := Option.bind_eq_some_iff.1 h
  obtain ⟨-, -, h⟩ := Option.bind_eq_some_iff.1 h
  exact Json.numberAt_of_optional hf h

/-- Replicas have the figures of their object, however the rest of it is read. -/
theorem figures_of_object {spec : Json → Option (Option Int)} {numbers : List String}
    {r : Replicas} (h : Replicas.ofObject? name spec (Replicas.report? numbers) v = some r)
    (hspec : ∀ w wanted, spec w = some wanted → w.numberAt ["replicas"] = wanted) :
    (deployment r).figures = figuresIn .deployment v := by
  obtain ⟨⟨f, metadata⟩, hobject, h⟩ := Option.bind_eq_some_iff.1 h
  obtain ⟨wanted, hwanted, h⟩ := Option.bind_eq_some_iff.1 h
  obtain ⟨report, hreport, h⟩ := Option.bind_eq_some_iff.1 h
  obtain rfl := Option.some.inj h
  obtain ⟨hf, hgeneration⟩ := generation_of_object? hobject
  have hreplicas : v.numberAt ["spec", "replicas"] = wanted.bind id := by
    obtain ⟨-, ⟨rfl, hnone⟩ | ⟨w, wanted, rfl, hread, hpart⟩⟩ := Json.part_of_optional hf hwanted
    · exact hnone _
    · rw [hpart]
      exact hspec w wanted hread
  obtain ⟨hreported, hcases⟩ := Json.part_of_optional hf hreport
  simp only [figures, figuresIn, WorkloadKind.wantedPath, WorkloadKind.wantedDefault,
    WorkloadKind.readyPath, WorkloadKind.updatedPath, Replicas.desired, hreplicas, hgeneration,
    hreported]
  obtain ⟨rfl, hnone⟩ | ⟨w, report, rfl, hread, hpart⟩ := hcases
  · simp only [hnone]
    rfl
  · obtain ⟨hobserved, hready, hupdated⟩ := numbers_of_report hread
    simp only [hpart, hobserved, hready, hupdated]
    rfl

theorem figures_of_nodes {r : NodeReplicas} (h : NodeReplicas.ofDaemonSet? v = some r) :
    (daemonSet r).figures = figuresIn .daemonSet v := by
  obtain ⟨⟨f, metadata⟩, hobject, h⟩ := Option.bind_eq_some_iff.1 h
  obtain ⟨-, -, h⟩ := Option.bind_eq_some_iff.1 h
  obtain ⟨report, hreport, h⟩ := Option.bind_eq_some_iff.1 h
  obtain rfl := Option.some.inj h
  obtain ⟨hf, hgeneration⟩ := generation_of_object? hobject
  obtain ⟨hreported, hcases⟩ := Json.part_of_optional hf hreport
  simp only [figures, figuresIn, WorkloadKind.wantedPath, WorkloadKind.wantedDefault,
    WorkloadKind.readyPath, WorkloadKind.updatedPath, hgeneration, hreported]
  obtain ⟨rfl, hnone⟩ | ⟨w, report, rfl, hread, hpart⟩ := hcases
  · simp only [hnone]
    rfl
  · obtain ⟨hobserved, hwanted, hready, hupdated⟩ := numbers_of_nodeReport hread
    simp only [hpart, hobserved, hwanted, hready, hupdated]
    rfl

/-- The rollout of a workload is of its kind and has the figures that stand in its object. -/
theorem figures_ofJson? (h : ofJson? k v = some r) : r.kind = k ∧ r.figures = figuresIn k v := by
  cases k with
  | deployment =>
      obtain ⟨r, hr, rfl⟩ := Option.map_eq_some_iff.1 h
      refine ⟨rfl, figures_of_object hr fun w wanted hw => ?_⟩
      obtain ⟨f, -, hw⟩ := Option.bind_eq_some_iff.1 hw
      obtain ⟨-, -, hw⟩ := Option.bind_eq_some_iff.1 hw
      exact numberAt_of_spec hw
  | statefulSet =>
      obtain ⟨r, hr, rfl⟩ := Option.map_eq_some_iff.1 h
      refine ⟨rfl, figures_of_object hr fun w wanted hw => ?_⟩
      obtain ⟨f, -, hw⟩ := Option.bind_eq_some_iff.1 hw
      obtain ⟨-, -, hw⟩ := Option.bind_eq_some_iff.1 hw
      obtain ⟨-, -, hw⟩ := Option.bind_eq_some_iff.1 hw
      exact numberAt_of_spec hw
  | daemonSet =>
      obtain ⟨r, hr, rfl⟩ := Option.map_eq_some_iff.1 h
      exact ⟨rfl, figures_of_nodes hr⟩

end Reading

end Rollout

/-! ### Asking the cluster -/

namespace Cluster

variable {answer : Request → Answer} {w : Workload} {v : Json} {r : Rollout}

/-- A server shows an object to those who ask for a workload. -/
def Shows (answer : Request → Answer) (w : Workload) (v : Json) : Prop :=
  ∃ request, readRequest (.workloadReady w) = .ok request ∧ (answer request).isError = false ∧
    Json.parse? (answer request).body = some v

/-- What the client says of a workload when a server answers. -/
def saysReady (answer : Request → Answer) (w : Workload) : Except ClusterError Bool :=
  Id.run ((read (.workloadReady w)).run fun request => pure (answer request))

theorem saysReady_of_shows (h : Shows answer w v) (hread : Rollout.ofJson? w.kind v = some r) :
    saysReady answer w = .ok r.isReady := by
  obtain ⟨request, hrequest, hfine, hbody⟩ := h
  have hanswer : (answer request).readOptional (Rollout.ofJson? w.kind) = .ok (some r) := by
    simp only [Answer.readOptional, Answer.read, hfine, hbody, Option.bind_some, hread]
    rfl
  simp only [saysReady, read, converse, hrequest, Program.bind_eq, Program.call, Program.bind_ask,
    Program.bind_done, Program.pure_eq, Program.run_ask, Program.run_done, pure_bind, hanswer]
  rfl

end Cluster

namespace Rollout

variable {k : WorkloadKind} {v : Json} {r : Rollout}

/-- A rollout that an object tells of is complete exactly when something is known of it, as many
replicas as are wanted are ready and run what was asked for last, and, unless it goes to all nodes,
the report is not about an earlier generation. It stays complete when more replicas are ready or
run what was asked for last. And so the client says of the workload when the server shows that
object. -/
theorem complete_iff_reached (hread : ofJson? k v = some r) :
    (r.isReady = true ↔ (figuresIn k v).Known k ∧ (figuresIn k v).Reached ∧
      (k = .daemonSet ∨ ¬ (figuresIn k v).Overdue)) ∧
    (∀ v' r', ofJson? k v' = some r' → (figuresIn k v).Raised (figuresIn k v') →
      r.isReady = true → r'.isReady = true) ∧
    ∀ answer w, w.kind = k → Cluster.Shows answer w v →
      Cluster.saysReady answer w = .ok r.isReady := by
  obtain ⟨hkind, hfigures⟩ := figures_ofJson? hread
  refine ⟨?_, fun v' r' hread' hraised hready => ?_, ?_⟩
  · have hiff := isReady_iff r
    rwa [hkind, hfigures] at hiff
  · obtain ⟨hkind', hfigures'⟩ := figures_ofJson? hread'
    rw [← hfigures, ← hfigures'] at hraised
    exact isReady_of_raised (hkind'.trans hkind.symm) hraised hready
  · rintro answer w rfl hshows
    exact Cluster.saysReady_of_shows hshows hread

/-- A workload in its fifth generation, with all that the report of an object of a kind says. -/
def reporting (k : WorkloadKind) (report : List (String × Json)) : Json :=
  .object [("kind", .text k.name), ("metadata", .object [("generation", .whole 5)]),
    ("status", .object report)]

/-- One replica is wanted where an object does not say how many. -/
theorem complete_iff_reached_reporting :
    ∃ r, ofJson? .statefulSet (reporting .statefulSet [("observedGeneration", .whole 5),
        ("readyReplicas", .whole 1), ("updatedReplicas", .whole 2)]) = some r ∧
      r.isReady = true ∧ ¬ r.figures.Overdue := by
  have hread : ofJson? .statefulSet (reporting .statefulSet [("observedGeneration", .whole 5),
      ("readyReplicas", .whole 1), ("updatedReplicas", .whole 2)]) =
        some (.statefulSet ⟨some 5, none, some ⟨some 5, some 1, some 2⟩⟩) := rfl
  have hready : isReady (.statefulSet ⟨some 5, none, some ⟨some 5, some 1, some 2⟩⟩) = true := by
    decide
  obtain ⟨-, -, hnew⟩ := (complete_iff_reached hread).1.1 hready
  refine ⟨_, hread, hready, ?_⟩
  rw [(figures_ofJson? hread).2]
  exact hnew.resolve_left WorkloadKind.noConfusion

/-- A rollout to all nodes passes for complete on a report about an earlier generation. -/
theorem complete_before_it_begins :
    ¬ ∀ k v r, ofJson? k v = some r → r.isReady = true → ¬ (figuresIn k v).Overdue := by
  intro h
  refine h .daemonSet (reporting .daemonSet [("desiredNumberScheduled", .whole 3),
    ("numberReady", .whole 3), ("observedGeneration", .whole 1),
    ("updatedNumberScheduled", .whole 3)]) _ rfl (by decide) ⟨5, 1, rfl, rfl, by decide⟩

end Rollout

end ReleaseOperator
