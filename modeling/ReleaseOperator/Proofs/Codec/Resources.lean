import ReleaseOperator.Cluster.Client
import ReleaseOperator.Proofs.Codec.Records
import ReleaseOperator.Proofs.Contention.Revisions

/-!
# Writing a resource back

What was read of a resource can be written and read again without loss. Most of its parts come back
whatever they are. A few of them only do when they are legible: values given in place must not be
the null value, a generation must fit its width, and an action must have no last success. A reader
gives nothing else, so a specification and a status that were read are the same after any number of
rounds. They are also the same for a store, so a resource that is read and written back with another
finalizer takes no new generation.
-/

namespace ReleaseOperator

/-! ### Charts, repositories and overrides -/

theorem Chart.ofJson?_toJson (c : Chart) : ofJson? c.toJson = some c := by
  simp [ofJson?, toJson]

theorem Repository.ofJson?_toJson (r : Repository) : ofJson? r.toJson = some r := by
  have hsecret : Json.optional Json.text? (r.credentialsSecret.map .text) =
      some r.credentialsSecret :=
    Json.optional_map fun s _ => ⟨Json.noConfusion, rfl⟩
  simp [ofJson?, toJson, hsecret]

theorem KeyRef.ofJson?_toJson (k : KeyRef) : ofJson? k.toJson = some k := by
  have hoptional : Json.optional Json.bool? (k.optional.map .bool) = some k.optional :=
    Json.optional_map fun b _ => ⟨Json.noConfusion, rfl⟩
  simp [ofJson?, toJson, hoptional]

theorem KeyRef.optional_toJson (o : Option KeyRef) :
    Json.optional ofJson? (o.map toJson) = some o :=
  Json.optional_map fun k _ => ⟨Json.noConfusion, ofJson?_toJson k⟩

namespace ValuesSource

variable {s : ValuesSource} {ss : List ValuesSource} {v : Json}

/-- An override that can be told from one without values in place. -/
def Legible (s : ValuesSource) : Prop :=
  s.values ≠ some .null

theorem ofJson?_toJson (h : s.Legible) : ofJson? s.toJson = some s := by
  have hvalues : Json.optional some s.values = some s.values := by
    have hmap : Json.optional some (s.values.map id) = some s.values := by
      refine Json.optional_map fun w hw => ⟨?_, rfl⟩
      rintro rfl
      exact h hw
    rwa [Option.map_id_fun] at hmap
  simp [ofJson?, toJson, KeyRef.optional_toJson, hvalues]

theorem legible_of_ofJson? (h : ofJson? v = some s) : s.Legible := by
  obtain ⟨f, -, h⟩ := Option.bind_eq_some_iff.1 h
  obtain ⟨configMap, -, h⟩ := Option.bind_eq_some_iff.1 h
  obtain ⟨secret, -, h⟩ := Option.bind_eq_some_iff.1 h
  obtain ⟨values, hvalues, h⟩ := Option.bind_eq_some_iff.1 h
  obtain rfl := Option.some.inj h
  rintro rfl
  obtain ⟨w, hw, -, heq⟩ := Json.read_of_optional hvalues
  exact hw (Option.some.inj heq)

theorem list?_listToJson (h : ∀ s ∈ ss, s.Legible) :
    Json.list? ofJson? (listToJson ss) = some ss :=
  Json.list?_map fun s hs => ofJson?_toJson (h s hs)

theorem legible_of_defaulted {field : Option Json}
    (h : Json.defaulted [] (Json.list? ofJson?) field = some ss) : ∀ s ∈ ss, s.Legible := by
  cases field with
  | none =>
      obtain rfl := Option.some.inj h
      exact fun s hs => absurd hs List.not_mem_nil
  | some v =>
      intro s hs
      obtain ⟨w, hw⟩ := Json.read_of_list? h s hs
      exact legible_of_ofJson? hw

end ValuesSource

namespace ReleaseSpec

variable {r : ReleaseSpec} {v : Json}

theorem ofJson?_toJson (h : ∀ s ∈ r.overrides, s.Legible) : ofJson? r.toJson = some r := by
  simp [ofJson?, toJson, Chart.ofJson?_toJson, Repository.ofJson?_toJson,
    ValuesSource.list?_listToJson h]

theorem legible_of_ofJson? (h : ofJson? v = some r) : ∀ s ∈ r.overrides, s.Legible := by
  obtain ⟨f, -, h⟩ := Option.bind_eq_some_iff.1 h
  obtain ⟨name, -, h⟩ := Option.bind_eq_some_iff.1 h
  obtain ⟨ns, -, h⟩ := Option.bind_eq_some_iff.1 h
  obtain ⟨chart, -, h⟩ := Option.bind_eq_some_iff.1 h
  obtain ⟨repo, -, h⟩ := Option.bind_eq_some_iff.1 h
  obtain ⟨overrides, hoverrides, h⟩ := Option.bind_eq_some_iff.1 h
  obtain rfl := Option.some.inj h
  exact ValuesSource.legible_of_defaulted hoverrides

end ReleaseSpec

/-! ### Specifications -/

theorem ActionVerb.ofName?_name (a : ActionVerb) : ofName? a.name = some a := by
  cases a <;> decide

namespace Spec

variable {s : Spec} {kind : Kind} {v : Json}

/-- A specification whose overrides are legible. -/
def Legible : Spec → Prop
  | module s => ∀ o ∈ s.overrides, o.Legible
  | action s => ∀ o ∈ s.release.overrides, o.Legible

theorem ofJson?_toJson (h : s.Legible) : ofJson? s.kind s.toJson = some s := by
  cases s with
  | module s =>
      simp [ofJson?, toJson, Spec.kind, ModuleSpec.ofJson?, ModuleSpec.toJson,
        ValuesSource.list?_listToJson h]
  | action s =>
      simp [ofJson?, toJson, Spec.kind, ActionSpec.ofJson?, ActionSpec.toJson,
        ActionSpec.installer?, Json.choice?, ActionVerb.ofName?_name, ReleaseSpec.ofJson?_toJson h]

theorem legible_of_module {s : ModuleSpec} (h : ModuleSpec.ofJson? v = some s) :
    (module s).Legible := by
  obtain ⟨f, -, h⟩ := Option.bind_eq_some_iff.1 h
  obtain ⟨className, -, h⟩ := Option.bind_eq_some_iff.1 h
  obtain ⟨version, -, h⟩ := Option.bind_eq_some_iff.1 h
  obtain ⟨target, -, h⟩ := Option.bind_eq_some_iff.1 h
  obtain ⟨overrides, hoverrides, h⟩ := Option.bind_eq_some_iff.1 h
  obtain rfl := Option.some.inj h
  exact ValuesSource.legible_of_defaulted hoverrides

theorem legible_of_action {s : ActionSpec} (h : ActionSpec.ofJson? v = some s) :
    (action s).Legible := by
  obtain ⟨f, -, h⟩ := Option.bind_eq_some_iff.1 h
  obtain ⟨className, -, h⟩ := Option.bind_eq_some_iff.1 h
  obtain ⟨verb, -, h⟩ := Option.bind_eq_some_iff.1 h
  obtain ⟨version, -, h⟩ := Option.bind_eq_some_iff.1 h
  obtain ⟨release, hrelease, h⟩ := Option.bind_eq_some_iff.1 h
  obtain rfl := Option.some.inj h
  obtain ⟨w, -, hrelease⟩ := Option.bind_eq_some_iff.1 hrelease
  obtain ⟨g, -, hrelease⟩ := Option.bind_eq_some_iff.1 hrelease
  obtain ⟨u, -, hrelease⟩ := Option.bind_eq_some_iff.1 hrelease
  exact ReleaseSpec.legible_of_ofJson? hrelease

theorem legible_of_ofJson? (h : ofJson? kind v = some s) : s.kind = kind ∧ s.Legible := by
  cases kind with
  | module =>
      obtain ⟨m, hm, rfl⟩ := Option.map_eq_some_iff.1 h
      exact ⟨rfl, legible_of_module hm⟩
  | action =>
      obtain ⟨a, ha, rfl⟩ := Option.map_eq_some_iff.1 h
      exact ⟨rfl, legible_of_action ha⟩

end Spec

/-! ### Statuses -/

/-- A condition is read back with the time that it has or lacks. -/
theorem Condition.ofJson?_toJson (c : Condition) : ofJson? c.toJson = some c := by
  simp [ofJson?, toJson, Json.choice?, Verdict.ofName?_name]

namespace Status

variable {s : Status} {kind : Kind} {v : Json}

/-- A status whose generations fit their width, with a last success only where one is kept. -/
structure Legible (kind : Kind) (s : Status) : Prop where
  observed : ∀ g, s.observedGeneration = some g → Json.int64? (.whole g) = some g
  generation : ∀ g, s.lastGeneration = some g → Json.int64? (.whole g) = some g
  success : kind = .action → s.lastVersion = none ∧ s.lastGeneration = none

theorem ofJson?_toJson (h : s.Legible kind) : ofJson? kind s.toJson = some s := by
  have hphase : Json.optional Phase.ofJson? (s.phase.map fun p => .text p.name) = some s.phase :=
    Json.optional_map fun p _ => ⟨Json.noConfusion, Phase.ofName?_name p⟩
  have hconditions : Json.list? Condition.ofJson? (.array (s.conditions.map Condition.toJson)) =
      some s.conditions :=
    Json.list?_map fun c _ => Condition.ofJson?_toJson c
  have hobserved : Json.optional Json.int64? (s.observedGeneration.map .whole) =
      some s.observedGeneration :=
    Json.optional_map fun g hg => ⟨Json.noConfusion, h.observed g hg⟩
  have hgeneration : Json.optional Json.int64? (s.lastGeneration.map .whole) =
      some s.lastGeneration :=
    Json.optional_map fun g hg => ⟨Json.noConfusion, h.generation g hg⟩
  have hversion : Json.optional Json.text? (s.lastVersion.map .text) = some s.lastVersion :=
    Json.optional_map fun w _ => ⟨Json.noConfusion, rfl⟩
  cases kind with
  | module => simp [ofJson?, toJson, hphase, hconditions, hobserved, hgeneration, hversion]
  | action =>
      obtain ⟨hnoversion, hnogeneration⟩ := h.success rfl
      obtain ⟨phase, conditions, observed, version, generation⟩ := s
      cases hnoversion
      cases hnogeneration
      simp [ofJson?, toJson, hphase, hconditions, hobserved]

theorem int64?_of_optional {field : Option Json} {g : Int}
    (h : Json.optional Json.int64? field = some (some g)) : Json.int64? (.whole g) = some g := by
  obtain ⟨w, -, -, hw⟩ := Json.read_of_optional h
  exact Json.int64?_whole hw

theorem legible_of_ofJson? (h : ofJson? kind v = some s) : s.Legible kind := by
  obtain ⟨f, -, h⟩ := Option.bind_eq_some_iff.1 h
  obtain ⟨phase, -, h⟩ := Option.bind_eq_some_iff.1 h
  obtain ⟨conditions, -, h⟩ := Option.bind_eq_some_iff.1 h
  obtain ⟨observed, hobserved, h⟩ := Option.bind_eq_some_iff.1 h
  cases kind with
  | module =>
      obtain ⟨version, -, h⟩ := Option.bind_eq_some_iff.1 h
      obtain ⟨generation, hgeneration, h⟩ := Option.bind_eq_some_iff.1 h
      obtain rfl := Option.some.inj h
      refine ⟨?_, ?_, Kind.noConfusion⟩
      · rintro g rfl
        exact int64?_of_optional hobserved
      · rintro g rfl
        exact int64?_of_optional hgeneration
  | action =>
      obtain rfl := Option.some.inj h
      refine ⟨?_, fun g hg => absurd hg (by simp), fun _ => ⟨rfl, rfl⟩⟩
      rintro g rfl
      exact int64?_of_optional hobserved

end Status

/-! ### Resources -/

/-- A request about an object sends what it was given. -/
theorem Cluster.body_of_about? {method : Method} {c : Collection} {body : Body} {q : Request}
    {ns name part query : String}
    (h : Request.about? method c ns name part query body = .ok q) : q.body = body := by
  unfold Request.about? at h
  split at h
  · cases h
  · dsimp only at h
    split at h
    · obtain rfl := Except.ok.inj h
      rfl
    · cases h

namespace Resource

open InMemory

variable {r w : Resource} {kind : Kind} {v : Json}

/-- A resource of a kind of which each part is legible. -/
structure Legible (kind : Kind) (r : Resource) : Prop where
  asked : r.kind = kind
  spec : r.spec.Legible
  status : ∀ s, r.status = some s → s.Legible kind

/-- A resource that asks for the same and is as far, whatever its metadata says. -/
def SameContent (r w : Resource) : Prop :=
  w.spec = r.spec ∧ w.status = r.status

theorem sameContent_addFinalizer (r : Resource) : r.SameContent r.addFinalizer := by
  unfold addFinalizer
  split
  · exact ⟨rfl, rfl⟩
  · exact ⟨rfl, rfl⟩

theorem sameContent_removeFinalizer (r : Resource) : r.SameContent r.removeFinalizer :=
  ⟨rfl, rfl⟩

theorem legible_of_ofJson? (h : ofJson? kind v = some r) : r.Legible kind := by
  obtain ⟨f, -, h⟩ := Option.bind_eq_some_iff.1 h
  obtain ⟨metadata, -, h⟩ := Option.bind_eq_some_iff.1 h
  obtain ⟨spec, hspec, h⟩ := Option.bind_eq_some_iff.1 h
  obtain ⟨status, hstatus, h⟩ := Option.bind_eq_some_iff.1 h
  obtain rfl := Option.some.inj h
  obtain ⟨u, -, hspec⟩ := Option.bind_eq_some_iff.1 hspec
  obtain ⟨hkind, hlegible⟩ := Spec.legible_of_ofJson? hspec
  refine ⟨hkind, hlegible, ?_⟩
  rintro s rfl
  obtain ⟨u, -, -, hs⟩ := Json.read_of_optional hstatus
  exact Status.legible_of_ofJson? hs

/-- A legible resource is read back as far as its metadata is. -/
theorem ofJson?_toJson (h : r.Legible kind) :
    ofJson? kind r.toJson =
      (Metadata.ofJson? r.metadata.toJson).map fun m => ⟨m, r.spec, r.status⟩ := by
  have hspec : Spec.ofJson? kind r.spec.toJson = some r.spec := by
    rw [← h.asked]
    exact Spec.ofJson?_toJson h.spec
  have hstatus : Json.optional (Status.ofJson? kind) (r.status.map Status.toJson) =
      some r.status :=
    Json.optional_map fun s hs => ⟨Json.noConfusion, Status.ofJson?_toJson (h.status s hs)⟩
  rw [Option.map_eq_bind, Function.comp_def]
  simp [ofJson?, toJson, hspec, hstatus]

/-- The request that writes a resource as a whole carries it as it is. -/
theorem body_storeRequest_update {q : Cluster.Request}
    (h : Cluster.storeRequest (.update r) = .ok q) : q.body = .object r.toJson :=
  Cluster.body_of_about? h

/-- What a resource that was read asks for and how far it is come back when they are written and
read again, and are written in the same way the next time. So a resource that is written back with
other finalizers, or with any other metadata, is read with the specification and the status that it
was read with before, and a store sees no change in what it asks for. -/
theorem content_of_read (h : ofJson? kind v = some r) :
    Spec.ofJson? kind r.spec.toJson = some r.spec ∧
      (Spec.ofJson? kind r.spec.toJson).map Spec.toJson = some r.spec.toJson ∧
      (∀ s, r.status = some s → Status.ofJson? kind s.toJson = some s ∧
        (Status.ofJson? kind s.toJson).map Status.toJson = some s.toJson) ∧
      (∀ w, r.SameContent w →
        (∀ q, Cluster.storeRequest (.update w) = .ok q → q.body = .object w.toJson) ∧
          ofJson? kind w.toJson =
            (Metadata.ofJson? w.metadata.toJson).map (fun m => ⟨m, r.spec, r.status⟩) ∧
          Store.sameSpec w r = true ∧
          ∀ s : Store, s.current w = .ok r → ∃ new s', s.update w = (.ok new, s') ∧
            r.SameContent new ∧ new.generation = r.generation) ∧
      r.SameContent r.addFinalizer ∧ r.SameContent r.removeFinalizer := by
  have hlegible := legible_of_ofJson? h
  have hspec : Spec.ofJson? kind r.spec.toJson = some r.spec := by
    rw [← hlegible.asked]
    exact Spec.ofJson?_toJson hlegible.spec
  refine ⟨hspec, congrArg (Option.map Spec.toJson) hspec, fun s hs => ?_, ?_,
    sameContent_addFinalizer r, sameContent_removeFinalizer r⟩
  · have hstatus := Status.ofJson?_toJson (hlegible.status s hs)
    exact ⟨hstatus, congrArg (Option.map Status.toJson) hstatus⟩
  · rintro w ⟨hwspec, hwstatus⟩
    have hsame : Store.sameSpec w r = true := Store.sameSpec_of_spec_eq hwspec
    refine ⟨fun q hq => body_storeRequest_update hq, ?_, hsame, fun s hcurrent => ?_⟩
    · rw [← hwspec, ← hwstatus]
      exact ofJson?_toJson ⟨(congrArg Spec.kind hwspec).trans hlegible.asked,
        hwspec ▸ hlegible.spec, hwstatus ▸ hlegible.status⟩
    · refine ⟨s.merged r w, _, by rw [Store.update, hcurrent], ⟨hwspec, rfl⟩, ?_⟩
      rw [Store.generation_merged, hsame, if_pos rfl]

/-- A module as others may write it: null and missing fields, unknown ones, and values in place next
to a null reference. -/
def sparseModule : Json :=
  .object [
    ("metadata", .object [("labels", .null), ("name", .text "web")]),
    ("spec", .object [
      ("moduleName", .text "web-class"),
      ("overrides", .array [
        .object [("configMapRef", .null), ("values", .object [("note", .null), ("size", .whole 2)])],
        .object [("secretRef", .object [("key", .text "values"), ("name", .text "extra"),
          ("optional", .null)]), ("values", .null)]]),
      ("owner", .text "nobody")]),
    ("status", .object [
      ("conditions", .array [.object [("lastTransitionTime", .null), ("reason", .text "Odd"),
        ("status", .text "Unknown"), ("type", .text "Ready")]]),
      ("state", .null)])]

/-- It with the finalizer written into it is read with the same specification and status. -/
theorem content_of_read_sparseModule : ∃ r, ofJson? .module sparseModule = some r ∧
    Spec.ofJson? .module r.spec.toJson = some r.spec ∧
    (ofJson? .module r.addFinalizer.toJson).map (fun w => (w.spec, w.status)) =
      some (r.spec, r.status) := by
  have hread : ofJson? .module sparseModule = some ⟨{ Metadata.empty with name := some "web" },
      .module ⟨"web-class", "", "", [
        ⟨none, none, some (.object [("note", .null), ("size", .whole 2)])⟩,
        ⟨none, some ⟨"extra", "values", none⟩, none⟩]⟩,
      some ⟨none, [⟨"Ready", "Odd", .unknown, "", none⟩], none, none, none⟩⟩ := rfl
  obtain ⟨hspec, -, -, hwritten, hadd, -⟩ := content_of_read hread
  refine ⟨_, hread, hspec, ?_⟩
  rw [(hwritten _ hadd).2.1]
  rfl

end Resource

end ReleaseOperator
