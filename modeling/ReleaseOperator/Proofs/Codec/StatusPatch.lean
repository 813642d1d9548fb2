import ReleaseOperator.Json.Patch
import ReleaseOperator.Proofs.Codec.Resources
import ReleaseOperator.Proofs.Values.Layers

/-!
# A status written as a merge patch

A merge patch leaves what it does not name as it was, so it is not clear that it replaces a status
as a whole. It does so for two reasons. All that is recorded of a resource sets something and unsets
nothing, so a field that a later status lacks is one that the stored status lacks, and reads as
missing still. And what a field has is never an object, so it takes the place of what was there; the
null values of a status stand in its list of conditions, which is replaced as one.
-/

namespace ReleaseOperator

namespace Json

variable {α : Type} {key k : String} {v w target change : Json} {read : Json → Option α}
  {write : α → Json} {old : Option Json} {fields changes : List (String × Json)}

/-! ### Patches field by field -/

/-- What a key has after a change of it, if there is any. -/
def changed (old : Option Json) : Option Json → Option Json
  | none => old
  | some change => if change.isNull then none else some (patch (old.getD null) change)

@[simp] theorem changed_none (old : Option Json) : changed old none = old := rfl

theorem patch_of_not_object (h : change.isObject = false) : patch target change = change := by
  cases change <;> simp_all [patch, isObject]

theorem changed_of_not_object (hnull : change ≠ null) (h : change.isObject = false) :
    changed old (some change) = some change := by
  have hisNull : change.isNull = false := by
    cases change <;> simp_all [isNull]
  simp [changed, hisNull, patch_of_not_object h]

theorem changed_ofFields (fields : List (String × Json)) :
    changed old (some (ofFields fields)) = some (patch (old.getD null) (ofFields fields)) := rfl

theorem lookup_remove (key k : String) (fields : List (String × Json)) :
    lookup key (remove k fields) = if key = k then none else lookup key fields := by
  induction fields with
  | nil => simp [remove]
  | cons f rest ih =>
      obtain ⟨l, v⟩ := f
      unfold remove at ih ⊢
      by_cases hl : l = k
      · by_cases hkey : key = k <;> simp_all
      · by_cases hkey : key = l <;> simp_all

theorem lookup_patchFields (h : Rising changes) (target : List (String × Json)) :
    lookup key (patchFields target changes) =
      changed (lookup key target) (lookup key changes) := by
  induction changes generalizing target with
  | nil => simp [patchFields]
  | cons f rest ih =>
      obtain ⟨k, change⟩ := f
      obtain ⟨hlt, hrest⟩ := rising_cons_iff.1 h
      rw [patchFields, ih hrest, lookup_cons]
      by_cases hkey : key = k
      · -- No later change has this key, so what the first one leaves there stays.
        subst hkey
        rw [lookup_eq_none hlt, if_pos rfl, changed_none, changed]
        split
        · simp [lookup_remove]
        · simp [lookup_put]
      · rw [if_neg hkey]
        split
        · simp [lookup_remove, hkey]
        · simp [lookup_put, hkey]

theorem lookup_fieldsOf (key : String) (v : Json) : lookup key (fieldsOf v) = v.get? key := by
  cases v <;> rfl

/-- A patch changes what its fields name. -/
@[simp] theorem get?_patch_ofFields (v : Json) (fields : List (String × Json)) :
    (patch v (ofFields fields)).get? key = changed (v.get? key) (lookup key fields.reverse) := by
  rw [ofFields, patch, get?_object, lookup_patchFields (rising_foldl_put rising_nil),
    lookup_fieldsOf, lookup_foldl_put, lookup_nil, Option.or_none]

theorem isObject_patch_ofFields (v : Json) (fields : List (String × Json)) :
    (patch v (ofFields fields)).isObject = true := by
  rw [ofFields, patch]
  rfl

theorem record?_of_isObject (h : v.isObject = true) (names : List String) :
    v.record? names = some fun key => v.get? key := by
  obtain ⟨fields, rfl⟩ := eq_object_of_isObject h
  rfl

theorem fields?_of_isObject (h : v.isObject = true) : v.fields? = some fun key => v.get? key := by
  obtain ⟨fields, rfl⟩ := eq_object_of_isObject h
  rfl

/-- An optional field without a value is missing or null. -/
theorem getD_of_optional (h : optional read old = some none) : old.getD null = null := by
  rcases old with _ | v
  · rfl
  · cases v <;> simp_all [optional]

/-- An optional field is read back from a patch when it is not written as an object, and when it was
missing before where it is not written. -/
theorem optional_changed {o : Option α}
    (hwrite : ∀ a, o = some a →
      write a ≠ null ∧ (write a).isObject = false ∧ read (write a) = some a)
    (hold : o = none → optional read old = some none) :
    optional read (changed old (o.map write)) = some o := by
  cases o with
  | none => exact hold rfl
  | some a =>
      obtain ⟨hnull, hobject, hread⟩ := hwrite a rfl
      rw [Option.map_some, changed_of_not_object hnull hobject, optional_some hnull, hread,
        Option.map_some]

end Json

/-! ### What is recorded -/

namespace Status

variable {s t u : Status} {kind : Kind} {v : Json}

/-- All that the first of two statuses sets is set in the second. -/
structure Within (s t : Status) : Prop where
  phase : t.phase = none → s.phase = none
  observed : t.observedGeneration = none → s.observedGeneration = none
  version : t.lastVersion = none → s.lastVersion = none
  generation : t.lastGeneration = none → s.lastGeneration = none

theorem Within.refl (s : Status) : s.Within s :=
  ⟨id, id, id, id⟩

theorem Within.trans (h : s.Within t) (h' : t.Within u) : s.Within u :=
  ⟨h.phase ∘ h'.phase, h.observed ∘ h'.observed, h.version ∘ h'.version,
    h.generation ∘ h'.generation⟩

/-- All that a value sets, read as a status of a kind, is set in a status. -/
structure Covers (kind : Kind) (t : Status) (v : Json) : Prop where
  phase : t.phase = none → Json.optional Phase.ofJson? (v.get? "state") = some none
  observed : t.observedGeneration = none →
    Json.optional Json.int64? (v.get? "observedGeneration") = some none
  version : kind = .module → t.lastVersion = none →
    Json.optional Json.text? (v.get? "lastSuccessfulVersion") = some none
  generation : kind = .module → t.lastGeneration = none →
    Json.optional Json.int64? (v.get? "lastSuccessfulGeneration") = some none

theorem covers_of_not_object (h : v.isObject = false) : Covers kind t v := by
  constructor <;> simp [Json.get?_of_not_object h, Json.optional]

theorem covers_of_ofJson? (h : ofJson? kind v = some s) (hwithin : s.Within t) :
    Covers kind t v := by
  by_cases hobject : v.isObject = true
  · rw [ofJson?, Json.record?_of_isObject hobject, Option.bind_eq_bind, Option.bind_some] at h
    obtain ⟨phase, hphase, h⟩ := Option.bind_eq_some_iff.1 h
    obtain ⟨conditions, -, h⟩ := Option.bind_eq_some_iff.1 h
    obtain ⟨observed, hobserved, h⟩ := Option.bind_eq_some_iff.1 h
    cases kind with
    | module =>
        obtain ⟨version, hversion, h⟩ := Option.bind_eq_some_iff.1 h
        obtain ⟨generation, hgeneration, h⟩ := Option.bind_eq_some_iff.1 h
        obtain rfl := Option.some.inj h
        refine ⟨fun ht => ?_, fun ht => ?_, fun _ ht => ?_, fun _ ht => ?_⟩
        · exact hphase.trans (congrArg some (hwithin.phase ht))
        · exact hobserved.trans (congrArg some (hwithin.observed ht))
        · exact hversion.trans (congrArg some (hwithin.version ht))
        · exact hgeneration.trans (congrArg some (hwithin.generation ht))
    | action =>
        obtain rfl := Option.some.inj h
        refine ⟨fun ht => ?_, fun ht => ?_, Kind.noConfusion, Kind.noConfusion⟩
        · exact hphase.trans (congrArg some (hwithin.phase ht))
        · exact hobserved.trans (congrArg some (hwithin.observed ht))
  · exact covers_of_not_object (by simpa using hobject)

/-- A status that covers a value is read back when it is laid over it. -/
theorem ofJson?_patch (hcovers : Covers kind t v) (h : t.Legible kind) :
    ofJson? kind (v.patch t.toJson) = some t := by
  have hphase : Json.optional Phase.ofJson?
      (Json.changed (v.get? "state") (t.phase.map fun p => .text p.name)) = some t.phase :=
    Json.optional_changed (fun p _ => ⟨Json.noConfusion, rfl, Phase.ofName?_name p⟩) hcovers.phase
  have hconditions : Json.list? Condition.ofJson? (.array (t.conditions.map Condition.toJson)) =
      some t.conditions :=
    Json.list?_map fun c _ => Condition.ofJson?_toJson c
  have hwritten : Json.changed (v.get? "conditions")
      (some (.array (t.conditions.map Condition.toJson))) =
        some (.array (t.conditions.map Condition.toJson)) :=
    Json.changed_of_not_object Json.noConfusion rfl
  have hobserved : Json.optional Json.int64? (Json.changed (v.get? "observedGeneration")
      (t.observedGeneration.map .whole)) = some t.observedGeneration :=
    Json.optional_changed (fun g hg => ⟨Json.noConfusion, rfl, h.observed g hg⟩) hcovers.observed
  have hobject : (v.patch t.toJson).isObject = true := Json.isObject_patch_ofFields v _
  rw [ofJson?, Json.record?_of_isObject hobject, toJson]
  cases kind with
  | module =>
      have hversion : Json.optional Json.text? (Json.changed (v.get? "lastSuccessfulVersion")
          (t.lastVersion.map .text)) = some t.lastVersion :=
        Json.optional_changed (fun w _ => ⟨Json.noConfusion, rfl, rfl⟩) (hcovers.version rfl)
      have hgeneration : Json.optional Json.int64? (Json.changed
          (v.get? "lastSuccessfulGeneration") (t.lastGeneration.map .whole)) =
            some t.lastGeneration :=
        Json.optional_changed (fun g hg => ⟨Json.noConfusion, rfl, h.generation g hg⟩)
          (hcovers.generation rfl)
      simp [hphase, hwritten, hconditions, hobserved, hversion, hgeneration]
  | action =>
      obtain ⟨hversion, hgeneration⟩ := h.success rfl
      obtain ⟨phase, conditions, observed, version, generation⟩ := t
      cases hversion
      cases hgeneration
      simp [hphase, hwritten, hconditions, hobserved]

end Status

namespace Metadata

variable {m : Metadata} {v : Json}

/-- Of the metadata a patch changes nothing but the version that was read. -/
theorem ofJson?_patch (h : ofJson? v = some m) (version : Option String) :
    ofJson? (v.patch (.ofFields [("resourceVersion", .ofText? version)])) =
      some { m with resourceVersion := version } := by
  obtain ⟨fields, rfl⟩ : ∃ fields, v = .object fields := by
    obtain ⟨f, hf, -⟩ := Option.bind_eq_some_iff.1 h
    cases v <;> simp_all [Json.fields?]
  have hversion : Json.optional Json.text? (Json.changed (Json.lookup "resourceVersion" fields)
      (some (.ofText? version))) = some version := by
    cases version with
    | none => rfl
    | some s => rfl
  have hfields : (Json.patch (.object fields)
      (.ofFields [("resourceVersion", .ofText? version)])).fields? =
        some fun key => Json.changed (Json.lookup key fields)
          (if key = "resourceVersion" then some (.ofText? version) else none) := by
    rw [Json.fields?_of_isObject (Json.isObject_patch_ofFields _ _)]
    simp
  simp only [ofJson?, Json.fields?, Option.bind_eq_bind, Option.bind_some] at h
  obtain ⟨name, hname, h⟩ := Option.bind_eq_some_iff.1 h
  obtain ⟨generateName, hgenerate, h⟩ := Option.bind_eq_some_iff.1 h
  obtain ⟨ns, hns, h⟩ := Option.bind_eq_some_iff.1 h
  obtain ⟨uid, huid, h⟩ := Option.bind_eq_some_iff.1 h
  obtain ⟨generation, hgeneration, h⟩ := Option.bind_eq_some_iff.1 h
  obtain ⟨old, -, h⟩ := Option.bind_eq_some_iff.1 h
  obtain ⟨finalizers, hfinalizers, h⟩ := Option.bind_eq_some_iff.1 h
  obtain ⟨labels, hlabels, h⟩ := Option.bind_eq_some_iff.1 h
  obtain ⟨annotations, hannotations, h⟩ := Option.bind_eq_some_iff.1 h
  obtain ⟨created, hcreated, h⟩ := Option.bind_eq_some_iff.1 h
  obtain ⟨deleted, hdeleted, h⟩ := Option.bind_eq_some_iff.1 h
  obtain rfl := Option.some.inj h
  simp [ofJson?, hfields, hversion, hname, hgenerate, hns, huid, hgeneration, hfinalizers,
    hlabels, hannotations, hcreated, hdeleted]

end Metadata

namespace Resource

open Relation

variable {r w u : Resource} {kind : Kind} {v : Json}

/-- Something is recorded in the status of a resource. A generation has 64 bits. -/
inductive Recorded (r : Resource) : Resource → Prop
  | ready (reason : Reason) (message time : String) :
      Recorded r (r.recordReady reason message time)
  | phase (p : Phase) : Recorded r (r.setPhase p)
  | observed {g : Int} (hg : Json.int64? (.whole g) = some g) :
      Recorded r (r.setObservedGeneration g)
  | success (version : String) {g : Int} (hg : Json.int64? (.whole g) = some g) :
      Recorded r (r.recordSuccess version g)

/-- What is recorded stays set, and it can be read back. -/
structure Advanced (r w : Resource) : Prop where
  kind : w.kind = r.kind
  kept : w.status = none → r.status = none
  within : r.statusD.Within w.statusD
  legible : r.statusD.Legible r.kind → w.statusD.Legible w.kind

theorem Advanced.refl (r : Resource) : r.Advanced r :=
  ⟨rfl, id, .refl _, id⟩

theorem Advanced.trans (h : r.Advanced w) (h' : w.Advanced u) : r.Advanced u :=
  ⟨h'.kind.trans h.kind, h.kept ∘ h'.kept, h.within.trans h'.within, h'.legible ∘ h.legible⟩

theorem advanced_of_status {t : Status} (hwithin : r.statusD.Within t)
    (hlegible : r.statusD.Legible r.kind → t.Legible r.kind) :
    r.Advanced { r with status := some t } :=
  ⟨rfl, fun hnone => absurd hnone (by simp), hwithin, hlegible⟩

theorem advanced_of_recorded (h : r.Recorded w) : r.Advanced w := by
  cases h with
  | ready reason message time =>
      apply advanced_of_status
      · exact ⟨fun hnone => absurd hnone (by simp), id, id, id⟩
      · exact fun h => ⟨h.observed, h.generation, h.success⟩
  | phase p =>
      apply advanced_of_status
      · exact ⟨fun hnone => absurd hnone (by simp), id, id, id⟩
      · exact fun h => ⟨h.observed, h.generation, h.success⟩
  | observed hg =>
      apply advanced_of_status
      · exact ⟨id, fun hnone => absurd hnone (by simp), id, id⟩
      · exact fun h => ⟨fun g' hg' => Option.some.inj hg' ▸ hg, h.generation, h.success⟩
  | success version hg =>
      unfold recordSuccess
      split
      · rename_i hkind
        apply advanced_of_status
        · exact ⟨id, id, fun hnone => absurd hnone (by simp), fun hnone => absurd hnone (by simp)⟩
        · refine fun h => ⟨h.observed, fun g' hg' => Option.some.inj hg' ▸ hg, fun haction => ?_⟩
          simp [hkind] at haction
      · exact .refl r

theorem advanced_of_steps (h : ReflTransGen Recorded r w) : r.Advanced w := by
  induction h with
  | refl => exact .refl r
  | tail _ hstep ih => exact ih.trans (advanced_of_recorded hstep)

/-- The request that writes the status of a resource carries a merge patch. -/
theorem body_storeRequest_updateStatus {q : Cluster.Request}
    (h : Cluster.storeRequest (.updateStatus r) = .ok q) :
    q.body = .mergePatch (Cluster.statusPatch r) :=
  Cluster.body_of_about? h

/-- A patch of the status changes the status and the metadata. -/
theorem get?_statusPatch (v : Json) (w : Resource) (key : String) :
    (v.patch (Cluster.statusPatch w)).get? key = Json.changed (v.get? key)
      (if key = "status" then some ((w.status.map Status.toJson).getD .null)
      else if key = "metadata" then
        some (.ofFields [("resourceVersion", .ofText? w.metadata.resourceVersion)])
      else none) := by
  simp [Cluster.statusPatch]

/-- What an object that a resource was read from has for each part of it. -/
structure ReadFrom (kind : Kind) (v : Json) (r : Resource) : Prop where
  metadata : ∃ m, v.get? "metadata" = some m ∧ Metadata.ofJson? m = some r.metadata
  spec : Json.required (Spec.ofJson? kind) (v.get? "spec") = some r.spec
  status : Json.optional (Status.ofJson? kind) (v.get? "status") = some r.status

theorem readFrom_of_ofJson? (hobject : v.isObject = true) (h : ofJson? kind v = some r) :
    ReadFrom kind v r := by
  rw [ofJson?, Json.record?_of_isObject hobject, Option.bind_eq_bind, Option.bind_some] at h
  obtain ⟨metadata, hmetadata, h⟩ := Option.bind_eq_some_iff.1 h
  obtain ⟨spec, hspec, h⟩ := Option.bind_eq_some_iff.1 h
  obtain ⟨status, hstatus, h⟩ := Option.bind_eq_some_iff.1 h
  obtain rfl := Option.some.inj h
  exact ⟨Option.bind_eq_some_iff.1 hmetadata, hspec, hstatus⟩

theorem ReadFrom.ofJson? (hobject : v.isObject = true) (h : ReadFrom kind v r) :
    ofJson? kind v = some r := by
  obtain ⟨⟨m, hm, hmetadata⟩, hspec, hstatus⟩ := h
  simp [Resource.ofJson?, Json.record?_of_isObject hobject, hm, hmetadata, hspec, hstatus]

theorem legible_statusD (h : r.Legible kind) : r.statusD.Legible kind := by
  unfold statusD
  cases hstatus : r.status with
  | none => constructor <;> simp [Status.empty]
  | some s => exact h.status s hstatus

/-- What is recorded covers the status that the object has, if it has any. -/
theorem covers_stored (hread : ReadFrom kind v r) (h : r.statusD.Within w.statusD) :
    w.statusD.Covers kind ((v.get? "status").getD .null) := by
  have hstatus := hread.status
  cases hs : r.status with
  | none =>
      rw [hs] at hstatus
      apply Status.covers_of_not_object
      rw [Json.getD_of_optional hstatus]
      rfl
  | some s =>
      rw [hs] at hstatus
      obtain ⟨u, -, hu, hs'⟩ := Json.read_of_optional hstatus
      rw [statusD, hs, Option.getD_some] at h
      rw [hu, Option.getD_some]
      exact Status.covers_of_ofJson? hs' h

/-- What was recorded of a resource since it was read takes the place of its status, whatever the
stored object has beside what can be read. -/
theorem optional_status_patch (hread : ReadFrom kind v r) (hlegible : r.Legible kind)
    (h : r.Advanced w) : Json.optional (Status.ofJson? kind) (Json.changed (v.get? "status")
      (some ((w.status.map Status.toJson).getD .null))) = some w.status := by
  cases hstatus : w.status with
  | none => rfl
  | some t =>
      have ht : w.statusD = t := by simp [statusD, hstatus]
      have hcovers := covers_stored hread h.within
      have htlegible := h.legible (hlegible.asked ▸ legible_statusD hlegible)
      rw [ht] at hcovers htlegible
      rw [h.kind, hlegible.asked] at htlegible
      have hpatched := Status.ofJson?_patch hcovers htlegible
      rw [Option.map_some, Option.getD_some, Status.toJson, Json.changed_ofFields,
        Json.optional_some Json.noConfusion, ← Status.toJson, hpatched, Option.map_some]

/-- The request that writes the status of a resource replaces the whole status of the stored object
and nothing else. Let a resource be read from an object, and let something be recorded of it, any
number of times. When the body of the request is applied as a merge patch to the object, there is
still an object, the status that is read from it is the one that was recorded, and the rest of it is
what it was but for the version in its metadata. -/
theorem status_patch_replaces (hobject : v.isObject = true) (hread : ofJson? kind v = some r)
    (hrecorded : ReflTransGen Recorded r w) :
    ∀ u q, u.status = w.status → Cluster.storeRequest (.updateStatus u) = .ok q →
      ∃ body, q.body = .mergePatch body ∧ (v.patch body).isObject = true ∧
        ofJson? kind (v.patch body) = some
          { r with
            metadata := { r.metadata with resourceVersion := u.metadata.resourceVersion }
            status := w.status } ∧
        (∀ key, key ≠ "metadata" → key ≠ "status" → (v.patch body).get? key = v.get? key) ∧
        ∀ key, key ≠ "resourceVersion" →
          (v.patch body).at? ["metadata", key] = v.at? ["metadata", key] := by
  intro u q hstatus hrequest
  have hparts := readFrom_of_ofJson? hobject hread
  have hpatched : (v.patch (Cluster.statusPatch u)).isObject = true :=
    Json.isObject_patch_ofFields v _
  obtain ⟨m, hm, hmetadata⟩ := hparts.metadata
  have hnew : (v.patch (Cluster.statusPatch u)).get? "metadata" =
      some (m.patch (.ofFields [("resourceVersion", .ofText? u.metadata.resourceVersion)])) := by
    simp [get?_statusPatch, hm, Json.changed_ofFields]
  refine ⟨_, body_storeRequest_updateStatus hrequest, hpatched, ?_, ?_, ?_⟩
  · refine ReadFrom.ofJson? hpatched ⟨⟨_, hnew, Metadata.ofJson?_patch hmetadata _⟩, ?_, ?_⟩
    · simpa [get?_statusPatch] using hparts.spec
    · rw [get?_statusPatch, if_pos rfl, hstatus]
      exact optional_status_patch hparts (legible_of_ofJson? hread) (advanced_of_steps hrecorded)
  · intro key hmetadata hstatus
    rw [get?_statusPatch, if_neg hstatus, if_neg hmetadata, Json.changed_none]
  · intro key hkey
    simp [Json.at?_cons, hnew, hm, hkey]

/-- A resource with a finished installation recorded. -/
def installed (r : Resource) : Resource :=
  ((r.recordReady .installSucceeded "installed" "09:00").setObservedGeneration 1).recordSuccess
    "0.1.0" 1

theorem steps_installed (r : Resource) : ReflTransGen Recorded r r.installed :=
  ((ReflTransGen.single (.ready .installSucceeded "installed" "09:00")).tail
    (.observed rfl)).tail (.success "0.1.0" rfl)

/-- An installation that is recorded of the module with null and unknown fields is what is read. -/
theorem status_patch_replaces_sparseModule :
    ∃ r q body, ofJson? .module sparseModule = some r ∧
      Cluster.storeRequest (.updateStatus r.installed) = .ok q ∧ q.body = .mergePatch body ∧
      (ofJson? .module (sparseModule.patch body)).map Resource.status = some r.installed.status ∧
      (sparseModule.patch body).get? "spec" = sparseModule.get? "spec" := by
  obtain ⟨r, q, hread, hrequest⟩ : ∃ r q, ofJson? .module sparseModule = some r ∧
      Cluster.storeRequest (.updateStatus r.installed) = .ok q := ⟨_, _, rfl, rfl⟩
  obtain ⟨body, hbody, -, hpatched, hothers, -⟩ :=
    status_patch_replaces rfl hread (steps_installed r) r.installed q rfl hrequest
  refine ⟨r, q, body, hread, hrequest, hbody, ?_, hothers "spec" (by decide) (by decide)⟩
  rw [hpatched, Option.map_some]

end Resource

end ReleaseOperator
