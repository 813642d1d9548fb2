import ReleaseOperator.Proofs.Edits.Story

/-!
# Evidence in a story

What a stage of the work rests on has happened some time ago, and nothing has undone it
since. The evidence for a stage is an event of the story after which all events have kept
the work where it was: no edit, no other generation or object read, no release applied or
removed, and the work not begun afresh. A deletion rests on the release having been removed
and, from the wait on, on Helm having reported that it is not deployed. Bringing a release
about rests on the work having been done and, from the wait on, on Helm and the cluster having
reported the release as ready.
-/

namespace ReleaseOperator

/-- The name and the namespace of a release. -/
def Release.place (r : Release) : String × String := (r.name, r.namespaceName)

namespace Resource

/-- The name and the namespace of the release that a resource asks for; the defaults for
charts have no say in them. -/
def releasePlace (r : Resource) : String × String :=
  match r.spec with
  | .module s => (r.name, trimmedOr s.targetNamespace r.namespaceName)
  | .action s => (s.release.name, trimmedOr s.release.namespaceName r.namespaceName)

theorem place_release (r : Resource) (defaults : ChartDefaults) :
    (r.release defaults).place = r.releasePlace := by
  rcases r with ⟨metadata, s | s, status⟩
  · rfl
  · rfl

end Resource

/-- What the work for one generation of an object is about. -/
structure Aim where
  uid : Option String
  generation : Int
  place : String × String
  version : String

/-- What the work for a resource is about. -/
def Resource.aim (r : Resource) : Aim :=
  ⟨r.metadata.uid, r.generation, r.releasePlace, r.desiredVersion⟩

/-- A call fails: the store, the cluster or Helm answers with an error, or the class asks to
come back. -/
def Call.Fails : (c : Call) → c.Answer → Prop
  | .store (.get _ _ _), a => ∃ e, a = .error e
  | .store (.update _), a => ∃ e, a = .error e
  | .store (.updateStatus _), a => ∃ e, a = .error e
  | .cluster (.configMap _ _ _), a => ∃ e, a = .error e
  | .cluster (.secret _ _ _), a => ∃ e, a = .error e
  | .cluster (.workloadReady _), a => ∃ e, a = .error e
  | .helm (.upgradeOrInstall _), a => ∃ e, a = .error e
  | .helm (.uninstall _ _ _), a => ∃ e, a = .error e
  | .helm (.releaseInfo _ _), a => ∃ e, a = .error e
  | .helm (.values _ _), a => ∃ e, a = .error e
  | .helm (.manifest _ _), a => ∃ e, a = .error e
  | .helm (.chartVersion _ _), a => ∃ e, a = .error e
  | .hook _ _ _, o => o.requeue = true
  | _, _ => False

theorem not_error_ok {ε α : Type} {x : α} : ¬ ∃ e : ε, (.ok x : Except ε α) = .error e := by
  rintro ⟨_, ⟨⟩⟩

namespace Event

/-- Whether an event leaves the work where it was: the object is read in the same generation,
its release is neither applied nor removed, the work is not begun afresh, and nobody edits. -/
def Keeps (aim : Aim) : Event → Prop
  | .asked (.store (.get _ _ _)) (.ok none) => False
  | .asked (.store (.get _ _ _)) (.ok (some o)) =>
    o.metadata.uid = aim.uid ∧ o.generation = aim.generation
  | .asked (.helm (.upgradeOrInstall _)) _ => False
  | .asked (.helm (.uninstall _ _ _)) _ => False
  | .asked (.count (.transition label _)) _ => label ≠ Stage.checkNeeded.label
  | .edited => False
  | _ => True

/-- Helm has answered that there is no release at a place, or has removed it from there. -/
def Removes (place : String × String) : Event → Prop
  | .asked (.helm (.releaseInfo name ns)) (.ok none) => (name, ns) = place
  | .asked (.helm (.uninstall name ns dryRun)) (.ok _) => dryRun = false ∧ (name, ns) = place
  | _ => False

/-- Helm has answered that no release is deployed at a place. -/
def Undeployed (place : String × String) : Event → Prop
  | .asked (.helm (.releaseInfo name ns)) (.ok info) =>
    (name, ns) = place ∧ ∀ i, info = some i → i.status ≠ .deployed
  | _ => False

/-- The work has entered a stage. -/
def Enters (stage : Stage) : Event → Prop
  | .asked (.count (.transition label _)) _ => label = stage.label
  | _ => False

end Event

/-- A document speaks of a workload: it is of the group, the version and the kind, and it has
a name. Without a namespace of its own the workload lies in that of the release. -/
def Manifest.Names (documents : List Yaml.Value) (releaseNamespace : String) (w : Workload) :
    Prop :=
  ∃ document ∈ documents, ∃ header, header? document = .ok (some header) ∧
    header.apiVersion = "apps/v1" ∧ header.kind = w.kind.name ∧ header.name = w.name ∧
    w.name ≠ "" ∧
    w.namespaceName = (header.namespaceName.filter fun ns => !ns.isEmpty).getD releaseNamespace

/-- Every workload that a manifest of the release speaks of has been reported ready. -/
def WorkloadsReported (place : String × String) (events : List Event) : Prop :=
  ∃ manifest documents, .asked (.helm (.manifest place.1 place.2)) (.ok manifest) ∈ events ∧
    Yaml.readAll? manifest = .ok documents ∧
    ∀ w, Manifest.Names documents place.2 w →
      .asked (.cluster (.workloadReady w)) (.ok true) ∈ events

theorem WorkloadsReported.mono {place : String × String} {events events' : List Event}
    (h : WorkloadsReported place events) (hsub : events ⊆ events') :
    WorkloadsReported place events' := by
  obtain ⟨manifest, documents, hmanifest, hread, hready⟩ := h
  exact ⟨manifest, documents, hsub hmanifest, hread, fun w hw => hsub (hready w hw)⟩

/-- Helm has reported the release as deployed at the version asked for, and its workloads
have been reported ready. -/
structure ReportedReady (aim : Aim) (events : List Event) : Prop where
  deployed : ∃ info : ReleaseInfo,
    .asked (.helm (.releaseInfo aim.place.1 aim.place.2)) (.ok (some info)) ∈ events ∧
    info.status = .deployed ∧ (aim.version ≠ "" → Text.trim info.chartVersion = aim.version)
  workloads : WorkloadsReported aim.place events

theorem ReportedReady.mono {aim : Aim} {events events' : List Event}
    (h : ReportedReady aim events) (hsub : events ⊆ events') : ReportedReady aim events' := by
  obtain ⟨info, hinfo, hdeployed⟩ := h.deployed
  exact ⟨⟨info, hsub hinfo, hdeployed⟩, h.workloads.mono hsub⟩

namespace Story

/-- Something has happened, and all events since then have a property. -/
def Since (p : Event → Prop) (mark : Event → Story → Prop) (story : Story) : Prop :=
  ∃ recent e es, story = recent ++ e :: es ∧ (∀ x ∈ recent, p x) ∧ mark e es

variable {p : Event → Prop} {mark : Event → Story → Prop} {e : Event} {story : Story} {aim : Aim}

/-- What single events of a kind leave true, many of them leave true. -/
theorem append_of_cons {holds : Story → Prop}
    (hcons : ∀ e es, p e → holds es → holds (e :: es)) {recent : Story}
    (hrecent : ∀ x ∈ recent, p x) (h : holds story) : holds (recent ++ story) := by
  induction recent with
  | nil => exact h
  | cons e rest ih =>
      exact hcons e _ (hrecent e List.mem_cons_self)
        (ih fun x hx => hrecent x (List.mem_cons_of_mem e hx))

theorem since_of_mark (h : mark e story) : Since p mark (e :: story) :=
  ⟨[], e, story, rfl, fun _ hx => absurd hx List.not_mem_nil, h⟩

theorem Since.cons (he : p e) (h : Since p mark story) : Since p mark (e :: story) := by
  obtain ⟨recent, m, es, rfl, hrecent, hmark⟩ := h
  refine ⟨e :: recent, m, es, rfl, ?_, hmark⟩
  intro x hx
  rcases List.mem_cons.1 hx with rfl | hx
  · exact he
  · exact hrecent x hx

/-- The release of an aim was removed, or found to be gone. -/
def Removed (aim : Aim) : Story → Prop :=
  Since (Event.Keeps aim) fun e _ => e.Removes aim.place

/-- After the removal Helm has reported that the release is not deployed. -/
def Cleared (aim : Aim) : Story → Prop :=
  Since (Event.Keeps aim) fun e es => e.Undeployed aim.place ∧ Removed aim es

/-- The work for an aim was done. -/
def Worked (aim : Aim) : Story → Prop :=
  Since (Event.Keeps aim) fun e _ => e.Enters .awaitWork

/-- After the work was done the release was reported as ready. -/
def Proven (aim : Aim) (story : Story) : Prop :=
  ∃ after e before, story = after ++ e :: before ∧ (∀ x ∈ after, Event.Keeps aim x) ∧
    e.Enters .awaitWork ∧ ReportedReady aim after

theorem Proven.cons (he : e.Keeps aim) (h : Proven aim story) : Proven aim (e :: story) := by
  obtain ⟨after, m, before, rfl, hafter, hmark, hready⟩ := h
  refine ⟨e :: after, m, before, rfl, ?_, hmark, hready.mono (List.subset_cons_self _ _)⟩
  intro x hx
  rcases List.mem_cons.1 hx with rfl | hx
  · exact he
  · exact hafter x hx

/-- What is reported after the work is done makes it proven. -/
theorem Worked.proven {events : List Event} (h : Worked aim story)
    (hevents : ∀ x ∈ events, Event.Keeps aim x) (hready : ReportedReady aim events) :
    Proven aim (events ++ story) := by
  obtain ⟨recent, e, es, rfl, hrecent, hmark⟩ := h
  refine ⟨events ++ recent, e, es, (List.append_assoc _ _ _).symm, ?_, hmark,
    hready.mono (List.subset_append_left _ _)⟩
  intro x hx
  rcases List.mem_append.1 hx with hx | hx
  · exact hevents x hx
  · exact hrecent x hx

/-- Every call since the pass began went well. -/
def Smooth : Story → Prop
  | [] => True
  | .began :: _ => True
  | .edited :: es => Smooth es
  | .asked c a :: es => ¬ c.Fails a ∧ Smooth es

/-- What each stage of a deletion rests on. -/
def Withdrawn (aim : Aim) : Stage → Story → Prop
  | .awaitWork => Removed aim
  | .announcePostWork => Cleared aim
  | .postWork => Cleared aim
  | .complete => Cleared aim
  | .finish => Cleared aim
  | _ => fun _ => True

/-- What each stage of the bringing about of a release rests on. -/
def Advanced (aim : Aim) : Stage → Story → Prop
  | .awaitWork => Worked aim
  | .announcePostWork => Proven aim
  | .postWork => Proven aim
  | .complete => Proven aim
  | _ => fun _ => True

/-- What a stage of an action rests on. Only the deletion of a resource that is itself being
deleted is followed up. -/
def Attested (r : Resource) : Action → Stage → Story → Prop
  | .delete, stage, story => r.isDeleting = true → Withdrawn r.aim stage story
  | .install, stage, story => Advanced r.aim stage story
  | .update, stage, story => Advanced r.aim stage story
  | .upgrade, stage, story => Advanced r.aim stage story

variable {r o : Resource} {action : Action} {stage : Stage}

theorem Withdrawn.cons (he : e.Keeps aim) (h : Withdrawn aim stage story) :
    Withdrawn aim stage (e :: story) := by
  cases stage <;> first | exact trivial | exact Since.cons he h

theorem Advanced.cons (he : e.Keeps aim) (h : Advanced aim stage story) :
    Advanced aim stage (e :: story) := by
  cases stage <;> first | exact trivial | exact Since.cons he h | exact Proven.cons he h

/-- What keeps the work where it was leaves its evidence in place. -/
theorem Attested.cons (he : e.Keeps r.aim) (h : Attested r action stage story) :
    Attested r action stage (e :: story) := by
  cases action with
  | delete => exact fun hdel => (h hdel).cons he
  | install => exact Advanced.cons he h
  | update => exact Advanced.cons he h
  | upgrade => exact Advanced.cons he h

theorem Attested.congr (haim : o.aim = r.aim) (hdel : o.isDeleting = r.isDeleting)
    (h : Attested r action stage story) : Attested o action stage story := by
  cases action <;> simp only [Attested, haim, hdel] <;> exact h

/-- The stages up to the work rest on nothing. -/
theorem attested_of_rank_le (h : stage.rank ≤ 5) : Attested r action stage story := by
  cases action <;> cases stage <;>
    first | exact trivial | exact fun _ => trivial | exact absurd h (by decide)

end Story

end ReleaseOperator
