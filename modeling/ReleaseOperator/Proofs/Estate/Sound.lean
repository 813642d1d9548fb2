import ReleaseOperator.Proofs.Estate.Passes
import ReleaseOperator.Proofs.Versions

/-!
# Courses that come to their end

When nothing fails, a course halts only to pin a version or to wait for a release that is
not the one asked for. So a course on which a release is served that is at the version
asked for, or is applied on the way, comes to its end or pins the version.
-/

namespace ReleaseOperator

open InMemory Program

namespace Situation

open Estate

variable {g : Ground} {trouble : Prop} {setup : Setup} {x y z : Situation} {a : Action}
  {requeue : Bool} {r r' : Resource} {documents : List Json}

/-- The work for a resource has been completed. -/
structure Done (r : Resource) : Prop where
  closed : installPending r.conditions = false
  phase : r.phase = some .ready
  lastVersion : r.lastVersion = some r.desiredVersion
  observed : r.observedGeneration = some r.generation

theorem selectAction_pending (h : installPending r.conditions = true) :
    r.selectAction = .ok .install := by
  rw [Resource.selectAction, h]
  rfl

/-- What is chosen when the version asked for is the one of the last success. -/
theorem selectAction_concluded (hclosed : installPending r.conditions = false)
    (hlast : r.lastVersion = some r.desiredVersion) :
    r.selectAction = .ok .update ∨
      ∃ e e', Version.parse r.desiredVersion = .error e ∧ r.selectAction = .error e' := by
  rw [Resource.selectAction, hclosed, if_neg Bool.false_ne_true, hlast]
  dsimp only
  split
  · exact Or.inl rfl
  · cases hparse : Version.parse r.desiredVersion with
    | ok v =>
        left
        rw [actionForVersions, Version.compareTexts_self hparse]
        rfl
    | error e =>
        right
        refine ⟨e, e, rfl, ?_⟩
        rw [actionForVersions, Version.compareTexts, hparse]
        rfl

/-- The release is the one that the resource asks for. -/
def Applied (g : Ground) (setup : Setup) (r : Resource) (release : Option StoredRelease) : Prop :=
  ∃ documents, Provided g setup r documents ∧ release = some (wanted g setup r documents)

theorem Applied.restated {release : Option StoredRelease} (h : Applied g setup r release)
    (hr : r.Restated r') : Applied g setup r' release := by
  obtain ⟨n, status, rfl⟩ := hr
  exact h

theorem Provided.alike (h : Provided g setup r documents) (hr : r.Alike r') :
    Provided g setup r' documents := by
  obtain ⟨hcredited, own, hown, hdocuments⟩ := h
  have hsame := hr.release setup.defaults
  have hoverrides : r'.overrides = r.overrides := by
    rw [Resource.overrides, Resource.overrides, hr.spec]
  refine ⟨?_, own, ?_, ?_⟩
  · rw [Credited, hr.namespaceName, hsame]
    exact hcredited
  · rw [Resolves, hr.namespaceName, hoverrides]
    exact hown
  · rw [hsame]
    exact hdocuments

theorem Applied.alike {release : Option StoredRelease} (h : Applied g setup r release)
    (hr : r.Alike r') : Applied g setup r' release := by
  obtain ⟨documents, hprovided, hrelease⟩ := h
  refine ⟨documents, Provided.alike hprovided hr, ?_⟩
  rw [wanted, hr.release setup.defaults]
  exact hrelease

theorem trim_desiredVersion (r : Resource) : Text.trim r.desiredVersion = r.desiredVersion := by
  rcases r with ⟨_, _ | _, _⟩
  · exact Text.trim_trim _
  · unfold Resource.desiredVersion
    dsimp only
    split
    · exact Text.trim_trim _
    · exact Text.trim_trim _

theorem version_release (r : Resource) (defaults : ChartDefaults) :
    (r.release defaults).chart.version = r.desiredVersion := by
  unfold Resource.release
  split
  · rfl
  · rfl

/-- Nothing is chosen over a version that cannot be read. -/
theorem selectAction_unreadable {e : VersionError}
    (hclosed : installPending r.conditions = false) (hlast : r.lastVersion = some r.desiredVersion)
    (hnamed : r.desiredVersion.isEmpty = false)
    (hparse : Version.parse r.desiredVersion = .error e) :
    ∃ e', r.selectAction = .error e' := by
  have hblank : Text.isBlankText r.desiredVersion = false := by
    cases hblank : Text.isBlankText r.desiredVersion with
    | false => rfl
    | true =>
        have hempty := Text.trim_of_isBlankText hblank
        rw [trim_desiredVersion] at hempty
        rw [hempty] at hnamed
        exact absurd hnamed.symm Bool.false_ne_true
  refine ⟨e, ?_⟩
  rw [Resource.selectAction, hclosed, if_neg Bool.false_ne_true, hlast]
  dsimp only
  rw [hblank, hnamed, actionForVersions, Version.compareTexts, hparse]
  rfl

theorem isAt_some (r : Resource) (stored : StoredRelease) :
    isAt r (some stored) = true ↔ stored.info.status = .deployed ∧
      (r.desiredVersion.isEmpty = true ∨
        Text.trim stored.info.chartVersion = r.desiredVersion) := by
  simp [Estate.isAt, Pass.isDeployedAt]

theorem chartVersion_wanted (hnamed : r.desiredVersion.isEmpty = false)
    (documents : List Json) :
    (wanted g setup r documents).info.chartVersion = r.desiredVersion := by
  rw [wanted, Ground.deployed]
  dsimp only
  rw [version_release, hnamed, if_neg Bool.false_ne_true]

/-- A release that is applied is deployed at the version asked for. -/
theorem isAt_wanted (r : Resource) (documents : List Json) :
    isAt r (some (wanted g setup r documents)) = true := by
  rw [isAt_some]
  refine ⟨rfl, ?_⟩
  cases hempty : r.desiredVersion.isEmpty with
  | true => exact Or.inl rfl
  | false =>
      right
      rw [chartVersion_wanted hempty, trim_desiredVersion]

theorem Applied.isAt {release : Option StoredRelease} (h : Applied g setup r release) :
    isAt r release = true := by
  obtain ⟨documents, _, rfl⟩ := h
  exact isAt_wanted r documents

/-- Behind the work of an action its release is served, an installation passes by a
release only when it serves, and the end is the completion. -/
structure Sound (serves : Resource → Option StoredRelease → Prop) (a : Action)
    (x : Situation) : Prop where
  served : 5 < x.entry.stage.rank → serves x.resource x.release
  standing : a = .install → stands x.release = true → serves x.resource x.release
  done : x.entry.stage = .finish → Done x.resource

/-- What makes a release serve: it is found out whatever the status, releases that are
applied do, and those that do are at the version asked for. -/
structure Service (g : Ground) (setup : Setup)
    (serves : Resource → Option StoredRelease → Prop) : Prop where
  restated : ∀ r r' release, r.Restated r' → serves r release → serves r' release
  wanted : ∀ r documents, r.kind = .module → Provided g setup r documents →
    serves r (some (wanted g setup r documents))
  isAt : ∀ r release, r.kind = .module → serves r release → isAt r release = true

theorem service_applied : Service g setup (Applied g setup) :=
  ⟨fun _ _ _ hr h => h.restated hr, fun _ documents _ h => ⟨documents, h, rfl⟩,
    fun _ _ _ h => h.isAt⟩

theorem service_isAt : Service g setup fun r release => isAt r release = true :=
  ⟨fun r r' release hr h => by
      obtain ⟨n, status, rfl⟩ := hr
      exact h,
    fun r documents _ _ => isAt_wanted r documents, fun _ _ _ h => h⟩

variable {serves : Resource → Option StoredRelease → Prop}

/-- Before the work of an action only a release that stands already has to serve. -/
theorem Sound.of_rank_le (hrank : x.entry.stage.rank ≤ 5)
    (hstanding : a = .install → stands x.release = true → serves x.resource x.release) :
    Sound serves a x := by
  refine ⟨fun hlater => absurd hlater (Nat.not_lt.2 hrank), hstanding, fun hfinish => ?_⟩
  rw [hfinish] at hrank
  exact absurd hrank (by decide)

theorem Sound.entered (hx : Sound serves a x)
    (hserved : x.entry.stage = .work → serves x.resource x.release)
    (hdone : x.entry.stage = .complete → Done x.resource) : Sound serves a x.entered := by
  refine ⟨?_, hx.standing, ?_⟩
  · intro hrank
    by_cases hwork : x.entry.stage = .work
    · exact hserved hwork
    · apply hx.served
      change 5 < x.entry.stage.next.rank at hrank
      cases hst : x.entry.stage <;> rw [hst] at hrank hwork <;>
        first | exact absurd rfl hwork | exact absurd hrank (by decide) | decide
  · intro hfinish
    change x.entry.stage.next = .finish at hfinish
    cases hst : x.entry.stage <;> rw [hst] at hfinish <;>
      first | exact hdone hst | exact hx.done hst | exact absurd hfinish (by decide)

theorem Sound.restate (hserves : Service g setup serves) (hx : Sound serves a x)
    (hr : x.resource.Restated r) (hstage : x.entry.stage ≠ .finish) :
    Sound serves a { x with resource := r } :=
  ⟨fun hrank => hserves.restated _ _ _ hr (hx.served hrank),
    fun ha hstands => hserves.restated _ _ _ hr (hx.standing ha hstands),
    fun hfinish => absurd hfinish hstage⟩

theorem Sound.marked (hx : Sound serves a x) (time : Option String) :
    Sound serves a (x.marked time) := ⟨hx.served, hx.standing, hx.done⟩

theorem done_of_concluded (h : r.Concluded a.success r') : Done r' := by
  refine ⟨?_, ?_, ?_, ?_⟩
  · rw [installPending_of_endsIn h.ends]
    cases a <;> decide
  · rw [h.phase]
    cases a <;> rfl
  · rw [h.lastVersion, h.restated.desiredVersion]
  · rw [h.observed, h.restated.generation]

/-- Each advance keeps a course sound. -/
theorem Sound.advance (hserves : Service g setup serves) (hkind : x.resource.kind = .module)
    (hx : Sound serves a x) (h : Advance g setup a x y) : Sound serves a y.entered := by
  cases h with
  | idle hidle =>
      have hno := hidle.2.2
      refine hx.entered (fun hst => ?_) (fun hst => ?_)
      · rw [hst] at hno
        exact absurd List.mem_cons_self hno
      · rw [hst] at hno
        exact absurd (by decide) hno
  | announce time hreason hnoted =>
      have hne : ∀ st, a.announced? st = none → x.entry.stage ≠ st := by
        rintro st hnone rfl
        rw [hnone] at hreason
        exact absurd hreason (by simp)
      have hfinish := hne .finish (by cases a <;> rfl)
      refine ((hx.restate hserves hnoted.restated hfinish).marked time).entered
        (fun hst => absurd hst (hne .work (by cases a <;> rfl)))
        (fun hst => absurd hst (hne .complete (by cases a <;> rfl)))
  | stand hstage ha hstands =>
      refine hx.entered (fun _ => hx.standing ha hstands) (fun hst => ?_)
      rw [hstage] at hst
      exact absurd hst (by decide)
  | apply hstage hprovided hstands =>
      have hserved := hserves.wanted _ _ hkind hprovided
      have hno : ∀ st, st ≠ Stage.work → x.entry.stage = st → False := by
        intro st hne hst
        exact hne (hst.symm.trans hstage)
      refine Sound.entered ⟨fun _ => hserved, fun _ _ => hserved, fun hst => ?_⟩
        (fun _ => hserved) (fun hst => ?_)
      · exact (hno _ (by decide) hst).elim
      · exact (hno _ (by decide) hst).elim
  | await hstage hat =>
      refine hx.entered (fun hst => ?_) (fun hst => ?_)
      · rw [hstage] at hst
        exact absurd hst (by decide)
      · rw [hstage] at hst
        exact absurd hst (by decide)
  | conclude hstage hconcluded =>
      have hfinish : x.entry.stage ≠ .finish := by
        rw [hstage]
        decide
      refine (hx.restate hserves hconcluded.restated hfinish).entered (fun hst => ?_) (fun _ => ?_)
      · have hst' : x.entry.stage = .work := hst
        rw [hstage] at hst'
        exact absurd hst' (by decide)
      · exact done_of_concluded hconcluded

theorem Provided.restated (h : Provided g setup r documents) (hr : r.Restated r') :
    Provided g setup r' documents := by
  obtain ⟨n, status, rfl⟩ := hr
  exact h

theorem announced_installPending {reason : Reason} {st : Stage}
    (h : Action.install.announced? st = some reason) :
    Reason.installPending.contains reason = true := by
  cases st <;> cases h <;> rfl

/-- The version is known when the work on the release begins. -/
theorem named_advance (hx : 3 < x.entry.stage.rank → x.resource.desiredVersion.isEmpty = false)
    (hother : a ≠ .install → x.resource.desiredVersion.isEmpty = false)
    (h : Advance g setup a x y) (hrank : 3 < y.entered.entry.stage.rank) :
    x.resource.desiredVersion.isEmpty = false := by
  change 3 < y.entry.stage.next.rank at hrank
  rw [h.stage] at hrank
  by_cases hpre : x.entry.stage = .preWork
  · by_cases hinstall : a = .install
    · cases h with
      | idle hidle => exact hidle.2.1 hpre hinstall
      | announce _ hreason _ =>
          rw [hpre, hinstall] at hreason
          exact absurd hreason (by simp [Action.announced?])
      | stand hstage _ _ => rw [hpre] at hstage; exact absurd hstage (by decide)
      | apply hstage _ _ => rw [hpre] at hstage; exact absurd hstage (by decide)
      | await hstage _ => rw [hpre] at hstage; exact absurd hstage (by decide)
      | conclude hstage _ => rw [hpre] at hstage; exact absurd hstage (by decide)
    · exact hother hinstall
  · apply hx
    cases hst : x.entry.stage <;> rw [hst] at hrank hpre <;>
      first | exact absurd rfl hpre | exact absurd hrank (by decide) | decide

/-- A resource whose version has been pinned. -/
def Pins (g : Ground) (setup : Setup) (r r' : Resource) : Prop :=
  r.desiredVersion.isEmpty = true ∧
    ∃ between, r.Restated between ∧ between.Rewritten (pinned g setup between) r'

theorem restated_advance (h : Advance g setup a x y) : x.resource.Restated y.resource := by
  cases h with
  | announce time _ hnoted => exact hnoted.restated
  | conclude _ hconcluded => exact hconcluded.restated
  | _ => exact Resource.Restated.refl _

/-- A sound course on which nothing fails comes to its end, unless it pins the version. -/
theorem Course.calm (hserves : Service g setup serves)
    (h : Course g setup False a x requeue y) (hkind : x.resource.kind = .module)
    (hprovided : ∃ documents, Provided g setup x.resource documents) (hx : Sound serves a x) :
    requeue = false ∧ y.entry.stage = .finish ∧ Sound serves a y ∧
        x.resource.Restated y.resource ∨
      requeue = true ∧ a = .install ∧ Pins g setup x.resource y.resource := by
  induction h with
  | finish hstage => exact Or.inl ⟨rfl, hstage, hx, Resource.Restated.refl _⟩
  | halt hhalt =>
      right
      cases hhalt with
      | hindered _ hwhy =>
          rcases hwhy with hfalse | hnone
          · exact hfalse.elim
          · exact absurd hprovided hnone
      | failed hwhy _ _ =>
          rcases hwhy with hfalse | hnone
          · exact hfalse.elim
          · exact absurd hprovided hnone
      | pin hstage ha hempty hwritten =>
          exact ⟨rfl, ha, hempty, _, Resource.Restated.refl _, hwritten⟩
      | wait hstage hat =>
          have hserved := hx.served (by rw [hstage]; decide)
          rw [hserves.isAt _ _ hkind hserved] at hat
          exact absurd hat.symm Bool.false_ne_true
  | advance hadvance _ ih =>
      have hr := restated_advance hadvance
      have hkind' := hr.kind.trans hkind
      obtain ⟨documents, hdocuments⟩ := hprovided
      have hend := ih hkind' ⟨documents, Provided.restated hdocuments hr⟩
        (hx.advance hserves hkind hadvance)
      rcases hend with ⟨hrequeue, hfinish, hsound, hrest⟩ | ⟨hrequeue, ha, hempty, between, hb, hw⟩
      · exact Or.inl ⟨hrequeue, hfinish, hsound, hr.trans hrest⟩
      · refine Or.inr ⟨hrequeue, ha, ?_, between, hr.trans hb, hw⟩
        rw [← hr.desiredVersion]
        exact hempty

end Situation

end ReleaseOperator
