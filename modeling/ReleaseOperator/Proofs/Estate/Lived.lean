import ReleaseOperator.Proofs.Estate.Sound

/-!
# Modules with a past

A module starts without a release. Passes go over it on which any call may fail, the
operator is started anew, and its user edits the version and the overrides. Through all
of that a module that names no version has no release, and the work on a release begins
only when the version is known. An edit begins a new generation, of which nothing is
remembered.
-/

namespace ReleaseOperator

open InMemory Program Situation

namespace Estate

variable {g : Ground} {trouble : Prop} {setup : Setup} {ns name : String} {x y z : Situation}
  {r : Resource} {a : Action} {m : Memory} {s s' : Estate} {requeue : Bool}

/-- A user edits the overrides of a module, or its version to one that can be read. -/
def Edits (ns name : String) (s s' : Estate) : Prop :=
  ∃ old spec version overrides, s.store.get? ns name = some old ∧ old.spec = .module spec ∧
    (version = spec.version ∨ ∃ v, Version.parse version = .ok v) ∧
    Store.sameSpec old { old with spec := .module { spec with version, overrides } } = false ∧
    s.store.edit ns name (fun r =>
      some { r with spec := .module { spec with version, overrides } }) = some (some s'.store) ∧
    s'.releases = s.releases

/-- What a module without a release may have been through. -/
inductive Lived (g : Ground) (setup : Setup) (ns name : String) : Memory → Estate → Prop
  | start {m : Memory} {s : Estate} {r : Resource} (hkeyed : s.store.Keyed .module)
      (hstored : s.store.get? ns name = some r) (hclass : r.className = setup.className)
      (hstays : r.isDeleting = false) (hgoesOn : r.isTerminal = false)
      (hnone : s.releases.get? (r.releaseKey setup) = none)
      (hunnamed : r.desiredVersion.isEmpty = true → installPending r.conditions = true)
      (hunknown : ∀ gen, m.lifecycle.get? (.ofResource r) gen = none) : Lived g setup ns name m s
  | pass {m m' : Memory} {s s' : Estate} {result : Except PassError Outcome}
      (h : Lived g setup ns name m s)
      (hrun : Runs (conduct g True) ((reconcile setup .module ns name).run m) s (result, m') s') :
      Lived g setup ns name m' s'
  | restart {m : Memory} {s : Estate} (h : Lived g setup ns name m s) :
      Lived g setup ns name .empty s
  | edit {m : Memory} {s s' : Estate} (h : Lived g setup ns name m s) (hedit : Edits ns name s s') :
      Lived g setup ns name m s'

/-- What holds of a situation at all times. -/
structure Orderly (x : Situation) : Prop where
  unnamed : x.resource.desiredVersion.isEmpty = true →
    x.release = none ∧ installPending x.resource.conditions = true
  named : 3 < x.entry.stage.rank → x.resource.desiredVersion.isEmpty = false
  action : ∀ a, x.entry.action = some a → a ≠ .install → x.resource.desiredVersion.isEmpty = false
  deployed : ∀ stored, x.release = some stored → stored.info.status = .deployed

namespace Orderly

theorem fresh (hx : Orderly x) (gen : Int) : Orderly ⟨x.resource, x.release, .fresh gen .start⟩ :=
  ⟨hx.unnamed, fun hrank => absurd hrank (by simp [Entry.fresh, Stage.rank]),
    fun a ha => absurd ha (by simp [Entry.fresh]), hx.deployed⟩

theorem found {gen : Int} (hx : Orderly x) (hfound : Found x gen y) : Orderly y := by
  obtain ⟨r, release, e⟩ := y
  obtain ⟨rfl, rfl, ⟨rfl, _⟩ | rfl⟩ := hfound
  · exact hx
  · exact hx.fresh _

theorem noted {reason : Reason} (hx : Orderly x) (hn : x.resource.Noted reason r)
    (hreason : x.resource.desiredVersion.isEmpty = true →
      Reason.installPending.contains reason = true) : Orderly { x with resource := r } := by
  have hdesired := congrArg String.isEmpty hn.restated.desiredVersion
  refine ⟨fun hempty => ?_, fun hrank => hdesired.trans (hx.named hrank),
    fun a ha hne => hdesired.trans (hx.action a ha hne), hx.deployed⟩
  have hold := hdesired.symm.trans hempty
  refine ⟨(hx.unnamed hold).1, ?_⟩
  rw [installPending_of_endsIn hn.ends]
  exact hreason hold

/-- A module that names no version is being installed. -/
theorem install_of_isEmpty (hx : Orderly x) (ha : x.entry.action = some a)
    (hempty : x.resource.desiredVersion.isEmpty = true) : a = .install := by
  by_cases hinstall : a = .install
  · exact hinstall
  · rw [hx.action a ha hinstall] at hempty
    exact absurd hempty Bool.false_ne_true

theorem advanced (hx : Orderly x) (ha : x.entry.action = some a) (h : Advance g setup a x y) :
    Orderly y := by
  have hempty : 3 < x.entry.stage.rank → x.resource.desiredVersion.isEmpty = true → False := by
    intro hrank hempty
    rw [hx.named hrank] at hempty
    exact Bool.false_ne_true hempty
  cases h with
  | announce time hreason hnoted =>
      have hy := hx.noted hnoted fun hempty => by
        rw [hx.install_of_isEmpty ha hempty] at hreason
        exact announced_installPending hreason
      exact ⟨hy.unnamed, hy.named, hy.action, hy.deployed⟩
  | apply hstage _ _ =>
      refine ⟨fun he => (hempty (by rw [hstage]; decide) he).elim, hx.named, hx.action, ?_⟩
      rintro stored hstored
      rw [← Option.some.inj hstored]
      rfl
  | conclude hstage hconcluded =>
      have hdesired := congrArg String.isEmpty hconcluded.restated.desiredVersion
      exact ⟨fun he => (hempty (by rw [hstage]; decide) (hdesired.symm.trans he)).elim,
        fun hrank => hdesired.trans (hx.named hrank),
        fun a ha hne => hdesired.trans (hx.action a ha hne), hx.deployed⟩
  | _ => exact hx

theorem advance (hx : Orderly x) (ha : x.entry.action = some a) (h : Advance g setup a x y) :
    Orderly y.entered ∧ y.entered.entry.action = some a := by
  have hy := hx.advanced ha h
  refine ⟨⟨hy.unnamed, fun hrank => ?_, hy.action, hy.deployed⟩, ?_⟩
  · change y.resource.desiredVersion.isEmpty = false
    rw [(restated_advance h).desiredVersion]
    exact named_advance hx.named (hx.action a ha) h hrank
  · cases h <;> exact ha

theorem halt (hx : Orderly x) (ha : x.entry.action = some a)
    (h : Halt g setup trouble a x y) : Orderly y := by
  cases h with
  | hindered time _ => exact ⟨hx.unnamed, hx.named, hx.action, hx.deployed⟩
  | failed _ _ hnoted =>
      refine hx.noted hnoted fun hempty => ?_
      rw [hx.install_of_isEmpty ha hempty]
      rfl
  | pin hstage hinstall hempty hwritten =>
      obtain ⟨hnone, hpending⟩ := hx.unnamed hempty
      refine ⟨fun _ => ⟨hnone, ?_⟩, fun hrank => ?_, fun a' ha' hne => ?_, hx.deployed⟩
      · rw [hwritten.conditions]
        exact hpending
      · change 3 < x.entry.stage.rank at hrank
        rw [hstage] at hrank
        exact absurd hrank (by decide)
      · have heq : a' = a := Option.some.inj (Eq.trans (Eq.symm ha') ha)
        exact absurd (heq.trans hinstall) hne
  | wait _ _ => exact hx

theorem course (hx : Orderly x) (ha : x.entry.action = some a)
    (h : Course g setup trouble a x requeue y) : Orderly y := by
  induction h with
  | finish _ => exact hx
  | halt hhalt => exact hx.halt ha hhalt
  | advance hadvance _ ih =>
      obtain ⟨hy, ha'⟩ := hx.advance ha hadvance
      exact ih hy ha'

theorem rearmed (hx : Orderly x) (hstage : x.entry.stage = .finish) (digest : String) :
    Orderly (x.rearmed digest) := by
  have hnamed := hx.named (by rw [hstage]; decide)
  exact ⟨hx.unnamed, fun _ => hnamed, fun _ _ _ => hnamed, hx.deployed⟩

theorem named_of_selectAction (hx : Orderly x) (hselect : x.resource.selectAction = .ok a)
    (ha : a ≠ .install) : x.resource.desiredVersion.isEmpty = false := by
  cases hempty : x.resource.desiredVersion.isEmpty with
  | false => rfl
  | true =>
      rw [selectAction_pending (hx.unnamed hempty).2] at hselect
      exact absurd (Except.ok.inj hselect).symm ha

theorem named_of_release {stored : StoredRelease} (hx : Orderly x)
    (hrelease : x.release = some stored) : x.resource.desiredVersion.isEmpty = false := by
  cases hempty : x.resource.desiredVersion.isEmpty with
  | false => rfl
  | true =>
      rw [(hx.unnamed hempty).1] at hrelease
      exact absurd hrelease (by simp)

theorem pin (hx : Orderly x) (hselect : x.resource.selectAction = .ok a) :
    Orderly { x with entry := x.entry.pin a } := by
  refine ⟨hx.unnamed, hx.named, fun a' ha' hne => ?_, hx.deployed⟩
  rw [← Option.some.inj ha'] at hne
  exact hx.named_of_selectAction hselect hne

theorem live (hx : Orderly x) (h : Live g setup trouble x requeue y) : Orderly y := by
  cases h with
  | unchanged _ _ _ _ => exact ⟨hx.unnamed, hx.named, hx.action, hx.deployed⟩
  | changed hstage _ _ _ hcourse => exact (hx.rearmed hstage _).course rfl hcourse
  | chosen _ _ hselect hcourse => exact (hx.pin hselect).course rfl hcourse
  | kept _ haction hcourse => exact hx.course haction hcourse
  | _ => exact hx

theorem through (hx : Orderly x) (h : Through g setup trouble x requeue y) : Orderly y := by
  cases h with
  | hindered _ => exact hx
  | hold _ hwritten =>
      have hr := (Resource.Rewritten.alike hwritten).1
      have hdesired := congrArg String.isEmpty hr.desiredVersion
      refine ⟨fun hempty => ?_, fun hrank => hdesired.trans (hx.named hrank),
        fun a ha hne => hdesired.trans (hx.action a ha hne), hx.deployed⟩
      obtain ⟨hnone, hpending⟩ := hx.unnamed (hdesired.symm.trans hempty)
      refine ⟨hnone, ?_⟩
      rw [hr.conditions]
      exact hpending
  | live _ h => exact hx.live h

end Orderly

/-! ### Edits -/

/-- A module after an edit. -/
structure Edited (setup : Setup) (old r : Resource) : Prop where
  kind : r.kind = old.kind
  id : ObjectId.ofResource r = .ofResource old
  generation : r.generation = old.generation + 1
  className : r.className = old.className
  isDeleting : r.isDeleting = old.isDeleting
  status : r.status = old.status
  releaseKey : r.releaseKey setup = old.releaseKey setup
  version : r.desiredVersion = old.desiredVersion ∨ r.desiredVersion.isEmpty = false

theorem Edits.edited (h : Edits ns name s s') (hkeyed : s.store.Keyed .module)
    (hstored : s.store.get? ns name = some r) (setup : Setup) :
    ∃ r', Edited setup r r' ∧ s'.store.get? ns name = some r' ∧ s'.store.Keyed .module ∧
      s'.releases = s.releases := by
  obtain ⟨old, spec, version, overrides, hold, hspec, hversion, hsame, hedit, hreleases⟩ := h
  obtain rfl : old = r := Option.some.inj (hold.symm.trans hstored)
  have hkind : (Spec.module { spec with version, overrides }).kind = old.kind := by
    rw [Resource.kind, hspec]
    rfl
  obtain ⟨hnew, hkeyed'⟩ := Store.edit_ok hkeyed hold hkind hsame hedit
  refine ⟨_, ?_, hnew, hkeyed', hreleases⟩
  refine ⟨hkind, objectId_eq hkind rfl rfl, rfl, ?_, rfl, rfl, ?_, ?_⟩
  · rw [Resource.className, Resource.className, hspec]
    rfl
  · rw [Resource.releaseKey, Resource.releaseKey, Resource.release, Resource.release, hspec]
    rfl
  · change Text.trim version = _ ∨ (Text.trim version).isEmpty = false
    rcases hversion with rfl | ⟨v, hparse⟩
    · left
      rw [Resource.desiredVersion, hspec]
    · exact Or.inr (Version.isEmpty_eq_false_of_parse ((Version.parse_trim _).trans hparse))

/-- A module can be edited at any time. -/
theorem exists_edits {spec : ModuleSpec} {version : String} {overrides : List ValuesSource}
    (hstored : s.store.get? ns name = some r) (hspec : r.spec = .module spec)
    (hversion : version = spec.version ∨ ∃ v, Version.parse version = .ok v)
    (hsame : Store.sameSpec r { r with spec := .module { spec with version, overrides } } = false) :
    ∃ s' r', Edits ns name s s' ∧ s'.releases = s.releases ∧ s'.store.get? ns name = some r' ∧
      r'.spec = .module { spec with version, overrides } ∧ r'.status = r.status := by
  let new := Store.withRevision (Store.withGeneration
    { r with spec := .module { spec with version, overrides } } (r.generation + 1))
    (s.store.revision + 1)
  let store : Store :=
    { s.store with objects := s.store.objects.put (ns, name) new, revision := s.store.revision + 1 }
  refine ⟨⟨store, s.releases⟩, new, ?_, rfl, Table.get?_put_self, rfl, rfl⟩
  refine ⟨r, spec, version, overrides, hstored, hspec, hversion, hsame, ?_, rfl⟩
  rw [Store.edit, hstored]
  simp only [Option.map_some, hsame, Bool.false_eq_true, ↓reduceIte]
  rfl

/-- An edit leaves the release, and nothing is remembered of the new generation. -/
theorem Views.edit (hviews : Views setup ns name x m s) (hx : Orderly x)
    (h : Edits ns name s s') :
    ∃ r, Views setup ns name ⟨r, x.release, .fresh r.generation .start⟩ m s' ∧
      Orderly ⟨r, x.release, .fresh r.generation .start⟩ := by
  obtain ⟨r, hr, hstored, hkeyed, hreleases⟩ := h.edited hviews.keyed hviews.stored setup
  have hunknown : ∀ gen, r.generation ≤ gen → m.lifecycle.get? (.ofResource r) gen = none := by
    intro gen hle
    have hgen := hr.generation
    rw [hr.id]
    exact hviews.above gen (by omega)
  have htended := hviews.tended
  have hgoesOn : r.isTerminal = x.resource.isTerminal := by
    rw [Resource.isTerminal, Resource.phase, Resource.statusD, hr.status]
    rfl
  refine ⟨r, ⟨hkeyed, hstored, ?_, ?_, fun gen hlt => hunknown gen (Int.le_of_lt hlt),
    htended.acts, hr.kind.trans htended.kind, hr.className.trans htended.className,
    hr.isDeleting.trans htended.stays, hgoesOn.trans htended.goesOn, ?_⟩, ?_⟩
  · rw [hreleases, hr.releaseKey]
    exact hviews.release
  · rw [Tracker.ensure_fst, hunknown _ (Int.le_refl _)]
    rfl
  · exact fun hdelete => absurd hdelete (by simp [Entry.fresh])
  · refine ⟨fun hempty => ?_, fun hrank => absurd hrank (by simp [Entry.fresh, Stage.rank]),
      fun a ha => absurd ha (by simp [Entry.fresh]), hx.deployed⟩
    have hconditions : r.conditions = x.resource.conditions := by
      rw [Resource.conditions, Resource.statusD, hr.status]
      rfl
    dsimp only at hempty ⊢
    rw [hconditions]
    apply hx.unnamed
    rcases hr.version with hversion | hnamed
    · rw [hversion] at hempty
      exact hempty
    · rw [hnamed] at hempty
      exact absurd hempty Bool.false_ne_true

/-- What a module has been through leaves it orderly. -/
theorem Lived.orderly (h : Lived g setup ns name m s) (hacts : setup.dryRun = false) :
    ∃ x, Views setup ns name x m s ∧ Orderly x := by
  induction h with
  | @start m s r hkeyed hstored hclass hstays hgoesOn hnone hunnamed hunknown =>
      have hviews := views_unknown hacts hkeyed hstored hclass hstays hgoesOn hunknown
      rw [hnone] at hviews
      refine ⟨_, hviews, ⟨fun hempty => ⟨rfl, hunnamed hempty⟩, fun hrank => ?_, fun a ha => ?_,
        fun _ hrelease => ?_⟩⟩
      · exact absurd hrank (by simp [Entry.fresh, Stage.rank])
      · exact absurd ha (by simp [Entry.fresh])
      · exact absurd hrelease (by simp)
  | pass _ hrun ih =>
      obtain ⟨x, hx, horderly⟩ := ih
      obtain ⟨_, _, z, _, _, hthrough, hfound, hz⟩ := always_iff_runs.1 hx.reconcile _ _ hrun
      exact ⟨z, hz, (horderly.through hthrough).found hfound⟩
  | restart _ ih =>
      obtain ⟨x, hx, horderly⟩ := ih
      exact ⟨_, hx.restart, horderly.fresh _⟩
  | edit _ hedit ih =>
      obtain ⟨x, hx, horderly⟩ := ih
      obtain ⟨r, hr, horderly'⟩ := hx.edit horderly hedit
      exact ⟨_, hr, horderly'⟩

end Estate

end ReleaseOperator
