import ReleaseOperator.Proofs.Evidence.Operated
import ReleaseOperator.Proofs.Evidence.Versions
import ReleaseOperator.Proofs.Versions

/-!
# Whether the recorded version is the true one

A module that has been installed, upgraded or updated records the version that it asked for.
It is the version that Helm reported when the release was last looked at in the same run of
the machine, unless the module asks for none: then an update is recorded as a success of the
empty version, where an installation would have pinned the version of the chart.
-/

namespace ReleaseOperator

open InMemory Relation Program Work

/-- Only a module that asks for a version is upgraded. -/
theorem Resource.desiredVersion_ne_of_upgrade {r : Resource} (h : r.selectAction = .ok .upgrade) :
    r.desiredVersion ≠ "" := by
  intro hblank
  unfold selectAction at h
  split at h
  · exact absurd h (by simp)
  · split at h
    · have hempty : "".isEmpty = true := rfl
      rw [hblank, hempty, Bool.or_true, if_pos rfl] at h
      exact absurd h (by simp)
    · exact absurd h (by simp)

/-- What an entry knows of the version of its resource. -/
def Entry.Grounds (aim : Aim) (story : Story) (e : Entry) : Prop :=
  ∀ action, e.action = some action → story.Grounded aim action e.stage

/-- Where Helm was not asked, as much is known as before. -/
theorem Entry.Grounds.congr {aim : Aim} {story story' : Story} {e : Entry}
    (hlast : ∀ place, story'.lastReport? place = story.lastReport? place)
    (h : e.Grounds aim story) : e.Grounds aim story' := by
  intro action haction
  have hgrounded := h action haction
  refine ⟨hgrounded.versioned, fun hne hlate hfinish => ?_⟩
  rw [Story.Confirmed, hlast]
  exact hgrounded.confirmed hne hlate hfinish

namespace Contest

variable {setup : Setup} {ns name : String} {past : Story} {m : Memory} {begun s t : Contest}
  {r o w : Resource} {j : Job} {action : Action} {stage : Stage} {aim : Aim} {α : Type}
  {reason : Reason} {es : Story} {kind : Kind}

/-! ### Passes -/

theorem lastReport_mute {p : Pass α} (hp : Asks (fun c : Call => c.isReport = false) p) :
    Always (uninterrupted .module) p s fun _ t =>
      ∀ place, t.story.lastReport? place = s.story.lastReport? place := by
  have hkept : ∀ (x : Contest) (c : Call) (a : c.Answer) (y : Contest), c.isReport = false →
      (uninterrupted .module).may x c a y →
      (∀ place, x.story.lastReport? place = s.story.lastReport? place) →
      ∀ place, y.story.lastReport? place = s.story.lastReport? place := by
    intro x c a y hc hmay hx place
    rw [story_of_may hmay, Story.lastReport?_asked hc]
    exact hx place
  exact hp.always hkept fun _ => rfl

theorem truthful_quiet {p : Pass α} (hp : Pass.Quiet p) (h : s.story.Truthful) :
    Always (uninterrupted .module) p s fun _ t => t.story.Truthful := by
  have hkept : ∀ (x : Contest) (c : Call) (a : c.Answer) (y : Contest), c.isQuiet = true →
      (uninterrupted .module).may x c a y → x.story.Truthful → y.story.Truthful := by
    intro x c a y hq hmay hx
    rw [story_of_may hmay]
    exact ⟨Story.admits_of_isQuiet hq, hx⟩
  exact hp.always hkept h

/-- The successes in the story were honest, and the entries for a living module know what there
is to know of its version. -/
structure Upright (ns name : String) (m : Memory) (s : Contest) : Prop where
  truthful : s.story.Truthful
  backed : ∀ o, s.store.get? ns name = some o → o.isDeleting = false →
    m.lifecycle.Backed o (Entry.Grounds o.aim s.story)

/-- What the work on a living module leaves. -/
structure Recalls (ns name : String) (r : Resource) (e : Entry) (s : Contest) : Prop where
  truthful : s.story.Truthful
  grounds : ∀ o, s.store.get? ns name = some o → o.generation = r.generation →
    e.Grounds o.aim s.story

theorem Firm.recalls (hdry : setup.dryRun = false)
    (h : Firm ns name begun r action (some action) stage j s) :
    AlwaysFrom (uninterrupted .module) (Work.perform setup action) j s fun _ j' t =>
      Recalls ns name r j'.entry t := by
  refine ((h.there.perform hdry).and (h.perform hdry)).mono ?_
  rintro o j' t ⟨hgoes, hrested⟩
  have hchosen : j'.entry.action = some action := (left_of_proceeds hgoes).chosen
  refine ⟨hrested.truthful, fun o ho hgen action' haction' => ?_⟩
  obtain rfl : action = action' := Option.some.inj (hchosen.symm.trans haction')
  exact hrested.grounded o ho hgen

/-- A state of the work in which the entry is left as it was found. -/
theorem Tending.recalls (h : Tending .module ns name begun r j s) (ht : s.story.Truthful)
    (hgrounds : j.entry.Grounds r.aim s.story) : Recalls ns name r j.entry s := by
  refine ⟨ht, fun o ho _ => ?_⟩
  obtain ⟨o', ho', hmatch⟩ := h.stored
  obtain rfl : o = o' := Option.some.inj (ho.symm.trans ho')
  rw [hmatch.aim]
  exact hgrounds

theorem Tending.chosenVersion (h : Tending .module ns name begun r j s) :
    Always (uninterrupted .module) j.chooseAction s fun res _ =>
      ∀ a, res = .ok a → Versioned r.aim.version a .start := by
  have hkind : j.resource.kind = .module := h.copy.kind.trans h.place.1
  have hwish : j.resource.wish = .declarative := by
    unfold Resource.wish
    unfold Resource.kind at hkind
    cases hspec : j.resource.spec with
    | module spec => rfl
    | action spec =>
        rw [hspec] at hkind
        cases hkind
  have hversion : j.resource.desiredVersion = r.aim.version := congrArg Aim.version h.copy.aim
  rw [Job.chooseAction, hwish]
  dsimp only
  split
  · rename_i a hselect
    rintro a' ⟨⟩
    cases a with
    | upgrade =>
        rw [← hversion]
        exact Resource.desiredVersion_ne_of_upgrade hselect
    | install => exact fun hrank => absurd hrank (by decide)
    | update => trivial
    | delete => trivial
  · rw [always_bind]
    exact Pass.always_shortDelayWith fun _ _ _ a ha => absurd ha (by simp)

theorem Tending.runPinned_recalls (hdry : setup.dryRun = false)
    (h : Tending .module ns name begun r j s) (hrests : j.entry.Rests r s.story)
    (ht : s.story.Truthful) (hgrounds : j.entry.Grounds r.aim s.story) :
    AlwaysFrom (uninterrupted .module) (Work.runPinned setup) j s fun _ j' t =>
      Recalls ns name r j'.entry t := by
  rw [Work.always_runPinned]
  cases haction : j.entry.action with
  | some a =>
      rw [Entry.Rests, haction] at hrests
      have hfirm : Firm ns name begun r a (some a) j.entry.stage j s :=
        ⟨⟨h, rfl, haction, hrests⟩, ht, hgrounds a haction⟩
      exact hfirm.recalls hdry
  | none =>
      rw [Entry.Rests, haction] at hrests
      refine ((h.quiet (Pass.quiet_chooseAction j)).and
        ((truthful_quiet (Pass.quiet_chooseAction j) ht).and h.chosenVersion)).mono ?_
      rintro (o | a) t ⟨htending, htruthful, hversioned⟩
      · refine htending.recalls htruthful fun a ha => ?_
        exact absurd (haction.symm.trans ha) (by simp)
      · have hfirm : Firm ns name begun r a (some a) .start
            { j with entry := j.entry.pin a } t :=
          ⟨⟨htending.withJob rfl htending.copy, hrests, rfl,
            Story.attested_of_rank_le (by decide)⟩, htruthful,
            Story.grounded_of_rank_le (by decide) (hversioned a rfl)⟩
        exact hfirm.recalls hdry

/-- Finding out whether the values have changed asks Helm for values only. -/
theorem Tending.valuesChanged_truthful (ht : s.story.Truthful) :
    AlwaysFrom (uninterrupted .module) (Work.valuesChanged setup) j s fun _ _ t =>
      t.story.Truthful := by
  rw [Work.always_valuesChanged]
  split
  · exact ht
  · refine (truthful_quiet (Pass.quiet_valuesDigest setup j) ht).mono ?_
    rintro (e | desired) t ht
    · exact truthful_quiet (Pass.quiet_shortDelayWith _) ht
    · refine (truthful_quiet (Pass.quiet_appliedDigest setup j desired) ht).mono ?_
      rintro (o | applied) t' ht'
      · exact ht'
      · exact ht'

/-- The work on a living module. -/
theorem Tending.live_recalls (hdry : setup.dryRun = false)
    (h : Tending .module ns name begun r j s) (hrests : j.entry.Rests r s.story)
    (ht : s.story.Truthful) (hgrounds : j.entry.Grounds r.aim s.story) :
    AlwaysFrom (uninterrupted .module) (Work.live setup) j s fun _ j' t =>
      Recalls ns name r j'.entry t := by
  rw [Work.always_live]
  split
  · rename_i hfinish
    refine (h.valuesChanged.and (Tending.valuesChanged_truthful ht)).mono ?_
    rintro res j' t ⟨⟨htending, hstage, haction⟩, htruthful⟩
    have hkept : j'.entry.Grounds r.aim t.story := by
      intro a ha
      have hversioned := (hgrounds a (haction.symm.trans ha)).versioned
      rw [hfinish] at hversioned
      rw [hstage, hfinish]
      exact ⟨hversioned, fun _ _ hfinish' => absurd rfl hfinish'⟩
    rcases res with o | _ | _
    · exact htending.recalls htruthful hkept
    · exact htending.recalls htruthful hkept
    · have hagain : Tending .module ns name begun r
          { j' with entry := (j'.entry.pin .update).rearm } t := htending.withJob rfl htending.copy
      refine hagain.runPinned_recalls hdry trivial htruthful ?_
      rintro a ⟨⟩
      exact Story.grounded_of_rank_le (Nat.zero_le 6) trivial
  · exact h.runPinned_recalls hdry hrests ht hgrounds

/-- What asks Helm for no release and follows the stored module leaves everything as it was. -/
theorem Upright.carry (h : Upright ns name m s) (hkeyed : s.store.Keyed .module)
    (hkeyed' : t.store.Keyed .module) (ht : t.story.Truthful)
    (hlast : ∀ place, t.story.lastReport? place = s.story.lastReport? place)
    (hstored : ∀ o', t.store.get? ns name = some o' →
      ∃ o, s.store.get? ns name = some o ∧ Follows s t o o') : Upright ns name m t := by
  refine ⟨ht, fun o' ho' hliving => ?_⟩
  obtain ⟨o, ho, hfollows⟩ := hstored o' ho'
  have hdel := isDeleting_eq_of_false hfollows hliving
  refine (h.backed o ho hdel).carry (objectId_stored hkeyed hkeyed' ho ho' hfollows.uid)
    hfollows.generation ?_
  intro hgen e he
  rw [(hfollows.same hgen).1]
  exact he.congr hlast

theorem Upright.mute (h : Upright ns name m s) {p : Pass α} (hp : Asks Mute p) :
    Always (uninterrupted .module) p s fun _ t => Upright ns name m t := by
  have hkept : ∀ (x : Contest) (c : Call) (a : c.Answer) (y : Contest), Mute c →
      (uninterrupted .module).may x c a y → Upright ns name m x → Upright ns name m y := by
    rintro x c a y hc ⟨store, hans, rfl⟩ hx
    obtain rfl := answered_of_isQuiet hc.1 hans
    refine ⟨⟨Story.admits_of_isQuiet hc.1, hx.truthful⟩, fun o ho hliving g e he => ?_⟩
    obtain ⟨hle, hgrounds⟩ := hx.backed o ho hliving g e he
    exact ⟨hle, fun hgen => (hgrounds hgen).congr fun _ => Story.lastReport?_asked hc.2⟩
  exact hp.always hkept h

/-- Where no living module is stored there is nothing to be known. -/
theorem upright_of_none (ht : s.story.Truthful)
    (hnone : ∀ o, s.store.get? ns name = some o → o.isDeleting = true) : Upright ns name m s :=
  ⟨ht, fun o ho hliving => absurd (hliving.symm.trans (hnone o ho)) Bool.false_ne_true⟩

theorem Opened.live_upright (hdry : setup.dryRun = false)
    (h : Opened .module ns name begun m r s) (hup : Upright ns name m s)
    (hliving : r.isDeleting = false) (hfin : r.hasFinalizer = true) :
    AlwaysFrom (uninterrupted .module) (Reconcile.live setup r) m s fun _ m' t =>
      Upright ns name m' t := by
  rw [Reconcile.always_live]
  have hrests : ((m.lifecycle.ensure (.ofResource r) r.generation .start).1).Rests r s.story :=
    (h.passing.sound.living r h.stored hliving).ensured rfl
  have hfresh : (Entry.fresh r.generation .start).Grounds r.aim s.story :=
    fun _ hnone => absurd hnone (by simp [Entry.fresh])
  have hgrounds := (hup.backed r h.stored hliving).ensured hfresh
  refine (((h.tending hfin _).live hdry hliving hrests).and
    ((h.tending hfin _).live_recalls hdry hrests hup.truthful hgrounds)).mono ?_
  rintro o j t ⟨hover, hrecalls⟩
  refine ⟨hrecalls.truthful, fun o' ho' _ => ?_⟩
  obtain ⟨huid, _, hle, _⟩ := hover.stored o' ho'
  exact (hup.backed r h.stored hliving).recorded
    (objectId_stored h.passing.sound.keyed hover.keyed h.stored ho' huid) hle
    (hrecalls.grounds o' ho')

/-- A removal records no version, and what is left of the module is being deleted. -/
theorem Opened.clear_upright (hdry : setup.dryRun = false)
    (h : Opened .module ns name begun m r s) (hup : Upright ns name m s)
    (hdel : r.isDeleting = true) :
    AlwaysFrom (uninterrupted .module) (Reconcile.clear setup r) m s fun _ m' t =>
      Upright ns name m' t := by
  rw [Reconcile.always_clear]
  split
  · rename_i hfin
    have hentry := (h.passing.sound.dying r h.stored).ensured ⟨hdel, fun _ => trivial⟩
    have hat : At .module ns name begun r .delete _ _ (Job.start setup r
        (m.deletion.ensure (.ofResource r) r.generation .start).1) s :=
      ⟨h.tending hfin _, rfl, rfl, hentry.2⟩
    have hfirm : Firm ns name begun r .delete _ _ (Job.start setup r
        (m.deletion.ensure (.ofResource r) r.generation .start).1) s :=
      ⟨hat, hup.truthful, trivial, fun hne => absurd rfl hne⟩
    have htruthful : AlwaysFrom (uninterrupted .module) (Work.clear setup) (Job.start setup r
        (m.deletion.ensure (.ofResource r) r.generation .start).1) s
        fun _ _ t => t.story.Truthful := by
      rw [Work.always_clear]
      refine (hfirm.perform hdry).mono ?_
      intro o j' t hrested
      split
      · exact hrested.truthful
      · rw [Pass.always_removeFinalizer]
        split
        · refine (truthful_persistResource hrested.truthful _).mono ?_
          intro or u hu
          split
          · exact hu
          · exact hu
        · split
          · exact hrested.truthful
          · exact hrested.truthful
    refine ((hat.clear hdry hdel h.smooth).and htruthful).mono ?_
    rintro ⟨forget, o⟩ j t ⟨hover, ht⟩
    exact upright_of_none ht fun o ho => (hover.stored o ho).2.1.trans hdel
  · refine upright_of_none hup.truthful fun o ho => ?_
    obtain rfl : r = o := Option.some.inj (h.stored.symm.trans ho)
    exact hdel

theorem Opened.found_upright (hdry : setup.dryRun = false)
    (h : Opened .module ns name begun m r s) (hup : Upright ns name m s) :
    AlwaysFrom (uninterrupted .module) (Reconcile.found setup r) m s fun _ m' t =>
      Upright ns name m' t := by
  rw [Reconcile.always_found]
  split
  · rename_i hdel
    exact h.clear_upright hdry hup hdel
  · rename_i hno
    have hliving : r.isDeleting = false := Bool.not_eq_true _ ▸ hno
    split
    · exact hup
    · rw [Pass.always_ensureFinalizer]
      split
      · rename_i hfin
        exact h.live_upright hdry hup hliving hfin
      · have hmute : Asks (fun c : Call => c.isReport = false)
            (Pass.persistResource r.addFinalizer) := by
          refine ⟨rfl, ?_⟩
          rintro (e | new)
          · exact ((Pass.mute_refused e).mono fun _ hc => hc.2).bind fun _ => trivial
          · exact trivial
        refine ((h.saved_addFinalizer hliving).and ((lastReport_mute hmute).and
          (truthful_persistResource hup.truthful _))).mono ?_
        rintro ⟨o, r'⟩ t ⟨hsaved, hlast, ht⟩
        have hup' : Upright ns name m t :=
          hup.carry h.passing.sound.keyed hsaved.keyed ht hlast fun o ho => ⟨r, h.stored,
            (hsaved.follows h.stored (Resource.spec_addFinalizer r)
              (Resource.key_addFinalizer r) ho).1⟩
        dsimp only
        split
        · exact hup'
        · exact hup'.mute Pass.mute_shortDelay

/-- A pass writes honest successes only, and remembers what it knows. -/
theorem Upright.pass (hdry : setup.dryRun = false) (hsound : Sound .module ns name m s)
    (h : Upright ns name m s) :
    AlwaysFrom (uninterrupted .module) (reconcile setup .module ns name) m
      ⟨s.store, .began :: s.story⟩ fun _ m' t => Upright ns name m' t := by
  rw [always_reconcile]
  intro a t hmay
  obtain ⟨store, hans, rfl⟩ := hmay
  obtain rfl := answered_of_isQuiet rfl hans
  have hup : Upright ns name m
      ⟨s.store, .asked (.store (.get .module ns name)) a :: .began :: s.story⟩ := by
    have hlast : ∀ place, Story.lastReport? place
        (.asked (.store (.get .module ns name)) a :: .began :: s.story) =
          s.story.lastReport? place := fun _ => rfl
    refine ⟨⟨trivial, h.truthful⟩, fun o ho hliving g e he => ?_⟩
    obtain ⟨hle, hgrounds⟩ := h.backed o ho hliving g e he
    exact ⟨hle, fun hgen => (hgrounds hgen).congr hlast⟩
  rcases a with e | _ | r
  · exact hup.mute (Pass.asks_shortDelayWith (fun _ => mute_of_isAside) _)
  · have hnone := stored_of_answered hans
    exact upright_of_none hup.truthful fun o ho => absurd (hnone.symm.trans ho) (by simp)
  · have hopened := hsound.opened (stored_of_answered hans)
    dsimp only
    split
    · exact hup
    · exact hopened.found_upright hdry hup

/-- Whatever operator and users have done to a module, all successes in its story were honest. -/
theorem Operated.upright (h : Operated .module ns name past m s) : Upright ns name m s := by
  induction h with
  | start keyed => exact ⟨trivial, fun _ _ _ => Tracker.backed_empty⟩
  | edit before hedit ih =>
      obtain ⟨_, _, _, _, _, _, _, hkeyed, hstory⟩ := hedit.stored before.sound.keyed
      refine ih.carry before.sound.keyed hkeyed (hstory ▸ ih.truthful) (fun place => ?_)
        fun o ho => ?_
      · rw [hstory]
        rfl
      obtain ⟨old, hold, hfollows, _⟩ := hedit.follows before.sound.keyed ho
      exact ⟨old, hold, hfollows⟩
  | delete before now ih =>
      refine ih.carry before.sound.keyed (before.sound.keyed.markDeleted _ _ now) ih.truthful
        (fun _ => rfl) fun o ho => ?_
      obtain ⟨old, hold, hfollows, _⟩ := follows_markDeleted ho
      exact ⟨old, hold, hfollows⟩
  | release before free ih =>
      refine upright_of_none ih.truthful fun o ho => ?_
      exact absurd (Table.get?_erase_self.symm.trans ho) (by simp)
  | pass before wet run ih => exact always_iff_runs.1 (ih.pass wet before.sound) _ _ run
  | restart before ih => exact ⟨trivial, fun _ _ _ => Tracker.backed_empty⟩

/-- The version that is recorded with a success is the true one: it is not blank, and it is
the version of the chart in the last report of Helm since the work of the same run was done. -/
def VersionTrue (w : Resource) (story : Story) : Prop :=
  ∃ version info after e before, w.lastVersion = some version ∧
    Text.isBlankText version = false ∧ story = after ++ e :: before ∧
    (∀ x ∈ after, Event.Keeps w.aim x) ∧ e.Enters .awaitWork ∧
    Story.lastReport? w.aim.place after = some (.ok (some info)) ∧
    version = Text.trim info.chartVersion

theorem not_isBlankText_trim {text : String} (h : Text.trim text ≠ "") :
    Text.isBlankText (Text.trim text) = false := by
  cases hblank : Text.isBlankText (Text.trim text) with
  | false => rfl
  | true =>
      have hempty := Text.trim_of_isBlankText hblank
      rw [Text.trim_trim] at hempty
      exact absurd hempty h

/-- The version that is recorded with the success of an installation, an upgrade or an update
is the true one, unless it is an update of a module that asks for no version. -/
theorem recorded_version_true_iff (h : Operated .module ns name past m s)
    {answer : Call.Answer (.store (.updateStatus w))}
    (hwrite : (.asked (.store (.updateStatus w)) answer :: es) <:+ s.story)
    (hreason : reason ∈ Reason.successes) (hends : endsIn w.conditions reason) :
    VersionTrue w es ↔ ¬ (reason = .updateSucceeded ∧ w.desiredVersion = "") := by
  have hhonest := h.upright.truthful.admits hwrite reason hreason hends
  constructor
  · rintro ⟨version, info, after, e, before, hrecorded, hblank, _⟩ ⟨_, hnone⟩
    have hversion := Option.some.inj (hrecorded.symm.trans hhonest.recorded)
    rw [hversion, hnone] at hblank
    exact absurd hblank (by decide)
  · intro hasked
    have hne : w.desiredVersion ≠ "" := fun hnone => hasked ⟨hhonest.versioned hnone, hnone⟩
    obtain ⟨_, _, _, hproven⟩ := h.guarded hwrite
    obtain ⟨after, e, before, hes, hkeeps, henters, hready⟩ := hproven reason hreason hends
    obtain ⟨reported, hmem, _⟩ := hready.deployed
    obtain ⟨info, hlast, _, hchart⟩ := hhonest.confirmed
    have hversion : w.desiredVersion = Text.trim info.chartVersion := (hchart hne).symm
    have hsplit : es = after ++ e :: before := hes
    rw [hsplit, Story.lastReport?_append hmem] at hlast
    refine ⟨w.desiredVersion, info, after, e, before, hhonest.recorded, ?_, hsplit, hkeeps, henters,
      hlast, hversion⟩
    rw [hversion] at hne ⊢
    exact not_isBlankText_trim hne

/-- The hypotheses of `recorded_version_true_iff` hold of an installation, and the version that
it records is the true one. -/
theorem recorded_version_true_iff_concluded :
    Operated .module "default" "web" [] concludingPass.1.2 concludingPass.2 ∧
      ∃ w answer es, (.asked (.store (.updateStatus w)) answer :: es) <:+ concludingPass.2.story ∧
        Reason.installSucceeded ∈ Reason.successes ∧ endsIn w.conditions .installSucceeded ∧
        VersionTrue w es := by
  refine ⟨operated_concludingPass, ?_⟩
  obtain ⟨w, answer, es, hsuffix, hends⟩ := exists_installed_concludingPass
  have htrue : VersionTrue w es :=
    (recorded_version_true_iff operated_concludingPass hsuffix (by decide) hends).2
      (fun hupdate => absurd hupdate.1 (by decide))
  exact ⟨w, answer, es, hsuffix, by decide, hends, htrue⟩

/-! ### A version that gets lost -/

/-- The pass over the installed module `web` after its version was cleared. -/
def updatingPass : (Except PassError Outcome × Memory) × Contest :=
  attendedPass trialSetup .module "default" "web" hesitant concludingPass.1.2
    (editTo "default" "web" (trialSpec "" 1) concludingPass.2)

/-- Whether an event is a status written that ends in the success of an update and records the
empty version. -/
def isVersionless : Event → Bool
  | .asked (.store (.updateStatus w)) (.ok _) =>
    (Condition.latestReady? w.conditions).any (fun c => c.reason = Reason.updateSucceeded.name) &&
      w.lastVersion == some ""
  | _ => false

/-- After the version of an installed module was cleared, the success of the update is recorded
with an empty version, although Helm reported the version 0.1.0. -/
theorem cleared_version_recorded :
    Operated .module "default" "web" [] updatingPass.1.2 updatingPass.2 ∧
      ∃ w new es, (.asked (.store (.updateStatus w)) (.ok new) :: es) <:+ updatingPass.2.story ∧
        Reason.updateSucceeded ∈ Reason.successes ∧ endsIn w.conditions .updateSucceeded ∧
        w.lastVersion = some "" ∧ ¬ VersionTrue w es := by
  have hoperated : Operated .module "default" "web" [] updatingPass.1.2 updatingPass.2 := by
    unfold updatingPass
    exact (operated_concludingPass.edits (edits_editTo _ _ _ _)).attended rfl hesitant
  refine ⟨hoperated, ?_⟩
  have hany : updatingPass.2.story.any isVersionless = true := by decide +kernel
  obtain ⟨e, es, hsuffix, hversionless⟩ := exists_suffix_of_any hany
  unfold isVersionless at hversionless
  split at hversionless
  · rename_i w new
    rw [Bool.and_eq_true, beq_iff_eq] at hversionless
    obtain ⟨hupdated, hlast⟩ := hversionless
    obtain ⟨c, hc, hreason⟩ := (Option.any_eq_true _ _).1 hupdated
    refine ⟨w, new, es, hsuffix, by decide, ⟨c, hc, of_decide_eq_true hreason⟩, hlast, ?_⟩
    rintro ⟨version, _, _, _, _, hrecorded, hblank, _⟩
    obtain rfl : "" = version := Option.some.inj (hlast.symm.trans hrecorded)
    exact absurd hblank (by decide)
  · exact absurd hversionless Bool.false_ne_true

end Contest

end ReleaseOperator
