import ReleaseOperator.Proofs.Evidence.Passes

/-!
# The version behind a success

The version that a module records is the one that it asks for; whether that is the version of
the release is found out in the wait, some steps and perhaps some passes earlier. What carries
the version from there to the record is that Helm is not asked again: behind the wait its last
report of the release is the one that ended the wait. A version is there to be compared
whenever the release is upgraded, and also when it is installed, as a missing one is pinned
first. Only an update may go without.
-/

namespace ReleaseOperator

open InMemory Relation Program Work

/-- A resource with the status of another one of its kind has recorded its version. -/
theorem Resource.lastVersion_copyStatus {r w : Resource} (h : r.kind = w.kind) :
    (r.copyStatus w).lastVersion = w.lastVersion := by
  have hkind : (r.copyStatus w).kind = w.kind := h
  rw [lastVersion, lastVersion, hkind]
  rfl

/-- Whether Helm is asked for a release. -/
def Call.isReport : Call → Bool
  | .helm (.releaseInfo _ _) => true
  | _ => false

/-- What Helm answers about the release at a place. -/
def Event.report? (place : String × String) :
    Event → Option (Except HelmError (Option ReleaseInfo))
  | .asked (.helm (.releaseInfo name ns)) a => if (name, ns) = place then some a else none
  | _ => none

variable {aim : Aim} {action : Action} {stage : Stage} {story recent : Story} {c : Call}
  {a : c.Answer} {place : String × String} {w : Resource} {reason : Reason} {version : String}

theorem Event.report?_asked (hc : c.isReport = false) : (asked c a).report? place = none := by
  rcases c with _ | _ | (_ | _ | _ | _ | _ | _) | _ | _ | _ | _ <;>
    first | rfl | exact absurd hc.symm Bool.false_ne_true

namespace Story

/-- What Helm has answered when it was last asked for the release at a place. -/
def lastReport? (place : String × String) (story : Story) :
    Option (Except HelmError (Option ReleaseInfo)) :=
  story.findSome? (Event.report? place)

theorem lastReport?_asked (hc : c.isReport = false) :
    lastReport? place (.asked c a :: story) = story.lastReport? place := by
  rw [lastReport?, List.findSome?_cons, Event.report?_asked hc]
  rfl

theorem lastReport?_self {name ns : String} {a : Except HelmError (Option ReleaseInfo)}
    (h : (name, ns) = place) :
    lastReport? place (.asked (.helm (.releaseInfo name ns)) a :: story) = some a := by
  have hreport : Event.report? place (.asked (.helm (.releaseInfo name ns)) a) = some a := if_pos h
  rw [lastReport?, List.findSome?_cons, hreport]

/-- Where Helm was asked in the newer part of a story, what was asked before makes no
difference. -/
theorem lastReport?_append {a : Except HelmError (Option ReleaseInfo)}
    (hmem : .asked (.helm (.releaseInfo place.1 place.2)) a ∈ recent) :
    lastReport? place (recent ++ story) = recent.lastReport? place := by
  have hreport : Event.report? place (.asked (.helm (.releaseInfo place.1 place.2)) a) = some a :=
    if_pos rfl
  have hsome : (recent.lastReport? place).isSome = true :=
    List.findSome?_isSome_iff.2 ⟨_, hmem, by rw [hreport]; rfl⟩
  rw [lastReport?, List.findSome?_append]
  exact Option.or_of_isSome hsome

/-- Helm's last report is that the release is deployed, and at the version asked for. -/
def Confirmed (aim : Aim) (story : Story) : Prop :=
  ∃ info, story.lastReport? aim.place = some (.ok (some info)) ∧ info.status = .deployed ∧
    (aim.version ≠ "" → Text.trim info.chartVersion = aim.version)

theorem Confirmed.asked (hc : c.isReport = false) (h : Confirmed aim story) :
    Confirmed aim (.asked c a :: story) := by
  obtain ⟨info, hlast, hinfo⟩ := h
  exact ⟨info, (lastReport?_asked hc).trans hlast, hinfo⟩

end Story

/-- What can be said of the version that is asked for while an action is at a stage: an upgrade
has one, and an installation has one when it is past the pinning. -/
def Versioned (version : String) : Action → Stage → Prop
  | .upgrade, _ => version ≠ ""
  | .install, stage => Stage.preWork.rank < stage.rank → stage ≠ .finish → version ≠ ""
  | _, _ => True

/-- Only the pinning itself has to be looked at. -/
theorem Versioned.next (h : Versioned version action stage)
    (hpin : action = .install → stage = .preWork → version ≠ "") :
    Versioned version action stage.next := by
  cases action with
  | install =>
      intro hrank hfinish
      cases stage <;> first
        | exact hpin rfl rfl
        | exact absurd rfl hfinish
        | exact absurd hrank (by decide)
        | exact h (by decide) (by decide)
  | upgrade => exact h
  | update => trivial
  | delete => trivial

/-- Where a version is missing, nothing is said that a new one could break. -/
theorem Versioned.renew (h : Versioned "" action stage) : Versioned version action stage := by
  cases action with
  | install => exact fun hrank hfinish => absurd rfl (h hrank hfinish)
  | upgrade => exact absurd rfl h
  | update => trivial
  | delete => trivial

theorem Versioned.finish (h : Versioned version action stage) :
    Versioned version action .finish := by
  cases action with
  | upgrade => exact h
  | install => exact fun _ hfinish => absurd rfl hfinish
  | update => trivial
  | delete => trivial

namespace Story

/-- What is known of the version when an action is at a stage. -/
structure Grounded (aim : Aim) (action : Action) (stage : Stage) (story : Story) : Prop where
  versioned : Versioned aim.version action stage
  confirmed : action ≠ .delete → 6 < stage.rank → stage ≠ .finish → Confirmed aim story

/-- Up to the wait nothing is said of Helm's reports. -/
theorem grounded_of_rank_le (hstage : stage.rank ≤ 6) (h : Versioned aim.version action stage) :
    Grounded aim action stage story :=
  ⟨h, fun _ hlate => absurd hlate (Nat.not_lt.2 hstage)⟩

theorem Grounded.asked (hc : c.isReport = false) (h : Grounded aim action stage story) :
    Grounded aim action stage (.asked c a :: story) :=
  ⟨h.versioned, fun haction hlate hfinish => (h.confirmed haction hlate hfinish).asked hc⟩

/-- A success in which the version asked for is recorded and confirmed. Only an update may have
been asked for none. -/
structure Honest (w : Resource) (reason : Reason) (story : Story) : Prop where
  recorded : w.lastVersion = some w.desiredVersion
  confirmed : Confirmed w.aim story
  versioned : w.desiredVersion = "" → reason = .updateSucceeded

/-- Whether a call may be made: only an honest success is written. -/
def Admits (story : Story) : Call → Prop
  | .store (.updateStatus w) =>
    ∀ reason ∈ Reason.successes, endsIn w.conditions reason → Honest w reason story
  | _ => True

theorem admits_of_isQuiet (hq : c.isQuiet = true) : story.Admits c := by
  rcases c with (_ | _ | _) | _ | (_ | _ | _ | _ | _ | _) | _ | _ | _ | _ <;>
    first | exact trivial | exact absurd hq Bool.false_ne_true

/-- All successes in a story were honest. -/
def Truthful : Story → Prop
  | [] => True
  | .asked c _ :: es => Admits es c ∧ Truthful es
  | _ :: es => Truthful es

theorem Truthful.admits {es : Story} (h : Truthful story) (hsuffix : (.asked c a :: es) <:+ story) :
    es.Admits c := by
  induction story with
  | nil => exact absurd (List.suffix_nil.1 hsuffix) (List.cons_ne_nil _ _)
  | cons x rest ih =>
      rcases List.suffix_cons_iff.1 hsuffix with heq | hsuffix
      · injection heq with hevent hes
        subst hevent hes
        exact h.1
      · refine ih ?_ hsuffix
        cases x with
        | asked c' a' => exact h.2
        | began => exact h
        | edited => exact h

/-- What goes with an action at a stage. -/
structure Standing (aim : Aim) (action : Action) (stage : Stage) (story : Story) : Prop where
  truthful : story.Truthful
  grounded : story.Grounded aim action stage

theorem Standing.asked (hc : c.isReport = false) (hadmits : story.Admits c)
    (h : Standing aim action stage story) : Standing aim action stage (.asked c a :: story) :=
  ⟨⟨hadmits, h.truthful⟩, h.grounded.asked hc⟩

/-- Up to the wait Helm may be asked as well. -/
theorem Standing.early (hstage : stage.rank ≤ 6) (hadmits : story.Admits c)
    (h : Standing aim action stage story) : Standing aim action stage (.asked c a :: story) :=
  ⟨⟨hadmits, h.truthful⟩, grounded_of_rank_le hstage h.grounded.versioned⟩

/-- What goes with the next stage comes from the pinning and from the wait, or it was there
before. -/
theorem Standing.next (h : Standing aim action stage story)
    (hpin : action = .install → stage = .preWork → aim.version ≠ "")
    (hwait : action ≠ .delete → stage = .awaitWork → Confirmed aim story) :
    Standing aim action stage.next story := by
  refine ⟨h.truthful, h.grounded.versioned.next hpin, fun haction hlate hfinish => ?_⟩
  cases stage with
  | awaitWork => exact hwait haction rfl
  | announcePostWork => exact h.grounded.confirmed haction (by decide) (by decide)
  | postWork => exact h.grounded.confirmed haction (by decide) (by decide)
  | complete => exact absurd rfl hfinish
  | finish => exact absurd rfl hfinish
  | _ => exact absurd hlate (by decide)

theorem Standing.finish (h : Standing aim action stage story) :
    Standing aim action .finish story :=
  ⟨h.truthful, h.grounded.versioned.finish, fun _ _ hfinish => absurd rfl hfinish⟩

end Story

/-- Questions that change nothing and do not ask Helm for a release. -/
def Mute (c : Call) : Prop := c.isQuiet = true ∧ c.isReport = false

theorem mute_of_isAside {c : Call} (h : c.isAside = true) : Mute c := by
  cases c with
  | store c => exact absurd h Bool.false_ne_true
  | helm c => exact absurd h Bool.false_ne_true
  | count c => exact absurd h Bool.false_ne_true
  | _ => exact ⟨rfl, rfl⟩

namespace Pass

theorem mute_shortDelay : Asks Mute shortDelay := asks_shortDelay fun _ => mute_of_isAside

theorem mute_refused (e : ClusterError) : Asks Mute (refused e) :=
  asks_refused (fun _ => mute_of_isAside) e

theorem mute_manifestReady (release : Release) : Asks Mute (manifestReady release) :=
  asks_manifestReady (fun _ => mute_of_isAside) ⟨rfl, rfl⟩

end Pass

namespace Contest

variable {setup : Setup} {ns name : String} {begun s t : Contest} {r o : Resource} {j : Job}
  {pinned : Option Action} {e : Entry} {α : Type}

/-- The story of a state after a call. -/
theorem story_of_may (hmay : (uninterrupted .module).may s c a t) :
    t.story = .asked c a :: s.story := by
  obtain ⟨_, _, rfl⟩ := hmay
  rfl

theorem standing_mute {p : Pass α} (hp : Asks Mute p)
    (h : s.story.Standing aim action stage) :
    Always (uninterrupted .module) p s fun _ t => t.story.Standing aim action stage := by
  refine hp.always ?_ h
  intro s c a t hc hmay h
  rw [story_of_may hmay]
  exact h.asked hc.2 (Story.admits_of_isQuiet hc.1)

/-- At a stage of an action on a module, with what is known of its version. -/
structure Firm (ns name : String) (begun : Contest) (r : Resource) (action : Action)
    (pinned : Option Action) (stage : Stage) (j : Job) (s : Contest) : Prop where
  there : At .module ns name begun r action pinned stage j s
  standing : s.story.Standing r.aim action stage

/-- What is known of the version when the work on a module has stopped. -/
structure Rested (ns name : String) (r : Resource) (action : Action) (e : Entry)
    (s : Contest) : Prop where
  truthful : s.story.Truthful
  grounded : ∀ o, s.store.get? ns name = some o → o.generation = r.generation →
    s.story.Grounded o.aim action e.stage

theorem Firm.rested (h : Firm ns name begun r action pinned stage j s) :
    Rested ns name r action j.entry s := by
  refine ⟨h.standing.truthful, fun o ho _ => ?_⟩
  obtain ⟨o', ho', hmatch⟩ := h.there.tending.stored
  obtain rfl : o = o' := Option.some.inj (ho.symm.trans ho')
  rw [hmatch.aim, h.there.reached]
  exact h.standing.grounded

theorem Rested.mute (h : Rested ns name r action e s) (hc : Mute c)
    (hmay : (uninterrupted .module).may s c a t) : Rested ns name r action e t := by
  obtain ⟨store, hans, rfl⟩ := hmay
  obtain rfl := answered_of_isQuiet hc.1 hans
  exact ⟨⟨Story.admits_of_isQuiet hc.1, h.truthful⟩,
    fun o ho hgen => (h.grounded o ho hgen).asked hc.2⟩

/-! ### Writing -/

/-- A status is put onto the stored copy, which is the resource as it was found. -/
theorem Firm.standing_persistStatus (h : Firm ns name begun r action pinned stage j s)
    (hmeta : w.metadata = j.resource.metadata) (hspec : w.spec = j.resource.spec)
    (hadmits : ∀ (latest : Resource) (story : Story), r.Matches latest →
      story.Standing r.aim action stage →
      story.Admits (.store (.updateStatus (latest.copyStatus w)))) :
    Always (uninterrupted .module) (Pass.persistStatus w) s fun _ t =>
      t.story.Standing r.aim action stage := by
  obtain ⟨hwkind, hwkey⟩ := h.there.tending.writes (h.there.tending.copy.of_eq hmeta hspec)
  injection hwkey with hwns hwname
  rw [Pass.always_persistStatus, hwkind, hwns, hwname]
  intro a s₁ hmay
  obtain ⟨_, _, hsome⟩ := h.there.get hmay
  have h₁ : s₁.story.Standing r.aim action stage := by
    rw [story_of_may hmay]
    exact h.standing.asked rfl trivial
  rcases a with e | _ | latest
  · exact standing_mute (Pass.mute_refused e) h₁
  · exact standing_mute Pass.mute_shortDelay h₁
  · dsimp only
    split
    · exact standing_mute Pass.mute_shortDelay h₁
    · intro a s₂ hmay₂
      have h₂ : s₂.story.Standing r.aim action stage := by
        rw [story_of_may hmay₂]
        exact h₁.asked rfl (hadmits latest _ (hsome latest rfl) h₁)
      rw [Pass.always_afterWrite]
      cases a with
      | ok new => exact h₂
      | error e => exact standing_mute (Pass.mute_refused e) h₂

/-- The status that concludes an action is an honest one. -/
theorem Firm.standing_conclude (h : Firm ns name begun r action pinned .complete j s)
    {reaches : Bool}
    (hsuccess : reason ∈ Reason.successes → reaches = true ∧ action ≠ .delete ∧
      (r.desiredVersion = "" → reason = .updateSucceeded)) :
    AlwaysFrom (uninterrupted .module) (Work.conclude reason reaches) j s fun _ _ t =>
      t.story.Standing r.aim action .complete := by
  rw [Work.always_conclude]
  refine ((h.there.calm calm_now).and (standing_mute ⟨⟨rfl, rfl⟩, fun _ => trivial⟩
    h.standing)).mono ?_
  rintro time t ⟨hat, hstanding⟩
  have ht : Firm ns name begun r action pinned .complete j t := ⟨hat, hstanding⟩
  refine ht.standing_persistStatus (Work.metadata_concluded j reason reaches time)
    (Work.spec_concluded j reason reaches time) ?_
  intro latest story hmatch hstory reason' hmem hends
  obtain rfl : reason = reason' :=
    endsIn_unique (Work.endsIn_concluded j reason reaches time) hends
  obtain ⟨rfl, haction, hversion⟩ := hsuccess hmem
  have hdesired : latest.desiredVersion = r.desiredVersion := congrArg Aim.version hmatch.aim
  have haim : (latest.copyStatus (Work.concluded j reason true time)).aim = r.aim := hmatch.aim
  have hmodule : j.resource.kind = .module :=
    hat.tending.copy.kind.trans hat.tending.place.1
  have hkind : latest.kind = (Work.concluded j reason true time).kind := by
    rw [Resource.kind, Resource.kind, Work.spec_concluded, hmatch.spec, ← hat.tending.copy.spec]
  refine ⟨?_, ?_, fun hblank => hversion (hdesired.symm.trans hblank)⟩
  · rw [Resource.lastVersion_copyStatus hkind, (Work.success_concluded j reason time hmodule).1]
    exact congrArg some ((congrArg Aim.version hat.tending.copy.aim).trans hdesired.symm)
  · rw [haim]
    exact hstory.grounded.confirmed haction (by decide) (by decide)

theorem truthful_persistResource (h : s.story.Truthful) (w : Resource) :
    Always (uninterrupted .module) (Pass.persistResource w) s fun _ t => t.story.Truthful := by
  rw [Pass.always_persistResource]
  intro a t hmay
  have ht : t.story.Truthful := by
    rw [story_of_may hmay]
    exact ⟨trivial, h⟩
  rw [Pass.always_afterWrite]
  cases a with
  | ok new => exact ht
  | error e =>
      refine (Pass.quiet_refused e).always ?_ ht
      intro x c a y hq hmay hx
      rw [story_of_may hmay]
      exact ⟨Story.admits_of_isQuiet hq, hx⟩

/-! ### Steps up to the work -/

/-- What is recorded on the way is no success. -/
theorem not_endsIn_success {reason' : Reason} (hends : endsIn w.conditions reason)
    (hreason : reason ∈ Reason.underway) (hmem : reason' ∈ Reason.successes) :
    ¬ endsIn w.conditions reason' := by
  intro hends'
  rw [← endsIn_unique hends hends'] at hmem
  have hnot : ∀ x ∈ Reason.underway, x ∉ Reason.successes := by decide
  exact hnot reason hreason hmem

theorem Firm.upheld (hstage : stage.rank ≤ 5) :
    Upheld (uninterrupted .module) setup (fun reason => reason ∈ Reason.underway)
      (Firm ns name begun r action pinned stage) (Rested ns name r action) := by
  have U : Upheld (uninterrupted .module) setup (fun reason => reason ∈ Reason.underway)
      (At .module ns name begun r action pinned stage)
      (Left .module ns name begun r action pinned) := At.upheld hstage
  have hearly : stage.rank ≤ 6 := Nat.le_succ_of_le hstage
  refine ⟨fun h => h.rested, ?look, fun h hmay => h.mute ⟨rfl, rfl⟩ hmay,
    fun e hs ha hd h => ⟨U.entry e hs ha hd h.there, h.standing⟩, ?status, ?pin, ?apply, ?applied,
    fun documents hdry h => ⟨U.rehearsed documents hdry h.there, h.standing⟩, ?remove⟩
  case look =>
    intro j s c a t hq h hmay
    refine ⟨U.look hq h.there hmay, ?_⟩
    rw [story_of_may hmay]
    exact h.standing.early hearly (Story.admits_of_isQuiet hq)
  case status =>
    intro j s w reason h hrecorded hreason
    have hnone : ∀ reason' ∈ Reason.successes, ¬ endsIn w.conditions reason' :=
      fun _ hmem => not_endsIn_success hrecorded.endsIn hreason hmem
    refine ((h.there.persistStatus hrecorded.metadata hrecorded.spec fun reason' hmem hends =>
      absurd hends (hnone reason' hmem)).and
      (h.standing_persistStatus hrecorded.metadata hrecorded.spec fun _ _ _ _ reason' hmem hends =>
        absurd hends (hnone reason' hmem))).mono ?_
    rintro or t ⟨hat, hstanding⟩
    have ht : Firm ns name begun r action pinned stage { j with resource := or.2 } t :=
      ⟨hat, hstanding⟩
    unfold Proceeds
    split
    · exact ht.rested
    · exact ht
  case pin =>
    intro j s t credentials version h hblank hmay
    have hversion : r.aim.version = "" := by
      rw [← h.there.tending.copy.aim]
      exact String.isEmpty_iff.1 hblank
    have ht : t.story.Truthful := by
      rw [story_of_may hmay]
      exact ⟨trivial, h.standing.truthful⟩
    refine (truthful_persistResource ht _).mono ?_
    intro or u hu
    refine ⟨hu, fun o _ _ => ?_⟩
    rw [h.there.reached]
    have hversioned := h.standing.grounded.versioned
    rw [hversion] at hversioned
    exact Story.grounded_of_rank_le hearly hversioned.renew
  case apply =>
    intro j s request e t h hrequest hmay
    refine ⟨U.apply h.there hrequest hmay, ?_⟩
    rw [story_of_may hmay]
    exact h.standing.asked rfl trivial
  case applied =>
    intro j s request documents info t h hrequest hresolved hmay
    refine ⟨U.applied h.there hrequest hresolved hmay, ?_⟩
    rw [story_of_may hmay]
    exact h.standing.asked rfl trivial
  case remove =>
    intro j s a t h hmay
    refine ⟨U.remove h.there hmay, ?_⟩
    rw [story_of_may hmay]
    exact h.standing.asked rfl trivial

/-! ### The wait -/

theorem standing_quiet {p : Pass α} (hp : Asks (fun c => c.isQuiet = true) p)
    (hstage : stage.rank ≤ 6) (h : s.story.Standing aim action stage) :
    Always (uninterrupted .module) p s fun _ t => t.story.Standing aim action stage := by
  refine hp.always ?_ h
  intro s c a t hq hmay h
  rw [story_of_may hmay]
  exact h.early hstage (Story.admits_of_isQuiet hq)

/-- A release that is told to be ready is confirmed, and Helm is not asked for it again. -/
theorem confirmed_releaseReady {release : Release} (hplace : release.place = aim.place) :
    Always (uninterrupted .module) (Pass.releaseReady release aim.version) s fun ready t =>
      ready.1 = true → t.story.Confirmed aim := by
  have hno : ∀ {p : Pass (Bool × Outcome)} {x : Contest},
      Always (uninterrupted .module) p x (fun ready _ => ready.1 = false) →
      Always (uninterrupted .module) p x fun ready t => ready.1 = true → t.story.Confirmed aim :=
    fun hp => hp.mono fun _ _ hno hyes => absurd (hno.symm.trans hyes) Bool.false_ne_true
  rw [Pass.releaseReady, always_bind, Pass.always_helm]
  rintro (e | _ | info) t hmay
  · exact hno (always_unanswered _)
  · exact fun hyes : false = true => absurd hyes Bool.false_ne_true
  · dsimp only
    split
    · rename_i hdeployed
      rw [Pass.isDeployedAt, Bool.and_eq_true, decide_eq_true_eq, Bool.or_eq_true,
        String.isEmpty_iff, decide_eq_true_eq] at hdeployed
      have ht : t.story.Confirmed aim := by
        rw [story_of_may hmay]
        exact ⟨info, Story.lastReport?_self hplace, hdeployed.1,
          fun hne => hdeployed.2.resolve_left hne⟩
      have hkept : ∀ (x : Contest) (c : Call) (a : c.Answer) (y : Contest), Mute c →
          (uninterrupted .module).may x c a y → x.story.Confirmed aim → y.story.Confirmed aim := by
        intro x c a y hc hmay hx
        rw [story_of_may hmay]
        exact hx.asked hc.2
      exact ((Pass.mute_manifestReady release).always hkept ht).mono fun _ _ hu _ => hu
    · exact fun hyes : false = true => absurd hyes Bool.false_ne_true

theorem Firm.isReady (hdry : setup.dryRun = false)
    (h : Firm ns name begun r action pinned .awaitWork j s) :
    AlwaysFrom (uninterrupted .module) (Work.isReady setup) j s fun ready _ t =>
      t.story.Standing r.aim action .awaitWork ∧ (ready.1 = true → t.story.Confirmed r.aim) := by
  have hversion : j.resource.desiredVersion = r.aim.version :=
    congrArg Aim.version h.there.tending.copy.aim
  have hready : Asks (fun c : Call => c.isQuiet = true) (j.isReady setup) :=
    (Pass.quiet_isReady setup j).mono fun _ hc => hc.1
  have hstanding := standing_quiet hready (by decide) h.standing
  rw [Work.always_isReady]
  rw [Job.isReady, hdry, hversion] at hstanding ⊢
  exact hstanding.and (confirmed_releaseReady h.there.tending.release)

theorem Firm.isGone (hdry : setup.dryRun = false)
    (h : Firm ns name begun r action pinned .awaitWork j s) :
    AlwaysFrom (uninterrupted .module) (Work.isGone setup) j s fun _ _ t =>
      t.story.Standing r.aim action .awaitWork := by
  rw [Work.isGone, hdry]
  simp only [Bool.false_eq_true, ↓reduceIte]
  rw [alwaysFrom_bind, alwaysFrom_get, alwaysFrom_bind, Work.always_ask, Pass.always_helm]
  intro a t hmay
  have ht : t.story.Standing r.aim action .awaitWork := by
    rw [story_of_may hmay]
    exact h.standing.early (Nat.le_refl 6) trivial
  cases a with
  | error e =>
      rw [Work.always_ask]
      exact standing_mute (Pass.asks_unanswered (fun _ => mute_of_isAside) (.helm e)) ht
  | ok info => exact ht

/-- The wait ends when Helm's last report is a confirmation. -/
theorem Firm.isDone (hdry : setup.dryRun = false)
    (h : Firm ns name begun r action pinned .awaitWork j s) :
    AlwaysFrom (uninterrupted .module) (Worker.forAction setup action).isDone j s fun done j' t =>
      Firm ns name begun r action pinned .awaitWork j' t ∧
        (done.1 = true → action ≠ .delete → t.story.Confirmed r.aim) := by
  have hdone : AlwaysFrom (uninterrupted .module) (Worker.forAction setup action).isDone j s
      fun done _ t => t.story.Standing r.aim action .awaitWork ∧
        (done.1 = true → action ≠ .delete → t.story.Confirmed r.aim) := by
    cases action with
    | delete =>
        exact (h.isGone hdry).mono fun _ _ _ ht => ⟨ht, fun _ hne => absurd rfl hne⟩
    | install => exact (h.isReady hdry).mono fun _ _ _ ht => ⟨ht.1, fun hyes _ => ht.2 hyes⟩
    | update => exact (h.isReady hdry).mono fun _ _ _ ht => ⟨ht.1, fun hyes _ => ht.2 hyes⟩
    | upgrade => exact (h.isReady hdry).mono fun _ _ _ ht => ⟨ht.1, fun hyes _ => ht.2 hyes⟩
  refine ((h.there.isDone hdry).and hdone).mono ?_
  rintro done j' t ⟨⟨hat, _⟩, hstanding, hconfirmed⟩
  exact ⟨⟨hat, hstanding⟩, hconfirmed⟩

/-! ### Whole runs -/

/-- A step leads to the next stage, or the work stops. -/
def GoesOn (ns name : String) (begun : Contest) (r : Resource) (action : Action)
    (pinned : Option Action) (stage : Stage) : Outcome → Job → Contest → Prop :=
  Worker.Onward (uninterrupted .module) action stage (Firm ns name begun r action pinned)
    fun _ j t => Rested ns name r action j.entry t

theorem goesOn_of_leads {o : Outcome} (h : Leads .module ns name begun r action pinned stage o j s)
    (hrest : Rested ns name r action j.entry s)
    (hnext : o.requeue = false → s.story.Standing r.aim action stage.next) :
    GoesOn ns name begun r action pinned stage o j s := by
  unfold Leads Worker.Onward at h
  unfold GoesOn Worker.Onward
  split
  · exact hrest
  · rename_i ho
    rw [if_neg ho, Work.always_enter] at h
    rw [Work.always_enter]
    intro u t hmay
    refine ⟨h u t hmay, ?_⟩
    rw [story_of_may hmay]
    exact (hnext (Bool.not_eq_true _ ▸ ho)).asked rfl trivial

/-- What precedes an installation comes back as long as there is no version. -/
theorem Firm.preInstall (h : Firm ns name begun r .install pinned .preWork j s) :
    AlwaysFrom (uninterrupted .module) (Work.preInstall setup) j s fun o _ _ =>
      o.requeue = false → r.aim.version ≠ "" := by
  have U : Upheld (uninterrupted .module) setup (fun reason => reason ∈ Reason.underway)
      (Firm ns name begun r .install pinned .preWork) (Rested ns name r .install) :=
    Firm.upheld (by decide)
  have hversion : j.resource.desiredVersion = r.aim.version :=
    congrArg Aim.version h.there.tending.copy.aim
  have hstops : ∀ {p : Work Outcome} {j : Job} {x : Contest},
      AlwaysFrom (uninterrupted .module) p j x (fun o _ _ => o.requeue = true) →
      AlwaysFrom (uninterrupted .module) p j x fun o _ _ =>
        o.requeue = false → r.aim.version ≠ "" :=
    fun hp => hp.mono fun _ _ _ ho hno => absurd (hno.symm.trans ho) Bool.false_ne_true
  rw [Work.always_preInstall]
  split
  · refine hstops ?_
    rw [Work.always_pinVersion]
    refine (U.quiet (Pass.quiet_credentials _ _) h).mono ?_
    intro c t ht
    cases c with
    | error e => exact (U.stopped_fail ht (by decide) _).mono fun _ _ _ hstop => hstop.1
    | ok credentials =>
        intro a t' hmay
        cases a with
        | error e =>
            refine (U.stopped_fail (U.look rfl ht hmay) (by decide) _).mono ?_
            exact fun _ _ _ hstop => hstop.1
        | ok version =>
            refine always_iff_runs.2 fun or u _ => ?_
            split
            · assumption
            · exact Pass.always_shortDelay fun _ _ _ => rfl
  · rename_i hsome
    refine always_iff_runs.2 fun _ _ _ _ hblank => ?_
    rw [← hversion, ← String.isEmpty_iff] at hblank
    exact hsome hblank

/-- Up to the work what goes with the next stage comes from the pinning. -/
theorem Firm.early (hdry : setup.dryRun = false) (hstage : stage.rank ≤ 5) {work : Work Outcome}
    (hmem : (stage, work) ∈ (Worker.forAction setup action).steps)
    (h : Firm ns name begun r action pinned stage j s) :
    AlwaysFrom (uninterrupted .module) work j s (GoesOn ns name begun r action pinned stage) := by
  have hne : stage ≠ .complete := by
    rintro rfl
    exact absurd hstage (by decide)
  have hpin : AlwaysFrom (uninterrupted .module) work j s fun o _ _ =>
      o.requeue = false → action = .install → stage = .preWork → r.aim.version ≠ "" := by
    by_cases hpre : action = .install ∧ stage = .preWork
    · obtain ⟨rfl, rfl⟩ := hpre
      have hwork : work = (Worker.forAction setup .install).preWork := by
        simpa [Worker.steps] using hmem
      rw [hwork]
      exact h.preInstall.mono fun _ _ _ hversion ho _ _ => hversion ho
    · exact always_iff_runs.2 fun _ _ _ _ haction hpre' => absurd ⟨haction, hpre'⟩ hpre
  refine (((Firm.upheld hstage).step (fun _ => id) action hmem hne h).and
    ((h.there.leads hdry hmem).and hpin)).mono ?_
  rintro o j' t ⟨hgoes, hleads, hversion⟩
  unfold Proceeds at hgoes
  split at hgoes
  · rename_i ho
    exact goesOn_of_leads hleads hgoes fun hno => absurd (hno.symm.trans ho) Bool.false_ne_true
  · refine goesOn_of_leads hleads hgoes.rested fun ho => hgoes.standing.next (hversion ho) ?_
    rintro - rfl
    exact absurd hstage (by decide)

/-- The class is asked after the wait, and Helm is not. -/
theorem Firm.postWork (h : Firm ns name begun r action pinned .postWork j s) :
    AlwaysFrom (uninterrupted .module) (Worker.forAction setup action).postWork j s
      fun _ _ t => t.story.Standing r.aim action .postWork := by
  have hhook : AlwaysFrom (uninterrupted .module) (Work.hook .postWork action) j s
      fun _ _ t => t.story.Standing r.aim action .postWork := by
    rw [Work.hook, Work.always_about]
    exact standing_mute ⟨⟨rfl, rfl⟩, fun _ => trivial⟩ h.standing
  cases action <;> exact hhook

theorem Firm.complete (h : Firm ns name begun r action pinned .complete j s) :
    AlwaysFrom (uninterrupted .module) (Worker.forAction setup action).complete j s
      fun _ _ t => t.story.Standing r.aim action .complete := by
  have hversioned := h.standing.grounded.versioned
  cases action with
  | install =>
      refine Work.always_concludeInstall ?_ (h.standing_conclude fun _ => ⟨rfl, by decide,
        fun hblank => absurd hblank (hversioned (by decide) (by decide))⟩)
      intro o j' s' u t hmay h'
      rw [story_of_may hmay]
      exact h'.asked rfl trivial
  | update => exact h.standing_conclude fun _ => ⟨rfl, by decide, fun _ => rfl⟩
  | upgrade =>
      exact h.standing_conclude fun _ => ⟨rfl, by decide, fun hblank => absurd hblank hversioned⟩
  | delete => exact h.standing_conclude fun hmem => absurd hmem (by decide)

theorem Firm.leads (hdry : setup.dryRun = false) {work : Work Outcome}
    (hmem : (stage, work) ∈ (Worker.forAction setup action).steps)
    (h : Firm ns name begun r action pinned stage j s) :
    AlwaysFrom (uninterrupted .module) work j s (GoesOn ns name begun r action pinned stage) := by
  have hlate : 6 < stage.rank →
      AlwaysFrom (uninterrupted .module) work j s (fun _ j' t =>
        At .module ns name begun r action pinned stage j' t) →
      AlwaysFrom (uninterrupted .module) work j s (fun _ _ t =>
        t.story.Standing r.aim action stage) →
      AlwaysFrom (uninterrupted .module) work j s (GoesOn ns name begun r action pinned stage) := by
    intro hstage hat hstanding
    refine ((h.there.leads hdry hmem).and (hat.and hstanding)).mono ?_
    rintro o j' t ⟨hleads, hat, hstanding⟩
    have ht : Firm ns name begun r action pinned stage j' t := ⟨hat, hstanding⟩
    refine goesOn_of_leads hleads ht.rested fun _ => hstanding.next ?_ ?_
    · rintro - rfl
      exact absurd hstage (by decide)
    · rintro - rfl
      exact absurd hstage (by decide)
  have hsteps := hmem
  simp only [Worker.steps, List.mem_cons, Prod.mk.injEq, List.not_mem_nil, or_false] at hsteps
  rcases hsteps with ⟨rfl, rfl⟩ | ⟨rfl, rfl⟩ | ⟨rfl, rfl⟩ | ⟨rfl, rfl⟩ | ⟨rfl, rfl⟩ |
    ⟨rfl, rfl⟩ | ⟨rfl, rfl⟩
  · exact h.early hdry (by decide) hmem
  · exact h.early hdry (by decide) hmem
  · exact h.early hdry (by decide) hmem
  · exact h.early hdry (by decide) hmem
  · refine hlate (by decide) ?_ ?_
    · cases action <;> exact h.there
    · cases action <;> exact h.standing
  · exact hlate (by decide) h.there.postWork h.postWork
  · exact hlate (by decide) h.there.complete h.complete

/-- Whether there is work to be done is found out without asking. -/
theorem Firm.isNeeded (h : Firm ns name begun r action pinned .checkNeeded j s) :
    AlwaysFrom (uninterrupted .module) (Worker.forAction setup action).isNeeded j s
      fun needed j' t =>
        if needed.1 || needed.2.requeue then
          GoesOn ns name begun r action pinned .checkNeeded needed.2 j' t
        else AlwaysFrom (uninterrupted .module) (Work.enter action .finish) j' t fun _ j'' t' =>
          Rested ns name r action j''.entry t' := by
  have hsame : AlwaysFrom (uninterrupted .module) (Worker.forAction setup action).isNeeded j s
      fun _ j' t => Firm ns name begun r action pinned .checkNeeded j' t := by
    cases action <;> exact h
  refine (h.there.isNeeded.and hsame).mono ?_
  rintro needed j' t ⟨hneeded, ht⟩
  split
  · rename_i hyes
    rw [if_pos hyes] at hneeded
    refine goesOn_of_leads hneeded ht.rested fun _ => ht.standing.next ?_ ?_
    · rintro - ⟨⟩
    · rintro - ⟨⟩
  · rename_i hno
    rw [if_neg hno, Work.always_enter] at hneeded
    rw [Work.always_enter]
    intro u x hmay
    have hfinish : Firm ns name begun r action pinned .finish
        { j' with entry := j'.entry.setStage .finish } x := by
      refine ⟨hneeded u x hmay, ?_⟩
      rw [story_of_may hmay]
      exact ht.standing.finish.asked rfl trivial
    exact hfinish.rested

theorem Firm.await (hdry : setup.dryRun = false)
    (h : Firm ns name begun r action pinned .awaitWork j s) :
    AlwaysFrom (uninterrupted .module) (Worker.forAction setup action).isDone j s fun done j' t =>
      if done.1 || done.2.requeue then GoesOn ns name begun r action pinned .awaitWork done.2 j' t
      else Always (uninterrupted .module) Pass.shortDelay t fun _ u =>
        Rested ns name r action j'.entry u := by
  refine ((h.there.await hdry).and (h.isDone hdry)).mono ?_
  rintro done j' t ⟨hleads, ht, hconfirmed⟩
  split
  · rename_i hyes
    rw [if_pos hyes] at hleads
    refine goesOn_of_leads hleads ht.rested fun ho => ht.standing.next ?_ fun haction _ => ?_
    · rintro - ⟨⟩
    · rw [ho, Bool.or_false] at hyes
      exact hconfirmed hyes haction
  · refine Pass.always_shortDelay ?_
    rintro d u ⟨n, hn⟩
    exact ht.rested.mute ⟨rfl, rfl⟩ hn

/-- An action on a module from whatever stage it has reached. -/
theorem Firm.perform (hdry : setup.dryRun = false)
    (h : Firm ns name begun r action pinned stage j s) :
    AlwaysFrom (uninterrupted .module) (Work.perform setup action) j s fun _ j' t =>
      Rested ns name r action j'.entry t := by
  have hstart : ∀ j s, Firm ns name begun r action pinned .start j s →
      GoesOn ns name begun r action pinned .start .done j s := by
    intro j s h
    have hleads : Leads .module ns name begun r action pinned .start .done j s :=
      h.there.onward fun _ => Story.attested_of_rank_le (by decide)
    refine goesOn_of_leads hleads h.rested fun _ => h.standing.next ?_ ?_
    · rintro - ⟨⟩
    · rintro - ⟨⟩
  rw [Work.always_perform, h.there.reached]
  exact Worker.always_run_of_steps (Worker.action_forAction setup action) hstart
    (fun _ _ h => h.isNeeded) (fun _ _ h => h.await hdry)
    (fun _ _ hmem _ _ h => h.leads hdry hmem) (fun _ _ h => h.rested) h

end Contest

end ReleaseOperator
