import ReleaseOperator.Proofs.Evidence.Operated
import ReleaseOperator.Proofs.Evidence.Releases
import ReleaseOperator.Proofs.Edits.OneGeneration

/-!
# Releases that are left behind

The release of a resource lies where its specification says, and an edit of the specification
can move it. Nothing is ever applied for a resource that was found without its finalizer, and
when the finalizer comes off there is no release where the resource asks for one at that
time. But nobody clears away what was applied for it elsewhere before an edit.
-/

namespace ReleaseOperator.Contest

open InMemory Relation Program

/-!
## The finalizer and the release

A call that a pass makes changes the stored resource in one of few ways, and only one of them
takes the finalizer off: the write at the end of a removal. It is made when the release is
known to be gone, and nothing has failed in the pass by then.
-/

variable {setup : Setup} {kind : Kind} {ns name : String} {past : Story} {m : Memory}
  {s t : Contest}

/-- The stored resource has its finalizer. -/
def Fastened (ns name : String) (s : Contest) : Prop :=
  ∃ o, s.store.get? ns name = some o ∧ o.hasFinalizer = true

/-- The stored resource, if there is one, is being deleted and has lost its finalizer. -/
def Released (ns name : String) (s : Contest) : Prop :=
  ∀ o, s.store.get? ns name = some o → o.isDeleting = true ∧ o.hasFinalizer = false

/-- What a guarded call makes of the stored resource: nothing; the same with another status;
one with its finalizer, which is new only where the resource lives on; or one that has lost
it, in a write that strips. -/
inductive Outcomes (ns name : String) (s t : Contest) : Prop
  | same (stored : t.store.get? ns name = s.store.get? ns name)
  | status (old new : Resource) (before : s.store.get? ns name = some old)
      (after : t.store.get? ns name = some new) (deleting : new.isDeleting = old.isDeleting)
      (finalizer : new.hasFinalizer = old.hasFinalizer)
  | fastened (old : Resource) (before : s.store.get? ns name = some old)
      (after : Fastened ns name t) (living : old.isDeleting = true → old.hasFinalizer = true)
  | stripped (w new : Resource)
      (story : t.story = .asked (.store (.update w)) (.ok new) :: s.story)
      (bare : w.hasFinalizer = false) (strips : Strips ns name s w)
      (after : Released ns name t)

theorem Guarded.outcomes (h : Guarded kind ns name s t) (hkeyed : s.store.Keyed kind) :
    t.store.Keyed kind ∧ Outcomes ns name s t := by
  obtain ⟨c, a, store, hguard, hans, rfl⟩ := h
  have hsame : store = s.store → Store.Keyed kind store ∧
      Outcomes ns name s ⟨store, .asked c a :: s.story⟩ := by
    rintro rfl
    exact ⟨hkeyed, .same rfl⟩
  rcases c with (⟨k, ns', name'⟩ | w | w) | _ | (_ | _ | _ | _ | _ | _) | _ | _ | _ | _
  case store.get => exact hsame (answered_of_isQuiet rfl hans)
  case store.update =>
    obtain ⟨hkind, hkey, hfast, hstrips⟩ := hguard
    cases a with
    | error e => exact hsame (same_of_update_error hkind hans)
    | ok new =>
        obtain ⟨old, hold, _, hnew, hstored, hkeyed'⟩ :=
          Store.update_ok hkeyed hkind hkey (update_of_answered hkind hans)
        have hfin : new.hasFinalizer = w.hasFinalizer := by
          rw [hnew]
          rfl
        refine ⟨hkeyed', ?_⟩
        cases hbare : w.hasFinalizer with
        | true =>
            obtain ⟨old', hold', hliving⟩ := hfast hbare
            obtain rfl := Option.some.inj (hold.symm.trans hold')
            rcases hstored with hstored | ⟨_, _, hnil⟩
            · exact .fastened old hold ⟨new, hstored, hfin.trans hbare⟩ hliving
            · rw [hbare, Resource.hasFinalizer, hnil] at hfin
              exact absurd hfin Bool.false_ne_true
        | false =>
            have hstrip := hstrips hbare
            refine .stripped w new rfl hbare hstrip fun o ho => ?_
            rcases hstored with hstored | ⟨hnone, _⟩
            · obtain rfl := Option.some.inj (hstored.symm.trans ho)
              obtain ⟨old', hold', hdel⟩ := hstrip.stored
              obtain rfl := Option.some.inj (hold.symm.trans hold')
              refine ⟨?_, hfin.trans hbare⟩
              rw [hnew]
              exact hdel
            · exact absurd (hnone.symm.trans ho) (by simp)
  case store.updateStatus =>
    obtain ⟨hkind, hkey, _⟩ := hguard
    cases a with
    | error e => exact hsame (same_of_updateStatus_error hkind hans)
    | ok new =>
        obtain ⟨old, hold, _, hnew, hstored, hkeyed'⟩ :=
          Store.updateStatus_ok hkeyed hkey (updateStatus_of_answered hkind hans)
        refine ⟨hkeyed', .status old new hold hstored ?_ ?_⟩
        · rw [hnew]
          rfl
        · rw [hnew]
          rfl
  all_goals exact hsame hans

/-- A resource that has its finalizer keeps it along guarded calls, or one of them strips it. -/
theorem fastened_or_stripped (h : ReflTransGen (Guarded kind ns name) s t)
    (hkeyed : s.store.Keyed kind) (hfast : Fastened ns name s) :
    t.store.Keyed kind ∧ s.story <:+ t.story ∧ (Fastened ns name t ∨
      ∃ w new es, (.asked (.store (.update w)) (.ok new) :: es) <:+ t.story ∧ s.story <:+ es ∧
        w.hasFinalizer = false) := by
  induction h with
  | refl => exact ⟨hkeyed, List.suffix_rfl, Or.inl hfast⟩
  | @tail u t _ hstep ih =>
      obtain ⟨hkeyed_u, hsuffix, hcases⟩ := ih
      obtain ⟨hkeyed_t, houtcomes⟩ := hstep.outcomes hkeyed_u
      have hlater : u.story <:+ t.story := by
        obtain ⟨_, _, _, _, _, rfl⟩ := hstep
        exact List.suffix_cons _ _
      refine ⟨hkeyed_t, hsuffix.trans hlater, ?_⟩
      rcases hcases with ⟨o, ho, hfin⟩ | ⟨w, new, es, hstrip, hes, hbare⟩
      · cases houtcomes with
        | same stored => exact Or.inl ⟨o, stored.trans ho, hfin⟩
        | status old new before after deleting finalizer =>
            obtain rfl := Option.some.inj (before.symm.trans ho)
            exact Or.inl ⟨new, after, finalizer.trans hfin⟩
        | fastened old before after living => exact Or.inl after
        | stripped w new story bare strips after =>
            exact Or.inr ⟨w, new, u.story, story ▸ List.suffix_rfl, hsuffix, bare⟩
      · exact Or.inr ⟨w, new, es, hstrip.trans hlater, hes, hbare⟩

/-- The finalizer is taken off only in a pass that found the resource being deleted, when its
release was removed or found missing under the entry at hand and then found not to be
deployed, and when nothing has failed in the pass. In a pass in which anything fails the
stored resource keeps it. -/
theorem finalizer_outlasts_release (h : Operated kind ns name past m s) :
    (∀ (w : Resource) (answer : Call.Answer (.store (.update w))) (es : Story),
      (.asked (.store (.update w)) answer :: es) <:+ s.story → w.hasFinalizer = false →
        (∃ r, es.fetched? = some r ∧ r.isDeleting = true ∧ r.hasFinalizer = true ∧
          w.aim = r.aim) ∧ Story.Cleared w.aim es ∧ es.Smooth) ∧
      ∀ setup : Setup, setup.dryRun = false →
        ∀ (result : Except PassError Outcome × Memory) (t : Contest),
          Runs (uninterrupted kind) ((reconcile setup kind ns name).run m)
            ⟨s.store, .began :: s.story⟩ result t → Fastened ns name s →
            Fastened ns name t ∨ t.story.Smooth ∧
              ∃ w new es, (.asked (.store (.update w)) (.ok new) :: es) <:+ t.story ∧
                (.began :: s.story) <:+ es ∧ w.hasFinalizer = false := by
  refine ⟨?_, ?_⟩
  · intro w answer es hwrite hbare
    obtain ⟨_, _, _, _, hstrips⟩ := h.guarded hwrite
    have hstrip := hstrips hbare
    exact ⟨hstrip.fetched, hstrip.cleared, hstrip.smooth⟩
  · intro setup hwet result t run hfast
    have hpassed := h.passed hwet run
    rcases hpassed.held with hsmooth | hheld
    · refine (fastened_or_stripped hpassed.path h.sound.keyed hfast).2.2.imp_right ?_
      exact fun hstripped => ⟨hsmooth, hstripped⟩
    · obtain ⟨o, ho, hfin⟩ := hfast
      exact Or.inl (hheld o ho hfin)

/-! ### A removal that is tried twice -/

/-- The module `web` with its release installed, and then asked to go away. -/
def installingPass : (Except PassError Outcome × Memory) × Contest :=
  attendedPass trialSetup .module "default" "web" Story.booked .empty ⟨trialStore trialModule, []⟩

/-- The contest in which the module `web` was asked to go away. -/
def doomed (s : Contest) : Contest :=
  ⟨s.store.markDeleted "default" "web" ⟨0⟩, s.story⟩

/-- Helm answers by its books, but fails to remove a release the first time. -/
def stubborn (story : Story) : (c : Call) → c.Answer
  | .helm (.uninstall _ _ _) =>
    if story.any fun e => match e with
      | .asked (.helm (.uninstall _ _ _)) _ => true
      | _ => false
    then .ok () else .error (.io "")
  | c => story.booked c

/-- The pass in which the removal fails. -/
def failingRemoval : (Except PassError Outcome × Memory) × Contest :=
  attendedPass trialSetup .module "default" "web" stubborn installingPass.1.2
    (doomed installingPass.2)

/-- The pass in which it succeeds. -/
def removal : (Except PassError Outcome × Memory) × Contest :=
  attendedPass trialSetup .module "default" "web" stubborn failingRemoval.1.2 failingRemoval.2

theorem operated_installingPass :
    Operated .module "default" "web" [] installingPass.1.2 installingPass.2 := by
  have hkeyed : (trialStore trialModule).Keyed .module := keyed_trialStore rfl rfl
  have hwet : trialSetup.dryRun = false := rfl
  unfold installingPass
  exact (Operated.start hkeyed).attended hwet Story.booked

theorem operated_doomed : Operated .module "default" "web" [] installingPass.1.2
    (doomed installingPass.2) :=
  operated_installingPass.delete _

theorem runs_failingRemoval :
    Runs (uninterrupted .module) ((reconcile trialSetup .module "default" "web").run
        installingPass.1.2)
      ⟨(doomed installingPass.2).store, .began :: (doomed installingPass.2).story⟩
      failingRemoval.1 failingRemoval.2 := by
  unfold failingRemoval
  exact runs_run (may_attended .module stubborn) _ _

theorem operated_removal : Operated .module "default" "web" [] removal.1.2 removal.2 := by
  have hwet : trialSetup.dryRun = false := rfl
  unfold removal
  exact (Operated.pass operated_doomed hwet runs_failingRemoval).attended hwet stubborn

/-- Whether an event is a write without the finalizer. -/
def isStrip : Event → Bool
  | .asked (.store (.update w)) _ => !w.hasFinalizer
  | _ => false

theorem exists_strip {story : Story} (h : story.any isStrip = true) :
    ∃ w answer es, (.asked (.store (.update w)) answer :: es) <:+ story ∧
      w.hasFinalizer = false := by
  obtain ⟨e, es, hsuffix, hstrip⟩ := exists_suffix_of_any h
  unfold isStrip at hstrip
  split at hstrip
  · rename_i w answer
    exact ⟨w, answer, es, hsuffix, by rwa [Bool.not_eq_true'] at hstrip⟩
  · exact absurd hstrip Bool.false_ne_true

theorem not_strip {story : Story} (h : story.any isStrip = false) {w : Resource}
    {answer : Call.Answer (.store (.update w))} {es : Story}
    (hsuffix : (.asked (.store (.update w)) answer :: es) <:+ story) : w.hasFinalizer = true := by
  have hmem := hsuffix.subset List.mem_cons_self
  have hno := List.any_eq_false.1 h _ hmem
  rwa [isStrip, Bool.not_eq_true', Bool.not_eq_false] at hno

/-- The hypotheses of `finalizer_outlasts_release` hold where the removal of the release fails
in one pass, which leaves the finalizer on, and the next pass takes it off. -/
theorem finalizer_outlasts_release_retried :
    Operated .module "default" "web" [] installingPass.1.2 (doomed installingPass.2) ∧
      Operated .module "default" "web" [] removal.1.2 removal.2 ∧
      Fastened "default" "web" failingRemoval.2 ∧
      removal.2.store.get? "default" "web" = none ∧
      ∃ w answer es, (.asked (.store (.update w)) answer :: es) <:+ removal.2.story ∧
        w.hasFinalizer = false ∧ Story.Cleared w.aim es ∧ Story.Smooth es := by
  refine ⟨operated_doomed, operated_removal, ?_, ?_, ?_⟩
  · have hfast : Fastened "default" "web" (doomed installingPass.2) := by
      have hsome : ((doomed installingPass.2).store.get? "default" "web").any
          Resource.hasFinalizer = true := by decide +kernel
      exact (Option.any_eq_true _ _).1 hsome
    have hnone : failingRemoval.2.story.any isStrip = false := by decide +kernel
    rcases (finalizer_outlasts_release operated_doomed).2 trialSetup rfl _ _ runs_failingRemoval
      hfast with hfast | ⟨_, w, _, _, hsuffix, _, hbare⟩
    · exact hfast
    · exact absurd ((not_strip hnone hsuffix).symm.trans hbare) (by decide)
  · have hgone : (removal.2.store.get? "default" "web").isNone = true := by decide +kernel
    exact Option.isNone_iff_eq_none.1 hgone
  · have hany : removal.2.story.any isStrip = true := by decide +kernel
    obtain ⟨w, answer, es, hsuffix, hbare⟩ := exists_strip hany
    obtain ⟨_, hcleared, hsmooth⟩ :=
      (finalizer_outlasts_release operated_removal).1 w answer es hsuffix hbare
    exact ⟨w, answer, es, hsuffix, hbare, hcleared, hsmooth⟩

end ReleaseOperator.Contest

namespace ReleaseOperator

/-! ## Edits that move the release -/

namespace Story

variable {es rest recent story : Story} {e : Event}

theorem fetched?_append (h : .began ∈ es) : fetched? (es ++ rest) = fetched? es := by
  fun_induction fetched? es with
  | case1 => exact absurd h List.not_mem_nil
  | case2 => rfl
  | case3 es ih => exact ih (by simpa using h)
  | case4 c a es ih =>
      rw [List.cons_append, fetched?, ih (by simpa using h)]

/-- A release is applied under the finalizer, and where the resource asked for it when the
pass found it. -/
def Warrants (request : ReleaseRequest) (es : Story) : Prop :=
  ∃ r, es.fetched? = some r ∧ r.hasFinalizer = true ∧ request.release.place = r.releasePlace

/-- Whatever was applied was warranted. -/
def Warranted (story : Story) : Prop :=
  ∀ (request : ReleaseRequest) (answer : Call.Answer (.helm (.upgradeOrInstall request)))
    (es : Story), (.asked (.helm (.upgradeOrInstall request)) answer :: es) <:+ story →
      Warrants request es

theorem Warranted.cons (h : Warranted story) (he : ¬ e.Applies) : Warranted (e :: story) := by
  intro request answer es hsuffix
  rcases List.suffix_cons_iff.1 hsuffix with heq | hsuffix
  · injection heq with hevent _
    exact absurd (hevent ▸ trivial) he
  · exact h request answer es hsuffix

theorem Warranted.append (h : Warranted story) (hrecent : ∀ e ∈ recent, ¬ Event.Applies e) :
    Warranted (recent ++ story) :=
  append_of_cons (fun _ _ he h => h.cons he) hrecent h

theorem Warranted.apply {request : ReleaseRequest}
    {answer : Call.Answer (.helm (.upgradeOrInstall request))} (h : Warranted story)
    (hrequest : Warrants request story) :
    Warranted (.asked (.helm (.upgradeOrInstall request)) answer :: story) := by
  intro request' answer' es hsuffix
  rcases List.suffix_cons_iff.1 hsuffix with heq | hsuffix
  · injection heq with hevent hes
    injection hevent with hcall _
    injection hcall with hcall
    injection hcall with hcall
    subst hcall hes
    exact hrequest
  · exact h request' answer' es hsuffix

/-- An event takes the finalizer off a resource that was found being deleted, and there is no
release where that resource asks for one. -/
def Relinquishes (e : Event) (es : Story) : Prop :=
  ∃ w new r, e = .asked (.store (.update w)) (.ok new) ∧ w.hasFinalizer = false ∧
    es.fetched? = some r ∧ r.isDeleting = true ∧ Vacant r.releasePlace es

/-- The finalizer was taken off, and nothing has been applied since. -/
def Relinquished : Story → Prop := Since (fun e => ¬ e.Applies) Relinquishes

theorem Relinquished.append (h : Relinquished story)
    (hrecent : ∀ e ∈ recent, ¬ Event.Applies e) : Relinquished (recent ++ story) := by
  unfold Relinquished at h ⊢
  exact append_of_cons (fun _ _ he h => Since.cons he h) hrecent h

end Story

namespace Contest

open InMemory Relation Program

variable {setup : Setup} {kind : Kind} {ns name : String} {past : Story} {m : Memory}
  {s t : Contest}

/-- A resource either has its finalizer, or nothing was ever applied for it, or it is being
deleted and was let go when there was no release left where it asked for one. -/
inductive Accounted (ns name : String) (past : Story) (s : Contest) : Prop
  | fastened (h : Fastened ns name s)
  | untouched (h : ∀ e ∈ s.story ++ past, ¬ e.Applies)
  | relinquished (released : Released ns name s) (h : Story.Relinquished (s.story ++ past))

/-- What was applied was warranted, and the resource is accounted for. -/
structure Minded (ns name : String) (past : Story) (s : Contest) : Prop where
  warranted : Story.Warranted (s.story ++ past)
  accounted : Accounted ns name past s

/-- Nothing is applied, and the finalizer stays as it is. -/
theorem Minded.carry (h : Minded ns name past s) {recent : Story}
    (hstory : t.story = recent ++ s.story) (hrecent : ∀ e ∈ recent, ¬ Event.Applies e)
    (hfast : Fastened ns name s → Fastened ns name t)
    (hfree : Released ns name s → Released ns name t) : Minded ns name past t := by
  have hall : t.story ++ past = recent ++ (s.story ++ past) := by
    rw [hstory, List.append_assoc]
  refine ⟨hall ▸ h.warranted.append hrecent, ?_⟩
  cases h.accounted with
  | fastened h => exact .fastened (hfast h)
  | untouched h =>
      refine .untouched fun e he => ?_
      rw [hall] at he
      exact (List.mem_append.1 he).elim (hrecent e) (h e)
  | relinquished released h => exact .relinquished (hfree released) (hall ▸ h.append hrecent)

/-- A guarded call in a pass: a release is applied under the finalizer only, and only where
there is none any more is the finalizer taken off. -/
theorem Guarded.minded (hstep : Guarded kind ns name s t) (hkeyed : s.store.Keyed kind)
    (hbegan : .began ∈ s.story) (h : Minded ns name past s) : Minded ns name past t := by
  obtain ⟨_, houtcomes⟩ := hstep.outcomes hkeyed
  obtain ⟨c, a, store, hguard, hans, rfl⟩ := hstep
  by_cases happlies : (Event.asked c a).Applies
  · obtain ⟨request, a', heq⟩ := Event.exists_of_applies happlies
    injection heq with hc _
    subst hc
    obtain ⟨⟨r, hfetched, hfin, hplace⟩, hfast⟩ := hguard
    obtain rfl : store = s.store := hans
    refine ⟨h.warranted.apply ⟨r, ?_, hfin, hplace⟩, .fastened hfast⟩
    exact (Story.fetched?_append hbegan).trans hfetched
  · have hrecent : ∀ e ∈ [Event.asked c a], ¬ e.Applies := by
      rintro _ (_ | ⟨_, ⟨⟩⟩)
      exact happlies
    cases houtcomes with
    | same stored =>
        refine h.carry rfl hrecent ?_ ?_
        · rintro ⟨o, ho, hfin⟩
          exact ⟨o, stored.trans ho, hfin⟩
        · exact fun hfree o ho => hfree o (stored.symm.trans ho)
    | status old new before after deleting finalizer =>
        refine h.carry rfl hrecent ?_ ?_
        · rintro ⟨o, ho, hfin⟩
          obtain rfl := Option.some.inj (before.symm.trans ho)
          exact ⟨new, after, finalizer.trans hfin⟩
        · intro hfree o ho
          obtain rfl := Option.some.inj (after.symm.trans ho)
          obtain ⟨hdel, hfin⟩ := hfree old before
          exact ⟨deleting.trans hdel, finalizer.trans hfin⟩
    | fastened old before after living =>
        refine h.carry rfl hrecent (fun _ => after) fun hfree => ?_
        obtain ⟨hdel, hfin⟩ := hfree old before
        exact absurd (hfin.symm.trans (living hdel)) Bool.false_ne_true
    | stripped w new story bare strips after =>
        refine ⟨h.warranted.cons happlies, .relinquished after (Story.since_of_mark ?_)⟩
        obtain ⟨r, hfetched, hdel, _, haim⟩ := strips.fetched
        injection story with hevent _
        refine ⟨w, new, r, hevent, bare, (Story.fetched?_append hbegan).trans hfetched, hdel, ?_⟩
        have hplace : w.aim.place = r.releasePlace := by rw [haim]; rfl
        exact hplace ▸ Story.vacant_of_cleared strips.cleared

/-- A pass, from its start to any point of it. -/
theorem minded_of_path (hpath : ReflTransGen (Guarded kind ns name) s t)
    (hkeyed : s.store.Keyed kind) (hbegan : .began ∈ s.story) (h : Minded ns name past s) :
    t.store.Keyed kind ∧ .began ∈ t.story ∧ Minded ns name past t := by
  induction hpath with
  | refl => exact ⟨hkeyed, hbegan, h⟩
  | tail _ hstep ih =>
      obtain ⟨hkeyed, hbegan, h⟩ := ih
      refine ⟨(hstep.outcomes hkeyed).1, ?_, hstep.minded hkeyed hbegan h⟩
      obtain ⟨c, a, store, _, _, rfl⟩ := hstep
      exact List.mem_cons_of_mem _ hbegan

/-- What a user does, without taking the finalizer off. -/
theorem Minded.follows (h : Minded ns name past s) {recent : Story}
    (hstory : t.story = recent ++ s.story) (hrecent : ∀ e ∈ recent, ¬ Event.Applies e)
    (hfollows : ∀ o, t.store.get? ns name = some o → ∃ old, s.store.get? ns name = some old ∧
      Follows s t old o ∧ o.hasFinalizer = old.hasFinalizer)
    (hstays : Fastened ns name s → ∃ o, t.store.get? ns name = some o) :
    Minded ns name past t := by
  refine h.carry hstory hrecent ?_ ?_
  · intro hfast
    obtain ⟨o, ho⟩ := hstays hfast
    obtain ⟨old, hold, _, hfin⟩ := hfollows o ho
    obtain ⟨old', hold', hfin'⟩ := hfast
    obtain rfl := Option.some.inj (hold.symm.trans hold')
    exact ⟨o, ho, hfin.trans hfin'⟩
  · intro hfree o ho
    obtain ⟨old, hold, hfollows, hfin⟩ := hfollows o ho
    obtain ⟨hdel, hbare⟩ := hfree old hold
    exact ⟨hfollows.deleting hdel, hfin.trans hbare⟩

/-- A resource that has its finalizer outlasts the wish to delete it. -/
theorem exists_markDeleted (h : Fastened ns name s) (now : Instant) :
    ∃ o, (s.store.markDeleted ns name now).get? ns name = some o := by
  obtain ⟨old, hold, hfin⟩ := h
  have hnonempty : old.finalizers.isEmpty = false := by
    rw [List.isEmpty_eq_false_iff_exists_mem]
    exact ⟨_, List.contains_iff_mem.1 hfin⟩
  unfold Store.markDeleted
  rw [hold]
  dsimp only
  rw [if_neg (by rw [hnonempty]; exact Bool.false_ne_true)]
  exact ⟨_, Table.get?_put_self⟩

/-- Whatever operator and users have done, releases were applied under the finalizer, and the
resource is accounted for. -/
theorem Operated.minded (h : Operated kind ns name past m s) : Minded ns name past s := by
  induction h with
  | start keyed =>
      refine ⟨fun _ _ _ hsuffix => ?_, .untouched fun e he => absurd he List.not_mem_nil⟩
      exact absurd (List.suffix_nil.1 hsuffix) (List.cons_ne_nil _ _)
  | edit before hedit ih =>
      obtain ⟨_, o, _, ho, _, _, _, _, hstory⟩ := hedit.stored before.sound.keyed
      have hrecent : ∀ e ∈ [Event.edited], ¬ e.Applies := List.forall_mem_singleton.2 id
      exact ih.follows hstory hrecent (fun _ => hedit.follows before.sound.keyed) fun _ => ⟨o, ho⟩
  | delete before now ih =>
      have hrecent : ∀ e ∈ ([] : Story), ¬ e.Applies := List.forall_mem_nil _
      exact ih.follows rfl hrecent (fun _ => follows_markDeleted) (exists_markDeleted · now)
  | release before free ih =>
      have hrecent : ∀ e ∈ ([] : Story), ¬ e.Applies := List.forall_mem_nil _
      refine ih.carry rfl hrecent ?_ ?_
      · rintro ⟨o, ho, hfin⟩
        exact absurd ((free o ho).2.symm.trans hfin) Bool.false_ne_true
      · intro _ o ho
        exact absurd (Table.get?_erase_self.symm.trans ho) (by simp)
  | @pass past m s t setup result before wet run ih =>
      have hrecent : ∀ e ∈ [Event.began], ¬ e.Applies := List.forall_mem_singleton.2 id
      have hbegan : Minded ns name past ⟨s.store, .began :: s.story⟩ := ih.carry rfl hrecent id id
      exact (minded_of_path (before.passed wet run).path before.sound.keyed List.mem_cons_self
        hbegan).2.2
  | restart before ih =>
      refine ⟨ih.warranted, ?_⟩
      cases ih.accounted with
      | fastened h => exact .fastened h
      | untouched h => exact .untouched h
      | relinquished released h => exact .relinquished released h

/-- Releases are only applied in passes that found the resource with its finalizer, and where
it asked for them. Once it is gone, what was applied for it can only be left elsewhere than
where it asked for its release when the finalizer was taken off: there is none there. -/
theorem only_moved_releases_stay (h : Operated kind ns name past m s) :
    (∀ (request : ReleaseRequest) (answer : Call.Answer (.helm (.upgradeOrInstall request)))
      (es : Story), (.asked (.helm (.upgradeOrInstall request)) answer :: es) <:+ s.story ++ past →
        ∃ r, es.fetched? = some r ∧ r.hasFinalizer = true ∧
          request.release.place = r.releasePlace) ∧
      (s.store.get? ns name = none → (∃ e ∈ s.story ++ past, e.Applies) →
        ∃ w new r es, (.asked (.store (.update w)) (.ok new) :: es) <:+ s.story ++ past ∧
          w.hasFinalizer = false ∧ Story.fetched? es = some r ∧ r.isDeleting = true ∧
          Story.Vacant r.releasePlace (s.story ++ past)) := by
  refine ⟨h.minded.warranted, ?_⟩
  rintro hgone ⟨e, he, happlies⟩
  cases h.minded.accounted with
  | fastened hfast =>
      obtain ⟨o, ho, _⟩ := hfast
      exact absurd (hgone.symm.trans ho) (by simp)
  | untouched huntouched => exact absurd happlies (huntouched e he)
  | relinquished _ hstripped =>
      obtain ⟨recent, _, es, hstory, hrecent, w, new, r, rfl, hbare, hfetched, hdel, hvacant⟩ :=
        hstripped
      rw [hstory]
      exact ⟨w, new, r, es, List.suffix_append _ _, hbare, hfetched, hdel,
        (hvacant.cons id).append hrecent⟩

/-! ### A module that moves before it goes -/

/-- The module `web`, installed, moved to another namespace and asked to go away at once. -/
def moved : Contest :=
  doomed (editTo "default" "web" (.module ⟨"helm", "0.1.0", "other", []⟩) installingPass.2)

/-- The pass in which it goes. -/
def departure : (Except PassError Outcome × Memory) × Contest :=
  attendedPass trialSetup .module "default" "web" Story.booked installingPass.1.2 moved

theorem operated_departure : Operated .module "default" "web" [] departure.1.2 departure.2 := by
  have hwet : trialSetup.dryRun = false := rfl
  have hmoved : Operated .module "default" "web" [] installingPass.1.2 moved :=
    (operated_installingPass.edits (edits_editTo _ _ _ _)).delete _
  unfold departure
  exact hmoved.attended hwet Story.booked

theorem gone_departure : departure.2.store.get? "default" "web" = none := by
  have hgone : (departure.2.store.get? "default" "web").isNone = true := by decide +kernel
  exact Option.isNone_iff_eq_none.1 hgone

theorem exists_applied_departure :
    ∃ request answer es,
      (.asked (.helm (.upgradeOrInstall request)) answer :: es) <:+ departure.2.story ∧
        request.release.place ∈ departure.2.story.releases := by
  have hany : (appliedIn departure.2.story).any
      (fun x => decide (x.1.release.place ∈ departure.2.story.releases)) = true := by
    decide +kernel
  obtain ⟨⟨request, n⟩, happlied, hplace⟩ := List.any_eq_true.1 hany
  obtain ⟨answer, es, hsuffix, _⟩ := exists_of_mem_appliedIn happlied
  exact ⟨request, answer, es, hsuffix, of_decide_eq_true hplace⟩

/-- The hypotheses of `only_moved_releases_stay` hold where the module has gone: there is no
release in the namespace it has moved to. -/
theorem only_moved_releases_stay_departed :
    Operated .module "default" "web" [] departure.1.2 departure.2 ∧
      departure.2.store.get? "default" "web" = none ∧
      ∃ w new r es, (.asked (.store (.update w)) (.ok new) :: es) <:+ departure.2.story ++ [] ∧
        w.hasFinalizer = false ∧ Story.fetched? es = some r ∧ r.isDeleting = true ∧
        Story.Vacant r.releasePlace (departure.2.story ++ []) := by
  refine ⟨operated_departure, gone_departure, ?_⟩
  obtain ⟨request, answer, es, hsuffix, _⟩ := exists_applied_departure
  have happlies : ∃ e ∈ departure.2.story ++ [], e.Applies :=
    ⟨.asked (.helm (.upgradeOrInstall request)) answer,
      List.mem_append_left _ (hsuffix.subset List.mem_cons_self), trivial⟩
  exact (only_moved_releases_stay operated_departure).2 gone_departure happlies

/-- The module has gone, Helm has told the truth, and what was installed before the module
moved is still there. -/
theorem release_left_by_moved_module :
    Operated .module "default" "web" [] departure.1.2 departure.2 ∧
      departure.2.store.get? "default" "web" = none ∧
      Story.Held [] departure.2.story departure.2.story.releases ∧
      ∃ request answer es,
        (.asked (.helm (.upgradeOrInstall request)) answer :: es) <:+ departure.2.story ∧
          request.release.place ∈ departure.2.story.releases := by
  have htrue : departure.2.story.isTrue = true := by decide +kernel
  exact ⟨operated_departure, gone_departure, Story.held_of_isTrue htrue, exists_applied_departure⟩

end Contest

end ReleaseOperator
