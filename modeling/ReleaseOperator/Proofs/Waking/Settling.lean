import ReleaseOperator.Proofs.Alert
import ReleaseOperator.Proofs.Waking.Minding
import ReleaseOperator.Proofs.Generations

/-!
# Passes that leave nothing to come back for

A pass over a resource either asks to come back or leaves it attended to: nothing has failed,
no finalizer was written, none is left on a resource that is being deleted, and the tracked
work is at its end or kept waiting on purpose.
-/

namespace ReleaseOperator

open InMemory Program Work

/-!
## Work that comes back or comes to its end

No failure of a pass goes unheeded, but for the one that is no failure: Helm reports that there
is no release. So the work on a resource that lives asks to come back, or has come to its last
stage, with one exception: for an action that is to bring its release about nothing is chosen
while Helm reports the release in a status in which there is nothing to choose.
-/

/-- Helm reports that there is no release. -/
def Call.ReportsAbsent : (c : Call) → c.Answer → Prop
  | .helm (.releaseInfo _ _), a => ∃ name ns, a = .error (.releaseNotFound name ns)
  | .helm (.values _ _), a => ∃ name ns, a = .error (.releaseNotFound name ns)
  | _, _ => False

/-- A call fails, and not because there is no release. -/
def Event.Alarms : Event → Prop
  | .asked c a => c.Fails a ∧ ¬ c.ReportsAbsent a
  | _ => False

namespace Waking

variable {kind : Kind} {ns name : String} {setup : Setup} {s t : Contest} {j : Job} {o : Outcome}
  {c : Call} {a : c.Answer} {story : Story} {release : Release}

/-- Nothing has failed so far. -/
def Calm (s : Contest) : Prop := ∀ e ∈ s.story, ¬ e.Alarms

theorem Calm.next (h : Calm s) (hmay : (conduct kind ns name).may s c a t)
    (hok : ¬ Event.Alarms (.asked c a)) : Calm t := by
  intro e he
  rw [story_of_may hmay] at he
  rcases List.mem_cons.1 he with rfl | he
  · exact hok
  · exact h e he

theorem Calm.absent (h : Calm s) (hmay : (conduct kind ns name).may s c a t)
    (habsent : c.ReportsAbsent a) : Calm t :=
  h.next hmay fun halarm => halarm.2 habsent

theorem alert : Alert (conduct kind ns name) Calm Outcome.IsSoon where
  call h hmay hok := h.next hmay fun halarm => hok halarm.1
  hook := by
    intro s moment action release o t h hmay
    obtain rfl : o = .done := hmay.1
    exact Or.inr ⟨rfl, h.next hmay fun halarm => absurd halarm.1 Bool.false_ne_true⟩
  soon := id
  requeues h := h.requeue

/-! ### Choosing an action -/

/-- Helm has reported the release in a status other than deployed. -/
def ReportedOther (release : Release) (story : Story) : Prop :=
  ∃ info : ReleaseInfo,
    .asked (.helm (.releaseInfo release.name release.namespaceName)) (.ok (some info)) ∈ story ∧
      info.status ≠ .deployed

theorem ReportedOther.cons (h : ReportedOther release story) (e : Event) :
    ReportedOther release (e :: story) := by
  obtain ⟨info, hmem, hstatus⟩ := h
  exact ⟨info, List.mem_cons_of_mem e hmem, hstatus⟩

/-- What a report comes to: a part of what is there, the absence of the release, or an error
that brings the operator back. -/
theorem always_reported {α : Type} (h : Calm s) (release : Release) (part : ReleaseInfo → α) :
    Always (conduct kind ns name) (Pass.reported release part) s fun v t =>
      match v with
      | .ok x => Calm t ∧ ∃ info, part info = x ∧ .asked
          (.helm (.releaseInfo release.name release.namespaceName)) (.ok (some info)) ∈ t.story
      | .error (.releaseNotFound _ _) => Calm t
      | .error _ => True := by
  rw [Pass.reported, always_bind, Pass.always_helm]
  intro a t hmay
  rcases a with (_ | _ | _ | _ | _) | _ | info
  · exact h.absent hmay ⟨_, _, rfl⟩
  · exact trivial
  · exact trivial
  · exact trivial
  · exact trivial
  · exact alert.call h hmay not_error_ok
  · refine ⟨alert.call h hmay not_error_ok, info, rfl, ?_⟩
    rw [story_of_may hmay]
    exact List.mem_cons_self

theorem heeds_actualState (h : Calm s) (release : Release) :
    Always (conduct kind ns name) (Pass.actualState release) s fun r t =>
      Heeds Calm Outcome.IsSoon r.2 t ∧ (r.2.requeue = false → r.2 = .done) ∧
        (r.1 ≠ .notInstalled → r.1 ≠ .ready → r.2 = .done → ReportedOther release t.story) := by
  rw [Pass.actualState, always_bind]
  refine (always_reported h release ReleaseInfo.status).mono ?_
  intro v t hv
  split
  · rename_i status
    obtain ⟨ht, info, hstatus, hmem⟩ := hv
    refine ⟨heeds_done ht, fun _ => rfl, ?_⟩
    intro _ hready _
    refine ⟨info, hmem, ?_⟩
    rintro hdeployed
    rw [← hstatus, hdeployed] at hready
    exact hready rfl
  · exact ⟨heeds_done hv, fun _ => rfl, fun hno => absurd rfl hno⟩
  · rw [always_bind]
    refine (Pass.soon_shortDelayWith _).mono ?_
    intro o t' ho
    refine ⟨Or.inl ho, fun hno => ?_, fun _ _ hdone => ?_⟩
    · rw [ho.requeue] at hno
      exact absurd hno (by decide)
    · have hdone : o = .done := hdone
      have := ho.requeue
      rw [hdone] at this
      exact absurd this (by decide)

theorem heeds_upgradeNeeded (h : Calm s) (desired : String) (release : Release) :
    Always (conduct kind ns name) (Pass.upgradeNeeded desired release) s fun r =>
      Heeds Calm Outcome.IsSoon r.2 := by
  rw [Pass.upgradeNeeded, always_bind]
  refine (always_reported h release ReleaseInfo.chartVersion).mono ?_
  intro v t hv
  split
  · exact heeds_done hv
  · rw [always_bind]
    exact (Pass.soon_shortDelayWith _).mono fun _ _ ho => Or.inl ho
  · split
    · exact heeds_done hv.1
    · rw [always_bind]
      exact (Pass.soon_shortDelayWith _).mono fun _ _ ho => Or.inl ho

/-- Nothing can be chosen for an action that is to bring its release about, since Helm reports
the release neither as absent nor as deployed. -/
structure Undecided (j : Job) (story : Story) : Prop where
  wish : j.resource.wish = .reconcile
  reported : ReportedOther j.release story

/-- An action is chosen, or the pass ends: it comes back, or nothing can be chosen. -/
theorem heeds_chooseAction (h : Calm s) (j : Job) :
    Always (conduct kind ns name) j.chooseAction s fun v t =>
      match v with
      | .ok _ => Calm t
      | .error o => o.IsSoon ∨ o = .done ∧ Calm t ∧ Undecided j t.story := by
  unfold Job.chooseAction
  split
  · exact h
  · split
    · exact h
    · rw [always_bind]
      exact (Pass.soon_shortDelayWith _).mono fun _ _ ho => Or.inl ho
  · rename_i hwish
    rw [Job.actionForActual, always_bind]
    refine (heeds_actualState h j.release).mono ?_
    rintro ⟨state, o⟩ t ⟨hheeds, hdone, hother⟩
    dsimp only at hheeds hdone hother ⊢
    split
    · rename_i ho
      exact Or.inl (hheeds.comesBack ho)
    · rename_i ho
      have ht : Calm t := hheeds.goesOn ho Outcome.IsSoon.requeue
      split
      · exact ht
      · rw [always_bind]
        refine (heeds_upgradeNeeded ht _ _).mono ?_
        rintro ⟨needed, o'⟩ t' ht'
        dsimp only
        split
        · rename_i ho'
          exact Or.inl (ht'.comesBack ho')
        · rename_i ho'
          exact ht'.goesOn ho' Outcome.IsSoon.requeue
      · rename_i hnone hready
        have ho : o = .done := hdone (Bool.not_eq_true _ ▸ ho)
        exact Or.inr ⟨rfl, ht, hwish, hother hnone hready ho⟩

/-! ### Work -/

/-- How the work on a job ends: it asks to come back; or nothing has failed, and either the
last stage is reached or nothing could be chosen. -/
def Closes (j : Job) (o : Outcome) (j' : Job) (t : Contest) : Prop :=
  o.IsSoon ∨ o = .done ∧ Calm t ∧
    (j'.entry.stage = .finish ∨ j' = j ∧ j.entry.action = none ∧ Undecided j t.story)

theorem closes_of_ends {j' : Job} (h : Alert.Ends Calm Outcome.IsSoon o j' t) :
    Closes j o j' t := by
  rcases h with hsoon | ⟨ho, hcalm, hstage⟩
  · exact Or.inl hsoon
  · exact Or.inr ⟨ho, hcalm, Or.inl hstage⟩

theorem closes_runPinned (h : Calm s) :
    AlwaysFrom (conduct kind ns name) (Work.runPinned setup) j s (Closes j) := by
  rw [Work.always_runPinned]
  split
  · exact (alert.perform h _).mono fun _ _ _ => closes_of_ends
  · rename_i hnone
    refine (heeds_chooseAction h j).mono ?_
    rintro (o | action) t ht
    · rcases ht with hsoon | ⟨ho, hcalm, hundecided⟩
      · exact Or.inl hsoon
      · exact Or.inr ⟨ho, hcalm, Or.inr ⟨rfl, hnone, hundecided⟩⟩
    · exact (alert.perform ht _).mono fun _ _ _ => closes_of_ends

theorem heeds_appliedDigest (h : Calm s) (setup : Setup) (j : Job) (desired : String) :
    Always (conduct kind ns name) (j.appliedDigest setup desired) s fun v t =>
      match v with
      | .ok _ => Calm t
      | .error o => o.IsSoon := by
  unfold Job.appliedDigest
  split
  · exact h
  · split
    · exact h
    · rw [always_bind, Pass.always_helm]
      intro a t hmay
      split
      · exact alert.call h hmay not_error_ok
      · exact h.absent hmay ⟨_, _, rfl⟩
      · rw [always_bind]
        exact (Pass.soon_shortDelayWith _).mono fun _ _ ho => ho

/-- Finished work stays finished, or is done again as an update. -/
theorem closes_live (h : Calm s) :
    AlwaysFrom (conduct kind ns name) (Work.live setup) j s (Closes j) := by
  rw [Work.always_live]
  split
  · rename_i hstage
    have hfinished : ∀ {o : Outcome} {j' : Job} {t : Contest}, j'.entry.stage = j.entry.stage →
        o = .done → Calm t → Closes j o j' t :=
      fun hsame ho ht => Or.inr ⟨ho, ht, Or.inl (hsame.trans hstage)⟩
    rw [Work.always_valuesChanged]
    split
    · exact hfinished rfl rfl h
    · refine (alert.valuesDigest h setup j).mono ?_
      intro v t hv
      cases v with
      | error e => exact (Pass.soon_shortDelayWith _).mono fun _ _ ho => Or.inl ho
      | ok desired =>
          refine (heeds_appliedDigest (hv desired rfl) setup j desired).mono ?_
          rintro (o | applied) t' ht'
          · exact Or.inl ht'
          · dsimp only
            split
            · rename_i heq
              exact absurd heq (by simp)
            · exact hfinished rfl rfl ht'
            · refine (closes_runPinned ht').mono ?_
              rintro o j' t'' (hsoon | ⟨ho, hcalm, hend | ⟨_, hnone, _⟩⟩)
              · exact Or.inl hsoon
              · exact Or.inr ⟨ho, hcalm, Or.inl hend⟩
              · exact absurd hnone (by simp [Entry.pin, Entry.rearm, Entry.setStage])
  · exact closes_runPinned h

end Waking

/-! ## Whole passes -/

/-- The tracker that the work on a resource goes by. -/
def Memory.driving (m : Memory) (r : Resource) : Tracker :=
  if r.isDeleting then m.deletion else m.lifecycle

theorem Memory.driving_of_isDeleting {m : Memory} {r : Resource} (h : r.isDeleting = true) :
    m.driving r = m.deletion := if_pos h

theorem Memory.driving_of_living {m : Memory} {r : Resource} (h : r.isDeleting = false) :
    m.driving r = m.lifecycle := if_neg (by rw [h]; exact Bool.false_ne_true)

namespace Waking

variable {kind : Kind} {ns name : String} {setup : Setup} {s t : Contest} {r : Resource}
  {m : Memory} {e : Entry}

/-- A resource that is kept waiting for a change: an action that is to bring its release about,
for which none was chosen, since Helm reports the release in another status. -/
structure Waits (setup : Setup) (r : Resource) (e : Entry) (story : Story) : Prop where
  living : r.isDeleting = false
  wish : r.wish = .reconcile
  unpinned : e.action = none
  reported : ReportedOther (r.release setup.defaults) story

/-- After a pass that leaves nothing to come back for. -/
structure Attended (setup : Setup) (kind : Kind) (ns name : String) (m : Memory) (t : Contest) :
    Prop where
  calm : Calm t
  released : ∀ o, t.store.get? ns name = some o → o.isDeleting = true → o.hasFinalizer = false
  unwritten : ∀ r, t.story.fetched? = some r → r.hasFinalizer = false →
    ∀ w a, .asked (.store (.update w)) a ∉ t.story
  finished : ∀ r e, t.story.fetched? = some r →
    (m.driving r).get? (.ofResource r) r.generation = some e →
      e.stage = .finish ∨ Waits setup r e t.story

/-- How a pass ends: it asks to come back, or leaves nothing to come back for. -/
def Settles (setup : Setup) (kind : Kind) (ns name : String) (o : Outcome) (m : Memory)
    (t : Contest) : Prop :=
  o.IsSoon ∨ o = .done ∧ Attended setup kind ns name m t

/-- Counting reads nothing. -/
theorem fetched_counted {counter : Counter} {u : Unit}
    (hmay : (conduct kind ns name).may s (.count counter) u t) :
    t.story.fetched? = s.story.fetched? := by
  rw [story_of_may hmay]
  exact Option.or_none

theorem Attended.counted (h : Attended setup kind ns name m s) {counter : Counter} {u : Unit}
    (hmay : (conduct kind ns name).may s (.count counter) u t) :
    Attended setup kind ns name m t := by
  obtain ⟨hstep, ht⟩ := considerate_of_may (fun _ _ => id) hmay
  have hfetched := fetched_counted hmay
  refine ⟨h.calm.next hmay fun halarm => halarm.1, ?_, ?_, ?_⟩
  · intro o ho hdel
    obtain ⟨old, hold, hdelold, hfin⟩ := hstep.2 o ho hdel
    exact Bool.eq_false_iff.2 fun hnew =>
      absurd (hfin hnew) (Bool.eq_false_iff.1 (h.released old hold hdelold))
  · intro r hr hbare w a hmem
    rw [ht] at hmem
    rcases List.mem_cons.1 hmem with heq | hmem
    · injection heq with hc _
      exact absurd hc (by simp)
    · exact h.unwritten r (hfetched ▸ hr) hbare w a hmem
  · intro r e hr he
    rcases h.finished r e (hfetched ▸ hr) he with hstage | hwaits
    · exact Or.inl hstage
    · refine Or.inr ⟨hwaits.living, hwaits.wish, hwaits.unpinned, ?_⟩
      rw [ht]
      exact hwaits.reported.cons _

theorem Rested.released (h : Rested kind ns name r t) (hdel : r.isDeleting = false) :
    ∀ o, t.store.get? ns name = some o → o.isDeleting = true → o.hasFinalizer = false := by
  intro o ho hodel
  rw [h.deleting o ho hodel] at hdel
  exact absurd hdel (by decide)

/-- Attended to, when the finalizer was on the resource from the beginning. -/
theorem Rested.attended (h : Rested kind ns name r t) (hcalm : Calm t)
    (hfinalizer : r.hasFinalizer = true)
    (hreleased : ∀ o, t.store.get? ns name = some o → o.isDeleting = true →
      o.hasFinalizer = false)
    (hfinished : ∀ e, (m.driving r).get? (.ofResource r) r.generation = some e →
      e.stage = .finish ∨ Waits setup r e t.story) : Attended setup kind ns name m t := by
  have hsame : ∀ {r'}, t.story.fetched? = some r' → r = r' :=
    fun hr' => Option.some.inj (h.fetched.symm.trans hr')
  refine ⟨hcalm, hreleased, ?_, ?_⟩
  · intro r' hr' hbare
    rw [← hsame hr', hfinalizer] at hbare
    exact absurd hbare (by decide)
  · intro r' e hr' he
    rw [← hsame hr'] at he ⊢
    exact hfinished e he

theorem settles_live (h : Minding kind ns name r (Job.start setup r e) s) (hcalm : Calm s)
    (hdel : r.isDeleting = false) (hfinalizer : r.hasFinalizer = true) (tracker : Tracker) :
    AlwaysFrom (conduct kind ns name) (Work.live setup) (Job.start setup r e) s fun o j t =>
      Settles setup kind ns name o
        { m with lifecycle := tracker.record (.ofResource r) r.generation j.entry } t := by
  refine ((closes_live hcalm).and
    (rested_live h)).mono ?_
  rintro o j t ⟨hsoon | ⟨ho, ht, hend⟩, hrested⟩
  · exact Or.inl hsoon
  · refine Or.inr ⟨ho, hrested.attended ht hfinalizer (hrested.released hdel) ?_⟩
    intro e' he'
    rw [Memory.driving_of_living hdel] at he'
    obtain rfl := Tracker.get?_record_self he'
    rcases hend with hstage | ⟨rfl, hnone, hundecided⟩
    · exact Or.inl hstage
    · exact Or.inr ⟨hdel, hundecided.wish, hnone, hundecided.reported⟩

theorem settles_clear (h : Minding kind ns name r (Job.start setup r e) s) (hcalm : Calm s)
    (hdel : r.isDeleting = true) (hfinalizer : r.hasFinalizer = true) (tracker : Tracker) :
    AlwaysFrom (conduct kind ns name) (Work.clear setup) (Job.start setup r e) s fun fo j t =>
      let m' := { m with deletion := tracker.record (.ofResource r) r.generation j.entry }
      Settles setup kind ns name fo.2 (if fo.1 then m'.forget j.resource else m') t := by
  rw [Work.always_clear]
  refine ((alert.perform hcalm .delete).and
    (minding_upheld.perform Upheld.recordsAll_true minding_free.unstaged h .delete)).mono ?_
  rintro o j t ⟨hends, hgoes⟩
  split
  · rename_i ho
    refine Or.inl (hends.resolve_right ?_)
    rintro ⟨rfl, _⟩
    exact absurd ho (by decide)
  · rename_i ho
    rw [Proceeds, if_neg ho] at hgoes
    obtain ⟨_, ht, hstage⟩ := hends.resolve_left fun hsoon => ho hsoon.requeue
    have hremoved : Always (conduct kind ns name) (Pass.removeFinalizer j.resource) t fun or t' =>
        Rested kind ns name r t' ∧ (or.1.requeue = true ∨ ∀ o, t'.store.get? ns name = some o →
          o.isDeleting = true → o.hasFinalizer = false) := by
      rw [Pass.always_removeFinalizer]
      split
      · refine (hgoes.toRested.persistResource (w := j.resource.removeFinalizer) hgoes.kind
          hgoes.key).mono ?_
        rintro or t' ⟨hrested, hpost⟩
        exact ⟨hrested, hpost.imp_right fun hbare =>
          hbare j.resource.hasFinalizer_removeFinalizer⟩
      · rename_i hbare
        exact ⟨hgoes.toRested, Or.inr fun o ho hodel =>
          Bool.eq_false_iff.2 fun hfin => hbare (hgoes.finalizer o ho hodel hfin)⟩
    refine ((alert.removeFinalizer ht j.resource).and hremoved).mono ?_
    rintro ⟨o', r'⟩ t' ⟨hheeds, hrested, hreleased⟩
    dsimp only at hheeds hreleased ⊢
    split
    · rename_i ho'
      exact Or.inl (hheeds.comesBack ho')
    · rename_i ho'
      refine Or.inr ⟨rfl, hrested.attended (hheeds.goesOn ho' Outcome.IsSoon.requeue) hfinalizer
        (hreleased.resolve_left ho') ?_⟩
      intro e' he'
      rw [Memory.driving_of_isDeleting hdel] at he'
      obtain rfl := Tracker.get?_record_self (Tracker.find?_dropUnder he')
      exact Or.inl hstage

/-- The resource that is read may be looked after here, and its work is not over for good. -/
def Concerned (setup : Setup) (t : Contest) : Prop :=
  ∀ r, t.story.fetched? = some r → r.className = setup.className ∧
    (r.isDeleting = true ∨ r.isTerminal = false)

theorem Concerned.before (h : Concerned setup t) {counter : Counter} {u : Unit}
    (hmay : (conduct kind ns name).may s (.count counter) u t) : Concerned setup s :=
  fun r hr => h r ((fetched_counted hmay).trans hr)

/-- The pass over a resource that was found. -/
theorem settles_found (h : ∀ e, Minding kind ns name r (Job.start setup r e) s) (hcalm : Calm s)
    (hunwritten : ∀ w a, .asked (.store (.update w)) a ∉ s.story) :
    AlwaysFrom (conduct kind ns name) (Reconcile.found setup r) m s fun o m' t =>
      Concerned setup t → Settles setup kind ns name o m' t := by
  have hrested : Rested kind ns name r s := (h (.fresh 0 .start)).toRested
  rw [Reconcile.always_found]
  split
  · rename_i hdel
    rw [Reconcile.always_clear]
    split
    · rename_i hfinalizer
      exact (settles_clear (h _) hcalm hdel hfinalizer _).mono fun _ _ _ hpost _ => hpost
    · rename_i hbare
      have hsame : ∀ {r'}, s.story.fetched? = some r' → r = r' :=
        fun hr' => Option.some.inj (hrested.fetched.symm.trans hr')
      refine fun _ => Or.inr ⟨rfl, hcalm, ?_, fun _ _ _ => hunwritten, ?_⟩
      · intro o ho hodel
        exact Bool.eq_false_iff.2 fun hfin =>
          hbare ((h (.fresh 0 .start)).finalizer o ho hodel hfin)
      · intro r' e hr' he
        obtain rfl := hsame hr'
        rw [Memory.driving_of_isDeleting hdel] at he
        exact absurd ((Tracker.get?_forget _ _ _).symm.trans he) (by simp)
  · rename_i hdel
    split
    · rename_i hterminal
      intro hconcerned
      rcases (hconcerned r hrested.fetched).2 with hyes | hno
      · exact absurd hyes hdel
      · rw [hterminal] at hno
        exact absurd hno (by decide)
    · by_cases hfinalizer : r.hasFinalizer = true
      · rw [Pass.always_ensureFinalizer, if_pos hfinalizer]
        dsimp only
        rw [Reconcile.always_live]
        exact (settles_live (h _) hcalm (Bool.eq_false_iff.2 hdel) hfinalizer _).mono
          fun _ _ _ hpost _ => hpost
      · refine (alert.ensureFinalizer hcalm (Bool.eq_false_iff.2 hfinalizer)).mono ?_
        rintro ⟨_, r'⟩ t ⟨o, rfl, hsoon⟩ _
        exact Or.inl hsoon

/-- A pass over any resource that it is concerned with. -/
theorem settles_reconcile (hkeyed : s.store.Keyed kind) (hcalm : Calm s)
    (hstory : ∀ q a, .asked (.store q) a ∉ s.story) (hfetched : s.story.fetched? = none) :
    AlwaysFrom (conduct kind ns name) (reconcile setup kind ns name) m s fun result m' t =>
      Concerned setup t → ∃ o, result = .ok o ∧ Settles setup kind ns name o m' t := by
  rw [always_reconcile]
  intro a t hmay
  obtain ⟨hstep, ht⟩ := considerate_of_may (fun _ _ => Contest.answered_of_isQuiet rfl) hmay
  rcases a with e | _ | r
  · exact (Pass.soon_shortDelayWith _).mono fun o _ ho _ => ⟨o, rfl, Or.inl ho⟩
  · have hcalm' : Calm t := alert.call hcalm hmay not_error_ok
    refine fun _ => ⟨.done, rfl, Or.inr ⟨rfl, hcalm', ?_, ?_, ?_⟩⟩
    · intro o ho hodel
      obtain ⟨old, hold, _⟩ := hstep.2 o ho hodel
      rw [stored_of_may hmay] at hold
      exact absurd hold (by simp)
    · intro r hr
      rw [ht, Story.fetched?, hfetched] at hr
      exact absurd hr (by simp [Event.read?])
    · intro r e hr
      rw [ht, Story.fetched?, hfetched] at hr
      exact absurd hr (by simp [Event.read?])
  · have hstored : s.store.get? ns name = some r := stored_of_may hmay
    have hread : t.story.fetched? = some r := by
      rw [ht, Story.fetched?, hfetched]
      rfl
    dsimp only
    split
    · rename_i hclass
      exact fun hconcerned => absurd (hconcerned r hread).1 hclass
    · obtain ⟨hkind, hkey⟩ := hkeyed ns name r hstored
      have hminding : ∀ e, Minding kind ns name r (Job.start setup r e) t := by
        intro e
        refine ⟨⟨hstep.1 hkeyed, hread, ?_⟩, hkind, hkey, ?_⟩
        · intro o ho hodel
          obtain ⟨old, hold, hdel, _⟩ := hstep.2 o ho hodel
          rw [hstored] at hold
          obtain rfl := Option.some.inj hold
          exact hdel
        · intro o ho hodel hfin
          obtain ⟨old, hold, _, hfinold⟩ := hstep.2 o ho hodel
          rw [hstored] at hold
          obtain rfl := Option.some.inj hold
          exact hfinold hfin
      have hcalm' : Calm t := alert.call hcalm hmay not_error_ok
      refine (settles_found hminding hcalm' ?_).mono fun o _ _ hpost hconcerned =>
        ⟨o, rfl, hpost hconcerned⟩
      intro w a hmem
      rw [ht] at hmem
      rcases List.mem_cons.1 hmem with heq | hmem
      · injection heq with hc _
        exact absurd hc (by simp)
      · exact hstory _ _ hmem

end Waking

end ReleaseOperator
