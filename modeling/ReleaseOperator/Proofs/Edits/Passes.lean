import ReleaseOperator.Proofs.Edits.Steps

/-!
# Whole passes among edits

The steps are put together: the run of a worker all of whose steps keep what holds, the
work on an entry, and the pass with its reading of the resource. At the end of a pass
the store is settled again, and both trackers still hold entries under keys of their own
generation.
-/

namespace ReleaseOperator.Contest

open InMemory Relation Program

variable {setup : Setup} {kind : Kind} {ns name : String} {trusted : Prop}
  {pending : Int → Prop} {r : Resource} {j : Job} {s t : Contest} {m : Memory}

/-! ### Runs of an action -/

theorem Underway.enter (action : Action) (stage : Stage)
    (h : Underway setup kind ns name trusted settledOnly r j s) :
    AlwaysFrom (conduct kind ns name) (Work.enter action stage) j s fun _ j' t =>
      Underway setup kind ns name trusted settledOnly r j' t := by
  rw [Work.always_enter]
  intro u t hmay
  exact (h.quietCall rfl hmay).withEntry (j.entry.setStage stage) rfl

theorem Honest.finish {story story' : Story} {o : Resource}
    (h : Honest story (fun g => g = r.generation) o) (hsuffix : story <:+ story')
    (hfin : Finished story' (.ofResource o) r.generation) : Honest story' settledOnly o := by
  intro g hg
  obtain ⟨hle, hcases⟩ := h g hg
  refine ⟨hle, fun he => ?_⟩
  rcases hcases he with hf | ho | hp
  · exact Or.inl (hf.mono hsuffix)
  · exact Or.inr (Or.inl (ho.mono hsuffix))
  · rw [hp]
    exact Or.inl hfin

/-- With the last stage entered, the generation of the entry is finished. -/
theorem Underway.finish (action : Action)
    (h : Underway setup kind ns name trusted (fun g => g = r.generation) r j s) :
    AlwaysFrom (conduct kind ns name) (Work.enter action .finish) j s fun _ j' t =>
      Underway setup kind ns name trusted settledOnly r j' t := by
  rw [Work.always_enter]
  rintro u t ⟨store, hans, hedits⟩
  obtain rfl : store = s.store := hans
  have hasked := h.asked (a := u) (c := .count (.transition Stage.finish.label action.workName))
    trivial rfl
  have hsuffix : s.story <:+
      .asked (.count (.transition Stage.finish.label action.workName)) u :: s.story :=
    List.suffix_cons _ _
  have hfin : ∀ o : Resource, o.kind = kind → Store.keyOf o = (ns, name) →
      o.metadata.uid = r.metadata.uid →
      Finished (.asked (.count (.transition Stage.finish.label action.workName)) u :: s.story)
        (.ofResource o) r.generation := by
    intro o hkind hkey huid
    refine ⟨action.workName, u, r, s.story, List.suffix_rfl, h.fetched, ?_, rfl⟩
    exact objectId_eq (h.place.1.trans hkind.symm) (h.place.2.trans hkey.symm) huid.symm
  obtain ⟨o, ho, houid, hogen, hospec, hohonest⟩ := h.stored
  obtain ⟨c, hc, hmeta, hspec, hobs, hckind, hckey, hcuid, hcgen, hcspec, hchonest⟩ := h.inHand
  obtain ⟨hokind, hokey⟩ := h.keyed ns name o ho
  have hdone : Underway setup kind ns name trusted settledOnly r
      { j with entry := j.entry.setStage .finish }
      ⟨s.store, .asked (.count (.transition Stage.finish.label action.workName)) u :: s.story⟩ :=
    ⟨hasked.keyed, hasked.fair, hasked.fetched, hasked.place, hasked.release, hasked.entry,
      ⟨o, ho, houid, hogen, hospec, fun htrust =>
        (hohonest htrust).finish hsuffix (hfin o hokind hokey houid)⟩,
      ⟨c, Story.inHand?_asked rfl hc, hmeta, hspec, hobs, hckind, hckey, hcuid, hcgen, hcspec,
        fun htrust => (hchonest htrust).finish hsuffix (hfin c hckind hckey hcuid)⟩⟩
  exact hdone.edits hedits

/-- A worker all of whose steps keep what holds. -/
structure Keeps (setup : Setup) (kind : Kind) (ns name : String) (trusted : Prop) (r : Resource)
    (w : Worker Work) : Prop where
  isNeeded : ∀ j s, Underway setup kind ns name trusted settledOnly r j s →
    AlwaysFrom (conduct kind ns name) w.isNeeded j s fun _ j' t =>
      Underway setup kind ns name trusted settledOnly r j' t
  isDone : ∀ j s, Underway setup kind ns name trusted settledOnly r j s →
    AlwaysFrom (conduct kind ns name) w.isDone j s fun _ j' t =>
      Underway setup kind ns name trusted settledOnly r j' t
  step : ∀ work ∈ [w.announcePreWork, w.preWork, w.announceWork, w.work, w.announcePostWork,
      w.postWork], ∀ j s, Underway setup kind ns name trusted settledOnly r j s →
    AlwaysFrom (conduct kind ns name) work j s (Goes setup kind ns name trusted r)
  complete : ∀ j s, Underway setup kind ns name trusted settledOnly r j s →
    AlwaysFrom (conduct kind ns name) w.complete j s fun o j' t =>
      if o.requeue then Ended setup kind ns name trusted r j' t
      else Underway setup kind ns name trusted (fun g => g = r.generation) r j' t

theorem Keeps.stage {w : Worker Work} (hw : Keeps setup kind ns name trusted r w) (st : Stage)
    (h : Underway setup kind ns name trusted settledOnly r j s) (hst : st ≠ .finish) :
    AlwaysFrom (conduct kind ns name) (w.stage Work.surroundings st) j s
      (Worker.After (conduct kind ns name) w.action st
        (fun _ => Underway setup kind ns name trusted settledOnly r)
        (Goes setup kind ns name trusted r)) := by
  have hstep : ∀ work ∈ [w.announcePreWork, w.preWork, w.announceWork, w.work,
      w.announcePostWork, w.postWork],
      AlwaysFrom (conduct kind ns name) (Stage.Result.ofOutcome <$> work) j s
        (Worker.After (conduct kind ns name) w.action st
          (fun _ => Underway setup kind ns name trusted settledOnly r)
          (Goes setup kind ns name trusted r)) := by
    intro work hmem
    rw [Worker.always_ofOutcome]
    refine (hw.step work hmem j s h).mono ?_
    intro o j' t hgoes
    unfold Goes at hgoes
    split
    · rename_i ho
      rw [if_pos ho] at hgoes
      rw [Goes, if_pos ho]
      exact hgoes
    · rename_i ho
      rw [if_neg ho] at hgoes
      exact hgoes.enter w.action st.next
  cases st with
  | start => exact h.enter w.action .checkNeeded
  | checkNeeded =>
      rw [Worker.stage, alwaysFrom_bind]
      refine (hw.isNeeded j s h).mono ?_
      rintro ⟨needed, o⟩ j' t ht
      rw [alwaysFrom_pure]
      split
      · exact ht.goes
      · split
        · exact ht.enter w.action .announcePreWork
        · have hskip : AlwaysFrom (conduct kind ns name) (Work.enter w.action .finish) j' t
              fun _ => Goes setup kind ns name trusted r .done :=
            (ht.enter w.action .finish).mono fun _ _ _ ht' => ht'.goes
          exact hskip
  | announcePreWork => exact hstep _ (by simp)
  | preWork => exact hstep _ (by simp)
  | announceWork => exact hstep _ (by simp)
  | work => exact hstep _ (by simp)
  | awaitWork =>
      rw [Worker.stage, alwaysFrom_bind]
      refine (hw.isDone j s h).mono ?_
      rintro ⟨done, o⟩ j' t ht
      dsimp only
      split
      · exact ht.goes
      · split
        · exact ht.enter w.action .announcePostWork
        · rw [alwaysFrom_bind]
          refine (Work.always_ask _ _).2 ((ht.quiet Pass.quiet_shortDelay).mono ?_)
          rintro o' t' ⟨ht', _⟩
          exact ht'.goes
  | announcePostWork => exact hstep _ (by simp)
  | postWork => exact hstep _ (by simp)
  | complete =>
      rw [Worker.stage, Worker.always_ofOutcome]
      refine (hw.complete j s h).mono ?_
      intro o j' t ht
      split
      · rename_i ho
        rw [if_pos ho] at ht
        rw [Goes, if_pos ho]
        exact ht
      · rename_i ho
        rw [if_neg ho] at ht
        exact ht.finish w.action
  | finish => exact absurd rfl hst

theorem Keeps.run {w : Worker Work} (hw : Keeps setup kind ns name trusted r w) (st : Stage)
    (h : Underway setup kind ns name trusted settledOnly r j s) :
    AlwaysFrom (conduct kind ns name) (w.run Work.surroundings st) j s
      (Goes setup kind ns name trusted r) :=
  Worker.always_run (fun _ => Underway setup kind ns name trusted settledOnly r)
    (Goes setup kind ns name trusted r)
    (fun st _ _ hst hnext => hw.stage st hnext hst) (fun _ _ hnext => hnext.goes) h

/-! ### The four actions -/

theorem Underway.isReady (h : Underway setup kind ns name trusted settledOnly r j s) :
    AlwaysFrom (conduct kind ns name) (Work.isReady setup) j s fun _ j' t =>
      Underway setup kind ns name trusted settledOnly r j' t := by
  rw [Work.always_isReady]
  refine (h.quiet (Pass.quiet_isReady setup j)).mono ?_
  rintro _ t ⟨ht, _⟩
  exact ht

theorem Underway.isGone (h : Underway setup kind ns name trusted settledOnly r j s) :
    AlwaysFrom (conduct kind ns name) (Work.isGone setup) j s fun _ j' t =>
      Underway setup kind ns name trusted settledOnly r j' t := by
  unfold Work.isGone
  split
  · exact h
  · rw [alwaysFrom_bind, alwaysFrom_get, alwaysFrom_bind, Work.always_ask]
    refine (h.quiet (Pass.quiet_releaseInfo _ _)).mono ?_
    rintro a t ⟨ht, _⟩
    cases a with
    | error e =>
        rw [Work.always_ask]
        refine (ht.quiet (Pass.quiet_unanswered (.helm e))).mono ?_
        rintro _ t' ⟨ht', _⟩
        exact ht'
    | ok info => exact ht

theorem Underway.announceInstall (h : Underway setup kind ns name trusted settledOnly r j s) :
    AlwaysFrom (conduct kind ns name) Work.announceInstall j s
      (Goes setup kind ns name trusted r) := by
  rw [Work.always_announceInstall]
  refine (h.quiet Pass.quiet_now).mono ?_
  rintro time t ⟨ht, _⟩
  exact (ht.withEntry (j.entry.markPreInstall time) rfl).announce (by decide)

theorem Underway.concludeInstall (h : Underway setup kind ns name trusted settledOnly r j s) :
    AlwaysFrom (conduct kind ns name) Work.concludeInstall j s fun o j' t =>
      if o.requeue then Ended setup kind ns name trusted r j' t
      else Underway setup kind ns name trusted (fun g => g = r.generation) r j' t := by
  refine Work.always_concludeInstall ?_ (h.conclude (by decide) (Or.inl rfl))
  intro o j' x u y hmay hpost
  split
  · rename_i ho
    rw [if_pos ho] at hpost
    exact ⟨hpost.1.quietCall rfl hmay, hpost.2⟩
  · rename_i ho
    rw [if_neg ho] at hpost
    exact hpost.quietCall rfl hmay

/-- Whatever the action, its worker keeps what holds. -/
theorem keeps_forAction (action : Action) :
    Keeps setup kind ns name trusted r (Worker.forAction setup action) := by
  have hidle : ∀ j s, Underway setup kind ns name trusted settledOnly r j s →
      AlwaysFrom (conduct kind ns name) (pure .done : Work Outcome) j s
        (Goes setup kind ns name trusted r) := fun _ _ h => (alwaysFrom_pure _ _).2 h.goes
  cases action with
  | install =>
      refine ⟨fun _ _ h => h, fun _ _ h => h.isReady, ?_, fun _ _ h => h.concludeInstall⟩
      intro work hmem j s h
      simp only [List.mem_cons, List.not_mem_nil, or_false] at hmem
      rcases hmem with rfl | rfl | rfl | rfl | rfl | rfl
      · exact h.announceInstall
      · exact h.preInstall
      · exact h.announce (by decide)
      · exact h.install
      · exact hidle j s h
      · exact h.hook .postWork .install
  | update =>
      refine ⟨fun _ _ h => h, fun _ _ h => h.isReady, ?_,
        fun _ _ h => h.conclude (by decide) (Or.inl rfl)⟩
      intro work hmem j s h
      simp only [List.mem_cons, List.not_mem_nil, or_false] at hmem
      rcases hmem with rfl | rfl | rfl | rfl | rfl | rfl
      · exact hidle j s h
      · exact h.hook .preWork .update
      · exact h.announce (by decide)
      · exact h.applyRelease (by decide)
      · exact hidle j s h
      · exact h.hook .postWork .update
  | upgrade =>
      refine ⟨fun _ _ h => h, fun _ _ h => h.isReady, ?_,
        fun _ _ h => h.conclude (by decide) (Or.inl rfl)⟩
      intro work hmem j s h
      simp only [List.mem_cons, List.not_mem_nil, or_false] at hmem
      rcases hmem with rfl | rfl | rfl | rfl | rfl | rfl
      · exact h.announce (by decide)
      · exact h.hook .preWork .upgrade
      · exact h.announce (by decide)
      · exact h.applyRelease (by decide)
      · exact hidle j s h
      · exact h.hook .postWork .upgrade
  | delete =>
      refine ⟨fun _ _ h => h, fun _ _ h => h.isGone, ?_,
        fun _ _ h => h.conclude (by decide) (Or.inr rfl)⟩
      intro work hmem j s h
      simp only [List.mem_cons, List.not_mem_nil, or_false] at hmem
      rcases hmem with rfl | rfl | rfl | rfl | rfl | rfl
      · exact h.announce (by decide)
      · exact h.hook .preWork .delete
      · exact h.announce (by decide)
      · exact h.uninstall
      · exact hidle j s h
      · exact h.hook .postWork .delete

theorem Underway.perform (action : Action)
    (h : Underway setup kind ns name trusted settledOnly r j s) :
    AlwaysFrom (conduct kind ns name) (Work.perform setup action) j s
      (Goes setup kind ns name trusted r) := by
  rw [Work.always_perform]
  exact (keeps_forAction action).run j.entry.stage h

/-! ### A pass -/

theorem Underway.runPinned (h : Underway setup kind ns name trusted settledOnly r j s) :
    AlwaysFrom (conduct kind ns name) (Work.runPinned setup) j s
      (fun _ => Ended setup kind ns name trusted r) := by
  rw [Work.always_runPinned]
  split
  · exact (h.perform _).mono fun _ _ _ hgoes => hgoes.ended
  · refine (h.quiet (Pass.quiet_chooseAction j)).mono ?_
    rintro (o | a) t ⟨ht, _⟩
    · exact ht.ended
    · exact ((ht.withEntry (j.entry.pin a) rfl).perform a).mono fun _ _ _ hgoes => hgoes.ended

theorem Underway.live (h : Underway setup kind ns name trusted settledOnly r j s) :
    AlwaysFrom (conduct kind ns name) (Work.live setup) j s
      (fun _ => Ended setup kind ns name trusted r) := by
  rw [Work.always_live]
  split
  · rw [Work.always_valuesChanged]
    split
    · exact h.ended
    · refine (h.quiet (Pass.quiet_valuesDigest setup j)).mono ?_
      rintro (e | desired) t ⟨ht, _⟩
      · refine (ht.quiet (Pass.quiet_shortDelayWith _)).mono ?_
        rintro o t' ⟨ht', _⟩
        exact ht'.ended
      · refine (ht.quiet (Pass.quiet_appliedDigest setup j desired)).mono ?_
        rintro (o | applied) t' ⟨ht', _⟩
        · exact ht'.ended
        · have hd := ht'.withEntry (j.entry.setDigest applied) rfl
          dsimp only
          split
          · exact hd.ended
          · exact hd.ended
          · exact (hd.withEntry ((j.entry.setDigest applied).pin .update).rearm rfl).runPinned
  · exact h.runPinned

theorem Underway.clear (h : Underway setup kind ns name trusted settledOnly r j s) :
    AlwaysFrom (conduct kind ns name) (Work.clear setup) j s
      (fun _ => Ended setup kind ns name trusted r) := by
  rw [Work.always_clear]
  refine (h.perform .delete).mono ?_
  intro o j' t hgoes
  split
  · exact hgoes.ended
  · rename_i ho
    rw [Goes, if_neg ho] at hgoes
    rw [Pass.always_removeFinalizer]
    split
    · obtain ⟨hkind, hns, hname⟩ := hgoes.copyPlace rfl rfl
      have hwkind : j'.resource.removeFinalizer.kind = kind := hkind
      have hwkey : Store.keyOf j'.resource.removeFinalizer = (ns, name) := Prod.ext hns hname
      refine (hgoes.persistResource hwkind hwkey).mono ?_
      rintro ⟨o', r'⟩ t' ht'
      dsimp only
      split
      · exact ⟨ht', hgoes.entry⟩
      · exact ⟨ht', hgoes.entry⟩
    · exact hgoes.ended

/-- The reading of the resource with which a pass begins. -/
theorem Settled.begin {es : Story} {e : Entry} (h : Settled setup kind ns name trusted s)
    (hbegan : s.story = .began :: es) (he : trusted → e.generation = r.generation)
    (hmay : (conduct kind ns name).may s (.store (.get kind ns name)) (.ok (some r)) t) :
    Underway setup kind ns name trusted settledOnly r (Job.start setup r e) t := by
  obtain ⟨store, hans, hedits⟩ := hmay
  have hr := stored_of_answered hans
  obtain rfl := answered_of_isQuiet rfl hans
  have hsuffix : s.story <:+ .asked (.store (.get kind ns name)) (.ok (some r)) :: s.story :=
    List.suffix_cons _ _
  have hfetched : Story.fetched? (.asked (.store (.get kind ns name)) (.ok (some r)) :: s.story) =
      some r := by
    rw [hbegan]
    rfl
  have hhand : Story.inHand? (.asked (.store (.get kind ns name)) (.ok (some r)) :: s.story) =
      some r := by
    rw [hbegan]
    rfl
  have hsince : Story.editsSinceFetch
      (.asked (.store (.get kind ns name)) (.ok (some r)) :: s.story) = 0 := by
    rw [hbegan]
    rfl
  have hin : Story.editsInHand
      (.asked (.store (.get kind ns name)) (.ok (some r)) :: s.story) = 0 := by
    rw [hbegan]
    rfl
  have hhonest : trusted → Honest
      (.asked (.store (.get kind ns name)) (.ok (some r)) :: s.story) settledOnly r :=
    fun htrust => (h.honest htrust r hr).mono hsuffix fun _ => id
  obtain ⟨hkind, hkey⟩ := h.keyed ns name r hr
  have hbegin : Underway setup kind ns name trusted settledOnly r (Job.start setup r e)
      ⟨s.store, .asked (.store (.get kind ns name)) (.ok (some r)) :: s.story⟩ := by
    refine ⟨h.keyed, allFair_cons h.fair trivial, hfetched, ⟨hkind, hkey⟩, rfl, he,
      ⟨r, hr, rfl, ?_, fun _ => rfl, hhonest⟩,
      ⟨r, hhand, rfl, rfl, rfl, hkind, hkey, rfl, ?_, fun _ => rfl, hhonest⟩⟩
    · rw [hsince]
      exact (Int.add_zero _).symm
    · rw [hin]
      exact (Int.add_zero _).symm
  exact hbegin.edits hedits

theorem Underway.startAgain {e e' : Entry}
    (h : Underway setup kind ns name trusted pending r (Job.start setup r e) s)
    (he : trusted → e'.generation = r.generation) :
    Underway setup kind ns name trusted pending r (Job.start setup r e') s :=
  ⟨h.keyed, h.fair, h.fetched, h.place, h.release, he, h.stored, h.inHand⟩

theorem Underway.liveOn {e : Entry}
    (h : Underway setup kind ns name trusted settledOnly r (Job.start setup r e) s)
    (hm : trusted → m.Keyed) :
    AlwaysFrom (conduct kind ns name) (Reconcile.live setup r) m s fun _ m' t =>
      Settled setup kind ns name trusted t ∧ (trusted → m'.Keyed) := by
  rw [Reconcile.always_live]
  have hstart := h.startAgain fun htrust =>
    (hm htrust).1.generation_ensure (.ofResource r) r.generation .start
  refine hstart.live.mono ?_
  rintro o j t ⟨ht, hentry⟩
  refine ⟨ht, fun htrust => ⟨?_, (hm htrust).2⟩⟩
  exact (hm htrust).1.ensure.record (hentry htrust)

theorem Underway.clearOn {e : Entry}
    (h : Underway setup kind ns name trusted settledOnly r (Job.start setup r e) s)
    (hm : trusted → m.Keyed) :
    AlwaysFrom (conduct kind ns name) (Reconcile.clear setup r) m s fun _ m' t =>
      Settled setup kind ns name trusted t ∧ (trusted → m'.Keyed) := by
  rw [Reconcile.always_clear]
  split
  · have hstart := h.startAgain fun htrust =>
      (hm htrust).2.generation_ensure (.ofResource r) r.generation .start
    refine hstart.clear.mono ?_
    rintro ⟨forget, o⟩ j t ⟨ht, hentry⟩
    refine ⟨ht, fun htrust => ?_⟩
    have hkeyed : Memory.Keyed { m with deletion := ((m.deletion.ensure (.ofResource r)
        r.generation .start).2.record (.ofResource r) r.generation j.entry) } :=
      ⟨(hm htrust).1, (hm htrust).2.ensure.record (hentry htrust)⟩
    cases forget with
    | true => exact hkeyed.forget j.resource
    | false => exact hkeyed
  · exact ⟨h.settled, fun htrust => (hm htrust).forget r⟩

theorem Underway.found {e : Entry}
    (h : Underway setup kind ns name trusted settledOnly r (Job.start setup r e) s)
    (hm : trusted → m.Keyed) :
    AlwaysFrom (conduct kind ns name) (Reconcile.found setup r) m s fun _ m' t =>
      Settled setup kind ns name trusted t ∧ (trusted → m'.Keyed) := by
  rw [Reconcile.always_found]
  split
  · exact h.clearOn hm
  · split
    · exact ⟨h.settled, hm⟩
    · rw [Pass.always_ensureFinalizer]
      split
      · exact h.liveOn hm
      · have hwkind : r.addFinalizer.kind = kind := by
          rw [← h.place.1]
          exact Resource.kind_addFinalizer r
        have hwkey : Store.keyOf r.addFinalizer = (ns, name) := by
          rw [← h.place.2]
          exact Resource.key_addFinalizer r
        refine (h.persistResource hwkind hwkey).mono ?_
        rintro ⟨o, r'⟩ t ht
        dsimp only
        split
        · exact ⟨ht, hm⟩
        · refine (ht.quiet Pass.quiet_shortDelay).mono ?_
          intro o' t' ht'
          exact ⟨ht', hm⟩

/-- A pass among edits leaves a settled store and an orderly memory. -/
theorem Settled.reconcile {es : Story} (h : Settled setup kind ns name trusted s)
    (hbegan : s.story = .began :: es) (hm : trusted → m.Keyed) :
    AlwaysFrom (conduct kind ns name) (ReleaseOperator.reconcile setup kind ns name) m s
      fun _ m' t => Settled setup kind ns name trusted t ∧ (trusted → m'.Keyed) := by
  rw [always_reconcile]
  intro a t hmay
  have ht := h.quietCall rfl hmay
  rcases a with e | _ | r
  · refine (ht.quiet (Pass.quiet_shortDelayWith _)).mono ?_
    intro o t' ht'
    exact ⟨ht', hm⟩
  · exact ⟨ht, fun htrust => (hm htrust).forgetNamed kind ns name⟩
  · dsimp only
    split
    · exact ⟨ht, hm⟩
    · have hstart := h.begin (e := Entry.fresh r.generation .start) hbegan (fun _ => rfl) hmay
      exact hstart.found hm

end ReleaseOperator.Contest
