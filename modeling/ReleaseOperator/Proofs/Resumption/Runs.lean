import ReleaseOperator.Proofs.Estate.Sound
import ReleaseOperator.Proofs.Resumption.Weather

/-!
# The work on an action when nothing fails

From the beginning of the work on, nothing stops an action when no call fails and its values
can be found: every event is written down, the release is handed over, it is ready at once at
the version asked for, and the completion is recorded. Only an installation has to find the
place of its release vacant, since it passes by a release that stands already.
-/

namespace ReleaseOperator

open InMemory Program

namespace Estate

variable {g : Ground} {setup : Setup} {ns name : String} {o : Resource} {own : List Json}
  {j : Job} {s s' : Estate} {a : Action} {st : Stage} {reason : Reason} {out : Outcome}

/-- The copy in hand is the stored action, which asks for the same as at first. -/
structure InStep (setup : Setup) (ns name : String) (o : Resource) (j : Job) (s : Estate) :
    Prop where
  keyed : s.store.Keyed .action
  stored : s.store.get? ns name = some j.resource
  same : o.SameRequest j.resource
  release : j.release = o.release setup.defaults

/-- What has come about when the work of an action gets to a stage. -/
structure Along (setup : Setup) (ns name : String) (o : Resource) (a : Action) (st : Stage)
    (j : Job) (s : Estate) : Prop where
  inStep : InStep setup ns name o j s
  goesOn : st.rank ≤ 1 → j.resource.isTerminal = false
  vacant : st.rank ≤ 5 → a = .install → s.releases.get? (o.releaseKey setup) = none
  served : 5 < st.rank → setup.dryRun = false →
    isAt o (s.releases.get? (o.releaseKey setup)) = true
  completed : st = .finish → j.resource.phase = some .completed

theorem InStep.withEntry (h : InStep setup ns name o j s) (e : Entry) :
    InStep setup ns name o { j with entry := e } s :=
  ⟨h.keyed, h.stored, h.same, h.release⟩

/-- A step that is neither the work nor the completion hands on what has come about. -/
theorem Along.next {j' : Job} (h : Along setup ns name o a st j s)
    (hinStep : InStep setup ns name o j' s') (hreleases : s'.releases = s.releases)
    (hst : st ∉ [.work, .complete, .finish])
    (hgoesOn : st = .start → j'.resource = j.resource) :
    Along setup ns name o a st.next j' s' := by
  have hrank : st.next.rank = st.rank + 1 := by
    refine Stage.rank_next fun hfinish => hst ?_
    rw [hfinish]
    decide
  have hwork : st.rank ≠ 5 := by
    intro heq
    cases st <;> first | exact hst (by decide) | exact absurd heq (by decide)
  refine ⟨hinStep, fun hle => ?_, fun hle ha => ?_, fun hlt hacts => ?_, fun hfinish => ?_⟩
  · have hstart : st = .start := by
      cases st <;> first | rfl | exact absurd hle (by decide)
    rw [hgoesOn hstart]
    exact h.goesOn (by omega)
  · rw [hreleases]
    exact h.vacant (by omega) ha
  · rw [hreleases]
    exact h.served (by omega) hacts
  · cases st <;> first | exact absurd hfinish (by decide) | exact absurd (by decide) hst

theorem Along.withEntry (h : Along setup ns name o a st j s) (e : Entry) :
    Along setup ns name o a st { j with entry := e } s :=
  ⟨h.inStep.withEntry e, h.goesOn, h.vacant, h.served, h.completed⟩

/-- What a step has to lead to: it does not ask to come back, and the next stage follows. -/
def Proceeds (setup : Setup) (ns name : String) (o : Resource) (a : Action) (st : Stage)
    (out : Outcome) (j : Job) (s : Estate) : Prop :=
  out = .done ∧ Along setup ns name o a st.next j s

/-! ### Recording -/

/-- An event is recorded, and the copy in hand is the stored resource again. -/
theorem InStep.persistStatus {w : Resource} (h : InStep setup ns name o j s)
    (hmeta : w.metadata = j.resource.metadata) :
    Always (conduct g False) (Pass.persistStatus w) s fun or s' =>
      or.1 = .done ∧ or.2.status = w.status ∧ s'.releases = s.releases ∧
        InStep setup ns name o { j with resource := or.2 } s' := by
  refine (always_persistStatus h.keyed h.stored hmeta).mono ?_
  rintro ⟨out, r⟩ s' (⟨_, hfalse, _⟩ | ⟨rfl, ⟨n, rfl⟩, hkeyed, hstored, hreleases⟩)
  · exact hfalse.elim
  · exact ⟨rfl, rfl, hreleases, hkeyed, hstored, h.same.restated ⟨n, _, rfl⟩, h.release⟩

theorem InStep.announce (h : InStep setup ns name o j s) (reason : Reason)
    (detail : Option String) :
    AlwaysFrom (conduct g False) (Work.announce reason detail) j s fun out j' s' =>
      out = .done ∧ s'.releases = s.releases ∧ InStep setup ns name o j' s' := by
  rw [Work.always_announce]
  refine (always_quiet Pass.quiet_now).mono ?_
  rintro time s₁ rfl
  split
  · refine (h.persistStatus (j.metadata_noted reason detail time)).mono ?_
    rintro ⟨out, r⟩ s' ⟨hout, _, hreleases, h'⟩
    exact ⟨hout, hreleases, h'⟩
  · rename_i hnews
    rw [Job.noted_eq_self (Bool.not_eq_true _ ▸ hnews)]
    exact ⟨rfl, rfl, h⟩

/-- The phase of success is the last one of an action. -/
theorem InStep.conclude (h : InStep setup ns name o j s) (hkind : o.kind = .action)
    (hreason : reason ∈ Reason.completions) (reaches : Bool) :
    AlwaysFrom (conduct g False) (Work.conclude reason reaches) j s fun out j' s' =>
      out = .done ∧ s'.releases = s.releases ∧ InStep setup ns name o j' s' ∧
        j'.resource.phase = some .completed := by
  rw [Work.always_conclude]
  refine (always_quiet Pass.quiet_now).mono ?_
  rintro time s₁ rfl
  refine (h.persistStatus (Work.metadata_concluded j reason reaches time)).mono ?_
  rintro ⟨out, r⟩ s' ⟨hout, hstatus, hreleases, h'⟩
  refine ⟨hout, hreleases, h', ?_⟩
  have hphase : (Work.concluded j reason reaches time).phase =
      some (reason.phase j.resource.kind.successPhase) := Work.phase_concluded j reason reaches time
  rw [h.same.kind, hkind] at hphase
  change r.phase = _
  rw [Resource.phase, Resource.statusD, hstatus]
  refine hphase.trans ?_
  revert hreason
  cases reason <;> decide

/-! ### The steps -/

theorem Along.proceeds (h : Along setup ns name o a st j s)
    (hst : st ∉ [.work, .complete, .finish]) : Proceeds setup ns name o a st .done j s :=
  ⟨rfl, h.next h.inStep rfl hst fun _ => rfl⟩

theorem Along.announce (h : Along setup ns name o a st j s)
    (hst : st ∉ [.start, .work, .complete, .finish]) (reason : Reason) :
    AlwaysFrom (conduct g False) (Work.announce reason none) j s
      (Proceeds setup ns name o a st) := by
  refine (h.inStep.announce reason none).mono ?_
  rintro out j' s' ⟨hout, hreleases, hinStep⟩
  refine ⟨hout, h.next hinStep hreleases (fun hmem => hst (List.mem_cons_of_mem _ hmem)) ?_⟩
  rintro rfl
  exact absurd List.mem_cons_self hst

theorem Along.announceInstall (h : Along setup ns name o a st j s)
    (hst : st ∉ [.start, .work, .complete, .finish]) :
    AlwaysFrom (conduct g False) Work.announceInstall j s (Proceeds setup ns name o a st) := by
  rw [Work.always_announceInstall]
  refine (always_quiet Pass.quiet_now).mono ?_
  rintro time s₁ rfl
  exact (h.withEntry (j.entry.markPreInstall time)).announce hst .preInstall

theorem Along.hook (h : Along setup ns name o a st j s)
    (hst : st ∉ [.work, .complete, .finish]) (moment : HookMoment) (action : Action) :
    AlwaysFrom (conduct g False) (Work.hook moment action) j s
      (Proceeds setup ns name o a st) := by
  rw [Work.hook, Work.always_about, Pass.always_hook]
  rintro out s' ⟨rfl, rfl⟩
  exact h.proceeds hst

/-- No version has to be looked up. -/
theorem Along.preInstall (h : Along setup ns name o a .preWork j s)
    (hnamed : o.desiredVersion.isEmpty = false) :
    AlwaysFrom (conduct g False) (Work.preInstall setup) j s
      (Proceeds setup ns name o a .preWork) := by
  rw [Work.always_preInstall, h.inStep.same.desiredVersion, hnamed, if_neg Bool.false_ne_true]
  exact h.hook (by decide) .preWork .install

/-- The release is applied, in a dry run in appearance only. -/
theorem Along.applyRelease (h : Along setup ns name o a .work j s) (hown : Resolves g o own)
    (hcredited : Credited g setup o) (failure : Reason) :
    AlwaysFrom (conduct g False) (Work.applyRelease setup failure) j s
      (Proceeds setup ns name o a .work) := by
  have hsame := h.inStep.same
  rw [Work.always_applyRelease, Job.values_run, always_map, hsame.namespaceName,
    hsame.overrides]
  refine ((hown s).and (always_quiet (Pass.quiet_resolveFrom _ 0 _))).mono ?_
  rintro d s₁ ⟨rfl, rfl⟩
  dsimp only [Except.map]
  split
  · rename_i hdry
    exact ⟨rfl, h.inStep.withEntry _, fun hle => absurd hle (by decide),
      fun hle => absurd hle (by decide), fun _ hacts => absurd (hacts.symm.trans hdry) (by decide),
      fun hfinish => absurd hfinish (by decide)⟩
  · obtain ⟨credentials, hcredentials⟩ := hcredited
    rw [Job.credentials, hsame.namespaceName, h.inStep.release]
    refine ((hcredentials s₁).and (always_quiet (Pass.quiet_credentials _ _))).mono ?_
    rintro d s₂ ⟨rfl, rfl⟩
    dsimp only
    rw [Work.always_handOver]
    rintro answer s' (⟨info, rfl, rfl⟩ | ⟨_, hfalse, _⟩)
    · refine ⟨rfl, ⟨h.inStep.keyed, h.inStep.stored, hsame, h.inStep.release⟩,
        fun hle => absurd hle (by decide), fun hle => absurd hle (by decide), fun _ _ => ?_,
        fun hfinish => absurd hfinish (by decide)⟩
      have hput : ∀ documents, (s₂.apply g ⟨o.release setup.defaults, credentials,
          Sources.render documents, false, false⟩).releases.get? (o.releaseKey setup) =
            some (wanted g setup o documents) := fun _ => Table.get?_put_self
      rw [h.inStep.release, hput]
      exact Situation.isAt_wanted o _
    · exact hfalse.elim

/-- An installation applies its release, since there is none. -/
theorem Along.install (h : Along setup ns name o .install .work j s) (hown : Resolves g o own)
    (hcredited : Credited g setup o) :
    AlwaysFrom (conduct g False) (Work.install setup) j s
      (Proceeds setup ns name o .install .work) := by
  rw [Work.always_install]
  split
  · exact h.applyRelease hown hcredited .installFailed
  · rintro answer s' ⟨rfl, hanswer⟩
    have hvacant : s'.releases.get? (j.release.namespaceName, j.release.name) = none := by
      rw [h.inStep.release]
      exact h.vacant (Nat.le_refl 5) rfl
    rw [hvacant] at hanswer
    obtain rfl := hanswer.eq
    exact h.applyRelease hown hcredited .installFailed

/-- The release that was applied is ready. -/
theorem Along.isReady (h : Along setup ns name o a .awaitWork j s) :
    AlwaysFrom (conduct g False) (Work.isReady setup) j s fun r j' s' =>
      r = (true, .done) ∧ Along setup ns name o a .awaitWork j' s' := by
  rw [Work.always_isReady, Job.isReady]
  split
  · exact ⟨rfl, h⟩
  · rename_i hacts
    have hserved := h.served (by decide) (Bool.eq_false_iff.2 hacts)
    rw [Pass.releaseReady, always_bind, Pass.always_helm, h.inStep.release]
    rintro answer s' ⟨rfl, hanswer⟩
    change Honest False (.ok ((s'.releases.get? (o.releaseKey setup)).map StoredRelease.info))
      answer at hanswer
    cases hstored : s'.releases.get? (o.releaseKey setup) with
    | none =>
        rw [hstored] at hserved
        exact absurd hserved Bool.false_ne_true
    | some stored =>
        rw [hstored] at hserved hanswer
        obtain rfl := hanswer.eq
        have hdeployed : Pass.isDeployedAt o.desiredVersion stored.info = true := hserved
        dsimp only [Option.map_some]
        rw [h.inStep.same.desiredVersion, if_pos hdeployed]
        refine (always_manifestReady _).mono ?_
        rintro r t ⟨rfl, hr | ⟨hfalse, _⟩⟩
        · exact ⟨hr, h⟩
        · exact hfalse.elim

theorem Along.conclude (h : Along setup ns name o a .complete j s) (hkind : o.kind = .action)
    (hreason : reason ∈ Reason.completions) (reaches : Bool) :
    AlwaysFrom (conduct g False) (Work.conclude reason reaches) j s
      (Proceeds setup ns name o a .complete) := by
  refine (h.inStep.conclude hkind hreason reaches).mono ?_
  rintro out j' s' ⟨hout, hreleases, hinStep, hphase⟩
  refine ⟨hout, hinStep, fun hle => absurd hle (by decide), fun hle => absurd hle (by decide),
    fun _ hacts => ?_, fun _ => hphase⟩
  rw [hreleases]
  exact h.served (by decide) hacts

/-! ### The run -/

theorem Along.enter (h : Along setup ns name o a st j s) (action : Action) (stage : Stage) :
    AlwaysFrom (conduct g False) (Work.enter action stage) j s fun _ =>
      Along setup ns name o a st := by
  rw [Work.always_enter]
  rintro u s' rfl
  exact h.withEntry _

theorem onward_of_proceeds {stop : Outcome → Job → Estate → Prop}
    (h : Proceeds setup ns name o a st out j s) (action : Action) :
    Worker.Onward (conduct g False) action st (Along setup ns name o a) stop out j s := by
  obtain ⟨rfl, hnext⟩ := h
  exact hnext.enter action st.next

/-- Each step of a run leads to the next stage. -/
theorem Along.step (hkind : o.kind = .action) (hnamed : o.desiredVersion.isEmpty = false)
    (hown : Resolves g o own) (hcredited : Credited g setup o) (ha : a ≠ .delete)
    {work : Work Outcome} (hmem : (st, work) ∈ (Worker.forAction setup a).steps)
    (h : Along setup ns name o a st j s) :
    AlwaysFrom (conduct g False) work j s (Proceeds setup ns name o a st) := by
  have hidle : st ∉ [.work, .complete, .finish] →
      AlwaysFrom (conduct g False) (pure .done : Work Outcome) j s
        (Proceeds setup ns name o a st) := fun hst =>
    (alwaysFrom_pure _ _).2 (h.proceeds hst)
  have hconclude : ∀ {reason : Reason}, st = .complete → reason ∈ Reason.completions →
      AlwaysFrom (conduct g False) (Work.conclude reason true) j s
        (Proceeds setup ns name o a st) := by
    rintro reason rfl hreason
    exact h.conclude hkind hreason true
  cases a <;>
    simp only [Worker.steps, Worker.forAction, List.mem_cons, Prod.mk.injEq, List.not_mem_nil,
      or_false] at hmem <;>
    rcases hmem with ⟨rfl, rfl⟩ | ⟨rfl, rfl⟩ | ⟨rfl, rfl⟩ | ⟨rfl, rfl⟩ | ⟨rfl, rfl⟩ | ⟨rfl, rfl⟩ |
      ⟨rfl, rfl⟩
  case install.inl => exact h.announceInstall (by decide)
  case install.inr.inl => exact h.preInstall hnamed
  case install.inr.inr.inr.inl => exact h.install hown hcredited
  case install.inr.inr.inr.inr.inr.inr =>
    refine Work.always_concludeInstall ?_ (hconclude rfl (by decide))
    rintro out j' s' u s'' rfl hpost
    exact hpost
  all_goals first
    | exact absurd rfl ha
    | exact hidle (by decide)
    | exact h.announce (by decide) _
    | exact h.hook (by decide) _ _
    | exact h.applyRelease hown hcredited _
    | exact hconclude rfl (by decide)

/-- A run from the beginning on comes to the completion. -/
theorem Along.run (hkind : o.kind = .action) (hnamed : o.desiredVersion.isEmpty = false)
    (hown : Resolves g o own) (hcredited : Credited g setup o) (ha : a ≠ .delete)
    (h : Along setup ns name o a st j s) :
    AlwaysFrom (conduct g False) ((Worker.forAction setup a).run Work.surroundings st) j s
      fun out j' s' => out = .done ∧ Along setup ns name o a .finish j' s' := by
  refine Worker.always_run_of_steps (Worker.action_forAction setup a)
    (fun j s h => onward_of_proceeds (h.proceeds (by decide)) a) ?_ ?_ ?_
    (fun j s h => ⟨rfl, h⟩) h
  · intro j s h
    have hneeded : AlwaysFrom (conduct g False) (Worker.forAction setup a).isNeeded j s
        fun r j' s' => r = (true, .done) ∧ Along setup ns name o a .checkNeeded j' s' := by
      cases a with
      | install =>
          change AlwaysFrom _
            (get >>= fun j : Job => pure (!j.resource.isTerminal, Outcome.done)) _ _ _
          rw [alwaysFrom_bind, alwaysFrom_get, alwaysFrom_pure, h.goesOn (by decide)]
          exact ⟨rfl, h⟩
      | update => exact ⟨rfl, h⟩
      | upgrade => exact ⟨rfl, h⟩
      | delete => exact absurd rfl ha
    refine hneeded.mono ?_
    rintro r j' s' ⟨rfl, h'⟩
    simp only [Bool.true_or, ↓reduceIte]
    exact onward_of_proceeds (h'.proceeds (by decide)) a
  · intro j s h
    rw [isDone_forAction setup ha]
    refine h.isReady.mono ?_
    rintro r j' s' ⟨rfl, h'⟩
    simp only [Bool.true_or, ↓reduceIte]
    exact onward_of_proceeds (h'.proceeds (by decide)) a
  · intro st work hmem j s h
    refine (h.step hkind hnamed hown hcredited ha hmem).mono ?_
    intro out j' s' hproceeds
    exact onward_of_proceeds hproceeds a

end Estate

end ReleaseOperator
