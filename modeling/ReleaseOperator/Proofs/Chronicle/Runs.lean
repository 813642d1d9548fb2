import ReleaseOperator.Proofs.Chronicle.Statuses

/-!
# What is ever told of a resource

Passes, users and restarts follow each other in any order, beginning with a resource that
has no status. Every status that is stored in the course of it is coherent, and from one to
the next the generation that they speak of does not go back.
-/

namespace ReleaseOperator.Chronicle

open InMemory Relation Program Work

variable {kind : Kind} {ns name : String} {setup : Setup} {c c' : Chronicle} {j : Job}
  {m : Memory} {r : Resource}

theorem Abreast.clear (h : Abreast kind ns name j.resource c) :
    AlwaysFrom (conduct kind ns name) (Work.clear setup) j c fun _ _ c' =>
      Good kind ns name c' := by
  rw [Work.always_clear]
  refine AlwaysFrom.mono
    (abreast_upheld.perform ⟨fun _ => .inl, fun _ => .inr⟩ abreast_free.unstaged h .delete) ?_
  intro o j' c₁ hgoes
  unfold Proceeds at hgoes
  split
  · rename_i ho
    rw [if_pos ho] at hgoes
    exact hgoes
  · rename_i ho
    rw [if_neg ho] at hgoes
    rw [Pass.always_removeFinalizer]
    split
    · refine (hgoes.good.persistResource (w := j'.resource.removeFinalizer) hgoes.kind
        hgoes.key).mono ?_
      rintro ⟨o', r'⟩ c₂ h₂
      dsimp only
      split
      · exact h₂
      · exact h₂
    · exact hgoes.good

theorem Abreast.live (h : Abreast kind ns name j.resource c) :
    AlwaysFrom (conduct kind ns name) (Work.live setup) j c fun _ _ c' =>
      Good kind ns name c' := by
  have U : Upheld (conduct kind ns name) setup _ (fun j c => Abreast kind ns name j.resource c)
      (fun _ => Good kind ns name) := abreast_upheld
  exact (U.live ⟨fun _ => .inl, fun _ => .inr⟩ abreast_free h).mono fun _ _ _ hgoes =>
    U.halted_of_proceeds hgoes

/-- The pass over a resource that was found. -/
theorem Abreast.found (h : Abreast kind ns name r c) :
    AlwaysFrom (conduct kind ns name) (Reconcile.found setup r) m c fun _ _ c' =>
      Good kind ns name c' := by
  have hstart : ∀ e, Abreast kind ns name (Job.start setup r e).resource c := fun _ => h
  rw [Reconcile.always_found]
  split
  · rw [Reconcile.always_clear]
    split
    · exact (hstart _).clear
    · exact h.good
  · split
    · exact h.good
    · rw [Pass.always_ensureFinalizer]
      split
      · exact (Reconcile.always_live _ _ _ _).2 (hstart _).live
      · have hkey : Store.keyOf r.addFinalizer = (ns, name) :=
          r.key_addFinalizer.trans h.key
        refine (h.good.persistResource (r.kind_addFinalizer.trans h.kind) hkey).mono ?_
        rintro ⟨o, r'⟩ c₁ h₁
        dsimp only
        split
        · exact h₁
        · exact h₁.quiet Pass.quiet_shortDelay

/-- Whatever a pass does, and whatever befalls it, the chronicle stays good. -/
theorem Good.reconcile (h : Good kind ns name c) :
    AlwaysFrom (conduct kind ns name) (reconcile setup kind ns name) m c fun _ _ c' =>
      Good kind ns name c' := by
  rw [always_reconcile]
  intro a c₁ hmay
  have h₁ := h.quietCall rfl hmay
  rcases a with e | _ | r
  · exact h₁.quiet (Pass.quiet_shortDelayWith _)
  · exact h₁
  · dsimp only
    split
    · exact h₁
    · have hstored : c.store.get? ns name = some r := by
        obtain ⟨store, hsuffered, _⟩ := hmay
        exact stored_of_suffered hsuffered
      obtain ⟨hkind, hkey⟩ := h.keyed ns name r hstored
      have hread : Abreast kind ns name r c := by
        refine ⟨h, hkind, hkey, h.orderly hstored, ?_⟩
        intro o ho
        rw [hstored] at ho
        obtain rfl := Option.some.inj ho
        exact ⟨Resource.SeenBy.refl _, Int.le_refl _⟩
      exact (hread.call (fun _ _ => Contest.answered_of_isQuiet rfl) hmay).found

/-- What can come of a resource that has no status yet: users do something, a pass goes over
it, for whatever class, with any memory of former ones, and the operator is started anew.
A pass that breaks off is one whose remaining calls all fail. -/
inductive Kept (kind : Kind) (ns name : String) : Memory → Chronicle → Prop
  | start {store : Store} (m : Memory) (keyed : store.Keyed kind)
      (untold : ∀ r, store.get? ns name = some r → r.status = none) :
      Kept kind ns name m ⟨store, []⟩
  | meddle {m : Memory} {c c' : Chronicle} (before : Kept kind ns name m c)
      (meddle : Meddle kind ns name c c') : Kept kind ns name m c'
  | pass {m : Memory} {c c' : Chronicle} {setup : Setup}
      {result : Except PassError Outcome × Memory} (before : Kept kind ns name m c)
      (run : Runs (conduct kind ns name) ((reconcile setup kind ns name).run m) c result c') :
      Kept kind ns name result.2 c'
  | restart {m : Memory} {c : Chronicle} (before : Kept kind ns name m c) :
      Kept kind ns name .empty c

theorem Kept.good (h : Kept kind ns name m c) : Good kind ns name c := by
  induction h with
  | start m keyed untold =>
      refine ⟨keyed, ?_, List.pairwise_singleton _ _⟩
      intro s hs r hr hsome
      rw [List.mem_singleton.1 hs] at hr
      rw [untold r hr] at hsome
      exact absurd hsome Bool.false_ne_true
  | meddle before hmeddle ih =>
      obtain ⟨store, hmeddled, rfl⟩ := hmeddle
      exact ih.same hmeddled
  | pass before run ih => exact always_iff_runs.1 ih.reconcile _ _ run
  | restart before ih => exact ih

/-- Every status ever stored is coherent: at most five conditions, all on readiness and each of
another event; the phase that the newest of them makes; no generation ahead of that of the
resource, and no success ahead of what was observed; and nothing final but the completion of an
action. Between any two stores the observed generation does not go back. -/
theorem statuses_coherent (h : Kept kind ns name m c) :
    (∀ s ∈ c.all, ∀ r, s.get? ns name = some r → r.status.isSome = true → r.Coherent) ∧
      c.all.Pairwise fun later earlier => ∀ new, later.get? ns name = some new →
        ∃ old, earlier.get? ns name = some old ∧ old.SeenBy new := by
  refine ⟨h.good.coherent, h.good.ordered.imp ?_⟩
  intro later earlier hfollows new hnew
  obtain ⟨old, hold, hseen, _⟩ := hfollows new hnew
  exact ⟨old, hold, hseen⟩

/-! ### A run with a user in the middle of it -/

/-- The user changes the values of the module `web`. -/
def respecified (store : Store) : Store :=
  (Contest.editTo "default" "web" (trialSpec "0.1.0" 2) ⟨store, []⟩).store

/-- All goes well, and the user changes the values right after the first answer. -/
def retold (q : Call) : StateM Chronicle q.Answer := fun c =>
  let (a, store) := Contest.wellAnswered .module (some ⟨"web", "default", .deployed, "0.1.0"⟩)
    c.store q
  (a, if c.earlier.isEmpty then (c.next store).next (respecified store) else c.next store)

theorem may_retold (c : Chronicle) (q : Call) :
    (conduct .module "default" "web").may c q (retold q c).1 (retold q c).2 := by
  refine ⟨_, .inl (Contest.answered_wellAnswered .module _ c.store q), ?_⟩
  unfold retold
  dsimp only
  split
  · refine ReflTransGen.single ⟨_, ?_, rfl⟩
    have hedits := Contest.edits_editTo "default" "web" (trialSpec "0.1.0" 2)
      ⟨(Contest.wellAnswered .module (some ⟨"web", "default", .deployed, "0.1.0"⟩) c.store q).2, []⟩
    exact meddled_edits hedits
  · exact ReflTransGen.refl

/-- The pass over the module `web`, computed. -/
def retoldPass : (Except PassError Outcome × Memory) × Chronicle :=
  ((reconcile trialSetup .module "default" "web").run .empty).run retold
    ⟨trialStore trialModule, []⟩

/-- The hypothesis of `statuses_coherent` holds of a pass with an edit in it, which records the
whole of an installation. -/
theorem statuses_coherent_retold :
    Kept .module "default" "web" retoldPass.1.2 retoldPass.2 ∧
      (retoldPass.2.store.get? "default" "web").map (fun r =>
        (r.conditions.map Condition.reason, r.observedGeneration, r.generation)) =
          some (["PreInstall", "InstallStarted", "InstallSucceeded"], some 2, 2) ∧
      ∀ s ∈ retoldPass.2.all, ∀ r, s.get? "default" "web" = some r → r.status.isSome = true →
        r.Coherent := by
  have hkept : Kept .module "default" "web" retoldPass.1.2 retoldPass.2 := by
    refine Kept.pass (Kept.start .empty (keyed_trialStore rfl rfl) ?_) (runs_run may_retold _ _)
    intro r hr
    obtain ⟨_, rfl⟩ := get?_trialStore hr
    rfl
  exact ⟨hkept, by decide +kernel, (statuses_coherent hkept).1⟩

end ReleaseOperator.Chronicle
