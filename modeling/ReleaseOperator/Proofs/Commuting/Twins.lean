import ReleaseOperator.Proofs.Commuting.Commons
import ReleaseOperator.Proofs.Behaviour
import ReleaseOperator.Proofs.Questions

/-!
# Passes that look around in two worlds

Two worlds that agree on a site give the same answers about it, so a pass that only looks
around finds the same in both and leaves them agreeing. Delays are drawn anew in each world;
outcomes are compared without them.
-/

namespace ReleaseOperator

open InMemory Program

/-- The same answer, with outcomes that differ in a delay drawn at most. -/
def LikeAnswer {α : Type} (a a' : α × Outcome) : Prop := a.1 = a'.1 ∧ a.2.bare = a'.2.bare

/-- The same result, or outcomes in its place that differ in a delay drawn at most. -/
inductive LikeResult {α : Type} : Except Outcome α → Except Outcome α → Prop
  | ok (a : α) : LikeResult (.ok a) (.ok a)
  | error {o o' : Outcome} (h : o.bare = o'.bare) : LikeResult (.error o) (.error o')

/-- Outcomes that differ in a delay drawn at most. -/
def Outcome.Like (o o' : Outcome) : Prop := o.bare = o'.bare

namespace Pass

variable {H α α' β β' : Type} {rules : Rules H} {I : Commons H → Commons H → Prop}
  {rel : α → α' → Prop} {rel' : β → β' → Prop}

/-- From worlds that are related, two passes end with related results in worlds that still
are. -/
def Twin (rules : Rules H) (I : Commons H → Commons H → Prop) (p : Pass α) (p' : Pass α')
    (rel : α → α' → Prop) : Prop :=
  ∀ s t, I s t → Paired rules.conduct p s p' t fun a u a' u' => rel a a' ∧ I u u'

theorem twin_pure {a : α} {a' : α'} (h : rel a a') : Twin rules I (pure a) (pure a') rel :=
  fun _ _ hI => ⟨h, hI⟩

theorem Twin.bind {p : Pass α} {p' : Pass α'} {f : α → Pass β} {f' : α' → Pass β'}
    (h : Twin rules I p p' rel) (hf : ∀ a a', rel a a' → Twin rules I (f a) (f' a') rel') :
    Twin rules I (p >>= f) (p' >>= f') rel' := by
  intro s t hI
  refine paired_bind ((h s t hI).mono ?_)
  intro a u a' u' ⟨ha, hI'⟩
  exact hf a a' ha u u' hI'

/-! ### Single questions -/

theorem twin_cluster (c : ClusterCall) : Twin rules I (cluster c) (cluster c) Eq := by
  rintro s t hI _ _ ⟨rfl, rfl⟩ _ _ ⟨rfl, rfl⟩
  exact ⟨rfl, hI⟩

theorem twin_hook (moment : HookMoment) (action : Action) (release release' : Release) :
    Twin rules I (Pass.hook moment action release) (Pass.hook moment action release') Eq := by
  rintro s t hI _ _ ⟨rfl, rfl⟩ _ _ ⟨rfl, rfl⟩
  exact ⟨rfl, hI⟩

theorem twin_now : Twin rules I now now fun _ _ => True := by
  intro s t hI time u hu time' u' hu'
  rw [show u = s from hu, show u' = t from hu']
  exact ⟨trivial, hI⟩

theorem twin_count (c : Counter) : Twin rules I (count c) (count c) Eq := by
  intro s t hI a u hu a' u' hu'
  rw [show u = s from hu, show u' = t from hu']
  exact ⟨rfl, hI⟩

theorem twin_drawDelay (min max : Nat) (unit : Duration) :
    Twin rules I (drawDelay min max unit) (drawDelay min max unit) fun _ _ => True := by
  intro s t hI d u hu d' u' hu'
  rw [show u = s from hu, show u' = t from hu']
  exact ⟨trivial, hI⟩

theorem twin_shortDelay : Twin rules I shortDelay shortDelay Outcome.Like := by
  rw [shortDelay, delay, ← bind_pure_comp]
  exact (twin_drawDelay 1 2 _).bind fun d d' _ => twin_pure (Outcome.bare_after d d')

theorem twin_shortDelayWith (f : Failure) :
    Twin rules I (shortDelayWith f) (shortDelayWith f) Outcome.Like :=
  (twin_drawDelay 1 2 _).bind fun d d' _ => twin_pure (Outcome.bare_failed d d' f)

theorem twin_refused (e : ClusterError) : Twin rules I (refused e) (refused e) Outcome.Like := by
  unfold refused
  split
  · exact twin_shortDelay
  · exact twin_shortDelayWith (.cluster e)

theorem twin_unanswered (f : Failure) :
    Twin rules I (unanswered f) (unanswered f) LikeAnswer :=
  (twin_shortDelayWith f).bind fun _ _ h => twin_pure ⟨rfl, h⟩

/-- Values and credentials are looked up alike. -/
theorem twin_of_asks_lookup {p : Pass α} (hp : Asks (fun c : Call => c.isLookup = true) p) :
    Twin rules I p p Eq := by
  induction p with
  | done a => exact twin_pure rfl
  | ask q next ih =>
      cases q with
      | cluster c =>
          change Twin rules I (cluster c >>= next) (cluster c >>= next) Eq
          refine (twin_cluster c).bind ?_
          rintro a _ rfl
          exact ih a (hp.2 a)
      | _ => exact absurd hp.1 Bool.false_ne_true

/-! ### Helm at a site -/

variable {x : Site} {s₀ t₀ : Commons H} {r r' : Resource}

theorem twin_helm {c : HelmCall} (hc : x.place? = some c.place) :
    Twin rules (x.Hand s₀ t₀ r r') (helm c) (helm c) Eq := by
  rintro s t hI _ _ ⟨rfl, rfl⟩ _ _ ⟨rfl, rfl⟩
  rw [hI.release c.place hc]
  exact ⟨rfl, hI.setRelease hc _⟩

variable {release : Release} (hplace : x.place? = some release.place)

theorem twin_workloadsReady (workloads : List Workload) :
    Twin rules I (workloadsReady workloads) (workloadsReady workloads) LikeAnswer := by
  induction workloads with
  | nil => exact twin_pure ⟨rfl, rfl⟩
  | cons w rest ih =>
      refine (twin_cluster (.workloadReady w)).bind ?_
      rintro (e | _ | _) _ rfl
      · exact twin_unanswered (.cluster e)
      · exact twin_pure ⟨rfl, rfl⟩
      · exact ih

include hplace

theorem twin_manifestReady :
    Twin rules (x.Hand s₀ t₀ r r') (manifestReady release) (manifestReady release) LikeAnswer := by
  refine (twin_helm (c := .manifest release.name release.namespaceName) hplace).bind ?_
  rintro (e | manifest) _ rfl
  · exact twin_unanswered (.helm e)
  · dsimp only
    split
    · exact twin_unanswered _
    · exact twin_workloadsReady _

theorem twin_releaseReady (desired : String) :
    Twin rules (x.Hand s₀ t₀ r r') (releaseReady release desired) (releaseReady release desired)
      LikeAnswer := by
  refine (twin_helm (c := .releaseInfo release.name release.namespaceName) hplace).bind ?_
  rintro (e | _ | info) _ rfl
  · exact twin_unanswered (.helm e)
  · exact twin_pure ⟨rfl, rfl⟩
  · dsimp only
    split
    · exact twin_manifestReady hplace
    · exact twin_pure ⟨rfl, rfl⟩

theorem twin_reported (part : ReleaseInfo → α) :
    Twin rules (x.Hand s₀ t₀ r r') (reported release part) (reported release part) Eq := by
  refine (twin_helm (c := .releaseInfo release.name release.namespaceName) hplace).bind ?_
  rintro a _ rfl
  exact twin_pure rfl

theorem twin_actualState :
    Twin rules (x.Hand s₀ t₀ r r') (actualState release) (actualState release) LikeAnswer := by
  refine (twin_reported hplace ReleaseInfo.status).bind ?_
  rintro a _ rfl
  split
  · exact twin_pure ⟨rfl, rfl⟩
  · exact twin_pure ⟨rfl, rfl⟩
  · exact (twin_shortDelayWith _).bind fun _ _ h => twin_pure ⟨rfl, h⟩

theorem twin_upgradeNeeded (desired : String) :
    Twin rules (x.Hand s₀ t₀ r r') (upgradeNeeded desired release) (upgradeNeeded desired release)
      LikeAnswer := by
  refine (twin_reported hplace ReleaseInfo.chartVersion).bind ?_
  rintro a _ rfl
  split
  · exact twin_pure ⟨rfl, rfl⟩
  · exact (twin_shortDelayWith _).bind fun _ _ h => twin_pure ⟨rfl, h⟩
  · split
    · exact twin_pure ⟨rfl, rfl⟩
    · exact (twin_shortDelayWith _).bind fun _ _ h => twin_pure ⟨rfl, h⟩

end Pass

namespace Job

open Pass

variable {H : Type} {rules : Rules H} {x : Site} {s₀ t₀ : Commons H} {r r' : Resource} {j j' : Job}
  (hlike : j.bare = j'.bare) (hplace : x.place? = some j.release.place)

include hlike hplace

theorem twin_isReady (setup : Setup) :
    Twin rules (x.Hand s₀ t₀ r r') (j.isReady setup) (j'.isReady setup) LikeAnswer := by
  have hrelease : j.release = j'.release := Job.eq_of_bare (fun _ => rfl) hlike
  have hversion : j.resource.desiredVersion = j'.resource.desiredVersion :=
    Job.eq_of_bare (f := fun j => j.resource.desiredVersion) (fun _ => rfl) hlike
  unfold Job.isReady
  split
  · exact twin_pure ⟨rfl, rfl⟩
  · rw [← hrelease, ← hversion]
    exact twin_releaseReady hplace _

theorem twin_actionForActual :
    Twin rules (x.Hand s₀ t₀ r r') j.actionForActual j'.actionForActual LikeResult := by
  have hrelease : j.release = j'.release := Job.eq_of_bare (fun _ => rfl) hlike
  have hversion : j.resource.desiredVersion = j'.resource.desiredVersion :=
    Job.eq_of_bare (f := fun j => j.resource.desiredVersion) (fun _ => rfl) hlike
  unfold actionForActual
  rw [← hrelease, ← hversion]
  refine (twin_actualState hplace).bind ?_
  rintro ⟨state, o⟩ ⟨_, o'⟩ ⟨rfl, ho⟩
  dsimp only
  rw [← Outcome.requeue_eq_of_bare ho]
  split
  · exact twin_pure (.error ho)
  · split
    · exact twin_pure (.ok _)
    · refine (twin_upgradeNeeded hplace _).bind ?_
      rintro ⟨needed, o⟩ ⟨_, o'⟩ ⟨rfl, ho⟩
      dsimp only
      rw [← Outcome.requeue_eq_of_bare ho]
      split
      · exact twin_pure (.error ho)
      · exact twin_pure (.ok _)
    · exact twin_pure (.error rfl)

theorem twin_chooseAction :
    Twin rules (x.Hand s₀ t₀ r r') j.chooseAction j'.chooseAction LikeResult := by
  have hwish : j.resource.wish = j'.resource.wish :=
    Job.eq_of_bare (f := fun j => j.resource.wish) (fun _ => rfl) hlike
  have hselect : j.resource.selectAction = j'.resource.selectAction :=
    Job.eq_of_bare (f := fun j => j.resource.selectAction) (fun j => j.resource.selectAction_bare)
      hlike
  have hversion : j.resource.desiredVersion = j'.resource.desiredVersion :=
    Job.eq_of_bare (f := fun j => j.resource.desiredVersion) (fun _ => rfl) hlike
  unfold chooseAction
  rw [← hwish, ← hselect, ← hversion]
  split
  · exact twin_pure (.ok _)
  · split
    · exact twin_pure (.ok _)
    · exact (twin_shortDelayWith _).bind fun _ _ h => twin_pure (.error h)
  · exact twin_actionForActual hlike hplace

theorem twin_appliedDigest (setup : Setup) (desired : String) :
    Twin rules (x.Hand s₀ t₀ r r') (j.appliedDigest setup desired) (j'.appliedDigest setup desired)
      LikeResult := by
  have hrelease : j.release = j'.release := Job.eq_of_bare (fun _ => rfl) hlike
  have hdigest : j.entry.digest = j'.entry.digest :=
    Job.eq_of_bare (f := fun j => j.entry.digest) (fun _ => rfl) hlike
  unfold appliedDigest
  rw [← hrelease, ← hdigest]
  split
  · exact twin_pure (.ok _)
  · split
    · exact twin_pure (.ok _)
    · refine (twin_helm (c := .values j.release.name j.release.namespaceName) hplace).bind ?_
      rintro a _ rfl
      split
      · exact twin_pure (.ok _)
      · exact twin_pure (.ok _)
      · exact (twin_shortDelayWith _).bind fun _ _ h => twin_pure (.error h)

end Job

end ReleaseOperator
