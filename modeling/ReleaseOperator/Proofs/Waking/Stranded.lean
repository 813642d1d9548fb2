import ReleaseOperator.Proofs.Edits.Script
import ReleaseOperator.Proofs.Waking.Settling

/-!
# No work is stranded

Nothing but the operator itself takes up work that is not finished. So a pass that leaves
something undone, be it a stage, a finalizer or a call that failed, has to end with the wish to
come back, and soon. There is one exception, and it is meant: an action that is to bring a
release about waits for a change while Helm reports the release in a status in which there is
nothing to choose.
-/

namespace ReleaseOperator

open InMemory Program Work

/-- What is finally done with an event about a resource: an error is turned into a directive
by the error policy. -/
def handle (setup : Setup) (r : Resource) : Reconcile Directive := do
  match ← onEvent setup r with
  | .ok d => return d
  | .error e => StateT.lift (onError e)

/-- The directive is to come back after one to two seconds. -/
def Directive.IsSoon : Directive → Prop
  | .requeue delay => delay.IsShort
  | .awaitChange => False

theorem Duration.IsShort.ne_zero {d : Duration} (h : d.IsShort) : d ≠ 0 := by
  rintro rfl
  exact absurd h.1 (by decide)

namespace Waking

variable {kind : Kind} {ns name : String} {setup : Setup} {s t : Contest} {m : Memory}
  {o : Outcome}

theorem directive_done : Outcome.done.directive = .ok .awaitChange := rfl

/-- An outcome that asks to come back soon is turned into a directive that says so, with or
without an error on the way. -/
theorem isSoon_directive (h : o.IsSoon) :
    (∃ d, o.directive = .ok d ∧ d.IsSoon) ∨
      ∃ e : PassError, o.directive = .error e ∧ e.directive.IsSoon := by
  unfold Outcome.directive
  split
  · refine Or.inr ⟨_, rfl, ?_⟩
    rw [PassError.directive, PassError.retryDelay?, PassError.delay?, Option.map_some,
      if_neg h.short.ne_zero]
    exact h.short
  · refine Or.inl ⟨_, rfl, ?_⟩
    rw [if_neg h.short.ne_zero]
    exact h.short

/-- The end of a pass as the caller sees it. -/
def Directed (setup : Setup) (kind : Kind) (ns name : String) (d : Directive) (m : Memory)
    (t : Contest) : Prop :=
  d.IsSoon ∨ d = .awaitChange ∧ Attended setup kind ns name m t

theorem Directed.counted {d : Directive} {counter : Counter} {u : Unit}
    (h : Concerned setup s → Directed setup kind ns name d m s)
    (hmay : (conduct kind ns name).may s (.count counter) u t) (hconcerned : Concerned setup t) :
    Directed setup kind ns name d m t := by
  rcases h (hconcerned.before hmay) with hsoon | ⟨hd, hattended⟩
  · exact Or.inl hsoon
  · exact Or.inr ⟨hd, hattended.counted hmay⟩

/-- Whatever a pass ends with, its caller and the error policy make of it a directive that comes
back soon, unless there is nothing to come back for. -/
theorem directed_of_settles {result : Except PassError Outcome}
    (h : Concerned setup s → ∃ o, result = .ok o ∧ Settles setup kind ns name o m s) :
    Always (conduct kind ns name) (direct result) s fun d t =>
      match d with
      | .ok d => Concerned setup t → Directed setup kind ns name d m t
      | .error e => Concerned setup t → e.directive.IsSoon := by
  cases result with
  | error e =>
      refine fun hconcerned => ?_
      obtain ⟨_, hno, _⟩ := h hconcerned
      exact absurd hno (by simp)
  | ok o =>
      have hdirected : Concerned setup s →
          (∃ d, o.directive = .ok d ∧ Directed setup kind ns name d m s) ∨
            ∃ e : PassError, o.directive = .error e ∧ e.directive.IsSoon := by
        intro hconcerned
        obtain ⟨_, heq, hsoon | ⟨rfl, hattended⟩⟩ := h hconcerned
        · obtain rfl := Except.ok.inj heq
          refine (isSoon_directive hsoon).imp_left ?_
          rintro ⟨d, hd, hdsoon⟩
          exact ⟨d, hd, Or.inl hdsoon⟩
        · obtain rfl := Except.ok.inj heq
          exact Or.inl ⟨_, directive_done, Or.inr ⟨rfl, hattended⟩⟩
      unfold direct
      dsimp only
      generalize o.directive = d at hdirected ⊢
      rcases d with e | _ | delay
      · intro hconcerned
        rcases hdirected hconcerned with ⟨_, hno, _⟩ | ⟨e', he, hsoon⟩
        · exact absurd hno (by simp)
        · exact Except.error.inj he ▸ hsoon
      · intro hconcerned
        rcases hdirected hconcerned with ⟨d, hd, hpost⟩ | ⟨_, hno, _⟩
        · exact Except.ok.inj hd ▸ hpost
        · exact absurd hno (by simp)
      · dsimp only
        rw [always_bind, Pass.always_count]
        intro u t hmay
        refine Directed.counted (fun hconcerned => ?_) hmay
        rcases hdirected hconcerned with ⟨d, hd, hpost⟩ | ⟨_, hno, _⟩
        · exact Except.ok.inj hd ▸ hpost
        · exact absurd hno (by simp)

/-- The error policy gives the directive of the error. -/
theorem soon_onError {e : PassError} (h : Concerned setup s → e.directive.IsSoon) :
    Always (conduct kind ns name) (onError e) s fun d t => Concerned setup t → d.IsSoon := by
  rw [onError, always_bind, Pass.always_count]
  intro _ s₁ hmay
  have h₁ : Concerned setup s₁ → e.directive.IsSoon := fun hconcerned => h (hconcerned.before hmay)
  split
  · rw [always_bind, Pass.always_count]
    exact fun _ s₂ hmay₂ hconcerned => h₁ (hconcerned.before hmay₂)
  · exact h₁

/-- An event about a resource: what is finally done comes back soon, unless there is nothing to
come back for. -/
theorem directed_handle (hkeyed : s.store.Keyed kind) (hstory : s.story = []) {event : Resource}
    (hkind : event.kind = kind) (hkey : Store.keyOf event = (ns, name))
    (hclass : event.className = setup.className) :
    AlwaysFrom (conduct kind ns name) (handle setup event) m s fun d m' t =>
      Concerned setup t → Directed setup kind ns name d m' t := by
  injection hkey with hns hname
  have hevent : AlwaysFrom (conduct kind ns name) (onEvent setup event) m s fun d m' t =>
      match d with
      | .ok d => Concerned setup t → Directed setup kind ns name d m' t
      | .error e => Concerned setup t → e.directive.IsSoon := by
    rw [onEvent, if_neg (not_not_intro hclass), hkind, hns, hname, alwaysFrom_bind, alwaysFrom_lift,
      Pass.always_count]
    intro _ s₁ hmay
    obtain ⟨hstep, hs₁⟩ := considerate_of_may (fun _ _ => id) hmay
    have hcalm : Calm s₁ := by
      refine Calm.next ?_ hmay fun halarm => halarm.1
      rw [Calm, hstory]
      exact fun _ he => absurd he List.not_mem_nil
    have hfirst : s₁.story = [.asked (.count .reconciliation) ()] := by
      rw [hs₁, hstory]
    rw [alwaysFrom_bind]
    refine (settles_reconcile (hstep.1 hkeyed) hcalm ?_ ?_).mono ?_
    · intro q a hmem
      rw [hfirst, List.mem_singleton] at hmem
      injection hmem with hc _
      exact absurd hc (by simp)
    · rw [hfirst]
      rfl
    · intro result m₂ s₂ hsettles
      rw [alwaysFrom_bind, alwaysFrom_lift, Pass.always_count]
      intro _ s₃ hmay₃
      rw [alwaysFrom_lift]
      refine directed_of_settles fun hconcerned => ?_
      obtain ⟨o, ho, hpost⟩ := hsettles (hconcerned.before hmay₃)
      exact ⟨o, ho, hpost.imp_right fun hrest => ⟨hrest.1, hrest.2.counted hmay₃⟩⟩
  rw [handle, alwaysFrom_bind]
  refine hevent.mono ?_
  intro d m₁ s₁ hd
  cases d with
  | ok d => exact hd
  | error e =>
      rw [alwaysFrom_lift]
      exact (soon_onError hd).mono fun _ _ hsoon hconcerned => Or.inl (hsoon hconcerned)

/-- What a pass must not leave behind without coming back. -/
inductive LooseEnd (ns name : String) (t : Contest) : Prop
  /-- The finalizer was put on, or it was tried. -/
  | marked {r w : Resource} {a : Except ClusterError Resource} (fetched : t.story.fetched? = some r)
      (bare : r.hasFinalizer = false) (finalizer : w.hasFinalizer = true)
      (written : .asked (.store (.update w)) a ∈ t.story) : LooseEnd ns name t
  /-- A resource that is being deleted still has its finalizer. -/
  | held {o : Resource} (stored : t.store.get? ns name = some o) (deleting : o.isDeleting = true)
      (finalizer : o.hasFinalizer = true) : LooseEnd ns name t
  /-- A call has failed, other than by the absence of a release. -/
  | failed {c : Call} {a : c.Answer} (asked : .asked c a ∈ t.story) (fails : c.Fails a)
      (present : ¬ c.ReportsAbsent a) : LooseEnd ns name t

/-- Whatever a pass leaves undone brings the operator back after one to two seconds, be it by
the outcome itself or by the error policy. The work that is tracked for the resource may also be
left in the middle, waiting for a change, when the resource is an action that is to bring its
release about, no action was chosen for it, and Helm has reported the release in a status other
than deployed. -/
theorem no_work_stranded {setup : Setup} {kind : Kind} {ns name : String} {event : Resource}
    {m : Memory} {store : Store} {result : Directive × Memory} {t : Contest}
    (hkeyed : store.Keyed kind) (hkind : event.kind = kind) (hkey : Store.keyOf event = (ns, name))
    (hclass : event.className = setup.className)
    (hrun : Runs (conduct kind ns name) ((handle setup event).run m) ⟨store, []⟩ result t)
    (hconcerned : Concerned setup t) :
    (LooseEnd ns name t → ∃ delay, result.1 = .requeue delay ∧ delay.IsShort) ∧
      ∀ r e, t.story.fetched? = some r →
        (result.2.driving r).get? (.ofResource r) r.generation = some e → e.stage ≠ .finish →
          (∃ delay, result.1 = .requeue delay ∧ delay.IsShort) ∨
            result.1 = .awaitChange ∧ Waits setup r e t.story := by
  have hdirected : Directed setup kind ns name result.1 result.2 t :=
    always_iff_runs.1 (directed_handle hkeyed rfl hkind hkey hclass) _ _ hrun hconcerned
  rcases hdirected with hsoon | ⟨hd, hattended⟩
  · have hback : ∃ delay, result.1 = .requeue delay ∧ delay.IsShort := by
      revert hsoon
      cases result.1 with
      | requeue delay => exact fun hsoon => ⟨delay, rfl, hsoon⟩
      | awaitChange => exact fun hsoon => absurd hsoon id
    exact ⟨fun _ => hback, fun _ _ _ _ _ => Or.inl hback⟩
  · refine ⟨fun hloose => ?_, fun r e hfetched hentry hstage => Or.inr ⟨hd, ?_⟩⟩
    · cases hloose with
      | marked fetched bare _ written =>
          exact absurd written (hattended.unwritten _ fetched bare _ _)
      | held stored deleting finalizer =>
          exact absurd finalizer (Bool.eq_false_iff.1 (hattended.released _ stored deleting))
      | failed asked fails present => exact absurd ⟨fails, present⟩ (hattended.calm _ asked)
    · exact (hattended.finished r e hfetched hentry).resolve_left hstage

/-! ### A release that is not there yet -/

/-- All goes well, with Helm reporting a given release, and nobody else does anything. -/
def undisturbed (kind : Kind) (info : Option ReleaseInfo) (c : Call) : StateM Contest c.Answer :=
  fun s =>
    let (a, store) := Contest.wellAnswered kind info s.store c
    (a, ⟨store, .asked c a :: s.story⟩)

theorem may_undisturbed (kind : Kind) (ns name : String) (info : Option ReleaseInfo)
    (s : Contest) (c : Call) :
    (conduct kind ns name).may s c (undisturbed kind info c s).1 (undisturbed kind info c s).2 := by
  refine ⟨?_, _, _, .inl (Contest.answered_wellAnswered kind info s.store c),
    considerate_refl _ _ _ _, rfl⟩
  cases c <;> first | exact trivial | exact rfl

/-- The release `web`, whose installation is still going on. -/
def pendingRelease : ReleaseInfo := ⟨"web", "default", .pendingInstall, "0.1.0"⟩

/-- What becomes of an event about the module `web` meanwhile, computed. -/
def pendingPass : (Directive × Memory) × Contest :=
  ((handle trialSetup trialModule).run .empty).run (undisturbed .module (some pendingRelease))
    ⟨trialStore trialModule, []⟩

/-- The module waits for its release at the stage for it, and comes back. -/
theorem no_work_stranded_pending :
    ∃ r e, pendingPass.2.story.fetched? = some r ∧
      (pendingPass.1.2.driving r).get? (.ofResource r) r.generation = some e ∧
      e.stage = .awaitWork ∧
      ((∃ delay, pendingPass.1.1 = .requeue delay ∧ delay.IsShort) ∨
        pendingPass.1.1 = .awaitChange ∧ Waits trialSetup r e pendingPass.2.story) := by
  have hend : (pendingPass.2.story.fetched?.bind fun r =>
      ((pendingPass.1.2.driving r).get? (.ofResource r) r.generation).map fun e =>
        (r.className, r.isTerminal, e.stage)) = some ("helm", false, .awaitWork) := by
    decide +kernel
  obtain ⟨r, hfetched, he⟩ := Option.bind_eq_some_iff.1 hend
  obtain ⟨e, hentry, heq⟩ := Option.map_eq_some_iff.1 he
  simp only [Prod.mk.injEq] at heq
  obtain ⟨hclass, hterminal, hstage⟩ := heq
  have hconcerned : Concerned trialSetup pendingPass.2 := by
    intro r' hr'
    obtain rfl := Option.some.inj (hfetched.symm.trans hr')
    exact ⟨hclass, Or.inr hterminal⟩
  have hrun : Runs (conduct .module "default" "web") ((handle trialSetup trialModule).run .empty)
      ⟨trialStore trialModule, []⟩ pendingPass.1 pendingPass.2 :=
    runs_run (may_undisturbed .module "default" "web" (some pendingRelease)) _ _
  have hkey : Store.keyOf trialModule = ("default", "web") := rfl
  have hclass' : trialModule.className = trialSetup.className := rfl
  have hall := no_work_stranded (keyed_trialStore rfl hkey) rfl hkey hclass' hrun hconcerned
  exact ⟨r, e, hfetched, hentry, hstage, hall.2 r e hfetched hentry (by rw [hstage]; decide)⟩

/-- An action that is to bring the release `web` about. -/
def trialAction : Resource :=
  { metadata := { trialModule.metadata with finalizers := some [Kind.action.finalizer] }
    spec := .action ⟨"helm", .reconcile, "0.1.0",
      ⟨"web", "default", ⟨"web", "0.1.0", "/charts/web"⟩, .none, []⟩⟩
    status := none }

-- While Helm reports the release as pending nothing is chosen for the action, which waits.
example :
    (((handle trialSetup trialAction).run .empty).run (undisturbed .action (some pendingRelease))
      ⟨trialStore trialAction, []⟩).1.1 = .awaitChange := by
  decide +kernel

end Waking

end ReleaseOperator
