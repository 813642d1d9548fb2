import ReleaseOperator.Proofs.Generations
import ReleaseOperator.Proofs.Resumption.Runs
import ReleaseOperator.Proofs.Selections
import ReleaseOperator.Proofs.Waking.Stranded

/-!
# When a restart is safe for an action

What a restart forgets has to be found again in the store and with Helm. For an action that is
to bring its release about this works whenever Helm reports the release as absent or deployed.
It does not where an application has failed: the operator that made it knows that it has to be
repeated, but the one that comes after finds a failed release, over which nothing is chosen,
and the action waits for a change that nobody makes.
-/

namespace ReleaseOperator

open InMemory Program

/-!
## Whether an action comes to its end after a restart

After a restart the operator remembers nothing of an action but what the store and Helm have
to say. When nothing fails from then on, the next pass over an action with its finalizer
chooses work by what has become of the release, and either comes to the completion at once or
has nothing to choose. In the latter case no pass ever has: a release that Helm reports
neither as absent nor as deployed stays as it is, and so does an installed version that cannot
be read.
-/

namespace Estate

variable {g : Ground} {setup : Setup} {ns name : String} {o r : Resource} {own : List Json}
  {j : Job} {m m' : Memory} {s s' : Estate} {v : Version}

/-- The action has come to its end. -/
def IsCompleted (ns name : String) (s : Estate) : Prop :=
  ∃ r, s.store.get? ns name = some r ∧ r.phase = some .completed

/-- Passes on which nothing fails, each but the first at the request of the one before, bring
an action to its end, after a number of passes at the latest. -/
def Completes (g : Ground) (setup : Setup) (ns name : String) : Nat → Memory → Estate → Prop
  | 0, _, _ => False
  | n + 1, m, s =>
    AlwaysFrom (conduct g False) (reconcile setup .action ns name) m s fun result m' s' =>
      IsCompleted ns name s' ∨
        (∃ out, result = .ok out ∧ out.requeue = true) ∧ Completes g setup ns name n m' s'

/-- Work can be chosen over what has become of a release: there is none, or it is deployed at
a version that can be read. -/
inductive Choosable : Option StoredRelease → Prop
  | vacant : Choosable none
  | deployed {stored : StoredRelease} {v : Version} (hstatus : stored.info.status = .deployed)
      (hversion : Version.parse stored.info.chartVersion = .ok v) : Choosable (some stored)

/-- What a pass finds when nothing has been begun since the last restart. -/
structure Restarted (ns name : String) (o r : Resource) (m : Memory) (s : Estate) : Prop where
  keyed : s.store.Keyed .action
  stored : s.store.get? ns name = some r
  same : o.SameRequest r
  unbegun : ∀ gen e, m.lifecycle.get? (.ofResource r) gen = some e → e = .fresh gen .start

/-! ### Choosing -/

/-- What Helm reports about a release when nothing fails. -/
theorem always_reported (release : Release) {α : Type} (part : ReleaseInfo → α) :
    Always (conduct g False) (Pass.reported release part) s fun v s' => s' = s ∧
      v = Report.part release.name release.namespaceName part
        (.ok ((s.releases.get? (release.namespaceName, release.name)).map StoredRelease.info)) := by
  rw [Pass.reported, always_bind, Pass.always_helm]
  rintro answer s' ⟨rfl, hanswer⟩
  rw [hanswer.eq]
  exact ⟨rfl, rfl⟩

theorem always_actualState (release : Release) :
    Always (conduct g False) (Pass.actualState release) s fun r s' => s' = s ∧
      r = (.ofStatus ((s.releases.get? (release.namespaceName, release.name)).map
        fun stored => stored.info.status), .done) := by
  rw [Pass.actualState, always_bind]
  refine (always_reported release ReleaseInfo.status).mono ?_
  rintro w s' ⟨rfl, rfl⟩
  cases s'.releases.get? (release.namespaceName, release.name) with
  | none => exact ⟨rfl, rfl⟩
  | some stored => exact ⟨rfl, rfl⟩

theorem ofStatus_some {status : ReleaseStatus} (h : status ≠ .deployed) :
    ActualState.ofStatus (some status) ≠ .notInstalled ∧
      ActualState.ofStatus (some status) ≠ .ready := by
  cases status <;> first | exact absurd rfl h | decide

theorem always_chooseAction_of_vacant (hwish : j.resource.wish = .reconcile)
    (hvacant : s.releases.get? (j.release.namespaceName, j.release.name) = none) :
    Always (conduct g False) j.chooseAction s fun choice s' =>
      s' = s ∧ choice = .ok .install := by
  rw [Job.chooseAction, hwish]
  dsimp only
  rw [Job.actionForActual, always_bind]
  refine (always_actualState j.release).mono ?_
  rintro _ s₁ ⟨rfl, rfl⟩
  rw [hvacant]
  exact ⟨rfl, rfl⟩

/-- Nothing is chosen over a release that Helm reports neither as absent nor as deployed. -/
theorem always_chooseAction_of_other {stored : StoredRelease}
    (hwish : j.resource.wish = .reconcile)
    (hstored : s.releases.get? (j.release.namespaceName, j.release.name) = some stored)
    (hother : stored.info.status ≠ .deployed) :
    Always (conduct g False) j.chooseAction s fun choice s' =>
      s' = s ∧ choice = .error .done := by
  rw [Job.chooseAction, hwish]
  dsimp only
  rw [Job.actionForActual, always_bind]
  refine (always_actualState j.release).mono ?_
  rintro _ s₁ ⟨rfl, rfl⟩
  obtain ⟨habsent, hready⟩ := ofStatus_some hother
  rw [hstored, Option.map_some]
  dsimp only
  rw [if_neg (by decide)]
  split
  · rename_i heq
    exact absurd heq habsent
  · rename_i heq
    exact absurd heq hready
  · exact ⟨rfl, rfl⟩

/-- Over a release that is there something is chosen if and only if it is deployed at a version
that can be read. -/
theorem always_chooseAction (hwish : j.resource.wish = .reconcile)
    (hversion : Version.parse j.resource.desiredVersion = .ok v) :
    Always (conduct g False) j.chooseAction s fun choice s' => s' = s ∧
      match choice with
      | .ok a => Choosable (s.releases.get? (j.release.namespaceName, j.release.name)) ∧
          a ≠ .delete ∧ (a = .install →
            s.releases.get? (j.release.namespaceName, j.release.name) = none)
      | .error _ => ¬Choosable (s.releases.get? (j.release.namespaceName, j.release.name)) := by
  cases hstored : s.releases.get? (j.release.namespaceName, j.release.name) with
  | none =>
      refine (always_chooseAction_of_vacant hwish hstored).mono ?_
      rintro _ s' ⟨rfl, rfl⟩
      exact ⟨rfl, .vacant, by decide, fun _ => rfl⟩
  | some stored =>
      by_cases hstatus : stored.info.status = .deployed
      · have hdeployed := (Selections.always_chooseAction_of_deployed (b := conduct g False) hwish
          (Selections.reports_deployed j.release hstatus) hstored).and
            (always_quiet (Pass.quiet_chooseAction j))
        refine hdeployed.mono ?_
        rintro choice s' ⟨hchoice, rfl⟩
        refine ⟨rfl, ?_⟩
        cases hinstalled : Version.parse stored.info.chartVersion with
        | ok w =>
            rw [Version.compareTexts_eq_ok.2 ⟨w, v, hinstalled, hversion, rfl⟩] at hchoice
            obtain rfl := hchoice
            refine ⟨.deployed hstatus hinstalled, ?_, ?_⟩
            · split <;> decide
            · split
              · exact fun h => absurd h (by decide)
              · exact fun h => absurd h (by decide)
        | error e =>
            have hcompare : Version.compareTexts stored.info.chartVersion
                j.resource.desiredVersion = .error e := by
              rw [Version.compareTexts, hinstalled]
              rfl
            rw [hcompare] at hchoice
            obtain ⟨d, rfl⟩ := hchoice
            rintro (_ | ⟨_, hparse⟩)
            rw [hinstalled] at hparse
            cases hparse
      · refine (always_chooseAction_of_other hwish hstored hstatus).mono ?_
        rintro _ s' ⟨rfl, rfl⟩
        refine ⟨rfl, ?_⟩
        rintro (_ | ⟨hdeployed, _⟩)
        exact hstatus hdeployed

/-! ### One pass -/

theorem Restarted.key (h : Restarted ns name o r m s) : Store.keyOf r = (ns, name) :=
  (h.keyed ns name r h.stored).2

theorem Restarted.kind (h : Restarted ns name o r m s) : r.kind = .action :=
  (h.keyed ns name r h.stored).1

/-- After a restart nothing has been begun. -/
theorem restarted_empty (hkeyed : s.store.Keyed .action) (hstored : s.store.get? ns name = some r)
    (hsame : o.SameRequest r) : Restarted ns name o r .empty s :=
  ⟨hkeyed, hstored, hsame, fun _ _ hget => by cases hget⟩

/-- The way of a pass: over an action that is done with there is none, an action without its
finalizer gets it, and any other is worked on. -/
theorem Restarted.always_reconcile {post : Except PassError Outcome → Memory → Estate → Prop}
    (h : Restarted ns name o r m s) (hclass : o.className = setup.className)
    (hstays : o.isDeleting = false)
    (hterminal : r.isTerminal = true → post (.ok .done) m s)
    (hold : r.isTerminal = false → r.hasFinalizer = false → ∀ out r' s', out.requeue = true →
      r'.status = r.status → r'.hasFinalizer = true → s'.releases = s.releases →
        Restarted ns name o r' m s' → post (.ok out) m s')
    (hlive : r.isTerminal = false → r.hasFinalizer = true →
      AlwaysFrom (conduct g False) (Reconcile.live setup r) m s fun out => post (.ok out)) :
    AlwaysFrom (conduct g False) (reconcile setup .action ns name) m s post := by
  rw [ReleaseOperator.always_reconcile]
  rintro answer s₁ ⟨hreleases, hstore, hanswer⟩
  obtain rfl : s₁ = s := Estate.ext hstore hreleases
  have hstaysNow : r.isDeleting = false := h.same.isDeleting.trans hstays
  rw [h.stored] at hanswer
  rcases hanswer with rfl | ⟨hfalse, _⟩
  · dsimp only
    rw [if_neg fun hne => hne (h.same.className.trans hclass), Reconcile.always_found, hstaysNow,
      if_neg Bool.false_ne_true]
    split
    · rename_i hdone
      exact hterminal hdone
    · rename_i hgoesOn
      have hgoesOn := Bool.eq_false_iff.2 hgoesOn
      rw [Pass.always_ensureFinalizer]
      split
      · rename_i hheld
        exact hlive hgoesOn hheld
      · rename_i hno
        have hrev : r.addFinalizer.metadata.resourceVersion = r.metadata.resourceVersion := by
          unfold Resource.addFinalizer
          split
          · rfl
          · rfl
        refine (always_persistResource h.keyed h.stored hstaysNow
          (r.kind_addFinalizer.trans h.kind) (r.key_addFinalizer.trans h.key) hrev).mono ?_
        rintro ⟨out, r'⟩ s' (⟨_, hfalse, _⟩ | ⟨rfl, hwritten, hkeyed, hstored, hreleases'⟩)
        · exact hfalse.elim
        · refine always_delay.mono ?_
          rintro out s'' ⟨hout, rfl⟩
          obtain ⟨halike, hheld⟩ := hwritten.alike
          have hid : ObjectId.ofResource r' = .ofResource r := by
            refine objectId_eq halike.kind ?_ ?_
            · rw [Store.keyOf, Store.keyOf, halike.namespaceName, halike.name]
            · obtain ⟨_, _, _, rfl⟩ := hwritten
              rfl
          refine hold hgoesOn (Bool.eq_false_iff.2 hno) out r' s'' hout halike.status hheld
            hreleases' ⟨hkeyed, hstored, h.same.addFinalizer.rewritten h.same hwritten, ?_⟩
          rw [hid]
          exact h.unbegun
  · exact hfalse.elim

/-- The work on an action from the start: when something can be chosen it is carried through,
and otherwise everything stays as it is. -/
theorem Restarted.live (h : Restarted ns name o r m s) (hwish : o.wish = .reconcile)
    (hversion : Version.parse o.desiredVersion = .ok v) (hown : Resolves g o own)
    (hcredited : Credited g setup o) (hgoesOn : r.isTerminal = false) :
    AlwaysFrom (conduct g False) (Reconcile.live setup r) m s fun out m' s' =>
      out = .done ∧ IsCompleted ns name s' ∧ Choosable (s.releases.get? (o.releaseKey setup)) ∨
        ¬Choosable (s.releases.get? (o.releaseKey setup)) ∧ s' = s ∧
          Restarted ns name o r m' s' := by
  have hentry : (m.lifecycle.ensure (.ofResource r) r.generation .start).1 =
      .fresh r.generation .start := by
    rw [Tracker.ensure_fst]
    cases hget : m.lifecycle.get? (.ofResource r) r.generation with
    | none => rfl
    | some e => exact h.unbegun _ e hget
  have hkey : ((Job.start setup r (.fresh r.generation .start)).release.namespaceName,
      (Job.start setup r (.fresh r.generation .start)).release.name) = o.releaseKey setup :=
    h.same.releaseKey setup
  have hparse : Version.parse r.desiredVersion = .ok v := by
    rw [h.same.desiredVersion]
    exact hversion
  have hchooses := always_chooseAction (g := g) (s := s)
    (j := .start setup r (.fresh r.generation .start)) (h.same.wish.trans hwish) hparse
  rw [Reconcile.always_live]
  dsimp only
  rw [hentry, Work.always_live, if_neg (by exact fun hstage => by cases hstage),
    Work.always_runPinned]
  refine hchooses.mono ?_
  rintro choice s₁ ⟨rfl, hchoice⟩
  rw [hkey] at hchoice
  cases choice with
  | error out =>
      right
      refine ⟨hchoice, rfl, h.keyed, h.stored, h.same, fun gen e hget => ?_⟩
      by_cases hgen : gen = r.generation
      · subst hgen
        exact Tracker.get?_record_self hget
      · rw [Tracker.get?_record_of_ne hgen] at hget
        exact h.unbegun gen e (Tracker.get?_of_get?_ensure hgen hget)
  | ok a =>
      obtain ⟨hchoosable, ha, hvacant⟩ := hchoice
      have halong : Along setup ns name o a .start
          { Job.start setup r (.fresh r.generation .start) with
            entry := (Entry.fresh r.generation .start).pin a } s₁ :=
        ⟨⟨h.keyed, h.stored, h.same, h.same.release setup.defaults⟩, fun _ => hgoesOn,
          fun _ => hvacant, fun hlt => absurd hlt (by decide), fun hst => by cases hst⟩
      dsimp only
      rw [Work.always_perform]
      refine (halong.run (h.same.kind ▸ h.kind) (Version.isEmpty_eq_false_of_parse hversion) hown
        hcredited ha).mono ?_
      rintro out j s' ⟨rfl, hend⟩
      exact Or.inl ⟨rfl, ⟨_, hend.inStep.stored, hend.completed rfl⟩, hchoosable⟩

/-! ### Passes after a restart -/

theorem isTerminal_of_completed (h : r.phase = some .completed) : r.isTerminal = true := by
  rw [Resource.isTerminal, h]
  rfl

/-- Where work can be chosen, two passes bring an action to its end: one may be needed for the
finalizer. -/
theorem Restarted.completes (h : Restarted ns name o r m s) (hclass : o.className = setup.className)
    (hstays : o.isDeleting = false) (hwish : o.wish = .reconcile)
    (hversion : Version.parse o.desiredVersion = .ok v) (hown : Resolves g o own)
    (hcredited : Credited g setup o) (hgoesOn : r.isTerminal = false)
    (hchoosable : Choosable (s.releases.get? (o.releaseKey setup))) :
    Completes g setup ns name 2 m s := by
  -- The pass that works on the action completes it, whether it is the first or the second.
  have hwork : ∀ {n r' s'}, Restarted ns name o r' m s' → r'.isTerminal = false →
      r'.hasFinalizer = true → s'.releases = s.releases →
        Completes g setup ns name (n + 1) m s' := by
    intro n r' s' h' hgoesOn' hheld hreleases
    refine h'.always_reconcile hclass hstays (fun hterminal => ?_) (fun _ hno => ?_)
      fun _ _ => ?_
    · rw [hgoesOn'] at hterminal
      cases hterminal
    · rw [hheld] at hno
      cases hno
    · refine (h'.live hwish hversion hown hcredited hgoesOn').mono ?_
      rintro out m' t (⟨_, hcompleted, _⟩ | ⟨hnone, _⟩)
      · exact Or.inl hcompleted
      · rw [hreleases] at hnone
        exact absurd hchoosable hnone
  cases hheld : r.hasFinalizer with
  | true => exact hwork h hgoesOn hheld rfl
  | false =>
      refine h.always_reconcile hclass hstays (fun hterminal => ?_) ?_ fun _ hyes => ?_
      · rw [hgoesOn] at hterminal
        cases hterminal
      · intro _ _ out r' s' hout hstatus hheld' hreleases h'
        refine Or.inr ⟨⟨out, rfl, hout⟩, hwork h' ?_ hheld' hreleases⟩
        rw [Resource.isTerminal, Resource.phase, Resource.statusD, hstatus]
        exact hgoesOn
      · rw [hheld] at hyes
        cases hyes

/-- Where nothing can be chosen, and where an action is said to need nothing, no number of
passes completes it. -/
theorem Restarted.not_completes (h : Restarted ns name o r m s)
    (hclass : o.className = setup.className) (hstays : o.isDeleting = false)
    (hwish : o.wish = .reconcile) (hversion : Version.parse o.desiredVersion = .ok v)
    (hown : Resolves g o own) (hcredited : Credited g setup o)
    (hopen : r.phase ≠ some .completed)
    (hstuck : r.isTerminal = true ∨ ¬Choosable (s.releases.get? (o.releaseKey setup))) (n : Nat) :
    ¬Completes g setup ns name n m s := by
  induction n generalizing r m s with
  | zero => exact id
  | succ n ih =>
      intro hcompletes
      have hstays' : AlwaysFrom (conduct g False) (reconcile setup .action ns name) m s
          fun _ m' s' => ∃ r', Restarted ns name o r' m' s' ∧ r'.status = r.status ∧
            s'.releases = s.releases := by
        refine h.always_reconcile hclass hstays (fun _ => ⟨r, h, rfl, rfl⟩) ?_ ?_
        · intro _ _ out r' s' _ hstatus _ hreleases h'
          exact ⟨r', h', hstatus, hreleases⟩
        · intro hgoesOn _
          refine (h.live hwish hversion hown hcredited hgoesOn).mono ?_
          rintro out m' s' (⟨_, _, hchoosable⟩ | ⟨_, rfl, h'⟩)
          · rcases hstuck with hterminal | hnone
            · rw [hgoesOn] at hterminal
              cases hterminal
            · exact absurd hchoosable hnone
          · exact ⟨r, h', rfl, rfl⟩
      obtain ⟨⟨result, m'⟩, s', _, hdone | ⟨_, hnext⟩, r', h', hstatus, hreleases⟩ :=
        (Always.and hcompletes hstays').exists
      · obtain ⟨r'', hstored, hphase⟩ := hdone
        obtain rfl : r' = r'' := Option.some.inj (h'.stored.symm.trans hstored)
        rw [Resource.phase, Resource.statusD, hstatus] at hphase
        exact hopen hphase
      · refine ih h' ?_ ?_ hnext
        · rw [Resource.phase, Resource.statusD, hstatus]
          exact hopen
        · rw [Resource.isTerminal, Resource.phase, Resource.statusD, hstatus, hreleases]
          exact hstuck

/-! ## After a restart -/

/-- Whatever an action that is to bring a release about has been through: when the operator is
started anew and nothing fails from then on, it comes to its end if and only if it has come
there already, or it is not said to need nothing and its release is absent or deployed at a
version that can be read. -/
theorem completes_after_restart_iff (hkeyed : s.store.Keyed .action)
    (hstored : s.store.get? ns name = some o) (hclass : o.className = setup.className)
    (hstays : o.isDeleting = false) (hwish : o.wish = .reconcile)
    (hversion : Version.parse o.desiredVersion = .ok v) (hown : Resolves g o own)
    (hcredited : Credited g setup o) (hweathered : Weathered setup ns name m s m' s') :
    ∃ r, s'.store.get? ns name = some r ∧ o.SameRequest r ∧
      ((∃ n, Completes g setup ns name n .empty s') ↔
        r.phase = some .completed ∨
          r.isTerminal = false ∧ Choosable (s'.releases.get? (o.releaseKey setup))) := by
  obtain ⟨hkeyed', r, hstored', hsame⟩ := hweathered.holds hstays
    (Version.isEmpty_eq_false_of_parse hversion) ⟨hkeyed, o, hstored, .refl o⟩
  have hrestarted := restarted_empty hkeyed' hstored' hsame
  refine ⟨r, hstored', hsame, ?_, ?_⟩
  · rintro ⟨n, hcompletes⟩
    by_contra hnot
    rw [not_or, not_and_or] at hnot
    refine hrestarted.not_completes hclass hstays hwish hversion hown hcredited hnot.1
      (hnot.2.imp_left fun hterminal => ?_) n hcompletes
    exact Bool.not_eq_false _ ▸ hterminal
  · rintro (hcompleted | ⟨hgoesOn, hchoosable⟩)
    · refine ⟨1, hrestarted.always_reconcile hclass hstays
        (fun _ => Or.inl ⟨r, hstored', hcompleted⟩) (fun hgoesOn => ?_) fun hgoesOn => ?_⟩
      · rw [isTerminal_of_completed hcompleted] at hgoesOn
        cases hgoesOn
      · rw [isTerminal_of_completed hcompleted] at hgoesOn
        cases hgoesOn
    · exact ⟨2, hrestarted.completes hclass hstays hwish hversion hown hcredited hgoesOn
        hchoosable⟩

/-! ### An application that fails -/

/-- Answers with which all goes well but for the application of releases, which fails and may
leave the release behind in a status. -/
def failing (g : Ground) (left : Option ReleaseStatus) : (c : Call) → StateM Estate c.Answer
  | .helm (.upgradeOrInstall request) => fun s =>
    (.error (.timedOut "upgrade" 0), ⟨s.store, match left with
      | none => s.releases
      | some status => s.releases.put (request.release.namespaceName, request.release.name)
          ⟨⟨request.release.name, request.release.namespaceName, status,
            request.release.chart.version⟩, request.documents⟩⟩)
  | c => answer g true c

theorem may_failing (g : Ground) (left : Option ReleaseStatus) (s : Estate) (c : Call) :
    storm.may s c (failing g left c s).1 (failing g left c s).2 := by
  have hanswer : ∀ c, storm.may s c (answer g true c s).1 (answer g true c s).2 := fun c =>
    stormy_of_answered (g := g) (answered_answer g (Or.inl rfl) s c)
  rcases c with c | c | (_ | _ | _ | _ | _ | _) | _ | _ | _ | _
  case helm.upgradeOrInstall => rfl
  all_goals exact hanswer _

/-- A pass over the action `web` on which the application fails. -/
def failedPass (left : Option ReleaseStatus) : (Except PassError Outcome × Memory) × Estate :=
  ((reconcile trialSetup .action "default" "web").run .empty).run (failing trialGround left)
    (trialEstate Waking.trialAction)

theorem weathered_failedPass (left : Option ReleaseStatus) :
    Weathered trialSetup "default" "web" .empty (trialEstate Waking.trialAction) .empty
      (failedPass left).2 := by
  have hruns : Runs storm ((reconcile trialSetup .action "default" "web").run .empty)
      (trialEstate Waking.trialAction) (failedPass left).1 (failedPass left).2 :=
    runs_run (may_failing trialGround left) _ _
  generalize failedPass left = passed at hruns ⊢
  exact .restart (.pass .start hruns)

theorem keyed_trialAction : (trialStore Waking.trialAction).Keyed .action :=
  keyed_trialStore_of_kind rfl rfl

theorem stored_trialAction :
    (trialStore Waking.trialAction).get? "default" "web" = some Waking.trialAction :=
  rfl

theorem parse_trialAction :
    Version.parse Waking.trialAction.desiredVersion = .ok ⟨0, 1, 0, [], []⟩ :=
  rfl

theorem resolves_trialAction : Resolves trialGround Waking.trialAction [] := fun _ => rfl

theorem credited_trialAction : Credited trialGround trialSetup Waking.trialAction :=
  ⟨none, fun _ => rfl⟩

/-- The action and its release after the failed pass. -/
theorem failedPass_none :
    ((failedPass none).2.store.get? "default" "web").any (fun r => !r.isTerminal) = true ∧
      ((failedPass none).2.releases.get?
        (Waking.trialAction.releaseKey trialSetup)).isNone = true := by
  decide +kernel

theorem failedPass_failed :
    ((failedPass (some .failed)).2.store.get? "default" "web").any
        (fun r => decide (r.phase ≠ some .completed)) = true ∧
      ((failedPass (some .failed)).2.releases.get?
        (Waking.trialAction.releaseKey trialSetup)).any
          (fun stored => decide (stored.info.status = .failed)) = true := by
  decide +kernel

/-- The hypotheses of `completes_after_restart_iff` hold of an action whose application failed
and left no release behind, and it comes to its end. -/
theorem completes_after_restart_trialAction :
    Weathered trialSetup "default" "web" .empty (trialEstate Waking.trialAction) .empty
        (failedPass none).2 ∧
      ∃ n, Completes trialGround trialSetup "default" "web" n .empty (failedPass none).2 := by
  obtain ⟨r, hstored, _, hiff⟩ := completes_after_restart_iff keyed_trialAction
    stored_trialAction rfl rfl rfl parse_trialAction resolves_trialAction credited_trialAction
    (weathered_failedPass none)
  refine ⟨weathered_failedPass none, hiff.2 (Or.inr ?_)⟩
  obtain ⟨hgoesOn, hvacant⟩ := failedPass_none
  rw [hstored] at hgoesOn
  rw [Option.isNone_iff_eq_none.1 hvacant]
  exact ⟨by simpa using hgoesOn, .vacant⟩

/-- When the failed application leaves a failed release behind, the action never comes to its
end after a restart, although nothing fails any more. -/
theorem never_completes_over_failed_release :
    Weathered trialSetup "default" "web" .empty (trialEstate Waking.trialAction) .empty
        (failedPass (some .failed)).2 ∧
      ∀ n, ¬Completes trialGround trialSetup "default" "web" n .empty
        (failedPass (some .failed)).2 := by
  refine ⟨weathered_failedPass _, fun n => ?_⟩
  obtain ⟨hkeyed, r, hstored, hsame⟩ := (weathered_failedPass (some .failed)).holds rfl rfl
    ⟨keyed_trialAction, _, stored_trialAction, .refl _⟩
  obtain ⟨hopen, hfailed⟩ := failedPass_failed
  obtain ⟨stored, hrelease, hstatus⟩ := (Option.any_eq_true _ _).1 hfailed
  rw [hstored] at hopen
  refine (restarted_empty hkeyed hstored hsame).not_completes rfl rfl rfl
    parse_trialAction resolves_trialAction credited_trialAction (by simpa using hopen)
    (Or.inr ?_) n
  rw [hrelease]
  rintro (_ | ⟨hdeployed, _⟩)
  rw [of_decide_eq_true hstatus] at hdeployed
  cases hdeployed

end Estate

end ReleaseOperator
