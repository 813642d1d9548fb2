import ReleaseOperator.Proofs.Edits.Script
import ReleaseOperator.Proofs.Estate.Steady

/-!
# A first installation comes to its end

However often calls fail during the installation of a new module, and however often the
operator is started anew, once nothing fails any more three passes are enough: one for
the finalizer, one for a version that was left open, and one for the installation itself.
-/

namespace ReleaseOperator

open InMemory Program Situation

namespace Estate

variable {g : Ground} {trouble : Prop} {setup : Setup} {ns name : String} {x y z : Situation}
  {o r r' : Resource} {release : Option StoredRelease} {own : List Json} {a : Action}
  {m m' : Memory} {s s' : Estate} {requeue : Bool}

/-- Passes over a module in which any call may fail, and restarts between them. -/
inductive Troubled (g : Ground) (setup : Setup) (ns name : String) (m : Memory) (s : Estate) :
    Memory → Estate → Prop
  | start : Troubled g setup ns name m s m s
  | pass {m' m'' : Memory} {s' s'' : Estate} {result : Except PassError Outcome}
      (h : Troubled g setup ns name m s m' s')
      (hrun : Runs (conduct g True) ((reconcile setup .module ns name).run m') s'
        (result, m'') s'') : Troubled g setup ns name m s m'' s''
  | restart {m' : Memory} {s' : Estate} (h : Troubled g setup ns name m s m' s') :
      Troubled g setup ns name m s .empty s'

/-- Passes that go on until one does not ask to come back, which is so after a number of
passes at the latest; then the estate is as it should be. -/
def Settles (g : Ground) (setup : Setup) (ns name : String) (post : Estate → Prop) :
    Nat → Memory → Estate → Prop
  | 0, _, _ => False
  | n + 1, m, s =>
    AlwaysFrom (conduct g False) (reconcile setup .module ns name) m s fun result m' s' =>
      (result = .ok .done ∧ post s') ∨
        (∃ o, result = .ok o ∧ o.requeue = true) ∧ Settles g setup ns name post n m' s'

/-- A module that is installed as it was asked for at first. -/
structure Installed (g : Ground) (setup : Setup) (o : Resource) (own : List Json)
    (r : Resource) (s : Estate) : Prop where
  phase : r.phase = some .ready
  held : r.finalizers.count Kind.module.finalizer = 1
  foreign : (r.finalizers.filter fun f => f ≠ Kind.module.finalizer) =
    o.finalizers.filter fun f => f ≠ Kind.module.finalizer
  version : r.desiredVersion = Text.trim (askedVersion g setup o)
  lastVersion : r.lastVersion = some r.desiredVersion
  observed : r.observedGeneration = some r.generation
  release : s.releases.get? (o.releaseKey setup) = some
    ⟨⟨(o.release setup.defaults).name, (o.release setup.defaults).namespaceName, .deployed,
      r.desiredVersion⟩,
      Sources.render ((setup.baseValues (r.release setup.defaults)).toList ++ own)⟩

/-! ### Passes on which nothing fails -/

/-- What is still missing before the installation itself: the finalizer, and a version. -/
def missing (r : Resource) : Nat :=
  (if r.hasFinalizer then 0 else 1) + (if r.desiredVersion.isEmpty then 1 else 0)

theorem Steady.calm_course (hx : Steady g setup o x) (hkind : o.kind = .module)
    (hnamed : (Text.trim (askedVersion g setup o)).isEmpty = false) (hown : Resolves g o own)
    (hcredited : Credited g setup o) (ha : x.entry.action = some a)
    (h : Course g setup False a x requeue y) :
    (y.resource.hasFinalizer = x.resource.hasFinalizer) ∧
      (requeue = false ∧ y.entry.stage = .finish ∨
        requeue = true ∧ x.resource.desiredVersion.isEmpty = true ∧
          y.resource.desiredVersion.isEmpty = false) := by
  have hxkind := hx.fitting.kin.kind.trans hkind
  have hy := hx.course hkind hnamed ha h
  have hprovided := hx.fitting.kin.provided hkind hown hcredited
  rcases h.calm service_applied hxkind ⟨_, hprovided⟩ (hx.sound a ha) with
    ⟨hrequeue, hfinish, _, hr⟩ | ⟨hrequeue, _, hempty, between, hr, hw⟩
  · refine ⟨?_, Or.inl ⟨hrequeue, hfinish⟩⟩
    obtain ⟨n, status, heq⟩ := hr
    rw [heq]
    rfl
  · obtain ⟨hoempty, hspec, _⟩ := hx.fitting.isEmpty_version hkind hnamed hempty
    obtain ⟨hfinalizer, hpinned⟩ := hw.version_pinned (hr.kind.trans hxkind)
    have hrelease : between.release setup.defaults = o.release setup.defaults := by
      rw [hr.release]
      exact Resource.release_congr hspec hx.fitting.kin.place.1 hx.fitting.kin.place.2 _
    refine ⟨?_, Or.inr ⟨hrequeue, hempty, ?_⟩⟩
    · rw [hfinalizer]
      obtain ⟨n, status, rfl⟩ := hr
      rfl
    · rw [askedVersion, hoempty, if_pos rfl, ← hrelease] at hnamed
      rw [hpinned]
      exact hnamed

/-- A pass on which nothing fails has completed the installation or brought it closer.
Beyond that it can only be stuck at a version that cannot be compared. -/
inductive Calmed (g : Ground) (setup : Setup) (o : Resource) (x : Situation) :
    Bool → Situation → Prop
  | complete {y : Situation} (hstage : y.entry.stage = .finish)
      (hheld : y.resource.hasFinalizer = true) (hsteady : Steady g setup o y) :
      Calmed g setup o x false y
  | closer {y : Situation} (hless : missing y.resource < missing x.resource) :
      Calmed g setup o x true y
  | stuck {y : Situation} {e : VersionError} (hattained : Attained g setup x.resource x.release)
      (hlast : x.resource.lastVersion = some x.resource.desiredVersion)
      (hparse : Version.parse x.resource.desiredVersion = .error e) : Calmed g setup o x true y

theorem Steady.calmed_course {x' : Situation} (hx : Steady g setup o x') (hkind : o.kind = .module)
    (hnamed : (Text.trim (askedVersion g setup o)).isEmpty = false) (hown : Resolves g o own)
    (hcredited : Credited g setup o) (hresource : x'.resource = x.resource)
    (hheld : x.resource.hasFinalizer = true) (ha : x'.entry.action = some a)
    (h : Course g setup False a x' requeue y) : Calmed g setup o x requeue y := by
  obtain ⟨hsame, hend⟩ := hx.calm_course hkind hnamed hown hcredited ha h
  rw [hresource] at hsame hend
  rcases hend with ⟨rfl, hfinish⟩ | ⟨rfl, hempty, hnonempty⟩
  · exact .complete hfinish (hsame.trans hheld) (hx.course hkind hnamed ha h)
  · refine .closer ?_
    rw [missing, missing, hsame, hempty, hnonempty]
    exact Nat.lt_succ_self _

theorem Steady.calm (hx : Steady g setup o x) (hkind : o.kind = .module)
    (hnamed : (Text.trim (askedVersion g setup o)).isEmpty = false) (hown : Resolves g o own)
    (hcredited : Credited g setup o) (h : Through g setup False x requeue y) :
    Calmed g setup o x requeue y := by
  have hprovided := hx.fitting.kin.provided hkind hown hcredited
  cases h with
  | hindered hfalse => exact hfalse.elim
  | hold hno hw =>
      obtain ⟨hr, hyes⟩ := hw.alike
      refine .closer ?_
      rw [missing, missing, hno, hyes, hr.desiredVersion]
      exact Nat.add_lt_add_right Nat.zero_lt_one _
  | live hheld hlive =>
      have hy := hx.live hkind hnamed hlive
      cases hlive with
      | settled hstage _ => exact .complete hstage hheld hx
      | hindered _ hwhy =>
          rcases hwhy with hfalse | hnone
          · exact hfalse.elim
          · exact absurd ⟨_, hprovided⟩ hnone
      | unchanged hstage _ _ _ => exact .complete hstage hheld hy
      | changed hstage _ _ _ hc =>
          exact (hx.rearmed hstage _).calmed_course hkind hnamed hown hcredited rfl hheld rfl hc
      | undecided _ _ hselect =>
          rcases hx.fitting.selectAction with hinstall | ⟨hat, hupdate | ⟨e, _, hparse, _⟩⟩
          · rw [hinstall] at hselect
            exact absurd hselect (by simp)
          · rw [hupdate] at hselect
            exact absurd hselect (by simp)
          · exact .stuck hat.1 hat.2 hparse
      | chosen hstage haction hselect hc =>
          exact (hx.chosen haction hselect).calmed_course hkind hnamed hown hcredited rfl hheld rfl
            hc
      | kept hstage haction hc =>
          exact hx.calmed_course hkind hnamed hown hcredited rfl hheld haction hc

/-- What is there at the end of an installation is what was asked for. -/
theorem Steady.installed (hx : Steady g setup o x) (hkind : o.kind = .module)
    (hown : Resolves g o own) (hcredited : Credited g setup o)
    (honce : o.finalizers.count Kind.module.finalizer ≤ 1)
    (hstage : x.entry.stage = .finish) (hheld : x.resource.hasFinalizer = true)
    (hrelease : s.releases.get? (x.resource.releaseKey setup) = x.release) :
    Installed g setup o own x.resource s := by
  have hkin := hx.fitting.kin
  obtain ⟨hcount, hfilter⟩ := hkin.held hkind hheld honce
  obtain ⟨hempty, documents, ⟨_, hvalued⟩, hwanted⟩ := hx.applied_of_rank (by rw [hstage]; decide)
  have hdone := hx.done hstage
  have hdocuments := hvalued.unique (hkin.provided hkind hown hcredited).2
  have hkey := (hkin.sameRelease hkind).1
  refine ⟨hdone.phase, hcount, hfilter, ?_, hdone.lastVersion, hdone.observed, ?_⟩
  · rcases hkin.version hkind with hasked | ⟨hopen, _⟩
    · exact hasked
    · rw [hempty] at hopen
      exact absurd hopen Bool.false_ne_true
  · have hnames : (x.resource.release setup.defaults).name = (o.release setup.defaults).name ∧
        (x.resource.release setup.defaults).namespaceName =
          (o.release setup.defaults).namespaceName :=
      ⟨congrArg Prod.snd hkey, congrArg Prod.fst hkey⟩
    rw [← hkey, hrelease, hwanted, hdocuments, wanted, Ground.deployed, hnames.1, hnames.2,
      version_release, hempty, if_neg Bool.false_ne_true]

/-! ### Troubled runs -/

/-- Trouble and restarts leave a situation that fits together. -/
theorem Troubled.steady (h : Troubled g setup ns name m s m' s')
    (hkind : o.kind = .module) (hnamed : (Text.trim (askedVersion g setup o)).isEmpty = false)
    (hviews : Views setup ns name x m s) (hx : Steady g setup o x) :
    ∃ z, Views setup ns name z m' s' ∧ Steady g setup o z := by
  induction h with
  | start => exact ⟨x, hviews, hx⟩
  | pass _ hrun ih =>
      obtain ⟨z, hz, hsteady⟩ := ih
      obtain ⟨_, _, z', _, _, hthrough, hfound, hz'⟩ := always_iff_runs.1 hz.reconcile _ _ hrun
      exact ⟨z', hz', hsteady.next hkind hnamed hthrough hfound⟩
  | restart _ ih =>
      obtain ⟨z, hz, hsteady⟩ := ih
      exact ⟨_, hz.restart, hsteady.fitting.steady _⟩

/-- Without trouble the installation is complete once nothing is missing any more. -/
theorem Steady.settles {v : Version} (hkind : o.kind = .module)
    (hversion : Version.parse (askedVersion g setup o) = .ok v) (hown : Resolves g o own)
    (hcredited : Credited g setup o) (honce : o.finalizers.count Kind.module.finalizer ≤ 1)
    (hx : Steady g setup o x) (hviews : Views setup ns name x m s) {n : Nat}
    (hmissing : missing x.resource < n) :
    Settles g setup ns name (fun s' => ∃ r, s'.store.get? ns name = some r ∧
      Installed g setup o own r s') n m s := by
  have hparse := (Version.parse_trim _).trans hversion
  have hnamed := Version.isEmpty_eq_false_of_parse hparse
  induction n generalizing x m s with
  | zero => exact absurd hmissing (Nat.not_lt_zero _)
  | succ n ih =>
      refine hviews.reconcile.mono ?_
      rintro result m' s' ⟨outcome, y, z, rfl, hdone, hthrough, hfound, hz⟩
      have hz' := hx.next hkind hnamed hthrough hfound
      obtain ⟨hresource, hrelease, _⟩ := hfound
      have hcalmed := hx.calm hkind hnamed hown hcredited hthrough
      generalize hrequeue : outcome.requeue = again at hcalmed
      cases hcalmed with
      | complete hstage hheld hy =>
          left
          have hstored := hz.stored
          have hserved := hz.release
          rw [hresource] at hstored hserved
          rw [hrelease] at hserved
          exact ⟨congrArg Except.ok (hdone hrequeue), _, hstored,
            hy.installed hkind hown hcredited honce hstage hheld hserved⟩
      | closer hless =>
          right
          rw [← hresource] at hless
          exact ⟨⟨outcome, rfl, hrequeue⟩, ih hz' hz (by omega)⟩
      | stuck hat _ herror =>
          rcases hx.fitting.kin.version hkind with hasked | ⟨hopen, _⟩
          · rw [hasked, hparse] at herror
            exact absurd herror (by simp)
          · rw [hat.1] at hopen
            exact absurd hopen Bool.false_ne_true

theorem missing_le (r : Resource) : missing r ≤ 2 := by
  unfold missing
  split <;> split <;> decide

/-- Whatever befalls a new module, what a pass finds keeps fitting together. -/
theorem Troubled.steady_of_new (h : Troubled g setup ns name m s m' s')
    (hacts : setup.dryRun = false) (hkeyed : s.store.Keyed .module)
    (hstored : s.store.get? ns name = some o) (hclass : o.className = setup.className)
    (hstays : o.isDeleting = false) (hstatus : o.status = none)
    (hnone : s.releases.get? (o.releaseKey setup) = none)
    (hnamed : (Text.trim (askedVersion g setup o)).isEmpty = false)
    (hunknown : ∀ gen, m.lifecycle.get? (.ofResource o) gen = none) :
    ∃ z, Views setup ns name z m' s' ∧ Steady g setup o z := by
  have hkind := (hkeyed ns name o hstored).1
  have hgoesOn : o.isTerminal = false := by
    rw [Resource.isTerminal, Resource.phase, Resource.statusD, hstatus]
    rfl
  have hpending : installPending o.conditions = true := by
    rw [Resource.conditions, Resource.statusD, hstatus]
    rfl
  have hviews := views_unknown hacts hkeyed hstored hclass hstays hgoesOn hunknown
  rw [hnone] at hviews
  have hfitting : Fitting g setup o o none := ⟨.refl o, Or.inl rfl, Or.inl hpending⟩
  exact h.steady hkind hnamed hviews (hfitting.steady _)

/-- A new module whose installation is troubled is installed as it was asked for after
three more passes at most, once nothing fails. -/
theorem settles_after_trouble {v : Version} (hacts : setup.dryRun = false)
    (hkeyed : s.store.Keyed .module) (hstored : s.store.get? ns name = some o)
    (hclass : o.className = setup.className) (hstays : o.isDeleting = false)
    (hstatus : o.status = none) (hnone : s.releases.get? (o.releaseKey setup) = none)
    (honce : o.finalizers.count Kind.module.finalizer ≤ 1)
    (hversion : Version.parse (askedVersion g setup o) = .ok v) (hown : Resolves g o own)
    (hcredited : Credited g setup o)
    (hunknown : ∀ gen, m.lifecycle.get? (.ofResource o) gen = none)
    (htroubled : Troubled g setup ns name m s m' s') :
    Settles g setup ns name (fun s' => ∃ r, s'.store.get? ns name = some r ∧
      Installed g setup o own r s') 3 m' s' := by
  have hnamed := Version.isEmpty_eq_false_of_parse ((Version.parse_trim _).trans hversion)
  obtain ⟨z, hz, hsteady⟩ := htroubled.steady_of_new hacts hkeyed hstored hclass hstays hstatus
    hnone hnamed hunknown
  exact hsteady.settles (hkeyed ns name o hstored).1 hversion hown hcredited honce hz
    (Nat.lt_succ_of_le (missing_le _))

/-! ### A module whose installation stalls -/

theorem troubled_stalledPasses (g : Ground) (setup : Setup) (ns name : String) (n : Nat)
    (m : Memory) (s : Estate) :
    Troubled g setup ns name m s (stalledPasses g setup ns name n (m, s)).1
      (stalledPasses g setup ns name n (m, s)).2 := by
  induction n with
  | zero => exact .start
  | succ n ih =>
      obtain ⟨_, hrun⟩ := runs_stalledPasses g setup ns name n (m, s)
      exact .pass ih hrun

/-- A cluster without values, and a Helm that knows the values of the trial modules. -/
def trialGround : Ground where
  configMap _ _ _ := none
  secret _ _ _ := none
  chartVersion _ := "0.1.0"
  values documents :=
    if documents = Sources.render [replicas 1] then replicas 1
    else if documents = Sources.render [replicas 2] then replicas 2
    else .null

theorem values_trialGround :
    trialGround.values (Sources.render [replicas 1]) = Values.mergeAll [replicas 1] ∧
      trialGround.values (Sources.render [replicas 2]) = Values.mergeAll [replicas 2] := by
  have hdiffer : Sources.render [replicas 2] ≠ Sources.render [replicas 1] := by decide +kernel
  unfold trialGround
  dsimp only
  rw [if_pos rfl, if_neg hdiffer, if_pos rfl]
  exact ⟨rfl, rfl⟩

theorem trial_of_spec {version : String} {n : Int} (h : o.spec = trialSpec version n) :
    Resolves trialGround o [replicas n] ∧ Credited trialGround trialSetup o ∧
      o.desiredVersion = Text.trim version := by
  refine ⟨?_, ⟨none, ?_⟩, ?_⟩
  · rw [Resolves, Resource.overrides, h]
    exact fun _ => rfl
  · rw [Resource.release, h]
    exact fun _ => rfl
  · rw [Resource.desiredVersion, h]
    rfl

/-- A module with the finalizer of somebody else and no version. -/
def newModule : Resource :=
  { trialModule with
    metadata := { trialModule.metadata with finalizers := some ["example.com/backup"] }
    spec := trialSpec "" 1 }

/-- The estate with nothing but one module. -/
def trialEstate (r : Resource) : Estate := ⟨trialStore r, []⟩

/-- The hypotheses of `settles_after_trouble` hold of a module that names no version, after
three passes on which its release does not come to be ready, and a restart. -/
theorem settles_after_trouble_newModule :
    Troubled trialGround trialSetup "default" "web" .empty (trialEstate newModule) .empty
        (stalledPasses trialGround trialSetup "default" "web" 3
          (.empty, trialEstate newModule)).2 ∧
      Settles trialGround trialSetup "default" "web" (fun s' => ∃ r,
          s'.store.get? "default" "web" = some r ∧
            Installed trialGround trialSetup newModule [replicas 1] r s') 3 .empty
        (stalledPasses trialGround trialSetup "default" "web" 3
          (.empty, trialEstate newModule)).2 := by
  have htroubled := Troubled.restart
    (troubled_stalledPasses trialGround trialSetup "default" "web" 3 .empty (trialEstate newModule))
  refine ⟨htroubled, ?_⟩
  exact settles_after_trouble rfl (keyed_trialStore rfl rfl) rfl rfl rfl rfl rfl (by decide)
    (v := ⟨0, 1, 0, [], []⟩) rfl (trial_of_spec rfl).1 (trial_of_spec rfl).2.1 (fun _ => rfl)
    htroubled

end Estate

end ReleaseOperator
