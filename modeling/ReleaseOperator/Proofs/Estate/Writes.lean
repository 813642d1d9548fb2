import ReleaseOperator.Proofs.Estate.Course

/-!
# Writes on an estate

In the middle of a pass the copy in hand is the stored resource, so a job stands for a
situation. A write restates that resource or rewrites it, and what is recorded on the way
keeps what the resource asks for.
-/

namespace ReleaseOperator

open InMemory Program

namespace Resource

variable {r r' : Resource} {setup : Setup}

theorem Restated.refl (r : Resource) : r.Restated r :=
  ⟨r.metadata.resourceVersion, r.status, rfl⟩

theorem Restated.trans {r'' : Resource} (h : r.Restated r') (h' : r'.Restated r'') :
    r.Restated r'' := by
  obtain ⟨n, status, rfl⟩ := h
  obtain ⟨n', status', rfl⟩ := h'
  exact ⟨n', status', rfl⟩

theorem Restated.kind (h : r.Restated r') : r'.kind = r.kind := by
  obtain ⟨n, status, rfl⟩ := h
  rfl

theorem Restated.release (h : r.Restated r') (defaults : ChartDefaults) :
    r'.release defaults = r.release defaults := by
  obtain ⟨n, status, rfl⟩ := h
  rfl

theorem Restated.desiredVersion (h : r.Restated r') : r'.desiredVersion = r.desiredVersion := by
  obtain ⟨n, status, rfl⟩ := h
  rfl

theorem Restated.generation (h : r.Restated r') : r'.generation = r.generation := by
  obtain ⟨n, status, rfl⟩ := h
  rfl

theorem isTerminal_phase (reason : Reason) : (reason.phase Phase.ready).isTerminal = false := by
  cases reason <;> rfl

theorem desiredVersion_congr (hspec : r'.spec = r.spec) :
    r'.desiredVersion = r.desiredVersion := by
  rw [desiredVersion, desiredVersion, hspec]

theorem release_congr (hspec : r'.spec = r.spec) (hns : r'.namespaceName = r.namespaceName)
    (hname : r'.name = r.name) (defaults : ChartDefaults) :
    r'.release defaults = r.release defaults := by
  rw [release, release, desiredVersion_congr hspec, hspec, hns, hname]

theorem noted_recordReady (hkind : r.kind = .module) (reason : Reason) (message time : String)
    (n : Option String) :
    r.Noted reason ⟨{ r.metadata with resourceVersion := n }, r.spec,
      (r.recordReady reason message time).status⟩ := by
  refine ⟨⟨n, _, rfl⟩, r.endsIn_recordReady reason message time, ?_, rfl⟩
  have hphase : (r.recordReady reason message time).phase =
      some (reason.phase r.kind.successPhase) := rfl
  rw [hkind] at hphase
  exact hphase

theorem Rewritten.conditions {w : Resource} (h : r.Rewritten w r') :
    r'.conditions = r.conditions := by
  obtain ⟨n, gen, _, rfl⟩ := h
  rfl

theorem Rewritten.pinned {version : String} (h : r.Rewritten (r.setDesiredVersion version) r')
    (setup : Setup) :
    r'.kind = r.kind ∧ r'.className = r.className ∧ r'.releaseKey setup = r.releaseKey setup := by
  obtain ⟨n, gen, _, rfl⟩ := h
  rcases r with ⟨_, _ | _, _⟩
  · exact ⟨rfl, rfl, rfl⟩
  · exact ⟨rfl, rfl, rfl⟩

theorem Rewritten.version_pinned {version : String}
    (h : r.Rewritten (r.setDesiredVersion version) r') (hkind : r.kind = .module) :
    r'.hasFinalizer = r.hasFinalizer ∧ r'.desiredVersion = Text.trim version := by
  obtain ⟨n, gen, _, rfl⟩ := h
  rcases r with ⟨_, _ | _, _⟩
  · exact ⟨rfl, rfl⟩
  · exact absurd hkind (by simp [kind, Spec.kind])

theorem Alike.kind (h : r.Alike r') : r'.kind = r.kind := congrArg Spec.kind h.spec

theorem Alike.desiredVersion (h : r.Alike r') : r'.desiredVersion = r.desiredVersion :=
  desiredVersion_congr h.spec

theorem Alike.release (h : r.Alike r') (defaults : ChartDefaults) :
    r'.release defaults = r.release defaults :=
  release_congr h.spec h.namespaceName h.name defaults

theorem Alike.className (h : r.Alike r') : r'.className = r.className := by
  rw [Resource.className, Resource.className, h.spec]

theorem Alike.releaseKey (h : r.Alike r') (setup : Setup) :
    r'.releaseKey setup = r.releaseKey setup := by
  rw [Resource.releaseKey, Resource.releaseKey, h.release]

theorem Alike.conditions (h : r.Alike r') : r'.conditions = r.conditions := by
  rw [Resource.conditions, statusD, h.status]
  rfl

theorem Alike.lastVersion (h : r.Alike r') : r'.lastVersion = r.lastVersion := by
  rw [Resource.lastVersion, h.kind, statusD, h.status]
  rfl

theorem Alike.selectAction (h : r.Alike r') : r'.selectAction = r.selectAction := by
  rw [Resource.selectAction, Resource.selectAction, h.conditions, h.lastVersion, h.desiredVersion]

/-- The finalizer changes nothing else. -/
theorem Rewritten.alike (h : r.Rewritten r.addFinalizer r') :
    r.Alike r' ∧ r'.hasFinalizer = true := by
  obtain ⟨n, gen, _, rfl⟩ := h
  have hadd : r.addFinalizer.spec = r.spec ∧ r.addFinalizer.namespaceName = r.namespaceName ∧
      r.addFinalizer.name = r.name ∧ r.addFinalizer.hasFinalizer = true := by
    unfold addFinalizer
    split
    · rename_i hyes
      exact ⟨rfl, rfl, rfl, hyes⟩
    · refine ⟨rfl, rfl, rfl, ?_⟩
      change (r.finalizers ++ [r.kind.finalizer]).contains r.kind.finalizer = true
      simp
  obtain ⟨hspec, hns, hname, hheld⟩ := hadd
  exact ⟨⟨hspec, rfl, hns, hname⟩, hheld⟩

end Resource

namespace Estate

variable {g : Ground} {trouble : Prop} {setup : Setup} {ns name : String} {x y : Situation}
  {j : Job} {s t : Estate} {a : Action} {reason : Reason}

/-- A situation at the end of a pass. -/
structure Left (setup : Setup) (ns name : String) (x : Situation) (j : Job) (s : Estate) :
    Prop where
  keyed : s.store.Keyed .module
  stored : s.store.get? ns name = some x.resource
  release : s.releases.get? (x.resource.releaseKey setup) = x.release
  entry : j.entry = x.entry
  tended : x.Tended setup

/-- A situation in the middle of a pass. -/
structure At (setup : Setup) (ns name : String) (x : Situation) (j : Job) (s : Estate) :
    Prop where
  keyed : s.store.Keyed .module
  stored : s.store.get? ns name = some x.resource
  release : s.releases.get? (x.resource.releaseKey setup) = x.release
  job : j = .start setup x.resource x.entry
  tended : x.Tended setup

theorem At.left_of_entry {j' : Job} (h : At setup ns name x j s) (hentry : j'.entry = x.entry) :
    Left setup ns name x j' s :=
  ⟨h.keyed, h.stored, h.release, hentry, h.tended⟩

theorem At.left (h : At setup ns name x j s) : Left setup ns name x j s :=
  h.left_of_entry (congrArg Job.entry h.job)

theorem At.tended_restated (h : At setup ns name x j s) {r : Resource} {p : Phase}
    (hr : x.resource.Restated r) (hphase : r.phase = some p) (hp : p.isTerminal = false) :
    Situation.Tended setup { x with resource := r } := by
  have hterminal : r.isTerminal = false := by
    rw [Resource.isTerminal, hphase]
    exact hp
  obtain ⟨n, status, rfl⟩ := hr
  exact ⟨h.tended.acts, h.tended.kind, h.tended.className, h.tended.stays, hterminal,
    h.tended.action⟩

theorem tended_rewritten (h : x.Tended setup) {w r : Resource} (hw : x.resource.Rewritten w r)
    (hkind : r.kind = x.resource.kind) (hclass : r.className = x.resource.className) :
    Situation.Tended setup { x with resource := r } := by
  refine ⟨h.acts, hkind.trans h.kind, hclass.trans h.className, ?_, ?_, h.action⟩
  · obtain ⟨n, gen, _, rfl⟩ := hw
    exact h.stays
  · obtain ⟨n, gen, _, rfl⟩ := hw
    exact h.goesOn

/-! ### Writing -/

theorem always_refused (e : ClusterError) :
    Always (conduct g trouble) (Pass.refused e) s fun o s' => o.requeue = true ∧ s' = s :=
  (Pass.always_refused_requeue e).and (always_quiet (Pass.quiet_refused e))

theorem always_delay :
    Always (conduct g trouble) Pass.shortDelay s fun o s' => o.requeue = true ∧ s' = s :=
  (Pass.always_shortDelay fun _ _ _ => rfl).and (always_quiet Pass.quiet_shortDelay)

theorem always_delayWith (f : Failure) :
    Always (conduct g trouble) (Pass.shortDelayWith f) s fun o s' => o.requeue = true ∧ s' = s :=
  (Pass.always_shortDelayWith fun _ _ _ => rfl).and (always_quiet (Pass.quiet_shortDelayWith f))

/-- The status of a stored resource is written, unless there is trouble. -/
theorem always_persistStatus {kind : Kind} {o r : Resource} (hkeyed : s.store.Keyed kind)
    (hstored : s.store.get? ns name = some o) (hmeta : r.metadata = o.metadata) :
    Always (conduct g trouble) (Pass.persistStatus r) s fun or s' =>
      (or.1.requeue = true ∧ trouble ∧ s' = s) ∨
        or.1 = .done ∧ (∃ n, or.2 =
          ⟨{ o.metadata with resourceVersion := n }, o.spec, r.status⟩) ∧
        s'.store.Keyed kind ∧ s'.store.get? ns name = some or.2 ∧ s'.releases = s.releases := by
  obtain ⟨hkind, hkey⟩ := hkeyed ns name _ hstored
  have hrkey : (r.namespaceName, r.name) = (ns, name) := by
    rw [← hkey, Store.keyOf, Resource.namespaceName, Resource.name, hmeta]
    rfl
  injection hrkey with hns hname
  rw [Pass.always_persistStatus]
  intro answer s₁ hmay
  obtain ⟨hreleases, hstore, hanswer⟩ := hmay
  rw [hns, hname, hstored] at hanswer
  rcases hanswer with rfl | ⟨ht, e, rfl⟩
  · dsimp only
    rw [hmeta, if_neg (fun hne => hne rfl)]
    intro answer' s₂ hmay'
    obtain ⟨hreleases', hwrite⟩ := hmay'
    rw [hstore] at hwrite
    have hlatest : Store.keyOf (o.copyStatus r) = (ns, name) := hkey
    rcases hwrite with hwrite | ⟨ht, hsame, e, rfl⟩
    · cases answer' with
      | error e =>
          have hget : s.store.get? (o.copyStatus r).namespaceName
              (o.copyStatus r).name = some o := by
            rw [(Prod.mk.inj hlatest).1, (Prod.mk.inj hlatest).2]
            exact hstored
          exact absurd hwrite (Store.updateStatus_ne_error hget rfl)
      | ok new =>
          obtain ⟨old, hold, _, rfl, hnew, hkeyed'⟩ := Store.updateStatus_ok hkeyed hlatest hwrite
          obtain rfl : o = old := Option.some.inj (hstored.symm.trans hold)
          exact Or.inr ⟨rfl, ⟨_, rfl⟩, hkeyed', hnew, hreleases'.trans hreleases⟩
    · have hs₂ : s₂ = s := by
        rw [← hstore] at hsame
        exact Estate.ext (hsame.trans hstore) (hreleases'.trans hreleases)
      rw [Pass.always_afterWrite]
      refine (always_refused e).mono ?_
      rintro o s' ⟨ho, rfl⟩
      exact Or.inl ⟨ho, ht, hs₂⟩
  · refine (always_refused e).mono ?_
    rintro o s' ⟨ho, rfl⟩
    exact Or.inl ⟨ho, ht, Estate.ext hstore hreleases⟩

/-- A stored resource is written as a whole, unless there is trouble. -/
theorem always_persistResource {kind : Kind} {o w : Resource} (hkeyed : s.store.Keyed kind)
    (hstored : s.store.get? ns name = some o) (hstays : o.isDeleting = false)
    (hkind : w.kind = kind) (hkey : Store.keyOf w = (ns, name))
    (hrev : w.metadata.resourceVersion = o.metadata.resourceVersion) :
    Always (conduct g trouble) (Pass.persistResource w) s fun or s' =>
      (or.1.requeue = true ∧ trouble ∧ s' = s) ∨
        or.1 = .done ∧ o.Rewritten w or.2 ∧ s'.store.Keyed kind ∧
          s'.store.get? ns name = some or.2 ∧ s'.releases = s.releases := by
  rw [Pass.always_persistResource]
  intro answer s₁ hmay
  obtain ⟨hreleases, hwrite | ⟨ht, hstore, e, rfl⟩⟩ := hmay
  · cases answer with
    | error e =>
        refine absurd hwrite (Store.update_ne_error ?_ hrev.symm)
        rw [(Prod.mk.inj hkey).1, (Prod.mk.inj hkey).2]
        exact hstored
    | ok new =>
        obtain ⟨old, hold, _, rfl, hnew, hkeyed'⟩ := Store.update_ok hkeyed hkind hkey hwrite
        obtain rfl : o = old := Option.some.inj (hstored.symm.trans hold)
        have hget : s₁.store.get? ns name = some (s.store.merged o w) := by
          rcases hnew with hnew | ⟨_, hdeleting, _⟩
          · exact hnew
          · have hstays : (s.store.merged o w).isDeleting = false := hstays
            rw [hstays] at hdeleting
            exact absurd hdeleting Bool.false_ne_true
        refine Or.inr ⟨rfl, ⟨_, _, ?_, rfl⟩, hkeyed', hget, hreleases⟩
        exact Store.le_generation_merged s.store o w
  · rw [Pass.always_afterWrite]
    refine (always_refused e).mono ?_
    rintro o s' ⟨ho, rfl⟩
    exact Or.inl ⟨ho, ht, Estate.ext hstore hreleases⟩

/-- A status is written, unless there is trouble. -/
theorem At.persistStatus (h : At setup ns name x j s) {r : Resource}
    (hmeta : r.metadata = x.resource.metadata) :
    Always (conduct g trouble) (Pass.persistStatus r) s fun or s' =>
      (or.1.requeue = true ∧ trouble ∧ s' = s) ∨
        or.1 = .done ∧ (∃ n, or.2 =
          ⟨{ x.resource.metadata with resourceVersion := n }, x.resource.spec, r.status⟩) ∧
        s'.store.Keyed .module ∧ s'.store.get? ns name = some or.2 ∧
        s'.releases = s.releases :=
  Estate.always_persistStatus h.keyed h.stored hmeta

/-- A resource is written as a whole, unless there is trouble. -/
theorem At.persistResource (h : At setup ns name x j s) {w : Resource}
    (hkind : w.kind = .module) (hkey : Store.keyOf w = (ns, name))
    (hrev : w.metadata.resourceVersion = x.resource.metadata.resourceVersion) :
    Always (conduct g trouble) (Pass.persistResource w) s fun or s' =>
      (or.1.requeue = true ∧ trouble ∧ s' = s) ∨
        or.1 = .done ∧ x.resource.Rewritten w or.2 ∧ s'.store.Keyed .module ∧
          s'.store.get? ns name = some or.2 ∧ s'.releases = s.releases :=
  Estate.always_persistResource h.keyed h.stored h.tended.stays hkind hkey hrev

/-! ### Recording -/

/-- An event is announced, unless there is trouble. -/
theorem At.announce (h : At setup ns name x j s) (reason : Reason) (detail : Option String) :
    AlwaysFrom (conduct g trouble) (Work.announce reason detail) j s fun o j' s' =>
      (o.requeue = true ∧ trouble ∧ s' = s ∧ j'.entry = x.entry) ∨
        o = .done ∧ ∃ r, x.resource.Noted reason r ∧
          At setup ns name { x with resource := r } j' s' := by
  obtain rfl := h.job
  rw [Work.always_announce]
  refine (always_quiet Pass.quiet_now).mono ?_
  rintro time s₁ rfl
  let w := (Job.start setup x.resource x.entry).noted reason detail time
  have hnoted := x.resource.noted_recordReady h.tended.kind reason
    ((Job.start setup x.resource x.entry).message reason detail) time
  split
  · refine (h.persistStatus (r := w) rfl).mono ?_
    rintro ⟨o, r⟩ s' (⟨ho, ht, rfl⟩ | ⟨rfl, ⟨n, rfl⟩, hkeyed, hstored, hreleases⟩)
    · exact Or.inl ⟨ho, ht, rfl, rfl⟩
    · refine Or.inr ⟨rfl, _, hnoted n, hkeyed, hstored, ?_, rfl, ?_⟩
      · rw [hreleases]
        exact h.release
      · exact h.tended_restated (hnoted n).restated (hnoted n).phase (Resource.isTerminal_phase _)
  · rename_i hnews
    have hself : w = x.resource := Job.noted_eq_self (Bool.not_eq_true _ ▸ hnews)
    refine Or.inr ⟨rfl, x.resource, ?_, h.keyed, h.stored, h.release, ?_, h.tended⟩
    · have hn := hnoted x.resource.metadata.resourceVersion
      have hrecorded : x.resource.recordReady reason _ time = x.resource := hself
      rw [hrecorded] at hn
      exact hn
    · change Job.mk w _ _ = _
      rw [hself]
      rfl

/-- A failure is told; it may have been recorded. -/
theorem At.fail (h : At setup ns name x j s) (reason : Reason) (f : Failure) :
    AlwaysFrom (conduct g trouble) (Work.fail reason f) j s fun o j' s' =>
      o.requeue = true ∧ (Left setup ns name x j' s' ∨ ∃ r, x.resource.Noted reason r ∧
        Left setup ns name { x with resource := r } j' s') := by
  rw [Work.always_fail]
  refine (h.announce reason (some f.text)).mono ?_
  intro o j' s₁ hannounced
  refine (always_delayWith f).mono ?_
  rintro o' s' ⟨ho', rfl⟩
  refine ⟨ho', ?_⟩
  rcases hannounced with ⟨_, _, rfl, hentry⟩ | ⟨_, r, hr, hat⟩
  · exact Or.inl (h.left_of_entry hentry)
  · exact Or.inr ⟨r, hr, hat.left⟩

/-- A completion is recorded, unless there is trouble. -/
theorem At.conclude (h : At setup ns name x j s) (reason : Reason) :
    AlwaysFrom (conduct g trouble) (Work.conclude reason true) j s fun o j' s' =>
      (o.requeue = true ∧ trouble ∧ s' = s ∧ j'.entry = x.entry) ∨
        o = .done ∧ ∃ r, x.resource.Concluded reason r ∧
          At setup ns name { x with resource := r } j' s' := by
  obtain rfl := h.job
  rw [Work.always_conclude]
  refine (always_quiet Pass.quiet_now).mono ?_
  rintro time s₁ rfl
  let j := Job.start setup x.resource x.entry
  let w := Work.concluded j reason true time
  have hphase : w.phase = some (reason.phase .ready) := by
    have hw : w.phase = some (reason.phase x.resource.kind.successPhase) :=
      Work.phase_concluded j reason true time
    rw [h.tended.kind] at hw
    exact hw
  have hlast := (Work.success_concluded j reason time h.tended.kind).1
  have hlastKind : ∀ n, (⟨{ x.resource.metadata with resourceVersion := n }, x.resource.spec,
      w.status⟩ : Resource).lastVersion = w.lastVersion := by
    intro n
    rw [Resource.lastVersion, Resource.lastVersion, Resource.kind, Resource.kind]
    rw [Work.spec_concluded j reason true time]
    rfl
  have hconcluded : ∀ n, x.resource.Concluded reason
      ⟨{ x.resource.metadata with resourceVersion := n }, x.resource.spec, w.status⟩ := by
    intro n
    refine ⟨⟨n, _, rfl⟩, Work.endsIn_concluded j reason true time, hphase, ?_,
      Work.observedGeneration_concluded j reason true time⟩
    rw [hlastKind]
    exact hlast
  refine (h.persistStatus (r := w) (Work.metadata_concluded j reason true time)).mono ?_
  rintro ⟨o, r⟩ s' (⟨ho, ht, rfl⟩ | ⟨rfl, ⟨n, rfl⟩, hkeyed, hstored, hreleases⟩)
  · exact Or.inl ⟨ho, ht, rfl, rfl⟩
  · refine Or.inr ⟨rfl, _, hconcluded n, hkeyed, hstored, ?_, rfl, ?_⟩
    · rw [hreleases]
      exact h.release
    · exact h.tended_restated (hconcluded n).restated (hconcluded n).phase
        (Resource.isTerminal_phase _)

end Estate

end ReleaseOperator
