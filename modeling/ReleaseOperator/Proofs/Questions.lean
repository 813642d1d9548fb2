import ReleaseOperator.Proofs.Behaviour

/-!
# The questions of a program

Much of what a pass does only looks around: it reads the store, the cluster and Helm,
draws a delay or counts. `Program.Asks` bounds the questions that a program may come to
ask, whatever it is answered, and an invariant that these questions keep is kept by the
whole program. So it is enough to know of the looking-around that its questions are
quiet.
-/

namespace ReleaseOperator

namespace Program

variable {Q : Type} {A : Q → Type} {S α β : Type} {allowed : Q → Prop}

/-- Every question that a program may come to ask is an allowed one. -/
def Asks (allowed : Q → Prop) : Program Q A α → Prop
  | .done _ => True
  | .ask q next => allowed q ∧ ∀ r, Asks allowed (next r)

theorem asks_pure (a : α) : Asks allowed (pure a : Program Q A α) := trivial

theorem Asks.bind {p : Program Q A α} {f : α → Program Q A β} (hp : Asks allowed p)
    (hf : ∀ a, Asks allowed (f a)) : Asks allowed (p >>= f) := by
  rw [bind_eq]
  induction p with
  | done a => exact hf a
  | ask q next ih => exact ⟨hp.1, fun r => ih r (hp.2 r)⟩

theorem Asks.map {p : Program Q A α} (f : α → β) (hp : Asks allowed p) :
    Asks allowed (f <$> p) := by
  rw [← bind_pure_comp]
  exact hp.bind fun a => asks_pure (f a)

theorem Asks.mono {allowed' : Q → Prop} {p : Program Q A α} (hp : Asks allowed p)
    (himp : ∀ q, allowed q → allowed' q) : Asks allowed' p := by
  induction p with
  | done a => exact trivial
  | ask q next ih => exact ⟨himp q hp.1, fun r => ih r (hp.2 r)⟩

/-- An invariant that the allowed questions keep is kept by the program. -/
theorem Asks.always {b : Behaviour Q A S} {I : S → Prop} {p : Program Q A α}
    (hp : Asks allowed p) (hI : ∀ s q a s', allowed q → b.may s q a s' → I s → I s') {s : S}
    (hs : I s) : Always b p s fun _ s' => I s' := by
  induction p generalizing s with
  | done a => exact hs
  | ask q next ih =>
      intro r s' hr
      exact ih r (hp.2 r) (hI s q r s' hp.1 hr hs)

end Program

/-- Whether a call leaves the store and the releases as they are. -/
def Call.isQuiet : Call → Bool
  | .store (.get _ _ _) => true
  | .store _ => false
  | .helm (.upgradeOrInstall _) => false
  | .helm (.uninstall _ _ _) => false
  | _ => true

/-- Whether a call counts a transition. -/
def Call.isTransition : Call → Bool
  | .count (.transition _ _) => true
  | _ => false

/-- Whether a call looks up values or credentials in the cluster. -/
def Call.isLookup : Call → Bool
  | .cluster (.configMap _ _ _) => true
  | .cluster (.secret _ _ _) => true
  | _ => false

/-- Whether a call is put to the cluster, the class, the clock or the dice. -/
def Call.isAside : Call → Bool
  | .cluster _ => true
  | .hook _ _ _ => true
  | .now => true
  | .draw _ _ _ => true
  | _ => false

theorem Call.isAside_of_isLookup {c : Call} (h : c.isLookup = true) : c.isAside = true := by
  cases c with
  | cluster c => rfl
  | _ => exact absurd h Bool.false_ne_true

theorem Call.isQuiet_of_isAside {c : Call} (h : c.isAside = true) :
    c.isQuiet = true ∧ c.isTransition = false := by
  cases c with
  | store c => exact absurd h Bool.false_ne_true
  | helm c => exact absurd h Bool.false_ne_true
  | count c => exact absurd h Bool.false_ne_true
  | _ => exact ⟨rfl, rfl⟩

theorem Call.isQuiet_of_isLookup {c : Call} (h : c.isLookup = true) :
    c.isQuiet = true ∧ c.isTransition = false :=
  isQuiet_of_isAside (isAside_of_isLookup h)

namespace Pass

open Program

variable {α β ε : Type}

/-- A pass that only looks around. It enters no stage. -/
abbrev Quiet (p : Pass α) : Prop :=
  Asks (fun c : Call => c.isQuiet = true ∧ c.isTransition = false) p

/-- An invariant that quiet questions keep is kept by a pass that only looks around. -/
theorem Quiet.always {S : Type} {b : Conduct S} {I : S → Prop} {p : Pass α} (hp : Quiet p)
    (hI : ∀ s c a s', c.isQuiet = true → b.may s c a s' → I s → I s') {s : S} (hs : I s) :
    Always b p s fun _ s' => I s' :=
  Asks.always hp (fun s c a s' hc hmay h => hI s c a s' hc.1 hmay h) hs

/-! ### Asides

Calls to the cluster, the class, the clock and the dice change nothing, whatever else there is. -/

section Asides

variable {allowed : Call → Prop} (h : ∀ c : Call, c.isAside = true → allowed c)

include h

theorem asks_cluster (c : ClusterCall) : Asks allowed (Pass.cluster c) :=
  ⟨h _ rfl, fun _ => trivial⟩

theorem asks_hook (moment : HookMoment) (action : Action) (release : Release) :
    Asks allowed (Pass.hook moment action release) := ⟨h _ rfl, fun _ => trivial⟩

theorem asks_now : Asks allowed Pass.now := ⟨h _ rfl, fun _ => trivial⟩

theorem asks_drawDelay (min max : Nat) (unit : Duration) : Asks allowed (drawDelay min max unit) :=
  ⟨h _ rfl, fun _ => trivial⟩

theorem asks_shortDelay : Asks allowed shortDelay :=
  (asks_drawDelay h 1 2 (Duration.ofSecs 1)).map _

theorem asks_shortDelayWith (f : Failure) : Asks allowed (shortDelayWith f) :=
  (asks_drawDelay h 1 2 (Duration.ofSecs 1)).bind fun _ => trivial

theorem asks_refused (e : ClusterError) : Asks allowed (refused e) := by
  unfold refused
  split
  · exact asks_shortDelay h
  · exact asks_shortDelayWith h (.cluster e)

theorem asks_unanswered (f : Failure) : Asks allowed (unanswered f) :=
  (asks_shortDelayWith h f).bind fun _ => trivial

theorem asks_workloadsReady (workloads : List Workload) :
    Asks allowed (workloadsReady workloads) := by
  induction workloads with
  | nil => exact trivial
  | cons w rest ih =>
      refine (asks_cluster h (.workloadReady w)).bind ?_
      rintro (e | _ | _)
      · exact asks_unanswered h (.cluster e)
      · exact trivial
      · exact ih

/-- Besides asides, the manifest of the release is asked for. -/
theorem asks_manifestReady {release : Release}
    (hmanifest : allowed (.helm (.manifest release.name release.namespaceName))) :
    Asks allowed (manifestReady release) := by
  have hask : Asks allowed (Pass.helm (.manifest release.name release.namespaceName)) :=
    ⟨hmanifest, fun _ => trivial⟩
  refine hask.bind ?_
  rintro (e | manifest)
  · exact asks_unanswered h (.helm e)
  · dsimp only
    split
    · exact asks_unanswered h _
    · exact asks_workloadsReady h _

end Asides

theorem quiet_hook (moment : HookMoment) (action : Action) (release : Release) :
    Quiet (Pass.hook moment action release) :=
  asks_hook (fun _ => Call.isQuiet_of_isAside) moment action release

theorem quiet_now : Quiet Pass.now := asks_now fun _ => Call.isQuiet_of_isAside

theorem quiet_shortDelay : Quiet shortDelay := asks_shortDelay fun _ => Call.isQuiet_of_isAside

theorem quiet_shortDelayWith (f : Failure) : Quiet (shortDelayWith f) :=
  asks_shortDelayWith (fun _ => Call.isQuiet_of_isAside) f

theorem quiet_refused (e : ClusterError) : Quiet (refused e) :=
  asks_refused (fun _ => Call.isQuiet_of_isAside) e

theorem quiet_unanswered (f : Failure) : Quiet (unanswered f) :=
  asks_unanswered (fun _ => Call.isQuiet_of_isAside) f

theorem quiet_releaseInfo (name ns : String) : Quiet (Pass.helm (.releaseInfo name ns)) :=
  ⟨⟨rfl, rfl⟩, fun _ => trivial⟩

theorem quiet_deployedValues (name ns : String) : Quiet (Pass.helm (.values name ns)) :=
  ⟨⟨rfl, rfl⟩, fun _ => trivial⟩

/-! ### Sources

Values and credentials are looked up in the cluster only. -/

section Sources

variable {allowed : Call → Prop}

/-- A step that may fail, followed by another. -/
theorem asks_bindExcept {x : ExceptT ε Pass α} {f : α → ExceptT ε Pass β}
    (hx : Asks allowed x.run) (hf : ∀ a, Asks allowed (f a).run) : Asks allowed (x >>= f).run := by
  rw [ExceptT.run_bind]
  refine hx.bind ?_
  intro a
  cases a with
  | ok a => exact hf a
  | error e => exact trivial

variable (h : ∀ c : Call, c.isLookup = true → allowed c)

include h

theorem asks_resolveKey (kind : SourceKind) (ns : String) (ref : KeyRef) :
    Asks allowed (Sources.resolveKey kind ns ref).run := by
  have hlookup : Asks allowed (Sources.lookup kind ns ref.name ref.key) := by
    cases kind with
    | secret => exact ⟨h _ rfl, fun _ => trivial⟩
    | configMap => exact ⟨h _ rfl, fun _ => trivial⟩
  exact hlookup.map _

theorem asks_resolveOne (ns : String) (index : Nat) (source : ValuesSource) :
    Asks allowed (Sources.resolveOne ns index source).run := by
  unfold Sources.resolveOne
  split
  · exact trivial
  · split
    · exact asks_resolveKey h _ _ _
    · exact asks_resolveKey h _ _ _
    · exact trivial

theorem asks_resolveFrom (ns : String) (index : Nat) (sources : List ValuesSource) :
    Asks allowed (Sources.resolveFrom ns index sources).run := by
  induction sources generalizing index with
  | nil => exact trivial
  | cons source rest ih =>
      refine asks_bindExcept (asks_resolveOne h ns index source) ?_
      intro document
      exact asks_bindExcept (ih (index + 1)) fun _ => trivial

theorem asks_requiredSecret (ns name key : String) :
    Asks allowed (Sources.requiredSecret ns name key).run := by
  have hsecret : Asks allowed (Pass.cluster (.secret ns name key)) :=
    ⟨h _ rfl, fun _ => trivial⟩
  refine hsecret.bind ?_
  rintro (e | _ | s)
  · exact trivial
  · exact trivial
  · exact trivial

theorem asks_credentials (ns : String) (repository : Repository) :
    Asks allowed (Sources.credentials ns repository).run := by
  unfold Sources.credentials
  split
  · exact trivial
  · refine asks_bindExcept (asks_requiredSecret h _ _ _) ?_
    intro username
    exact asks_bindExcept (asks_requiredSecret h _ _ _) fun _ => trivial

theorem asks_jobValues (setup : Setup) (j : Job) : Asks allowed (j.values setup).run :=
  asks_bindExcept (asks_resolveFrom h j.resource.namespaceName 0 j.resource.overrides)
    fun _ => trivial

theorem asks_valuesDigest (setup : Setup) (j : Job) : Asks allowed (j.valuesDigest setup).run :=
  asks_bindExcept (asks_jobValues h setup j) fun _ => trivial

end Sources

theorem quiet_resolveFrom (ns : String) (index : Nat) (sources : List ValuesSource) :
    Quiet (Sources.resolveFrom ns index sources).run :=
  asks_resolveFrom (fun _ => Call.isQuiet_of_isLookup) ns index sources

theorem quiet_credentials (ns : String) (repository : Repository) :
    Quiet (Sources.credentials ns repository).run :=
  asks_credentials (fun _ => Call.isQuiet_of_isLookup) ns repository

theorem quiet_jobValues (setup : Setup) (j : Job) : Quiet (j.values setup).run :=
  asks_jobValues (fun _ => Call.isQuiet_of_isLookup) setup j

theorem quiet_valuesDigest (setup : Setup) (j : Job) : Quiet (j.valuesDigest setup).run :=
  asks_valuesDigest (fun _ => Call.isQuiet_of_isLookup) setup j

/-! ### Readiness and the choice of an action -/

theorem quiet_manifestReady (release : Release) : Quiet (manifestReady release) :=
  asks_manifestReady (fun _ => Call.isQuiet_of_isAside) ⟨rfl, rfl⟩

theorem quiet_isReady (setup : Setup) (j : Job) : Quiet (j.isReady setup) := by
  unfold Job.isReady
  split
  · exact trivial
  · refine (quiet_releaseInfo _ _).bind ?_
    rintro (e | _ | info)
    · exact quiet_unanswered (.helm e)
    · exact trivial
    · dsimp only
      split
      · exact quiet_manifestReady _
      · exact trivial

theorem quiet_reported (release : Release) (part : ReleaseInfo → α) :
    Quiet (reported release part) :=
  (quiet_releaseInfo release.name release.namespaceName).bind fun _ => trivial

theorem quiet_actualState (release : Release) : Quiet (actualState release) := by
  refine (quiet_reported release ReleaseInfo.status).bind ?_
  intro a
  split
  · exact trivial
  · exact trivial
  · exact (quiet_shortDelayWith _).bind fun _ => trivial

theorem quiet_upgradeNeeded (desired : String) (release : Release) :
    Quiet (upgradeNeeded desired release) := by
  refine (quiet_reported release ReleaseInfo.chartVersion).bind ?_
  intro a
  split
  · exact trivial
  · exact (quiet_shortDelayWith _).bind fun _ => trivial
  · split
    · exact trivial
    · exact (quiet_shortDelayWith _).bind fun _ => trivial

theorem quiet_actionForActual (j : Job) : Quiet j.actionForActual := by
  refine (quiet_actualState j.release).bind ?_
  rintro ⟨state, o⟩
  dsimp only
  split
  · exact trivial
  · split
    · exact trivial
    · refine (quiet_upgradeNeeded _ _).bind ?_
      intro a
      split
      · exact trivial
      · exact trivial
    · exact trivial

theorem quiet_chooseAction (j : Job) : Quiet j.chooseAction := by
  unfold Job.chooseAction
  split
  · exact trivial
  · split
    · exact trivial
    · exact (quiet_shortDelayWith _).bind fun _ => trivial
  · exact quiet_actionForActual j

theorem quiet_appliedDigest (setup : Setup) (j : Job) (desired : String) :
    Quiet (j.appliedDigest setup desired) := by
  unfold Job.appliedDigest
  split
  · exact trivial
  · split
    · exact trivial
    · refine (quiet_deployedValues _ _).bind ?_
      intro a
      split
      · exact trivial
      · exact trivial
      · exact (quiet_shortDelayWith _).bind fun _ => trivial

end Pass

end ReleaseOperator
