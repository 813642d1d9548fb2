import ReleaseOperator.Lifecycle.Reconcile

/-!
# Behaviours

A program says what is asked; a behaviour says how the questions may be answered. It
is a relation between a state, a question, an answer and the state afterwards, so it
covers collaborators that fail or that change between two questions. `Program.Runs`
is one run of a program under a behaviour, and `Program.Always` is the demonic
precondition: whatever is answered, the program ends in the given postcondition. The
two are tied together by `Program.always_iff_runs`, and since a behaviour answers every
question, a program always has a run.

The second half carries the calculus over to work on a job and to passes that change
the memory, one equation for each operation, so that later proofs never unfold a
state transformer.
-/

namespace ReleaseOperator

/-- How questions may be answered, and what the answers do to a state. Every question
has an answer. -/
structure Behaviour (Q : Type) (A : Q → Type) (S : Type) where
  may : S → (q : Q) → A q → S → Prop
  answers : ∀ s q, ∃ a s', may s q a s'

/-- How the collaborators of a pass may answer. -/
abbrev Conduct (S : Type) := Behaviour Call Call.Answer S

namespace Program

variable {Q : Type} {A : Q → Type} {S σ α α' β β' : Type}

/-- A run of a program: the state it starts in, what it ends with and the state then. -/
inductive Runs (b : Behaviour Q A S) : Program Q A α → S → α → S → Prop
  | done (a : α) (s : S) : Runs b (.done a) s a s
  | ask {q : Q} {next : A q → Program Q A α} {s s' s'' : S} {r : A q} {a : α}
      (answer : b.may s q r s') (rest : Runs b (next r) s' a s'') :
      Runs b (.ask q next) s a s''

/-- Whatever is answered, the program ends in the postcondition. -/
def Always (b : Behaviour Q A S) : Program Q A α → S → (α → S → Prop) → Prop
  | .done a, s, post => post a s
  | .ask q next, s, post => ∀ r s', b.may s q r s' → Always b (next r) s' post

variable {b : Behaviour Q A S} {s t : S}

theorem always_ask (q : Q) (next : A q → Program Q A α) (post : α → S → Prop) :
    Always b (ask q next) s post ↔
      ∀ r s', b.may s q r s' → Always b (next r) s' post := Iff.rfl

/-- A sequence ends in the postcondition when its first part always ends where the
second part does. -/
theorem always_bind (p : Program Q A α) (f : α → Program Q A β) (post : β → S → Prop) :
    Always b (p >>= f) s post ↔ Always b p s fun a s' => Always b (f a) s' post := by
  rw [bind_eq]
  induction p generalizing s with
  | done a => exact Iff.rfl
  | ask q next ih =>
      rw [bind_ask, always_ask, always_ask]
      constructor
      · intro h r s' hr
        exact (ih r).1 (h r s' hr)
      · intro h r s' hr
        exact (ih r).2 (h r s' hr)

theorem always_map (p : Program Q A α) (f : α → β) (post : β → S → Prop) :
    Always b (f <$> p) s post ↔ Always b p s fun a s' => post (f a) s' := by
  rw [← bind_pure_comp, always_bind]
  exact Iff.rfl

theorem Always.mono {p : Program Q A α} {post post' : α → S → Prop}
    (h : Always b p s post) (himp : ∀ a s', post a s' → post' a s') :
    Always b p s post' := by
  induction p generalizing s with
  | done a => exact himp a s h
  | ask q next ih =>
      intro r s' hr
      exact ih r (h r s' hr)

theorem always_congr {p : Program Q A α} {post post' : α → S → Prop}
    (h : ∀ a s', post a s' ↔ post' a s') : Always b p s post ↔ Always b p s post' :=
  ⟨fun hp => hp.mono fun a s' => (h a s').1, fun hp => hp.mono fun a s' => (h a s').2⟩

theorem Always.and {p : Program Q A α} {post post' : α → S → Prop}
    (h : Always b p s post) (h' : Always b p s post') :
    Always b p s fun a s' => post a s' ∧ post' a s' := by
  induction p generalizing s with
  | done a => exact ⟨h, h'⟩
  | ask q next ih =>
      intro r s' hr
      exact ih r (h r s' hr) (h' r s' hr)

/-- The precondition and the runs say the same. -/
theorem always_iff_runs {p : Program Q A α} {post : α → S → Prop} :
    Always b p s post ↔ ∀ a s', Runs b p s a s' → post a s' := by
  constructor
  · intro h a s' hrun
    induction hrun with
    | done a s => exact h
    | ask answer _ ih => exact ih (h _ _ answer)
  · intro h
    induction p generalizing s with
    | done a => exact h a s (Runs.done a s)
    | ask q next ih =>
        intro r s' hr
        apply ih r
        intro a s'' hrun
        exact h a s'' (Runs.ask hr hrun)

/-- A run of a sequence is made of runs of its parts. -/
theorem Runs.bind {p : Program Q A α} {f : α → Program Q A β} {a : α} {c : β} {s' s'' : S}
    (h : Runs b p s a s') (hf : Runs b (f a) s' c s'') : Runs b (p >>= f) s c s'' := by
  induction h with
  | done a s => exact hf
  | ask answer _ ih => exact .ask answer (ih hf)

theorem exists_runs (p : Program Q A α) (s : S) : ∃ a s', Runs b p s a s' := by
  induction p generalizing s with
  | done a => exact ⟨a, s, Runs.done a s⟩
  | ask q next ih =>
      obtain ⟨r, s', hr⟩ := b.answers s q
      obtain ⟨a, s'', hrun⟩ := ih r s'
      exact ⟨a, s'', Runs.ask hr hrun⟩

/-- A postcondition that always holds is met by some run. -/
theorem Always.exists {p : Program Q A α} {post : α → S → Prop} (h : Always b p s post) :
    ∃ a s', Runs b p s a s' ∧ post a s' := by
  obtain ⟨a, s', hrun⟩ := exists_runs (b := b) p s
  exact ⟨a, s', hrun, always_iff_runs.1 h a s' hrun⟩

/-- The run with an answering function that keeps to the behaviour. -/
theorem runs_run {answer : (q : Q) → StateM S (A q)}
    (hmay : ∀ s q, b.may s q (answer q s).1 (answer q s).2) (p : Program Q A α) (s : S) :
    Runs b p s (p.run answer s).1 (p.run answer s).2 := by
  induction p generalizing s with
  | done a => exact Runs.done a s
  | ask q next ih => exact Runs.ask (hmay s q) (ih (answer q s).1 (answer q s).2)

/-! ### Programs that carry a state of their own -/

/-- Whatever is answered, a program that carries a state of its own ends in the
postcondition. -/
def AlwaysFrom (b : Behaviour Q A S) (w : StateT σ (Program Q A) α) (x : σ) (s : S)
    (post : α → σ → S → Prop) : Prop :=
  Always b (w.run x) s fun ax s' => post ax.1 ax.2 s'

variable {x y : σ}

theorem alwaysFrom_pure (a : α) (post : α → σ → S → Prop) :
    AlwaysFrom b (pure a) x s post ↔ post a x s := Iff.rfl

theorem alwaysFrom_bind (w : StateT σ (Program Q A) α) (f : α → StateT σ (Program Q A) β)
    (post : β → σ → S → Prop) :
    AlwaysFrom b (w >>= f) x s post ↔
      AlwaysFrom b w x s fun a x' s' => AlwaysFrom b (f a) x' s' post := by
  rw [AlwaysFrom, StateT.run_bind, always_bind]
  exact Iff.rfl

theorem alwaysFrom_map (w : StateT σ (Program Q A) α) (f : α → β)
    (post : β → σ → S → Prop) :
    AlwaysFrom b (f <$> w) x s post ↔ AlwaysFrom b w x s fun a x' s' => post (f a) x' s' := by
  rw [← bind_pure_comp, alwaysFrom_bind]
  exact Iff.rfl

theorem alwaysFrom_get (post : σ → σ → S → Prop) :
    AlwaysFrom b (get : StateT σ (Program Q A) σ) x s post ↔ post x x s := Iff.rfl

theorem alwaysFrom_modify (f : σ → σ) (post : PUnit → σ → S → Prop) :
    AlwaysFrom b (modify f : StateT σ (Program Q A) PUnit) x s post ↔ post ⟨⟩ (f x) s := Iff.rfl

theorem alwaysFrom_lift (p : Program Q A α) (post : α → σ → S → Prop) :
    AlwaysFrom b (StateT.lift p) x s post ↔ Always b p s fun a s' => post a x s' := by
  change Always b (p >>= fun a => pure (a, x)) s _ ↔ _
  rw [always_bind]
  exact Iff.rfl

theorem AlwaysFrom.mono {w : StateT σ (Program Q A) α} {post post' : α → σ → S → Prop}
    (h : AlwaysFrom b w x s post) (himp : ∀ a x' s', post a x' s' → post' a x' s') :
    AlwaysFrom b w x s post' :=
  Always.mono h fun ax s' => himp ax.1 ax.2 s'

theorem alwaysFrom_congr {w : StateT σ (Program Q A) α} {post post' : α → σ → S → Prop}
    (h : ∀ a x' s', post a x' s' ↔ post' a x' s') :
    AlwaysFrom b w x s post ↔ AlwaysFrom b w x s post' :=
  always_congr fun ax s' => h ax.1 ax.2 s'

/-!
## Two runs side by side

A statement about two runs of programs, each under its own answers: `Program.Paired` says that
every run of the one and every run of the other end in related states. It is the demonic
precondition of the one program around that of the other, so the runs may be taken in either
order, and two sequences are paired part by part.
-/

/-- Whatever is answered in either run, the two programs end in the postcondition. -/
def Paired (b : Behaviour Q A S) (p : Program Q A α) (s : S) (p' : Program Q A α') (t : S)
    (post : α → S → α' → S → Prop) : Prop :=
  Always b p s fun a s' => Always b p' t fun a' t' => post a s' a' t'

theorem paired_iff_runs {p : Program Q A α} {p' : Program Q A α'}
    {post : α → S → α' → S → Prop} :
    Paired b p s p' t post ↔
      ∀ a s' a' t', Runs b p s a s' → Runs b p' t a' t' → post a s' a' t' := by
  rw [Paired, always_iff_runs]
  constructor
  · intro h a s' a' t' hrun hrun'
    exact always_iff_runs.1 (h a s' hrun) a' t' hrun'
  · intro h a s' hrun
    rw [always_iff_runs]
    intro a' t' hrun'
    exact h a s' a' t' hrun hrun'

/-- It does not matter which of the two runs is looked at first. -/
theorem paired_iff_always {p : Program Q A α} {p' : Program Q A α'}
    {post : α → S → α' → S → Prop} :
    Paired b p s p' t post ↔
      Always b p' t fun a' t' => Always b p s fun a s' => post a s' a' t' := by
  have hswap : Paired b p' t p s (fun a' t' a s' => post a s' a' t') ↔ Paired b p s p' t post := by
    rw [paired_iff_runs, paired_iff_runs]
    exact ⟨fun h a s' a' t' hrun hrun' => h a' t' a s' hrun' hrun,
      fun h a' t' a s' hrun' hrun => h a s' a' t' hrun hrun'⟩
  exact hswap.symm

theorem Paired.mono {p : Program Q A α} {p' : Program Q A α'} {post post' : α → S → α' → S → Prop}
    (h : Paired b p s p' t post) (himp : ∀ a s' a' t', post a s' a' t' → post' a s' a' t') :
    Paired b p s p' t post' :=
  Always.mono h fun a s' h' => h'.mono fun a' t' => himp a s' a' t'

/-- Two sequences are paired when their first parts always end where their second parts are. -/
theorem paired_bind {p : Program Q A α} {f : α → Program Q A β} {p' : Program Q A α'}
    {f' : α' → Program Q A β'} {post : β → S → β' → S → Prop}
    (h : Paired b p s p' t fun a s' a' t' => Paired b (f a) s' (f' a') t' post) :
    Paired b (p >>= f) s (p' >>= f') t post := by
  rw [Paired, always_bind]
  refine Always.mono h fun a s' h' => ?_
  -- What is left of the other run stands inside; taken first, it splits like this one.
  change Paired b (f a) s' (p' >>= f') t post
  rw [paired_iff_always, always_bind]
  exact h'.mono fun a' t' h'' => paired_iff_always.1 h''

/-! ### Programs that carry a state of their own -/

/-- Whatever is answered in either run, two programs that carry a state of their own end in
the postcondition. -/
def PairedFrom (b : Behaviour Q A S) (w : StateT σ (Program Q A) α) (x : σ) (s : S)
    (w' : StateT σ (Program Q A) α') (y : σ) (t : S) (post : α → σ → S → α' → σ → S → Prop) :
    Prop :=
  Paired b (w.run x) s (w'.run y) t fun ax s' ay t' => post ax.1 ax.2 s' ay.1 ay.2 t'

theorem PairedFrom.mono {w : StateT σ (Program Q A) α} {w' : StateT σ (Program Q A) α'}
    {post post' : α → σ → S → α' → σ → S → Prop} (h : PairedFrom b w x s w' y t post)
    (himp : ∀ a x' s' a' y' t', post a x' s' a' y' t' → post' a x' s' a' y' t') :
    PairedFrom b w x s w' y t post' :=
  Paired.mono h fun ax s' ay t' => himp ax.1 ax.2 s' ay.1 ay.2 t'

theorem pairedFrom_get (post : σ → σ → S → σ → σ → S → Prop) :
    PairedFrom b (get : StateT σ (Program Q A) σ) x s (get : StateT σ (Program Q A) σ) y t post ↔
      post x x s y y t := Iff.rfl

theorem pairedFrom_modify (f f' : σ → σ) (post : PUnit → σ → S → PUnit → σ → S → Prop) :
    PairedFrom b (modify f : StateT σ (Program Q A) PUnit) x s
        (modify f' : StateT σ (Program Q A) PUnit) y t post ↔
      post ⟨⟩ (f x) s ⟨⟩ (f' y) t := Iff.rfl

theorem pairedFrom_bind {w : StateT σ (Program Q A) α} {f : α → StateT σ (Program Q A) β}
    {w' : StateT σ (Program Q A) α'} {f' : α' → StateT σ (Program Q A) β'}
    {post : β → σ → S → β' → σ → S → Prop}
    (h : PairedFrom b w x s w' y t fun a x' s' a' y' t' =>
      PairedFrom b (f a) x' s' (f' a') y' t' post) :
    PairedFrom b (w >>= f) x s (w' >>= f') y t post := by
  rw [PairedFrom, StateT.run_bind, StateT.run_bind]
  exact paired_bind h

theorem pairedFrom_lift {p : Program Q A α} {p' : Program Q A α'}
    {post : α → σ → S → α' → σ → S → Prop}
    (h : Paired b p s p' t fun a s' a' t' => post a x s' a' y t') :
    PairedFrom b (StateT.lift p) x s (StateT.lift p') y t post :=
  paired_bind (h.mono fun _ _ _ _ h' => h')

end Program

/-! ## What a pass asks and what work does -/

namespace Pass

open Program

variable {S α : Type} {b : Conduct S} {s : S}

theorem always_get (kind : Kind) (ns name : String)
    (post : Except ClusterError (Option Resource) → S → Prop) :
    Always b (Pass.get kind ns name) s post ↔
      ∀ a s', b.may s (.store (.get kind ns name)) a s' → post a s' := Iff.rfl

theorem always_update (r : Resource) (post : Except ClusterError Resource → S → Prop) :
    Always b (Pass.update r) s post ↔
      ∀ a s', b.may s (.store (.update r)) a s' → post a s' := Iff.rfl

theorem always_updateStatus (r : Resource) (post : Except ClusterError Resource → S → Prop) :
    Always b (Pass.updateStatus r) s post ↔
      ∀ a s', b.may s (.store (.updateStatus r)) a s' → post a s' := Iff.rfl

theorem always_helm (c : HelmCall) (post : c.Answer → S → Prop) :
    Always b (Pass.helm c) s post ↔ ∀ a s', b.may s (.helm c) a s' → post a s' := Iff.rfl

theorem always_cluster (c : ClusterCall) (post : c.Answer → S → Prop) :
    Always b (Pass.cluster c) s post ↔
      ∀ a s', b.may s (.cluster c) a s' → post a s' := Iff.rfl

theorem always_hook (moment : HookMoment) (action : Action) (release : Release)
    (post : Outcome → S → Prop) :
    Always b (Pass.hook moment action release) s post ↔
      ∀ o s', b.may s (.hook moment action release) o s' → post o s' := Iff.rfl

theorem always_count (c : Counter) (post : Unit → S → Prop) :
    Always b (Pass.count c) s post ↔ ∀ u s', b.may s (.count c) u s' → post u s' := Iff.rfl

/-- The shortest of the delays is among those that may be drawn. -/
theorem low_mem_draw {low high : Nat} (ordered : low ≤ high) : low ≤ low ∧ low ≤ high :=
  ⟨Nat.le_refl low, ordered⟩

theorem always_drawDelay (min max : Nat) (unit : Duration) (post : Duration → S → Prop) :
    Always b (Pass.drawDelay min max unit) s post ↔
      ∀ n s', b.may s (.draw _ _ (Outcome.window_le min max unit)) n s' →
        post (Duration.ofMillis n.1) s' := Iff.rfl

/-- A delay asks to come back, however long it is. -/
theorem always_shortDelay {post : Outcome → S → Prop}
    (h : ∀ d s', (∃ n, b.may s (.draw _ _ (Outcome.window_le 1 2 (Duration.ofSecs 1))) n s') →
      post (.after d) s') :
    Always b Pass.shortDelay s post := by
  rw [Pass.shortDelay, Pass.delay, always_map, always_drawDelay]
  intro n s' hn
  exact h _ s' ⟨n, hn⟩

theorem always_shortDelayWith {f : Failure} {post : Outcome → S → Prop}
    (h : ∀ d s', (∃ n, b.may s (.draw _ _ (Outcome.window_le 1 2 (Duration.ofSecs 1))) n s') →
      post (.failed d f) s') :
    Always b (Pass.shortDelayWith f) s post := by
  rw [Pass.shortDelayWith, always_bind, always_drawDelay]
  intro n s' hn
  exact h _ s' ⟨n, hn⟩

end Pass

namespace Work

open Program

variable {S α : Type} {b : Conduct S} {j : Job} {s : S}

theorem always_ask (p : Pass α) (post : α → Job → S → Prop) :
    AlwaysFrom b (Work.ask p) j s post ↔ Always b p s fun a s' => post a j s' :=
  alwaysFrom_lift p post

theorem always_about (f : Job → Pass α) (post : α → Job → S → Prop) :
    AlwaysFrom b (Work.about f) j s post ↔ Always b (f j) s fun a s' => post a j s' := by
  rw [Work.about, alwaysFrom_bind, alwaysFrom_get, always_ask]

theorem always_changeResource (f : Resource → Resource) (post : Unit → Job → S → Prop) :
    AlwaysFrom b (Work.changeResource f) j s post ↔
      post () { j with resource := f j.resource } s := Iff.rfl

/-- Entering a stage counts the transition and moves the entry. -/
theorem always_enter (action : Action) (stage : Stage) (post : Unit → Job → S → Prop) :
    AlwaysFrom b (Work.enter action stage) j s post ↔
      ∀ u s', b.may s (.count (.transition stage.label action.workName)) u s' →
        post () { j with entry := j.entry.setStage stage } s' := Iff.rfl

end Work

end ReleaseOperator
