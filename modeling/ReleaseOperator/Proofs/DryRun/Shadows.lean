import ReleaseOperator.Proofs.Commuting.Commons
import ReleaseOperator.Proofs.Pinning.Plain

/-!
# Shadows of runs

A run that does something to releases may be followed by one that does nothing to them. The
follower starts from the same stores, over releases of its own, and is answered like the leader
as far as it asks the same; it ends with the same result and the same stores, and its releases
stay as they are. Such a follower is the shadow of the run. Oblivious programs are shadows of
themselves, and the shadow of a sequence is that of its parts.
-/

namespace ReleaseOperator

open InMemory Program

variable {H α β σ : Type} {rules : Rules H} {s t : Commons H}

namespace Commons

/-- The commons with other releases. -/
def withReleases (s : Commons H) (releases : String × String → H) : Commons H := { s with releases }

theorem write_over (s : Commons H) (releases : String × String → H)
    (refusal : Option ClusterError) (kind : Kind)
    (made : Except ClusterError Resource × Store) :
    (s.withReleases releases).write refusal kind made =
      ((s.write refusal kind made).1, (s.write refusal kind made).2.withReleases releases) := by
  cases refusal with
  | some e => rfl
  | none => rfl

theorem releases_write (s : Commons H) (refusal : Option ClusterError) (kind : Kind)
    (made : Except ClusterError Resource × Store) :
    (s.write refusal kind made).2.releases = s.releases := by
  cases refusal with
  | some e => rfl
  | none => rfl

theorem setRelease_self (s : Commons H) (place : String × String) :
    s.setRelease place (s.releases place) = s := by
  rw [setRelease]
  congr
  funext p
  split
  · rename_i h
    rw [h]
  · rfl

end Commons

namespace Rules

/-- The version of a chart has nothing to do with how a release stands. -/
def Impartial (rules : Rules H) : Prop :=
  ∀ r credentials, ∃ answer, ∀ h, rules.helm (.chartVersion r credentials) h = (answer, h)

/-- An oblivious call is answered the same over other releases, and changes none. -/
theorem Impartial.answered_over (hrules : rules.Impartial) {c : Call} {a : c.Answer}
    (hc : c.isOblivious = true) (h : rules.Answered s c a t) (releases : String × String → H) :
    rules.Answered (s.withReleases releases) c a (t.withReleases releases) ∧
      t.releases = s.releases := by
  have hwrite : ∀ {answer : Except ClusterError Resource} {refusal kind made},
      (answer, t) = s.write refusal kind made →
      (answer, t.withReleases releases) = (s.withReleases releases).write refusal kind made ∧
        t.releases = s.releases := by
    intro answer refusal kind made hw
    rw [Commons.write_over, ← hw]
    exact ⟨rfl, (congrArg (fun at' => at'.2.releases) hw).trans (s.releases_write _ _ _)⟩
  rcases c with (_ | w | w) | c | (_ | _ | _ | _ | _ | ⟨r, credentials⟩) | _ | _ | _ | _
  case store.get =>
    obtain ⟨ha, rfl⟩ := h
    exact ⟨⟨ha, rfl⟩, rfl⟩
  case store.update => exact hwrite h
  case store.updateStatus => exact hwrite h
  case cluster =>
    obtain ⟨ha, rfl⟩ := h
    exact ⟨⟨ha, rfl⟩, rfl⟩
  case helm.chartVersion =>
    obtain ⟨answer, hanswer⟩ := hrules r credentials
    obtain ⟨ha, ht⟩ := h
    rw [hanswer] at ha ht
    rw [Commons.setRelease_self] at ht
    subst ht
    refine ⟨⟨?_, ?_⟩, rfl⟩
    · rw [hanswer]
      exact ha
    · rw [hanswer]
      exact (Commons.setRelease_self _ _).symm
  case hook =>
    obtain ⟨ha, rfl⟩ := h
    exact ⟨⟨ha, rfl⟩, rfl⟩
  case now =>
    obtain rfl : t = s := h
    exact ⟨rfl, rfl⟩
  case draw =>
    obtain rfl : t = s := h
    exact ⟨rfl, rfl⟩
  case count =>
    obtain rfl : t = s := h
    exact ⟨rfl, rfl⟩
  all_goals exact absurd hc Bool.false_ne_true

end Rules

/-- Whatever is answered, the program ends in the postcondition, and over any releases its
shadow can end in the same way. -/
def Shadowed (rules : Rules H) (p p' : Pass α) (s : Commons H) (post : α → Commons H → Prop) :
    Prop :=
  Always rules.conduct p s fun a t =>
    post a t ∧
      ∀ releases, Runs rules.conduct p' (s.withReleases releases) a (t.withReleases releases)

/-- The same for programs that carry a state of their own. -/
def ShadowedFrom (rules : Rules H) (w w' : StateT σ Pass α) (x : σ) (s : Commons H)
    (post : α → σ → Commons H → Prop) : Prop :=
  Shadowed rules (w.run x) (w'.run x) s fun ax t => post ax.1 ax.2 t

theorem Shadowed.mono {p p' : Pass α} {post post' : α → Commons H → Prop}
    (h : Shadowed rules p p' s post) (himp : ∀ a t, post a t → post' a t) :
    Shadowed rules p p' s post' :=
  Always.mono h fun a t h' => ⟨himp a t h'.1, h'.2⟩

theorem shadowed_bind {p p' : Pass α} {f f' : α → Pass β} {post : β → Commons H → Prop}
    (h : Shadowed rules p p' s fun a t => Shadowed rules (f a) (f' a) t post) :
    Shadowed rules (p >>= f) (p' >>= f') s post := by
  rw [Shadowed, always_bind]
  refine Always.mono h ?_
  rintro a t ⟨hf, hrun⟩
  refine Always.mono hf ?_
  rintro c u ⟨hpost, hrun'⟩
  exact ⟨hpost, fun releases => (hrun releases).bind (hrun' releases)⟩

/-- An oblivious program is its own shadow, and leaves the releases as they are. -/
theorem shadowed_of_oblivious (hrules : rules.Impartial) {p : Pass α} (hp : Pass.Oblivious p)
    {post : α → Commons H → Prop} (h : Always rules.conduct p s post) :
    Shadowed rules p p s fun a t => post a t ∧ t.releases = s.releases := by
  induction p generalizing s with
  | done a => exact ⟨⟨h, rfl⟩, fun releases => .done a _⟩
  | ask q next ih =>
      intro a t hmay
      refine Always.mono (ih a (hp.2 a) (h a t hmay)) ?_
      rintro c u ⟨⟨hpost, hkept⟩, hrun⟩
      refine ⟨⟨hpost, hkept.trans (hrules.answered_over hp.1 hmay s.releases).2⟩, ?_⟩
      exact fun releases => .ask (hrules.answered_over hp.1 hmay releases).1 (hrun releases)

variable {x : σ}

theorem ShadowedFrom.mono {w w' : StateT σ Pass α} {post post' : α → σ → Commons H → Prop}
    (h : ShadowedFrom rules w w' x s post) (himp : ∀ a y t, post a y t → post' a y t) :
    ShadowedFrom rules w w' x s post' :=
  Shadowed.mono h fun ax t => himp ax.1 ax.2 t

theorem shadowedFrom_pure (a : α) {post : α → σ → Commons H → Prop} (h : post a x s) :
    ShadowedFrom rules (pure a) (pure a) x s post :=
  ⟨h, fun _ => .done (a, x) _⟩

theorem shadowedFrom_bind {w w' : StateT σ Pass α} {f f' : α → StateT σ Pass β}
    {post : β → σ → Commons H → Prop}
    (h : ShadowedFrom rules w w' x s fun a y t => ShadowedFrom rules (f a) (f' a) y t post) :
    ShadowedFrom rules (w >>= f) (w' >>= f') x s post := by
  rw [ShadowedFrom, StateT.run_bind, StateT.run_bind]
  exact shadowed_bind h

/-- What is done with the state itself. -/
theorem shadowedFrom_get {f f' : σ → StateT σ Pass α} {post : α → σ → Commons H → Prop}
    (h : ShadowedFrom rules (f x) (f' x) x s post) :
    ShadowedFrom rules (get >>= f) (get >>= f') x s post := h

theorem shadowedFrom_modify (g : σ → σ) {f f' : PUnit → StateT σ Pass α}
    {post : α → σ → Commons H → Prop} (h : ShadowedFrom rules (f ⟨⟩) (f' ⟨⟩) (g x) s post) :
    ShadowedFrom rules (modify g >>= f) (modify g >>= f') x s post := h

theorem shadowedFrom_lift {p p' : Pass α} {post : α → σ → Commons H → Prop}
    (h : Shadowed rules p p' s fun a t => post a x t) :
    ShadowedFrom rules (StateT.lift p) (StateT.lift p') x s post := by
  refine shadowed_bind (h.mono ?_)
  intro a t hpost
  exact ⟨hpost, fun _ => .done (a, x) _⟩

theorem shadowedFrom_of_oblivious (hrules : rules.Impartial) {w : StateT σ Pass α}
    (hw : Pass.Oblivious (w.run x)) {post : α → σ → Commons H → Prop}
    (h : AlwaysFrom rules.conduct w x s post) :
    ShadowedFrom rules w w x s fun a y t => post a y t ∧ t.releases = s.releases :=
  shadowed_of_oblivious hrules hw h

/-- The leader asks something that its shadow does not ask. -/
theorem shadowedFrom_ahead {w : StateT σ Pass α} {f : α → StateT σ Pass β} {w' : StateT σ Pass β}
    {post : β → σ → Commons H → Prop}
    (h : AlwaysFrom rules.conduct w x s fun a y t =>
      y = x ∧ t.store = s.store ∧ ShadowedFrom rules (f a) w' x t post) :
    ShadowedFrom rules (w >>= f) w' x s post := by
  rw [ShadowedFrom, StateT.run_bind, Shadowed, always_bind]
  refine Always.mono h ?_
  rintro ⟨a, y⟩ t ⟨rfl, hstore, hf⟩
  refine Always.mono hf ?_
  rintro b u ⟨hpost, hrun⟩
  refine ⟨hpost, fun releases => ?_⟩
  have hover : s.withReleases releases = t.withReleases releases := by
    rw [Commons.withReleases, Commons.withReleases, hstore]
  rw [hover]
  exact hrun releases

theorem shadowedFrom_map (f : α → β) {w w' : StateT σ Pass α} {post : β → σ → Commons H → Prop}
    (h : ShadowedFrom rules w w' x s fun a => post (f a)) :
    ShadowedFrom rules (f <$> w) (f <$> w') x s post := by
  rw [← bind_pure_comp, ← bind_pure_comp]
  exact shadowedFrom_bind (h.mono fun a _ _ hpost => shadowedFrom_pure (f a) hpost)

/-! ### Runs of workers -/

/-- A job whose work has entered a stage. -/
def Job.enter (j : Job) (st : Stage) : Job := { j with entry := j.entry.setStage st }

/-- A stage is entered by the leader and by its shadow. -/
theorem shadowedFrom_enter (action : Action) (st : Stage) {j : Job} {f f' : Unit → Work α}
    {post : α → Job → Commons H → Prop}
    (h : ShadowedFrom rules (f ()) (f' ()) (j.enter st) s post) :
    ShadowedFrom rules (Work.enter action st >>= f) (Work.enter action st >>= f') j s post := by
  refine shadowedFrom_bind ?_
  intro u t ht
  obtain rfl : t = s := ht
  exact ⟨h, fun _ => .ask (r := u) rfl (.done _ _)⟩

/-- What the result of a stage leads to, for a run whose stages have conditions of their own. -/
def Stage.Result.Leads (next : Stage → Job → Commons H → Prop)
    (stop : Outcome → Job → Commons H → Prop) (st : Stage) (result : Stage.Result) (j : Job)
    (s : Commons H) : Prop :=
  match result with
  | .advance => next st.next (j.enter st.next) s
  | .skip => stop .done (j.enter .finish) s
  | .stop o => stop o j s

/-- A run of stages is shadowed when each of its stages is. -/
theorem shadowed_run {w w' : Worker Work} (haction : w'.action = w.action)
    {next : Stage → Job → Commons H → Prop} {stop : Outcome → Job → Commons H → Prop}
    (hstage : ∀ st j s, st ≠ .finish → next st j s →
      ShadowedFrom rules (w.stage Work.surroundings st) (w'.stage Work.surroundings st) j s
        (Stage.Result.Leads next stop st))
    (hfinish : ∀ j s, next .finish j s → stop .done j s) {st : Stage} {j : Job} {s : Commons H}
    (h : next st j s) :
    ShadowedFrom rules (w.run Work.surroundings st) (w'.run Work.surroundings st) j s stop := by
  by_cases hst : st = .finish
  · subst hst
    exact shadowedFrom_pure Outcome.done (hfinish j s h)
  · rw [Worker.run_of_ne_finish hst, Worker.run_of_ne_finish hst]
    refine shadowedFrom_bind ((hstage st j s hst h).mono ?_)
    rintro (_ | _ | o) j' t hres
    · have : st.next.rank = st.rank + 1 := Stage.rank_next hst
      have hres : next st.next (j'.enter st.next) t := hres
      dsimp only
      rw [haction]
      exact shadowedFrom_enter _ _ (shadowed_run haction hstage hfinish hres)
    · have hres : stop .done (j'.enter .finish) t := hres
      dsimp only
      rw [haction]
      exact shadowedFrom_enter _ _ (shadowedFrom_pure Outcome.done hres)
    · exact shadowedFrom_pure o hres
termination_by 10 - st.rank
decreasing_by
  have h10 : st.rank < 10 := by
    cases st <;> first | decide | exact absurd rfl hst
  omega

end ReleaseOperator
