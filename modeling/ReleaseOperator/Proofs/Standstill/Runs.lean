import ReleaseOperator.Proofs.Executions.Series
import ReleaseOperator.Proofs.Standstill.Steps

/-!
# Runs that stop where they began

A run that is stopped at the stage at which it began was stopped by the work of that stage, the
first thing that it did. So what is known of a single stage is known of such a run: when the same
stage stops the next run as well, that one writes nothing.
-/

namespace ReleaseOperator

open InMemory Program

namespace Stage.Result

/-- Only an outcome that asks to come back stops a run. -/
theorem ofOutcome_eq_stop_iff {o o' : Outcome} :
    ofOutcome o = .stop o' ↔ o = o' ∧ o.requeue = true := by
  unfold ofOutcome
  split
  · rename_i ho
    exact ⟨fun h => ⟨stop.inj h, ho⟩, fun h => congrArg stop h.1⟩
  · rename_i ho
    exact ⟨fun h => (by cases h), fun h => absurd h.2 ho⟩

end Stage.Result

namespace Worker

variable {S : Type} {b : Conduct S} {w : Worker Work} {st : Stage} {j : Job} {s : S}

/-- A stage leaves the entry where it is, and what stops it asks to come back. -/
theorem always_stage (still : w.Still b) (st : Stage) (j : Job) (s : S) :
    AlwaysFrom b (w.stage Work.surroundings st) j s fun res j' _ =>
      j'.entry.stage = j.entry.stage ∧ ∀ o, res = .stop o → o.requeue = true := by
  have hstep : ∀ work, (st, work) ∈ w.steps →
      AlwaysFrom b (Stage.Result.ofOutcome <$> work) j s fun res j' _ =>
        j'.entry.stage = j.entry.stage ∧ ∀ o, res = .stop o → o.requeue = true := by
    intro work hmem
    rw [alwaysFrom_map]
    refine (still.steps st work hmem j s).mono fun o j' _ hstage => ⟨hstage, ?_⟩
    intro o' ho'
    obtain ⟨rfl, hrequeue⟩ := Stage.Result.ofOutcome_eq_stop_iff.1 ho'
    exact hrequeue
  cases st with
  | start => exact ⟨rfl, fun _ h => by cases h⟩
  | finish => exact ⟨rfl, fun _ h => by cases h⟩
  | checkNeeded =>
      rw [stage, alwaysFrom_bind]
      refine (still.isNeeded j s).mono ?_
      rintro ⟨needed, o⟩ j' _ hstage
      refine ⟨hstage, fun o' ho' => ?_⟩
      dsimp only at ho'
      split at ho'
      · rename_i ho
        cases ho'
        exact ho
      · split at ho' <;> cases ho'
  | awaitWork =>
      rw [stage, alwaysFrom_bind]
      refine (still.isDone j s).mono ?_
      rintro ⟨done, o⟩ j' s' hstage
      dsimp only
      split
      · rename_i ho
        refine ⟨hstage, ?_⟩
        rintro _ ⟨⟩
        exact ho
      · split
        · exact ⟨hstage, fun _ h => by cases h⟩
        · rw [alwaysFrom_bind]
          refine (Work.always_ask _ _).2 (Pass.always_shortDelay fun d _ _ => ⟨hstage, ?_⟩)
          rintro _ ⟨⟩
          rfl
  | _ => exact hstep _ (by simp [steps])

/-- A run never goes back, and one that does not ask to come back has got to the end. -/
theorem always_run_onward (still : w.Still b) (hj : j.entry.stage = st) :
    AlwaysFrom b (w.run Work.surroundings st) j s fun o j' _ =>
      st.rank ≤ j'.entry.stage.rank ∧ (o.requeue = false → j'.entry.stage = .finish) := by
  refine always_run (fun x j _ => j.entry.stage = x ∧ st.rank ≤ x.rank)
    (fun o j' _ => st.rank ≤ j'.entry.stage.rank ∧ (o.requeue = false → j'.entry.stage = .finish))
    ?_ ?_ ⟨hj, Nat.le_refl _⟩
  · rintro x j s hx ⟨rfl, hle⟩
    refine (always_stage still _ j s).mono ?_
    rintro (_ | _ | o) j' s' ⟨hstage, hstop⟩
    · have hnext : j.entry.stage.next.rank = j.entry.stage.rank + 1 := Stage.rank_next hx
      rw [After, Work.always_enter]
      exact fun _ _ _ => ⟨rfl, by omega⟩
    · rw [After, Work.always_enter]
      refine fun _ _ _ => ⟨?_, fun _ => rfl⟩
      change st.rank ≤ 10
      cases st <;> decide
    · refine ⟨hstage ▸ hle, fun ho => ?_⟩
      rw [hstop o rfl] at ho
      cases ho
  · rintro j s ⟨hfinish, hle⟩
    exact ⟨hfinish ▸ hle, fun _ => hfinish⟩

/-- A run that ends at the stage where it began was stopped there. -/
theorem always_run_stopped (still : w.Still b) (hst : st ≠ .finish)
    {post : Job → S → Prop}
    (h : AlwaysFrom b (w.stage Work.surroundings st) j s fun res j' s' =>
      (∃ o, res = .stop o) → post j' s') :
    AlwaysFrom b (w.run Work.surroundings st) j s fun _ j' s' =>
      j'.entry.stage = st → post j' s' := by
  rw [run_of_ne_finish hst, alwaysFrom_bind]
  refine h.mono ?_
  rintro (_ | _ | o) j' s' hpost
  · rw [alwaysFrom_bind]
    refine (Work.always_enter _ _ _).2 fun _ s'' _ => ?_
    have hentered : ({ j' with entry := j'.entry.setStage st.next } : Job).entry.stage = st.next :=
      rfl
    refine (always_run_onward still hentered).mono ?_
    rintro o j'' _ ⟨hle, _⟩ hback
    rw [hback, Stage.rank_next hst] at hle
    omega
  · rw [alwaysFrom_bind]
    exact (Work.always_enter _ _ _).2 fun _ _ _ hback => absurd hback.symm hst
  · exact fun _ => hpost ⟨o, rfl⟩

end Worker

namespace Work

variable {replies : Replies} {kind : Kind} {ns name : String} {s s₁ : Store} {j j₁ : Job}
  {setup : Setup} {st : Stage} {action : Action} {r : Resource}

/-! ### Side by side -/

/-- Asking whether work is needed, or done, writes nothing. -/
theorem always_isNeeded_store (action : Action) (j : Job) (u : Dialogue) :
    AlwaysFrom (Dialogue.conduct replies) (Worker.forAction setup action).isNeeded j u fun _ _ u' =>
      u'.store = u.store := by
  cases action <;> rfl

theorem always_isDone_store (action : Action) (j : Job) (u : Dialogue) :
    AlwaysFrom (Dialogue.conduct replies) (Worker.forAction setup action).isDone j u fun _ _ u' =>
      u'.store = u.store := by
  have hready : AlwaysFrom (Dialogue.conduct replies) (isReady setup) j u fun _ _ u' =>
      u'.store = u.store := by
    rw [always_isReady]
    exact Dialogue.always_quiet (Pass.quiet_isReady setup j)
  cases action with
  | install | update | upgrade => exact hready
  | delete =>
      change AlwaysFrom _ (isGone setup) j u _
      unfold isGone
      split
      · rfl
      · rw [alwaysFrom_bind, alwaysFrom_get, alwaysFrom_bind, always_ask]
        refine (Dialogue.always_quiet (Pass.quiet_releaseInfo _ _)).mono ?_
        rintro (e | info) u₁ hu₁
        · rw [always_ask]
          exact (Dialogue.always_quiet (Pass.quiet_unanswered _)).mono fun _ _ hsame =>
            hsame.trans hu₁
        · exact hu₁

/-- A stage that stops two runs has nothing new to say in the second one. -/
theorem echoes_stage (h : Echo kind ns name s s₁ j j₁) (hnames : replies.NamesVersions)
    (setup : Setup) (action : Action) (st : Stage) :
    EchoesWhere (fun res => ∃ o, res = .stop o) replies ns name s s₁ j j₁
      ((Worker.forAction setup action).stage surroundings st)
      ((Worker.forAction setup action).stage surroundings st) := by
  have hstep : ∀ work, (st, work) ∈ (Worker.forAction setup action).steps →
      EchoesWhere (fun res => ∃ o, res = .stop o) replies ns name s s₁ j j₁
        (Stage.Result.ofOutcome <$> work) (Stage.Result.ofOutcome <$> work) := by
    intro work hmem u v hu hv huv
    rw [pairedFrom_iff, alwaysFrom_map]
    refine (pairedFrom_iff.1 (echoes_step h hnames hmem u v hu hv huv)).mono ?_
    intro o k u' hwork
    rw [alwaysFrom_map]
    refine hwork.mono ?_
    rintro o' k' v' hsame ⟨_, hstop⟩ hleft ⟨_, hstop'⟩
    exact hsame (Stage.Result.ofOutcome_eq_stop_iff.1 hstop).2 hleft
      (Stage.Result.ofOutcome_eq_stop_iff.1 hstop').2
  -- At the other stages the second run writes nothing, whatever became of the first one.
  cases st with
  | start | finish => exact echoes_of_second fun _ hv => hv
  | checkNeeded =>
      refine echoes_of_second fun v hv => ?_
      rw [Worker.stage, alwaysFrom_bind]
      exact (always_isNeeded_store action j₁ v).mono fun _ _ _ hsame => hsame.trans hv
  | awaitWork =>
      refine echoes_of_second fun v hv => ?_
      rw [Worker.stage, alwaysFrom_bind]
      refine (always_isDone_store action j₁ v).mono ?_
      rintro ⟨done, o⟩ _ v₁ hsame
      dsimp only
      split
      · exact hsame.trans hv
      · split
        · exact hsame.trans hv
        · rw [alwaysFrom_bind]
          exact (always_ask _ _).2 ((Dialogue.always_quiet Pass.quiet_shortDelay).mono
            fun _ _ hsame' => (hsame'.trans hsame).trans hv)
  | _ => exact hstep _ (by simp [Worker.steps])

/-! ### The work on a resource -/

section Tending

variable {S : Type} {b : Conduct S} {x y : S} {post : Job → S → Prop}

/-- The work on a resource, whether it lives or is being deleted. -/
def tend (setup : Setup) (deleting : Bool) : Work Outcome :=
  if deleting then Prod.snd <$> clear setup else live setup

/-- The action that is due for a resource under an entry, if that is known. -/
def due? (deleting : Bool) (e : Entry) : Option Action :=
  if deleting then some .delete else e.action

/-- Work that ends at the stage where it began is the run of the action that is due. -/
theorem always_tend {deleting : Bool} (hdue : due? deleting j.entry = some action)
    (hst : st ≠ .finish) (hj : j.entry.stage = st)
    (h : AlwaysFrom b (perform setup action) j x fun _ j' y => j'.entry.stage = st → post j' y) :
    AlwaysFrom b (tend setup deleting) j x fun _ j' y => j'.entry.stage = st → post j' y := by
  cases deleting with
  | true =>
      obtain rfl : Action.delete = action := Option.some.inj hdue
      have hend : AlwaysFrom b (perform setup .delete) j x fun o j' _ =>
          o.requeue = false → j'.entry.stage = .finish := by
        rw [always_perform]
        exact (Worker.always_run_onward (Worker.still_forAction setup .delete) rfl).mono
          fun _ _ _ honward => honward.2
      change AlwaysFrom b (Prod.snd <$> clear setup) j x _
      rw [alwaysFrom_map, always_clear]
      refine (hend.and h).mono ?_
      rintro o j' y ⟨hend, hpost⟩
      split
      · exact hpost
      · rename_i ho
        have hfinish : j'.entry.stage = .finish := hend (Bool.eq_false_iff.2 ho)
        refine always_iff_runs.2 fun or z _ => ?_
        split <;> exact fun hback => absurd (hback.symm.trans hfinish) hst
  | false =>
      change AlwaysFrom b (live setup) j x _
      rw [always_live, if_neg (by rw [hj]; exact hst), always_runPinned]
      have haction : j.entry.action = some action := hdue
      rw [haction]
      exact h

/-- Work that ends at the stage where it began was stopped by the work of that stage. -/
theorem always_tend_stopped {deleting : Bool} (hdue : due? deleting j.entry = some action)
    (hst : st ≠ .finish) (hj : j.entry.stage = st)
    (h : AlwaysFrom b ((Worker.forAction setup action).stage surroundings st) j x
      fun res j' y => (∃ o, res = .stop o) → post j' y) :
    AlwaysFrom b (tend setup deleting) j x fun _ j' y => j'.entry.stage = st → post j' y := by
  refine always_tend hdue hst hj ?_
  rw [always_perform, hj]
  exact Worker.always_run_stopped (Worker.still_forAction setup action) hst h

end Tending

/-- When work ends twice at the stage where it began, and was begun the second time on the
resource as it was left, the second time nothing is written. -/
theorem always_tend_twice (h : Echo kind ns name s s₁ j j₁) (hnames : replies.NamesVersions)
    {deleting : Bool} (hdue : due? deleting j.entry = some action)
    (hdue₁ : due? deleting j₁.entry = some action) (hst : st ≠ .finish)
    (hj : j.entry.stage = st) (hj₁ : j₁.entry.stage = st) {u v : Dialogue} (hu : u.store = s)
    (hv : v.store = s₁) (huv : u.asked = v.asked) :
    AlwaysFrom (Dialogue.conduct replies) (tend setup deleting) j u fun _ j' u' =>
      j'.entry.stage = st → u'.store.get? ns name = some j₁.resource →
        AlwaysFrom (Dialogue.conduct replies) (tend setup deleting) j₁ v fun _ j₁' v' =>
          j₁'.entry.stage = st → v'.store = s₁ := by
  refine always_tend_stopped hdue hst hj ?_
  refine (pairedFrom_iff.1 (echoes_stage h hnames setup action st u v hu hv huv)).mono ?_
  intro _ _ u' hsecond hstop hleft
  refine always_tend_stopped hdue₁ hst hj₁ (hsecond.mono ?_)
  exact fun _ _ _ hsame hstop' => hsame hstop hleft hstop'

/-- From the first stage a run always goes on, so nothing is written unless no action could be
chosen. -/
theorem always_tend_start (setup : Setup) (deleting : Bool) (hj : j.entry.stage = .start)
    (u : Dialogue) :
    AlwaysFrom (Dialogue.conduct replies) (tend setup deleting) j u fun _ j' u' =>
      j'.entry.stage = .start → u'.store = u.store := by
  cases hdue : due? deleting j.entry with
  | some action =>
      refine always_tend_stopped hdue (by decide) hj ?_
      rintro ⟨o, ho⟩
      cases ho
  | none =>
      cases deleting with
      | true => cases hdue
      | false =>
          change AlwaysFrom _ (live setup) j u _
          rw [always_live, if_neg (by rw [hj]; decide), always_runPinned]
          have haction : j.entry.action = none := hdue
          rw [haction]
          refine (Dialogue.always_quiet (Pass.quiet_chooseAction j)).mono ?_
          rintro (o | action) u₁ hsame
          · exact fun _ => hsame
          · dsimp only
            rw [always_perform, show (j.entry.pin action).stage = .start from hj]
            refine Worker.always_run_stopped (Worker.still_forAction setup action) (by decide) ?_
            rintro ⟨o, ho⟩
            cases ho

/-! ### What is left -/

/-- While work is under way: the resource in hand is the stored one, which is the one that the
work began with but for its status, and the action is the same. -/
structure Remains (kind : Kind) (ns name : String) (r : Resource) (a : Option Action) (j : Job)
    (t : Dialogue) : Prop where
  keyed : t.store.Keyed kind
  stored : t.store.get? ns name = some j.resource
  restated : r.Restated j.resource
  action : j.entry.action = a

/-- When work has stopped: a stored resource of the same generation is the one that the work
began with but for its status, and the action is the same. -/
structure Leaves (kind : Kind) (ns name : String) (r : Resource) (a : Option Action) (e : Entry)
    (t : Dialogue) : Prop where
  keyed : t.store.Keyed kind
  restated : ∀ new, t.store.get? ns name = some new → new.generation = r.generation →
    r.Restated new
  action : e.action = a

namespace Remains

variable {a : Option Action} {t t' : Dialogue}

theorem leaves (h : Remains kind ns name r a j t) : Leaves kind ns name r a j.entry t := by
  refine ⟨h.keyed, fun new hnew _ => ?_, h.action⟩
  obtain rfl := Option.some.inj (h.stored.symm.trans hnew)
  exact h.restated

theorem of_store (h : Remains kind ns name r a j t) (hsame : t'.store = t.store) :
    Remains kind ns name r a j t' :=
  ⟨hsame ▸ h.keyed, hsame ▸ h.stored, h.restated, h.action⟩

end Remains

theorem Leaves.of_store {a : Option Action} {e : Entry} {t t' : Dialogue}
    (h : Leaves kind ns name r a e t) (hsame : t'.store = t.store) :
    Leaves kind ns name r a e t' :=
  ⟨hsame ▸ h.keyed, hsame ▸ h.restated, h.action⟩

/-- All operations keep to that: only the writing down of a version changes more of a resource
than its status, and that makes a new generation. -/
theorem upheld_remains (hnames : replies.NamesVersions) (a : Option Action) :
    Upheld (Dialogue.conduct replies) setup (fun _ => True) (Remains kind ns name r a)
      (Leaves kind ns name r a) where
  stop h := h.leaves
  look hquiet h hmay := h.of_store (Dialogue.store_of_may (Or.inl hquiet) hmay)
  draw h hmay := h.of_store (Dialogue.store_of_may (Or.inl rfl) hmay)
  entry e _ haction _ h := ⟨h.keyed, h.stored, h.restated, haction.trans h.action⟩
  status {j s w reason} h hw _ := by
    refine (Dialogue.always_persistStatus h.keyed h.stored hw.metadata).mono ?_
    rintro ⟨o, new⟩ t ⟨rfl, hkeyed, hstored, hrestated, _⟩
    exact ⟨hkeyed, hstored, h.restated.trans hrestated, h.action⟩
  pin {j s t credentials version} h hempty hmay := by
    have ht := h.of_store (Dialogue.store_of_may (Or.inr rfl) hmay)
    have hversion := hnames _ _ _ _ (Dialogue.answered_of_isOutward rfl hmay).1.symm
    refine (always_written ht.keyed ht.stored hempty hversion).mono ?_
    rintro _ t' ⟨hkeyed, hnext⟩
    refine ⟨hkeyed, fun new hnew hgeneration => absurd ?_ (hnext new hnew), h.action⟩
    exact hgeneration.trans h.restated.generation.symm
  apply h _ hmay := h.of_store (Dialogue.store_of_may (Or.inr rfl) hmay)
  applied h _ _ hmay := by
    have ht := h.of_store (Dialogue.store_of_may (Or.inr rfl) hmay)
    exact ⟨ht.keyed, ht.stored, ht.restated, ht.action⟩
  rehearsed _ _ h := ⟨h.keyed, h.stored, h.restated, h.action⟩
  remove h hmay := h.of_store (Dialogue.store_of_may (Or.inr rfl) hmay)

/-- What is left of a resource by work that ends at the stage where it began. -/
theorem always_tend_leaves (hnames : replies.NamesVersions) {deleting : Bool}
    (hdue : due? deleting j.entry = some action) (hst : st ≠ .finish) (hj : j.entry.stage = st)
    {u : Dialogue} (hkeyed : u.store.Keyed kind)
    (hstored : u.store.get? ns name = some j.resource) :
    AlwaysFrom (Dialogue.conduct replies) (tend setup deleting) j u fun _ j' u' =>
      j'.entry.stage = st → Leaves kind ns name j.resource j.entry.action j'.entry u' := by
  have U : Upheld (Dialogue.conduct replies) setup (fun _ => True)
      (Remains kind ns name j.resource j.entry.action)
      (Leaves kind ns name j.resource j.entry.action) := upheld_remains hnames _
  refine always_tend hdue hst hj ?_
  refine (U.perform Upheld.recordsAll_true (fun _ _ _ h => ⟨h.1, h.2, h.3, h.4⟩)
    ⟨hkeyed, hstored, .refl _, rfl⟩ action).mono ?_
  exact fun _ _ _ hproceeds _ => U.halted_of_proceeds hproceeds

end Work

end ReleaseOperator
