import ReleaseOperator.Machine.Script
import ReleaseOperator.Proofs.Invariants

/-!
# The way of an execution

One stage either hands on to the next, skips to the end, or stops the execution. `Shows`
says which moves go with which of the three, and `Passage` puts them together along the
stages. Every execution of a worker whose steps leave the stage of the entry alone is such
a passage, whatever the steps answer.
-/

namespace ReleaseOperator

open Program

/-!
## What an execution shows

An execution of a worker takes its work up at the stage that the entry has reached. Which
steps it calls cannot be seen from its outcome, and not from its questions either, since a
step may ask anything. So the worker is made to tell: each step notes that it was called,
with its answer and with the questions that it asked, and the surroundings note the stages
that are entered. The telling worker is run by the same machine, and forgetting what it
tells gives back the run of the worker itself.
-/

/-! ### Questions heard -/

namespace Program

variable {Q : Type} {A : Q → Type} {S α β : Type} {b : Behaviour Q A S}

/-- A program that also gives the questions it asked, in order. -/
def heard : Program Q A α → Program Q A (α × List Q)
  | done a => done (a, [])
  | ask q next => ask q fun r => (heard (next r)).bind fun x => done (x.1, q :: x.2)

theorem fst_heard (p : Program Q A α) : Prod.fst <$> p.heard = p := by
  rw [← bind_pure_comp, bind_eq]
  induction p with
  | done a => rfl
  | ask q next ih =>
      rw [heard, bind_ask]
      congr 1
      funext r
      rw [bind_assoc]
      exact ih r

end Program

/-- The behaviour, with the questions asked so far kept in order. -/
def Behaviour.hearing {Q : Type} {A : Q → Type} {S : Type} (b : Behaviour Q A S) :
    Behaviour Q A (S × List Q) where
  may s q a t := b.may s.1 q a t.1 ∧ t.2 = s.2 ++ [q]
  answers s q := by
    obtain ⟨a, t, hmay⟩ := b.answers s.1 q
    exact ⟨a, (t, s.2 ++ [q]), hmay, rfl⟩

namespace Program

variable {Q : Type} {A : Q → Type} {S α : Type} {b : Behaviour Q A S}

/-- What a program says it asked is what was heard. -/
theorem Always.heard {p : Program Q A α} {s : S} {asked : List Q} {post : α → S → Prop}
    (h : Always b p s post) :
    Always b.hearing p.heard (s, asked) fun x t => post x.1 t.1 ∧ t.2 = asked ++ x.2 := by
  induction p generalizing s asked with
  | done a => exact ⟨h, (List.append_nil _).symm⟩
  | ask q next ih =>
      rintro r ⟨t, _⟩ ⟨hmay, rfl⟩
      change Always b.hearing ((next r).heard >>= fun x => done (x.1, q :: x.2)) _ _
      rw [always_bind]
      refine (ih r (h r t hmay)).mono ?_
      rintro x t' ⟨hpost, ht'⟩
      exact ⟨hpost, by rw [ht', List.append_assoc, List.singleton_append]⟩

end Program

/-! ### The worker that tells -/

/-- What an execution does: it calls the step of a stage, it enters a stage, or it draws
a delay. -/
inductive Move where
  | called (step : Stage) (answer : Script.Answer) (asked : List Call)
  | entered (stage : Stage)
  | delayed

namespace Move

/-- The step called, with its answer. -/
def call? : Move → Option (Stage × Script.Answer)
  | called step answer _ => some (step, answer)
  | _ => none

/-- The stage entered. -/
def stage? : Move → Option Stage
  | entered stage => some stage
  | _ => none

/-- The question that counts the entering of a stage. -/
def count (action : Action) (stage : Stage) : Call :=
  .count (.transition stage.label action.workName)

/-- What is asked in a move: a step asks what it likes, the entering of a stage is
counted. -/
def asked (action : Action) : Move → List Call
  | called _ _ asked => asked
  | entered stage => [count action stage]
  | delayed => [.draw _ _ (Outcome.window_le 1 2 (Duration.ofSecs 1))]

end Move

/-- Work that tells its moves. -/
abbrev Told := StateT (List Move) Work

namespace Told

variable {α : Type}

/-- A step that tells that it was called. -/
def step (st : Stage) (answer : α → Script.Answer) (work : Work α) : Told α := fun moves j =>
  (fun x => ((x.1.1, moves ++ [.called st (answer x.1.1) x.2]), x.1.2)) <$> (work.run j).heard

/-- A step that ends in an outcome. -/
def outcome (st : Stage) (work : Work Outcome) : Told Outcome :=
  step st (fun o => ⟨o, true⟩) work

/-- A step that answers a question. -/
def question (st : Stage) (work : Work (Bool × Outcome)) : Told (Bool × Outcome) :=
  step st (fun r => ⟨r.2, r.1⟩) work

/-- Something else that is done in the course of a run. -/
def noting (move : Move) (work : Work α) : Told α := fun moves =>
  (fun a => (a, moves ++ [move])) <$> work

/-- The surroundings that tell. -/
def surroundings : Surroundings Told where
  enter action stage := noting (.entered stage) (Work.surroundings.enter action stage)
  shortDelay := noting .delayed Work.surroundings.shortDelay

/-- Without what it told. -/
def Forgets (told : Told α) (work : Work α) : Prop :=
  ∀ moves, Prod.fst <$> told.run moves = work

theorem Forgets.bind {β : Type} {told : Told α} {work : Work α} {f : α → Told β}
    {g : α → Work β} (h : Forgets told work) (hf : ∀ a, Forgets (f a) (g a)) :
    Forgets (told >>= f) (work >>= g) := by
  intro moves
  calc Prod.fst <$> (told >>= f).run moves
      = told.run moves >>= fun x => Prod.fst <$> (f x.1).run x.2 := by
        rw [StateT.run_bind, map_bind]
    _ = told.run moves >>= fun x => g x.1 := by
        congr 1
        funext x
        exact hf x.1 x.2
    _ = work >>= g := by
        rw [← h moves, bind_map_left]

theorem forgets_pure (a : α) : Forgets (pure a) (pure a) := fun _ => rfl

theorem forgets_step (st : Stage) (answer : α → Script.Answer) (work : Work α) :
    Forgets (step st answer work) work := by
  intro moves
  funext j
  change (fun x => (Prod.fst x.1, x.2)) <$>
    ((fun x => ((x.1.1, moves ++ [.called st (answer x.1.1) x.2]), x.1.2)) <$>
      (work.run j).heard) = work.run j
  rw [Functor.map_map]
  exact fst_heard _

theorem forgets_noting (move : Move) (work : Work α) : Forgets (noting move work) work := by
  intro moves
  change Prod.fst <$> ((fun a => (a, moves ++ [move])) <$> work) = work
  rw [Functor.map_map]
  exact id_map work

end Told

namespace Worker

/-- The worker whose steps tell that they are called. -/
def told (w : Worker Work) : Worker Told where
  action := w.action
  isNeeded := Told.question .checkNeeded w.isNeeded
  announcePreWork := Told.outcome .announcePreWork w.announcePreWork
  preWork := Told.outcome .preWork w.preWork
  announceWork := Told.outcome .announceWork w.announceWork
  work := Told.outcome .work w.work
  isDone := Told.question .awaitWork w.isDone
  announcePostWork := Told.outcome .announcePostWork w.announcePostWork
  postWork := Told.outcome .postWork w.postWork
  complete := Told.outcome .complete w.complete

variable {w : Worker Work}

theorem forgets_stage (w : Worker Work) (st : Stage) :
    Told.Forgets (w.told.stage Told.surroundings st) (w.stage Work.surroundings st) := by
  have houtcome : ∀ st work, Told.Forgets (Stage.Result.ofOutcome <$> Told.outcome st work)
      (Stage.Result.ofOutcome <$> work) := by
    intro st work
    rw [← bind_pure_comp, ← bind_pure_comp]
    exact (Told.forgets_step st _ work).bind fun _ => Told.forgets_pure _
  have hquestion : ∀ st work, Told.Forgets (Told.question st work) work :=
    fun st work => Told.forgets_step st _ work
  cases st with
  | start => exact Told.forgets_pure _
  | finish => exact Told.forgets_pure _
  | checkNeeded => exact (hquestion _ w.isNeeded).bind fun _ => Told.forgets_pure _
  | awaitWork =>
      refine (hquestion _ w.isDone).bind ?_
      rintro ⟨done, o⟩
      dsimp only
      split
      · exact Told.forgets_pure _
      · split
        · exact Told.forgets_pure _
        · exact (Told.forgets_noting _ _).bind fun _ => Told.forgets_pure _
  | announcePreWork => exact houtcome _ w.announcePreWork
  | preWork => exact houtcome _ w.preWork
  | announceWork => exact houtcome _ w.announceWork
  | work => exact houtcome _ w.work
  | announcePostWork => exact houtcome _ w.announcePostWork
  | postWork => exact houtcome _ w.postWork
  | complete => exact houtcome _ w.complete

theorem forgets_runAlong (w : Worker Work) (stages : List Stage) :
    Told.Forgets (w.told.runAlong Told.surroundings stages)
      (w.runAlong Work.surroundings stages) := by
  induction stages with
  | nil => exact Told.forgets_pure _
  | cons st rest ih =>
      rw [runAlong, runAlong]
      refine (forgets_stage w st).bind ?_
      rintro (_ | _ | o)
      · exact (Told.forgets_noting _ _).bind fun _ => ih
      · exact (Told.forgets_noting _ _).bind fun _ => Told.forgets_pure _
      · exact Told.forgets_pure _

end Worker

/-- One execution: the stage it found the entry at, its moves, its outcome, and the stage
it left the entry at. -/
structure Execution where
  found : Stage
  moves : List Move
  outcome : Outcome
  left : Stage

namespace Worker

/-- The work of a worker taken up where the entry stands. -/
def execute (w : Worker Work) : Work Outcome := do
  w.run Work.surroundings (← get).entry.stage

/-- The same, with all it shows. -/
def execution (w : Worker Work) : Work Execution := do
  let found := (← get).entry.stage
  let (o, moves) ← (w.told.run Told.surroundings found).run []
  return ⟨found, moves, o, (← get).entry.stage⟩

/-- An execution ends as the run of the worker does. -/
theorem outcome_execution (w : Worker Work) : Execution.outcome <$> w.execution = w.execute := by
  funext j
  let told := ((w.told.run Told.surroundings j.entry.stage).run []).run j
  calc (Execution.outcome <$> w.execution).run j
      = (fun x => (x.1.outcome, x.2)) <$> (told >>= fun x =>
          pure (Execution.mk j.entry.stage x.1.2 x.1.1 x.2.entry.stage, x.2)) := rfl
    _ = (fun x => (x.1.1, x.2)) <$> told := by
        rw [map_bind]
        simp only [map_pure, bind_pure_comp]
    _ = w.execute.run j := congrFun (forgets_runAlong w j.entry.stage.upcoming []) j

end Worker

namespace Work

/-- What a pass does for an action is one execution of its worker. -/
theorem perform_eq_execute (setup : Setup) (action : Action) :
    Work.perform setup action = (Worker.forAction setup action).execute := rfl

end Work

/-! ## One stage after the other -/

/-- From one to two seconds. -/
def Duration.IsShort (d : Duration) : Prop :=
  Duration.ofSecs 1 ≤ d ∧ d ≤ Duration.ofSecs 2

theorem Duration.isShort_drawn
    (n : { n : Nat // (Outcome.window 1 2 (Duration.ofSecs 1)).1 ≤ n ∧
      n ≤ (Outcome.window 1 2 (Duration.ofSecs 1)).2 }) : (Duration.ofMillis n.1).IsShort := by
  obtain ⟨n, hlow, hhigh⟩ := n
  have hwindow : Outcome.window 1 2 (Duration.ofSecs 1) = (1000, 2000) := Outcome.shortWindow_eq
  rw [hwindow] at hlow hhigh
  change 1 * 1000000000 ≤ n * 1000000 ∧ n * 1000000 ≤ 2 * 1000000000
  omega

/-- At the stage a step of the worker is called. -/
def Stage.IsStep (st : Stage) : Prop :=
  st ≠ .start ∧ st ≠ .finish

/-- The answer of a step after which the next stage is entered: it does not ask to come
back, and it says yes where it is asked. -/
def Script.Answer.LetsOn (a : Script.Answer) (st : Stage) : Prop :=
  a.outcome.requeue = false ∧ (st = .checkNeeded ∨ st = .awaitWork → a.yes = true)

/-- The moves of one stage, and what it leads to. -/
inductive Stage.Shows : Stage → List Move → Stage.Result → Prop
  | start : Shows .start [] .advance
  | onward {st : Stage} {a : Script.Answer} {asked : List Call} (step : st.IsStep)
      (on : a.LetsOn st) : Shows st [.called st a asked] .advance
  | unneeded {a : Script.Answer} {asked : List Call} (quiet : a.outcome.requeue = false)
      (no : a.yes = false) : Shows .checkNeeded [.called .checkNeeded a asked] .skip
  | requeued {st : Stage} {a : Script.Answer} {asked : List Call} (step : st.IsStep)
      (again : a.outcome.requeue = true) : Shows st [.called st a asked] (.stop a.outcome)
  | waiting {a : Script.Answer} {asked : List Call} {d : Duration}
      (quiet : a.outcome.requeue = false) (no : a.yes = false) (short : d.IsShort) :
      Shows .awaitWork [.called .awaitWork a asked, .delayed] (.stop (.after d))

/-- The moves of an execution from a stage on, its outcome, and where the entry is left. -/
inductive Passage : Stage → List Move → Outcome → Stage → Prop
  | finish : Passage .finish [] .done .finish
  | advance {st left : Stage} {moves rest : List Move} {o : Outcome} (going : st ≠ .finish)
      (shows : st.Shows moves .advance) (further : Passage st.next rest o left) :
      Passage st (moves ++ .entered st.next :: rest) o left
  | skip {st : Stage} {moves : List Move} (shows : st.Shows moves .skip) :
      Passage st (moves ++ [.entered .finish]) .done .finish
  | stop {st : Stage} {moves : List Move} {o : Outcome} (shows : st.Shows moves (.stop o)) :
      Passage st moves o st

variable {S α : Type} {b : Conduct S} {w : Worker Work} {j : Job} {s : S} {moves : List Move}
  {asked : List Call} {action : Action} {st : Stage}

/-- Work that leaves the entry at the stage where it is. -/
def Work.LeavesStage (b : Conduct S) (work : Work α) : Prop :=
  ∀ j s, AlwaysFrom b work j s fun _ j' _ => j'.entry.stage = j.entry.stage

/-- No step of the worker moves the entry to another stage. -/
structure Worker.Still (b : Conduct S) (w : Worker Work) : Prop where
  isNeeded : Work.LeavesStage b w.isNeeded
  isDone : Work.LeavesStage b w.isDone
  steps : ∀ st work, (st, work) ∈ w.steps → Work.LeavesStage b work

namespace Told

/-- What some work tells on top of what was told before, and what was heard meanwhile. -/
def Adds (action : Action) (moves : List Move) (asked : List Call) (all : List Move)
    (heard : List Call) (holds : List Move → Prop) : Prop :=
  ∃ new, all = moves ++ new ∧ heard = asked ++ new.flatMap (Move.asked action) ∧ holds new

theorem Adds.mono {all : List Move} {heard : List Call} {holds holds' : List Move → Prop}
    (h : Adds action moves asked all heard holds) (himp : ∀ new, holds new → holds' new) :
    Adds action moves asked all heard holds' := by
  obtain ⟨new, hall, hheard, hholds⟩ := h
  exact ⟨new, hall, hheard, himp new hholds⟩

theorem adds_nil {holds : List Move → Prop} (h : holds []) :
    Adds action moves asked moves asked holds :=
  ⟨[], (List.append_nil _).symm, (List.append_nil _).symm, h⟩

theorem Adds.append {all all' : List Move} {heard heard' : List Call}
    {holds holds' : List Move → Prop} (h : Adds action moves asked all heard holds)
    (h' : Adds action all heard all' heard' holds') :
    Adds action moves asked all' heard' fun new =>
      ∃ first second, new = first ++ second ∧ holds first ∧ holds' second := by
  obtain ⟨first, rfl, rfl, hfirst⟩ := h
  obtain ⟨second, rfl, rfl, hsecond⟩ := h'
  refine ⟨first ++ second, List.append_assoc .., ?_, first, second, rfl, hfirst, hsecond⟩
  rw [List.flatMap_append, List.append_assoc]

theorem always_step (action : Action) {work : Work α} (h : Work.LeavesStage b work)
    (answer : α → Script.Answer) :
    AlwaysFrom b.hearing ((Told.step st answer work).run moves) j (s, asked) fun x j' t =>
      j'.entry.stage = j.entry.stage ∧ Adds action moves asked x.2 t.2 fun new =>
        ∃ cs, new = [.called st (answer x.1) cs] := by
  change Always b.hearing ((fun x => _) <$> (work.run j).heard) _ _
  rw [always_map]
  refine (Always.heard (h j s)).mono ?_
  rintro ⟨⟨a, j'⟩, cs⟩ t ⟨hstage, ht⟩
  refine ⟨hstage, [.called st (answer a) cs], rfl, ?_, cs, rfl⟩
  rw [ht, List.flatMap_cons, List.flatMap_nil, List.append_nil]
  rfl

theorem always_outcome (action : Action) {work : Work Outcome} (h : Work.LeavesStage b work) :
    AlwaysFrom b.hearing ((Told.outcome st work).run moves) j (s, asked) fun x j' t =>
      j'.entry.stage = j.entry.stage ∧ Adds action moves asked x.2 t.2 fun new =>
        ∃ cs, new = [.called st ⟨x.1, true⟩ cs] :=
  always_step action h _

theorem always_question (action : Action) {work : Work (Bool × Outcome)}
    (h : Work.LeavesStage b work) :
    AlwaysFrom b.hearing ((Told.question st work).run moves) j (s, asked) fun x j' t =>
      j'.entry.stage = j.entry.stage ∧ Adds action moves asked x.2 t.2 fun new =>
        ∃ cs, new = [.called st ⟨x.1.2, x.1.1⟩ cs] :=
  always_step action h _

theorem always_enter (stage : Stage) :
    AlwaysFrom b.hearing ((Told.surroundings.enter action stage).run moves) j (s, asked)
      fun x j' t => j'.entry.stage = stage ∧
        Adds action moves asked x.2 t.2 fun new => new = [.entered stage] := by
  change AlwaysFrom b.hearing ((fun a => (a, moves ++ [.entered stage])) <$>
    Work.enter action stage) j (s, asked) _
  rw [alwaysFrom_map, Work.always_enter]
  rintro _ t ⟨_, ht⟩
  exact ⟨rfl, _, rfl, ht, rfl⟩

theorem always_shortDelay (action : Action) :
    AlwaysFrom b.hearing (Told.surroundings.shortDelay.run moves) j (s, asked) fun x j' t =>
      j' = j ∧ (∃ d : Duration, d.IsShort ∧ x.1 = .after d) ∧
        Adds action moves asked x.2 t.2 fun new => new = [.delayed] := by
  change AlwaysFrom b.hearing ((fun a => (a, moves ++ [.delayed])) <$>
    Work.ask Pass.shortDelay) j (s, asked) _
  rw [alwaysFrom_map, Work.always_ask, Pass.shortDelay, Pass.delay, always_map,
    Pass.always_drawDelay]
  rintro n t ⟨_, ht⟩
  exact ⟨rfl, ⟨_, Duration.isShort_drawn n, rfl⟩, _, rfl, ht, rfl⟩

end Told

namespace Worker

open Told

/-- One stage shows what it leads to, and leaves the entry where it is. -/
theorem always_shows (still : w.Still b) (hst : st ≠ .finish) :
    AlwaysFrom b.hearing ((w.told.stage Told.surroundings st).run moves) j (s, asked)
      fun x j' t => j'.entry.stage = j.entry.stage ∧
        Adds w.action moves asked x.2 t.2 fun new => st.Shows new x.1 := by
  have hwork : ∀ work, (st, work) ∈ w.steps → st.IsStep → ¬ (st = .checkNeeded ∨ st = .awaitWork) →
      AlwaysFrom b.hearing
        ((Stage.Result.ofOutcome <$> Told.outcome st work).run moves) j (s, asked)
        fun x j' t => j'.entry.stage = j.entry.stage ∧
          Adds w.action moves asked x.2 t.2 fun new => st.Shows new x.1 := by
    intro work hmem hstep hplain
    rw [StateT.run_map, alwaysFrom_map]
    refine (always_outcome w.action (still.steps st work hmem)).mono ?_
    rintro ⟨o, all⟩ j' t ⟨hstage, hadds⟩
    refine ⟨hstage, hadds.mono ?_⟩
    rintro _ ⟨cs, rfl⟩
    dsimp only
    unfold Stage.Result.ofOutcome
    split
    · rename_i ho
      exact .requeued hstep ho
    · rename_i ho
      exact .onward hstep ⟨Bool.not_eq_true _ ▸ ho, fun h => absurd h hplain⟩
  by_cases hstart : st = .start
  · subst hstart
    exact ⟨rfl, adds_nil .start⟩
  have hstep : st.IsStep := ⟨hstart, hst⟩
  cases st with
  | start => exact absurd rfl hstart
  | finish => exact absurd rfl hst
  | checkNeeded =>
      rw [stage, StateT.run_bind, alwaysFrom_bind]
      refine (always_question w.action still.isNeeded).mono ?_
      rintro ⟨⟨needed, o⟩, all⟩ j' t ⟨hstage, hadds⟩
      refine ⟨hstage, hadds.mono ?_⟩
      rintro _ ⟨cs, rfl⟩
      dsimp only
      cases ho : o.requeue with
      | true => exact .requeued hstep ho
      | false =>
          cases needed with
          | true => exact .onward hstep ⟨ho, fun _ => rfl⟩
          | false => exact .unneeded ho rfl
  | awaitWork =>
      rw [stage, StateT.run_bind, alwaysFrom_bind]
      refine (always_question w.action still.isDone).mono ?_
      rintro ⟨⟨done, o⟩, all⟩ j' t ⟨hstage, hadds⟩
      dsimp only
      cases ho : o.requeue with
      | true =>
          refine ⟨hstage, hadds.mono ?_⟩
          rintro _ ⟨cs, rfl⟩
          exact .requeued hstep ho
      | false =>
          cases done with
          | true =>
              refine ⟨hstage, hadds.mono ?_⟩
              rintro _ ⟨cs, rfl⟩
              exact .onward hstep ⟨ho, fun _ => rfl⟩
          | false =>
              simp only [Bool.false_eq_true, ↓reduceIte]
              rw [StateT.run_bind, alwaysFrom_bind]
              refine (always_shortDelay w.action).mono ?_
              rintro ⟨o', all'⟩ j'' t' ⟨rfl, ⟨d, hshort, rfl⟩, hadds'⟩
              refine ⟨hstage, (hadds.append hadds').mono ?_⟩
              rintro _ ⟨_, _, rfl, ⟨cs, rfl⟩, rfl⟩
              exact .waiting ho rfl hshort
  | _ => exact hwork _ (by simp [steps]) hstep (by simp)

/-- A run is a passage from the stage that the entry is at. -/
theorem always_passage (still : w.Still b) {st : Stage} {j : Job} {s : S} {moves : List Move}
    {asked : List Call} (hst : j.entry.stage = st) :
    AlwaysFrom b.hearing ((w.told.run Told.surroundings st).run moves) j (s, asked)
      fun x j' t => Adds w.action moves asked x.2 t.2 fun new =>
        Passage st new x.1 j'.entry.stage := by
  by_cases hfinish : st = .finish
  · subst hfinish
    exact adds_nil (hst.symm ▸ Passage.finish)
  · rw [run_of_ne_finish hfinish, StateT.run_bind, alwaysFrom_bind]
    refine (always_shows still hfinish).mono ?_
    rintro ⟨_ | _ | o, all⟩ j' t ⟨hstage, hadds⟩
    · rw [StateT.run_bind, alwaysFrom_bind]
      refine (always_enter st.next).mono ?_
      rintro ⟨_, all'⟩ j'' t' ⟨hentered, hadds'⟩
      have : st.next.rank = st.rank + 1 := Stage.rank_next hfinish
      refine (always_passage still hentered).mono ?_
      rintro ⟨o, all''⟩ j''' t'' hadds''
      refine ((hadds.append hadds').append hadds'').mono ?_
      rintro _ ⟨_, rest, rfl, ⟨first, _, rfl, hshows, rfl⟩, hrest⟩
      rw [List.append_assoc, List.singleton_append]
      exact .advance hfinish hshows hrest
    · rw [StateT.run_bind, alwaysFrom_bind]
      refine (always_enter .finish).mono ?_
      rintro ⟨_, all'⟩ j'' t' ⟨hentered, hadds'⟩
      refine (hadds.append hadds').mono ?_
      rintro _ ⟨first, _, rfl, hshows, rfl⟩
      exact hentered.symm ▸ Passage.skip hshows
    · refine hadds.mono ?_
      intro new hshows
      exact (hstage.trans hst).symm ▸ Passage.stop hshows
termination_by 10 - st.rank
decreasing_by
  have h10 : st.rank < 10 := by
    cases st <;> first | decide | exact absurd rfl hfinish
  omega

end Worker

end ReleaseOperator
