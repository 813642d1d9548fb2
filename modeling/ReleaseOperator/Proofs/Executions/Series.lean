import ReleaseOperator.Proofs.Edits.Script
import ReleaseOperator.Proofs.Executions.Passage

/-!
# Executions in a row

An entry is taken up again and again until its work is at an end. Each execution calls
the steps that follow in the sequence, and stops at the first that is not through; the
next one begins there. So over the whole row every step is completed at most once, in the
order of the sequence, and what the executions count are the stages they enter.
-/

namespace ReleaseOperator

open Program

/-- The stages from one on at which a step is called. -/
def Stage.steps (st : Stage) : List Stage :=
  st.upcoming.filter fun t => t ≠ .start

namespace Stage

theorem steps_eq_cons {st : Stage} (h : st.IsStep) : st.steps = st :: st.next.steps := by
  rw [steps, upcoming_eq_cons h.2, List.filter_cons_of_pos (by simpa using h.1), steps]

theorem next_ne_start (st : Stage) : st.next ≠ .start := by
  cases st <;> decide

theorem nodup_steps (st : Stage) : st.steps.Nodup := by
  cases st <;> decide

end Stage

/-- Whether the machine leaves a stage whose step gave this answer. -/
def Script.Answer.completes (a : Script.Answer) (st : Stage) : Bool :=
  !a.outcome.requeue && (st ≠ .awaitWork || a.yes)

/-- The stage entered after a completed step: the next one, or the end when the step found
that no work is needed. -/
def Script.Answer.onward (a : Script.Answer) (st : Stage) : Stage :=
  if st = .checkNeeded ∧ a.yes = false then .finish else st.next

/-- How the calls of an execution go with its outcome and with the stage it leaves the
entry at. All steps but the last one let the machine go on. -/
inductive Stage.Ends (found : Stage) : List (Stage × Script.Answer) → Outcome → Stage → Prop
  | through {called : List (Stage × Script.Answer)} (on : ∀ x ∈ called, x.2.LetsOn x.1)
      (all : called.map Prod.fst = found.steps) : Ends found called .done .finish
  | unneeded (passed : List (Stage × Script.Answer)) {a : Script.Answer}
      (on : ∀ x ∈ passed, x.2.LetsOn x.1) (quiet : a.outcome.requeue = false)
      (no : a.yes = false) : Ends found (passed ++ [(.checkNeeded, a)]) .done .finish
  | requeued (passed : List (Stage × Script.Answer)) {st : Stage} {a : Script.Answer}
      (on : ∀ x ∈ passed, x.2.LetsOn x.1) (again : a.outcome.requeue = true) :
      Ends found (passed ++ [(st, a)]) a.outcome st
  | waiting (passed : List (Stage × Script.Answer)) {a : Script.Answer} {d : Duration}
      (on : ∀ x ∈ passed, x.2.LetsOn x.1) (quiet : a.outcome.requeue = false)
      (no : a.yes = false) (short : d.IsShort) :
      Ends found (passed ++ [(.awaitWork, a)]) (.after d) .awaitWork

namespace Execution

/-- The steps called, with their answers. -/
def called (e : Execution) : List (Stage × Script.Answer) :=
  e.moves.filterMap Move.call?

/-- The calls that the machine went on from. -/
def passed (e : Execution) : List (Stage × Script.Answer) :=
  e.called.filter fun x => x.2.completes x.1

/-- The steps completed. -/
def completed (e : Execution) : List Stage :=
  e.passed.map Prod.fst

/-- The stages entered. -/
def entered (e : Execution) : List Stage :=
  e.moves.filterMap Move.stage?

/-- An execution calls the steps that follow in the sequence, none of them twice, up to
one that stops it. It enters the stages that come after the completed ones, and ends as
its last call says. -/
structure Linear (e : Execution) : Prop where
  contiguous : e.called.map Prod.fst <+: e.found.steps
  once : (e.called.map Prod.fst).Nodup
  ends : e.found.Ends e.called e.outcome e.left
  entered : e.entered =
    (if e.found = .start then [.checkNeeded] else []) ++
      e.passed.map fun x => x.2.onward x.1

/-- Each of some executions begins at the stage where the one before left the entry. -/
inductive Chain : Stage → List Execution → Stage → Prop
  | nil (st : Stage) : Chain st [] st
  | cons {e : Execution} {es : List Execution} {last : Stage} (rest : Chain e.left es last) :
      Chain e.found (e :: es) last

end Execution

/-! ### What a passage comes to -/

/-- Stages in the order of the sequence, from one place up to another. -/
def Stage.Rising (low high : Nat) (stages : List Stage) : Prop :=
  stages.Pairwise (fun a b => a.rank < b.rank) ∧ ∀ st ∈ stages, low ≤ st.rank ∧ st.rank < high

namespace Stage.Rising

variable {low mid high : Nat} {first second : List Stage}

theorem nil : Rising low high [] :=
  ⟨List.Pairwise.nil, fun _ h => absurd h List.not_mem_nil⟩

theorem append (h : Rising low mid first) (h' : Rising mid high second) (hlow : low ≤ mid)
    (hhigh : mid ≤ high) : Rising low high (first ++ second) := by
  refine ⟨List.pairwise_append.2 ⟨h.1, h'.1, ?_⟩, ?_⟩
  · intro a ha b hb
    have := (h.2 a ha).2
    have := (h'.2 b hb).1
    omega
  · intro st hst
    rcases List.mem_append.1 hst with hst | hst
    · have := h.2 st hst
      omega
    · have := h'.2 st hst
      omega

theorem singleton {st : Stage} (hlow : low ≤ st.rank) (hhigh : st.rank < high) :
    Rising low high [st] := by
  refine ⟨List.pairwise_singleton _ _, ?_⟩
  intro t ht
  rw [List.mem_singleton.1 ht]
  exact ⟨hlow, hhigh⟩

end Stage.Rising

namespace Passage

variable {st left : Stage} {moves : List Move} {o : Outcome}

theorem ends_cons {found : Stage} {called : List (Stage × Script.Answer)} {a : Script.Answer}
    (hstep : found.IsStep) (ha : a.LetsOn found) (h : found.next.Ends called o left) :
    found.Ends ((found, a) :: called) o left := by
  have hon : ∀ passed : List (Stage × Script.Answer), (∀ x ∈ passed, x.2.LetsOn x.1) →
      ∀ x ∈ (found, a) :: passed, x.2.LetsOn x.1 := by
    intro passed h x hx
    rcases List.mem_cons.1 hx with rfl | hx
    · exact ha
    · exact h x hx
  cases h with
  | through on all =>
      refine .through (hon _ on) ?_
      rw [List.map_cons, all, Stage.steps_eq_cons hstep]
  | unneeded passed on quiet no => exact .unneeded (_ :: passed) (hon _ on) quiet no
  | requeued passed on again => exact .requeued (_ :: passed) (hon _ on) again
  | waiting passed on quiet no short => exact .waiting (_ :: passed) (hon _ on) quiet no short

theorem ends_start {called : List (Stage × Script.Answer)}
    (h : Stage.checkNeeded.Ends called o left) : Stage.start.Ends called o left := by
  cases h with
  | through on all => exact .through on all
  | unneeded passed on quiet no => exact .unneeded passed on quiet no
  | requeued passed on again => exact .requeued passed on again
  | waiting passed on quiet no short => exact .waiting passed on quiet no short

theorem completed_called (found left : Stage) (o : Outcome) (st : Stage) (a : Script.Answer)
    (asked : List Call) (rest : List Move) :
    Execution.completed ⟨found, .called st a asked :: rest, o, left⟩ =
      (if a.completes st then [st] else []) ++ Execution.completed ⟨found, rest, o, left⟩ := by
  change (List.filter _ ((st, a) :: _)).map Prod.fst = _
  rw [List.filter_cons]
  split
  · rfl
  · rfl

theorem completes_of_letsOn {a : Script.Answer} (ha : a.LetsOn st) : a.completes st = true := by
  by_cases hst : st = .awaitWork
  · simp [Script.Answer.completes, ha.1, ha.2 (.inr hst)]
  · simp [Script.Answer.completes, ha.1, hst]

theorem onward_of_letsOn {a : Script.Answer} (ha : a.LetsOn st) : a.onward st = st.next := by
  rw [Script.Answer.onward, if_neg]
  rintro ⟨hst, hno⟩
  rw [ha.2 (.inl hst)] at hno
  exact Bool.noConfusion hno

/-- The single call of an execution that goes no further. -/
theorem linear_of_call {a : Script.Answer} {asked : List Call} {rest : List Move}
    (hstep : st.IsStep) (hends : st.Ends [(st, a)] o left) (hrest : rest.filterMap Move.call? = [])
    (hentered : rest.filterMap Move.stage? = if a.completes st then [a.onward st] else []) :
    Execution.Linear ⟨st, .called st a asked :: rest, o, left⟩ := by
  have hcalled : Execution.called ⟨st, .called st a asked :: rest, o, left⟩ = [(st, a)] :=
    congrArg ((st, a) :: ·) hrest
  refine ⟨?_, ?_, hcalled.symm ▸ hends, ?_⟩
  · rw [hcalled, Stage.steps_eq_cons hstep]
    exact List.prefix_append [st] _
  · rw [hcalled]
    exact List.nodup_cons.2 ⟨List.not_mem_nil, List.nodup_nil⟩
  · rw [if_neg hstep.1, Execution.passed, hcalled]
    refine hentered.trans ?_
    cases h : a.completes st with
    | true => simp [h]
    | false => simp [h]

/-- A passage is linear: the induction is along the stages. -/
theorem linear (h : Passage st moves o left) : Execution.Linear ⟨st, moves, o, left⟩ := by
  have hnone : ∀ x ∈ ([] : List (Stage × Script.Answer)), x.2.LetsOn x.1 :=
    fun _ h => absurd h List.not_mem_nil
  induction h with
  | finish => exact ⟨List.nil_prefix, List.nodup_nil, .through hnone rfl, rfl⟩
  | @advance st left moves rest o going shows further ih =>
      cases shows with
      | start => exact ⟨ih.contiguous, ih.once, ends_start ih.ends, congrArg (_ :: ·) ih.entered⟩
      | @onward _ a asked hstep hon =>
          have hcalled : st :: (Execution.called ⟨st.next, rest, o, left⟩).map Prod.fst <+:
              st.steps := by
            rw [Stage.steps_eq_cons hstep]
            exact List.cons_prefix_cons.2 ⟨rfl, ih.contiguous⟩
          have hpassed :
              Execution.passed ⟨st, .called st a asked :: .entered st.next :: rest, o, left⟩ =
                (st, a) :: Execution.passed ⟨st.next, rest, o, left⟩ :=
            List.filter_cons_of_pos (completes_of_letsOn hon)
          have hentered := ih.entered
          rw [if_neg (Stage.next_ne_start st), List.nil_append] at hentered
          refine ⟨hcalled, hcalled.sublist.nodup st.nodup_steps, ends_cons hstep hon ih.ends, ?_⟩
          rw [if_neg hstep.1, List.nil_append]
          refine Eq.trans ?_ (congrArg (List.map _) hpassed).symm
          rw [List.map_cons, onward_of_letsOn hon, ← hentered]
          rfl
  | skip shows =>
      cases shows with
      | unneeded quiet no =>
          refine linear_of_call ⟨by decide, by decide⟩ (.unneeded [] hnone quiet no) rfl ?_
          simp [Script.Answer.completes, Script.Answer.onward, quiet, no, Move.stage?]
  | stop shows =>
      cases shows with
      | requeued hstep again =>
          exact linear_of_call hstep (.requeued [] hnone again) rfl
            (by simp [Script.Answer.completes, again])
      | waiting quiet no short =>
          refine linear_of_call ⟨by decide, by decide⟩ (.waiting [] hnone quiet no short) rfl ?_
          simp [Script.Answer.completes, quiet, no, Move.stage?]

/-- A passage goes up the sequence: what it completes lies before the stage where it leaves
the entry, and what it enters lies behind the one where it found it. -/
theorem rising (h : Passage st moves o left) :
    st.rank ≤ left.rank ∧
      Stage.Rising st.rank left.rank (Execution.completed ⟨st, moves, o, left⟩) ∧
      Stage.Rising (st.rank + 1) (left.rank + 1) (Execution.entered ⟨st, moves, o, left⟩) := by
  induction h with
  | finish => exact ⟨Nat.le_refl _, .nil, .nil⟩
  | @advance st left moves rest o going shows further ih =>
      obtain ⟨hle, hcompleted, hentered⟩ := ih
      have hrank : st.next.rank = st.rank + 1 := Stage.rank_next going
      rw [hrank] at hle hcompleted hentered
      have hfirst : Stage.Rising (st.rank + 1) (st.rank + 1 + 1) [st.next] :=
        .singleton (by omega) (by omega)
      have hentered' := hfirst.append hentered (by omega) (by omega)
      cases shows with
      | start => exact ⟨by omega, .append .nil hcompleted (by omega) hle, hentered'⟩
      | @onward _ a asked hstep hon =>
          refine ⟨by omega, ?_, hentered'⟩
          rw [List.singleton_append, completed_called, if_pos (completes_of_letsOn hon)]
          exact Stage.Rising.append (.singleton (by omega) (by omega)) hcompleted (by omega) hle
  | skip shows =>
      cases shows with
      | unneeded quiet no =>
          refine ⟨by decide, ?_, .singleton (by decide) (by decide)⟩
          rw [List.singleton_append, completed_called,
            if_pos (by simp [Script.Answer.completes, quiet])]
          exact .singleton (by decide) (by decide)
  | stop shows =>
      cases shows with
      | requeued hstep again =>
          refine ⟨Nat.le_refl _, ?_, .nil⟩
          rw [completed_called, if_neg (by simp [Script.Answer.completes, again])]
          exact .nil
      | waiting quiet no short =>
          refine ⟨Nat.le_refl _, ?_, .nil⟩
          rw [completed_called, if_neg (by simp [Script.Answer.completes, no])]
          exact .nil

end Passage

/-! ### Rows of executions -/

namespace Worker

variable {S : Type} {b : Conduct S} {w : Worker Work}

/-- Some executions of a worker on one entry, with all that they asked. In between the
rest of the job and the surroundings may change in any way. -/
inductive Series (b : Conduct S) (w : Worker Work) :
    Entry → List Execution → List Call → Entry → Prop
  | nil (entry : Entry) : Series b w entry [] [] entry
  | cons {j j' : Job} {s s' : S} {e : Execution} {es : List Execution} {asked asked' : List Call}
      {last : Entry} (taken : Runs b.hearing (w.execution.run j) (s, []) (e, j') (s', asked))
      (rest : Series b w j'.entry es asked' last) :
      Series b w j.entry (e :: es) (asked ++ asked') last

theorem always_execution (still : w.Still b) {j : Job} {s : S} {asked : List Call} :
    AlwaysFrom b.hearing w.execution j (s, asked) fun e j' t =>
      e.found = j.entry.stage ∧ e.left = j'.entry.stage ∧
        t.2 = asked ++ e.moves.flatMap (Move.asked w.action) ∧
        Passage e.found e.moves e.outcome e.left := by
  rw [execution, alwaysFrom_bind, alwaysFrom_get, alwaysFrom_bind]
  refine (always_passage still rfl).mono ?_
  rintro ⟨o, moves⟩ j' t ⟨new, hmoves, hasked, hpassage⟩
  rw [List.nil_append] at hmoves
  subst hmoves
  rw [alwaysFrom_bind, alwaysFrom_get]
  exact ⟨rfl, rfl, hasked, hpassage⟩

/-- What is true of a row of executions. -/
structure Orderly (action : Action) (entry : Entry) (es : List Execution) (asked : List Call)
    (last : Entry) : Prop where
  each : ∀ e ∈ es, e.Linear
  chain : Execution.Chain entry.stage es last.stage
  up : entry.stage.rank ≤ last.stage.rank
  completed : Stage.Rising entry.stage.rank last.stage.rank (es.flatMap Execution.completed)
  entered :
    Stage.Rising (entry.stage.rank + 1) (last.stage.rank + 1) (es.flatMap Execution.entered)
  asked : asked = (es.flatMap Execution.moves).flatMap (Move.asked action)

theorem Series.orderly (still : w.Still b) {entry last : Entry} {es : List Execution}
    {asked : List Call} (h : w.Series b entry es asked last) :
    Orderly w.action entry es asked last := by
  induction h with
  | nil entry =>
      exact ⟨fun _ h => absurd h List.not_mem_nil, .nil _, Nat.le_refl _, .nil, .nil, rfl⟩
  | @cons j j' s s' e es asked asked' last taken rest ih =>
      obtain ⟨hfound, hleft, hasked, hpassage⟩ :=
        always_iff_runs.1 (always_execution still) _ _ taken
      obtain ⟨hup, hcompleted, hentered⟩ := hpassage.rising
      dsimp only at hfound hleft hasked
      have hchain := ih.chain
      rw [hfound, hleft] at hup hcompleted hentered
      rw [← hleft] at hchain
      refine ⟨?_, hfound ▸ .cons hchain, Nat.le_trans hup ih.up, ?_, ?_, ?_⟩
      · intro e' he'
        rcases List.mem_cons.1 he' with rfl | he'
        · exact hpassage.linear
        · exact ih.each e' he'
      · exact hcompleted.append ih.completed hup ih.up
      · exact hentered.append ih.entered (by omega) (by have := ih.up; omega)
      · rw [hasked, ih.asked, List.nil_append, List.flatMap_cons, List.flatMap_append]

end Worker

/-- Where no step counts a transition itself, the transitions counted are those of the
stages entered. -/
theorem filter_isTransition {action : Action} {moves : List Move}
    (h : ∀ m ∈ moves, m.call?.isSome → (m.asked action).filter Call.isTransition = []) :
    (moves.flatMap (Move.asked action)).filter Call.isTransition =
      (moves.filterMap Move.stage?).map (Move.count action) := by
  induction moves with
  | nil => rfl
  | cons m moves ih =>
      rw [List.flatMap_cons, List.filter_append, ih fun m hm => h m (List.mem_cons_of_mem _ hm)]
      cases m with
      | called st a asked =>
          rw [h _ List.mem_cons_self rfl]
          rfl
      | entered st => rfl
      | delayed => rfl

/-- The executions of a worker whose steps leave the stage of the entry alone: each ends as
the run of the worker does, each comes to an end, and in every row of them the steps follow
the sequence. All that is asked is asked by a step, but for one count of a transition for
each stage entered and one draw for each wait. -/
theorem Worker.executions_linear {S : Type} {b : Conduct S} {w : Worker Work} (still : w.Still b) :
    Execution.outcome <$> w.execution = w.execute ∧
    (∀ j s, ∃ e j' t, Runs b.hearing (w.execution.run j) (s, []) (e, j') t) ∧
    ∀ {entry last : Entry} {es : List Execution} {asked : List Call},
      w.Series b entry es asked last →
      Orderly w.action entry es asked last ∧
      ((∀ m ∈ es.flatMap Execution.moves, m.call?.isSome →
          (m.asked w.action).filter Call.isTransition = []) →
        asked.filter Call.isTransition =
          (es.flatMap Execution.entered).map (Move.count w.action)) := by
  refine ⟨outcome_execution w, ?_, ?_⟩
  · intro j s
    obtain ⟨⟨e, j'⟩, t, hrun⟩ := exists_runs (b := b.hearing) (w.execution.run j) (s, [])
    exact ⟨e, j', t, hrun⟩
  · intro entry last es asked hseries
    have horderly := hseries.orderly still
    refine ⟨horderly, ?_⟩
    intro hown
    have hentered : es.flatMap Execution.entered =
        (es.flatMap Execution.moves).filterMap Move.stage? := by
      rw [List.filterMap_flatMap]
      rfl
    rw [horderly.asked, hentered]
    exact filter_isTransition hown

/-! ### The workers of the four actions -/

namespace Worker

variable {S : Type} {b : Conduct S} {setup : Setup}

/-- The steps of a worker keep what is known of the entry. -/
structure Retains (b : Conduct S) (p : Entry → Prop) (w : Worker Work) : Prop where
  isNeeded : ∀ {j s}, p j.entry → AlwaysFrom b w.isNeeded j s fun _ j' _ => p j'.entry
  isDone : ∀ {j s}, p j.entry → AlwaysFrom b w.isDone j s fun _ j' _ => p j'.entry
  steps : ∀ {st work j s}, (st, work) ∈ w.steps → p j.entry →
    AlwaysFrom b work j s fun _ j' _ => p j'.entry

section Retains

variable {p : Entry → Prop}

/-- What is known of the entry is the same whether work stops or goes on. -/
theorem entry_of_proceeds {o : Outcome} {j : Job} {s : S}
    (h : Work.Proceeds (fun j _ => p j.entry) (fun e _ => p e) o j s) : p j.entry := by
  unfold Work.Proceeds at h
  split at h
  · exact h
  · exact h

variable
  (hp : ∀ e e' : Entry, e'.stage = e.stage → e'.action = e.action → p e → p e')

include hp

/-- What is known of the stage and the action of the entry is kept by whatever the work
asks. -/
theorem upheld_entry :
    Work.Upheld b setup (fun _ => True) (fun j _ => p j.entry) (fun e _ => p e) where
  stop h := h
  look _ h _ := h
  draw h _ := h
  entry _ hstage haction _ h := hp _ _ hstage haction h
  status h _ _ := always_iff_runs.2 fun _ _ _ => by
    unfold Work.Proceeds
    split
    · exact h
    · exact h
  pin h _ _ := always_iff_runs.2 fun _ _ _ => h
  apply h _ _ := h
  applied {j _ _ _ _ _} h _ _ _ := hp j.entry _ rfl rfl h
  rehearsed {j _} _ _ h := hp j.entry _ rfl rfl h
  remove h _ := h

theorem retains_forAction (setup : Setup) (action : Action) :
    (forAction setup action).Retains b p where
  isNeeded := by
    intro j s h
    cases action <;> exact h
  isDone := by
    intro j s h
    have hup : Work.Upheld b setup _ _ _ := upheld_entry hp
    cases action with
    | delete => exact hup.isGone h
    | install => exact hup.isReady h
    | update => exact hup.isReady h
    | upgrade => exact hup.isReady h
  steps := by
    intro st work j s hmem h
    have hup : Work.Upheld b setup _ _ _ := upheld_entry hp
    exact (hup.anyStep Work.Upheld.recordsAll_true action hmem h).mono fun _ _ _ =>
      entry_of_proceeds

end Retains

/-- None of the four workers moves the entry to another stage on its own. -/
theorem still_forAction (setup : Setup) (action : Action) :
    (forAction setup action).Still b := by
  have hretains : ∀ st, (forAction setup action).Retains b fun e => e.stage = st :=
    fun st => retains_forAction (fun _ _ hstage _ h => hstage.trans h) setup action
  exact ⟨fun j _ => (hretains j.entry.stage).isNeeded rfl,
    fun j _ => (hretains j.entry.stage).isDone rfl,
    fun _ _ hmem j _ => (hretains j.entry.stage).steps hmem rfl⟩

end Worker

/-- Two executions of an installation, from the start on. -/
theorem Worker.executions_linear_install :
    (forAction trialSetup .install).Still (Contest.conduct .module "default" "web") ∧
    ∃ es asked last,
      (forAction trialSetup .install).Series (Contest.conduct .module "default" "web")
        (.fresh 1 .start) es asked last ∧
      es.length = 2 ∧ Orderly .install (.fresh 1 .start) es asked last := by
  have hstill := still_forAction (b := Contest.conduct .module "default" "web") trialSetup .install
  obtain ⟨-, hends, hlinear⟩ := executions_linear hstill
  let j := Job.start trialSetup trialModule (.fresh 1 .start)
  let s : Contest := ⟨trialStore trialModule, []⟩
  obtain ⟨e, j', ⟨s', asked⟩, hrun⟩ := hends j s
  obtain ⟨e', j'', ⟨s'', asked'⟩, hrun'⟩ := hends j' s'
  have hseries := Series.cons (j := j) hrun (.cons hrun' (.nil j''.entry))
  exact ⟨hstill, _, _, _, hseries, rfl, (hlinear hseries).1⟩

end ReleaseOperator
