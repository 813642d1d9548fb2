import ReleaseOperator.InMemory.World
import ReleaseOperator.Proofs.Alert
import ReleaseOperator.Proofs.Delays.Windows
import ReleaseOperator.Proofs.Edits.Script

/-!
# Requests to come back

An outcome says whether to come back and after how long. On its way to whoever calls the operator
it becomes a directive, or an error for which the policy finds a directive, and there both go by the
delay alone. So an outcome without a failure and without a delay waits for a change, whatever it
asked for, and a request is heeded exactly when it comes with a delay. Whether it does is settled by
the way in which the outcome is made.

Whatever the collaborators answer, a pass that comes to an outcome is done, or asks to come back
after one to two seconds, or hands on what the class of the module has asked for. The work of an
action is known from the operations that are alert to failures; here no failure matters, and what is
added is how an action is chosen and what a pass does around the work. So in a pass only the
requests of the class can be lost.
-/

namespace ReleaseOperator

open Program

/-! ### Where requests come from -/

section

variable {S : Type} {b : Conduct S} {s : S} {setup : Setup} {j : Job} {m : Memory}

/-- The class may answer so when it is asked. -/
def Conduct.Proposes (b : Conduct S) (o : Outcome) : Prop :=
  ∃ s moment action release t, b.may s (.hook moment action release) o t

/-- A request to come back soon, or one that the class may have made. -/
def Outcome.ArisesIn (b : Conduct S) (o : Outcome) : Prop :=
  o.IsSoon ∨ o.requeue = true ∧ b.Proposes o

/-- What a pass may end with: it is done or asks to come back. -/
def Outcome.ClosesIn (b : Conduct S) (o : Outcome) : Prop := o = .done ∨ o.ArisesIn b

namespace Origins

theorem alert (b : Conduct S) : Alert b (fun _ => True) (Outcome.ArisesIn b) where
  call _ _ _ := trivial
  hook := by
    intro s moment action release o t _ hmay
    cases ho : o.requeue with
    | true => exact Or.inl (Or.inr ⟨ho, s, moment, action, release, t, hmay⟩)
    | false => exact Or.inr ⟨rfl, trivial⟩
  soon := Or.inl
  requeues h := h.elim Outcome.IsSoon.requeue And.left

theorem closes_shortDelayWith (f : Failure) :
    Always b (Pass.shortDelayWith f) s fun o _ => o.ClosesIn b :=
  (Pass.soon_shortDelayWith f).mono fun _ _ ho => Or.inr (Or.inl ho)

theorem always_trivial {α : Type} (p : Pass α) : Always b p s fun _ _ => True :=
  always_iff_runs.2 fun _ _ _ => trivial

theorem closes_actualState (release : Release) :
    Always b (Pass.actualState release) s fun r _ => r.2.ClosesIn b := by
  rw [Pass.actualState, always_bind]
  refine (always_trivial _).mono fun v t _ => ?_
  split
  · exact Or.inl rfl
  · exact Or.inl rfl
  · rw [always_bind]
    exact closes_shortDelayWith _

theorem closes_upgradeNeeded (desired : String) (release : Release) :
    Always b (Pass.upgradeNeeded desired release) s fun r _ => r.2.ClosesIn b := by
  rw [Pass.upgradeNeeded, always_bind]
  refine (always_trivial _).mono fun v t _ => ?_
  split
  · exact Or.inl rfl
  · rw [always_bind]
    exact closes_shortDelayWith _
  · split
    · exact Or.inl rfl
    · rw [always_bind]
      exact closes_shortDelayWith _

/-- What stands in place of a value is an outcome that a pass may end with. -/
def Closing {α : Type} (b : Conduct S) : Except Outcome α → Prop
  | .ok _ => True
  | .error o => o.ClosesIn b

theorem closing_chooseAction (j : Job) : Always b j.chooseAction s fun v _ => Closing b v := by
  unfold Job.chooseAction
  split
  · exact trivial
  · split
    · exact trivial
    · rw [always_bind]
      exact closes_shortDelayWith _
  · rw [Job.actionForActual, always_bind]
    refine (closes_actualState j.release).mono ?_
    rintro ⟨state, o⟩ t ho
    dsimp only
    split
    · exact ho
    · split
      · exact trivial
      · rw [always_bind]
        refine (closes_upgradeNeeded _ _).mono ?_
        rintro ⟨needed, o'⟩ t' ho'
        dsimp only
        split
        · exact ho'
        · exact trivial
      · exact Or.inl rfl

theorem closes_perform (action : Action) :
    AlwaysFrom b (Work.perform setup action) j s fun o _ _ => o.ClosesIn b :=
  ((alert b).perform trivial action).mono fun _ _ _ hends =>
    hends.elim Or.inr fun hdone => Or.inl hdone.1

theorem closes_runPinned :
    AlwaysFrom b (Work.runPinned setup) j s fun o _ _ => o.ClosesIn b := by
  rw [Work.always_runPinned]
  split
  · exact closes_perform _
  · refine (closing_chooseAction j).mono ?_
    rintro (o | action) t ht
    · exact ht
    · exact closes_perform action

theorem closing_appliedDigest (desired : String) :
    Always b (j.appliedDigest setup desired) s fun v _ => Closing b v := by
  rw [Job.always_appliedDigest]
  split
  · exact trivial
  · split
    · exact trivial
    · intro a t _
      split
      · exact trivial
      · exact trivial
      · exact closes_shortDelayWith _

theorem closing_valuesChanged :
    AlwaysFrom b (Work.valuesChanged setup) j s fun v _ _ => Closing b v := by
  rw [Work.always_valuesChanged]
  split
  · exact trivial
  · refine (always_trivial _).mono fun v t _ => ?_
    cases v with
    | error e => exact closes_shortDelayWith _
    | ok desired =>
        refine (closing_appliedDigest desired).mono ?_
        rintro (o | applied) t' ht'
        · exact ht'
        · exact trivial

theorem closes_live : AlwaysFrom b (Work.live setup) j s fun o _ _ => o.ClosesIn b := by
  rw [Work.always_live]
  split
  · refine closing_valuesChanged.mono ?_
    rintro (o | _ | _) j' t ht
    · exact ht
    · exact Or.inl rfl
    · exact closes_runPinned
  · exact closes_runPinned

theorem closes_clear : AlwaysFrom b (Work.clear setup) j s fun fo _ _ => fo.2.ClosesIn b := by
  rw [Work.always_clear]
  refine (closes_perform .delete).mono ?_
  intro o j' t ho
  split
  · exact ho
  · refine ((alert b).removeFinalizer trivial j'.resource).mono ?_
    rintro ⟨o', r⟩ t' ho'
    dsimp only
    split
    · rename_i hrequeue
      exact Or.inr (ho'.comesBack hrequeue)
    · exact Or.inl rfl

theorem closes_found (r : Resource) :
    AlwaysFrom b (Reconcile.found setup r) m s fun o _ _ => o.ClosesIn b := by
  rw [Reconcile.always_found]
  split
  · rw [Reconcile.always_clear]
    split
    · exact closes_clear
    · exact Or.inl rfl
  · split
    · exact Or.inl rfl
    · by_cases hfinalizer : r.hasFinalizer = true
      · rw [Pass.always_ensureFinalizer, if_pos hfinalizer]
        dsimp only
        rw [Reconcile.always_live]
        exact closes_live
      · refine ((alert b).ensureFinalizer trivial (Bool.eq_false_iff.2 hfinalizer)).mono ?_
        rintro ⟨_, r'⟩ t ⟨o, rfl, hback⟩
        exact Or.inr hback

/-- Whatever anyone answers, a pass that comes to an outcome is done, or asks to come back as a
step of its own or the class does. -/
theorem closes_reconcile (kind : Kind) (ns name : String) :
    AlwaysFrom b (reconcile setup kind ns name) m s fun result _ _ =>
      ∀ o, result = .ok o → o.ClosesIn b := by
  rw [always_reconcile]
  intro a t _
  rcases a with e | _ | r
  · exact (closes_shortDelayWith _).mono fun _ _ ho _ heq => Except.ok.inj heq ▸ ho
  · exact fun _ heq => Except.ok.inj heq ▸ Or.inl rfl
  · dsimp only
    split
    · exact fun _ hno => absurd hno (by simp)
    · exact (closes_found r).mono fun _ _ _ ho _ heq => Except.ok.inj heq ▸ ho

end Origins

end

/-! ### The way out -/

/-- A directive heeds an outcome: it comes back when the outcome asks to, after the delay of the
outcome if there is one, and after some time in any case; and it waits for a change only when the
outcome does not ask to come back. -/
structure Directive.Heeds (d : Directive) (o : Outcome) : Prop where
  comesBack : o.requeue = true →
    ∃ wait, d = .requeue wait ∧ 0 < wait ∧ (0 < o.delay → wait = o.delay)
  waits : d = .awaitChange → o.requeue = false

namespace Outcome

variable {S : Type} {b : Conduct S} {s : S} {o : Outcome}

/-- A request to come back without a delay. -/
structure IsVoid (o : Outcome) : Prop where
  requeue : o.requeue = true
  delay : o.delay = 0

/-- What is finally done with an outcome: what its caller makes of it, and of an error the
policy. -/
def conclude (o : Outcome) : Pass Directive := do
  match ← direct (.ok o) with
  | .ok d => return d
  | .error e => onError e

/-- What an outcome comes to. -/
def upshot (o : Outcome) : Directive :=
  match o.directive with
  | .ok d => d
  | .error e => e.directive

theorem always_direct (o : Outcome) : Always b (direct (.ok o)) s fun d _ => d = o.directive := by
  unfold direct
  dsimp only
  rcases o.directive with e | _ | delay
  · exact rfl
  · exact rfl
  · dsimp only
    rw [always_bind, Pass.always_count]
    exact fun _ _ _ => rfl

theorem always_onError (e : PassError) : Always b (onError e) s fun d _ => d = e.directive := by
  rw [onError, always_bind, Pass.always_count]
  intro _ t _
  split
  · rw [always_bind, Pass.always_count]
    exact fun _ _ _ => rfl
  · exact rfl

/-- Counting apart, what is done with an outcome is settled by the outcome. -/
theorem always_conclude {post : Directive → Prop} :
    Always b o.conclude s (fun d _ => post d) ↔ post o.upshot := by
  have hall : Always b o.conclude s fun d _ => d = o.upshot := by
    rw [conclude, always_bind]
    refine (always_direct o).mono ?_
    rintro _ t rfl
    unfold upshot
    cases o.directive with
    | ok d => exact rfl
    | error e => exact always_onError e
  constructor
  · intro h
    obtain ⟨_, _, _, hpost, rfl⟩ := (h.and hall).exists
    exact hpost
  · intro h
    refine hall.mono ?_
    rintro _ _ rfl
    exact h

theorem upshot_of_delay (h : 0 < o.delay) : o.upshot = .requeue o.delay := by
  have hne : o.delay ≠ 0 := Nat.ne_of_gt h
  unfold upshot directive
  cases o.failure with
  | none => exact if_neg hne
  | some f =>
      dsimp only
      rw [PassError.directive, PassError.retryDelay?, PassError.delay?, Option.map_some, if_neg hne]

/-- Where failures come with a delay, a change is waited for when there is none. -/
theorem upshot_eq_awaitChange_iff (h : o.failure.isSome = true → 0 < o.delay) :
    o.upshot = .awaitChange ↔ o.delay = 0 := by
  constructor
  · intro hwaits
    refine Nat.eq_zero_of_not_pos fun hpos => ?_
    rw [upshot_of_delay hpos] at hwaits
    exact absurd hwaits (by simp)
  · intro hnone
    have hfailure : o.failure = none :=
      Option.not_isSome_iff_eq_none.1 fun hsome => absurd (h hsome) (by rw [hnone]; decide)
    unfold upshot directive
    rw [hfailure]
    exact if_pos hnone

theorem heeds_upshot_of_not_isVoid (h : ¬ o.IsVoid) : o.upshot.Heeds o := by
  rcases Nat.eq_zero_or_pos o.delay with hnone | hpos
  · have hquiet : o.requeue = false := Bool.eq_false_iff.2 fun hrequeue => h ⟨hrequeue, hnone⟩
    exact ⟨fun hrequeue => absurd hrequeue (Bool.eq_false_iff.1 hquiet), fun _ => hquiet⟩
  · rw [upshot_of_delay hpos]
    exact ⟨fun _ => ⟨_, rfl, hpos, fun _ => rfl⟩, fun hno => absurd hno (by simp)⟩

theorem heeds_upshot_iff (h : o.failure.isSome = true → 0 < o.delay) :
    o.upshot.Heeds o ↔ ¬ o.IsVoid := by
  refine ⟨fun hheeds hvoid => ?_, heeds_upshot_of_not_isVoid⟩
  have hquiet := hheeds.waits ((upshot_eq_awaitChange_iff h).2 hvoid.delay)
  exact Bool.eq_false_iff.1 hquiet hvoid.requeue

/-! ### Outcomes that are made -/

/-- The ways in which outcomes are made. -/
inductive Making where
  | done
  | after (d : Duration)
  | delay (min max : Nat) (unit : Duration)
  | short
  | failed (f : Failure)

namespace Making

/-- An outcome made in one of the ways. -/
def make : Making → Pass Outcome
  | done => pure .done
  | after d => pure (.after d)
  | delay min max unit => Pass.delay min max unit
  | short => Pass.shortDelay
  | failed f => Pass.shortDelayWith f

/-- An outcome that is made, and what is finally done with it. -/
def course (making : Making) : Pass (Outcome × Directive) := do
  let o ← making.make
  let d ← o.conclude
  return (o, d)

/-- What is made may be a request to come back without a delay. -/
def MayBeVoid : Making → Prop
  | after d => d = 0
  | delay min max unit => min = 0 ∨ max = 0 ∨ unit < Duration.ofMillis 1
  | _ => False

end Making

theorem IsSoon.delay_pos (h : o.IsSoon) : 0 < o.delay :=
  Nat.lt_of_lt_of_le (by decide) h.short.1

theorem IsSoon.not_isVoid (h : o.IsSoon) : ¬ o.IsVoid :=
  fun hvoid => absurd hvoid.delay (Nat.ne_of_gt h.delay_pos)

/-- The least delay of a window is none when a bound is zero or the unit is less than a
millisecond. -/
theorem window_fst_eq_zero_iff {min max : Nat} {unit : Duration} :
    (window min max unit).1 = 0 ↔ min = 0 ∨ max = 0 ∨ unit < Duration.ofMillis 1 := by
  have hword : maxWord ≠ 0 := by decide
  have hunit : Nat.min (unit / 1000000) maxWord = 0 ↔ unit < Duration.ofMillis 1 := by
    rw [Nat.min_eq_zero_iff, or_iff_left hword, Nat.div_eq_zero_iff]
    exact or_iff_right (by decide)
  rw [window]
  dsimp only
  rw [Nat.min_eq_zero_iff, or_iff_left hword, Nat.mul_eq_zero, hunit, Nat.min_eq_zero_iff, or_assoc]

/-- An outcome that is made with a failure comes with a delay. -/
theorem always_make (making : Making) :
    Always b making.make s fun o _ => o.failure.isSome = true → 0 < o.delay := by
  cases making with
  | done => exact fun hno => absurd hno Bool.false_ne_true
  | after d => exact fun hno => absurd hno Bool.false_ne_true
  | delay min max unit =>
      rw [Making.make, Pass.delay, always_map, Pass.always_drawDelay]
      exact fun _ _ _ hno => absurd hno Bool.false_ne_true
  | short => exact Pass.soon_shortDelay.mono fun _ _ ho _ => ho.delay_pos
  | failed f => exact (Pass.soon_shortDelayWith f).mono fun _ _ ho _ => ho.delay_pos

/-- Whether a way of making outcomes allows for void ones can be told from what it is given. -/
theorem never_isVoid_iff (making : Making) {es : Story} :
    Always Conduct.unruled making.make es (fun o _ => ¬ o.IsVoid) ↔ ¬ making.MayBeVoid := by
  cases making with
  | done => exact iff_of_true (fun hvoid => absurd hvoid.requeue Bool.false_ne_true) id
  | after d => exact not_congr ⟨IsVoid.delay, fun hd => ⟨rfl, hd⟩⟩
  | delay min max unit =>
      rw [Making.make, Pass.always_delay_unruled, Making.MayBeVoid, ← window_fst_eq_zero_iff]
      constructor
      · intro h hzero
        refine h _ (Nat.le_refl _) (window_le min max unit) ⟨rfl, ?_⟩
        rw [hzero]
        rfl
      · intro hne n hn _ hvoid
        have hpos : 0 < Duration.ofMillis n :=
          Nat.mul_pos (Nat.lt_of_lt_of_le (Nat.pos_of_ne_zero hne) hn) (by decide)
        exact absurd hvoid.delay (Nat.ne_of_gt hpos)
  | short => exact iff_of_true (Pass.soon_shortDelay.mono fun _ _ ho => ho.not_isVoid) id
  | failed f => exact iff_of_true ((Pass.soon_shortDelayWith f).mono fun _ _ ho => ho.not_isVoid) id

theorem always_course (making : Making) {post : Outcome × Directive → Prop} :
    Always b making.course s (fun x _ => post x) ↔
      Always b making.make s fun o _ => post (o, o.upshot) := by
  rw [Making.course, always_bind]
  refine always_congr fun o t => ?_
  rw [always_bind]
  exact always_conclude

/-! ### Requests that are heeded -/

/-- However an outcome is made, it is heeded unless it is a request without a delay, and a change is
waited for exactly when there is no delay. All outcomes made in one way are heeded unless that way
allows for requests without a delay: it asks for no time, or draws a delay between bounds of which
one is zero or with a unit of less than a millisecond. And whatever anyone answers, what comes of a
pass is heeded unless it is a request without a delay that the class has made. -/
theorem requests_heeded_iff (making : Making) {es : Story} {setup : Setup} {m : Memory}
    {kind : Kind} {ns name : String} :
    Always Conduct.unruled making.course es (fun x _ =>
        (x.2.Heeds x.1 ↔ ¬ x.1.IsVoid) ∧ (x.2 = .awaitChange ↔ x.1.delay = 0)) ∧
      (Always Conduct.unruled making.course es (fun x _ => x.2.Heeds x.1) ↔
        ¬ making.MayBeVoid) ∧
      AlwaysFrom b (reconcile setup kind ns name) m s fun result _ t =>
        ∀ o, result = .ok o → Always b o.conclude t fun d _ =>
          d.Heeds o ∨ o.IsVoid ∧ b.Proposes o := by
  have hmade := always_make (b := Conduct.unruled) (s := es) making
  refine ⟨?_, ?_, ?_⟩
  · exact (always_course making).2
      (hmade.mono fun o _ ho => ⟨heeds_upshot_iff ho, upshot_eq_awaitChange_iff ho⟩)
  · rw [← never_isVoid_iff making]
    refine (always_course making).trans ⟨fun h => ?_, fun h => ?_⟩
    · exact (hmade.and h).mono fun o _ ⟨ho, hheeds⟩ => (heeds_upshot_iff ho).1 hheeds
    · exact h.mono fun o _ hvoid => heeds_upshot_of_not_isVoid hvoid
  · refine (Origins.closes_reconcile kind ns name).mono fun result _ t hcloses o ho => ?_
    refine always_conclude.2 ?_
    by_cases hvoid : o.IsVoid
    · refine Or.inr ⟨hvoid, ?_⟩
      rcases hcloses o ho with rfl | hsoon | ⟨-, hproposed⟩
      · exact absurd hvoid.requeue Bool.false_ne_true
      · exact absurd hvoid hsoon.not_isVoid
      · exact hproposed
    · exact Or.inl (heeds_upshot_of_not_isVoid hvoid)

/-- A step asks to come back after no time, and nobody comes back. -/
theorem request_without_delay_lost :
    ¬ ∀ making : Making, Always Conduct.unruled making.course [] fun x _ => x.2.Heeds x.1 := by
  intro h
  have hheeds : (upshot (.after 0)).Heeds (.after 0) := (always_course _).1 (h (.after 0))
  exact absurd (hheeds.waits rfl) (by decide)

/-- A module is seen while the class asks to come back after no time before the work. -/
def strandedEvent : Except PassError Directive × InMemory.Scene :=
  InMemory.Scene.reconcile (onEvent trialSetup trialModule)
    ⟨{ InMemory.World.empty "09:00" with
        modules := trialStore trialModule, hooks := ⟨[.after 0], []⟩ }, .empty⟩

/-- A change is waited for, while the work has yet to begin. -/
example : strandedEvent.1.toOption = some .awaitChange ∧
    (strandedEvent.2.memory.lifecycle.find? "Module/default/web/uid-1/gen-1").map Entry.stage =
      some .preWork := by decide +kernel

end Outcome

end ReleaseOperator
