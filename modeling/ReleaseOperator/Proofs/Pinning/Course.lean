import ReleaseOperator.Proofs.Pinning.Plain
import ReleaseOperator.Proofs.Renewal.Attuned

/-!
# The course of the machine

What the machine has done to an entry can be told from the questions asked: each stage that it
enters is counted, and each release that is applied was handed to Helm. Here anything may be
answered. While an action is performed the machine goes up the stages under that action alone,
and it applies a release only on its way from the stage of the work to the next one, so that
between two departures from the first stage there is room for one application.
-/

namespace ReleaseOperator

open Program

/-- Anything may be answered; what was asked is kept as a story. -/
def Conduct.unruled : Conduct Story where
  may es c a es' := es' = .asked c a :: es
  answers es c := by
    obtain ⟨a⟩ := Contest.exists_callAnswer c
    exact ⟨a, _, rfl⟩

namespace Event

/-- The stage that is entered, and the action whose work enters it. -/
def entered? : Event → Option (Stage × Action)
  | .asked (.count (.transition label work)) _ =>
    match Stage.ofLabel? label, Action.ofName? work with
    | some st, some a => some (st, a)
    | _, _ => none
  | _ => none

/-- The machine leaves its first stage. -/
def departs (e : Event) : Bool :=
  e.entered?.any fun y => y.1 = .checkNeeded

theorem entered?_transition (st : Stage) (a : Action) (u : Unit) :
    (asked (.count (.transition st.label a.workName)) u).entered? = some (st, a) := by
  rw [entered?, Stage.ofLabel?_label, Action.ofName?_workName]

theorem departs_transition (st : Stage) (a : Action) (u : Unit) :
    (asked (.count (.transition st.label a.workName)) u).departs = decide (st = .checkNeeded) := by
  rw [departs, entered?_transition]
  rfl

variable {c : Call}

theorem entered?_of_isPlain (h : c.isPlain = true) (a : c.Answer) :
    (asked c a).entered? = none := by
  rcases c with _ | _ | _ | _ | _ | _ | (_ | _) <;>
    first | rfl | exact absurd h Bool.false_ne_true

theorem departs_of_isPlain (h : c.isPlain = true) (a : c.Answer) :
    (asked c a).departs = false := by
  rw [departs, entered?_of_isPlain h]
  rfl

theorem applies_of_isPlain (h : c.isPlain = true) (a : c.Answer) :
    (asked c a).applies = false := by
  rcases c with _ | _ | (_ | _ | _ | _ | _ | _) | _ | _ | _ | _ <;>
    first | rfl | exact absurd h Bool.false_ne_true

end Event

namespace Story

variable {es es' : Story} {e : Event}

/-- The stages entered, the first one first, each with the action whose work entered it. -/
def entered (es : Story) : List (Stage × Action) := es.reverse.filterMap Event.entered?

/-- How often a release was applied since the machine last left its first stage. -/
def appliedSince : Story → Nat
  | [] => 0
  | e :: es => if e.departs then 0 else appliedSince es + if e.applies then 1 else 0

/-- Where the machine does not leave its first stage in between, a release is applied at most
once. -/
def AppliesOnce (es : Story) : Prop :=
  ∀ part, part <:+: es → (∀ e ∈ part, e.departs = false) → part.countP Event.applies ≤ 1

theorem entered_cons (e : Event) (es : Story) :
    entered (e :: es) = entered es ++ e.entered?.toList := by
  unfold entered
  rw [List.reverse_cons, List.filterMap_append]
  cases h : e.entered? with
  | none => rw [List.filterMap_cons_none h]; rfl
  | some y => rw [List.filterMap_cons_some h]; rfl

theorem countP_le_appliedSince (part : Story) (h : ∀ e ∈ part, e.departs = false) :
    part.countP Event.applies ≤ appliedSince (part ++ es) := by
  induction part with
  | nil => exact Nat.zero_le _
  | cons e part ih =>
      have hrest := ih fun x hx => h x (List.mem_cons_of_mem _ hx)
      rw [List.countP_cons, List.cons_append, appliedSince, h e List.mem_cons_self]
      exact Nat.add_le_add_right hrest _

theorem appliesOnce_of_suffixes (h : ∀ es', es' <:+ es → appliedSince es' ≤ 1) :
    AppliesOnce es := by
  rintro part ⟨newer, older, rfl⟩ hpart
  have hsuffix : part ++ older <:+ newer ++ part ++ older := by
    rw [List.append_assoc]
    exact List.suffix_append _ _
  exact Nat.le_trans (countP_le_appliedSince part hpart) (h _ hsuffix)

end Story

/-- How often a release may have been applied since the departure when the machine is at a
stage: before the departure the one of the time before is still counted. -/
def Stage.quota (st : Stage) : Nat :=
  if 0 < st.rank ∧ st.rank ≤ Stage.work.rank then 0 else 1

theorem Stage.quota_le_one (st : Stage) : st.quota ≤ 1 := by
  unfold quota
  split
  · exact Nat.zero_le 1
  · exact Nat.le_refl 1

/-- Once the machine has left its first stage the quota only grows. -/
theorem Stage.quota_mono {st st' : Stage} (h : 0 < st.rank) (hle : st.rank ≤ st'.rank) :
    st.quota ≤ st'.quota := by
  unfold quota
  split
  · exact Nat.zero_le _
  · rename_i hlate
    exact Nat.le_of_eq (if_neg (by omega)).symm

/-- A release was never applied more often than the stages allowed. -/
structure Story.Sparing (st : Stage) (es : Story) : Prop where
  now : es.appliedSince ≤ st.quota
  ever : ∀ es' : Story, es' <:+ es → es'.appliedSince ≤ 1

namespace Story.Sparing

variable {es : Story} {e : Event} {st next : Stage}

theorem nil (st : Stage) : Sparing st [] :=
  ⟨Nat.zero_le _, fun _ h => by rw [List.suffix_nil.1 h]; exact Nat.zero_le 1⟩

theorem cons (h : Sparing st es) (hnow : appliedSince (e :: es) ≤ next.quota) :
    Sparing next (e :: es) := by
  refine ⟨hnow, ?_⟩
  intro es' hsuffix
  rcases List.suffix_cons_iff.1 hsuffix with rfl | hsuffix
  · exact Nat.le_trans hnow next.quota_le_one
  · exact h.ever es' hsuffix

theorem mono (h : Sparing st es) (hle : st.quota ≤ next.quota) : Sparing next es :=
  ⟨Nat.le_trans h.now hle, h.ever⟩

theorem plain (h : Sparing st es) {c : Call} (hc : c.isPlain = true) (a : c.Answer) :
    Sparing st (.asked c a :: es) := by
  refine h.cons ?_
  rw [appliedSince, Event.departs_of_isPlain hc, Event.applies_of_isPlain hc]
  exact h.now

/-- Up to the work no release was applied, so that one may be applied now. -/
theorem applied (h : Sparing .work es) {request : ReleaseRequest}
    (a : Except HelmError ReleaseInfo) :
    Sparing .awaitWork (.asked (.helm (.upgradeOrInstall request)) a :: es) := by
  refine h.cons ?_
  have hnone : appliedSince es ≤ 0 := h.now
  change appliedSince es + _ ≤ 1
  split
  · omega
  · omega

/-- An application that failed does not count. -/
theorem refused (h : Sparing st es) {request : ReleaseRequest} (f : HelmError) :
    Sparing st (.asked (.helm (.upgradeOrInstall request)) (.error f) :: es) :=
  h.cons h.now

theorem entered (h : Sparing st es) (hstart : st = .start → next = .checkNeeded)
    (hle : st.rank ≤ next.rank) (action : Action) (u : Unit) :
    Sparing next (.asked (.count (.transition next.label action.workName)) u :: es) := by
  refine h.cons ?_
  rw [appliedSince, Event.departs_transition]
  by_cases hnext : next = .checkNeeded
  · rw [if_pos (decide_eq_true hnext)]
    exact Nat.zero_le _
  · rw [if_neg (by simpa using hnext)]
    have hst : 0 < st.rank := by
      cases st <;> first | exact absurd (hstart rfl) hnext | decide
    exact Nat.le_trans h.now (Stage.quota_mono hst hle)

end Story.Sparing

/-- Under way with an action since it was at some stage, the machine has entered stages of that
action only, one after the other, up to the one where it is. -/
structure Ascent (origin : Stage) (action : Action) (e : Entry) (es : Story) : Prop where
  pinned : e.action = some action
  own : ∀ y ∈ es.entered, y.2 = action
  rising : Stage.Rising (origin.rank + 1) (e.stage.rank + 1) (es.entered.map Prod.fst)
  last : e.stage = ((es.entered.map Prod.fst).getLast?).getD origin

/-- An ascent on which, in the light of the past, a release was applied no more often than is
due. -/
structure Course (origin : Stage) (action : Action) (past : Story) (due : Stage) (e : Entry)
    (es : Story) : Prop extends Ascent origin action e es where
  sparing : Story.Sparing due (es ++ past)

namespace Course

variable {origin due : Stage} {action : Action} {past es : Story} {e : Entry} {j : Job}
  {setup : Setup} {α : Type}

theorem start (hpinned : e.action = some action) (hnone : es.entered = [])
    (hsparing : Story.Sparing e.stage (es ++ past)) :
    Course e.stage action past e.stage e es := by
  refine ⟨⟨hpinned, ?_, ?_, ?_⟩, hsparing⟩
  · rw [hnone]
    exact fun y hy => absurd hy List.not_mem_nil
  · rw [hnone]
    exact Stage.Rising.nil
  · rw [hnone]
    rfl

/-- A question that enters no stage, with what it does to the count of applications. -/
theorem asked (h : Course origin action past due e es) {x : Event} (hx : x.entered? = none)
    {due' : Stage} (hsparing : Story.Sparing due' (x :: (es ++ past))) :
    Course origin action past due' e (x :: es) := by
  have hsame : Story.entered (x :: es) = es.entered := by
    rw [Story.entered_cons, hx]
    exact List.append_nil _
  exact ⟨⟨h.pinned, hsame.symm ▸ h.own, hsame.symm ▸ h.rising, hsame.symm ▸ h.last⟩, hsparing⟩

theorem plain (h : Course origin action past due e es) {c : Call} (hc : c.isPlain = true)
    (a : c.Answer) : Course origin action past due e (.asked c a :: es) :=
  h.asked (Event.entered?_of_isPlain hc a) (h.sparing.plain hc a)

theorem enter (h : Course origin action past due e es) {next : Stage}
    (hnext : e.stage.rank < next.rank) (hstart : due = .start → next = .checkNeeded)
    (hle : due.rank ≤ next.rank) (u : Unit) :
    Course origin action past next (e.setStage next)
      (.asked (.count (.transition next.label action.workName)) u :: es) := by
  have hentered : Story.entered (.asked (.count (.transition next.label action.workName)) u :: es) =
      es.entered ++ [(next, action)] := by
    rw [Story.entered_cons, Event.entered?_transition]
    rfl
  have hup : origin.rank ≤ e.stage.rank := by
    rw [h.last]
    cases hlast : (es.entered.map Prod.fst).getLast? with
    | none => exact Nat.le_refl _
    | some st =>
        have := (h.rising.2 st (List.mem_of_getLast? hlast)).1
        change origin.rank ≤ st.rank
        omega
  refine ⟨⟨h.pinned, ?_, ?_, ?_⟩, h.sparing.entered hstart hle action u⟩
  · rw [hentered]
    intro y hy
    rcases List.mem_append.1 hy with hy | hy
    · exact h.own y hy
    · rw [List.mem_singleton.1 hy]
  · rw [hentered, List.map_append]
    exact h.rising.append (.singleton hnext (Nat.lt_succ_self _)) (by omega)
      (Nat.succ_le_succ (Nat.le_of_lt hnext))
  · rw [hentered, List.map_append, List.map_singleton, List.getLast?_append]
    rfl

end Course

/-- Two entries at one stage with one action. -/
structure Entry.Alike (e e' : Entry) : Prop where
  stage : e'.stage = e.stage
  action : e'.action = e.action

namespace Course

variable {origin due : Stage} {action : Action} {past es : Story} {e : Entry} {j : Job}
  {setup : Setup} {α : Type}

theorem alike (h : Course origin action past due e es) {e' : Entry} (halike : e.Alike e') :
    Course origin action past due e' es :=
  ⟨⟨halike.action.trans h.pinned, h.own, halike.stage ▸ h.rising, halike.stage.trans h.last⟩,
    h.sparing⟩

/-! ### Steps -/

theorem upheld (setup : Setup) (e : Entry) : Work.Upheld Conduct.unruled setup (fun _ => True)
    (fun j _ => e.Alike j.entry) (fun e' _ => e.Alike e') :=
  Worker.upheld_entry fun _ _ hstage haction h => ⟨hstage.trans h.stage, haction.trans h.action⟩

theorem retains (setup : Setup) (e : Entry) :
    (Worker.forAction setup action).Retains Conduct.unruled e.Alike :=
  Worker.retains_forAction
    (fun _ _ hstage haction h => ⟨hstage.trans h.stage, haction.trans h.action⟩) setup action

/-- Plain questions leave the course as it is. -/
theorem always_pass {p : Pass α} (hp : Pass.Plain p) (h : Course origin action past due e es) :
    Always Conduct.unruled p es fun _ es' => Course origin action past due e es' := by
  refine hp.always ?_ h
  rintro s c a _ hc rfl h'
  exact h'.plain hc a

theorem always_work {work : Work α} (hplain : Work.Plain work)
    (halike : AlwaysFrom Conduct.unruled work j es fun _ j' _ => j.entry.Alike j'.entry)
    (h : Course origin action past due j.entry es) :
    AlwaysFrom Conduct.unruled work j es fun _ j' es' =>
      Course origin action past due j'.entry es' := by
  refine (Always.and halike (h.always_pass (hplain j))).mono ?_
  rintro x es' ⟨halike, hes'⟩
  exact hes'.alike halike

/-- What a step at which a release may be applied leads to. -/
def Applying (origin : Stage) (action : Action) (past : Story) (o : Outcome) (j : Job)
    (es : Story) : Prop :=
  Course origin action past (if o.requeue then .work else .awaitWork) j.entry es

theorem applying (h : Course origin action past .work j.entry es) (o : Outcome) :
    Applying origin action past o j es := by
  unfold Applying
  split
  · exact h
  · exact ⟨h.toAscent, h.sparing.mono (Nat.zero_le _)⟩

theorem always_fail (h : Course origin action past .work j.entry es) (setup : Setup)
    (reason : Reason) (f : Failure) :
    AlwaysFrom Conduct.unruled (Work.fail reason f) j es (Applying origin action past) := by
  have halike : AlwaysFrom Conduct.unruled (Work.fail reason f) j es fun _ j' _ =>
      j.entry.Alike j'.entry :=
    ((upheld setup j.entry).fail ⟨rfl, rfl⟩ trivial f).mono fun _ _ _ =>
      Worker.entry_of_proceeds
  exact (h.always_work (Work.oblivious_fail reason f).modest.plain halike).mono
    fun o _ _ h' => h'.applying o

theorem always_applyRelease (h : Course origin action past .work j.entry es) (setup : Setup)
    (reason : Reason) :
    AlwaysFrom Conduct.unruled (Work.applyRelease setup reason) j es
      (Applying origin action past) := by
  have hdigest : ∀ {es' : Story} {due : Stage} (documents : List Json),
      Course origin action past due j.entry es' →
      Course origin action past due
        (j.entry.setDigest (Values.digest (Values.mergeAll documents))) es' :=
    fun documents h' => h'.alike ⟨rfl, rfl⟩
  rw [Work.always_applyRelease]
  refine (h.always_pass (Pass.quiet_jobValues setup j).plain).mono ?_
  rintro (e | documents) es₁ h₁
  · exact h₁.always_fail setup reason _
  dsimp only
  split
  · exact applying (hdigest documents h₁) .done
  refine (h₁.always_pass (Pass.quiet_credentials _ _).plain).mono ?_
  rintro (e | credentials) es₂ h₂
  · exact h₂.always_fail setup reason _
  dsimp only
  rw [Work.always_handOver]
  rintro (f | info) es₃ rfl
  · exact (h₂.asked rfl (h₂.sparing.refused f)).always_fail setup reason _
  · exact hdigest documents (h₂.asked rfl (h₂.sparing.applied _))

theorem always_install (h : Course origin action past .work j.entry es) (setup : Setup) :
    AlwaysFrom Conduct.unruled (Work.install setup) j es (Applying origin action past) := by
  rw [Work.always_install]
  split
  · exact h.always_applyRelease setup _
  rintro (f | info) es₁ rfl
  · exact ((h.plain rfl _).always_pass (Pass.quiet_shortDelayWith _).plain).mono
      fun o _ h₁ => h₁.applying o
  dsimp only
  split
  · exact applying (h.plain rfl _) .done
  · exact always_applyRelease (h.plain rfl _) setup _

/-- Whatever the action, its work applies a release at most once, and then lets the machine go
on. -/
theorem always_atWork (h : Course origin action past .work j.entry es) {work : Work Outcome}
    (hmem : (.work, work) ∈ (Worker.forAction setup action).steps) :
    AlwaysFrom Conduct.unruled work j es (Applying origin action past) := by
  obtain rfl : work = (Worker.forAction setup action).work := by
    simpa [Worker.steps] using hmem
  cases action with
  | install => exact h.always_install setup
  | update => exact h.always_applyRelease setup _
  | upgrade => exact h.always_applyRelease setup _
  | delete =>
      exact (h.always_work (Work.plain_uninstall setup)
        ((retains setup j.entry).steps hmem ⟨rfl, rfl⟩)).mono fun o _ _ h' => h'.applying o

/-! ### A whole run -/

/-- The machine is at a stage in due course. -/
def At (origin : Stage) (action : Action) (past : Story) (st : Stage) (j : Job) (es : Story) :
    Prop :=
  j.entry.stage = st ∧ Course origin action past st j.entry es

/-- The machine has come to a halt in due course. -/
def Halted (origin : Stage) (action : Action) (past : Story) (_ : Outcome) (j : Job)
    (es : Story) : Prop :=
  Course origin action past j.entry.stage j.entry es

theorem At.halted {st : Stage} (h : At origin action past st j es) (o : Outcome) :
    Halted origin action past o j es := by
  obtain ⟨rfl, h⟩ := h
  exact h

theorem always_enter (h : Course origin action past due j.entry es) {next : Stage}
    (hnext : j.entry.stage.rank < next.rank) (hstart : due = .start → next = .checkNeeded)
    (hle : due.rank ≤ next.rank) :
    AlwaysFrom Conduct.unruled (Work.enter action next) j es fun _ =>
      At origin action past next := by
  rw [Work.always_enter]
  rintro u es' rfl
  exact ⟨rfl, h.enter hnext hstart hle u⟩

theorem At.onward {st : Stage} (h : At origin action past st j es) (hst : st ≠ .finish)
    (o : Outcome) :
    Worker.Onward Conduct.unruled action st (At origin action past) (Halted origin action past) o
      j es := by
  unfold Worker.Onward
  split
  · exact h.halted o
  · obtain ⟨rfl, h⟩ := h
    have hrank := Stage.rank_next hst
    refine h.always_enter (by omega) ?_ (by omega)
    intro hstart
    rw [hstart]
    rfl

/-- The step of the work hands on in due course too. -/
theorem onward_of_applying {o : Outcome} (hstage : j.entry.stage = .work)
    (h : Applying origin action past o j es) :
    Worker.Onward Conduct.unruled action .work (At origin action past) (Halted origin action past)
      o j es := by
  unfold Worker.Onward
  unfold Applying at h
  split
  · rename_i ho
    rw [if_pos ho, ← hstage] at h
    exact h
  · rename_i ho
    rw [if_neg ho] at h
    exact h.always_enter (by rw [hstage]; decide) (fun hstart => absurd hstart (by decide))
      (Nat.le_refl _)

theorem At.always_work {st : Stage} (h : At origin action past st j es) {work : Work α}
    (hplain : Work.Plain work)
    (halike : AlwaysFrom Conduct.unruled work j es fun _ j' _ => j.entry.Alike j'.entry) :
    AlwaysFrom Conduct.unruled work j es fun _ j' es' => At origin action past st j' es' := by
  refine (Always.and halike (h.2.always_work hplain halike)).mono ?_
  rintro ⟨_, j'⟩ es' ⟨halike, hes'⟩
  exact ⟨halike.stage.trans h.1, hes'⟩

/-- A step leads on or to a halt in due course. The work is the one step that may apply a
release. -/
theorem At.always_step {st : Stage} (h : At origin action past st j es) {work : Work Outcome}
    (hmem : (st, work) ∈ (Worker.forAction setup action).steps) :
    AlwaysFrom Conduct.unruled work j es
      (Worker.Onward Conduct.unruled action st (At origin action past)
        (Halted origin action past)) := by
  have halike := (retains setup j.entry).steps (s := es) hmem ⟨rfl, rfl⟩
  have hst : st ≠ .finish := by
    rintro rfl
    simp [Worker.steps] at hmem
  by_cases hwork : st = .work
  · subst hwork
    refine (Always.and halike (h.2.always_atWork hmem)).mono ?_
    rintro ⟨o, j'⟩ es' ⟨halike, happlying⟩
    exact onward_of_applying (halike.stage.trans h.1) happlying
  · exact (h.always_work (Work.oblivious_step hmem hwork).modest.plain halike).mono
      fun o _ _ h' => h'.onward hst o

/-- Whatever is answered, an action is performed in due course. -/
theorem always_perform (h : Course origin action past j.entry.stage j.entry es) (setup : Setup) :
    AlwaysFrom Conduct.unruled (Work.perform setup action) j es
      (Halted origin action past) := by
  rw [Work.always_perform]
  refine Worker.always_run_of_steps (Worker.action_forAction setup action)
    (fun _ _ h' => At.onward h' (by decide) .done) ?_ ?_
    (fun _ _ hmem _ _ h' => h'.always_step hmem) (fun _ _ h' => h'.halted .done) ⟨rfl, h⟩
  · intro j es h
    refine (h.always_work (Work.oblivious_isNeeded setup action).modest.plain
      ((retains setup j.entry).isNeeded ⟨rfl, rfl⟩)).mono ?_
    intro no j' es' h'
    split
    · exact h'.onward (by decide) no.2
    · refine (h'.2.always_enter ?_ ?_ ?_).mono fun _ _ _ hfinish => hfinish.halted .done
      · rw [h'.1]
        decide
      · exact fun hstart => absurd hstart (by decide)
      · decide
  · intro j es h
    refine (h.always_work (Work.modest_isDone setup action).plain
      ((retains setup j.entry).isDone ⟨rfl, rfl⟩)).mono ?_
    intro r j' es' h'
    split
    · exact h'.onward (by decide) r.2
    · refine (h'.2.always_pass Pass.quiet_shortDelay.plain).mono fun o _ hcourse => ?_
      exact At.halted ⟨h'.1, hcourse⟩ o

end Course

end ReleaseOperator
