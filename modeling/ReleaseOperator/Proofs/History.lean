import ReleaseOperator.Proofs.Operations
import ReleaseOperator.Lifecycle.Selection

/-!
# What an event leaves in the status

After an event has been recorded, the newest word on readiness is that event, whether
it was appended or repeats what stood there. So the history alone tells which event was
recorded last, and with it whether an installation is still pending.
-/

namespace ReleaseOperator

namespace Condition

theorem find?_reverse_drop_append {p : Condition → Bool} {c : Condition} (h : p c = true)
    (cs : List Condition) {n : Nat} (hn : n ≤ cs.length) :
    ((cs ++ [c]).drop n).reverse.find? p = some c := by
  rw [List.drop_append_of_le_length hn, List.reverse_append]
  exact List.find?_cons_of_pos h

/-- The newest condition after an observation is that observation, if not literally
then in all but its time. -/
theorem newest?_append (cs : List Condition) (c : Condition) :
    ∃ d, newest? c.type (append cs c) = some d ∧ (d = c ∨ d.sameObservation c = true) := by
  cases hrep : repeats cs c with
  | true =>
      rw [append_of_repeats hrep]
      unfold repeats at hrep
      split at hrep
      · rename_i d hd
        exact ⟨d, hd, Or.inr hrep⟩
      · exact absurd hrep Bool.false_ne_true
  | false =>
      rw [append_of_not_repeats hrep]
      refine ⟨c, ?_, Or.inl rfl⟩
      unfold newest? trim
      have hc : decide (c.type = c.type) = true := decide_eq_true rfl
      refine find?_reverse_drop_append hc _ ?_
      rw [List.length_append, List.length_singleton]
      unfold limit
      omega

theorem reason_of_sameObservation {c d : Condition} (h : c.sameObservation d = true) :
    c.reason = d.reason := by
  simp only [sameObservation, Bool.and_eq_true, decide_eq_true_eq] at h
  exact h.1.1.2

/-- The newest word on readiness is the event recorded last. -/
theorem latestReady?_append (cs : List Condition) (r : Reason) (message time : String) :
    ∃ d, latestReady? (append cs (.ofReason r message time)) = some d ∧ d.reason = r.name := by
  obtain ⟨d, hd, hsame⟩ := newest?_append cs (.ofReason r message time)
  refine ⟨d, hd, ?_⟩
  rcases hsame with rfl | hsame
  · rfl
  · exact reason_of_sameObservation hsame

end Condition

/-- The events that complete the work of an action. -/
def Reason.completions : List Reason :=
  [.installSucceeded, .updateSucceeded, .upgradeSucceeded, .uninstallSucceeded]

/-- Whether a history ends in an event. -/
def endsIn (cs : List Condition) (r : Reason) : Prop :=
  ∃ d, Condition.latestReady? cs = some d ∧ d.reason = r.name

theorem endsIn_unique {cs : List Condition} {r r' : Reason} (h : endsIn cs r)
    (h' : endsIn cs r') : r = r' := by
  obtain ⟨d, hd, hr⟩ := h
  obtain ⟨d', hd', hr'⟩ := h'
  rw [hd] at hd'
  injection hd' with hdd
  rw [← hdd, hr] at hr'
  exact Reason.name_injective hr'

theorem installPending_of_endsIn {cs : List Condition} {r : Reason} (h : endsIn cs r) :
    installPending cs = Reason.installPending.contains r := by
  obtain ⟨d, hd, hr⟩ := h
  unfold installPending
  rw [hd]
  dsimp only
  rw [hr]
  cases r <;> decide

namespace Resource

theorem endsIn_recordReady (r : Resource) (reason : Reason) (message time : String) :
    endsIn (r.recordReady reason message time).conditions reason :=
  Condition.latestReady?_append r.conditions reason message time

theorem status_isSome_of_not_accepts {r : Resource} {c : Condition} (h : r.accepts c = false) :
    r.status.isSome = true := by
  cases hs : r.status with
  | some s => rfl
  | none =>
      have hcs : r.conditions = [] := by
        rw [conditions, statusD, hs]
        rfl
      rw [accepts, hcs] at h
      have htrue : true = false := h
      exact absurd htrue (by decide)

/-- An event that is no news leaves a resource as it is. -/
theorem recordReady_eq_self {r : Resource} {reason : Reason} {message time : String}
    (haccepts : r.accepts (.ofReason reason message time) = false)
    (hphase : r.phase = (r.recordReady reason message time).phase) :
    r.recordReady reason message time = r := by
  have hsome := status_isSome_of_not_accepts haccepts
  have hrep : Condition.repeats r.conditions (.ofReason reason message time) = true := by
    rw [accepts, Bool.not_eq_false'] at haccepts
    exact haccepts
  have hcs := Condition.append_of_repeats hrep
  rcases r with ⟨metadata, spec, _ | status⟩
  · exact absurd hsome Bool.false_ne_true
  · simp only [recordReady, appendCondition, setConditions, setPhase, phase, conditions, statusD,
      Option.getD_some] at hphase hcs ⊢
    rw [hcs, ← hphase]

@[simp] theorem phase_recordReady (r : Resource) (reason : Reason) (message time : String) :
    (r.recordReady reason message time).phase = some (reason.phase r.kind.successPhase) := rfl

@[simp] theorem kind_recordReady (r : Resource) (reason : Reason) (message time : String) :
    (r.recordReady reason message time).kind = r.kind := rfl

@[simp] theorem lastVersion_recordReady (r : Resource) (reason : Reason) (message time : String) :
    (r.recordReady reason message time).lastVersion = r.lastVersion := rfl

@[simp] theorem desiredVersion_recordReady (r : Resource) (reason : Reason)
    (message time : String) :
    (r.recordReady reason message time).desiredVersion = r.desiredVersion := rfl

@[simp] theorem metadata_setDesiredVersion (r : Resource) (version : String) :
    (r.setDesiredVersion version).metadata = r.metadata := by
  unfold setDesiredVersion
  split
  · rfl
  · rfl

@[simp] theorem kind_setDesiredVersion (r : Resource) (version : String) :
    (r.setDesiredVersion version).kind = r.kind := by
  rcases r with ⟨_, _ | _, _⟩
  · rfl
  · rfl

/-- A module gets its chart from the default repository. -/
theorem repository_release {r : Resource} (h : r.kind = .module) (defaults : ChartDefaults) :
    (r.release defaults).repository = defaults.repository := by
  rcases r with ⟨_, _ | _, _⟩
  · rfl
  · exact absurd h Kind.noConfusion

theorem kind_addFinalizer (r : Resource) : r.addFinalizer.kind = r.kind := by
  unfold addFinalizer
  split
  · rfl
  · rfl

theorem key_addFinalizer (r : Resource) :
    (r.addFinalizer.namespaceName, r.addFinalizer.name) = (r.namespaceName, r.name) := by
  unfold addFinalizer
  split
  · rfl
  · rfl

section RecordSuccess

variable (r : Resource) (version : String) (g : Int)

@[simp] theorem metadata_recordSuccess : (r.recordSuccess version g).metadata = r.metadata := by
  unfold recordSuccess
  split
  · rfl
  · rfl

@[simp] theorem spec_recordSuccess : (r.recordSuccess version g).spec = r.spec := by
  unfold recordSuccess
  split
  · rfl
  · rfl

@[simp] theorem conditions_recordSuccess :
    (r.recordSuccess version g).conditions = r.conditions := by
  unfold recordSuccess
  split
  · rfl
  · rfl

@[simp] theorem phase_recordSuccess : (r.recordSuccess version g).phase = r.phase := by
  unfold recordSuccess
  split
  · rfl
  · rfl

@[simp] theorem observedGeneration_recordSuccess :
    (r.recordSuccess version g).observedGeneration = r.observedGeneration := by
  unfold recordSuccess
  split
  · rfl
  · rfl

theorem lastVersion_recordSuccess (h : r.kind = .module) :
    (r.recordSuccess version g).lastVersion = some version ∧
      (r.recordSuccess version g).statusD.lastGeneration = some g := by
  have hkind : (r.recordSuccess version g).kind = .module := by
    rw [kind, spec_recordSuccess]
    exact h
  rw [lastVersion, hkind, recordSuccess, h]
  exact ⟨rfl, rfl⟩

end RecordSuccess

end Resource

namespace Job

@[simp] theorem metadata_noted (j : Job) (reason : Reason) (detail : Option String)
    (time : String) : (j.noted reason detail time).metadata = j.resource.metadata := rfl

@[simp] theorem spec_noted (j : Job) (reason : Reason) (detail : Option String) (time : String) :
    (j.noted reason detail time).spec = j.resource.spec := rfl

theorem endsIn_noted (j : Job) (reason : Reason) (detail : Option String) (time : String) :
    endsIn (j.noted reason detail time).conditions reason :=
  j.resource.endsIn_recordReady reason _ time

/-- An event that is no news leaves the resource of a job as it is. -/
theorem noted_eq_self {j : Job} {reason : Reason} {detail : Option String} {time : String}
    (h : j.isNews reason detail time = false) : j.noted reason detail time = j.resource := by
  rw [isNews, Bool.or_eq_false_iff] at h
  refine Resource.recordReady_eq_self h.1 ?_
  have := of_decide_eq_false h.2
  exact Decidable.not_not.1 this

end Job

namespace Work

variable (j : Job) (reason : Reason) (reaches : Bool) (time : String)

@[simp] theorem metadata_concluded :
    (concluded j reason reaches time).metadata = j.resource.metadata := by
  cases reaches with
  | false => rfl
  | true => exact Resource.metadata_recordSuccess _ _ _

@[simp] theorem spec_concluded : (concluded j reason reaches time).spec = j.resource.spec := by
  cases reaches with
  | false => rfl
  | true => exact Resource.spec_recordSuccess _ _ _

theorem observedGeneration_concluded :
    (concluded j reason reaches time).observedGeneration = some j.resource.generation := by
  cases reaches with
  | false => rfl
  | true => exact Resource.observedGeneration_recordSuccess _ _ _

theorem conditions_concluded :
    (concluded j reason reaches time).conditions = (j.noted reason none time).conditions := by
  cases reaches with
  | false => rfl
  | true => exact Resource.conditions_recordSuccess _ _ _

theorem phase_concluded :
    (concluded j reason reaches time).phase = (j.noted reason none time).phase := by
  cases reaches with
  | false => rfl
  | true => exact Resource.phase_recordSuccess _ _ _

theorem endsIn_concluded : endsIn (concluded j reason reaches time).conditions reason := by
  rw [conditions_concluded]
  exact j.endsIn_noted reason none time

/-- A module that reaches its version records it, with the generation at hand. -/
theorem success_concluded (h : j.resource.kind = .module) :
    (concluded j reason true time).lastVersion = some j.resource.desiredVersion ∧
      (concluded j reason true time).statusD.lastGeneration = some j.resource.generation :=
  Resource.lastVersion_recordSuccess
    ((j.noted reason none time).setObservedGeneration j.resource.generation) _ _ h

end Work

end ReleaseOperator
