import ReleaseOperator.Proofs.Invariants

/-!
# Coherent statuses

A status hangs together when its few conditions speak of different events, its phase is the
one that the newest of them puts the resource into, and the generations in it are in order.
Recording an event, on the way or at the end of the work, makes a coherent status out of one
that is orderly, be it empty.
-/

namespace ReleaseOperator

namespace Condition

variable {cs : List Condition} {c : Condition}

/-- A history of conditions of one type, with an event for each. -/
structure Tidy (cs : List Condition) : Prop where
  few : cs.length ≤ 5
  ready : ∀ c ∈ cs, c.type = readyType
  distinct : (cs.map reason).Nodup

theorem tidy_nil : Tidy [] :=
  ⟨Nat.zero_le _, fun _ h => absurd h List.not_mem_nil, List.nodup_nil⟩

/-- In a tidy history the newest word on readiness is the newest of all. -/
theorem latestReady?_eq_getLast? (h : Tidy cs) : latestReady? cs = cs.getLast? := by
  rw [latestReady?, newest?, List.getLast?_eq_head?_reverse]
  cases hrev : cs.reverse with
  | nil => rfl
  | cons c rest =>
      have hc : c ∈ cs := List.mem_reverse.1 (hrev ▸ List.mem_cons_self)
      exact List.find?_cons_of_pos (decide_eq_true (h.ready c hc))

theorem sameTopic_eq (h : Tidy cs) (hc : c.type = readyType) {d : Condition} (hd : d ∈ cs) :
    d.sameTopic c = decide (d.reason = c.reason) := by
  rw [sameTopic, h.ready d hd, hc, decide_eq_true rfl, Bool.true_and]

/-- A new observation takes the place of the one that spoke of the same event. -/
theorem Tidy.append (h : Tidy cs) (hc : c.type = readyType) : Tidy (append cs c) := by
  cases hrep : repeats cs c with
  | true =>
      rw [append_of_repeats hrep]
      exact h
  | false =>
      rw [append_of_not_repeats hrep]
      have hsub : ∀ d ∈ cs.filter (fun d => !d.sameTopic c), d ∈ cs ∧ d.reason ≠ c.reason := by
        intro d hd
        obtain ⟨hmem, hother⟩ := List.mem_filter.1 hd
        rw [sameTopic_eq h hc hmem, Bool.not_eq_true', decide_eq_false_iff_not] at hother
        exact ⟨hmem, hother⟩
      have hall : ∀ d ∈ cs.filter (fun d => !d.sameTopic c) ++ [c], d.type = readyType := by
        intro d hd
        rcases List.mem_append.1 hd with hd | hd
        · exact h.ready d (hsub d hd).1
        · rw [List.mem_singleton.1 hd]
          exact hc
      have hdistinct : ((cs.filter (fun d => !d.sameTopic c) ++ [c]).map reason).Nodup := by
        rw [List.map_append, List.nodup_append]
        refine ⟨(List.filter_sublist.map _).nodup h.distinct,
          List.nodup_cons.2 ⟨List.not_mem_nil, List.nodup_nil⟩, ?_⟩
        intro x hx y hy
        obtain ⟨d, hd, rfl⟩ := List.mem_map.1 hx
        rw [List.mem_singleton.1 hy]
        exact (hsub d hd).2
      refine ⟨length_trim_le _, ?_, ?_⟩
      · intro d hd
        exact hall d (List.mem_of_mem_drop hd)
      · exact ((List.drop_sublist _ _).map _).nodup hdistinct

end Condition

namespace Resource

/-- The generation that one resource speaks of is known to the other. -/
def SeenBy (r o : Resource) : Prop :=
  ∀ g, r.observedGeneration = some g → ∃ g', o.observedGeneration = some g' ∧ g ≤ g'

theorem SeenBy.refl (r : Resource) : r.SeenBy r :=
  fun g hg => ⟨g, hg, Int.le_refl g⟩

theorem SeenBy.trans {r o p : Resource} (h : r.SeenBy o) (h' : o.SeenBy p) : r.SeenBy p := by
  intro g hg
  obtain ⟨g', hg', hle⟩ := h g hg
  obtain ⟨g'', hg'', hle'⟩ := h' g' hg'
  exact ⟨g'', hg'', Int.le_trans hle hle'⟩

theorem seenBy_of_status {r o : Resource} (h : o.status = r.status) : r.SeenBy o := by
  intro g hg
  refine ⟨g, ?_, Int.le_refl g⟩
  rw [observedGeneration, statusD, h]
  exact hg

/-- A status in order: a tidy history, and no generation in it that is ahead of another that
should be at least as far. A status that is still empty is in order. -/
structure Orderly (r : Resource) : Prop where
  tidy : Condition.Tidy r.conditions
  observed : ∀ g, r.observedGeneration = some g → g ≤ r.generation
  success : ∀ g, r.statusD.lastGeneration = some g →
    ∃ g', r.observedGeneration = some g' ∧ g ≤ g'

/-- The newest condition tells an event, and the phase is what that event makes of a resource
of this kind. Only the completion of an action leads into a phase in which a resource is left
alone for good. -/
def Tells (r : Resource) (reason : Reason) : Prop :=
  (∃ c, r.conditions.getLast? = some c ∧ c.reason = reason.name) ∧
    r.phase = some (reason.phase r.kind.successPhase) ∧
    (r.isTerminal = true → r.kind = .action ∧ r.phase = some .completed ∧
      reason ∈ Reason.completions)

/-- A status that hangs together. -/
structure Coherent (r : Resource) : Prop extends Orderly r where
  tells : ∃ reason, r.Tells reason

theorem orderly_of_status_none {r : Resource} (h : r.status = none) : r.Orderly := by
  have hempty : r.statusD = .empty := by
    rw [statusD, h]
    rfl
  refine ⟨?_, ?_, ?_⟩
  · rw [conditions, hempty]
    exact Condition.tidy_nil
  · intro g hg
    rw [observedGeneration, hempty] at hg
    exact absurd hg (by simp [Status.empty])
  · intro g hg
    rw [hempty] at hg
    exact absurd hg (by simp [Status.empty])

theorem orderly_of_coherent {r : Resource} (h : r.status.isSome = true → r.Coherent) :
    r.Orderly := by
  cases hs : r.status with
  | none => exact orderly_of_status_none hs
  | some st => exact (h (by rw [hs]; rfl)).toOrderly

variable {r o : Resource}

/-- The same status on a resource of the same kind that has come at least as far. -/
theorem Orderly.of_status (h : r.Orderly) (hstatus : o.status = r.status)
    (hgen : r.generation ≤ o.generation) : o.Orderly := by
  have hD : o.statusD = r.statusD := by
    rw [statusD, hstatus]
    rfl
  refine ⟨?_, ?_, ?_⟩
  · rw [conditions, hD]
    exact h.tidy
  · intro g hg
    rw [observedGeneration, hD] at hg
    exact Int.le_trans (h.observed g hg) hgen
  · intro g hg
    rw [observedGeneration, hD] at *
    exact h.success g hg

theorem Coherent.of_status (h : r.Coherent) (hstatus : o.status = r.status)
    (hkind : o.kind = r.kind) (hgen : r.generation ≤ o.generation) : o.Coherent := by
  have hD : o.statusD = r.statusD := by
    rw [statusD, hstatus]
    rfl
  refine ⟨h.toOrderly.of_status hstatus hgen, ?_⟩
  obtain ⟨reason, hnewest, hphase, hterminal⟩ := h.tells
  refine ⟨reason, ?_⟩
  rw [Tells, isTerminal, conditions, phase, hD, hkind]
  exact ⟨hnewest, hphase, hterminal⟩

end Resource

/-! ### Recording -/

namespace Job

variable {j : Job} {reason : Reason}

theorem tells_noted (h : j.resource.Orderly)
    (hreason : reason ∈ Reason.underway ∨ reason ∈ Reason.completions) (detail : Option String)
    (time : String) : (j.noted reason detail time).Tells reason := by
  have htidy : Condition.Tidy (j.noted reason detail time).conditions := h.tidy.append rfl
  obtain ⟨c, hc, hname⟩ := j.endsIn_noted reason detail time
  rw [Condition.latestReady?_eq_getLast? htidy] at hc
  refine ⟨⟨c, hc, hname⟩, rfl, ?_⟩
  intro hterminal
  have hphase : (reason.phase j.resource.kind.successPhase).isTerminal = true := hterminal
  have hkind : (j.noted reason detail time).kind = j.resource.kind := rfl
  have hnoted : (j.noted reason detail time).phase =
      some (reason.phase j.resource.kind.successPhase) := rfl
  rw [hkind, hnoted]
  cases hk : j.resource.kind with
  | module =>
      rw [hk] at hphase
      cases reason <;> exact absurd hphase (by decide)
  | action =>
      rw [hk] at hphase
      cases reason <;> first
        | exact absurd hphase (by decide)
        | exact ⟨rfl, rfl, by decide⟩
        | exact absurd hreason (by decide)

theorem orderly_noted (h : j.resource.Orderly) (detail : Option String) (time : String) :
    (j.noted reason detail time).Orderly :=
  ⟨h.tidy.append rfl, h.observed, h.success⟩

/-- A completion records the generation at hand as the last success, or leaves that as it
was. -/
theorem lastGeneration_concluded (j : Job) (reason : Reason) (reaches : Bool) (time : String) :
    (Work.concluded j reason reaches time).statusD.lastGeneration = some j.resource.generation ∨
      (Work.concluded j reason reaches time).statusD.lastGeneration =
        j.resource.statusD.lastGeneration := by
  cases reaches with
  | false => exact Or.inr rfl
  | true =>
      cases hk : j.resource.kind with
      | module => exact Or.inl (Work.success_concluded j reason time hk).2
      | action =>
          right
          have hkind : ((j.noted reason none time).setObservedGeneration
              j.resource.generation).kind = .action := hk
          unfold Work.concluded
          dsimp only
          rw [if_pos rfl, Resource.recordSuccess, hkind]
          rfl

/-- A completion speaks of the generation at hand, which is no earlier than the one spoken of
before. -/
theorem coherent_concluded (h : j.resource.Orderly)
    (hreason : reason ∈ Reason.underway ∨ reason ∈ Reason.completions) (reaches : Bool)
    (time : String) : (Work.concluded j reason reaches time).Coherent := by
  have hobs := Work.observedGeneration_concluded j reason reaches time
  have hgen : (Work.concluded j reason reaches time).generation = j.resource.generation := by
    rw [Resource.generation, Work.metadata_concluded]
    rfl
  have hkind : (Work.concluded j reason reaches time).kind = (j.noted reason none time).kind := by
    rw [Resource.kind, Work.spec_concluded]
    rfl
  refine ⟨⟨?_, ?_, ?_⟩, reason, ?_⟩
  · rw [Work.conditions_concluded]
    exact h.tidy.append rfl
  · intro g hg
    rw [hobs] at hg
    exact Int.le_of_eq (hgen.trans (Option.some.inj hg)).symm
  · intro g hg
    refine ⟨_, hobs, ?_⟩
    rcases lastGeneration_concluded j reason reaches time with hlast | hlast
    · rw [hlast] at hg
      exact Int.le_of_eq (Option.some.inj hg).symm
    · rw [hlast] at hg
      obtain ⟨g', hg', hle⟩ := h.success g hg
      exact Int.le_trans hle (h.observed g' hg')
  · rw [Resource.Tells, Resource.isTerminal, Work.conditions_concluded, Work.phase_concluded,
      hkind]
    exact tells_noted h hreason none time

/-- Whatever work records is coherent, and the generation that it speaks of is no earlier
one. -/
theorem Recorded.coherent {w : Resource} (hw : j.Recorded reason w) (h : j.resource.Orderly)
    (hreason : reason ∈ Reason.underway ∨ reason ∈ Reason.completions) :
    w.Coherent ∧ j.resource.SeenBy w := by
  cases hw with
  | noted detail time =>
      exact ⟨⟨orderly_noted h detail time, reason, tells_noted h hreason detail time⟩,
        Resource.SeenBy.refl _⟩
  | concluded reaches time =>
      refine ⟨coherent_concluded h hreason reaches time, ?_⟩
      intro g hg
      exact ⟨_, Work.observedGeneration_concluded j reason reaches time, h.observed g hg⟩

end Job

end ReleaseOperator
