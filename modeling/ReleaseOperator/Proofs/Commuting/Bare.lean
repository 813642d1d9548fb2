import ReleaseOperator.Proofs.Evidence.Since

/-!
# What is left without revisions and times

Two runs of the same work number their writes and date their events differently, and they
draw different delays. The bare form of a resource, an entry or an outcome leaves these out.
A pass never looks at them: whatever it reads off a resource it reads off the bare one, and
the bare form of what it makes of a resource is made of the bare one.
-/

namespace ReleaseOperator

open InMemory

/-! ### Conditions -/

namespace Condition

/-- A condition without the time it was observed at. -/
def bare (c : Condition) : Condition := { c with time := c.time.map fun _ => "" }

theorem bare_ofReason (r : Reason) (message time : String) :
    (ofReason r message time).bare = ofReason r message "" := rfl

theorem newest?_map_bare (type : String) (cs : List Condition) :
    newest? type (cs.map bare) = (newest? type cs).map bare := by
  rw [newest?, newest?, ← List.map_reverse, List.find?_map]
  rfl

theorem repeats_map_bare (cs : List Condition) (c : Condition) :
    repeats (cs.map bare) c.bare = repeats cs c := by
  rw [repeats, repeats, show c.bare.type = c.type from rfl, newest?_map_bare]
  cases newest? c.type cs with
  | none => rfl
  | some d => rfl

theorem trim_map_bare (cs : List Condition) : trim (cs.map bare) = (trim cs).map bare := by
  rw [trim, trim, List.length_map, List.map_drop]

theorem append_map_bare (cs : List Condition) (c : Condition) :
    append (cs.map bare) c.bare = (append cs c).map bare := by
  rw [append, append, repeats_map_bare]
  split
  · rfl
  · rw [← trim_map_bare, List.map_append, List.filter_map]
    rfl

end Condition

/-! ### Resources -/

/-- A status without the times of its conditions. -/
def Status.bare (s : Status) : Status := { s with conditions := s.conditions.map Condition.bare }

namespace Resource

/-- A resource without its revision and the times of its conditions. -/
def bare (r : Resource) : Resource :=
  { r with
    metadata := { r.metadata with resourceVersion := r.metadata.resourceVersion.map fun _ => "" }
    status := r.status.map Status.bare }

/-- What is read off bare resources alike is alike for resources with the same bare form. -/
theorem eq_of_bare {α : Type} {f : Resource → α} (hf : ∀ r, f r.bare = f r) {r r' : Resource}
    (h : r.bare = r'.bare) : f r = f r' := by
  rw [← hf r, h, hf]

theorem statusD_bare (r : Resource) : r.bare.statusD = r.statusD.bare := by
  rcases r with ⟨metadata, spec, _ | status⟩
  · rfl
  · rfl

theorem conditions_bare (r : Resource) : r.bare.conditions = r.conditions.map Condition.bare := by
  rw [conditions, statusD_bare]
  rfl

theorem phase_bare (r : Resource) : r.bare.phase = r.phase := by
  rw [phase, statusD_bare]
  rfl

theorem isTerminal_bare (r : Resource) : r.bare.isTerminal = r.isTerminal := by
  rw [isTerminal, phase_bare, isTerminal]

theorem lastVersion_bare (r : Resource) : r.bare.lastVersion = r.lastVersion := by
  rw [lastVersion, statusD_bare]
  rfl

theorem accepts_bare (r : Resource) (c : Condition) :
    r.bare.accepts c.bare = r.accepts c := by
  rw [accepts, conditions_bare, Condition.repeats_map_bare]
  rfl

theorem installPending_map_bare (cs : List Condition) :
    installPending (cs.map Condition.bare) = installPending cs := by
  rw [installPending, installPending, Condition.latestReady?, Condition.latestReady?,
    Condition.newest?_map_bare]
  cases Condition.newest? Condition.readyType cs with
  | none => rfl
  | some c => rfl

theorem selectAction_bare (r : Resource) : r.bare.selectAction = r.selectAction := by
  rw [selectAction, conditions_bare, installPending_map_bare, lastVersion_bare]
  rfl

theorem selectsUpdate_bare (r : Resource) : r.bare.selectsUpdate = r.selectsUpdate := by
  rw [selectsUpdate, selectAction_bare]
  rfl

/-! What is made of a resource -/

theorem bare_setPhase (r : Resource) (p : Phase) : (r.setPhase p).bare = r.bare.setPhase p := by
  rcases r with ⟨metadata, spec, _ | status⟩
  · rfl
  · rfl

theorem bare_setConditions (r : Resource) (cs : List Condition) :
    (r.setConditions cs).bare = r.bare.setConditions (cs.map Condition.bare) := by
  rcases r with ⟨metadata, spec, _ | status⟩
  · rfl
  · rfl

theorem bare_appendCondition (r : Resource) (c : Condition) :
    (r.appendCondition c).bare = r.bare.appendCondition c.bare := by
  rw [appendCondition, appendCondition, bare_setConditions, conditions_bare,
    Condition.append_map_bare]

/-- An event is recorded the same whenever it happens. -/
theorem bare_recordReady (r : Resource) (reason : Reason) (message time : String) :
    (r.recordReady reason message time).bare = r.bare.recordReady reason message "" := by
  rw [recordReady, recordReady, bare_setPhase, bare_appendCondition, Condition.bare_ofReason]
  rfl

theorem bare_setObservedGeneration (r : Resource) (g : Int) :
    (r.setObservedGeneration g).bare = r.bare.setObservedGeneration g := by
  rcases r with ⟨metadata, spec, _ | status⟩
  · rfl
  · rfl

theorem bare_recordSuccess (r : Resource) (version : String) (g : Int) :
    (r.recordSuccess version g).bare = r.bare.recordSuccess version g := by
  rw [recordSuccess, recordSuccess, statusD_bare]
  cases hkind : r.kind with
  | module => rw [show r.bare.kind = .module from hkind]; rfl
  | action => rw [show r.bare.kind = .action from hkind]

theorem bare_copyStatus (r other : Resource) :
    (r.copyStatus other).bare = r.bare.copyStatus other.bare := rfl

theorem bare_addFinalizer (r : Resource) : r.addFinalizer.bare = r.bare.addFinalizer := by
  rw [addFinalizer, addFinalizer, show r.bare.hasFinalizer = r.hasFinalizer from rfl]
  split
  · rfl
  · rfl

theorem bare_removeFinalizer (r : Resource) : r.removeFinalizer.bare = r.bare.removeFinalizer :=
  rfl

theorem bare_setDesiredVersion (r : Resource) (version : String) :
    (r.setDesiredVersion version).bare = r.bare.setDesiredVersion version := by
  rcases r with ⟨metadata, s | s, status⟩
  · rfl
  · rfl

end Resource

/-- The status of a resource is written the same whatever the revisions are. -/
theorem InMemory.Store.bare_withStatusOf {old old' r r' : Resource} (hold : old.bare = old'.bare)
    (h : r.bare = r'.bare) (n n' : Nat) :
    (Store.withStatusOf old r n).bare = (Store.withStatusOf old' r' n').bare := by
  have hbare : ∀ (o w : Resource) (k : Nat), (Store.withStatusOf o w k).bare =
      { o.bare with
        metadata := { o.bare.metadata with resourceVersion := some "" }
        status := w.bare.status } := fun _ _ _ => rfl
  rw [hbare, hbare, hold, h]

/-- A resource is written the same whatever the revisions are. -/
theorem InMemory.Store.bare_merged {old old' r r' : Resource} (hold : old.bare = old'.bare)
    (h : r.bare = r'.bare) (s s' : Store) :
    (s.merged old r).bare = (s'.merged old' r').bare := by
  have hbare : ∀ (store : Store) (o w : Resource), (store.merged o w).bare =
      { w.bare with
        metadata := { w.bare.metadata with
          deletionTime := o.bare.metadata.deletionTime
          uid := o.bare.metadata.uid
          generation := some (if Store.sameSpec w.bare o.bare then o.bare.generation
            else o.bare.generation + 1)
          resourceVersion := some "" }
        status := o.bare.status } := fun _ _ _ => rfl
  rw [hbare, hbare, hold, h]

/-! ### Entries, jobs and outcomes -/

/-- An entry without the time of its first announcement. -/
def Entry.bare (e : Entry) : Entry := { e with preInstall := e.preInstall.map fun _ => "" }

theorem Entry.bare_markPreInstall (e : Entry) (time : String) :
    (e.markPreInstall time).bare = e.bare.markPreInstall "" := by
  rcases e with ⟨generation, stage, action, digest, _ | first⟩
  · rfl
  · rfl

namespace Job

/-- A job with what is left of its resource and its entry. -/
def bare (j : Job) : Job := ⟨j.resource.bare, j.release, j.entry.bare⟩

/-- What is read off bare jobs alike is alike for jobs with the same bare form. -/
theorem eq_of_bare {α : Type} {f : Job → α} (hf : ∀ j, f j.bare = f j) {j j' : Job}
    (h : j.bare = j'.bare) : f j = f j' := by
  rw [← hf j, h, hf]

theorem bare_noted (j : Job) (reason : Reason) (detail : Option String) (time : String) :
    (j.noted reason detail time).bare = j.bare.noted reason detail "" :=
  Resource.bare_recordReady _ _ _ _

theorem isNews_bare (j : Job) (reason : Reason) (detail : Option String) (time : String) :
    j.bare.isNews reason detail "" = j.isNews reason detail time := by
  have haccepts := Resource.accepts_bare j.resource
    (.ofReason reason (j.message reason detail) time)
  have hphase := Resource.phase_bare (j.noted reason detail time)
  rw [bare_noted] at hphase
  rw [isNews, isNews, hphase, show j.bare.resource.phase = j.resource.phase from
    Resource.phase_bare j.resource, ← haccepts]
  rfl

end Job

namespace Outcome

/-- An outcome without the delay that was drawn for it. -/
def bare (o : Outcome) : Outcome := if o.requeue then { o with delay := 0 } else o

theorem requeue_bare (o : Outcome) : o.bare.requeue = o.requeue := by
  unfold bare
  split
  · rfl
  · rfl

theorem requeue_eq_of_bare {o o' : Outcome} (h : o.bare = o'.bare) : o.requeue = o'.requeue := by
  rw [← requeue_bare o, h, requeue_bare]

theorem bare_after (d d' : Duration) : (after d).bare = (after d').bare := rfl

theorem bare_failed (d d' : Duration) (f : Failure) : (failed d f).bare = (failed d' f).bare := rfl

end Outcome

end ReleaseOperator
