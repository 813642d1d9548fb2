import ReleaseOperator.Proofs.Operations

/-!
# Opening a pass

A pass reads the resource, finds or makes its entry, chooses an action and runs it. The
equations of this file open these layers one by one, so that a statement about a pass
comes down to one about the run of an action on a job.
-/

namespace ReleaseOperator

open Program

variable {S α : Type} {b : Conduct S} {j : Job} {s : S}

namespace Work

theorem always_perform (setup : Setup) (action : Action) (post : Outcome → Job → S → Prop) :
    AlwaysFrom b (Work.perform setup action) j s post ↔
      AlwaysFrom b ((Worker.forAction setup action).run surroundings j.entry.stage) j s post := by
  rw [Work.perform, alwaysFrom_bind, alwaysFrom_get]

/-- The action that has been chosen is kept; otherwise one is chosen now. -/
theorem always_runPinned (setup : Setup) (post : Outcome → Job → S → Prop) :
    AlwaysFrom b (Work.runPinned setup) j s post ↔
      match j.entry.action with
      | some a => AlwaysFrom b (perform setup a) j s post
      | none => Always b j.chooseAction s fun r s' =>
          match r with
          | .ok a => AlwaysFrom b (perform setup a) { j with entry := j.entry.pin a } s' post
          | .error o => post o j s' := by
  rw [Work.runPinned, Work.pinnedAction, alwaysFrom_bind, alwaysFrom_bind, alwaysFrom_get]
  cases j.entry.action with
  | some a => exact Iff.rfl
  | none =>
      dsimp only
      rw [alwaysFrom_bind, Work.always_ask]
      refine always_congr fun r s' => ?_
      cases r with
      | error o => exact Iff.rfl
      | ok a => exact Iff.rfl

/-- A resource that lives: its finished work is taken up again when its values have
changed. -/
theorem always_live (setup : Setup) (post : Outcome → Job → S → Prop) :
    AlwaysFrom b (Work.live setup) j s post ↔
      if j.entry.stage = .finish then
        AlwaysFrom b (valuesChanged setup) j s fun r j' s' =>
          match r with
          | .error o => post o j' s'
          | .ok false => post .done j' s'
          | .ok true =>
            AlwaysFrom b (runPinned setup) { j' with entry := (j'.entry.pin .update).rearm } s' post
      else AlwaysFrom b (runPinned setup) j s post := by
  rw [Work.live, alwaysFrom_bind, alwaysFrom_get]
  split
  · rw [alwaysFrom_bind]
    refine alwaysFrom_congr fun r j' s' => ?_
    rcases r with o | _ | _
    · exact Iff.rfl
    · exact Iff.rfl
    · exact Iff.rfl
  · exact Iff.rfl

end Work

/-- Helm is asked for the values only when none were applied under this entry. -/
theorem Job.always_appliedDigest (setup : Setup) (desired : String)
    (post : Except Outcome String → S → Prop) :
    Always b (j.appliedDigest setup desired) s post ↔
      match j.entry.digest with
      | some d => post (.ok d) s
      | none =>
        if setup.dryRun then post (.ok desired) s
        else
          ∀ a s', b.may s (.helm (.values j.release.name j.release.namespaceName)) a s' →
            match a with
            | .ok deployed => post (.ok (Values.digest deployed)) s'
            | .error (.releaseNotFound _ _) => post (.ok desired) s'
            | .error e => Always b (Pass.shortDelayWith (.helm e)) s' fun o s'' =>
                post (.error o) s'' := by
  rw [Job.appliedDigest]
  cases j.entry.digest with
  | some d => exact Iff.rfl
  | none =>
      dsimp only
      split
      · exact Iff.rfl
      · rw [always_bind, Pass.always_helm]
        refine forall_congr' fun a => forall_congr' fun s' => imp_congr_right fun _ => ?_
        rcases a with e | deployed
        · cases e with
          | releaseNotFound name ns => exact Iff.rfl
          | _ => exact always_bind _ _ _
        · exact Iff.rfl

namespace Work

/-- The work of a settled resource is done again when the values it asks for are not
those applied, which are remembered on the way. -/
theorem always_valuesChanged (setup : Setup) (post : Except Outcome Bool → Job → S → Prop) :
    AlwaysFrom b (valuesChanged setup) j s post ↔
      if j.resource.wish ≠ .declarative || !j.resource.selectsUpdate then post (.ok false) j s
      else
        Always b (j.valuesDigest setup).run s fun d s' =>
          match d with
          | .error e => Always b (Pass.shortDelayWith (.source e)) s' fun o s'' =>
              post (.error o) j s''
          | .ok desired =>
            Always b (j.appliedDigest setup desired) s' fun a s'' =>
              match a with
              | .error o => post (.error o) j s''
              | .ok applied =>
                post (.ok (applied ≠ desired)) { j with entry := j.entry.setDigest applied }
                  s'' := by
  rw [valuesChanged, alwaysFrom_bind, alwaysFrom_get]
  split
  · exact Iff.rfl
  · rw [alwaysFrom_bind, Work.always_ask]
    refine always_congr fun d s' => ?_
    cases d with
    | error e =>
        dsimp only
        rw [alwaysFrom_bind, Work.always_ask]
        exact Iff.rfl
    | ok desired =>
        dsimp only
        rw [alwaysFrom_bind, Work.always_ask]
        refine always_congr fun a s'' => ?_
        cases a with
        | error o => exact Iff.rfl
        | ok applied => exact Iff.rfl

/-- The finalizer goes when the release is gone. -/
theorem always_clear (setup : Setup) (post : Bool × Outcome → Job → S → Prop) :
    AlwaysFrom b (clear setup) j s post ↔
      AlwaysFrom b (perform setup .delete) j s fun o j' s' =>
        if o.requeue then post (false, o) j' s'
        else
          Always b (Pass.removeFinalizer j'.resource) s' fun or s'' =>
            if or.1.requeue then post (false, or.1) { j' with resource := or.2 } s''
            else post (true, .done) { j' with resource := or.2 } s'' := by
  rw [clear, alwaysFrom_bind]
  refine alwaysFrom_congr fun o j' s' => ?_
  split
  · exact Iff.rfl
  · rw [alwaysFrom_bind, always_write]
    refine always_congr fun or s'' => ?_
    split
    · exact Iff.rfl
    · exact Iff.rfl

end Work

namespace Reconcile

theorem always_withEntry (r : Resource) (tracker : Memory → Tracker)
    (put : Tracker → Memory → Memory) (work : Entry → Pass (α × Job)) (m : Memory)
    (post : α × Job → Memory → S → Prop) :
    AlwaysFrom b (withEntry r tracker put work) m s post ↔
      Always b (work ((tracker m).ensure (.ofResource r) r.generation .start).1) s fun aj s' =>
        let m' := put ((tracker m).ensure (.ofResource r) r.generation .start).2 m
        post aj (put ((tracker m').record (.ofResource r) r.generation aj.2.entry) m') s' := by
  rw [withEntry, alwaysFrom_bind, alwaysFrom_get, alwaysFrom_bind, alwaysFrom_modify,
    alwaysFrom_bind, alwaysFrom_lift]
  exact Iff.rfl

theorem always_live (setup : Setup) (r : Resource) (m : Memory)
    (post : Outcome → Memory → S → Prop) :
    AlwaysFrom b (live setup r) m s post ↔
      let et := m.lifecycle.ensure (.ofResource r) r.generation .start
      AlwaysFrom b (Work.live setup) (Job.start setup r et.1) s fun o j s' =>
        post o { m with lifecycle := et.2.record (.ofResource r) r.generation j.entry } s' := by
  rw [live, alwaysFrom_bind, always_withEntry]
  exact Iff.rfl

theorem always_clear (setup : Setup) (r : Resource) (m : Memory)
    (post : Outcome → Memory → S → Prop) :
    AlwaysFrom b (clear setup r) m s post ↔
      if r.hasFinalizer then
        let et := m.deletion.ensure (.ofResource r) r.generation .start
        AlwaysFrom b (Work.clear setup) (Job.start setup r et.1) s fun fo j s' =>
          let m' := { m with deletion := et.2.record (.ofResource r) r.generation j.entry }
          post fo.2 (if fo.1 then m'.forget j.resource else m') s'
      else post .done (m.forget r) s := by
  unfold clear
  split
  · rw [alwaysFrom_bind, always_withEntry]
    refine always_congr fun foj s' => ?_
    rcases foj with ⟨⟨_ | _, o⟩, j⟩
    · exact Iff.rfl
    · exact Iff.rfl
  · exact Iff.rfl

/-- A resource that was found is cleared away, left alone, given its finalizer or worked
on. -/
theorem always_found (setup : Setup) (r : Resource) (m : Memory)
    (post : Outcome → Memory → S → Prop) :
    AlwaysFrom b (found setup r) m s post ↔
      if r.isDeleting then AlwaysFrom b (clear setup r) m s post
      else if r.isTerminal then post .done m s
      else
        Always b (Pass.ensureFinalizer r) s fun or s' =>
          match or with
          | (some o, _) => post o m s'
          | (none, r') => AlwaysFrom b (live setup r') m s' post := by
  unfold found
  split
  · exact Iff.rfl
  · split
    · exact Iff.rfl
    · rw [alwaysFrom_bind, alwaysFrom_lift]
      refine always_congr fun or s' => ?_
      rcases or with ⟨_ | o, r'⟩
      · exact Iff.rfl
      · exact Iff.rfl

end Reconcile

theorem always_reconcile (setup : Setup) (kind : Kind) (ns name : String) (m : Memory)
    (post : Except PassError Outcome → Memory → S → Prop) :
    AlwaysFrom b (reconcile setup kind ns name) m s post ↔
      ∀ a s', b.may s (.store (.get kind ns name)) a s' →
        match a with
        | .error e => Always b (Pass.shortDelayWith (.cluster e)) s' fun o s'' => post (.ok o) m s''
        | .ok none => post (.ok .done) (m.forgetNamed kind ns name) s'
        | .ok (some r) =>
          if r.className ≠ setup.className then
            post (.error (.invariant (kind.name ++ " " ++ ns ++ "/" ++ name ++
              " is not of class " ++ setup.className))) m s'
          else AlwaysFrom b (Reconcile.found setup r) m s' fun o => post (.ok o) := by
  rw [reconcile, alwaysFrom_bind, alwaysFrom_lift, Pass.always_get]
  refine forall_congr' fun a => forall_congr' fun s' => imp_congr_right fun _ => ?_
  rcases a with e | _ | r
  · dsimp only
    rw [alwaysFrom_bind, alwaysFrom_lift]
    exact Iff.rfl
  · exact Iff.rfl
  · dsimp only
    split
    · exact Iff.rfl
    · rw [alwaysFrom_bind]
      exact Iff.rfl

end ReleaseOperator
