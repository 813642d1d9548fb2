import ReleaseOperator.Proofs.Selections

/-!
# A selection that outlasts its own work

The action of a module is selected from its status, and the work on the action writes into that
same status. If what it wrote changed the selection, an operator that has forgotten what it was
doing would begin with something else. It does not: the events on the way of an action, however
many and in whatever order, leave the selection as it was. The event of success together with the
version that was reached ends it, and from then on the module is updated.
-/

namespace ReleaseOperator

/-- An event on the way of an action: it is announced at one of the stages, or tells that the work
has failed. -/
def Action.InFlight (a : Action) (reason : Reason) : Prop :=
  (∃ st, a.announced? st = some reason) ∨ reason = a.failure

/-- Of all actions only an installation is pending after an event on its way. -/
theorem Action.contains_installPending {a : Action} {reason : Reason} (h : a.InFlight reason) :
    Reason.installPending.contains reason = decide (a = .install) := by
  rcases h with ⟨st, hst⟩ | rfl
  · cases a <;> cases st <;>
      first
        | (obtain rfl := Option.some.inj hst
           decide)
        | exact absurd hst (by simp [Action.announced?])
  · cases a <;> decide

theorem Action.contains_installPending_success (a : Action) :
    Reason.installPending.contains a.success = false := by
  cases a <;> decide

/-- An event with its message and its time. -/
structure Note where
  reason : Reason
  message : String
  time : String

namespace Resource

variable {r w : Resource} {a : Action} {n : Note}

/-- The resource with events recorded, one after the other. -/
def noting (r : Resource) : List Note → Resource
  | [] => r
  | n :: notes => (r.recordReady n.reason n.message n.time).noting notes

theorem installPending_recordReady (r : Resource) (reason : Reason) (message time : String) :
    installPending (r.recordReady reason message time).conditions =
      Reason.installPending.contains reason :=
  installPending_of_endsIn (r.endsIn_recordReady reason message time)

/-- The selection depends on the two versions and on whether an installation is pending. -/
theorem selectAction_congr (hpending : installPending w.conditions = installPending r.conditions)
    (hlast : w.lastVersion = r.lastVersion) (hdesired : w.desiredVersion = r.desiredVersion) :
    w.selectAction = r.selectAction := by
  rw [selectAction, selectAction, hpending, hlast, hdesired]

/-- An installation is selected exactly while one is pending. -/
theorem installPending_eq_of_selectAction (h : r.selectAction = .ok a) :
    installPending r.conditions = decide (a = .install) := by
  cases hpending : installPending r.conditions with
  | true =>
      rw [Situation.selectAction_pending hpending] at h
      obtain rfl := Except.ok.inj h
      rfl
  | false =>
      refine (decide_eq_false ?_).symm
      rintro rfl
      rw [Estate.installPending_of_selectAction h] at hpending
      exact absurd hpending.symm Bool.false_ne_true

/-! ### Events on the way -/

theorem selectAction_recordReady (hselect : r.selectAction = .ok a) (h : a.InFlight n.reason) :
    (r.recordReady n.reason n.message n.time).selectAction = .ok a := by
  rw [← hselect]
  refine selectAction_congr ?_ (lastVersion_recordReady ..) (desiredVersion_recordReady ..)
  rw [installPending_recordReady, Action.contains_installPending h,
    installPending_eq_of_selectAction hselect]

theorem selectAction_noting {notes : List Note} (hselect : r.selectAction = .ok a)
    (h : ∀ n ∈ notes, a.InFlight n.reason) : (r.noting notes).selectAction = .ok a := by
  induction notes generalizing r with
  | nil => exact hselect
  | cons n notes ih =>
      exact ih (selectAction_recordReady hselect (h n List.mem_cons_self)) fun n' hn' =>
        h n' (List.mem_cons_of_mem n hn')

theorem spec_noting (r : Resource) (notes : List Note) : (r.noting notes).spec = r.spec := by
  induction notes generalizing r with
  | nil => rfl
  | cons n notes ih => exact (ih _).trans (spec_recordReady r n.reason n.message n.time)

/-! ### Success -/

/-- When the version asked for is the one of the last success, a module is updated, unless that
version is none. -/
theorem selectAction_of_concluded_iff (hclosed : installPending r.conditions = false)
    (hlast : r.lastVersion = some r.desiredVersion) :
    r.selectAction = .ok .update ↔
      Text.isBlankText r.desiredVersion = true ∨ ∃ v, Version.parse r.desiredVersion = .ok v := by
  cases hblank : Text.isBlankText r.desiredVersion with
  | true =>
      refine iff_of_true ?_ (.inl rfl)
      rw [selectAction, hclosed, if_neg Bool.false_ne_true, hlast]
      dsimp only
      rw [hblank]
      rfl
  | false =>
      rw [or_iff_right Bool.false_ne_true]
      cases hparse : Version.parse r.desiredVersion with
      | ok v =>
          refine iff_of_true ?_ ⟨v, rfl⟩
          rcases Situation.selectAction_concluded hclosed hlast with hupdate | ⟨e, -, herror, -⟩
          · exact hupdate
          · rw [hparse] at herror
            cases herror
      | error e =>
          have hnamed : r.desiredVersion.isEmpty = false := by
            cases hempty : r.desiredVersion.isEmpty with
            | false => rfl
            | true =>
                rw [String.isEmpty_iff.1 hempty] at hblank
                exact absurd hblank.symm Bool.false_ne_true
          obtain ⟨e', herror⟩ := Situation.selectAction_unreadable hclosed hlast hnamed hparse
          refine iff_of_false ?_ ?_
          · rw [herror]
            rintro ⟨⟩
          · rintro ⟨v, ⟨⟩⟩

/-- Whatever events on the way of its action are recorded for a module, in any number and order,
the same action is selected again. When then its success is recorded, and with it the version
asked for, the module is updated, if that version is none or can be read, and only then. -/
theorem selection_outlasts_work (hkind : r.kind = .module) (hselect : r.selectAction = .ok a) :
    (∀ notes : List Note, (∀ n ∈ notes, a.InFlight n.reason) →
      (r.noting notes).selectAction = .ok a) ∧
    ∀ notes : List Note, (∀ n ∈ notes, a.InFlight n.reason) → ∀ message time g,
      ((((r.noting notes).recordReady a.success message time).recordSuccess
        r.desiredVersion g).selectAction = .ok .update ↔
          Text.isBlankText r.desiredVersion = true ∨
            ∃ v, Version.parse r.desiredVersion = .ok v) := by
  refine ⟨fun notes h => selectAction_noting hselect h, fun notes h message time g => ?_⟩
  generalize hw : ((r.noting notes).recordReady a.success message time).recordSuccess
    r.desiredVersion g = w
  have hspec : w.spec = r.spec := by
    rw [← hw, spec_recordSuccess, spec_recordReady, spec_noting]
  have hdesired : w.desiredVersion = r.desiredVersion := desiredVersion_congr hspec
  have hlast : w.lastVersion = some w.desiredVersion := by
    rw [hdesired, ← hw]
    refine (lastVersion_recordSuccess _ _ _ ?_).1
    rw [kind_recordReady, kind, spec_noting]
    exact hkind
  have hclosed : installPending w.conditions = false := by
    rw [← hw, conditions_recordSuccess, installPending_recordReady,
      Action.contains_installPending_success]
  rw [← hdesired]
  exact selectAction_of_concluded_iff hclosed hlast

/-- The events of an upgrade that fails twice. -/
def failedUpgrades : List Note :=
  [⟨.preUpgrade, "", ""⟩, ⟨.upgradeStarted, "", ""⟩, ⟨.upgradeFailed, "timed out", ""⟩,
    ⟨.upgradeStarted, "", ""⟩, ⟨.upgradeFailed, "refused", ""⟩]

/-- The module `web` asks for a version that is written with a leading letter and between blanks,
and an upgrade to it fails twice before it succeeds. -/
theorem selection_outlasts_work_upgrade :
    ((Selections.settledModule " v0.2.0 ").noting failedUpgrades).selectAction = .ok .upgrade ∧
      ((((Selections.settledModule " v0.2.0 ").noting failedUpgrades).recordReady
        .upgradeSucceeded "" "").recordSuccess
          (Selections.settledModule " v0.2.0 ").desiredVersion 2).selectAction = .ok .update := by
  have hselect : (Selections.settledModule " v0.2.0 ").selectAction = .ok .upgrade := rfl
  have hparse : Version.parse (Selections.settledModule " v0.2.0 ").desiredVersion =
      .ok ⟨0, 2, 0, [], []⟩ := rfl
  have hinFlight : ∀ n ∈ failedUpgrades, Action.upgrade.InFlight n.reason := by
    intro n hn
    simp only [failedUpgrades, List.mem_cons, List.not_mem_nil, or_false] at hn
    rcases hn with rfl | rfl | rfl | rfl | rfl
    · exact .inl ⟨.announcePreWork, rfl⟩
    · exact .inl ⟨.announceWork, rfl⟩
    · exact .inr rfl
    · exact .inl ⟨.announceWork, rfl⟩
    · exact .inr rfl
  obtain ⟨hkept, hended⟩ := selection_outlasts_work rfl hselect
  exact ⟨hkept _ hinFlight, (hended _ hinFlight "" "" 2).2 (.inr ⟨_, hparse⟩)⟩

end Resource

end ReleaseOperator
