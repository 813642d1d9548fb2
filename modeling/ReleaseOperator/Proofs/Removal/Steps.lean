import ReleaseOperator.Proofs.Estate.Writes
import ReleaseOperator.Proofs.Invariants

/-!
# The work of a deletion on an estate

A resource that is being deleted has its release removed and then loses its finalizer. Calls
may fail without effect, and then the work stops where it is. Behind the stage of the work the
release is gone, whatever the machine finds when it is taken up again: that is all that has to
be known of the stages.
-/

namespace ReleaseOperator

open InMemory Program

namespace Removal

/-- The stored resource is the one whose deletion is under way: nothing but its status and its
revision has changed. -/
structure Kept (kind : Kind) (ns name : String) (o r : Resource) (s : Estate) : Prop where
  keyed : s.store.Keyed kind
  stored : s.store.get? ns name = some r
  restated : o.Restated r

/-- The work of a deletion has stopped. Behind the stage of the work the release is gone. -/
structure Halted (setup : Setup) (kind : Kind) (ns name : String) (o : Resource) (e : Entry)
    (s : Estate) : Prop where
  kept : ∃ r, Kept kind ns name o r s
  removed : 5 < e.stage.rank → s.releases.get? (o.releaseKey setup) = none

/-- The work of a deletion is at a stage, with the stored resource in hand. -/
structure At (setup : Setup) (kind : Kind) (ns name : String) (o : Resource) (st : Stage)
    (j : Job) (s : Estate) : Prop where
  kept : Kept kind ns name o j.resource s
  release : j.release = o.release setup.defaults
  stage : j.entry.stage = st
  removed : 5 < st.rank → s.releases.get? (o.releaseKey setup) = none

/-- What a step leads to: it stops in trouble, or it goes on, the work with the release gone. -/
def Goes (setup : Setup) (trouble : Prop) (kind : Kind) (ns name : String) (o : Resource)
    (st : Stage) (out : Outcome) (j : Job) (s : Estate) : Prop :=
  out.requeue = true ∧ trouble ∧ Halted setup kind ns name o j.entry s ∨
    out = .done ∧ At setup kind ns name o st j s ∧
      (st = .work → s.releases.get? (o.releaseKey setup) = none)

/-- How a run ends: it has stopped in trouble, or it has come to the end. -/
def Ends (setup : Setup) (trouble : Prop) (kind : Kind) (ns name : String) (o : Resource)
    (out : Outcome) (j : Job) (s : Estate) : Prop :=
  out.requeue = true ∧ trouble ∧ Halted setup kind ns name o j.entry s ∨
    out = .done ∧ At setup kind ns name o .finish j s

variable {g : Ground} {setup : Setup} {trouble : Prop} {kind : Kind} {ns name : String}
  {o r : Resource} {st : Stage} {j : Job} {s s' : Estate} {out : Outcome}

theorem Kept.id (h : Kept kind ns name o r s) : ObjectId.ofResource r = .ofResource o := by
  obtain ⟨n, status, hr⟩ := h.restated
  rw [hr]
  rfl

theorem Kept.hasFinalizer (h : Kept kind ns name o r s) : r.hasFinalizer = o.hasFinalizer := by
  obtain ⟨n, status, hr⟩ := h.restated
  rw [hr]
  rfl

theorem At.halted (h : At setup kind ns name o st j s) : Halted setup kind ns name o j.entry s :=
  ⟨⟨j.resource, h.kept⟩, fun hlt => h.removed (h.stage ▸ hlt)⟩

/-- The key under which the job looks for its release is the one the resource asks for. -/
theorem At.releaseKey (h : At setup kind ns name o st j s) :
    (j.release.namespaceName, j.release.name) = o.releaseKey setup := by
  rw [h.release]
  rfl

theorem At.stopped (h : At setup kind ns name o st j s) (ht : trouble)
    (hout : out.requeue = true) : Goes setup trouble kind ns name o st out j s :=
  Or.inl ⟨hout, ht, h.halted⟩

theorem At.goesOn (h : At setup kind ns name o st j s) (hst : st ≠ .work) :
    Goes setup trouble kind ns name o st .done j s :=
  Or.inr ⟨rfl, h, fun hwork => absurd hwork hst⟩

/-- The next stage is entered. -/
theorem Goes.onward (h : Goes setup trouble kind ns name o st out j s) (hst : st ≠ .finish) :
    Worker.Onward (Estate.conduct g trouble) .delete st (At setup kind ns name o)
      (Ends setup trouble kind ns name o) out j s := by
  unfold Worker.Onward
  rcases h with ⟨hout, ht, hhalted⟩ | ⟨rfl, hat, hwork⟩
  · rw [if_pos hout]
    exact Or.inl ⟨hout, ht, hhalted⟩
  · rw [if_neg (by decide), Work.always_enter]
    rintro u s' rfl
    refine ⟨hat.kept, hat.release, rfl, fun hlt => ?_⟩
    rw [Stage.rank_next hst] at hlt
    by_cases hw : st = .work
    · exact hwork hw
    · have hne : st.rank ≠ 5 := by
        intro heq
        cases st <;> first | exact hw rfl | exact absurd heq (by decide)
      exact hat.removed (by omega)

/-! ### Recording -/

/-- A status is written onto the stored resource, unless there is trouble. -/
theorem At.persistStatus (h : At setup kind ns name o st j s) {w : Resource}
    (hmeta : w.metadata = j.resource.metadata) :
    Always (Estate.conduct g trouble) (Pass.persistStatus w) s fun or s' =>
      or.1.requeue = true ∧ trouble ∧ s' = s ∨
        or.1 = .done ∧ At setup kind ns name o st { j with resource := or.2 } s' ∧
          s'.releases = s.releases := by
  refine (Estate.always_persistStatus h.kept.keyed h.kept.stored hmeta).mono ?_
  rintro ⟨out, r⟩ s' (⟨hout, ht, rfl⟩ | ⟨rfl, ⟨n, rfl⟩, hkeyed, hstored, hreleases⟩)
  · exact Or.inl ⟨hout, ht, rfl⟩
  · refine Or.inr ⟨rfl, ⟨⟨hkeyed, hstored, h.kept.restated.trans ⟨n, _, rfl⟩⟩, h.release, h.stage,
      ?_⟩, hreleases⟩
    rw [hreleases]
    exact h.removed

/-- An event is recorded, unless there is trouble. -/
theorem At.announce (h : At setup kind ns name o st j s) (reason : Reason)
    (detail : Option String) :
    AlwaysFrom (Estate.conduct g trouble) (Work.announce reason detail) j s fun out j' s' =>
      out.requeue = true ∧ trouble ∧ Halted setup kind ns name o j'.entry s' ∨
        out = .done ∧ At setup kind ns name o st j' s' := by
  rw [Work.always_announce]
  refine (Estate.always_quiet Pass.quiet_now).mono ?_
  rintro time s₁ rfl
  split
  · refine (h.persistStatus (j.metadata_noted reason detail time)).mono ?_
    rintro ⟨out, r⟩ s' (⟨hout, ht, rfl⟩ | ⟨rfl, hat, _⟩)
    · exact Or.inl ⟨hout, ht, h.halted⟩
    · exact Or.inr ⟨rfl, hat⟩
  · rename_i hnews
    rw [Job.noted_eq_self (Bool.not_eq_true _ ▸ hnews)]
    exact Or.inr ⟨rfl, h⟩

theorem At.announced (h : At setup kind ns name o st j s) (hst : st ≠ .work) (reason : Reason) :
    AlwaysFrom (Estate.conduct g trouble) (Work.announce reason none) j s
      (Goes setup trouble kind ns name o st) := by
  refine (h.announce reason none).mono ?_
  rintro out j' s' (hstopped | ⟨rfl, hat⟩)
  · exact Or.inl hstopped
  · exact hat.goesOn hst

/-- A failure stops the work, whether or not it was recorded. -/
theorem At.fail (h : At setup kind ns name o st j s) (ht : trouble) (reason : Reason)
    (f : Failure) :
    AlwaysFrom (Estate.conduct g trouble) (Work.fail reason f) j s
      (Goes setup trouble kind ns name o st) := by
  rw [Work.always_fail]
  refine (h.announce reason (some f.text)).mono ?_
  intro out j' s₁ hannounced
  refine (Estate.always_delayWith f).mono ?_
  rintro out' s' ⟨hout, rfl⟩
  rcases hannounced with ⟨_, _, hhalted⟩ | ⟨_, hat⟩
  · exact Or.inl ⟨hout, ht, hhalted⟩
  · exact hat.stopped ht hout

theorem At.conclude (h : At setup kind ns name o st j s) (hst : st ≠ .work) (reason : Reason) :
    AlwaysFrom (Estate.conduct g trouble) (Work.conclude reason false) j s
      (Goes setup trouble kind ns name o st) := by
  rw [Work.always_conclude]
  refine (Estate.always_quiet Pass.quiet_now).mono ?_
  rintro time s₁ rfl
  refine (h.persistStatus (Work.metadata_concluded j reason false time)).mono ?_
  rintro ⟨out, r⟩ s' (⟨hout, ht, rfl⟩ | ⟨rfl, hat, _⟩)
  · exact Or.inl ⟨hout, ht, h.halted⟩
  · exact hat.goesOn hst

/-! ### Removing the release -/

/-- What Helm reports about the release of the job. -/
theorem At.releaseInfo (h : At setup kind ns name o st j s)
    {a : Except HelmError (Option ReleaseInfo)}
    (hmay : (Estate.conduct g trouble).may s
      (.helm (.releaseInfo j.release.name j.release.namespaceName)) a s') :
    s' = s ∧ Honest trouble
      (.ok ((s.releases.get? (o.releaseKey setup)).map StoredRelease.info)) a := by
  obtain ⟨rfl, hanswer⟩ := hmay
  rw [h.releaseKey] at hanswer
  exact ⟨rfl, hanswer⟩

/-- The release is gone after the work, unless there is trouble. -/
theorem At.uninstall (h : At setup kind ns name o .work j s) (hacts : setup.dryRun = false) :
    AlwaysFrom (Estate.conduct g trouble) (Work.uninstall setup) j s
      (Goes setup trouble kind ns name o .work) := by
  rw [Work.always_uninstall, hacts, if_neg Bool.false_ne_true]
  intro a s₁ hmay
  obtain ⟨rfl, hanswer⟩ := h.releaseInfo hmay
  rcases a with f | _ | info
  · refine (Estate.always_delayWith _).mono ?_
    rintro out s' ⟨hout, rfl⟩
    exact h.stopped hanswer.trouble hout
  · have hnone := hanswer.ok
    exact Or.inr ⟨rfl, h, fun _ => Option.map_eq_none_iff.1 (Except.ok.inj hnone)⟩
  · rintro a' s' (⟨rfl, rfl⟩ | ⟨rfl, ht, f, rfl⟩)
    · have hgone : (s₁.releases.erase (j.release.namespaceName, j.release.name)).get?
          (o.releaseKey setup) = none := by
        rw [h.releaseKey]
        exact Table.get?_erase_self
      exact Or.inr ⟨rfl, ⟨⟨h.kept.keyed, h.kept.stored, h.kept.restated⟩, h.release, h.stage,
        fun _ => hgone⟩, fun _ => hgone⟩
    · exact h.fail ht _ _

/-- Nothing is waited for, since the release is gone. -/
theorem At.isGone (h : At setup kind ns name o .awaitWork j s) (hacts : setup.dryRun = false) :
    AlwaysFrom (Estate.conduct g trouble) (Work.isGone setup) j s fun no j' s' =>
      (no.1 || no.2.requeue) = true ∧ Goes setup trouble kind ns name o .awaitWork no.2 j' s' := by
  unfold Work.isGone
  rw [hacts, if_neg Bool.false_ne_true, alwaysFrom_bind, alwaysFrom_get, alwaysFrom_bind,
    Work.always_ask, Pass.always_helm]
  intro a s₁ hmay
  obtain ⟨rfl, hanswer⟩ := h.releaseInfo hmay
  rw [h.removed (by decide)] at hanswer
  cases a with
  | error f =>
      dsimp only
      rw [Work.always_ask, Pass.unanswered, always_bind]
      refine (Estate.always_delayWith _).mono ?_
      rintro out s' ⟨hout, rfl⟩
      exact ⟨hout, h.stopped hanswer.trouble hout⟩
  | ok info =>
      obtain rfl := Except.ok.inj hanswer.ok
      exact ⟨rfl, h.goesOn (by decide)⟩

theorem At.hook (h : At setup kind ns name o st j s) (hst : st ≠ .work) (moment : HookMoment) :
    AlwaysFrom (Estate.conduct g trouble) (Work.hook moment .delete) j s
      (Goes setup trouble kind ns name o st) := by
  rw [Work.hook, Work.always_about, Pass.always_hook]
  rintro out s' ⟨rfl, rfl⟩
  exact h.goesOn hst

/-! ### The run -/

theorem At.step (hacts : setup.dryRun = false) {work : Work Outcome}
    (hmem : (st, work) ∈ (Worker.forAction setup .delete).steps)
    (h : At setup kind ns name o st j s) :
    AlwaysFrom (Estate.conduct g trouble) work j s (Goes setup trouble kind ns name o st) := by
  simp only [Worker.steps, Worker.forAction, List.mem_cons, Prod.mk.injEq, List.not_mem_nil,
    or_false] at hmem
  rcases hmem with ⟨rfl, rfl⟩ | ⟨rfl, rfl⟩ | ⟨rfl, rfl⟩ | ⟨rfl, rfl⟩ | ⟨rfl, rfl⟩ | ⟨rfl, rfl⟩ |
    ⟨rfl, rfl⟩
  · exact h.announced (by decide) _
  · exact h.hook (by decide) _
  · exact h.announced (by decide) _
  · exact h.uninstall hacts
  · exact (alwaysFrom_pure _ _).2 (h.goesOn (by decide))
  · exact h.hook (by decide) _
  · exact h.conclude (by decide) _

/-- From any stage the run of a deletion comes to its end, unless there is trouble. -/
theorem At.perform (hacts : setup.dryRun = false) (h : At setup kind ns name o j.entry.stage j s) :
    AlwaysFrom (Estate.conduct g trouble) (Work.perform setup .delete) j s
      (Ends setup trouble kind ns name o) := by
  rw [Work.always_perform]
  refine Worker.always_run_of_steps (Worker.action_forAction setup .delete)
    (fun _ _ h => (At.goesOn h (by decide)).onward (by decide)) ?_ ?_ ?_
    (fun _ _ h => Or.inr ⟨rfl, h⟩) h
  · intro j s h
    exact (At.goesOn h (by decide)).onward (by decide)
  · intro j s h
    refine (At.isGone h hacts).mono ?_
    rintro no j' s' ⟨hyes, hgoes⟩
    rw [if_pos hyes]
    exact hgoes.onward (by decide)
  · intro st work hmem j s h
    have hst : st ≠ .finish := by
      rintro rfl
      simp [Worker.steps] at hmem
    exact (At.step hacts hmem h).mono fun _ _ _ hgoes => hgoes.onward hst

end Removal

end ReleaseOperator
