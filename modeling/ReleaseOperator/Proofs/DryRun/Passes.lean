import ReleaseOperator.Proofs.DryRun.Keeping
import ReleaseOperator.Proofs.Commuting.Independence

/-!
# Passes in earnest and as a rehearsal

What the passes over a module leave between them, when all collaborators oblige. The work on a
living module rests, nothing is remembered of generations to come or of a deletion, and there is
no release as long as an installation may be chosen. From there a pass in earnest is followed by
its rehearsal, with the same end, the same memory and the same stores.
-/

namespace ReleaseOperator

open InMemory Program

/-!
## Clearing a module away in earnest

With collaborators that oblige a deletion is never held up. The release is gone behind the work,
so the wait for that is over at once, in earnest as in a rehearsal, and then the finalizer goes.
-/

namespace Earnest

variable {H : Type} {rules : Rules H} {info : H → Option ReleaseInfo} {setup : Setup} {x : Address}
  {r : Resource} {st : Stage} {j : Job} {o : Outcome} {s t : Commons H}

/-- The deletion of a resource, whose stored copy is in hand, is at a stage. -/
structure Parting (info : H → Option ReleaseInfo) (setup : Setup) (x : Address) (r : Resource)
    (st : Stage) (j : Job) (s : Commons H) : Prop where
  stage : j.entry.stage = st
  restated : r.Restated j.resource
  current : j.UpToDate setup x s
  removed : 5 < st.rank → Vacant info r s

/-- The run of a deletion has come to its end. -/
def Parted (info : H → Option ReleaseInfo) (setup : Setup) (x : Address) (r : Resource)
    (o : Outcome) (j : Job) (s : Commons H) : Prop :=
  o = .done ∧ Parting info setup x r .finish j s

namespace Parting

theorem enter (h : Parting info setup x r st j s) (hst : st ≠ .finish) (hwork : st ≠ .work) :
    Parting info setup x r st.next (j.enter st.next) s := by
  refine ⟨rfl, h.restated, h.current.withEntry _, fun hlate => ?_⟩
  have hne : st.rank ≠ 5 := by
    intro heq
    cases st <;> first | exact hwork rfl | exact absurd heq (by decide)
  have hrank := Stage.rank_next hst
  exact h.removed (by omega)

theorem passes (h : Parting info setup x r st j s) (hst : st ≠ .finish) (hwork : st ≠ .work) :
    Passes (Parting info setup x r) (Parted info setup x r) st .done j s :=
  h.enter hst hwork

theorem advised {reason : Reason} {j' : Job} (h : Parting info setup x r st j s)
    (hadvised : j.Advised setup x reason j' t) (hkept : t.releases = s.releases) :
    Parting info setup x r st j' t := by
  refine ⟨?_, h.restated.trans hadvised.restated, hadvised.current, fun hlate => ?_⟩
  · rw [hadvised.entry]
    exact h.stage
  · exact (h.removed hlate).congr rfl hkept

variable (hrules : rules.Obliging info)

include hrules

/-- A step that has nothing to do with the release. -/
theorem step (h : Parting info setup x r st j s) {work : Work Outcome}
    (hmem : (st, work) ∈ (Worker.forAction setup .delete).steps) (hwork : st ≠ .work) :
    AlwaysFrom rules.conduct work j s fun o j' t =>
      t.releases = s.releases →
        Passes (Parting info setup x r) (Parted info setup x r) st o j' t := by
  have hst : st ≠ .finish := by
    rintro rfl
    simp [Worker.steps] at hmem
  have hannounce : ∀ reason, AlwaysFrom rules.conduct (Work.announce reason none) j s
      fun o j' t => t.releases = s.releases →
        Passes (Parting info setup x r) (Parted info setup x r) st o j' t := by
    intro reason
    refine (h.current.announce hrules reason none).mono ?_
    rintro _ j' t ⟨rfl, hadvised⟩ hkept
    exact (h.advised hadvised hkept).passes hst hwork
  have hhook : ∀ moment, AlwaysFrom rules.conduct (Work.hook moment .delete) j s
      fun o j' t => t.releases = s.releases →
        Passes (Parting info setup x r) (Parted info setup x r) st o j' t := by
    intro moment
    rw [Work.hook, Work.always_about, Pass.always_hook]
    rintro o t ⟨rfl, rfl⟩ -
    exact h.passes hst hwork
  simp only [Worker.steps, Worker.forAction, List.mem_cons, Prod.mk.injEq, List.not_mem_nil,
    or_false] at hmem
  rcases hmem with ⟨-, rfl⟩ | ⟨-, rfl⟩ | ⟨-, rfl⟩ | ⟨rfl, -⟩ | ⟨-, rfl⟩ | ⟨-, rfl⟩ | ⟨-, rfl⟩
  · exact hannounce _
  · exact hhook _
  · exact hannounce _
  · exact absurd rfl hwork
  · exact fun _ => h.passes hst hwork
  · exact hhook _
  · refine (h.current.conclude hrules .uninstallSucceeded false).mono ?_
    rintro _ j' t ⟨rfl, hadvised⟩ hkept
    exact (h.advised hadvised hkept).passes hst hwork

/-- The release is removed, if there is one. -/
theorem uninstall (h : Parting info setup x r .work j s) (hacts : setup.dryRun = false) :
    ShadowedFrom rules (Work.uninstall setup) (Work.uninstall setup.dry) j s
      (Passes (Parting info setup x r) (Parted info setup x r) .work) := by
  have hdry : setup.dry.dryRun = true := rfl
  have hplace := h.current.place.trans (Resource.continues_restated h.restated).place
  have hgone : ∀ t, t.store = s.store → info (t.releases j.release.place) = none →
      ShadowedFrom rules (pure Outcome.done) (pure Outcome.done) j t
        (Passes (Parting info setup x r) (Parted info setup x r) .work) := by
    intro t hstore hnone
    have hstored : t.find x = some j.resource := by
      rw [Commons.find, hstore]
      exact h.current.stored
    refine shadowedFrom_pure Outcome.done
      (Parting.mk rfl h.restated ⟨hstored, h.current.address, h.current.release⟩ fun _ => ?_)
    rw [Vacant, ← hplace]
    exact hnone
  unfold Work.uninstall
  rw [hacts, if_neg Bool.false_ne_true, if_pos hdry]
  refine shadowedFrom_ahead ((alwaysFrom_get _).2 ⟨rfl, rfl, ?_⟩)
  refine shadowedFrom_ahead ((Work.always_ask _ _).2 ((Pass.always_helm _ _).2 ?_))
  intro answer t hmay
  obtain ⟨rfl, rfl⟩ := hrules.answered_releaseInfo hmay
  refine ⟨rfl, rfl, ?_⟩
  cases hinfo : info (t.releases (j.release.name, j.release.namespaceName)) with
  | none => exact hgone t rfl hinfo
  | some i =>
      refine shadowedFrom_ahead ((Work.always_ask _ _).2 ((Pass.always_helm _ _).2 ?_))
      intro answer u hmay
      obtain ⟨rfl, hstore, hnone⟩ := hrules.answered_uninstall hmay
      exact ⟨rfl, hstore, hgone u hstore hnone⟩

/-- Nothing is waited for, since the release is gone. -/
theorem awaited (h : Parting info setup x r .awaitWork j s) (hacts : setup.dryRun = false) :
    AlwaysFrom rules.conduct (Work.isGone setup) j s fun done j' t =>
      done = (true, .done) ∧ j' = j ∧ t = s ∧
        Parting info setup x r .announcePostWork (j.enter .announcePostWork) s := by
  have hplace := h.current.place.trans (Resource.continues_restated h.restated).place
  have hnone : info (s.releases (j.release.name, j.release.namespaceName)) = none := by
    rw [← Release.place, hplace]
    exact h.removed (by decide)
  unfold Work.isGone
  rw [hacts, if_neg Bool.false_ne_true, alwaysFrom_bind, alwaysFrom_get, alwaysFrom_bind,
    Work.always_ask, Pass.always_helm]
  intro answer t hmay
  obtain ⟨rfl, rfl⟩ := hrules.answered_releaseInfo hmay
  rw [hnone]
  exact ⟨rfl, rfl, rfl, h.enter (by decide) (by decide)⟩

/-- A deletion is rehearsed by what it does without a release. -/
theorem perform (h : Parting info setup x r st j s) (hacts : setup.dryRun = false) :
    ShadowedFrom rules (Work.perform setup .delete) (Work.perform setup.dry .delete) j s
      (Parted info setup x r) := by
  obtain rfl := h.stage
  refine shadowed_perform hrules.impartial ?_ ?_ ?_ ?_ ?_ ?_ h
  · exact fun j s h => h.enter (by decide) (by decide)
  · exact fun j s h => ⟨rfl, h.enter (by decide) (by decide)⟩
  · exact fun st work hmem hwork j s h => h.step hrules hmem hwork
  · exact fun j s h => h.uninstall hrules hacts
  · exact fun j s h => h.awaited hrules hacts
  · exact fun j s h => ⟨rfl, h⟩

/-- The finalizer goes, and with the last one the resource. -/
theorem clear (h : Parting info setup x r st j s) (hacts : setup.dryRun = false) :
    ShadowedFrom rules (Work.clear setup) (Work.clear setup.dry) j s fun fo j' t =>
      fo = (true, .done) ∧ ObjectId.ofResource j'.resource = .ofResource r ∧
        ∀ r', t.find x = some r' → r.Continues r' := by
  unfold Work.clear
  refine shadowedFrom_bind ((h.perform hrules hacts).mono ?_)
  rintro _ j' t ⟨rfl, hparted⟩
  have hcontinues := Resource.continues_restated hparted.restated
  have hwritten : AlwaysFrom rules.conduct (Work.write Pass.removeFinalizer) j' t fun o j'' t' =>
      o = .done ∧ r.Continues j''.resource ∧
        ∀ r', t'.find x = some r' → r' = j''.resource := by
    rw [Work.always_write, Pass.always_removeFinalizer]
    split
    · have hstored : t.find j'.resource.removeFinalizer.address = some j'.resource :=
        hparted.current.address ▸ hparted.current.stored
      refine (hrules.always_persistResource hstored rfl).mono ?_
      rintro ⟨o, w⟩ t' ⟨rfl, hw, hfind⟩
      have hgoes := Resource.continues_rewritten hw rfl rfl
      refine ⟨rfl, hcontinues.trans hgoes, fun r' hr' => ?_⟩
      have haddress : j'.resource.removeFinalizer.address = x := hparted.current.address
      rw [haddress, hr'] at hfind
      split at hfind
      · exact absurd hfind (by simp)
      · exact Option.some.inj hfind
    · refine ⟨rfl, hcontinues, fun r' hr' => ?_⟩
      exact Option.some.inj (hr'.symm.trans hparted.current.stored)
  refine shadowedFrom_bind
    ((shadowedFrom_of_oblivious hrules.impartial
      (Work.oblivious_write Pass.oblivious_removeFinalizer j') hwritten).mono ?_)
  rintro _ j'' t' ⟨⟨rfl, hgoes, hfind⟩, -⟩
  refine shadowedFrom_pure (true, Outcome.done) ⟨rfl, hgoes.id, fun r' hr' => ?_⟩
  rw [hfind r' hr']
  exact hgoes

end Parting

end Earnest

/-! ## Whole passes -/

variable {H α : Type} {rules : Rules H} {info : H → Option ReleaseInfo} {setup : Setup}
  {x : Address} {m : Memory} {s t : Commons H} {r r' : Resource} {o : Outcome} {e : Entry}

/-- Work on an entry is shadowed as the work on what the tracker has. -/
theorem Reconcile.shadowedFrom_withEntry (tracker : Memory → Tracker)
    (put : Tracker → Memory → Memory) {work work' : Entry → Pass (α × Job)}
    {post : α × Job → Memory → Commons H → Prop}
    (h : Shadowed rules (work ((tracker m).ensure (.ofResource r) r.generation .start).1)
      (work' ((tracker m).ensure (.ofResource r) r.generation .start).1) s fun aj t =>
        let m' := put ((tracker m).ensure (.ofResource r) r.generation .start).2 m
        post aj (put ((tracker m').record (.ofResource r) r.generation aj.2.entry) m') t) :
    ShadowedFrom rules (withEntry r tracker put work) (withEntry r tracker put work') m s post := by
  refine shadowedFrom_get (shadowedFrom_modify _ (shadowedFrom_bind (shadowedFrom_lift ?_)))
  refine h.mono fun aj t hpost => ?_
  exact shadowedFrom_modify _ (shadowedFrom_pure aj hpost)

/-- Whether a pass has settled: it has come to an end and does not ask to come back. -/
def settles : Except PassError Outcome → Bool
  | .ok o => !o.requeue
  | .error _ => false

namespace Earnest

/-- What is remembered of a living resource between passes. -/
structure Remembered (info : H → Option ReleaseInfo) (settled : Bool) (m : Memory) (r : Resource)
    (s : Commons H) : Prop where
  above : ∀ g, r.generation < g → m.lifecycle.get? (.ofResource r) g = none
  rests : ∀ e, m.lifecycle.get? (.ofResource r) r.generation = some e → Rests info e r s
  ended : settled = true → ∀ e, m.lifecycle.get? (.ofResource r) r.generation = some e →
    e.stage = .finish
  clear : installPending r.conditions = true → Vacant info r s
  closed : settled = true → installPending r.conditions = false

/-- What the passes over a resource leave between them. -/
structure Poised (info : H → Option ReleaseInfo) (x : Address) (settled : Bool) (m : Memory)
    (s : Commons H) : Prop where
  address : ∀ r, s.find x = some r → r.address = x
  living : ∀ r, s.find x = some r → r.isDeleting = false → r.isTerminal = false →
    Remembered info settled m r s
  leaving : ∀ r g, s.find x = some r → m.deletion.get? (.ofResource r) g = none

variable {settled : Bool}

theorem poised_of_find_eq_none (h : s.find x = none) : Poised info x settled m s := by
  have hno : ∀ r, s.find x ≠ some r := by
    intro r hr
    rw [h] at hr
    exact absurd hr (by simp)
  exact ⟨fun r hr => absurd hr (hno r), fun r hr => absurd hr (hno r),
    fun r _ hr => absurd hr (hno r)⟩

/-- At first nothing is remembered. -/
theorem remembered_empty (hclear : installPending r.conditions = true → Vacant info r s) :
    Remembered info false .empty r s :=
  ⟨fun _ _ => rfl, fun e he => absurd he.symm (Option.some_ne_none e),
    fun hno => absurd hno Bool.false_ne_true, hclear, fun hno => absurd hno Bool.false_ne_true⟩

theorem Rests.congr (h : Rests info e r s) (hconditions : r'.conditions = r.conditions)
    (hplace : r'.releasePlace = r.releasePlace) (hkept : t.releases = s.releases) :
    Rests info e r' t := by
  cases h with
  | ahead early keeps due => exact .ahead early keeps fun ha => (due ha).congr hplace hkept
  | behind stage digest closed => exact .behind stage digest (hconditions ▸ closed)

/-- The finalizer is written; this changes nothing else, but it may begin a generation. -/
theorem Remembered.continues (h : Remembered info settled m r s) (hr : r.Continues r')
    (hconditions : r'.conditions = r.conditions) (hkept : t.releases = s.releases) :
    Remembered info false m r' t := by
  have hgeneration := hr.generation
  refine ⟨fun g hg => ?_, fun e he => ?_, fun hno => absurd hno Bool.false_ne_true,
    fun hpending => ?_, fun hno => absurd hno Bool.false_ne_true⟩
  · rw [hr.id]
    exact h.above g (by omega)
  · rw [hr.id] at he
    by_cases heq : r'.generation = r.generation
    · rw [heq] at he
      exact (h.rests e he).congr hconditions hr.place hkept
    · rw [h.above _ (by omega)] at he
      exact absurd he (by simp)
  · rw [hconditions] at hpending
    exact (h.clear hpending).congr hr.place hkept

/-- What is remembered once the entry of the work has been recorded. -/
theorem Remembered.record (h : Remembered info settled m r s) (hrested : Rested info x r o e r' t)
    {m' : Memory} (hm' : m'.lifecycle =
      (m.lifecycle.ensure (.ofResource r) r.generation .start).2.record (.ofResource r)
        r.generation e) :
    Remembered info (!o.requeue) m' r' t := by
  have hgeneration := hrested.continues.generation
  have hid := hrested.continues.id
  -- What is kept of a generation to come was kept before.
  have hother : ∀ g, r.generation < g → m'.lifecycle.get? (.ofResource r) g = none := by
    intro g hg
    have hne : g ≠ r.generation := by omega
    rw [hm', Tracker.get?_record_of_ne hne]
    cases hget : (m.lifecycle.ensure (.ofResource r) r.generation .start).2.get? (.ofResource r) g
    with
    | none => rfl
    | some e' =>
        have hold := Tracker.get?_of_get?_ensure hne hget
        rw [h.above g hg] at hold
        exact absurd hold (by simp)
  have hself : ∀ e', m'.lifecycle.get? (.ofResource r') r'.generation = some e' → e' = e := by
    intro e' he'
    rw [hid] at he'
    by_cases heq : r'.generation = r.generation
    · rw [heq, hm'] at he'
      exact Tracker.get?_record_self he'
    · rw [hother _ (by omega)] at he'
      exact absurd he' (by simp)
  have hfinish : (!o.requeue) = true → e.stage = .finish :=
    fun hsettled => hrested.settled (by simpa using hsettled)
  refine ⟨fun g hg => ?_, fun e' he' => ?_, fun hsettled e' he' => ?_, hrested.clear,
    fun hsettled => ?_⟩
  · rw [hid]
    exact hother g (by omega)
  · rw [hself e' he']
    exact hrested.entry
  · rw [hself e' he']
    exact hfinish hsettled
  · cases hrested.entry with
    | ahead early _ _ =>
        rw [hfinish hsettled] at early
        exact absurd early (by decide)
    | behind _ _ closed => exact closed

theorem Poised.leave (h : Poised info x settled m s) : Poised info x false m s := by
  refine ⟨h.address, fun r hr hstays hgoesOn => ?_, h.leaving⟩
  exact (h.living r hr hstays hgoesOn).continues (Resource.continues_restated (.refl r)) rfl rfl

section Passes

variable (hrules : rules.Obliging info) (hacts : setup.dryRun = false)
  (h : Poised info x settled m s) (hr : s.find x = some r)

include hrules hacts h hr

/-- A pass over a living module that has its finalizer. -/
theorem shadowed_live (hcredits : rules.Credits x.namespaceName setup.defaults.repository)
    (hkind : r.kind = .module) (hstays : r.isDeleting = false) (hgoesOn : r.isTerminal = false) :
    ShadowedFrom rules (Reconcile.live setup r) (Reconcile.live setup.dry r) m s fun o m' t =>
      Poised info x (!o.requeue) m' t := by
  have hremembered := h.living r hr hstays hgoesOn
  have hrests : Rests info (m.lifecycle.ensure (.ofResource r) r.generation .start).1 r s := by
    have hfst := Tracker.ensure_fst m.lifecycle (.ofResource r) r.generation .start
    cases hget : m.lifecycle.get? (.ofResource r) r.generation with
    | some e =>
        rw [hget] at hfst
        rw [hfst]
        exact hremembered.rests e hget
    | none =>
        rw [hget] at hfst
        rw [hfst]
        exact .ahead (Nat.zero_le 5) (by simp [Entry.fresh]) (by simp [Entry.fresh])
  have hbegun : Begun info setup x (.start setup r
      (m.lifecycle.ensure (.ofResource r) r.generation .start).1) s :=
    ⟨hkind, hstays, hgoesOn, hremembered.clear, hr, h.address r hr, rfl⟩
  refine shadowedFrom_bind (Reconcile.shadowedFrom_withEntry Memory.lifecycle
    (fun t m => { m with lifecycle := t })
    (Shadowed.mono (hbegun.live hrules hcredits hacts hrests) ?_))
  rintro ⟨o, j⟩ t ⟨r', hrested⟩
  refine shadowedFrom_pure o ⟨fun w hw => ?_, fun w hw _ _ => ?_, fun w g hw => ?_⟩
  all_goals obtain rfl : r' = w := Option.some.inj (hrested.stored.symm.trans hw)
  · exact hrested.continues.address.trans (h.address r hr)
  · exact hremembered.record hrested rfl
  · rw [hrested.continues.id]
    exact h.leaving r g hr

/-- A pass over a module that is being deleted. Nothing of it is remembered afterwards. -/
theorem shadowed_clear (hdeleting : r.isDeleting = true) :
    ShadowedFrom rules (Reconcile.clear setup r) (Reconcile.clear setup.dry r) m s fun o m' t =>
      Poised info x (!o.requeue) m' t := by
  have hforgotten : ∀ {n : Memory} {t : Commons H} {w : Resource} {b : Bool},
      ObjectId.ofResource w = .ofResource r → (∀ r', t.find x = some r' → r.Continues r') →
      Poised info x b (n.forget w) t := by
    intro n t w b hid hfind
    refine ⟨fun r' hr' => (hfind r' hr').address.trans (h.address r hr), fun r' hr' hstays => ?_,
      fun r' g hr' => ?_⟩
    · rw [(hfind r' hr').deleting, hdeleting] at hstays
      exact absurd hstays.symm Bool.false_ne_true
    · rw [(hfind r' hr').id, ← hid]
      exact Tracker.get?_forget _ _ _
  unfold Reconcile.clear
  split
  · have hfst := Tracker.ensure_fst m.deletion (.ofResource r) r.generation .start
    rw [h.leaving r r.generation hr] at hfst
    have hparting : Parting info setup x r .start (.start setup r
        (m.deletion.ensure (.ofResource r) r.generation .start).1) s := by
      refine ⟨?_, .refl r, ⟨hr, h.address r hr, rfl⟩, fun hlate => absurd hlate (by decide)⟩
      exact congrArg Entry.stage hfst
    refine shadowedFrom_bind (Reconcile.shadowedFrom_withEntry Memory.deletion
      (fun t m => { m with deletion := t }) (Shadowed.mono (hparting.clear hrules hacts) ?_))
    rintro ⟨fo, j⟩ t ⟨rfl, hid, hfind⟩
    exact shadowedFrom_modify _ (shadowedFrom_pure Outcome.done (hforgotten hid hfind))
  · refine shadowedFrom_modify _ (shadowedFrom_pure Outcome.done (hforgotten rfl fun r' hr' => ?_))
    obtain rfl : r = r' := Option.some.inj (hr.symm.trans hr')
    exact Resource.continues_restated (.refl r)

omit hacts h in
/-- The finalizer is there, or it is written and the pass ends. -/
theorem always_ensureFinalizer (haddress : r.address = x) (hstays : r.isDeleting = false) :
    Always rules.conduct (Pass.ensureFinalizer r) s fun ow t =>
      match ow with
      | (none, w) => w = r ∧ t = s
      | (some o, _) => o.requeue = true ∧
        ∃ r', t.find x = some r' ∧ r.Continues r' ∧ r'.conditions = r.conditions := by
  rw [Pass.always_ensureFinalizer]
  split
  · exact ⟨rfl, rfl⟩
  have hsame : r.addFinalizer.address = r.address ∧ r.addFinalizer.releasePlace = r.releasePlace ∧
      r.addFinalizer.metadata.resourceVersion = r.metadata.resourceVersion := by
    unfold Resource.addFinalizer
    split
    · exact ⟨rfl, rfl, rfl⟩
    · exact ⟨rfl, rfl, rfl⟩
  have hstored : s.find r.addFinalizer.address = some r := by
    rw [hsame.1, haddress]
    exact hr
  refine (hrules.always_persistResource hstored hsame.2.2.symm).mono ?_
  rintro ⟨o, w⟩ t ⟨rfl, hwritten, hfind⟩
  have hgoes := Resource.continues_rewritten hwritten hsame.1 hsame.2.1
  rw [hsame.1, haddress, hgoes.deleting, hstays] at hfind
  dsimp only
  rw [if_neg (by decide)]
  have hagain : Always rules.conduct Pass.shortDelay t fun o _ => o.requeue = true :=
    Pass.always_shortDelay fun _ _ _ => rfl
  refine (hagain.and (Rules.always_aside (Pass.asks_shortDelay fun _ h => h))).mono ?_
  rintro o t' ⟨ho, rfl⟩
  exact ⟨ho, w, hfind, hgoes, hwritten.conditions⟩

theorem shadowed_found (hcredits : rules.Credits x.namespaceName setup.defaults.repository)
    (hkind : r.kind = .module) :
    ShadowedFrom rules (Reconcile.found setup r) (Reconcile.found setup.dry r) m s fun o m' t =>
      Poised info x (!o.requeue) m' t := by
  unfold Reconcile.found
  split
  · rename_i hdeleting
    exact shadowed_clear hrules hacts h hr hdeleting
  rename_i hstays
  have hstays : r.isDeleting = false := Bool.eq_false_iff.2 hstays
  split
  · rename_i hterminal
    refine shadowedFrom_pure Outcome.done ⟨h.address, fun w hw _ hgoesOn => ?_, h.leaving⟩
    obtain rfl : r = w := Option.some.inj (hr.symm.trans hw)
    rw [hterminal] at hgoesOn
    exact absurd hgoesOn.symm Bool.false_ne_true
  rename_i hgoesOn
  have hgoesOn : r.isTerminal = false := Bool.eq_false_iff.2 hgoesOn
  refine shadowedFrom_bind (shadowedFrom_lift ((shadowed_of_oblivious hrules.impartial
    (Pass.oblivious_ensureFinalizer r)
    (always_ensureFinalizer hrules hr (h.address r hr) hstays)).mono ?_))
  rintro ⟨_ | o, w⟩ t ⟨hpost, hkept⟩
  · obtain ⟨rfl, rfl⟩ := hpost
    exact shadowed_live hrules hacts h hr hcredits hkind hstays hgoesOn
  · obtain ⟨ho, r', hr', hgoes, hconditions⟩ := hpost
    refine shadowedFrom_pure o ?_
    rw [ho]
    refine ⟨fun w hw => ?_, fun w hw _ _ => ?_, fun w g hw => ?_⟩
    all_goals obtain rfl : r' = w := Option.some.inj (hr'.symm.trans hw)
    · exact hgoes.address.trans (h.address r hr)
    · exact (h.living r hr hstays hgoesOn).continues hgoes hconditions hkept
    · rw [hgoes.id]
      exact h.leaving r g hr

omit hr in
/-- A pass in earnest over a module is followed by its rehearsal. -/
theorem shadowed_pass (hcredits : rules.Credits x.namespaceName setup.defaults.repository)
    (hmodule : x.kind = .module) :
    ShadowedFrom rules (x.pass setup) (x.pass setup.dry) m s fun a m' t =>
      Poised info x (settles a) m' t := by
  have hget : Always rules.conduct (Pass.get x.kind x.namespaceName x.name) s fun a t =>
      a = .ok (s.find x) ∧ t = s := by
    rw [Pass.always_get]
    rintro a t ⟨ha, rfl⟩
    rw [hrules.accepts] at ha
    exact ⟨ha, rfl⟩
  have hoblivious : Pass.Oblivious (Pass.get x.kind x.namespaceName x.name) :=
    ⟨rfl, fun _ => trivial⟩
  unfold Address.pass reconcile
  refine shadowedFrom_bind (shadowedFrom_lift
    ((shadowed_of_oblivious hrules.impartial hoblivious hget).mono ?_))
  rintro _ t ⟨⟨rfl, rfl⟩, -⟩
  cases hr : t.find x with
  | none =>
      exact shadowedFrom_modify _
        (shadowedFrom_pure (Except.ok Outcome.done) (poised_of_find_eq_none hr))
  | some r =>
      have hkind : r.kind = .module := (congrArg Address.kind (h.address r hr)).trans hmodule
      have hdry : setup.dry.className = setup.className := rfl
      dsimp only
      rw [hdry]
      split
      · exact shadowedFrom_pure (Except.error _) h.leave
      · refine shadowedFrom_bind ((shadowed_found hrules hacts h hr hcredits hkind).mono ?_)
        exact fun o _ _ hpoised => shadowedFrom_pure (Except.ok o) hpoised

end Passes

end Earnest

end ReleaseOperator
