import ReleaseOperator.Proofs.Edits.Script
import ReleaseOperator.Proofs.Renewal.Turns

/-!
# Edited values are applied again

The values of a module may change while its generation stays the same: in the config maps and
secrets that its overrides name, or in its class. A pass over a module with finished work hands
the release over exactly when the merge is not what was applied last, or else not the baseline;
and once that update has come to its end nothing is done any more until the merge changes
again.

What a pass does with a module is guarded, though. One that is being deleted, one that has yet
to be given its finalizer, and one in a phase that is final are passed over, however their
values have changed.
-/

namespace ReleaseOperator

open InMemory Program Work Relation

/-- A resource that the operator works on: it has its finalizer, it is in no final phase, and it
is of the class. -/
structure Resource.IsTended (setup : Setup) (r : Resource) : Prop where
  finalizer : r.hasFinalizer = true
  goesOn : r.isTerminal = false
  className : r.className = setup.className

namespace Renewal

variable {v : Contents} {setup : Setup} {id : ObjectId} {g : Int} {store : Store} {r : Resource}
  {m m₀ : Memory} {e : Entry} {x : Standing} {t : Contest} {now : Json}
  {result : Except PassError Outcome × Memory}

/-- What the merge of a pass is held against: what was applied last or else the baseline, which
may be that of this very pass. -/
def Standing.against (x : Standing) (now : Json) (es : Story) : Option Json :=
  x.basis.or (es.baseline? (some now))

/-- As long as the merge stays the same a pass has nothing to do: it ends at once, neither the
store nor a release is asked to change, and the entry stays as it is. -/
def Rests (id : ObjectId) (g : Int) (now : Json) (m : Memory) : Prop :=
  ∀ setup v store r result t, setup.dryRun = false → Finds id g store r → r.IsTended setup →
    v.merge? setup r = some now →
    Runs (conduct v False) ((pass setup id).run m) ⟨store, []⟩ result t →
    result.1 = .ok .done ∧ t.store = store ∧ t.story.IsQuiet ∧
      result.2.lifecycle.get? id g = m.lifecycle.get? id g

/-- A pass over a module that is tended comes to the work on it. -/
theorem always_tended (hfound : Finds id g store r) (htended : r.IsTended setup)
    (he : m.lifecycle.get? id g = some e) (merge : Option Json)
    {post : Except PassError Outcome → Memory → Contest → Prop}
    (works : ∀ s, Begun setup r e merge s → s.store = store →
      AlwaysFrom (conduct v False) (Work.live setup) (.start setup r e) s fun o j t =>
        post (.ok o) { m with lifecycle := m.lifecycle.record id g j.entry } t) :
    AlwaysFrom (conduct v False) (pass setup id) m ⟨store, []⟩ post := by
  rw [pass, always_reconcile]
  intro a s hmay
  have hstore : s.store = store := store_of_isQuiet rfl hmay
  have hstory := story_of_may hmay
  have hstored : (⟨store, []⟩ : Contest).store.get? id.namespaceName id.name = some r :=
    hfound.stored
  obtain rfl := (kept_of_may hmay).2.resolve_right fun hno => hno.1
  rw [hstored] at hstory ⊢
  dsimp only
  rw [if_neg (not_not_intro htended.className), Reconcile.always_found, hfound.stays,
    if_neg Bool.false_ne_true, htended.goesOn, if_neg Bool.false_ne_true,
    Pass.always_ensureFinalizer, if_pos htended.finalizer]
  dsimp only
  rw [Reconcile.always_live, hfound.identity, hfound.generation, Tracker.ensure_of_get? he]
  obtain ⟨sstore, sstory⟩ := s
  obtain rfl : sstore = store := hstore
  obtain rfl := hstory
  exact works _ (hfound.begun e merge) rfl

/-- An update that has been begun for a merge and is finished leaves nothing to do. -/
theorem rests_of_renews (hrenews : x.Renews id g now) (hfinished : x.isFinished id g = true) :
    Rests id g now x.memory := by
  obtain ⟨e, he, hrenewing⟩ := hrenews
  obtain ⟨e', he', hstage⟩ := Standing.finished hfinished
  obtain rfl : e' = e := Option.some.inj (he'.symm.trans he)
  intro setup v store r result t hlive hfound htended hmerge hrun
  have hpost : AlwaysFrom (conduct v False) (pass setup id) x.memory ⟨store, []⟩
      fun result m t => result = .ok .done ∧ t.store = store ∧ t.story.IsQuiet ∧
        m.lifecycle.get? id g = x.memory.lifecycle.get? id g := by
    refine always_tended hfound htended he (some now) ?_
    intro s hbegun hstore
    have hdigest := hrenewing.2 (by rw [hstage]; decide)
    refine (settled_live hbegun hmerge hlive hstage hdigest).mono ?_
    rintro o j t ⟨hj, hsame, hquiet, hdone⟩
    refine ⟨congrArg Except.ok (hdone not_false), hsame.trans hstore, hquiet, ?_⟩
    rw [hj]
    exact (Tracker.get?_record_of_get? he e').trans he.symm
  exact always_iff_runs.1 hpost _ _ hrun

/-- The pass over a tended module whose work is finished hands the release over exactly when the
merge differs from what it is held against. Whenever the update is finished then, whatever has
failed meanwhile, each further pass with the same merge has nothing to do. -/
theorem reapplied_iff_changed (hnew : m₀.lifecycle.get? id g = none)
    (hhistory : ReflTransGen (Turn id g fun _ => True) ⟨m₀, none, none⟩ x)
    (hfinished : x.isFinished id g = true) (hlive : setup.dryRun = false)
    (hfound : Finds id g store r) (htended : r.IsTended setup) (hselects : r.selectsUpdate = true)
    (hmerge : v.merge? setup r = some now) (hgrants : v.Grants setup r)
    (hmd5 : ∀ b, x.against now t.story = some b → Values.digest b = Values.digest now → b = now)
    (hrun : Runs (conduct v False) ((pass setup id).run x.memory) ⟨store, []⟩ result t) :
    (Handed t ↔ ∃ b, x.against now t.story = some b ∧ b ≠ now) ∧
      (Handed t → ∀ y, ReflTransGen (Turn id g fun merge => merge = some now)
          (x.after id g (some now) result.2 t.story) y →
        y.isFinished id g = true → Rests id g now y.memory) := by
  obtain ⟨e, he, hstage⟩ := Standing.finished hfinished
  have hdigest := remembers_of_history hnew hhistory e he
  have hpost : AlwaysFrom (conduct v False) (pass setup id) x.memory ⟨store, []⟩ fun _ m t =>
      (Handed t ↔ ∃ b, x.against now t.story = some b ∧ Values.digest b ≠ Values.digest now) ∧
        (Handed t → ∃ e, m.lifecycle.get? id g = some e ∧ Renewing now e) := by
    refine always_tended hfound htended he (some now) ?_
    intro s hbegun _
    refine (handed_live_iff hbegun hmerge hgrants hlive hstage hselects hdigest).mono ?_
    rintro o j t ⟨hiff, hrenewing⟩
    exact ⟨hiff, fun hhanded =>
      ⟨j.entry, Tracker.get?_record_of_get? he j.entry, hrenewing hhanded⟩⟩
  obtain ⟨hiff, hrenews⟩ := always_iff_runs.1 hpost _ _ hrun
  have hrenewed : Handed t → (x.after id g (some now) result.2 t.story).Renews id g now := hrenews
  refine ⟨hiff.trans ?_, fun hhanded y hturns hy =>
    rests_of_renews (renews_of_turns (hrenewed hhanded) hturns) hy⟩
  constructor
  · rintro ⟨b, hb, hdiffers⟩
    exact ⟨b, hb, fun heq => hdiffers (congrArg Values.digest heq)⟩
  · rintro ⟨b, hb, hdiffers⟩
    exact ⟨b, hb, fun hsame => hdiffers (hmd5 b hb hsame)⟩

/-! ### A class that changes its values -/

/-- The operator with a class that gives its modules a size. -/
def sizedSetup (size : Int) : Setup :=
  { trialSetup with baseValues := fun _ => some (.ofFields [("size", .whole size)]) }

/-- A cluster without config maps and secrets. -/
def noContents : Contents := ⟨fun _ _ _ => none, fun _ _ _ => none⟩

/-- The identity of the module `web`. -/
def webId : ObjectId := .ofResource trialModule

/-- The release `web` as it is when it is ready. -/
def readyRelease : ReleaseInfo := ⟨"web", "default", .deployed, "0.1.0"⟩

/-- A pass over the module `web` with Helm reporting a given release, computed. -/
def sizedPass (size : Int) (info : Option ReleaseInfo) (m : Memory) (store : Store) :
    (Except PassError Outcome × Memory) × Contest :=
  ((pass (sizedSetup size) webId).run m).run (answer noContents info) ⟨store, []⟩

theorem runs_sizedPass (size : Int) (info : Option ReleaseInfo) (m : Memory) (store : Store)
    (trouble : Prop) :
    Runs (conduct noContents trouble) ((pass (sizedSetup size) webId).run m) ⟨store, []⟩
      (sizedPass size info m store).1 (sizedPass size info m store).2 :=
  runs_run (may_answer noContents info trouble) _ _

/-- The module `web` as it is stored. -/
def webOf (store : Store) : Resource := (store.get? "default" "web").getD trialModule

/-- The first pass over the module: its release is applied and not ready yet. -/
def appliedPass : (Except PassError Outcome × Memory) × Contest :=
  sizedPass 1 none .empty (trialStore trialModule)

/-- The second pass, which finds the release ready. -/
def readyPass : (Except PassError Outcome × Memory) × Contest :=
  sizedPass 1 (some readyRelease) appliedPass.1.2 appliedPass.2.store

/-- The standing of the entry after the first pass. -/
def appliedStanding : Standing :=
  Standing.after ⟨.empty, none, none⟩ webId 1 (noContents.merge? (sizedSetup 1) trialModule)
    appliedPass.1.2 appliedPass.2.story

/-- The standing of the entry after the second pass. -/
def readyStanding : Standing :=
  appliedStanding.after webId 1 (noContents.merge? (sizedSetup 1) (webOf appliedPass.2.store))
    readyPass.1.2 readyPass.2.story

theorem finds_webOf {store : Store}
    (hkeyed : ∀ kv ∈ store.objects, kv.2.kind = .module ∧ Store.keyOf kv.2 = kv.1)
    (hstored : (store.get? "default" "web").isSome = true)
    (h : ObjectId.ofResource (webOf store) = webId ∧ (webOf store).generation = 1 ∧
      (webOf store).isDeleting = false) : Finds webId 1 store (webOf store) := by
  refine ⟨?_, ?_, h.1, h.2.1, h.2.2⟩
  · intro ns name r hr
    exact hkeyed ((ns, name), r) (Table.mem_of_get? hr)
  · obtain ⟨r, hr⟩ := Option.isSome_iff_exists.1 hstored
    have hget : store.get? "default" "web" = some (webOf store) := by
      rw [webOf, hr]
      rfl
    exact hget

theorem history_readyStanding :
    ReflTransGen (Turn webId 1 fun _ => True) ⟨.empty, none, none⟩ readyStanding := by
  have hfirst : Finds webId 1 (trialStore trialModule) (webOf (trialStore trialModule)) :=
    finds_webOf (by decide +kernel) (by decide +kernel) (by decide +kernel)
  have hfirstRun : Runs (conduct noContents True) ((pass (sizedSetup 1) webId).run .empty)
      ⟨trialStore trialModule, []⟩ appliedPass.1 appliedPass.2 := runs_sizedPass _ _ _ _ _
  have hsecond : Finds webId 1 appliedPass.2.store (webOf appliedPass.2.store) :=
    finds_webOf (by decide +kernel) (by decide +kernel) (by decide +kernel)
  have hsecondRun : Runs (conduct noContents True)
      ((pass (sizedSetup 1) webId).run appliedStanding.memory) ⟨appliedPass.2.store, []⟩
      readyPass.1 readyPass.2 := by
    rw [appliedStanding, Standing.memory_after]
    exact runs_sizedPass _ _ _ _ _
  have htracked : appliedStanding.entry? webId 1 ≠ none := by decide +kernel
  have hfirstTurn : Turn webId 1 (fun _ => True) ⟨.empty, none, none⟩ appliedStanding :=
    .passed rfl hfirst trivial (fun _ => rfl) hfirstRun
  have hsecondTurn : Turn webId 1 (fun _ => True) appliedStanding readyStanding := by
    rw [readyStanding]
    exact .passed rfl hsecond trivial (fun hnone => absurd hnone htracked) hsecondRun
  exact (ReflTransGen.single hfirstTurn).tail hsecondTurn

/-- The class changes its values, and a pass goes over the module as it is stored then. -/
def resizedPass (store : Store) : (Except PassError Outcome × Memory) × Contest :=
  sizedPass 2 (some readyRelease) readyStanding.memory store

/-- The merge with the changed values is not what was applied. -/
def IsResized (r : Resource) : Prop :=
  ∃ now, noContents.merge? (sizedSetup 2) r = some now ∧ ∀ es,
    ∃ b, readyStanding.against now es = some b ∧ Values.digest b ≠ Values.digest now

theorem isResized_of_digests {r : Resource}
    (hmerge : (noContents.merge? (sizedSetup 2) r).isSome = true)
    (hbasis : readyStanding.basis.isSome = true)
    (hdiffers : readyStanding.basis.map Values.digest ≠
      (noContents.merge? (sizedSetup 2) r).map Values.digest) : IsResized r := by
  obtain ⟨now, hnow⟩ := Option.isSome_iff_exists.1 hmerge
  obtain ⟨b, hb⟩ := Option.isSome_iff_exists.1 hbasis
  rw [hb, hnow] at hdiffers
  refine ⟨now, hnow, fun es => ⟨b, ?_, fun hsame => hdiffers (congrArg some hsame)⟩⟩
  rw [Standing.against, hb, Option.some_or]

/-- The release is handed over again, and when that is done there is nothing left to do. -/
theorem reapplied_iff_changed_resized :
    Handed (resizedPass readyPass.2.store).2 ∧
      ∃ now, noContents.merge? (sizedSetup 2) (webOf readyPass.2.store) = some now ∧
        (∃ b, readyStanding.against now (resizedPass readyPass.2.store).2.story = some b ∧
          b ≠ now) ∧
        ∀ y, ReflTransGen (Turn webId 1 fun merge => merge = some now)
            (readyStanding.after webId 1 (some now) (resizedPass readyPass.2.store).1.2
              (resizedPass readyPass.2.store).2.story) y →
          y.isFinished webId 1 = true → Rests webId 1 now y.memory := by
  have hhanded : Handed (resizedPass readyPass.2.store).2 := by
    unfold Handed
    decide +kernel
  have hfound : Finds webId 1 readyPass.2.store (webOf readyPass.2.store) :=
    finds_webOf (by decide +kernel) (by decide +kernel) (by decide +kernel)
  have htended : (webOf readyPass.2.store).IsTended (sizedSetup 2) :=
    ⟨by decide +kernel, by decide +kernel, by decide +kernel⟩
  have hselects : (webOf readyPass.2.store).selectsUpdate = true := by decide +kernel
  have hgrants : noContents.Grants (sizedSetup 2) (webOf readyPass.2.store) :=
    Contents.grants_of_module (by decide +kernel) rfl
  obtain ⟨now, hmerge, hresized⟩ : IsResized (webOf readyPass.2.store) :=
    isResized_of_digests (by decide +kernel) (by decide +kernel) (by decide +kernel)
  obtain ⟨b, hb, hdiffers⟩ := hresized (resizedPass readyPass.2.store).2.story
  have hmd5 : ∀ b, readyStanding.against now (resizedPass readyPass.2.store).2.story = some b →
      Values.digest b = Values.digest now → b = now := by
    intro b' hb' hsame
    obtain rfl := Option.some.inj (hb.symm.trans hb')
    exact absurd hsame hdiffers
  have hrun : Runs (conduct noContents False) ((pass (sizedSetup 2) webId).run readyStanding.memory)
      ⟨readyPass.2.store, []⟩ (resizedPass readyPass.2.store).1 (resizedPass readyPass.2.store).2 :=
    runs_sizedPass _ _ _ _ _
  have hfinished : readyStanding.isFinished webId 1 = true := by decide +kernel
  have hall := reapplied_iff_changed rfl history_readyStanding hfinished rfl hfound htended hselects
    hmerge hgrants hmd5 hrun
  exact ⟨hhanded, now, hmerge, hall.1.1 hhanded, hall.2 hhanded⟩

/-! ### Modules that are passed over -/

/-- The module without its finalizer. -/
def bareModule : Resource :=
  { webOf readyPass.2.store with
    metadata := { (webOf readyPass.2.store).metadata with finalizers := none } }

/-- The module while it is being deleted. -/
def leavingModule : Resource :=
  { webOf readyPass.2.store with
    metadata := { (webOf readyPass.2.store).metadata with deletionTime := some ⟨0⟩ } }

/-- The module in the phase that is final. -/
def completedModule : Resource := (webOf readyPass.2.store).setPhase .completed

/-- The work on the module is finished and its status selects an update; its merge is not the one
that was applied. Yet the release is not handed over, for want of the finalizer, because the
module is being deleted, or because its phase is final. -/
theorem guarded_modules_passed_over :
    ReflTransGen (Turn webId 1 fun _ => True) ⟨.empty, none, none⟩ readyStanding ∧
      readyStanding.isFinished webId 1 = true ∧
      ∀ r ∈ [bareModule, leavingModule, completedModule],
        (ObjectId.ofResource r = webId ∧ r.generation = 1 ∧ r.selectsUpdate = true) ∧
        ∃ now, noContents.merge? (sizedSetup 2) r = some now ∧
          ¬ (Handed (resizedPass (trialStore r)).2 ↔
            ∃ b, readyStanding.against now (resizedPass (trialStore r)).2.story = some b ∧
              b ≠ now) := by
  refine ⟨history_readyStanding, by decide +kernel, ?_⟩
  intro r hr
  have hfacts : ∀ r ∈ [bareModule, leavingModule, completedModule],
      (ObjectId.ofResource r = webId ∧ r.generation = 1 ∧ r.selectsUpdate = true) ∧
      (noContents.merge? (sizedSetup 2) r).isSome = true ∧
      readyStanding.basis.map Values.digest ≠
        (noContents.merge? (sizedSetup 2) r).map Values.digest ∧
      (resizedPass (trialStore r)).2.story.any Event.handsOver = false := by
    decide +kernel
  obtain ⟨hmodule, hmerge, hdiffers, hnot⟩ := hfacts r hr
  obtain ⟨now, hnow, hresized⟩ := isResized_of_digests hmerge (by decide +kernel) hdiffers
  obtain ⟨b, hb, hne⟩ := hresized (resizedPass (trialStore r)).2.story
  refine ⟨hmodule, now, hnow, fun hiff => ?_⟩
  have hhanded := hiff.2 ⟨b, hb, fun heq => hne (congrArg Values.digest heq)⟩
  exact Bool.eq_false_iff.1 hnot hhanded

end Renewal

end ReleaseOperator
