import ReleaseOperator.Proofs.Evidence.Tending
import ReleaseOperator.Proofs.Evidence.Entries

/-!
# Passes and their evidence

A pass over a sound store and memory is a path of guarded calls, and leaves store and memory
sound again. Whether it works on the release, removes it or only puts the finalizer on, the
entry that it puts back rests on the evidence for the stage that the work has reached.
-/

namespace ReleaseOperator.Contest

open InMemory Relation Program Work

variable {setup : Setup} {kind : Kind} {ns name : String} {begun s t : Contest}
  {r o w old : Resource} {j : Job} {action : Action} {pinned : Option Action} {stage : Stage}
  {m : Memory} {e : Entry} {rests : Resource → Story → Prop}

/-! ### The end of the work -/

/-- The work of a pass over a resource is over: what is stored is the same object, and where it
is of the same generation, something has what it rests on. The finalizer is still on, or
nothing has failed in the pass. -/
structure Over (kind : Kind) (ns name : String) (begun : Contest) (r : Resource)
    (rests : Resource → Story → Prop) (s : Contest) : Prop where
  keyed : s.store.Keyed kind
  path : ReflTransGen (Guarded kind ns name) begun s
  stored : ∀ o, s.store.get? ns name = some o → o.metadata.uid = r.metadata.uid ∧
    o.isDeleting = r.isDeleting ∧ r.generation ≤ o.generation ∧
    (o.generation = r.generation → rests o s.story)
  held : s.story.Smooth ∨ ∃ o, s.store.get? ns name = some o ∧ o.hasFinalizer = true

theorem Left.ends (h : Left kind ns name begun r action pinned e s)
    (hrests : ∀ o, Story.Attested o action e.stage s.story → rests o s.story) :
    Over kind ns name begun r rests s := by
  obtain ⟨o', ho', huid, hdel, hfin, hle, hatt⟩ := h.stored
  refine ⟨h.keyed, h.path, ?_, Or.inr ⟨o', ho', hfin⟩⟩
  intro o ho
  obtain rfl : o = o' := Option.some.inj (ho.symm.trans ho')
  exact ⟨huid, hdel, hle, fun hgen => hrests o (hatt hgen)⟩

theorem Tending.ends (h : Tending kind ns name begun r j s)
    (hrests : ∀ o, r.Matches o → rests o s.story) : Over kind ns name begun r rests s := by
  obtain ⟨o', ho', hmatch⟩ := h.stored
  refine ⟨h.keyed, h.path, ?_, Or.inr ⟨o', ho', hmatch.hasFinalizer.trans h.finalizer⟩⟩
  intro o ho
  obtain rfl : o = o' := Option.some.inj (ho.symm.trans ho')
  exact ⟨hmatch.uid, hmatch.isDeleting, Int.le_of_eq hmatch.generation.symm, fun _ =>
    hrests o hmatch⟩

theorem left_of_proceeds {o : Outcome} (h : Proceeds (At kind ns name begun r action pinned .finish)
    (Left kind ns name begun r action pinned) o j s) :
    Left kind ns name begun r action pinned j.entry s := by
  unfold Proceeds at h
  split at h
  · exact h
  · exact h.left

/-- A write of the resource as a whole that leaves its specification alone. -/
theorem Saved.follows {or : Outcome × Resource} (h : Saved kind ns name begun s w or t)
    (hold : s.store.get? ns name = some old) (hspec : w.spec = old.spec)
    (hkey : Store.keyOf w = Store.keyOf old) (ho : t.store.get? ns name = some o) :
    Follows s t old o ∧ o.isDeleting = old.isDeleting := by
  obtain ⟨recent, hstory, hrecent⟩ := h.story
  have hnews : ∃ recent, t.story = recent ++ s.story ∧ ∀ x ∈ recent, Event.Keeps old.aim x :=
    ⟨recent, hstory, fun x hx => hrecent x hx old.aim⟩
  rcases h.result with ⟨_, hsame⟩ | ⟨_, _, old', hold', hnew, hstored⟩
  · rw [hsame] at ho
    obtain rfl : old = o := Option.some.inj (hold.symm.trans ho)
    exact ⟨⟨rfl, id, Int.le_refl _, fun _ => ⟨rfl, hnews⟩⟩, rfl⟩
  · obtain rfl : old = old' := Option.some.inj (hold.symm.trans hold')
    rcases hstored with hstored | ⟨hnone, _⟩
    · obtain rfl : or.2 = o := Option.some.inj (hstored.symm.trans ho)
      rw [hnew]
      refine ⟨⟨rfl, id, Store.le_generation_merged s.store old w, fun hgen => ⟨?_, hnews⟩⟩, rfl⟩
      injection hkey with hns hname
      have hplace : (s.store.merged old w).releasePlace = old.releasePlace := by
        have hplace' : w.releasePlace = old.releasePlace := by
          rw [Resource.releasePlace, Resource.releasePlace, hspec, hns, hname]
        exact hplace'
      have hversion : (s.store.merged old w).desiredVersion = old.desiredVersion := by
        have hversion' : w.desiredVersion = old.desiredVersion := by
          rw [Resource.desiredVersion, Resource.desiredVersion, hspec]
        exact hversion'
      rw [Resource.aim, hgen, hplace, hversion]
      rfl
    · rw [hnone] at ho
      exact absurd ho (by simp)

/-! ### The work on a resource that lives -/

theorem Tending.quiet {α : Type} {p : Pass α} (hp : Pass.Quiet p)
    (h : Tending kind ns name begun r j s) :
    Always (uninterrupted kind) p s fun _ t => Tending kind ns name begun r j t :=
  hp.always (fun _ _ _ _ hq hmay h₁ => (h₁.quietCall hq hmay).1) h

theorem Tending.runPinned (hdry : setup.dryRun = false) (h : Tending kind ns name begun r j s)
    (hrests : j.entry.Rests r s.story) :
    AlwaysFrom (uninterrupted kind) (Work.runPinned setup) j s fun _ j' t =>
      Over kind ns name begun r (fun o story => j'.entry.Rests o story) t := by
  have hover : ∀ {a : Action} {o : Outcome} {j' : Job} {t : Contest},
      Proceeds (At kind ns name begun r a (some a) .finish) (Left kind ns name begun r a (some a))
        o j' t → Over kind ns name begun r (fun o story => j'.entry.Rests o story) t := by
    intro a o j' t hgoes
    have hleft := left_of_proceeds hgoes
    refine hleft.ends fun o hatt => ?_
    rw [Entry.Rests, hleft.chosen]
    exact hatt
  rw [Work.always_runPinned]
  cases haction : j.entry.action with
  | some a =>
      rw [Entry.Rests, haction] at hrests
      have hat : At kind ns name begun r a (some a) j.entry.stage j s := ⟨h, rfl, haction, hrests⟩
      exact (hat.perform hdry).mono fun _ _ _ => hover
  | none =>
      rw [Entry.Rests, haction] at hrests
      refine (h.quiet (Pass.quiet_chooseAction j)).mono ?_
      rintro (o | a) t ht
      · refine ht.ends fun o _ => ?_
        rw [Entry.Rests, haction]
        exact hrests
      · have hat : At kind ns name begun r a (some a) .start
            { j with entry := j.entry.pin a } t :=
          ⟨ht.withJob rfl ht.copy, hrests, rfl, Story.attested_of_rank_le (by decide)⟩
        exact (hat.perform hdry).mono fun _ _ _ => hover

/-- Whether the values have changed is found out without touching stage or action. -/
theorem Tending.valuesChanged (h : Tending kind ns name begun r j s) :
    AlwaysFrom (uninterrupted kind) (Work.valuesChanged setup) j s fun _ j' t =>
      Tending kind ns name begun r j' t ∧ j'.entry.stage = j.entry.stage ∧
        j'.entry.action = j.entry.action := by
  rw [Work.always_valuesChanged]
  split
  · exact ⟨h, rfl, rfl⟩
  · refine (h.quiet (Pass.quiet_valuesDigest setup j)).mono ?_
    rintro (e | desired) t ht
    · exact (ht.quiet (Pass.quiet_shortDelayWith _)).mono fun _ _ ht' => ⟨ht', rfl, rfl⟩
    · refine (ht.quiet (Pass.quiet_appliedDigest setup j desired)).mono ?_
      rintro (o | applied) t' ht'
      · exact ⟨ht', rfl, rfl⟩
      · exact ⟨ht'.withJob rfl ht'.copy, rfl, rfl⟩

/-- Finished work on a resource that lives rests on nothing. -/
theorem rests_of_finish {story : Story} (hliving : o.isDeleting = false)
    (hstage : e.stage = .finish) (haction : e.action ≠ none) : e.Rests o story := by
  unfold Entry.Rests
  split
  · rename_i hnone
    exact absurd hnone haction
  · rename_i a _
    rw [hstage]
    cases a with
    | delete => exact fun hdel => absurd (hliving.symm.trans hdel) Bool.false_ne_true
    | install => exact trivial
    | update => exact trivial
    | upgrade => exact trivial

theorem Tending.live (hdry : setup.dryRun = false) (hliving : r.isDeleting = false)
    (h : Tending kind ns name begun r j s) (hrests : j.entry.Rests r s.story) :
    AlwaysFrom (uninterrupted kind) (Work.live setup) j s fun _ j' t =>
      Over kind ns name begun r (fun o story => j'.entry.Rests o story) t := by
  rw [Work.always_live]
  split
  · rename_i hfinish
    have hchosen : j.entry.action ≠ none := by
      intro hnone
      rw [Entry.Rests, hnone] at hrests
      exact absurd (hfinish.symm.trans hrests) (by decide)
    refine h.valuesChanged.mono ?_
    rintro res j' t ⟨ht, hstage, haction⟩
    have hover : Over kind ns name begun r (fun o story => j'.entry.Rests o story) t :=
      ht.ends fun o hmatch => rests_of_finish (hmatch.isDeleting.trans hliving)
        (hstage.trans hfinish) (haction ▸ hchosen)
    rcases res with o | _ | _
    · exact hover
    · exact hover
    · have hagain : Tending kind ns name begun r
          { j' with entry := (j'.entry.pin .update).rearm } t := ht.withJob rfl ht.copy
      exact hagain.runPinned hdry trivial
  · exact h.runPinned hdry hrests

/-! ### Clearing a resource away -/

/-- At the end of a removal in which nothing has failed the finalizer may be taken off. -/
theorem At.guard_removeFinalizer (h : At kind ns name begun r .delete pinned .finish j s)
    (hdel : r.isDeleting = true) (hsmooth : s.story.Smooth) :
    Guard kind ns name s (.store (.update j.resource.removeFinalizer)) := by
  obtain ⟨old, hold, hmatch⟩ := h.tending.stored
  have hcopy := h.tending.copy
  obtain ⟨hkind, hkey⟩ := h.tending.writes hcopy
  have haim : j.resource.removeFinalizer.aim = r.aim := hcopy.aim
  have hcleared : Story.Cleared j.resource.removeFinalizer.aim s.story := by
    rw [haim]
    exact h.attested hdel
  refine ⟨hkind, hkey, fun _ => ⟨old, hold, fun _ => ?_⟩, fun _ => ?_⟩
  · exact hmatch.hasFinalizer.trans h.tending.finalizer
  · exact ⟨⟨r, h.tending.fetched, hdel, h.tending.finalizer, haim⟩, hcleared, hsmooth,
      ⟨old, hold, hmatch.isDeleting.trans hdel⟩⟩

/-- The finalizer is taken off, or it stays on. -/
theorem At.letGo (h : At kind ns name begun r .delete pinned .finish j s)
    (hdel : r.isDeleting = true) (hsmooth : s.story.Smooth) :
    Always (uninterrupted kind) (Pass.persistResource j.resource.removeFinalizer) s fun _ t =>
      Over kind ns name begun r
        (fun o story => Story.Attested o .delete j.entry.stage story) t := by
  obtain ⟨old, hold, hmatch⟩ := h.tending.stored
  have hcopy := h.tending.copy
  have hspec : j.resource.removeFinalizer.spec = old.spec := hcopy.spec.trans hmatch.spec.symm
  have hkey : Store.keyOf j.resource.removeFinalizer = Store.keyOf old :=
    hcopy.key.trans hmatch.key.symm
  refine (always_saved h.tending.keyed h.tending.path
    (h.guard_removeFinalizer hdel hsmooth)).mono ?_
  intro or t hsaved
  refine ⟨hsaved.keyed, hsaved.path, ?_, ?_⟩
  · intro o ho
    obtain ⟨hfollows, hdel'⟩ := hsaved.follows hold hspec hkey ho
    refine ⟨hfollows.uid.trans hmatch.uid, hdel'.trans hmatch.isDeleting,
      hmatch.generation ▸ hfollows.generation, fun hgen => ?_⟩
    refine hfollows.attested hdel' (hgen.trans hmatch.generation.symm) ?_
    rw [h.reached]
    exact h.attested.congr hmatch.aim hmatch.isDeleting
  · rcases hsaved.result with ⟨_, hsame⟩ | ⟨_, hwell, _⟩
    · exact Or.inr ⟨old, hsame ▸ hold, hmatch.hasFinalizer.trans h.tending.finalizer⟩
    · exact Or.inl (hwell hsmooth)

theorem At.clear (hdry : setup.dryRun = false) (hdel : r.isDeleting = true)
    (h : At kind ns name begun r .delete pinned stage j s) (hsmooth : s.story.Smooth) :
    AlwaysFrom (uninterrupted kind) (Work.clear setup) j s fun _ j' t =>
      Over kind ns name begun r
        (fun o story => Story.Attested o .delete j'.entry.stage story) t := by
  rw [Work.always_clear]
  refine ((h.perform hdry).and (candid_perform hsmooth)).mono ?_
  rintro o j' t ⟨hgoes, hcandid⟩
  split
  · exact (left_of_proceeds hgoes).ends fun _ => id
  · rename_i ho
    have ht : At kind ns name begun r .delete pinned .finish j' t := by
      rw [Proceeds, if_neg ho] at hgoes
      exact hgoes
    rw [Pass.always_removeFinalizer]
    split
    · refine (ht.letGo hdel (hcandid.resolve_left ho)).mono ?_
      intro or u hover
      split
      · exact hover
      · exact hover
    · split
      · exact ht.left.ends fun _ => id
      · exact ht.left.ends fun _ => id

/-! ### Passes -/

theorem Over.living (h : Over kind ns name begun r (fun o story => e.Rests o story) t)
    (hsound : Sound kind ns name m s) (hr : s.store.get? ns name = some r)
    (hliving : r.isDeleting = false) :
    Sound kind ns name { m with lifecycle := ((m.lifecycle.ensure (.ofResource r) r.generation
      .start).2.record (.ofResource r) r.generation e) } t := by
  refine ⟨h.keyed, ?_, ?_⟩
  · intro o ho _
    obtain ⟨huid, _, hle, hrests⟩ := h.stored o ho
    exact (hsound.living r hr hliving).recorded (objectId_stored hsound.keyed h.keyed hr ho huid)
      hle hrests
  · intro o ho
    obtain ⟨huid, _, hle, _⟩ := h.stored o ho
    refine (hsound.dying r hr).carry (objectId_stored hsound.keyed h.keyed hr ho huid) hle ?_
    exact fun _ e hdying => absurd (hliving.symm.trans hdying.1) Bool.false_ne_true

theorem Over.dying
    (h : Over kind ns name begun r (fun o story => Story.Attested o .delete e.stage story) t)
    (hsound : Sound kind ns name m s) (hr : s.store.get? ns name = some r)
    (hdel : r.isDeleting = true) :
    Sound kind ns name { m with deletion := ((m.deletion.ensure (.ofResource r) r.generation
      .start).2.record (.ofResource r) r.generation e) } t := by
  refine ⟨h.keyed, ?_, ?_⟩
  · intro o ho hliving
    obtain ⟨_, hdel', _⟩ := h.stored o ho
    exact absurd (hliving.symm.trans (hdel'.trans hdel)) Bool.false_ne_true
  · intro o ho
    obtain ⟨huid, hdel', hle, hrests⟩ := h.stored o ho
    exact (hsound.dying r hr).recorded (objectId_stored hsound.keyed h.keyed hr ho huid) hle
      fun hgen => ⟨hdel'.trans hdel, hrests hgen⟩

/-- In a pass that has left the finalizer alone so far: store and memory are sound, and all
calls were guarded. -/
structure Passing (kind : Kind) (ns name : String) (begun : Contest) (m : Memory) (t : Contest) :
    Prop where
  sound : Sound kind ns name m t
  path : ReflTransGen (Guarded kind ns name) begun t
  held : ∀ o, begun.store.get? ns name = some o → o.hasFinalizer = true →
    ∃ o', t.store.get? ns name = some o' ∧ o'.hasFinalizer = true

/-- What a pass leaves. The finalizer is on if it was, or nothing has failed in the pass. -/
structure Passed (kind : Kind) (ns name : String) (begun : Contest) (m : Memory) (t : Contest) :
    Prop where
  sound : Sound kind ns name m t
  path : ReflTransGen (Guarded kind ns name) begun t
  held : t.story.Smooth ∨ ∀ o, begun.store.get? ns name = some o → o.hasFinalizer = true →
    ∃ o', t.store.get? ns name = some o' ∧ o'.hasFinalizer = true

theorem Passing.passed (h : Passing kind ns name begun m t) : Passed kind ns name begun m t :=
  ⟨h.sound, h.path, Or.inr h.held⟩

/-- A quiet call that keeps the work for the stored resource where it was. -/
theorem Passing.told (h : Passing kind ns name begun m s) {c : Call} {a : c.Answer}
    (hq : c.isQuiet = true) (hmay : (uninterrupted kind).may s c a t)
    (hkeeps : ∀ o, s.store.get? ns name = some o → Event.Keeps o.aim (.asked c a)) :
    Passing kind ns name begun m t := by
  obtain ⟨store, hans, rfl⟩ := hmay
  obtain rfl := answered_of_isQuiet hq hans
  exact ⟨h.sound.told hkeeps, h.path.tail ⟨c, a, s.store, guard_of_isQuiet hq, hans, rfl⟩, h.held⟩

theorem Passing.calm {α : Type} {p : Pass α} (hp : Asks Calm p)
    (h : Passing kind ns name begun m s) :
    Always (uninterrupted kind) p s fun _ t => Passing kind ns name begun m t :=
  hp.always (fun _ _ a _ hc hmay h => h.told hc.1 hmay fun o _ => hc.2 o.aim a) h

theorem Over.passed (h : Over kind ns name begun r rests t) (hsound : Sound kind ns name m t) :
    Passed kind ns name begun m t :=
  ⟨hsound, h.path, h.held.imp_right fun hfin _ _ _ => hfin⟩

/-- In a pass that has just read the resource. -/
structure Opened (kind : Kind) (ns name : String) (begun : Contest) (m : Memory) (r : Resource)
    (s : Contest) : Prop where
  passing : Passing kind ns name begun m s
  same : s.store = begun.store
  stored : s.store.get? ns name = some r
  fetched : s.story.fetched? = some r
  smooth : s.story.Smooth

theorem Opened.tending (h : Opened kind ns name begun m r s) (hfin : r.hasFinalizer = true)
    (e : Entry) : Tending kind ns name begun r (Job.start setup r e) s :=
  ⟨h.passing.sound.keyed, h.passing.path, h.fetched, h.passing.sound.keyed ns name r h.stored,
    hfin, Resource.place_release r setup.defaults, ⟨r, h.stored, .refl r⟩, .refl r⟩

theorem Opened.live (hdry : setup.dryRun = false) (h : Opened kind ns name begun m r s)
    (hliving : r.isDeleting = false) (hfin : r.hasFinalizer = true) :
    AlwaysFrom (uninterrupted kind) (Reconcile.live setup r) m s fun _ m' t =>
      Passed kind ns name begun m' t := by
  rw [Reconcile.always_live]
  have hrests : ((m.lifecycle.ensure (.ofResource r) r.generation .start).1).Rests r s.story :=
    (h.passing.sound.living r h.stored hliving).ensured rfl
  refine ((h.tending hfin _).live hdry hliving hrests).mono ?_
  intro o j t hover
  exact hover.passed (hover.living h.passing.sound h.stored hliving)

theorem Opened.clear (hdry : setup.dryRun = false) (h : Opened kind ns name begun m r s)
    (hdel : r.isDeleting = true) :
    AlwaysFrom (uninterrupted kind) (Reconcile.clear setup r) m s fun _ m' t =>
      Passed kind ns name begun m' t := by
  rw [Reconcile.always_clear]
  split
  · rename_i hfin
    have hentry := (h.passing.sound.dying r h.stored).ensured ⟨hdel, fun _ => trivial⟩
    have hat : At kind ns name begun r .delete _ _ (Job.start setup r
        (m.deletion.ensure (.ofResource r) r.generation .start).1) s :=
      ⟨h.tending hfin _, rfl, rfl, hentry.2⟩
    refine (hat.clear hdry hdel h.smooth).mono ?_
    rintro ⟨forget, o⟩ j t hover
    have hsound := hover.dying h.passing.sound h.stored hdel
    cases forget with
    | true => exact hover.passed (hsound.onBoth _)
    | false => exact hover.passed hsound
  · exact ⟨h.passing.sound.onBoth _, h.passing.path, Or.inr h.passing.held⟩

/-- The finalizer put onto a resource is a guarded write. -/
theorem Opened.saved_addFinalizer (h : Opened kind ns name begun m r s)
    (hliving : r.isDeleting = false) :
    Always (uninterrupted kind) (Pass.persistResource r.addFinalizer) s
      (Saved kind ns name begun s r.addFinalizer) := by
  obtain ⟨hkind, hkey⟩ := h.passing.sound.keyed ns name r h.stored
  have hguard : Guard kind ns name s (.store (.update r.addFinalizer)) :=
    ⟨(Resource.kind_addFinalizer r).trans hkind, (Resource.key_addFinalizer r).trans hkey,
      fun _ => ⟨r, h.stored, fun hdel => absurd (hliving.symm.trans hdel) (by decide)⟩,
      fun hbare => absurd ((Resource.hasFinalizer_addFinalizer r).symm.trans hbare) (by decide)⟩
  exact always_saved h.passing.sound.keyed h.passing.path hguard

/-- A resource that is given its finalizer. -/
theorem Opened.adopt (h : Opened kind ns name begun m r s) (hliving : r.isDeleting = false)
    (hno : r.hasFinalizer = false) :
    Always (uninterrupted kind) (Pass.persistResource r.addFinalizer) s fun _ t =>
      Passing kind ns name begun m t := by
  refine (h.saved_addFinalizer hliving).mono ?_
  intro or t hsaved
  refine ⟨h.passing.sound.carry hsaved.keyed fun o ho => ⟨r, h.stored, ?_⟩, hsaved.path, ?_⟩
  · exact (hsaved.follows h.stored (Resource.spec_addFinalizer r)
      (Resource.key_addFinalizer r) ho).1
  · intro o ho hfin
    rw [← h.same, h.stored] at ho
    obtain rfl := Option.some.inj ho
    exact absurd (hno.symm.trans hfin) Bool.false_ne_true

theorem Opened.found (hdry : setup.dryRun = false) (h : Opened kind ns name begun m r s) :
    AlwaysFrom (uninterrupted kind) (Reconcile.found setup r) m s fun _ m' t =>
      Passed kind ns name begun m' t := by
  rw [Reconcile.always_found]
  split
  · rename_i hdel
    exact h.clear hdry hdel
  · rename_i hliving
    split
    · exact h.passing.passed
    · rw [Pass.always_ensureFinalizer]
      split
      · rename_i hfin
        exact h.live hdry (Bool.not_eq_true _ ▸ hliving) hfin
      · rename_i hno
        refine (h.adopt (Bool.not_eq_true _ ▸ hliving) (Bool.not_eq_true _ ▸ hno)).mono ?_
        rintro ⟨o, r'⟩ t ht
        dsimp only
        split
        · exact ht.passed
        · exact (ht.calm calm_shortDelay).mono fun _ _ => Passing.passed

/-- A pass begins without doing anything. -/
theorem Sound.began (h : Sound kind ns name m s) :
    Passing kind ns name ⟨s.store, .began :: s.story⟩ m ⟨s.store, .began :: s.story⟩ :=
  ⟨h.told fun _ _ => trivial, .refl, fun o ho hfin => ⟨o, ho, hfin⟩⟩

/-- The resource has been read. -/
theorem Sound.opened (h : Sound kind ns name m s) (hr : s.store.get? ns name = some r) :
    Opened kind ns name ⟨s.store, .began :: s.story⟩ m r
      ⟨s.store, .asked (.store (.get kind ns name)) (.ok (some r)) :: .began :: s.story⟩ := by
  have hmay : (uninterrupted kind).may ⟨s.store, .began :: s.story⟩ (.store (.get kind ns name))
      (.ok (some r))
      ⟨s.store, .asked (.store (.get kind ns name)) (.ok (some r)) :: .began :: s.story⟩ := by
    refine ⟨s.store, ?_, rfl⟩
    rw [Answered, if_pos rfl]
    exact ⟨rfl, Or.inl (congrArg Except.ok hr.symm)⟩
  refine ⟨h.began.told rfl hmay fun o ho => ?_, rfl, hr, rfl, not_error_ok, trivial⟩
  obtain rfl : r = o := Option.some.inj (hr.symm.trans ho)
  exact ⟨rfl, rfl⟩

/-- A pass over a sound store and memory. -/
theorem Sound.pass (hdry : setup.dryRun = false) (h : Sound kind ns name m s) :
    AlwaysFrom (uninterrupted kind) (reconcile setup kind ns name) m ⟨s.store, .began :: s.story⟩
      fun _ m' t => Passed kind ns name ⟨s.store, .began :: s.story⟩ m' t := by
  rw [always_reconcile]
  intro a t hmay
  obtain ⟨store, hans, rfl⟩ := hmay
  obtain rfl := answered_of_isQuiet rfl hans
  have hmay : (uninterrupted kind).may ⟨s.store, .began :: s.story⟩ (.store (.get kind ns name)) a
      ⟨s.store, .asked (.store (.get kind ns name)) a :: .began :: s.story⟩ :=
    ⟨s.store, hans, rfl⟩
  rcases a with e | _ | r
  · exact ((h.began.told rfl hmay fun _ _ => trivial).calm (calm_shortDelayWith _)).mono
      fun _ _ => Passing.passed
  · have hnone := stored_of_answered hans
    have ht := h.began.told rfl hmay fun o ho => absurd (hnone.symm.trans ho) (by simp)
    exact ⟨ht.sound.onBoth _, ht.path, Or.inr ht.held⟩
  · have hopened := h.opened (stored_of_answered hans)
    dsimp only
    split
    · exact hopened.passing.passed
    · exact hopened.found hdry

end ReleaseOperator.Contest
