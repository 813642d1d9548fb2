import ReleaseOperator.Proofs.Evidence.Since
import ReleaseOperator.Proofs.Invariants
import ReleaseOperator.Proofs.Alert

/-!
# Passes that nobody interrupts

Here calls may fail at any point of a pass, and users edit between passes only. So in the
middle of a pass the stored resource, the copy in hand and the resource as it was found
differ in nothing but the status and the revision (`Tending`). What a call that changes
something presupposes is its guard; a pass is a path of guarded calls, and all that is to be
known of its events follows from the guards.
-/

namespace ReleaseOperator

open InMemory Relation Program

/-- The events of a release that has been brought about. -/
def Reason.successes : List Reason := [.installSucceeded, .upgradeSucceeded, .updateSucceeded]

theorem Resource.spec_addFinalizer (r : Resource) : r.addFinalizer.spec = r.spec := by
  unfold addFinalizer
  split
  · rfl
  · rfl

theorem Resource.hasFinalizer_addFinalizer (r : Resource) :
    r.addFinalizer.hasFinalizer = true := by
  unfold addFinalizer
  split
  · assumption
  · simp [hasFinalizer, finalizers, setFinalizers, kind]

/-- A resource that is another one but for the status and the revision. -/
structure Resource.Matches (r o : Resource) : Prop where
  spec : o.spec = r.spec
  metadata : ∃ v, o.metadata = { r.metadata with resourceVersion := v }

namespace Resource.Matches

variable {r o : Resource}

theorem refl (r : Resource) : r.Matches r := ⟨rfl, r.metadata.resourceVersion, rfl⟩

theorem copyStatus (h : r.Matches o) (w : Resource) : r.Matches (o.copyStatus w) :=
  ⟨h.spec, h.metadata⟩

theorem withRevision (h : r.Matches o) (n : Nat) : r.Matches (Store.withRevision o n) := by
  obtain ⟨v, hv⟩ := h.metadata
  refine ⟨h.spec, some (toString n), ?_⟩
  unfold Store.withRevision
  rw [hv]

theorem of_eq {w : Resource} (h : r.Matches o) (hmeta : w.metadata = o.metadata)
    (hspec : w.spec = o.spec) : r.Matches w :=
  ⟨hspec.trans h.spec, by rw [hmeta]; exact h.metadata⟩

theorem kind (h : r.Matches o) : o.kind = r.kind := by
  rw [Resource.kind, h.spec]
  rfl

theorem key (h : r.Matches o) : Store.keyOf o = Store.keyOf r := by
  obtain ⟨v, hv⟩ := h.metadata
  rw [Store.keyOf, Resource.namespaceName, Resource.name, hv]
  rfl

theorem uid (h : r.Matches o) : o.metadata.uid = r.metadata.uid := by
  obtain ⟨v, hv⟩ := h.metadata
  rw [hv]

theorem generation (h : r.Matches o) : o.generation = r.generation := by
  obtain ⟨v, hv⟩ := h.metadata
  rw [Resource.generation, hv]
  rfl

theorem isDeleting (h : r.Matches o) : o.isDeleting = r.isDeleting := by
  obtain ⟨v, hv⟩ := h.metadata
  rw [Resource.isDeleting, hv]
  rfl

theorem finalizers (h : r.Matches o) : o.finalizers = r.finalizers := by
  obtain ⟨v, hv⟩ := h.metadata
  rw [Resource.finalizers, hv]
  rfl

theorem hasFinalizer (h : r.Matches o) : o.hasFinalizer = r.hasFinalizer := by
  rw [Resource.hasFinalizer, h.finalizers, h.kind]
  rfl

theorem aim (h : r.Matches o) : o.aim = r.aim := by
  have hkey := h.key
  injection hkey with hns hname
  have hversion : o.desiredVersion = r.desiredVersion := by
    rw [Resource.desiredVersion, h.spec]
    rfl
  have hplace : o.releasePlace = r.releasePlace := by
    rw [Resource.releasePlace, h.spec, hns, hname]
    rfl
  rw [Resource.aim, h.uid, h.generation, hversion, hplace]
  rfl

end Resource.Matches

namespace Contest

/-- Calls are answered or fail, and nobody else does anything. -/
def uninterrupted (kind : Kind) : Conduct Contest where
  may s c a t :=
    ∃ store, Answered kind s.store c a store ∧ t = ⟨store, .asked c a :: s.story⟩
  answers s c := by
    obtain ⟨a, store, h⟩ := exists_answered kind s.store c
    exact ⟨a, _, store, h, rfl⟩

section Guards

variable (kind : Kind) (ns name : String)

/-- A write that takes the finalizer off: the resource is being deleted, its release is known
to be gone, and nothing has failed in the pass. -/
structure Strips (s : Contest) (w : Resource) : Prop where
  fetched : ∃ r, s.story.fetched? = some r ∧ r.isDeleting = true ∧ r.hasFinalizer = true ∧
    w.aim = r.aim
  cleared : Story.Cleared w.aim s.story
  smooth : s.story.Smooth
  stored : ∃ o, s.store.get? ns name = some o ∧ o.isDeleting = true

/-- What holds whenever a pass makes a call that changes something. A release is applied where
the resource asks for it, and only under the finalizer; the finalizer is not put back onto a
resource that is being deleted. -/
def Guard (s : Contest) : Call → Prop
  | .helm (.upgradeOrInstall request) =>
    (∃ r, s.story.fetched? = some r ∧ r.hasFinalizer = true ∧
      request.release.place = r.releasePlace) ∧
    ∃ o, s.store.get? ns name = some o ∧ o.hasFinalizer = true
  | .store (.update w) =>
    w.kind = kind ∧ Store.keyOf w = (ns, name) ∧
      (w.hasFinalizer = true → ∃ o, s.store.get? ns name = some o ∧
        (o.isDeleting = true → o.hasFinalizer = true)) ∧
      (w.hasFinalizer = false → Strips ns name s w)
  | .store (.updateStatus w) =>
    w.kind = kind ∧ Store.keyOf w = (ns, name) ∧
      ∀ reason ∈ Reason.successes, endsIn w.conditions reason → Story.Proven w.aim s.story
  | _ => True

/-- A call made where its guard holds. -/
def Guarded (s t : Contest) : Prop :=
  ∃ c a store, Guard kind ns name s c ∧ Answered kind s.store c a store ∧
    t = ⟨store, .asked c a :: s.story⟩

end Guards

variable {setup : Setup} {kind : Kind} {ns name : String} {begun s t : Contest} {r w : Resource}
  {j : Job} {action : Action} {pinned : Option Action} {stage : Stage} {c : Call} {a : c.Answer}

theorem guard_of_isQuiet (h : c.isQuiet = true) : Guard kind ns name s c := by
  rcases c with (_ | _ | _) | _ | (_ | _ | _ | _ | _ | _) | _ | _ | _ | _ <;>
    first | exact trivial | exact absurd h Bool.false_ne_true

/-- Every call of a path was made where its guard held. -/
theorem guard_of_suffix (h : ReflTransGen (Guarded kind ns name) s t) {es : Story}
    (hsuffix : (.asked c a :: es) <:+ t.story) :
    (.asked c a :: es) <:+ s.story ∨ ∃ store, Guard kind ns name ⟨store, es⟩ c := by
  induction h with
  | refl => exact Or.inl hsuffix
  | tail _ hstep ih =>
      obtain ⟨c', a', store, hguard, _, rfl⟩ := hstep
      rcases List.suffix_cons_iff.1 hsuffix with heq | hsuffix
      · injection heq with hevent hes
        injection hevent with hc ha
        subst hc hes
        exact Or.inr ⟨_, hguard⟩
      · exact ih hsuffix

/-- In the middle of a pass over a resource that has its finalizer. -/
structure Tending (kind : Kind) (ns name : String) (begun : Contest) (r : Resource) (j : Job)
    (s : Contest) : Prop where
  keyed : s.store.Keyed kind
  path : ReflTransGen (Guarded kind ns name) begun s
  fetched : s.story.fetched? = some r
  place : r.kind = kind ∧ Store.keyOf r = (ns, name)
  finalizer : r.hasFinalizer = true
  release : j.release.place = r.releasePlace
  stored : ∃ o, s.store.get? ns name = some o ∧ r.Matches o
  copy : r.Matches j.resource

theorem Tending.withJob (h : Tending kind ns name begun r j s) {j' : Job}
    (hrelease : j'.release = j.release) (hcopy : r.Matches j'.resource) :
    Tending kind ns name begun r j' s :=
  ⟨h.keyed, h.path, h.fetched, h.place, h.finalizer, by rw [hrelease]; exact h.release,
    h.stored, hcopy⟩

/-- A guarded call that leaves the store as it is. -/
theorem Tending.asked (h : Tending kind ns name begun r j s) (hguard : Guard kind ns name s c)
    (hans : Answered kind s.store c a s.store) :
    Tending kind ns name begun r j ⟨s.store, .asked c a :: s.story⟩ :=
  ⟨h.keyed, h.path.tail ⟨c, a, s.store, hguard, hans, rfl⟩, Story.fetched?_asked h.fetched,
    h.place, h.finalizer, h.release, h.stored, h.copy⟩

theorem Tending.quietCall (h : Tending kind ns name begun r j s) (hq : c.isQuiet = true)
    (hmay : (uninterrupted kind).may s c a t) :
    Tending kind ns name begun r j t ∧ t = ⟨s.store, .asked c a :: s.story⟩ := by
  obtain ⟨store, hans, rfl⟩ := hmay
  obtain rfl := answered_of_isQuiet hq hans
  exact ⟨h.asked (guard_of_isQuiet hq) hans, rfl⟩

/-- A write onto the stored copy bears its kind and its key. -/
theorem Tending.writes (h : Tending kind ns name begun r j s) (hw : r.Matches w) :
    w.kind = kind ∧ Store.keyOf w = (ns, name) :=
  ⟨hw.kind.trans h.place.1, hw.key.trans h.place.2⟩

/-! ### At a stage -/

/-- At a stage of an action, with what the stage rests on. -/
structure At (kind : Kind) (ns name : String) (begun : Contest) (r : Resource) (action : Action)
    (pinned : Option Action) (stage : Stage) (j : Job) (s : Contest) : Prop where
  tending : Tending kind ns name begun r j s
  reached : j.entry.stage = stage
  chosen : j.entry.action = pinned
  attested : Story.Attested r action stage s.story

/-- What is left when the work has stopped: the stored resource still has its finalizer, and
where no new generation was begun the entry rests on the evidence for its stage. -/
structure Left (kind : Kind) (ns name : String) (begun : Contest) (r : Resource)
    (action : Action) (pinned : Option Action) (e : Entry) (s : Contest) : Prop where
  keyed : s.store.Keyed kind
  path : ReflTransGen (Guarded kind ns name) begun s
  stored : ∃ o, s.store.get? ns name = some o ∧ o.metadata.uid = r.metadata.uid ∧
    o.isDeleting = r.isDeleting ∧ o.hasFinalizer = true ∧ r.generation ≤ o.generation ∧
    (o.generation = r.generation → Story.Attested o action e.stage s.story)
  chosen : e.action = pinned

theorem At.left (h : At kind ns name begun r action pinned stage j s) :
    Left kind ns name begun r action pinned j.entry s := by
  obtain ⟨o, ho, hmatch⟩ := h.tending.stored
  refine ⟨h.tending.keyed, h.tending.path,
    ⟨o, ho, hmatch.uid, hmatch.isDeleting, hmatch.hasFinalizer.trans h.tending.finalizer,
      Int.le_of_eq hmatch.generation.symm, fun _ => ?_⟩, h.chosen⟩
  rw [h.reached]
  exact h.attested.congr hmatch.aim hmatch.isDeleting

theorem At.withJob (h : At kind ns name begun r action pinned stage j s) {j' : Job}
    (hrelease : j'.release = j.release) (hcopy : r.Matches j'.resource)
    (hstage : j'.entry.stage = j.entry.stage) (haction : j'.entry.action = j.entry.action) :
    At kind ns name begun r action pinned stage j' s :=
  ⟨h.tending.withJob hrelease hcopy, hstage.trans h.reached, haction.trans h.chosen, h.attested⟩

/-- A quiet call that keeps the work where it was. -/
theorem At.calmCall (h : At kind ns name begun r action pinned stage j s) (hq : c.isQuiet = true)
    (hkeeps : Event.Keeps r.aim (.asked c a)) (hmay : (uninterrupted kind).may s c a t) :
    At kind ns name begun r action pinned stage j t ∧
      t = ⟨s.store, .asked c a :: s.story⟩ := by
  obtain ⟨ht, rfl⟩ := h.tending.quietCall hq hmay
  exact ⟨⟨ht, h.reached, h.chosen, h.attested.cons hkeeps⟩, rfl⟩

/-- Whatever is read in the middle of a pass is the resource as it was found. -/
theorem At.get (h : At kind ns name begun r action pinned stage j s)
    {a : Except ClusterError (Option Resource)}
    (hmay : (uninterrupted kind).may s (.store (.get kind ns name)) a t) :
    At kind ns name begun r action pinned stage j t ∧ a ≠ .ok none ∧
      ∀ o, a = .ok (some o) → r.Matches o := by
  obtain ⟨o, ho, hmatch⟩ := h.tending.stored
  cases a with
  | ok found =>
      obtain rfl : some o = found := by
        obtain ⟨_, hans, _⟩ := hmay
        exact ho.symm.trans (stored_of_answered hans)
      have hkeeps : Event.Keeps r.aim (.asked (.store (.get kind ns name)) (.ok (some o))) :=
        ⟨hmatch.uid, hmatch.generation⟩
      refine ⟨(h.calmCall rfl hkeeps hmay).1, by simp, ?_⟩
      intro o' ho'
      obtain rfl : o = o' := Option.some.inj (Except.ok.inj ho')
      exact hmatch
  | error e =>
      have hkeeps : Event.Keeps r.aim (.asked (.store (.get kind ns name)) (.error e)) := trivial
      exact ⟨(h.calmCall rfl hkeeps hmay).1, by simp, fun _ he => absurd he (by simp)⟩

/-- Questions that keep the work where it was, whatever is answered. -/
def Calm (c : Call) : Prop := c.isQuiet = true ∧ ∀ aim (a : c.Answer), Event.Keeps aim (.asked c a)

theorem At.calm {α : Type} {p : Pass α} (hp : Asks Calm p)
    (h : At kind ns name begun r action pinned stage j s) :
    Always (uninterrupted kind) p s fun _ t => At kind ns name begun r action pinned stage j t :=
  hp.always (fun _ _ a _ hc hmay h₁ => (h₁.calmCall hc.1 (hc.2 r.aim a) hmay).1) h

theorem calm_ask (c : Call) (hc : Calm c) : Asks Calm (Pass.ask c) := ⟨hc, fun _ => trivial⟩

theorem calm_of_isAside {c : Call} (h : c.isAside = true) : Calm c := by
  cases c with
  | store c => exact absurd h Bool.false_ne_true
  | helm c => exact absurd h Bool.false_ne_true
  | count c => exact absurd h Bool.false_ne_true
  | _ => exact ⟨rfl, fun _ _ => trivial⟩

theorem calm_shortDelay : Asks Calm Pass.shortDelay :=
  Pass.asks_shortDelay fun _ => calm_of_isAside

theorem calm_shortDelayWith (f : Failure) : Asks Calm (Pass.shortDelayWith f) :=
  Pass.asks_shortDelayWith (fun _ => calm_of_isAside) f

theorem calm_refused (e : ClusterError) : Asks Calm (Pass.refused e) :=
  Pass.asks_refused (fun _ => calm_of_isAside) e

theorem calm_unanswered (f : Failure) : Asks Calm (Pass.unanswered f) :=
  Pass.asks_unanswered (fun _ => calm_of_isAside) f

theorem calm_now : Asks Calm Pass.now := Pass.asks_now fun _ => calm_of_isAside

theorem calm_hook (moment : HookMoment) (action : Action) (release : Release) :
    Asks Calm (Pass.hook moment action release) :=
  Pass.asks_hook (fun _ => calm_of_isAside) moment action release

/-! ### Writing the status -/

/-- A status that is put onto the copy that was read right before. -/
theorem At.statusWritten (h : At kind ns name begun r action pinned stage j s)
    (hw : r.Matches w) (hsuccess : ∀ reason ∈ Reason.successes, endsIn w.conditions reason →
      Story.Proven r.aim s.story) {a : Except ClusterError Resource}
    (hmay : (uninterrupted kind).may s (.store (.updateStatus w)) a t) :
    (∀ new, a = .ok new →
        At kind ns name begun r action pinned stage { j with resource := new } t) ∧
      ∀ e, a = .error e → At kind ns name begun r action pinned stage j t := by
  obtain ⟨hkind, hkey⟩ := h.tending.writes hw
  have hguard : Guard kind ns name s (.store (.updateStatus w)) :=
    ⟨hkind, hkey, fun reason hmem hends => hw.aim ▸ hsuccess reason hmem hends⟩
  obtain ⟨store, hans, rfl⟩ := hmay
  have hstep := h.tending.path.tail ⟨_, a, store, hguard, hans, rfl⟩
  cases a with
  | ok new =>
      refine ⟨?_, fun _ he => absurd he (by simp)⟩
      intro new' heq
      obtain rfl : new = new' := Except.ok.inj heq
      obtain ⟨old, hold, _, hnew, hget, hkeyed⟩ :=
        Store.updateStatus_ok h.tending.keyed hkey (updateStatus_of_answered hkind hans)
      obtain ⟨o, ho, hmatch⟩ := h.tending.stored
      obtain rfl : old = o := Option.some.inj (hold.symm.trans ho)
      have hnewmatch : r.Matches new := by
        rw [hnew]
        exact (hmatch.copyStatus _).withRevision _
      exact ⟨⟨hkeyed, hstep, Story.fetched?_asked h.tending.fetched, h.tending.place,
        h.tending.finalizer, h.tending.release, ⟨new, hget, hnewmatch⟩, hnewmatch⟩,
        h.reached, h.chosen, h.attested.cons trivial⟩
  | error e =>
      refine ⟨fun _ he => absurd he (by simp), fun _ _ => ?_⟩
      obtain rfl : store = s.store := same_of_updateStatus_error hkind hans
      exact ⟨h.tending.asked hguard hans, h.reached, h.chosen, h.attested.cons trivial⟩

/-- The status of the copy in hand written, at whatever stage: the work stays where it was. -/
theorem At.persistStatus (h : At kind ns name begun r action pinned stage j s)
    (hmeta : w.metadata = j.resource.metadata) (hspec : w.spec = j.resource.spec)
    (hsuccess : ∀ reason ∈ Reason.successes, endsIn w.conditions reason →
      ∀ story, Story.Attested r action stage story → Story.Proven r.aim story) :
    Always (uninterrupted kind) (Pass.persistStatus w) s fun or t =>
      At kind ns name begun r action pinned stage { j with resource := or.2 } t := by
  have hcopy : r.Matches w := h.tending.copy.of_eq hmeta hspec
  obtain ⟨hwkind, hwkey⟩ := h.tending.writes hcopy
  injection hwkey with hwns hwname
  have hrefused : ∀ {p : Pass Outcome} {x : Contest}, Asks Calm p →
      At kind ns name begun r action pinned stage j x →
      Always (uninterrupted kind) p x fun _ t =>
        At kind ns name begun r action pinned stage { j with resource := w } t :=
    fun hp hx => (hx.calm hp).mono fun _ _ ht => ht.withJob rfl hcopy rfl rfl
  rw [Pass.always_persistStatus, hwkind, hwns, hwname]
  intro a s₁ hmay
  obtain ⟨h₁, hnone, hsome⟩ := h.get hmay
  rcases a with e | _ | latest
  · exact hrefused (calm_refused e) h₁
  · exact absurd rfl hnone
  · dsimp only
    split
    · exact hrefused calm_shortDelay h₁
    · intro a s₂ hmay₂
      have hlatest := (hsome latest rfl).copyStatus w
      obtain ⟨htaken, hfailed⟩ := h₁.statusWritten hlatest
        (fun reason hmem hends => hsuccess reason hmem hends _ h₁.attested) hmay₂
      rw [Pass.always_afterWrite]
      cases a with
      | ok new => exact htaken new rfl
      | error e => exact hrefused (calm_refused e) (hfailed e rfl)

/-!
## Failures on the way to a removal

A removal that comes to its end in a pass without asking to come back has not met with any
failure in that pass: whatever fails, be it a question to Helm, a write of the status or the
class, has the pass stop there.
-/

/-- Either the pass stops here, or everything in it has gone well so far. -/
def Candid (o : Outcome) (t : Contest) : Prop := o.requeue = true ∨ t.story.Smooth

theorem smooth_alert :
    Alert (uninterrupted kind) (fun s => s.story.Smooth) (fun o => o.requeue = true) where
  call := by
    rintro s c a t h ⟨store, _, rfl⟩ hok
    exact ⟨hok, h⟩
  hook := by
    rintro s moment action release o t h ⟨store, _, rfl⟩
    by_cases ho : o.requeue = true
    · exact Or.inl ho
    · exact Or.inr ⟨Bool.eq_false_iff.2 ho, ho, h⟩
  soon h := h.requeue
  requeues := id

/-- A removal that does not ask to come back has met with no failure. -/
theorem candid_perform (h : s.story.Smooth) :
    AlwaysFrom (uninterrupted kind) (Work.perform setup .delete) j s fun o _ t =>
      Candid o t :=
  (smooth_alert.perform h .delete).mono fun _ _ _ hends => hends.imp_right fun hend => hend.2.1

end Contest

end ReleaseOperator
