import ReleaseOperator.Proofs.Chronicle.Statuses

/-!
# A resource that nobody else deletes

Between any two calls of a pass users may change the resource, take it away or put another one
in its place; but they do not ask it to go away, nor do they give one that is to go away its
finalizer back. Calls may fail, with or without having had their effect. What a pass has in
hand then keeps up with what is stored: if the stored resource is being deleted under its
finalizer, so was the one that the pass found, and the copy in hand has the finalizer.
-/

namespace ReleaseOperator

open InMemory Program Work

theorem Resource.hasFinalizer_removeFinalizer (r : Resource) :
    r.removeFinalizer.hasFinalizer = false := by
  simp [removeFinalizer, hasFinalizer, finalizers, setFinalizers, kind]

/-- The class has nothing to say: its hooks are done at once. -/
def Call.IsGeneric : (c : Call) → c.Answer → Prop
  | .hook _ _ _, o => o = .done
  | _, _ => True

namespace Waking

/-- What users can make of the store without deleting the resource. -/
def Considerate (kind : Kind) (ns name : String) (store store' : Store) : Prop :=
  (store.Keyed kind → store'.Keyed kind) ∧
    ∀ new, store'.get? ns name = some new → new.isDeleting = true →
      ∃ old, store.get? ns name = some old ∧ old.isDeleting = true ∧
        (new.hasFinalizer = true → old.hasFinalizer = true)

theorem considerate_refl (kind : Kind) (ns name : String) (store : Store) :
    Considerate kind ns name store store :=
  ⟨id, fun new hnew hdel => ⟨new, hnew, hdel, id⟩⟩

theorem Considerate.trans {kind : Kind} {ns name : String} {s s' s'' : Store}
    (h : Considerate kind ns name s s') (h' : Considerate kind ns name s' s'') :
    Considerate kind ns name s s'' := by
  refine ⟨fun hkeyed => h'.1 (h.1 hkeyed), ?_⟩
  intro new hnew hdel
  obtain ⟨old', hold', hdel', hfin'⟩ := h'.2 new hnew hdel
  obtain ⟨old, hold, hdel, hfin⟩ := h.2 old' hold' hdel'
  exact ⟨old, hold, hdel, fun hnewfin => hfin (hfin' hnewfin)⟩

/-- Calls are answered or fail, the class is generic, and after each call users do something
considerate. -/
def conduct (kind : Kind) (ns name : String) : Conduct Contest where
  may s c a t := c.IsGeneric a ∧ ∃ store store', Chronicle.Suffered kind s.store c a store ∧
    Considerate kind ns name store store' ∧ t = ⟨store', .asked c a :: s.story⟩
  answers s c := by
    have hanswered : ∃ a store, c.IsGeneric a ∧ Contest.Answered kind s.store c a store := by
      obtain ⟨a, store, h⟩ := Contest.exists_answered kind s.store c
      cases c with
      | hook moment action release => exact ⟨.done, s.store, rfl, rfl⟩
      | _ => exact ⟨a, store, trivial, h⟩
    obtain ⟨a, store, hgeneric, h⟩ := hanswered
    exact ⟨a, _, hgeneric, store, store, .inl h, considerate_refl _ _ _ _, rfl⟩

variable {kind : Kind} {ns name : String} {setup : Setup} {s t : Contest} {store : Store}
  {r w : Resource} {j : Job} {c : Call} {a : c.Answer}

theorem story_of_may (h : (conduct kind ns name).may s c a t) :
    t.story = .asked c a :: s.story := by
  obtain ⟨_, _, _, _, _, rfl⟩ := h
  rfl

/-- What is read is what is stored. -/
theorem stored_of_may {found : Option Resource}
    (h : (conduct kind ns name).may s (.store (.get kind ns name)) (.ok found) t) :
    s.store.get? ns name = found := by
  obtain ⟨_, _, _, hsuffered, _⟩ := h
  exact Chronicle.stored_of_suffered hsuffered

/-- A status that is written leaves the finalizers and the request to go away alone. -/
theorem considerate_updateStatus (hkeyed : s.store.Keyed kind) {a : Except ClusterError Resource}
    (hkind : w.kind = kind) (hkey : Store.keyOf w = (ns, name))
    (h : Contest.Answered kind s.store (.store (.updateStatus w)) a store) :
    Considerate kind ns name s.store store := by
  cases a with
  | error e =>
      obtain rfl := Contest.same_of_updateStatus_error hkind h
      exact considerate_refl _ _ _ _
  | ok new =>
      obtain ⟨old, hold, _, rfl, hget, hkeyed'⟩ :=
        Store.updateStatus_ok hkeyed hkey (Contest.updateStatus_of_answered hkind h)
      refine ⟨fun _ => hkeyed', ?_⟩
      intro o ho hdel
      obtain rfl := Option.some.inj (hget.symm.trans ho)
      exact ⟨old, hold, hdel, id⟩

/-- A write of the resource as a whole leaves the request to go away alone. -/
theorem deleting_of_update (hkeyed : s.store.Keyed kind) {a : Except ClusterError Resource}
    (hkind : w.kind = kind) (hkey : Store.keyOf w = (ns, name))
    (h : Contest.Answered kind s.store (.store (.update w)) a store) :
    store.Keyed kind ∧ ∀ new, store.get? ns name = some new → new.isDeleting = true →
      ∃ old, s.store.get? ns name = some old ∧ old.isDeleting = true := by
  cases a with
  | error e =>
      obtain rfl := Contest.same_of_update_error hkind h
      exact ⟨hkeyed, fun new hnew hdel => ⟨new, hnew, hdel⟩⟩
  | ok new =>
      obtain ⟨old, hold, _, rfl, hget, hkeyed'⟩ :=
        Store.update_ok hkeyed hkind hkey (Contest.update_of_answered hkind h)
      refine ⟨hkeyed', ?_⟩
      intro o ho hdel
      rcases hget with hget | ⟨hgone, _⟩
      · obtain rfl := Option.some.inj (hget.symm.trans ho)
        exact ⟨old, hold, hdel⟩
      · rw [hgone] at ho
        exact absurd ho (by simp)

/-! ### In the middle of a pass -/

/-- A pass over a resource, and if the stored one is being deleted, so was that. -/
structure Rested (kind : Kind) (ns name : String) (r : Resource) (s : Contest) : Prop where
  keyed : s.store.Keyed kind
  fetched : s.story.fetched? = some r
  deleting : ∀ o, s.store.get? ns name = some o → o.isDeleting = true → r.isDeleting = true

/-- Moreover the copy in hand has the finalizer if a stored one that is being deleted does. -/
structure Minding (kind : Kind) (ns name : String) (r : Resource) (j : Job) (s : Contest) :
    Prop extends Rested kind ns name r s where
  kind : j.resource.kind = kind
  key : Store.keyOf j.resource = (ns, name)
  finalizer : ∀ o, s.store.get? ns name = some o → o.isDeleting = true →
    o.hasFinalizer = true → j.resource.hasFinalizer = true

theorem Rested.considerate (h : Rested kind ns name r s)
    (hstep : Considerate kind ns name s.store store) (c : Call) (a : c.Answer) :
    Rested kind ns name r ⟨store, .asked c a :: s.story⟩ := by
  refine ⟨hstep.1 h.keyed, Story.fetched?_asked h.fetched, ?_⟩
  intro o ho hdel
  obtain ⟨old, hold, hdelold, _⟩ := hstep.2 o ho hdel
  exact h.deleting old hold hdelold

theorem Minding.considerate (h : Minding kind ns name r j s)
    (hstep : Considerate kind ns name s.store store) (c : Call) (a : c.Answer) :
    Minding kind ns name r j ⟨store, .asked c a :: s.story⟩ := by
  refine ⟨h.toRested.considerate hstep c a, h.kind, h.key, ?_⟩
  intro o ho hdel hfin
  obtain ⟨old, hold, hdelold, hfinold⟩ := hstep.2 o ho hdel
  exact h.finalizer old hold hdelold (hfinold hfin)

/-- A call that cannot change the store is considerate. -/
theorem considerate_of_may
    (hsame : ∀ a store, Contest.Answered kind s.store c a store → store = s.store)
    (hmay : (conduct kind ns name).may s c a t) :
    Considerate kind ns name s.store t.store ∧ t = ⟨t.store, .asked c a :: s.story⟩ := by
  obtain ⟨_, store, store', hsuffered, hstep, rfl⟩ := hmay
  obtain rfl := Chronicle.same_of_suffered hsame hsuffered
  exact ⟨hstep, rfl⟩

theorem Rested.call (h : Rested kind ns name r s)
    (hsame : ∀ a store, Contest.Answered kind s.store c a store → store = s.store)
    (hmay : (conduct kind ns name).may s c a t) : Rested kind ns name r t := by
  obtain ⟨hstep, ht⟩ := considerate_of_may hsame hmay
  rw [ht]
  exact h.considerate hstep c a

theorem Minding.call (h : Minding kind ns name r j s)
    (hsame : ∀ a store, Contest.Answered kind s.store c a store → store = s.store)
    (hmay : (conduct kind ns name).may s c a t) : Minding kind ns name r j t := by
  obtain ⟨hstep, ht⟩ := considerate_of_may hsame hmay
  rw [ht]
  exact h.considerate hstep c a

theorem Rested.quietCall (h : Rested kind ns name r s) (hq : c.isQuiet = true)
    (hmay : (conduct kind ns name).may s c a t) : Rested kind ns name r t :=
  h.call (fun _ _ => Contest.answered_of_isQuiet hq) hmay

theorem Minding.quietCall (h : Minding kind ns name r j s) (hq : c.isQuiet = true)
    (hmay : (conduct kind ns name).may s c a t) : Minding kind ns name r j t :=
  h.call (fun _ _ => Contest.answered_of_isQuiet hq) hmay

theorem Rested.quiet {α : Type} {p : Pass α} (hp : Pass.Quiet p) (h : Rested kind ns name r s) :
    Always (conduct kind ns name) p s fun _ t => Rested kind ns name r t :=
  hp.always (fun _ _ _ _ hq hmay h₁ => h₁.quietCall hq hmay) h

/-! ### Writing -/

/-- The resource written as a whole. If it is written without the finalizer, none that is being
deleted has it afterwards. -/
theorem Rested.persistResource (h : Rested kind ns name r s) (hkind : w.kind = kind)
    (hkey : Store.keyOf w = (ns, name)) :
    Always (conduct kind ns name) (Pass.persistResource w) s fun or t =>
      Rested kind ns name r t ∧ (or.1.requeue = true ∨ (w.hasFinalizer = false →
        ∀ o, t.store.get? ns name = some o → o.isDeleting = true → o.hasFinalizer = false)) := by
  rw [Pass.always_persistResource]
  rintro a t ⟨_, store, store', hsuffered, hstep, rfl⟩
  have hrested : ∀ a', Contest.Answered kind s.store (.store (.update w)) a' store →
      Rested kind ns name r ⟨store', .asked (.store (.update w)) a :: s.story⟩ := by
    intro a' hanswered
    obtain ⟨hkeyed, hdeleting⟩ := deleting_of_update h.keyed hkind hkey hanswered
    refine ⟨hstep.1 hkeyed, Story.fetched?_asked h.fetched, ?_⟩
    intro o ho hdel
    obtain ⟨new, hnew, hdelnew, _⟩ := hstep.2 o ho hdel
    obtain ⟨old, hold, hdelold⟩ := hdeleting new hnew hdelnew
    exact h.deleting old hold hdelold
  rw [Pass.always_afterWrite]
  rcases hsuffered with hanswered | ⟨a', hanswered, hfails⟩
  · cases a with
    | error e =>
        refine ((Pass.always_refused_requeue e).and
          ((hrested _ hanswered).quiet (Pass.quiet_refused e))).mono ?_
        exact fun _ _ ⟨hrequeue, ht⟩ => ⟨ht, Or.inl hrequeue⟩
    | ok new =>
        refine ⟨hrested _ hanswered, Or.inr ?_⟩
        intro hbare o ho hdel
        obtain ⟨old, hold, _, rfl, hget, _⟩ :=
          Store.update_ok h.keyed hkind hkey (Contest.update_of_answered hkind hanswered)
        obtain ⟨new', hnew', _, hfin⟩ := hstep.2 o ho hdel
        rcases hget with hget | ⟨hgone, _⟩
        · obtain rfl := Option.some.inj (hget.symm.trans hnew')
          have hmerged : (s.store.merged old w).hasFinalizer = w.hasFinalizer := rfl
          rw [hmerged, hbare] at hfin
          exact Bool.eq_false_iff.2 fun ho => absurd (hfin ho) Bool.false_ne_true
        · rw [hgone] at hnew'
          exact absurd hnew' (by simp)
  · obtain ⟨e, rfl⟩ := hfails
    refine ((Pass.always_refused_requeue e).and
      ((hrested _ hanswered).quiet (Pass.quiet_refused e))).mono ?_
    exact fun _ _ ⟨hrequeue, ht⟩ => ⟨ht, Or.inl hrequeue⟩

/-- A status that is written, whether the answer tells so or not. -/
theorem Minding.updateStatus {x : Resource} {a : Except ClusterError Resource}
    (h : Minding kind ns name r j s) (hkind : x.kind = kind) (hkey : Store.keyOf x = (ns, name))
    (hmay : (conduct kind ns name).may s (.store (.updateStatus x)) a t) :
    Rested kind ns name r t ∧
      ∀ new, a = .ok new → Minding kind ns name r { j with resource := new } t := by
  obtain ⟨_, store, store', hsuffered, hstep, rfl⟩ := hmay
  have hwritten : ∀ a', Contest.Answered kind s.store (.store (.updateStatus x)) a' store →
      Rested kind ns name r ⟨store', .asked (.store (.updateStatus x)) a :: s.story⟩ :=
    fun a' hanswered => h.toRested.considerate
      ((considerate_updateStatus h.keyed hkind hkey hanswered).trans hstep) _ _
  rcases hsuffered with hanswered | ⟨a', hanswered, hfails⟩
  · refine ⟨hwritten a hanswered, ?_⟩
    rintro new rfl
    obtain ⟨old, hold, _, _, hget, hkeyed⟩ :=
      Store.updateStatus_ok h.keyed hkey (Contest.updateStatus_of_answered hkind hanswered)
    obtain ⟨hnewkind, hnewkey⟩ := hkeyed ns name new hget
    refine ⟨hwritten _ hanswered, hnewkind, hnewkey, ?_⟩
    intro o ho hdel hfin
    obtain ⟨new', hnew', _, hfinnew⟩ := hstep.2 o ho hdel
    obtain rfl := Option.some.inj (hget.symm.trans hnew')
    exact hfinnew hfin
  · refine ⟨hwritten a' hanswered, ?_⟩
    rintro new rfl
    exact absurd hfails not_error_ok

theorem Minding.persistStatus (h : Minding kind ns name r j s) {reason : Reason}
    (hw : j.Recorded reason w) :
    Always (conduct kind ns name) (Pass.persistStatus w) s fun or t =>
      Proceeds (Minding kind ns name r) (fun _ => Rested kind ns name r) or.1
        { j with resource := or.2 } t := by
  have hkey : (j.resource.namespaceName, j.resource.name) = (ns, name) := h.key
  injection hkey with hns hname
  refine Work.proceeds_persistStatus (fun hq hx hmay => hx.quietCall hq hmay) ?_
  rw [hw.kind, hw.namespaceName, hw.name, h.kind, hns, hname]
  intro a s₁ hmay
  have h₁ := h.quietCall rfl hmay
  refine ⟨h₁.toRested, ?_⟩
  rintro latest rfl - a s₂ hmay₂
  obtain ⟨hlkind, hlkey⟩ := h.keyed ns name latest (stored_of_may hmay)
  exact h₁.updateStatus (x := latest.copyStatus w) hlkind hlkey hmay₂

theorem minding_free : Upheld.Free (Minding kind ns name r) :=
  fun _ _ _ h => ⟨h.toRested, h.kind, h.key, h.finalizer⟩

/-- Whatever the work asks, what it has in hand keeps up with what is stored. -/
theorem minding_upheld : Upheld (conduct kind ns name) setup (fun _ => True)
    (Minding kind ns name r) (fun _ => Rested kind ns name r) where
  stop h := h.toRested
  look hq h hmay := h.quietCall hq hmay
  draw h hmay := h.quietCall rfl hmay
  entry _ _ _ _ h := minding_free _ _ _ h
  status h hw _ := h.persistStatus hw
  pin := by
    intro j s t credentials version h _ hmay
    have ht := h.toRested.quietCall rfl hmay
    refine (ht.persistResource ?_ ?_).mono fun _ _ hpost => hpost.1
    · rw [Resource.kind_setDesiredVersion]
      exact h.kind
    · rw [Store.keyOf, Resource.namespaceName, Resource.name, Resource.metadata_setDesiredVersion]
      exact h.key
  apply h _ hmay := h.call (fun _ _ => id) hmay
  applied h _ _ hmay := minding_free _ _ _ (h.call (fun _ _ => id) hmay)
  rehearsed _ _ h := minding_free _ _ _ h
  remove h hmay := h.call (fun _ _ => id) hmay

theorem rested_live (h : Minding kind ns name r j s) :
    AlwaysFrom (conduct kind ns name) (Work.live setup) j s fun _ _ t =>
      Rested kind ns name r t := by
  have U : Upheld (conduct kind ns name) setup (fun _ => True) (Minding kind ns name r)
      (fun _ => Rested kind ns name r) := minding_upheld
  exact (U.live Upheld.recordsAll_true minding_free h).mono fun _ _ _ hgoes =>
    U.halted_of_proceeds hgoes

end Waking

end ReleaseOperator
