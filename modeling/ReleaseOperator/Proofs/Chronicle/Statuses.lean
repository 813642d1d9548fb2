import ReleaseOperator.Proofs.Chronicle.Coherence
import ReleaseOperator.Proofs.Edits.Script
import ReleaseOperator.Proofs.Evidence.Since

/-!
# A chronicle of what is stored

Passes go over a resource while users change it, also between two calls of a pass: they may
do anything to it but touch its status or turn its generation back, and they may delete it.
Any call may fail, and a write that fails may have been taken all the same. All stores that
there ever were are kept, so that it can be said of every status that was ever stored, and of
any two of them, what they tell.
-/

namespace ReleaseOperator

open InMemory Relation Program Work

/-- A store and all that it has been, the latest first. -/
structure Chronicle where
  store : Store
  earlier : List Store

namespace Chronicle

/-- All stores of a chronicle, the present one first. -/
def all (c : Chronicle) : List Store :=
  c.store :: c.earlier

/-- The chronicle continued. -/
def next (c : Chronicle) (store : Store) : Chronicle :=
  ⟨store, c.all⟩

/-- What users can make of the store: the resource keeps its status and its generation does
not go back; it may also go away, but it does not come back. Other resources may change in
any way. -/
def Meddled (kind : Kind) (ns name : String) (store store' : Store) : Prop :=
  (store.Keyed kind → store'.Keyed kind) ∧ ∀ new, store'.get? ns name = some new →
    ∃ old, store.get? ns name = some old ∧ new.status = old.status ∧
      old.generation ≤ new.generation

/-- A user does something. -/
def Meddle (kind : Kind) (ns name : String) (c c' : Chronicle) : Prop :=
  ∃ store, Meddled kind ns name c.store store ∧ c' = c.next store

/-- Calls are answered by the rules or fail; one that fails may have had its effect. -/
def Suffered (kind : Kind) (store : Store) (q : Call) (a : q.Answer) (store' : Store) : Prop :=
  Contest.Answered kind store q a store' ∨ ∃ a', Contest.Answered kind store q a' store' ∧ q.Fails a

/-- After each call users may do any number of things. -/
def conduct (kind : Kind) (ns name : String) : Conduct Chronicle where
  may c q a c' :=
    ∃ store, Suffered kind c.store q a store ∧ ReflTransGen (Meddle kind ns name) (c.next store) c'
  answers c q := by
    obtain ⟨a, store, h⟩ := Contest.exists_answered kind c.store q
    exact ⟨a, _, store, .inl h, .refl⟩

/-! ### What users really do -/

theorem meddled_refl {kind : Kind} {ns name : String} (store : Store) :
    Meddled kind ns name store store :=
  ⟨id, fun new hnew => ⟨new, hnew, rfl, Int.le_refl _⟩⟩

theorem Meddled.trans {kind : Kind} {ns name : String} {s s' s'' : Store}
    (h : Meddled kind ns name s s') (h' : Meddled kind ns name s' s'') :
    Meddled kind ns name s s'' := by
  refine ⟨fun hkeyed => h'.1 (h.1 hkeyed), ?_⟩
  intro new hnew
  obtain ⟨old', hold', hstatus', hgen'⟩ := h'.2 new hnew
  obtain ⟨old, hold, hstatus, hgen⟩ := h.2 old' hold'
  exact ⟨old, hold, hstatus'.trans hstatus, Int.le_trans hgen hgen'⟩

/-- A user gives the resource another specification. -/
theorem meddled_edit {kind : Kind} {ns name : String} {s t : Contest}
    (h : Contest.Edit ns name s t) : Meddled kind ns name s.store t.store := by
  obtain ⟨old, spec, store, hold, hkind, hspec, hedit, rfl⟩ := h
  refine ⟨fun hkeyed => (Store.edit_ok hkeyed hold hkind hspec hedit).2, ?_⟩
  intro new hnew
  unfold Store.edit at hedit
  rw [hold] at hedit
  simp only [Option.map_some, hspec, Bool.false_eq_true, ↓reduceIte] at hedit
  obtain rfl := Option.some.inj (Option.some.inj hedit)
  have hput := Option.some.inj (hnew.symm.trans Table.get?_put_self)
  subst hput
  refine ⟨old, hold, rfl, ?_⟩
  change old.generation ≤ old.generation + 1
  omega

theorem meddled_edits {kind : Kind} {ns name : String} {s t : Contest}
    (h : ReflTransGen (Contest.Edit ns name) s t) : Meddled kind ns name s.store t.store := by
  induction h with
  | refl => exact meddled_refl _
  | tail _ hedit ih => exact ih.trans (meddled_edit hedit)

/-! ### The invariant -/

variable {kind : Kind} {ns name : String} {setup : Setup} {c c' : Chronicle} {store : Store}
  {j : Job} {m : Memory} {r w : Resource}

/-- The resource of the later store comes after that of the earlier one. -/
def Follows (ns name : String) (earlier later : Store) : Prop :=
  ∀ new, later.get? ns name = some new →
    ∃ old, earlier.get? ns name = some old ∧ old.SeenBy new ∧ old.generation ≤ new.generation

theorem Follows.trans {s s' s'' : Store} (h : Follows ns name s s') (h' : Follows ns name s' s'') :
    Follows ns name s s'' := by
  intro new hnew
  obtain ⟨old', hold', hseen', hgen'⟩ := h' new hnew
  obtain ⟨old, hold, hseen, hgen⟩ := h old' hold'
  exact ⟨old, hold, hseen.trans hseen', Int.le_trans hgen hgen'⟩

/-- All statuses so far were coherent, and the generations they spoke of never went back. -/
structure Good (kind : Kind) (ns name : String) (c : Chronicle) : Prop where
  keyed : c.store.Keyed kind
  coherent : ∀ s ∈ c.all, ∀ r, s.get? ns name = some r → r.status.isSome = true → r.Coherent
  ordered : c.all.Pairwise fun later earlier => Follows ns name earlier later

theorem Good.orderly (h : Good kind ns name c) (hr : c.store.get? ns name = some r) :
    r.Orderly :=
  Resource.orderly_of_coherent (h.coherent _ List.mem_cons_self r hr)

theorem Good.next (h : Good kind ns name c) (hkeyed : store.Keyed kind)
    (hcoherent : ∀ r, store.get? ns name = some r → r.status.isSome = true → r.Coherent)
    (hfollows : Follows ns name c.store store) : Good kind ns name (c.next store) := by
  refine ⟨hkeyed, ?_, ?_⟩
  · intro s hs
    rcases List.mem_cons.1 hs with rfl | hs
    · exact hcoherent
    · exact h.coherent s hs
  · refine List.pairwise_cons.2 ⟨?_, h.ordered⟩
    intro s hs
    rcases List.mem_cons.1 hs with rfl | hs
    · exact hfollows
    · exact ((List.pairwise_cons.1 h.ordered).1 s hs).trans hfollows

/-- A store in which the resource has its old status, or is gone. -/
theorem Good.same (h : Good kind ns name c) (hsame : Meddled kind ns name c.store store) :
    Good kind ns name (c.next store) := by
  obtain ⟨hkeyed, hnew⟩ := hsame
  refine h.next (hkeyed h.keyed) ?_ ?_
  · intro r hr hsome
    obtain ⟨old, hold, hstatus, hgen⟩ := hnew r hr
    have hcoherent := h.coherent _ List.mem_cons_self old hold (hstatus ▸ hsome)
    refine hcoherent.of_status hstatus ?_ hgen
    exact (hkeyed h.keyed ns name r hr).1.trans (h.keyed ns name old hold).1.symm
  · intro r hr
    obtain ⟨old, hold, hstatus, hgen⟩ := hnew r hr
    exact ⟨old, hold, Resource.seenBy_of_status hstatus, hgen⟩

/-- A copy of the resource that no status stored is ahead of. -/
structure Abreast (kind : Kind) (ns name : String) (r : Resource) (c : Chronicle) : Prop where
  good : Good kind ns name c
  kind : r.kind = kind
  key : Store.keyOf r = (ns, name)
  orderly : r.Orderly
  seen : ∀ o, c.store.get? ns name = some o → o.SeenBy r ∧ r.generation ≤ o.generation

theorem Abreast.same (h : Abreast kind ns name r c) (hsame : Meddled kind ns name c.store store) :
    Abreast kind ns name r (c.next store) := by
  refine ⟨h.good.same hsame, h.kind, h.key, h.orderly, ?_⟩
  intro o ho
  obtain ⟨old, hold, hstatus, hgen⟩ := hsame.2 o ho
  obtain ⟨hseen, hle⟩ := h.seen old hold
  exact ⟨(Resource.seenBy_of_status hstatus.symm).trans hseen, Int.le_trans hle hgen⟩

theorem Good.meddled (h : Good kind ns name c)
    (hmeddle : ReflTransGen (Meddle kind ns name) c c') : Good kind ns name c' := by
  induction hmeddle with
  | refl => exact h
  | tail _ hstep ih =>
      obtain ⟨store, hmeddled, rfl⟩ := hstep
      exact ih.same hmeddled

theorem Abreast.meddled (h : Abreast kind ns name r c)
    (hmeddle : ReflTransGen (Meddle kind ns name) c c') : Abreast kind ns name r c' := by
  induction hmeddle with
  | refl => exact h
  | tail _ hstep ih =>
      obtain ⟨store, hmeddled, rfl⟩ := hstep
      exact ih.same hmeddled

/-! ### Calls -/

/-- A call that cannot change the store. -/
theorem same_of_suffered {q : Call} {a : q.Answer}
    (hsame : ∀ a store', Contest.Answered kind store q a store' → store' = store) {store' : Store}
    (h : Suffered kind store q a store') : store' = store := by
  rcases h with h | ⟨a', h, _⟩
  · exact hsame a store' h
  · exact hsame a' store' h

theorem Abreast.call (h : Abreast kind ns name r c) {q : Call} {a : q.Answer}
    (hsame : ∀ a store', Contest.Answered kind c.store q a store' → store' = c.store)
    (hmay : (conduct kind ns name).may c q a c') : Abreast kind ns name r c' := by
  obtain ⟨store, hsuffered, hmeddle⟩ := hmay
  obtain rfl := same_of_suffered hsame hsuffered
  exact (h.same (meddled_refl _)).meddled hmeddle

theorem Good.quietCall (h : Good kind ns name c) {q : Call} {a : q.Answer}
    (hq : q.isQuiet = true) (hmay : (conduct kind ns name).may c q a c') :
    Good kind ns name c' := by
  obtain ⟨store, hsuffered, hmeddle⟩ := hmay
  obtain rfl := same_of_suffered (fun _ _ => Contest.answered_of_isQuiet hq) hsuffered
  exact (h.same (meddled_refl _)).meddled hmeddle

/-- What is read is what is stored. -/
theorem stored_of_suffered {found : Option Resource} {store' : Store}
    (h : Suffered kind store (.store (.get kind ns name)) (.ok found) store') :
    store.get? ns name = found := by
  rcases h with h | ⟨_, _, hfails⟩
  · exact Contest.stored_of_answered h
  · exact absurd hfails not_error_ok

/-- A write of the resource as a whole leaves its status and counts its generation up, if
anything. -/
theorem meddled_of_update {a : Except ClusterError Resource} {store' : Store}
    (hkeyed : store.Keyed kind) (hkind : w.kind = kind) (hkey : Store.keyOf w = (ns, name))
    (h : Contest.Answered kind store (.store (.update w)) a store') :
    Meddled kind ns name store store' := by
  cases a with
  | error e =>
      obtain rfl := Contest.same_of_update_error hkind h
      exact meddled_refl _
  | ok new =>
      obtain ⟨old, hold, _, rfl, hget, hkeyed'⟩ :=
        Store.update_ok hkeyed hkind hkey (Contest.update_of_answered hkind h)
      refine ⟨fun _ => hkeyed', ?_⟩
      intro o ho
      rcases hget with hget | ⟨hgone, _⟩
      · rw [hget] at ho
        obtain rfl := Option.some.inj ho
        exact ⟨old, hold, rfl, store.le_generation_merged old w⟩
      · rw [hgone] at ho
        exact absurd ho (by simp)

theorem Good.update (h : Good kind ns name c) (hkind : w.kind = kind)
    (hkey : Store.keyOf w = (ns, name)) {a : Except ClusterError Resource}
    (hmay : (conduct kind ns name).may c (.store (.update w)) a c') : Good kind ns name c' := by
  obtain ⟨store, hanswered | ⟨a', hanswered, _⟩, hmeddle⟩ := hmay
  · exact (h.same (meddled_of_update h.keyed hkind hkey hanswered)).meddled hmeddle
  · exact (h.same (meddled_of_update h.keyed hkind hkey hanswered)).meddled hmeddle

theorem Good.quiet {α : Type} {p : Pass α} (hp : Pass.Quiet p) (h : Good kind ns name c) :
    Always (conduct kind ns name) p c fun _ c' => Good kind ns name c' :=
  hp.always (fun _ _ _ _ hq hmay h₁ => h₁.quietCall hq hmay) h

theorem Good.persistResource (h : Good kind ns name c) (hkind : w.kind = kind)
    (hkey : Store.keyOf w = (ns, name)) :
    Always (conduct kind ns name) (Pass.persistResource w) c fun _ c' => Good kind ns name c' := by
  rw [Pass.always_persistResource]
  intro a c₁ hmay
  have h₁ := h.update hkind hkey hmay
  rw [Pass.always_afterWrite]
  cases a with
  | ok new => exact h₁
  | error e => exact h₁.quiet (Pass.quiet_refused e)

/-- A coherent status put onto what is stored, which has come at least as far. -/
theorem Abreast.statusTaken {x new : Resource} {store' : Store} (h : Abreast kind ns name r c)
    (hw : w.Coherent) (hseen : r.SeenBy w) (hgen : w.generation = r.generation)
    (hwkind : w.kind = kind) (hkey : Store.keyOf x = (ns, name)) (hstatus : x.status = w.status)
    (hrules : (.ok new, store') = c.store.updateStatus x) :
    Abreast kind ns name new (c.next store') := by
  obtain ⟨old, hold, _, rfl, hget, hkeyed⟩ := Store.updateStatus_ok h.good.keyed hkey hrules
  obtain ⟨holdseen, holdgen⟩ := h.seen old hold
  obtain ⟨hkind, hkey'⟩ := hkeyed ns name _ hget
  have hnewstatus : (Store.withStatusOf old x (c.store.revision + 1)).status = w.status := hstatus
  have hnewgen : w.generation ≤ (Store.withStatusOf old x (c.store.revision + 1)).generation := by
    rw [hgen]
    exact holdgen
  have hcoherent := hw.of_status hnewstatus (hkind.trans hwkind.symm) hnewgen
  have hfollows : Follows ns name c.store store' := by
    intro o ho
    rw [hget] at ho
    obtain rfl := Option.some.inj ho
    exact ⟨old, hold, (holdseen.trans hseen).trans (Resource.seenBy_of_status hnewstatus),
      Int.le_refl _⟩
  refine ⟨h.good.next hkeyed ?_ hfollows, hkind, hkey', hcoherent.toOrderly, ?_⟩
  · intro o ho _
    rw [hget] at ho
    obtain rfl := Option.some.inj ho
    exact hcoherent
  · intro o ho
    have ho' : store'.get? ns name = some o := ho
    rw [hget] at ho'
    obtain rfl := Option.some.inj ho'
    exact ⟨Resource.SeenBy.refl _, Int.le_refl _⟩

/-- A coherent status written, whether the answer tells so or not. -/
theorem Abreast.updateStatus {x : Resource} {a : Except ClusterError Resource}
    (h : Abreast kind ns name r c) (hw : w.Coherent) (hseen : r.SeenBy w)
    (hgen : w.generation = r.generation) (hwkind : w.kind = kind) (hkind : x.kind = kind)
    (hkey : Store.keyOf x = (ns, name)) (hstatus : x.status = w.status)
    (hmay : (conduct kind ns name).may c (.store (.updateStatus x)) a c') :
    Good kind ns name c' ∧ ∀ new, a = .ok new → Abreast kind ns name new c' := by
  obtain ⟨store, hsuffered, hmeddle⟩ := hmay
  have htaken : ∀ a', Contest.Answered kind c.store (.store (.updateStatus x)) a' store →
      Good kind ns name (c.next store) ∧
        ∀ new, a' = .ok new → Abreast kind ns name new (c.next store) := by
    intro a' hanswered
    cases a' with
    | error e =>
        obtain rfl := Contest.same_of_updateStatus_error hkind hanswered
        exact ⟨h.good.same (meddled_refl _), fun _ hnew => absurd hnew (by simp)⟩
    | ok new =>
        have hnew := h.statusTaken hw hseen hgen hwkind hkey hstatus
          (Contest.updateStatus_of_answered hkind hanswered)
        exact ⟨hnew.good, fun _ heq => Except.ok.inj heq ▸ hnew⟩
  rcases hsuffered with hanswered | ⟨a', hanswered, hfails⟩
  · obtain ⟨hgood, hnew⟩ := htaken a hanswered
    exact ⟨hgood.meddled hmeddle, fun new heq => (hnew new heq).meddled hmeddle⟩
  · refine ⟨(htaken a' hanswered).1.meddled hmeddle, ?_⟩
    intro new heq
    rw [heq] at hfails
    exact absurd hfails not_error_ok

/-! ### Work -/

/-- Whatever the work records is written onto what the store holds at that moment. -/
theorem Abreast.persistStatus (h : Abreast kind ns name j.resource c) {reason : Reason}
    (hw : j.Recorded reason w)
    (hreason : reason ∈ Reason.underway ∨ reason ∈ Reason.completions) :
    Always (conduct kind ns name) (Pass.persistStatus w) c fun or c' =>
      Proceeds (fun j c => Abreast kind ns name j.resource c) (fun _ => Good kind ns name) or.1
        { j with resource := or.2 } c' := by
  obtain ⟨hcoherent, hseen⟩ := hw.coherent h.orderly hreason
  have hkey : (j.resource.namespaceName, j.resource.name) = (ns, name) := h.key
  injection hkey with hns hname
  have hwgen : w.generation = j.resource.generation := by
    rw [Resource.generation, hw.metadata]
    rfl
  refine Work.proceeds_persistStatus (fun hq hx hmay => hx.quietCall hq hmay) ?_
  rw [hw.kind, hw.namespaceName, hw.name, h.kind, hns, hname]
  intro a c₁ hmay
  have h₁ := h.call (fun _ _ => Contest.answered_of_isQuiet rfl) hmay
  refine ⟨h₁.good, ?_⟩
  rintro latest rfl - a c₂ hmay₂
  obtain ⟨store, hsuffered, _⟩ := hmay
  obtain ⟨hlkind, hlkey⟩ := h.good.keyed ns name latest (stored_of_suffered hsuffered)
  exact h₁.updateStatus hcoherent hseen hwgen (hw.kind.trans h.kind) (x := latest.copyStatus w)
    hlkind hlkey rfl hmay₂

theorem abreast_free : Upheld.Free fun j c => Abreast kind ns name j.resource c :=
  fun _ _ _ h => h

/-- Whatever the work asks keeps the copy in hand abreast of what is stored. -/
theorem abreast_upheld : Upheld (conduct kind ns name) setup
    (fun reason => reason ∈ Reason.underway ∨ reason ∈ Reason.completions)
    (fun j c => Abreast kind ns name j.resource c) (fun _ => Good kind ns name) where
  stop h := h.good
  look hq h hmay := h.call (fun _ _ => Contest.answered_of_isQuiet hq) hmay
  draw h hmay := h.quietCall rfl hmay
  entry _ _ _ _ h := h
  status h hw hreason := h.persistStatus hw hreason
  pin := by
    intro j s t credentials version h _ hmay
    have ht := h.good.quietCall rfl hmay
    refine ht.persistResource (by rw [Resource.kind_setDesiredVersion]; exact h.kind) ?_
    rw [Store.keyOf, Resource.namespaceName, Resource.name, Resource.metadata_setDesiredVersion]
    exact h.key
  apply h _ hmay := h.call (fun _ _ => id) hmay
  applied h _ _ hmay := h.call (fun _ _ => id) hmay
  rehearsed _ _ h := h
  remove h hmay := h.call (fun _ _ => id) hmay

end Chronicle

end ReleaseOperator
