import ReleaseOperator.Proofs.Contention.Revisions
import ReleaseOperator.Proofs.Edits.Story
import ReleaseOperator.Proofs.Invariants

/-!
# Exchanges with a store that others write to

Between any two calls of a pass users may do what they like with the stored resources.
Each call is logged with its answer and with the stores right before and right after it, so
that it can be told what a write did to what was stored at that moment: nothing when it
failed, and otherwise one of four things, each of which is the operator's own affair.
-/

namespace ReleaseOperator

open InMemory Relation

/-- The version that is written down in a specification. -/
def Spec.version : Spec → String
  | .module s => s.version
  | .action s => s.version

namespace Resource

/-- A resource as a store keeps it once it was written: with a revision and a generation
that the store has given it. -/
structure WrittenAs (r new : Resource) : Prop where
  spec : new.spec = r.spec
  status : new.status = r.status
  metadata : new.metadata = { r.metadata with
    resourceVersion := new.metadata.resourceVersion, generation := new.metadata.generation }

/-- A resource that asks for no version has none written down. -/
theorem version_blank_of_desiredVersion {r : Resource} (h : r.desiredVersion.isEmpty = true) :
    Text.trim r.spec.version = "" := by
  rcases r with ⟨metadata, s | s, status⟩
  · exact String.isEmpty_iff.1 h
  · unfold desiredVersion at h
    dsimp only at h
    split at h
    · rename_i hblank
      exact String.isEmpty_iff.1 hblank
    · exact String.isEmpty_iff.1 h

@[simp] theorem status_setDesiredVersion (r : Resource) (version : String) :
    (r.setDesiredVersion version).status = r.status := by
  unfold setDesiredVersion
  split
  · rfl
  · rfl

theorem spec_setDesiredVersion_congr {r o : Resource} (h : r.spec = o.spec) (version : String) :
    (r.setDesiredVersion version).spec = (o.setDesiredVersion version).spec := by
  rcases r with ⟨_, s, _⟩
  rcases o with ⟨_, s', _⟩
  obtain rfl : s = s' := h
  cases s with
  | module s => rfl
  | action s => rfl

end Resource

/-- A call with its answer and the stores right before and right after it. -/
structure Exchange where
  call : Call
  answer : call.Answer
  before : Store
  after : Store

namespace Exchange

/-- The answer to a write. -/
def wrote? : Exchange → Option (Except ClusterError Resource)
  | ⟨.store (.update _), a, _, _⟩ => some a
  | ⟨.store (.updateStatus _), a, _, _⟩ => some a
  | _ => none

theorem wrote?_of_isQuiet {c : Call} (h : c.isQuiet = true) (a : c.Answer) (before after : Store) :
    wrote? ⟨c, a, before, after⟩ = none := by
  rcases c with (_ | _ | _) | _ | (_ | _ | _ | _ | _ | _) | _ | _ | _ | _ <;>
    first | rfl | exact absurd h Bool.false_ne_true

end Exchange

/-- Exchanges, the newest first. -/
abbrev Log := List Exchange

namespace Log

/-- The resource as a pass found it with its first call. -/
def Found (kind : Kind) (ns name : String) (r : Resource) (es : Log) : Prop :=
  ∃ before after, [⟨.store (.get kind ns name), .ok (some r), before, after⟩] <:+ es

/-- What Helm has answered about the version of a chart. -/
def ToldVersion (version : String) (es : Log) : Prop :=
  ∃ release credentials before after,
    (⟨.helm (.chartVersion release credentials), .ok version, before, after⟩ : Exchange) ∈ es

/-- All that a successful write may change of what was stored: the status, the finalizer of
the operator, or a blank version. -/
inductive Spares (es : Log) (old new : Resource) : Prop
  | status (w : Resource) (written : (old.copyStatus w).WrittenAs new)
      (generation : new.generation = old.generation)
  | finalizerAdded (absent : old.hasFinalizer = false)
      (written : (old.setFinalizers (old.finalizers ++ [old.kind.finalizer])).WrittenAs new)
      (generation : new.generation = old.generation)
  | finalizerRemoved (present : old.hasFinalizer = true)
      (written : (old.setFinalizers
        (old.finalizers.filter fun f => f ≠ old.kind.finalizer)).WrittenAs new)
      (generation : new.generation = old.generation)
  | versionPinned (version : String) (blank : Text.trim old.spec.version = "")
      (told : ToldVersion version es) (written : (old.setDesiredVersion version).WrittenAs new)

/-- A write of the resource that was found: what was stored is no other object, it is
spared, and so are all others. -/
structure Rewrites (kind : Kind) (ns name : String) (x : Exchange) (es : Log) (new : Resource) :
    Prop where
  spared : ∃ r old, Found kind ns name r es ∧ x.before.get? ns name = some old ∧
    old.metadata.uid = r.metadata.uid ∧ Spares es old new
  stored : x.after.get? ns name = some new ∨
    x.after.get? ns name = none ∧ new.isDeleting = true ∧ new.finalizers = []
  others : ∀ ns' name', (ns', name') ≠ (ns, name) →
    x.after.get? ns' name' = x.before.get? ns' name'

/-- A write fails and leaves the store as it was, or it spares what was stored. -/
def Harmless (kind : Kind) (ns name : String) (x : Exchange) (es : Log) : Prop :=
  ∀ answer, x.wrote? = some answer →
    (∃ e, answer = .error e) ∧ x.after = x.before ∨
      ∃ new, answer = .ok new ∧ Rewrites kind ns name x es new

theorem harmless_of_not_write {kind : Kind} {ns name : String} {x : Exchange} {es : Log}
    (h : x.wrote? = none) : Harmless kind ns name x es := by
  intro answer ha
  rw [h] at ha
  exact absurd ha (by simp)

/-- All writes of a log are harmless. -/
def AllHarmless (kind : Kind) (ns name : String) (log : Log) : Prop :=
  ∀ x es, (x :: es) <:+ log → Harmless kind ns name x es

variable {kind : Kind} {ns name : String} {r : Resource} {x : Exchange} {es : Log}

theorem allHarmless_nil : AllHarmless kind ns name [] := by
  intro x es hsuffix
  exact absurd (List.suffix_nil.1 hsuffix) (List.cons_ne_nil _ _)

theorem AllHarmless.cons (h : AllHarmless kind ns name es) (hx : Harmless kind ns name x es) :
    AllHarmless kind ns name (x :: es) := by
  intro y ys hsuffix
  rcases List.suffix_cons_iff.1 hsuffix with heq | hsuffix
  · injection heq with hy hys
    subst hy hys
    exact hx
  · exact h y ys hsuffix

theorem Found.cons (h : Found kind ns name r es) : Found kind ns name r (x :: es) := by
  obtain ⟨before, after, hsuffix⟩ := h
  exact ⟨before, after, hsuffix.trans (List.suffix_cons _ _)⟩

end Log

/-- A store that others write to as well, and what was exchanged with it. -/
structure SharedStore where
  store : Store
  log : Log

namespace SharedStore

/-- Calls are answered or fail, and after each of them users may do what they like. -/
def conduct (kind : Kind) : Conduct SharedStore where
  may s c a t :=
    ∃ store, Contest.Answered kind s.store c a store ∧
      ReflTransGen (Store.Users kind) store t.store ∧ t.log = ⟨c, a, s.store, store⟩ :: s.log
  answers s c := by
    obtain ⟨a, store, h⟩ := Contest.exists_answered kind s.store c
    exact ⟨a, ⟨store, _⟩, store, h, ReflTransGen.refl, rfl⟩

/-!
## Writes in contention

The copy that a pass works with bears the metadata and the specification that the store
gave out under its revision. A write of it is taken only while the stored resource has the
same revision, so it changes what the operator changed in its copy and nothing else. The
status goes onto a copy that is read right before, and the same holds of that one. What
holds of the copy is kept by everything that work asks (`InHand.upheld`), up to the write
that ends the work.
-/

open InMemory InMemory.Store Relation Program Work

variable {setup : Setup} {kind : Kind} {ns name : String} {r w : Resource} {j : Job}
  {s t : SharedStore}

/-- The store is in order, and all writes since the resource was found were harmless. -/
structure Watched (kind : Kind) (ns name : String) (r : Resource) (s : SharedStore) : Prop where
  keyed : s.store.Keyed kind
  revised : s.store.Revised
  harmless : Log.AllHarmless kind ns name s.log
  found : Log.Found kind ns name r s.log

/-- The copy of a job is one that the store gave out, of the object that was found. -/
structure InHand (kind : Kind) (ns name : String) (r : Resource) (j : Job) (s : SharedStore) :
    Prop where
  watched : Watched kind ns name r s
  knows : s.store.Knows j.resource
  kind : j.resource.kind = kind
  key : keyOf j.resource = (ns, name)
  uid : j.resource.metadata.uid = r.metadata.uid

/-- A harmless exchange, and what users do after it. -/
theorem Watched.exchanged (h : Watched kind ns name r s) {c : Call} {a : c.Answer} {store : Store}
    (hkeyed : store.Keyed kind) (hlater : s.store.Later store)
    (hx : Log.Harmless kind ns name ⟨c, a, s.store, store⟩ s.log)
    (husers : ReflTransGen (Users kind) store t.store)
    (hlog : t.log = ⟨c, a, s.store, store⟩ :: s.log) : Watched kind ns name r t := by
  refine ⟨keyed_of_users husers hkeyed, (later_of_users husers).revised (hlater.revised h.revised),
    ?_, ?_⟩
  · rw [hlog]
    exact h.harmless.cons hx
  · rw [hlog]
    exact h.found.cons

/-- A call that leaves the store alone and is no write. -/
theorem Watched.call (h : Watched kind ns name r s) {c : Call} {a : c.Answer}
    (hsame : ∀ store, Contest.Answered kind s.store c a store → store = s.store)
    (hno : ∀ store, Exchange.wrote? ⟨c, a, s.store, store⟩ = none)
    (hmay : (conduct kind).may s c a t) :
    Watched kind ns name r t ∧ s.store.Later t.store := by
  obtain ⟨store, hans, husers, hlog⟩ := hmay
  obtain rfl := hsame store hans
  exact ⟨h.exchanged h.keyed (Later.refl _) (Log.harmless_of_not_write (hno _)) husers hlog,
    later_of_users husers⟩

theorem Watched.quietCall (h : Watched kind ns name r s) {c : Call} {a : c.Answer}
    (hq : c.isQuiet = true) (hmay : (conduct kind).may s c a t) :
    Watched kind ns name r t ∧ s.store.Later t.store :=
  h.call (fun _ => Contest.answered_of_isQuiet hq)
    (fun store => Exchange.wrote?_of_isQuiet hq a s.store store) hmay

theorem Watched.quiet {α : Type} {p : Pass α} (hp : Pass.Quiet p) (h : Watched kind ns name r s) :
    Always (conduct kind) p s fun _ t => Watched kind ns name r t :=
  hp.always (fun _ _ _ _ hq hmay h₁ => (h₁.quietCall hq hmay).1) h

theorem InHand.later (h : InHand kind ns name r j s)
    (ht : Watched kind ns name r t ∧ s.store.Later t.store) : InHand kind ns name r j t :=
  ⟨ht.1, h.knows.later ht.2, h.kind, h.key, h.uid⟩

/-! ### The status -/

/-- A status that is put onto the copy that the store has just given out. -/
theorem Watched.statusWritten {latest : Resource} {a : Except ClusterError Resource}
    (h : Watched kind ns name r s) (hknows : s.store.Knows latest) (hkind : latest.kind = kind)
    (hkey : keyOf latest = (ns, name)) (huid : latest.metadata.uid = r.metadata.uid)
    (hmay : (conduct kind).may s (.store (.updateStatus (latest.copyStatus w))) a t) :
    Watched kind ns name r t ∧
      ∀ new, a = .ok new → InHand kind ns name r { j with resource := new } t := by
  obtain ⟨store, hans, husers, hlog⟩ := hmay
  have hwkind : (latest.copyStatus w).kind = kind := hkind
  have hwkey : keyOf (latest.copyStatus w) = (ns, name) := hkey
  cases a with
  | error e =>
      obtain rfl : store = s.store := Contest.same_of_updateStatus_error hwkind hans
      have hharmless : Log.Harmless kind ns name
          ⟨.store (.updateStatus (latest.copyStatus w)), .error e, s.store, s.store⟩ s.log := by
        intro answer ha
        injection ha with ha
        exact Or.inl ⟨⟨e, ha.symm⟩, rfl⟩
      refine ⟨h.exchanged h.keyed (Later.refl _) hharmless husers hlog, ?_⟩
      intro new hnew
      exact absurd hnew (by simp)
  | ok new =>
      have hrules := Contest.updateStatus_of_answered hwkind hans
      obtain ⟨old, hold, hrev, hnew, hget, hkeyed⟩ := updateStatus_ok h.keyed hwkey hrules
      injection hkey with hns hname
      obtain ⟨hmeta, hspec⟩ := hknows.same old (by rw [hns, hname]; exact hold) hrev
      have hspares : Log.Rewrites kind ns name
          ⟨.store (.updateStatus (latest.copyStatus w)), .ok new, s.store, store⟩ s.log new := by
        refine ⟨⟨r, old, h.found, hold, ?_, ?_⟩, Or.inl hget, ?_⟩
        · rw [hmeta]
          exact huid
        · rw [hnew]
          exact .status w ⟨rfl, rfl, rfl⟩ rfl
        · intro ns' name' hne
          refine get?_updateStatus_of_ne h.keyed hrules ?_
          rw [hwkey]
          exact hne
      have hlater := later_updateStatus hrules
      have hwatched : Watched kind ns name r t := by
        refine h.exchanged hkeyed hlater ?_ husers hlog
        intro answer ha
        injection ha with ha
        exact Or.inr ⟨new, ha.symm, hspares⟩
      refine ⟨hwatched, ?_⟩
      intro new' heq
      obtain rfl : new = new' := Except.ok.inj heq
      obtain ⟨hnkind, hnkey⟩ := hkeyed ns name new hget
      have hknew := knows_stored hkeyed (hlater.revised h.revised) hget
      refine ⟨hwatched, hknew.later (later_of_users husers), hnkind, hnkey, ?_⟩
      rw [hnew]
      have hold_uid : old.metadata.uid = r.metadata.uid := by
        rw [hmeta]
        exact huid
      exact hold_uid

theorem InHand.persistStatus (h : InHand kind ns name r j s)
    (hmeta : w.metadata = j.resource.metadata) (hspec : w.spec = j.resource.spec) :
    Always (conduct kind) (Pass.persistStatus w) s fun or t =>
      Proceeds (InHand kind ns name r) (fun _ => Watched kind ns name r) or.1
        { j with resource := or.2 } t := by
  have hkey := h.key
  injection hkey with hns hname
  have hwkind : w.kind = kind := by
    rw [Resource.kind, hspec]
    exact h.kind
  have hwns : w.namespaceName = ns := by
    rw [Resource.namespaceName, hmeta]
    exact hns
  have hwname : w.name = name := by
    rw [Resource.name, hmeta]
    exact hname
  refine Work.proceeds_persistStatus (fun hq hx hmay => (hx.quietCall hq hmay).1) ?_
  rw [hwkind, hwns, hwname]
  intro a s₁ hmay
  obtain ⟨h₁, hlater⟩ := h.watched.quietCall rfl hmay
  refine ⟨h₁, ?_⟩
  rintro latest rfl huid a s₂ hmay₂
  have hlatest : s.store.get? ns name = some latest := by
    obtain ⟨store, hans, _⟩ := hmay
    exact Contest.stored_of_answered hans
  obtain ⟨hlkind, hlkey⟩ := h.watched.keyed ns name latest hlatest
  have hknows := (knows_stored h.watched.keyed h.watched.revised hlatest).later hlater
  have hluid : latest.metadata.uid = r.metadata.uid := by
    rw [huid, hmeta]
    exact h.uid
  exact h₁.statusWritten (j := j) hknows hlkind hlkey hluid hmay₂

/-! ### Writing the copy -/

/-- A copy that the operator has changed, written as a whole. The write is taken only where
what was stored is the copy before the change. -/
theorem InHand.persistResource (h : InHand kind ns name r j s) (hkind : w.kind = kind)
    (hmeta : ∃ fs, w.metadata = { j.resource.metadata with finalizers := fs })
    (hspares : ∀ old new, old.metadata = j.resource.metadata → old.spec = j.resource.spec →
      (w.copyStatus old).WrittenAs new → (w.spec = old.spec → new.generation = old.generation) →
        Log.Spares s.log old new) :
    Always (conduct kind) (Pass.persistResource w) s fun _ t => Watched kind ns name r t := by
  obtain ⟨fs, hfs⟩ := hmeta
  have hwkey : keyOf w = (ns, name) := by
    rw [keyOf, Resource.namespaceName, Resource.name, hfs]
    exact h.key
  rw [Pass.always_persistResource]
  intro a t hmay
  obtain ⟨store, hans, husers, hlog⟩ := hmay
  rw [Pass.always_afterWrite]
  cases a with
  | error e =>
      obtain rfl : store = s.store := Contest.same_of_update_error hkind hans
      have hwatched : Watched kind ns name r t := by
        refine h.watched.exchanged h.watched.keyed (Later.refl _) ?_ husers hlog
        intro answer ha
        injection ha with ha
        exact Or.inl ⟨⟨e, ha.symm⟩, rfl⟩
      exact hwatched.quiet (Pass.quiet_refused e)
  | ok new =>
      have hrules := Contest.update_of_answered hkind hans
      obtain ⟨old, hold, hrev, hnew, hget, hkeyed⟩ := update_ok h.watched.keyed hkind hwkey hrules
      have hkey := h.key
      injection hkey with hns hname
      have hrev' : old.metadata.resourceVersion = j.resource.metadata.resourceVersion := by
        rw [hrev, hfs]
      obtain ⟨hometa, hospec⟩ := h.knows.same old (by rw [hns, hname]; exact hold) hrev'
      refine h.watched.exchanged hkeyed (later_update hrules) ?_ husers hlog
      intro answer ha
      injection ha with ha
      refine Or.inr ⟨new, ha.symm, ⟨r, old, h.watched.found, hold, ?_, ?_⟩, hget, ?_⟩
      · rw [hometa]
        exact h.uid
      · refine hspares old new hometa hospec ⟨?_, ?_, ?_⟩ ?_
        · rw [hnew]
          rfl
        · rw [hnew]
          rfl
        · have hwmeta : (w.copyStatus old).metadata = w.metadata := rfl
          rw [hwmeta, hnew, metadata_merged, hfs, hometa]
        · intro hspec
          rw [hnew, generation_merged, if_pos (sameSpec_of_spec_eq hspec)]
      · intro ns' name' hne
        refine get?_update_of_ne hrules ?_
        rw [hwkey]
        exact hne

theorem InHand.free : Upheld.Free (InHand kind ns name r) :=
  fun _ _ _ h => ⟨h.watched, h.knows, h.kind, h.key, h.uid⟩

/-- Whatever the work asks keeps the copy in hand; a version that is written down ends the
work. -/
theorem InHand.upheld : Upheld (conduct kind) setup (fun _ => True) (InHand kind ns name r)
    (fun _ => Watched kind ns name r) where
  stop h := h.watched
  look hq h hmay := h.later (h.watched.quietCall hq hmay)
  draw h hmay := (h.quietCall rfl hmay).1
  entry e _ _ _ h := InHand.free _ _ e h
  status h hrecorded _ := h.persistStatus hrecorded.metadata hrecorded.spec
  pin := by
    intro j s t credentials version h hblank hmay
    have ht := h.later (h.watched.quietCall rfl hmay)
    have htold : Log.ToldVersion version t.log := by
      obtain ⟨store, _, _, hlog⟩ := hmay
      rw [hlog]
      exact ⟨_, _, _, _, List.mem_cons_self⟩
    refine ht.persistResource (by rw [Resource.kind_setDesiredVersion]; exact h.kind)
      ⟨j.resource.metadata.finalizers, by rw [Resource.metadata_setDesiredVersion]⟩ ?_
    intro old new hmeta hspec hnew _
    refine .versionPinned version ?_ htold ⟨?_, ?_, ?_⟩
    · rw [hspec]
      exact Resource.version_blank_of_desiredVersion hblank
    · exact hnew.spec.trans (Resource.spec_setDesiredVersion_congr hspec.symm version)
    · rw [Resource.status_setDesiredVersion]
      exact hnew.status
    · have hwmeta := hnew.metadata
      have hcopy : ((j.resource.setDesiredVersion version).copyStatus old).metadata =
          j.resource.metadata := Resource.metadata_setDesiredVersion _ _
      rw [hcopy, ← hmeta] at hwmeta
      rw [Resource.metadata_setDesiredVersion]
      exact hwmeta
  apply h _ hmay := h.later (h.watched.call (fun _ => id) (fun _ => rfl) hmay)
  applied h _ _ hmay :=
    InHand.free _ _ _ (h.later (h.watched.call (fun _ => id) (fun _ => rfl) hmay))
  rehearsed _ _ h := InHand.free _ _ _ h
  remove h hmay := h.later (h.watched.call (fun _ => id) (fun _ => rfl) hmay)

end SharedStore

end ReleaseOperator
