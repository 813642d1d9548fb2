import ReleaseOperator.Proofs.Estate.Convergence
import ReleaseOperator.Proofs.Generations
import ReleaseOperator.Proofs.Removal.Steps

/-!
# A deletion converges

What holds of a resource between the passes over its deletion is one of two things: the
deletion is still under way, or it is over, with the release gone, the finalizer gone, and
nothing remembered. Every pass keeps to this, in trouble too, and so do restarts. A pass on
which nothing fails ends the deletion wherever it was taken up.
-/

namespace ReleaseOperator

open InMemory Program

/-- The finalizers that others have put on a resource, in order. -/
def Resource.otherFinalizers (r : Resource) : List String :=
  r.finalizers.filter fun f => f ≠ r.kind.finalizer

/-- What a store holds after a write that was taken. -/
theorem InMemory.Store.get?_update {s s' : Store} {ns name : String} {w new : Resource}
    (hkey : Store.keyOf w = (ns, name)) (hw : (.ok new, s') = s.update w) :
    s'.get? ns name = if new.isDeleting && new.finalizers.isEmpty then none else some new := by
  unfold Store.update at hw
  split at hw
  · exact absurd (congrArg Prod.fst hw) (by simp)
  · rename_i old _
    injection hw with hnew hs'
    injection hnew with hnew
    subst hnew hs'
    have hnew_key : Store.keyOf (s.merged old w) = (ns, name) := hkey
    split
    · rw [Store.get?, hnew_key]
      exact Table.get?_erase_self
    · exact Store.get?_of_put hnew_key

namespace Removal

variable {g : Ground} {setup : Setup} {trouble : Prop} {kind : Kind} {ns name : String}
  {o r w : Resource} {j : Job} {m m' : Memory} {s s' : Estate}

/-- A resource of the class that is looked after, to be deleted once its release is gone. -/
structure Doomed (setup : Setup) (o : Resource) : Prop where
  className : o.className = setup.className
  isDeleting : o.isDeleting = true
  hasFinalizer : o.hasFinalizer = true

/-- The deletion is under way. What is remembered of it belongs to the one generation that the
resource has, and behind the stage of the work the release is gone. -/
structure Awaiting (setup : Setup) (kind : Kind) (ns name : String) (o : Resource) (m : Memory)
    (s : Estate) : Prop where
  kept : ∃ r, Kept kind ns name o r s
  others : ∀ gen, gen ≠ o.generation → m.deletion.get? (.ofResource o) gen = none
  removed : ∀ e, m.deletion.get? (.ofResource o) o.generation = some e → 5 < e.stage.rank →
    s.releases.get? (o.releaseKey setup) = none

/-- A resource whose deletion is over, kept by the finalizers of others. -/
structure Bare (o r : Resource) : Prop where
  finalizers : r.finalizers = o.otherFinalizers
  spec : r.spec = o.spec
  isDeleting : r.isDeleting = true
  id : ObjectId.ofResource r = .ofResource o

/-- The deletion is over: the release is gone, the resource is gone too or is kept by the
finalizers of others alone, and nothing is remembered of it. -/
structure Cleared (setup : Setup) (kind : Kind) (ns name : String) (o : Resource) (m : Memory)
    (s : Estate) : Prop where
  keyed : s.store.Keyed kind
  released : s.releases.get? (o.releaseKey setup) = none
  gone : o.otherFinalizers = [] → s.store.get? ns name = none
  left : o.otherFinalizers ≠ [] → ∃ r, s.store.get? ns name = some r ∧ Bare o r
  forgotten : ∀ gen, m.lifecycle.get? (.ofResource o) gen = none ∧
    m.deletion.get? (.ofResource o) gen = none

theorem Bare.hasFinalizer (h : Bare o r) : r.hasFinalizer = false := by
  have hkind : r.kind = o.kind := congrArg Spec.kind h.spec
  rw [Resource.hasFinalizer, h.finalizers, hkind, Resource.otherFinalizers]
  simp

/-! ### Taking the finalizer away -/

/-- A resource that is being deleted is written as a whole, unless there is trouble. Without
finalizers it is gone then. -/
theorem always_persistResource (hkeyed : s.store.Keyed kind)
    (hstored : s.store.get? ns name = some r) (hdeleting : r.isDeleting = true)
    (hkind : w.kind = kind) (hkey : Store.keyOf w = (ns, name))
    (hrev : w.metadata.resourceVersion = r.metadata.resourceVersion) :
    Always (Estate.conduct g trouble) (Pass.persistResource w) s fun or s' =>
      or.1.requeue = true ∧ trouble ∧ s' = s ∨
        or.1 = .done ∧ r.Rewritten w or.2 ∧ s'.store.Keyed kind ∧ s'.releases = s.releases ∧
          s'.store.get? ns name = if w.finalizers.isEmpty then none else some or.2 := by
  rw [Pass.always_persistResource]
  rintro answer s₁ ⟨hreleases, hwrite | ⟨ht, hstore, f, rfl⟩⟩
  · cases answer with
    | error f =>
        refine absurd hwrite (Store.update_ne_error ?_ hrev.symm)
        rw [(Prod.mk.inj hkey).1, (Prod.mk.inj hkey).2]
        exact hstored
    | ok new =>
        have hget := Store.get?_update hkey hwrite
        obtain ⟨old, hold, _, rfl, _, hkeyed'⟩ := Store.update_ok hkeyed hkind hkey hwrite
        obtain rfl : r = old := Option.some.inj (hstored.symm.trans hold)
        have hdeleting' : (s.store.merged r w).isDeleting = true := hdeleting
        rw [hdeleting', Bool.true_and] at hget
        exact Or.inr ⟨rfl, ⟨_, _, Store.le_generation_merged s.store r w, rfl⟩, hkeyed', hreleases,
          hget⟩
  · rw [Pass.always_afterWrite]
    refine (Estate.always_refused f).mono ?_
    rintro out s' ⟨hout, rfl⟩
    exact Or.inl ⟨hout, ht, Estate.ext hstore hreleases⟩

/-- At the end of the machine the finalizer is taken away, and the resource is gone or bare. -/
theorem At.removeFinalizer (h : At setup kind ns name o .finish j s) (hdoomed : Doomed setup o) :
    Always (Estate.conduct g trouble) (Pass.removeFinalizer j.resource) s fun or s' =>
      or.1.requeue = true ∧ trouble ∧ s' = s ∨
        or.1 = .done ∧ ObjectId.ofResource or.2 = .ofResource o ∧
          ∀ m, (∀ gen, m.lifecycle.get? (.ofResource o) gen = none ∧
            m.deletion.get? (.ofResource o) gen = none) →
            Cleared setup kind ns name o m s' := by
  obtain ⟨n, status, hr⟩ := h.kept.restated
  obtain ⟨hkind, hkey⟩ := h.kept.keyed ns name _ h.kept.stored
  have hdeleting : j.resource.isDeleting = true := by
    rw [hr]
    exact hdoomed.isDeleting
  have hfinalizers : j.resource.removeFinalizer.finalizers = o.otherFinalizers := by
    rw [hr]
    rfl
  rw [Pass.always_removeFinalizer, h.kept.hasFinalizer, if_pos hdoomed.hasFinalizer]
  refine (always_persistResource h.kept.keyed h.kept.stored hdeleting
    (w := j.resource.removeFinalizer) hkind hkey rfl).mono ?_
  rintro ⟨out, r⟩ s' (hstopped | ⟨hout, hwritten, hkeyed, hreleases, hget⟩)
  · exact Or.inl hstopped
  obtain ⟨n', gen, _, rfl⟩ := hwritten
  have hid : ObjectId.ofResource ⟨{ j.resource.removeFinalizer.metadata with
      deletionTime := j.resource.metadata.deletionTime
      uid := j.resource.metadata.uid
      generation := some gen
      resourceVersion := n' }, j.resource.removeFinalizer.spec, j.resource.status⟩ =
        .ofResource o := by
    rw [hr]
    rfl
  rw [hfinalizers] at hget
  refine Or.inr ⟨hout, hid, fun m hforgotten => ⟨hkeyed, ?_, fun hnone => ?_, fun hsome => ?_,
    hforgotten⟩⟩
  · rw [hreleases]
    exact h.removed (by decide)
  · rw [hnone] at hget
    exact hget
  · rw [if_neg (by rwa [List.isEmpty_iff])] at hget
    refine ⟨_, hget, hfinalizers, ?_, hdeleting, hid⟩
    rw [hr]
    rfl

/-! ### Passes -/

/-- What a pass over a deletion under way leads to: it ends the deletion, or it stops in trouble
and is to be taken up again. -/
def Leads (setup : Setup) (trouble : Prop) (kind : Kind) (ns name : String) (o : Resource)
    (result : Except PassError Outcome) (m : Memory) (s : Estate) : Prop :=
  result = .ok .done ∧ Cleared setup kind ns name o m s ∨
    (∃ out, result = .ok out ∧ out.requeue = true) ∧ trouble ∧
      Awaiting setup kind ns name o m s

/-- The memory with what has become of the entry of a deletion. -/
def noting (o : Resource) (m : Memory) (e : Entry) : Memory :=
  let t := (m.deletion.ensure (.ofResource o) o.generation .start).2
  { m with deletion := t.record (.ofResource o) o.generation e }

/-- Whatever the entry has become, the other generations still have none. -/
theorem Awaiting.noting (h : Awaiting setup kind ns name o m s) {e : Entry}
    (hhalted : Halted setup kind ns name o e s') :
    Awaiting setup kind ns name o (noting o m e) s' := by
  refine ⟨hhalted.kept, fun gen hne => ?_, fun e' he => ?_⟩
  · rw [Removal.noting, Tracker.get?_record_of_ne hne, Option.eq_none_iff_forall_not_mem]
    intro e' he'
    have hold := Tracker.get?_of_get?_ensure hne he'
    rw [h.others gen hne] at hold
    cases hold
  · rw [Tracker.get?_record_self he]
    exact hhalted.removed

/-- The work on the entry of the deletion. -/
theorem Awaiting.clear (h : Awaiting setup kind ns name o m s) (hdoomed : Doomed setup o)
    (hacts : setup.dryRun = false) (hr : Kept kind ns name o r s) :
    AlwaysFrom (Estate.conduct g trouble) (Reconcile.clear setup r) m s fun out =>
      Leads setup trouble kind ns name o (.ok out) := by
  obtain ⟨n, status, hsame⟩ := hr.restated
  have hgen : r.generation = o.generation := by
    rw [hsame]
    rfl
  have hrelease : r.release setup.defaults = o.release setup.defaults := by
    rw [hsame]
    rfl
  have hentry : 5 < (m.deletion.ensure (.ofResource o) o.generation .start).1.stage.rank →
      s.releases.get? (o.releaseKey setup) = none := by
    rw [Tracker.ensure_fst]
    cases he : m.deletion.get? (.ofResource o) o.generation with
    | none => exact fun hlt => absurd hlt (by simp [Entry.fresh, Stage.rank])
    | some e => exact h.removed e he
  have hstopped : ∀ {e : Entry} {s' : Estate} {out : Outcome}, out.requeue = true → trouble →
      Halted setup kind ns name o e s' →
      Leads setup trouble kind ns name o (.ok out) (Removal.noting o m e) s' :=
    fun hout ht hhalted => Or.inr ⟨⟨_, rfl, hout⟩, ht, h.noting hhalted⟩
  have hat : At setup kind ns name o
      (m.deletion.ensure (.ofResource o) o.generation .start).1.stage
      (.start setup r (m.deletion.ensure (.ofResource o) o.generation .start).1) s :=
    ⟨hr, hrelease, rfl, hentry⟩
  rw [Reconcile.always_clear, hr.hasFinalizer, if_pos hdoomed.hasFinalizer, hr.id, hgen]
  dsimp only
  rw [Work.always_clear]
  refine (At.perform hacts hat).mono ?_
  rintro out j s₁ (⟨hout, ht, hhalted⟩ | ⟨rfl, hfinish⟩)
  · rw [if_pos hout]
    exact hstopped hout ht hhalted
  · rw [if_neg (by decide)]
    refine (hfinish.removeFinalizer hdoomed).mono ?_
    rintro ⟨out, r'⟩ s₂ (⟨hout, ht, rfl⟩ | ⟨rfl, hid, hcleared⟩)
    · dsimp only at hout
      rw [if_pos hout]
      exact hstopped hout ht hfinish.halted
    · dsimp only
      rw [if_neg (by decide)]
      refine Or.inl ⟨rfl, hcleared _ fun gen => ?_⟩
      change Tracker.get? (Tracker.forget _ (.ofResource r')) _ _ = none ∧
        Tracker.get? (Tracker.forget _ (.ofResource r')) _ _ = none
      rw [hid]
      exact ⟨Tracker.get?_forget _ _ _, Tracker.get?_forget _ _ _⟩

theorem Awaiting.reconcile (h : Awaiting setup kind ns name o m s) (hdoomed : Doomed setup o)
    (hacts : setup.dryRun = false) :
    AlwaysFrom (Estate.conduct g trouble) (reconcile setup kind ns name) m s
      (Leads setup trouble kind ns name o) := by
  obtain ⟨r, hr⟩ := h.kept
  obtain ⟨n, status, hsame⟩ := hr.restated
  have hdeleting : r.isDeleting = true := by
    rw [hsame]
    exact hdoomed.isDeleting
  have hclass : r.className = setup.className := by
    rw [hsame]
    exact hdoomed.className
  rw [always_reconcile]
  rintro answer s₁ ⟨hreleases, hstore, hanswer⟩
  obtain rfl : s₁ = s := Estate.ext hstore hreleases
  rw [hr.stored] at hanswer
  rcases hanswer with rfl | ⟨ht, f, rfl⟩
  · dsimp only
    rw [if_neg (fun hne => hne hclass), Reconcile.always_found, if_pos hdeleting]
    exact h.clear hdoomed hacts hr
  · refine (Estate.always_delayWith _).mono ?_
    rintro out s' ⟨hout, rfl⟩
    exact Or.inr ⟨⟨out, rfl, hout⟩, ht, h⟩

/-- Once the deletion is over it stays so, whoever asks for another pass. -/
theorem Cleared.reconcile (h : Cleared setup kind ns name o m s) (hdoomed : Doomed setup o) :
    AlwaysFrom (Estate.conduct g trouble) (reconcile setup kind ns name) m s
      fun result m' s' => (result = .ok .done ∨ trouble) ∧ Cleared setup kind ns name o m' s' := by
  have hdrop : ∀ start, Cleared setup kind ns name o (m.onBoth fun t => t.dropUnder start) s := by
    intro start
    have hnone : ∀ (t : Tracker) gen, t.get? (.ofResource o) gen = none →
        (t.dropUnder start).get? (.ofResource o) gen = none := by
      intro t gen ht
      rw [Option.eq_none_iff_forall_not_mem]
      intro e he
      rw [Tracker.get?, Tracker.find?_dropUnder he] at ht
      cases ht
    refine ⟨h.keyed, h.released, h.gone, h.left, fun gen => ?_⟩
    exact ⟨hnone _ gen (h.forgotten gen).1, hnone _ gen (h.forgotten gen).2⟩
  rw [always_reconcile]
  rintro answer s₁ ⟨hreleases, hstore, hanswer⟩
  obtain rfl : s₁ = s := Estate.ext hstore hreleases
  rcases hanswer with rfl | ⟨ht, f, rfl⟩
  · cases hstored : s₁.store.get? ns name with
    | none => exact ⟨Or.inl rfl, hdrop _⟩
    | some r =>
        have hbare : Bare o r := by
          have hothers : o.otherFinalizers ≠ [] := by
            intro hnone
            rw [h.gone hnone] at hstored
            cases hstored
          obtain ⟨r', hr', hbare⟩ := h.left hothers
          obtain rfl : r = r' := Option.some.inj (hstored.symm.trans hr')
          exact hbare
        have hclass : r.className = setup.className := by
          rw [Resource.className, hbare.spec]
          exact hdoomed.className
        dsimp only
        rw [if_neg (fun hne => hne hclass), Reconcile.always_found, if_pos hbare.isDeleting,
          Reconcile.always_clear, hbare.hasFinalizer, if_neg Bool.false_ne_true]
        exact ⟨Or.inl rfl, hdrop _⟩
  · refine (Estate.always_delayWith _).mono ?_
    rintro out s' ⟨_, rfl⟩
    exact ⟨Or.inr ht, h⟩

/-! ### Troubled passes -/

/-- Passes over a resource in which calls may fail without effect, and restarts between them. -/
inductive Beset (g : Ground) (setup : Setup) (kind : Kind) (ns name : String) (m : Memory)
    (s : Estate) : Memory → Estate → Prop
  | start : Beset g setup kind ns name m s m s
  | pass {m' m'' : Memory} {s' s'' : Estate} {result : Except PassError Outcome}
      (h : Beset g setup kind ns name m s m' s')
      (run : Runs (Estate.conduct g True) ((ReleaseOperator.reconcile setup kind ns name).run m')
        s' (result, m'') s'') : Beset g setup kind ns name m s m'' s''
  | restart {m' : Memory} {s' : Estate} (h : Beset g setup kind ns name m s m' s') :
      Beset g setup kind ns name m s .empty s'

theorem Awaiting.restarted (h : Awaiting setup kind ns name o m s) :
    Awaiting setup kind ns name o .empty s :=
  ⟨h.kept, fun _ _ => rfl, fun _ he => by cases he⟩

theorem Cleared.restarted (h : Cleared setup kind ns name o m s) :
    Cleared setup kind ns name o .empty s :=
  ⟨h.keyed, h.released, h.gone, h.left, fun _ => ⟨rfl, rfl⟩⟩

/-- By induction on the passes: the deletion is under way, or it is over. -/
theorem Beset.awaiting_or_cleared (h : Beset g setup kind ns name m s m' s')
    (hdoomed : Doomed setup o) (hacts : setup.dryRun = false)
    (hawaiting : Awaiting setup kind ns name o m s) :
    Awaiting setup kind ns name o m' s' ∨ Cleared setup kind ns name o m' s' := by
  induction h with
  | start => exact Or.inl hawaiting
  | pass _ hrun ih =>
      rcases ih with h | h
      · rcases always_iff_runs.1 (h.reconcile hdoomed hacts) _ _ hrun with ⟨_, h'⟩ | ⟨_, _, h'⟩
        · exact Or.inr h'
        · exact Or.inl h'
      · exact Or.inr (always_iff_runs.1 (h.reconcile hdoomed) _ _ hrun).2
  | restart _ ih => exact ih.imp Awaiting.restarted Cleared.restarted

/-- A resource that is being deleted and bears the finalizer, whatever its status, its other
finalizers, what is remembered of it as a living one and what has become of its release, and
whatever troubled passes and restarts it goes through: the first pass on which nothing fails
does not ask to come back. Then the release is gone, the resource is gone or keeps exactly the
finalizers of others, and nothing is remembered of it. -/
theorem deletion_converges (hacts : setup.dryRun = false) (hkeyed : s.store.Keyed kind)
    (hstored : s.store.get? ns name = some o) (hclass : o.className = setup.className)
    (hdeleting : o.isDeleting = true) (hheld : o.hasFinalizer = true)
    (hunbegun : ∀ gen, m.deletion.get? (.ofResource o) gen = none)
    (hbeset : Beset g setup kind ns name m s m' s') :
    AlwaysFrom (Estate.conduct g False) (ReleaseOperator.reconcile setup kind ns name) m' s'
      fun result m'' s'' => result = .ok .done ∧ Cleared setup kind ns name o m'' s'' := by
  have hdoomed : Doomed setup o := ⟨hclass, hdeleting, hheld⟩
  have hawaiting : Awaiting setup kind ns name o m s := by
    refine ⟨⟨o, hkeyed, hstored, .refl o⟩, fun gen _ => hunbegun gen, fun e he => ?_⟩
    rw [hunbegun] at he
    cases he
  rcases hbeset.awaiting_or_cleared hdoomed hacts hawaiting with h | h
  · refine (h.reconcile hdoomed hacts).mono ?_
    rintro result m'' s'' (hdone | ⟨_, hfalse, _⟩)
    · exact hdone
    · exact hfalse.elim
  · refine (h.reconcile hdoomed).mono ?_
    rintro result m'' s'' ⟨hresult, h'⟩
    exact ⟨hresult.resolve_right id, h'⟩

/-! ### A module with a failed release -/

/-- A module that others hold too, to be deleted after its installation has failed. -/
def departing : Resource :=
  { trialModule with
    metadata := { trialModule.metadata with
      finalizers := some ["example.com/audit", Kind.module.finalizer, "example.com/backup"]
      deletionTime := some ⟨0⟩ }
    status := some { Status.empty with phase := some .failed } }

/-- The module with its release. -/
def departingEstate : Estate :=
  ⟨trialStore departing, [(("default", "web"), ⟨⟨"web", "default", .failed, "0.1.0"⟩, []⟩)]⟩

/-- All goes well, but the release cannot be removed. -/
def clinging : (c : Call) → StateM Estate c.Answer
  | .helm (.uninstall _ _ _) => fun s => (.error (.timedOut "uninstall" 0), s)
  | c => Estate.answer Estate.trialGround true c

theorem may_clinging (s : Estate) (c : Call) :
    (Estate.conduct Estate.trialGround True).may s c (clinging c s).1 (clinging c s).2 := by
  have hanswer : ∀ c, (Estate.conduct Estate.trialGround True).may s c
      (Estate.answer Estate.trialGround true c s).1 (Estate.answer Estate.trialGround true c s).2 :=
    Estate.answered_answer Estate.trialGround (Or.inl rfl) s
  rcases c with _ | _ | (_ | _ | _ | _ | _ | _) | _ | _ | _ | _
  case helm.uninstall => exact Or.inr ⟨rfl, trivial, _, rfl⟩
  all_goals exact hanswer _

/-- A pass over the module, computed, on which its release cannot be removed. -/
def clingingPass : (Except PassError Outcome × Memory) × Estate :=
  ((ReleaseOperator.reconcile trialSetup .module "default" "web").run .empty).run clinging
    departingEstate

/-- The machine has stopped at its work and the release is still there. The next pass, with the
entry or after a restart without it, ends the deletion, and the finalizers of others stay. -/
theorem deletion_converges_departing :
    (clingingPass.1.2.deletion.get? (.ofResource departing) 1).map Entry.stage = some .work ∧
    (clingingPass.2.releases.get? ("default", "web")).isSome = true ∧
    departing.otherFinalizers = ["example.com/audit", "example.com/backup"] ∧
    ∀ m ∈ [clingingPass.1.2, .empty],
      AlwaysFrom (Estate.conduct Estate.trialGround False)
        (ReleaseOperator.reconcile trialSetup .module "default" "web") m clingingPass.2
        fun result m' s' => result = .ok .done ∧
          Cleared trialSetup .module "default" "web" departing m' s' := by
  refine ⟨by decide +kernel, by decide +kernel, by decide +kernel, ?_⟩
  have hbeset : Beset Estate.trialGround trialSetup .module "default" "web" .empty departingEstate
      clingingPass.1.2 clingingPass.2 := .pass .start (runs_run may_clinging _ _)
  have hends : ∀ m, Beset Estate.trialGround trialSetup .module "default" "web" .empty
      departingEstate m clingingPass.2 → _ := fun m h =>
    deletion_converges rfl (keyed_trialStore rfl rfl) rfl rfl rfl (by decide) (fun _ => rfl) h
  intro m hm
  rcases List.mem_cons.1 hm with rfl | hm
  · exact hends _ hbeset
  · rw [List.mem_singleton.1 hm]
    exact hends _ (.restart hbeset)

end Removal

end ReleaseOperator
