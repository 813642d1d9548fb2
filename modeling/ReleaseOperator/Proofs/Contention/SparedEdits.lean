import ReleaseOperator.Proofs.Contention.Exchanges
import ReleaseOperator.Proofs.Edits.Script

/-!
# No edit is lost

A pass over a resource, whatever it is about and whatever users do in the middle of it,
writes nothing but what is the operator's own: each of its writes fails without effect, or
it exchanges the status, puts the finalizer on or takes it off, or writes down the version
of a chart where there was none. An object of the same name that was created anew is not
the one that the pass found, and it is never written.
-/

namespace ReleaseOperator.SharedStore

open InMemory InMemory.Store Relation Program Work

variable {setup : Setup} {kind : Kind} {ns name : String} {r : Resource} {j : Job}
  {m : Memory} {s t : SharedStore}

/-- A copy with other finalizers written: nothing but the finalizers of what was stored is
exchanged. -/
theorem InHand.persistFinalizers (h : InHand kind ns name r j s) (fs : List String)
    (hspares : ∀ old new, old.kind = j.resource.kind → old.finalizers = j.resource.finalizers →
      (old.setFinalizers fs).WrittenAs new → new.generation = old.generation →
        Log.Spares s.log old new) :
    Always (conduct kind) (Pass.persistResource (j.resource.setFinalizers fs)) s fun _ t =>
      Watched kind ns name r t := by
  refine h.persistResource h.kind ⟨_, rfl⟩ ?_
  intro old new hmeta hspec hnew hgen
  refine hspares old new ?_ ?_ ⟨hnew.spec.trans hspec.symm, hnew.status, ?_⟩ (hgen hspec.symm)
  · rw [Resource.kind, hspec]
    rfl
  · rw [Resource.finalizers, hmeta]
    rfl
  · have hmeta' := hnew.metadata
    rw [Resource.setFinalizers, hmeta]
    exact hmeta'

/-- The finalizer is put on behind all others. -/
theorem InHand.addFinalizer (h : InHand kind ns name r j s)
    (habsent : j.resource.hasFinalizer = false) :
    Always (conduct kind) (Pass.persistResource j.resource.addFinalizer) s fun _ t =>
      Watched kind ns name r t := by
  rw [Resource.addFinalizer, if_neg (by rw [habsent]; exact Bool.false_ne_true)]
  refine h.persistFinalizers _ ?_
  intro old new hkind hfinalizers hnew hgen
  rw [← hkind, ← hfinalizers] at hnew
  rw [Resource.hasFinalizer, ← hkind, ← hfinalizers] at habsent
  exact .finalizerAdded habsent hnew hgen

/-- The finalizer is taken off, and all others stay in their order. -/
theorem InHand.removeFinalizer (h : InHand kind ns name r j s) :
    Always (conduct kind) (Pass.removeFinalizer j.resource) s fun _ t =>
      Watched kind ns name r t := by
  rw [Pass.always_removeFinalizer]
  split
  · rename_i hpresent
    refine h.persistFinalizers _ ?_
    intro old new hkind hfinalizers hnew hgen
    rw [← hkind, ← hfinalizers] at hnew
    rw [Resource.hasFinalizer, ← hkind, ← hfinalizers] at hpresent
    exact .finalizerRemoved hpresent hnew hgen
  · exact h.watched

theorem InHand.clear (h : InHand kind ns name r j s) :
    AlwaysFrom (conduct kind) (Work.clear setup) j s fun _ _ t => Watched kind ns name r t := by
  rw [Work.always_clear]
  refine (InHand.upheld.perform Upheld.recordsAll_true InHand.free.unstaged h .delete).mono ?_
  intro o j' t hgoes
  unfold Proceeds at hgoes
  split
  · rename_i ho
    rw [if_pos ho] at hgoes
    exact hgoes
  · rename_i ho
    rw [if_neg ho] at hgoes
    refine hgoes.removeFinalizer.mono ?_
    rintro ⟨o', r'⟩ x hx
    dsimp only
    split
    · exact hx
    · exact hx

theorem InHand.live (h : InHand kind ns name r j s) :
    AlwaysFrom (conduct kind) (Work.live setup) j s fun _ _ t => Watched kind ns name r t := by
  have hupheld : Upheld (conduct kind) setup (fun _ => True) (InHand kind ns name r)
      (fun _ => Watched kind ns name r) := InHand.upheld
  exact (hupheld.live Upheld.recordsAll_true InHand.free h).mono fun _ _ _ hgoes =>
    hupheld.halted_of_proceeds hgoes

/-- The work on the resource that a pass found. -/
theorem InHand.found {e : Entry} (h : InHand kind ns name r (Job.start setup r e) s) :
    AlwaysFrom (conduct kind) (Reconcile.found setup r) m s fun _ _ t =>
      Watched kind ns name r t := by
  have hstart : ∀ e', InHand kind ns name r (Job.start setup r e') s :=
    fun e' => InHand.free _ _ e' h
  rw [Reconcile.always_found]
  split
  · rw [Reconcile.always_clear]
    split
    · exact (hstart _).clear
    · exact h.watched
  · split
    · exact h.watched
    · rw [Pass.always_ensureFinalizer]
      split
      · exact (Reconcile.always_live _ _ _ _).2 (hstart _).live
      · rename_i habsent
        refine (h.addFinalizer (Bool.not_eq_true _ ▸ habsent)).mono ?_
        rintro ⟨o, r'⟩ t ht
        dsimp only
        split
        · exact ht
        · exact ht.quiet Pass.quiet_shortDelay

/-- The first call of a pass finds the resource. -/
theorem inHand_start {e : Entry} (hkeyed : s.store.Keyed kind) (hrevised : s.store.Revised)
    (hnil : s.log = [])
    (hmay : (conduct kind).may s (.store (.get kind ns name)) (.ok (some r)) t) :
    InHand kind ns name r (Job.start setup r e) t := by
  obtain ⟨store, hans, husers, hlog⟩ := hmay
  have hr := Contest.stored_of_answered hans
  obtain rfl := Contest.answered_of_isQuiet rfl hans
  have hlater := later_of_users husers
  obtain ⟨hkind, hkey⟩ := hkeyed ns name r hr
  refine ⟨⟨keyed_of_users husers hkeyed, hlater.revised hrevised, ?_, ?_⟩,
    (knows_stored hkeyed hrevised hr).later hlater, hkind, hkey, rfl⟩
  · rw [hlog, hnil]
    exact Log.allHarmless_nil.cons (Log.harmless_of_not_write rfl)
  · rw [hlog, hnil]
    exact ⟨_, _, List.suffix_rfl⟩

/-- Whatever users do between the calls of a pass, each write of the pass fails and leaves the
store as it was, or it changes nothing of the stored object but its status, the finalizer of
the operator or a blank version. The object is the one that the pass found, and no other
object changes. -/
theorem writes_spare_edits {store : Store} {result : Except PassError Outcome × Memory}
    (keyed : store.Keyed kind) (revised : store.Revised)
    (run : Runs (conduct kind) ((reconcile setup kind ns name).run m) ⟨store, []⟩ result t) :
    ∀ x es, (x :: es) <:+ t.log → Log.Harmless kind ns name x es := by
  have hpass : AlwaysFrom (conduct kind) (reconcile setup kind ns name) m ⟨store, []⟩
      fun _ _ t => Log.AllHarmless kind ns name t.log := by
    rw [always_reconcile]
    intro a s hmay
    have hlook : ∀ {s t : SharedStore} {c : Call} {a : c.Answer}, c.isQuiet = true →
        Log.AllHarmless kind ns name s.log → (conduct kind).may s c a t →
          Log.AllHarmless kind ns name t.log := by
      rintro s t c a hq h ⟨_, _, _, hlog⟩
      rw [hlog]
      exact h.cons (Log.harmless_of_not_write (Exchange.wrote?_of_isQuiet hq _ _ _))
    have hs := hlook rfl Log.allHarmless_nil hmay
    rcases a with e | _ | r
    · exact (Pass.quiet_shortDelayWith _).always (fun _ _ _ _ hq hmay h => hlook hq h hmay) hs
    · exact hs
    · dsimp only
      split
      · exact hs
      · have hstart : InHand kind ns name r (Job.start setup r (.fresh 0 .start)) s :=
          inHand_start keyed revised rfl hmay
        exact hstart.found.mono fun _ _ _ h => h.harmless
  exact always_iff_runs.1 hpass _ _ run

/-! ### A pass with a user -/

/-- The store after a user has changed the values of the module `web`. -/
def retouched (store : Store) : Store :=
  match store.edit "default" "web" (fun r =>
      if r.kind = .module then some { r with spec := trialSpec "0.1.0" 2 } else none) with
  | some (some store') => store'
  | _ => store

theorem users_retouched (store : Store) :
    ReflTransGen (Users .module) store (retouched store) := by
  unfold retouched
  split
  · rename_i store' hedit
    refine ReflTransGen.single (.edit ?_ hedit)
    intro old new hnew
    split at hnew
    · rename_i hkind
      obtain rfl := Option.some.inj hnew
      exact ⟨hkind.symm, rfl, rfl⟩
    · exact absurd hnew (by simp)
  · exact ReflTransGen.refl

/-- The release `web`, deployed. -/
def deployedWeb : Option ReleaseInfo := some ⟨"web", "default", .deployed, "0.1.0"⟩

/-- All goes well, and the user changes the values right after the first answer. -/
def disturbed (c : Call) : StateM SharedStore c.Answer := fun s =>
  let (a, store) := Contest.wellAnswered .module deployedWeb s.store c
  (a, ⟨if s.log.isEmpty then retouched store else store, ⟨c, a, s.store, store⟩ :: s.log⟩)

theorem may_disturbed (s : SharedStore) (c : Call) :
    (conduct .module).may s c (disturbed c s).1 (disturbed c s).2 := by
  refine ⟨_, Contest.answered_wellAnswered .module deployedWeb s.store c, ?_, rfl⟩
  unfold disturbed
  dsimp only
  split
  · exact users_retouched _
  · exact ReflTransGen.refl

/-- The pass over the module `web`, computed. -/
def disturbedPass : (Except PassError Outcome × Memory) × SharedStore :=
  ((reconcile trialSetup .module "default" "web").run .empty).run disturbed
    ⟨trialStore trialModule, []⟩

theorem revised_trialStore : (trialStore trialModule).Revised := by
  intro ns name o ho
  obtain ⟨_, rfl⟩ := get?_trialStore ho
  exact ⟨1, Nat.le_refl _, rfl⟩

/-- The hypotheses of `writes_spare_edits` hold of a pass with an edit in it and with writes
that were taken. -/
theorem writes_spare_edits_disturbed :
    (trialStore trialModule).Keyed .module ∧ (trialStore trialModule).Revised ∧
      disturbedPass.2.log.filterMap (fun x => x.wrote?.map Except.isOk) = [true, true, true] ∧
      ∀ x es, (x :: es) <:+ disturbedPass.2.log →
        Log.Harmless .module "default" "web" x es :=
  ⟨keyed_trialStore rfl rfl, revised_trialStore, by decide +kernel,
    writes_spare_edits (keyed_trialStore rfl rfl) revised_trialStore
      (runs_run may_disturbed _ _)⟩

end ReleaseOperator.SharedStore
