import ReleaseOperator.Proofs.Edits.Passes
import ReleaseOperator.Proofs.Edits.Script

/-!
# From which generation a release is applied

A pass takes the descriptor of a release from the resource as it was found, and the
values from the copy in hand. The two are of one generation exactly when no edit lies
between them, that is, before the last status write that succeeded. An edit that comes
between the reading and such a write is thus applied by half: its values, but not its
version.
-/

namespace ReleaseOperator.Contest

open InMemory Relation Program

variable {setup : Setup} {kind : Kind} {ns name : String}

/-- A pass over a resource, with the story of that pass. -/
def PassRun (setup : Setup) (kind : Kind) (ns name : String) (m : Memory) (store : Store)
    (result : Except PassError Outcome × Memory) (t : Contest) : Prop :=
  Runs (conduct kind ns name) ((reconcile setup kind ns name).run m) ⟨store, [.began]⟩ result t

theorem PassRun.settled {m : Memory} {store : Store} {e : Except PassError Outcome × Memory}
    {t : Contest} (h : PassRun setup kind ns name m store e t) (hkeyed : store.Keyed kind) :
    Settled setup kind ns name False t := by
  have hfair : AllFair setup kind ns name [.began] := by
    intro e es hsuffix
    rcases List.suffix_cons_iff.1 hsuffix with heq | hnil
    · injection heq with he hes
      subst he
      trivial
    · exact absurd (List.suffix_nil.1 hnil) (List.cons_ne_nil _ _)
  have hstart : Settled setup kind ns name False ⟨store, [.began]⟩ :=
    ⟨hkeyed, hfair, fun hfalse => hfalse.elim⟩
  have hpass := hstart.reconcile (m := m) rfl fun hfalse => hfalse.elim
  exact (always_iff_runs.1 hpass e t h).1

/-- Whatever is edited during a pass, each release that it applies has the descriptor of
the resource as it was found and the values of the copy in hand, and these are of one
generation if and only if no edit lies between them. -/
theorem applied_of_one_generation_iff {m : Memory} {store : Store}
    {e : Except PassError Outcome × Memory} {t : Contest} (hkeyed : store.Keyed kind)
    (hrun : PassRun setup kind ns name m store e t) (request : ReleaseRequest)
    (answer : Call.Answer (.helm (.upgradeOrInstall request))) (es : Story)
    (happlied : (.asked (.helm (.upgradeOrInstall request)) answer :: es) <:+ t.story) :
    ∃ r c, AppliedFrom setup kind ns name request es r c ∧
      (c.generation = r.generation ↔ es.editsInHand = 0) := by
  obtain ⟨r, c, hfrom⟩ := (hrun.settled hkeyed).fair _ es happlied
  refine ⟨r, c, hfrom, ?_⟩
  have hgen := hfrom.generation
  omega

/-- The releases that were applied, each with the edits that its values have seen and its
descriptor has not. -/
def appliedIn : Story → List (ReleaseRequest × Nat)
  | [] => []
  | .asked (.helm (.upgradeOrInstall request)) _ :: es =>
    (request, Story.editsInHand es) :: appliedIn es
  | _ :: es => appliedIn es

theorem exists_of_mem_appliedIn {story : Story} {request : ReleaseRequest} {n : Nat}
    (h : (request, n) ∈ appliedIn story) :
    ∃ answer, ∃ es : Story,
      (.asked (.helm (.upgradeOrInstall request)) answer :: es) <:+ story ∧
        es.editsInHand = n := by
  induction story with
  | nil => exact absurd h List.not_mem_nil
  | cons e es ih =>
      unfold appliedIn at h
      split at h
      · exact absurd h List.not_mem_nil
      · rename_i request' a es' heq
        injection heq with he hes
        subst he hes
        rcases List.mem_cons.1 h with heq | h
        · injection heq with hreq hn
          subst hreq hn
          exact ⟨a, es, List.suffix_rfl, rfl⟩
        · obtain ⟨answer, es', hsuffix, hes'⟩ := ih h
          exact ⟨answer, es', hsuffix.trans (List.suffix_cons _ _), hes'⟩
      · rename_i e' es' _ heq
        injection heq with _ hes
        subst hes
        obtain ⟨answer, es', hsuffix, hes'⟩ := ih h
        exact ⟨answer, es', hsuffix.trans (List.suffix_cons _ _), hes'⟩

/-- What is applied when the user asks for another version and other values right after
the pass has found the module. -/
def halfEdited : ReleaseRequest :=
  ⟨trialModule.release trialSetup.defaults, none, Sources.render [replicas 2], false, false⟩

/-- That pass. -/
def halfEditedPass : (Except PassError Outcome × Memory) × Contest :=
  scriptedPass trialSetup .module "default" "web" none (trialSpec "0.2.0" 2) .empty
    ⟨trialStore trialModule, [.began]⟩

theorem passRun_halfEditedPass :
    PassRun trialSetup .module "default" "web" .empty (trialStore trialModule) halfEditedPass.1
      halfEditedPass.2 :=
  runs_scriptedPass _ _ _ _ _ _ _ _

theorem halfEdited_mem : (halfEdited, 1) ∈ appliedIn halfEditedPass.2.story := by
  decide +kernel

/-- The hypotheses of `applied_of_one_generation_iff` hold of a pass with an edit in it. -/
theorem applied_of_one_generation_iff_halfEdited :
    (trialStore trialModule).Keyed .module ∧
      PassRun trialSetup .module "default" "web" .empty (trialStore trialModule) halfEditedPass.1
        halfEditedPass.2 ∧
      ∃ answer, ∃ es : Story,
        (.asked (.helm (.upgradeOrInstall halfEdited)) answer :: es) <:+ halfEditedPass.2.story ∧
          ∃ r c, AppliedFrom trialSetup .module "default" "web" halfEdited es r c ∧
            (c.generation = r.generation ↔ es.editsInHand = 0) := by
  refine ⟨keyed_trialStore rfl rfl, passRun_halfEditedPass, ?_⟩
  obtain ⟨answer, es, hsuffix, _⟩ := exists_of_mem_appliedIn halfEdited_mem
  exact ⟨answer, es, hsuffix, applied_of_one_generation_iff (keyed_trialStore rfl rfl)
    passRun_halfEditedPass halfEdited answer es hsuffix⟩

/-- A pass may apply the version of one generation with the values of the next: neither
the module as it was found nor the module as it was edited asks for that. -/
theorem half_an_edit_is_applied :
    ∃ result t,
      PassRun trialSetup .module "default" "web" .empty (trialStore trialModule) result t ∧
      ∃ request answer, ∃ es : Story,
        (.asked (.helm (.upgradeOrInstall request)) answer :: es) <:+ t.story ∧
          request.release = trialModule.release trialSetup.defaults ∧
          request.documents ≠ Sources.render [replicas 1] ∧
          request.documents = Sources.render [replicas 2] ∧
          request.release ≠
            Resource.release { trialModule with spec := trialSpec "0.2.0" 2 }
              trialSetup.defaults := by
  obtain ⟨answer, es, hsuffix, _⟩ := exists_of_mem_appliedIn halfEdited_mem
  refine ⟨_, _, passRun_halfEditedPass, halfEdited, answer, es, hsuffix, rfl, ?_, rfl, ?_⟩
  · decide +kernel
  · decide +kernel

end ReleaseOperator.Contest
