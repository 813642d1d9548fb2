import ReleaseOperator.Proofs.Standstill.Echoes
import ReleaseOperator.Proofs.Versions

/-!
# Steps that have nothing new to say

A step of a worker that stops either only asked, or it recorded a failure, or it wrote a version
down. A version that is not blank makes a new generation of a resource that asked for none, so
the resource is then another one for the tracker. All other steps have nothing new to say when
they stop again.
-/

namespace ReleaseOperator

open InMemory Program

/-! ### Versions that are written down -/

theorem Text.isBlankText_of_trim {s : String} (h : trim s = "") : isBlankText s = true := by
  have hnil : trimChars s.toList = [] := by
    have hlist := congrArg String.toList h
    rwa [trim, String.toList_ofList] at hlist
  have hall := List.dropWhile_eq_nil_iff.1 (List.reverse_eq_nil_iff.1 hnil)
  cases hrest : s.toList.dropWhile isBlank with
  | nil => exact List.all_eq_true.2 (List.dropWhile_eq_nil_iff.1 hrest)
  | cons c rest =>
      have hblank := hall c (by rw [hrest]; simp)
      have hhead := List.head_dropWhile_not isBlank (l := s.toList) (by rw [hrest]; simp)
      simp only [hrest, List.head_cons] at hhead
      rw [hhead] at hblank
      exact absurd hblank Bool.false_ne_true

theorem ModuleSpec.toJson_eq (s : ModuleSpec) : s.toJson = .object
    [("moduleName", .text s.className), ("overrides", ValuesSource.listToJson s.overrides),
      ("targetNamespace", .text s.targetNamespace), ("version", .text s.version)] := by
  simp only [toJson, Json.ofFields, Json.put, List.foldl, String.reduceEq, String.reduceLT,
    if_false, if_true]

theorem ModuleSpec.version_of_agrees {x y : ModuleSpec}
    (h : x.toJson.agrees y.toJson = true) : x.version = y.version := by
  rw [toJson_eq, toJson_eq] at h
  simp only [Json.agrees, Json.fieldsAgree, Bool.and_eq_true, beq_iff_eq] at h
  exact h.2.2.2.1.2

theorem ActionSpec.toJson_eq (s : ActionSpec) : s.toJson = .object
    [("action", .text s.verb.name), ("installer", .ofFields [("helmRelease", s.release.toJson)]),
      ("moduleClassName", .text s.className), ("version", .text s.version)] := by
  simp only [toJson, Json.ofFields, Json.put, List.foldl, String.reduceEq, String.reduceLT,
    if_false, if_true]

theorem ActionSpec.version_of_agrees {x y : ActionSpec}
    (h : x.toJson.agrees y.toJson = true) : x.version = y.version := by
  rw [toJson_eq, toJson_eq] at h
  simp only [Json.agrees, Json.fieldsAgree, Bool.and_eq_true, beq_iff_eq] at h
  exact h.2.2.2.1.2

/-- A version makes another specification of one that asks for none. -/
theorem Resource.not_sameSpec_setDesiredVersion {r : Resource} {version : String}
    (hempty : r.desiredVersion.isEmpty = true) (hversion : Text.isBlankText version = false) :
    Store.sameSpec (r.setDesiredVersion version) r = false := by
  have hblank : ∀ {v : String}, v = version → (Text.trim v).isEmpty = true → False := by
    rintro v rfl htrim
    rw [Text.isBlankText_of_trim (String.isEmpty_iff.1 htrim)] at hversion
    exact Bool.false_ne_true hversion.symm
  refine Bool.eq_false_iff.2 fun hsame => ?_
  rcases r with ⟨metadata, s | s, status⟩
  · have hsame : ModuleSpec.version { s with version } = s.version :=
      ModuleSpec.version_of_agrees hsame
    exact hblank hsame.symm hempty
  · have hsame : ActionSpec.version { s with version } = s.version :=
      ActionSpec.version_of_agrees hsame
    refine hblank hsame.symm ?_
    unfold desiredVersion at hempty
    dsimp only at hempty
    split at hempty
    · rename_i htrim
      exact htrim
    · exact hempty

namespace Work

variable {replies : Replies} {kind : Kind} {ns name : String} {s s₁ : Store} {j j₁ : Job}
  {setup : Setup} {work : Work Outcome} {st : Stage} {action : Action}

/-- A version that is written down makes a new generation, or takes the last hold of a resource
that is being deleted. -/
theorem always_written {u : Dialogue} {r : Resource} (hkeyed : u.store.Keyed kind)
    (hr : u.store.get? ns name = some r) (hempty : r.desiredVersion.isEmpty = true)
    {version : String} (hversion : Text.isBlankText version = false) :
    Always (Dialogue.conduct replies) (Pass.persistResource (r.setDesiredVersion version)) u
      fun _ t => t.store.Keyed kind ∧
        ∀ new, t.store.get? ns name = some new → new.generation ≠ r.generation := by
  obtain ⟨hkind, hkey⟩ := hkeyed _ _ _ hr
  have hmetadata := r.metadata_setDesiredVersion version
  have hkey' : Store.keyOf (r.setDesiredVersion version) = (ns, name) := by
    rw [← hkey, Store.keyOf, Store.keyOf, Resource.namespaceName, Resource.name, hmetadata]
    rfl
  refine (Dialogue.always_persistResource hkeyed hr ((r.kind_setDesiredVersion version).trans hkind)
    hkey' (by rw [hmetadata])).mono ?_
  rintro ⟨o, written⟩ t ⟨_, hkeyed', rfl, hget⟩
  refine ⟨hkeyed', fun new hnew hgeneration => ?_⟩
  rcases hget with hget | ⟨hgone, _⟩
  · have hsame : u.store.merged r (r.setDesiredVersion version) = new :=
      Option.some.inj (hget.symm.trans hnew)
    rw [← hsame, Store.generation_merged,
      Resource.not_sameSpec_setDesiredVersion hempty hversion, if_neg Bool.false_ne_true]
      at hgeneration
    omega
  · rw [hgone] at hnew
    cases hnew

/-! ### Asking -/

theorem echoes_lookup {α : Type} {p : Job → Pass α} {f : α → Work Outcome}
    (hp : Asks (fun c : Call => c.isLookup = true) (p j)) (hsame : p j₁ = p j)
    (h : ∀ a, Echoes replies ns name s s₁ j j₁ (f a) (f a)) :
    Echoes replies ns name s s₁ j j₁ (about p >>= f) (about p >>= f) :=
  echoes_about (hp.mono fun _ => Call.isOutward_of_isLookup) hsame h

theorem echoes_hook (moment : HookMoment) :
    Echoes replies ns name s s₁ j j₁ work (hook moment action) :=
  echoes_of_second fun _ hv => (always_about _ _).2
    ((Dialogue.always_quiet (Pass.quiet_hook moment action _)).mono fun _ _ hsame => hsame.trans hv)

section Steps

variable (h : Echo kind ns name s s₁ j j₁)

include h

/-! ### Applying and removing a release -/

theorem echoes_handOver (failure : Reason) (documents : List Json)
    (credentials : Option Credentials) :
    Echoes replies ns name s s₁ j j₁ (handOver failure documents credentials)
      (handOver failure documents credentials) := by
  refine echoes_get ?_
  rw [h.release]
  refine echoes_ask (asks_helm _) ?_
  rintro (e | info)
  · exact echoes_fail h failure (.helm e)
  · exact echoes_of_done fun _ _ => rfl

theorem echoes_applyRelease (setup : Setup) (failure : Reason) :
    Echoes replies ns name s s₁ j j₁ (applyRelease setup failure) (applyRelease setup failure) := by
  refine echoes_lookup (Pass.asks_jobValues (fun _ h => h) setup j)
    (congrArg ExceptT.run (h.values setup)) ?_
  rintro (e | documents)
  · exact echoes_fail h failure (.source e)
  · dsimp only
    split
    · exact echoes_of_done fun _ _ => rfl
    · refine echoes_lookup (Pass.asks_credentials (fun _ h => h) _ _)
        (congrArg ExceptT.run h.credentials) ?_
      rintro (e | credentials)
      · exact echoes_fail h failure (.source e)
      · exact echoes_handOver h failure documents credentials

theorem echoes_install (setup : Setup) :
    Echoes replies ns name s s₁ j j₁ (install setup) (install setup) := by
  unfold install
  split
  · exact echoes_applyRelease h setup .installFailed
  · refine echoes_about (asks_helm _) (by rw [h.release]) ?_
    rintro (e | info)
    · exact echoes_quiet (Pass.quiet_shortDelayWith (.helm e))
    · dsimp only
      split
      · exact echoes_of_done fun _ _ => rfl
      · exact echoes_applyRelease h setup .installFailed

theorem echoes_uninstall (setup : Setup) :
    Echoes replies ns name s s₁ j j₁ (uninstall setup) (uninstall setup) := by
  unfold uninstall
  split
  · exact echoes_of_done fun _ _ => rfl
  · refine echoes_get ?_
    dsimp only
    rw [h.release]
    refine echoes_ask (asks_helm _) ?_
    rintro (e | _ | info)
    · exact echoes_quiet (Pass.quiet_shortDelayWith (.helm e))
    · exact echoes_of_done fun _ _ => rfl
    · refine echoes_ask (asks_helm _) ?_
      rintro (e | _)
      · exact echoes_fail h .uninstallFailed (.helm e)
      · exact echoes_of_done fun _ _ => rfl

/-! ### Versions -/

theorem echoes_chartVersion {f : Except HelmError String → Work Outcome}
    (credentials : Option Credentials)
    (hf : ∀ a, (∃ asked, replies asked (.helm (.chartVersion j.release credentials)) = a) →
      Echoes replies ns name s s₁ j j₁ (f a) (f a)) :
    Echoes replies ns name s s₁ j j₁
      (about (fun j => Pass.helm (.chartVersion j.release credentials)) >>= f)
      (about (fun j => Pass.helm (.chartVersion j.release credentials)) >>= f) := by
  have hask : Echoes replies ns name s s₁ j j₁
      (ask (Pass.helm (.chartVersion j.release credentials)) >>= f)
      (ask (Pass.helm (.chartVersion j₁.release credentials)) >>= f) := by
    rw [h.release]
    intro u v hu hv huv
    refine pairedFrom_bind (pairedFrom_lift ?_)
    rintro a u' ⟨ha, rfl⟩ a' v' ⟨ha', rfl⟩
    obtain rfl : a = a' := by rw [ha, ha', huv]
    exact hf a ⟨u.asked, ha.symm⟩ _ _ hu hv (by rw [huv])
  exact hask

theorem echoes_pinVersion (hnames : replies.NamesVersions)
    (hempty : j.resource.desiredVersion.isEmpty = true) (setup : Setup) :
    Echoes replies ns name s s₁ j j₁ (pinVersion setup) (pinVersion setup) := by
  refine echoes_lookup (Pass.asks_credentials (fun _ h => h) _ _)
    (congrArg ExceptT.run h.credentials) ?_
  rintro (e | credentials)
  · exact echoes_fail h .installFailed (.source e)
  · refine echoes_chartVersion h credentials ?_
    rintro (e | version) ⟨asked, hreply⟩
    · exact echoes_fail h .installFailed (.helm e)
    · refine echoes_of_first fun u hu => ?_
      dsimp only
      rw [alwaysFrom_bind, always_changeResource, alwaysFrom_bind, always_write]
      have hkeyed : u.store.Keyed kind := hu ▸ h.keyed
      have hstored : u.store.get? ns name = some j.resource := hu ▸ h.stored
      refine (always_written hkeyed hstored hempty (hnames _ _ _ _ hreply)).mono ?_
      rintro ⟨o, r⟩ t ⟨_, hnext⟩
      have hleft : t.store.get? ns name ≠ some j₁.resource :=
        fun hleft => hnext _ hleft h.restated.generation
      dsimp only
      split
      · exact fun _ => hleft
      · rw [alwaysFrom_bind, alwaysFrom_modify, always_ask]
        refine (Dialogue.always_quiet Pass.quiet_shortDelay).mono fun _ t' hsame _ => ?_
        rw [hsame]
        exact hleft

theorem echoes_preInstall (hnames : replies.NamesVersions) (setup : Setup) :
    Echoes replies ns name s s₁ j j₁ (preInstall setup) (preInstall setup) := by
  refine echoes_get ?_
  rw [h.restated.desiredVersion]
  split
  · rename_i hempty
    exact echoes_pinVersion h hnames hempty setup
  · exact echoes_hook .preWork

/-! ### All steps -/

theorem echoes_announceInstall :
    Echoes replies ns name s s₁ j j₁ announceInstall work := by
  refine echoes_of_done fun u hu => ?_
  rw [always_announceInstall]
  refine (Dialogue.always_quiet Pass.quiet_now).mono fun time u₁ hsame => ?_
  have hmarked : Echo kind ns name s s₁
      { j with entry := j.entry.markPreInstall time } j₁ := ⟨h.1, h.2, h.3, h.4, h.5, h.6⟩
  exact (always_announce_echo hmarked (hsame.trans hu) .preInstall none).mono
    fun _ _ _ hrecorded => hrecorded.1

theorem echoes_concludeInstall :
    Echoes replies ns name s s₁ j j₁ concludeInstall work := by
  refine echoes_of_done fun u hu => ?_
  exact always_concludeInstall (fun _ _ _ _ _ _ hdone => hdone)
    (always_conclude_echo h hu .installSucceeded true)

/-- No step has anything new to say when it stops again. -/
theorem echoes_step (hnames : replies.NamesVersions)
    (hmem : (st, work) ∈ (Worker.forAction setup action).steps) :
    Echoes replies ns name s s₁ j j₁ work work := by
  cases action <;>
    simp only [Worker.steps, Worker.forAction, List.mem_cons, Prod.mk.injEq, List.not_mem_nil,
      or_false] at hmem <;>
    rcases hmem with ⟨_, rfl⟩ | ⟨_, rfl⟩ | ⟨_, rfl⟩ | ⟨_, rfl⟩ | ⟨_, rfl⟩ | ⟨_, rfl⟩ | ⟨_, rfl⟩
  case install.inl => exact echoes_announceInstall h
  case install.inr.inl => exact echoes_preInstall h hnames setup
  case install.inr.inr.inr.inl => exact echoes_install h setup
  case install.inr.inr.inr.inr.inr.inr => exact echoes_concludeInstall h
  case delete.inr.inr.inr.inl => exact echoes_uninstall h setup
  all_goals first
    | exact echoes_of_done fun _ _ => rfl
    | exact echoes_announce h _ none
    | exact echoes_hook _
    | exact echoes_applyRelease h setup _
    | exact echoes_conclude h _ _

end Steps

end Work

end ReleaseOperator
