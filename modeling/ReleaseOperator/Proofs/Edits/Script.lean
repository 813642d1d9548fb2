import ReleaseOperator.Proofs.Edits.Story

/-!
# Contests that can be run

The conduct among edits leaves almost everything open. Here every question has one
answer: the store keeps to its rules, Helm reports a given release, everything else
goes well, and a user makes one given edit right after the first answer. Such a run is one
of those that the conduct allows, and it can be computed.
-/

namespace ReleaseOperator

open InMemory Relation Program

namespace Contest

/-- The answer of collaborators with which all goes well, and the store afterwards. -/
def wellAnswered (kind : Kind) (info : Option ReleaseInfo) (store : Store) :
    (c : Call) → c.Answer × Store
  | .store (.get _ ns name) => (.ok (store.get? ns name), store)
  | .store (.update r) =>
    if r.kind = kind then store.update r else (.error (.notFound r.name), store)
  | .store (.updateStatus r) =>
    if r.kind = kind then store.updateStatus r else (.error (.notFound r.name), store)
  | .cluster (.configMap _ _ _) => (.ok none, store)
  | .cluster (.secret _ _ _) => (.ok none, store)
  | .cluster (.workloadReady _) => (.ok true, store)
  | .helm (.upgradeOrInstall request) =>
    (.ok ⟨request.release.name, request.release.namespaceName, .deployed,
      request.release.chart.version⟩, store)
  | .helm (.uninstall _ _ _) => (.ok (), store)
  | .helm (.releaseInfo _ _) => (.ok info, store)
  | .helm (.values _ _) => (.ok .null, store)
  | .helm (.manifest _ _) => (.ok "", store)
  | .helm (.chartVersion release _) => (.ok release.chart.version, store)
  | .hook _ _ _ => (.done, store)
  | .now => ("", store)
  | .draw low _ ordered => (⟨low, Pass.low_mem_draw ordered⟩, store)
  | .count _ => ((), store)

theorem answered_wellAnswered (kind : Kind) (info : Option ReleaseInfo) (store : Store)
    (c : Call) :
    Answered kind store c (wellAnswered kind info store c).1
      (wellAnswered kind info store c).2 := by
  rcases c with (⟨k, ns, name⟩ | r | r) | (_ | _ | _) | (_ | _ | _ | _ | _ | _) | _ | _ | _ | _
  · rw [Answered]
    split
    · exact ⟨rfl, Or.inl rfl⟩
    · rfl
  · rw [Answered, wellAnswered]
    split
    · exact Or.inl rfl
    · rfl
  · rw [Answered, wellAnswered]
    split
    · exact Or.inl rfl
    · rfl
  all_goals rfl

/-- The resource edited to another specification, if that is an edit. -/
def editTo (ns name : String) (spec : Spec) (s : Contest) : Contest :=
  match s.store.get? ns name with
  | none => s
  | some old =>
    if spec.kind = old.kind ∧ Store.sameSpec old { old with spec } = false then
      match s.store.edit ns name (fun r => some { r with spec }) with
      | some (some store) => ⟨store, .edited :: s.story⟩
      | _ => s
    else s

theorem edits_editTo (ns name : String) (spec : Spec) (s : Contest) :
    ReflTransGen (Edit ns name) s (editTo ns name spec s) := by
  unfold editTo
  split
  · exact ReflTransGen.refl
  · rename_i old hold
    split
    · rename_i hspec
      split
      · rename_i store hedit
        exact ReflTransGen.single ⟨old, spec, store, hold, hspec.1, hspec.2, hedit, rfl⟩
      · exact ReflTransGen.refl
    · exact ReflTransGen.refl

/-- All goes well, and the user edits the resource right after the first answer of a
pass. -/
def scripted (kind : Kind) (ns name : String) (info : Option ReleaseInfo) (spec : Spec)
    (c : Call) : StateM Contest c.Answer := fun s =>
  let (a, store) := wellAnswered kind info s.store c
  let s' : Contest := ⟨store, .asked c a :: s.story⟩
  (a, if s.story.length = 1 then editTo ns name spec s' else s')

theorem may_scripted (kind : Kind) (ns name : String) (info : Option ReleaseInfo) (spec : Spec)
    (s : Contest) (c : Call) :
    (conduct kind ns name).may s c (scripted kind ns name info spec c s).1
      (scripted kind ns name info spec c s).2 := by
  refine ⟨(wellAnswered kind info s.store c).2, answered_wellAnswered kind info s.store c, ?_⟩
  unfold scripted
  dsimp only
  split
  · exact edits_editTo ns name spec _
  · exact ReflTransGen.refl

/-- The pass over a resource, computed. -/
def scriptedPass (setup : Setup) (kind : Kind) (ns name : String) (info : Option ReleaseInfo)
    (spec : Spec) (m : Memory) (s : Contest) : (Except PassError Outcome × Memory) × Contest :=
  ((reconcile setup kind ns name).run m).run (scripted kind ns name info spec) s

theorem runs_scriptedPass (setup : Setup) (kind : Kind) (ns name : String)
    (info : Option ReleaseInfo) (spec : Spec) (m : Memory) (s : Contest) :
    Runs (conduct kind ns name) ((reconcile setup kind ns name).run m) s
      (scriptedPass setup kind ns name info spec m s).1
      (scriptedPass setup kind ns name info spec m s).2 :=
  runs_run (may_scripted kind ns name info spec) _ s

end Contest

/-! ### A module to try edits on -/

/-- An operator whose charts lie in a directory, for the class of modules that is always
known. -/
def trialSetup : Setup := ⟨"helm", false, ⟨"/charts", .none⟩, fun _ => none⟩

/-- The values with a number of replicas. -/
def replicas (n : Int) : Json := .ofFields [("replicas", .whole n)]

/-- A module that asks for a version with a number of replicas. -/
def trialSpec (version : String) (n : Int) : Spec :=
  .module ⟨"helm", version, "", [⟨none, none, some (replicas n)⟩]⟩

/-- The module `web` in its first generation, with its finalizer. -/
def trialModule : Resource :=
  { metadata := { Metadata.empty with
      name := some "web"
      namespaceName := some "default"
      uid := some "uid-1"
      generation := some 1
      resourceVersion := some "1"
      finalizers := some [Kind.module.finalizer] }
    spec := trialSpec "0.1.0" 1
    status := none }

/-- The store with nothing but one module named `web`. -/
def trialStore (r : Resource) : Store := ⟨[(("default", "web"), r)], 1, 1⟩

theorem get?_trialStore {ns name : String} {r o : Resource}
    (h : (trialStore r).get? ns name = some o) : (ns, name) = ("default", "web") ∧ o = r := by
  unfold Store.get? trialStore at h
  rw [Table.get?_cons] at h
  split at h
  · rename_i hkey
    exact ⟨hkey, (Option.some.inj h).symm⟩
  · exact absurd h (by simp [Table.get?])

theorem keyed_trialStore_of_kind {r : Resource} {kind : Kind} (hkind : r.kind = kind)
    (hkey : Store.keyOf r = ("default", "web")) : (trialStore r).Keyed kind := by
  intro ns name o h
  obtain ⟨hsame, rfl⟩ := get?_trialStore h
  exact ⟨hkind, hkey.trans hsame.symm⟩

theorem keyed_trialStore {r : Resource} (hkind : r.kind = .module)
    (hkey : Store.keyOf r = ("default", "web")) : (trialStore r).Keyed .module :=
  keyed_trialStore_of_kind hkind hkey

end ReleaseOperator
