import ReleaseOperator.Proofs.Estate.Sound

/-!
# A new module and what becomes of it

While a new module is installed it gets the finalizer of its kind, and a version if it
did not name one. Everything else that is asked for stays as it was.
-/

namespace ReleaseOperator

open InMemory Program Situation

namespace Estate

variable {g : Ground} {setup : Setup} {o r r' : Resource} {own : List Json}

/-- The version that a resource is to be installed at: where it asks for none, that of its
chart. -/
def askedVersion (g : Ground) (setup : Setup) (r : Resource) : String :=
  if r.desiredVersion.isEmpty then g.chartVersion (r.release setup.defaults) else r.desiredVersion

theorem askedVersion_of_named (h : r.desiredVersion.isEmpty = false) :
    askedVersion g setup r = r.desiredVersion := by
  rw [askedVersion, h, if_neg Bool.false_ne_true]

/-- A resource that differs from what it was in its revision, in the finalizer, and in the
version that it did not name. -/
structure Kin (g : Ground) (setup : Setup) (o r : Resource) : Prop where
  spec : r.spec = o.spec ∨ o.desiredVersion.isEmpty = true ∧ r.spec = (pinned g setup o).spec
  metadata : ∃ fs gen n, r.metadata =
    { o.metadata with finalizers := fs, generation := gen, resourceVersion := n }
  finalizers : r.finalizers = o.finalizers ∨
    o.hasFinalizer = false ∧ r.finalizers = o.finalizers ++ [Kind.module.finalizer]

namespace Kin

theorem refl (o : Resource) : Kin g setup o o :=
  ⟨Or.inl rfl, ⟨_, _, _, rfl⟩, Or.inl rfl⟩

theorem kind (h : Kin g setup o r) : r.kind = o.kind := by
  rcases h.spec with hspec | ⟨_, hspec⟩
  · rw [Resource.kind, hspec]
    rfl
  · rw [Resource.kind, hspec]
    exact o.kind_setDesiredVersion _

theorem place (h : Kin g setup o r) : r.namespaceName = o.namespaceName ∧ r.name = o.name := by
  obtain ⟨fs, gen, n, hmeta⟩ := h.metadata
  rw [Resource.namespaceName, Resource.name, hmeta]
  exact ⟨rfl, rfl⟩

theorem overrides (h : Kin g setup o r) : r.overrides = o.overrides := by
  rcases h.spec with hspec | ⟨_, hspec⟩
  · rw [Resource.overrides, hspec]
    rfl
  · rw [Resource.overrides, hspec]
    rcases o with ⟨_, _ | _, _⟩
    · rfl
    · rfl

theorem restated (h : Kin g setup o r) (hr : r.Restated r') : Kin g setup o r' := by
  obtain ⟨n, status, rfl⟩ := hr
  obtain ⟨fs, gen, n', hmeta⟩ := h.metadata
  refine ⟨h.spec, ⟨fs, gen, n, ?_⟩, h.finalizers⟩
  rw [hmeta]

theorem exists_spec (h : Kin g setup o r) (hkind : o.kind = .module) :
    ∃ sp version, o.spec = .module sp ∧ r.spec = .module { sp with version } := by
  rcases o with ⟨om, ⟨sp⟩ | ⟨sp⟩, ost⟩
  · rcases h.spec with hspec | ⟨_, hspec⟩
    · exact ⟨sp, sp.version, rfl, hspec⟩
    · exact ⟨sp, _, rfl, hspec⟩
  · exact absurd hkind (by simp [Resource.kind, Spec.kind])

/-- The release is the same but for its version. -/
theorem sameRelease (h : Kin g setup o r) (hkind : o.kind = .module) :
    r.releaseKey setup = o.releaseKey setup ∧
      (r.release setup.defaults).repository = (o.release setup.defaults).repository := by
  obtain ⟨hns, hname⟩ := h.place
  obtain ⟨sp, version, hospec, hrspec⟩ := h.exists_spec hkind
  rw [Resource.releaseKey, Resource.releaseKey, Resource.release, Resource.release, hospec, hrspec,
    hns, hname]
  exact ⟨rfl, rfl⟩

theorem provided (h : Kin g setup o r) (hkind : o.kind = .module) (hown : Resolves g o own)
    (hcredited : Credited g setup o) :
    Provided g setup r ((setup.baseValues (r.release setup.defaults)).toList ++ own) := by
  refine ⟨?_, own, ?_, rfl⟩
  · rw [Credited, h.place.1, (h.sameRelease hkind).2]
    exact hcredited
  · rw [Resolves, h.place.1, h.overrides]
    exact hown

/-- The version is the one asked for, or still left open. -/
theorem version (h : Kin g setup o r) (hkind : o.kind = .module) :
    r.desiredVersion = Text.trim (askedVersion g setup o) ∨
      r.desiredVersion.isEmpty = true ∧ o.desiredVersion.isEmpty = true ∧ r.spec = o.spec := by
  unfold askedVersion
  rcases h.spec with hspec | ⟨hempty, hspec⟩
  · rw [Resource.desiredVersion_congr hspec]
    cases hempty : o.desiredVersion.isEmpty with
    | true => exact Or.inr ⟨rfl, rfl, hspec⟩
    | false => exact Or.inl (trim_desiredVersion o).symm
  · left
    rw [hempty, if_pos rfl, Resource.desiredVersion, hspec]
    rcases o with ⟨_, _ | _, _⟩
    · rfl
    · exact absurd hkind (by simp [Resource.kind, Spec.kind])

/-- A version that was left open is pinned. -/
theorem pin (h : Kin g setup o r) (hspec : r.spec = o.spec)
    (hempty : o.desiredVersion.isEmpty = true)
    (hw : r.Rewritten (pinned g setup r) r') : Kin g setup o r' := by
  obtain ⟨n, gen, _, rfl⟩ := hw
  have hmeta : (pinned g setup r).metadata = r.metadata := Resource.metadata_setDesiredVersion _ _
  obtain ⟨hns, hname⟩ := h.place
  have hrelease := Resource.release_congr hspec hns hname setup.defaults
  have hpinned : (pinned g setup r).spec = (pinned g setup o).spec := by
    rw [pinned, pinned, hrelease, Resource.setDesiredVersion, Resource.setDesiredVersion, hspec]
    cases o.spec with
    | module sp => rfl
    | action sp => rfl
  refine ⟨Or.inr ⟨hempty, hpinned⟩, ?_, ?_⟩
  · obtain ⟨fs, gen', n', hold⟩ := h.metadata
    rw [hmeta, hold]
    exact ⟨_, _, _, rfl⟩
  · rw [Resource.finalizers, hmeta]
    exact h.finalizers

/-- The finalizer is put on. -/
theorem hold (h : Kin g setup o r) (hkind : o.kind = .module) (hno : r.hasFinalizer = false)
    (hw : r.Rewritten r.addFinalizer r') : Kin g setup o r' := by
  obtain ⟨n, gen, _, rfl⟩ := hw
  have hadd : r.addFinalizer = r.setFinalizers (r.finalizers ++ [r.kind.finalizer]) := by
    rw [Resource.addFinalizer, if_neg]
    rw [hno]
    exact Bool.false_ne_true
  rw [hadd, h.kind, hkind]
  have hofinalizers : r.finalizers = o.finalizers := by
    rcases h.finalizers with hsame | ⟨_, hadded⟩
    · exact hsame
    · rw [Resource.hasFinalizer, hadded, h.kind, hkind] at hno
      simp at hno
  refine ⟨h.spec, ?_, Or.inr ⟨?_, ?_⟩⟩
  · obtain ⟨fs, gen', n', hold⟩ := h.metadata
    rw [Resource.setFinalizers, hold]
    exact ⟨_, _, _, rfl⟩
  · rw [Resource.hasFinalizer, hofinalizers, h.kind] at hno
    exact hno
  · rw [← hofinalizers]
    rfl

/-- The finalizer is there once, and the others are as they were. -/
theorem held (h : Kin g setup o r) (hkind : o.kind = .module) (hheld : r.hasFinalizer = true)
    (honce : o.finalizers.count Kind.module.finalizer ≤ 1) :
    r.finalizers.count Kind.module.finalizer = 1 ∧
      (r.finalizers.filter fun f => f ≠ Kind.module.finalizer) =
        o.finalizers.filter fun f => f ≠ Kind.module.finalizer := by
  rw [Resource.hasFinalizer, h.kind, hkind, List.contains_iff_mem] at hheld
  rcases h.finalizers with hsame | ⟨hno, hadded⟩
  · rw [hsame] at hheld ⊢
    have hpos := List.count_pos_iff.2 hheld
    exact ⟨by omega, rfl⟩
  · have hzero : o.finalizers.count Kind.module.finalizer = 0 := by
      apply List.count_eq_zero.2
      intro hmem
      rw [Resource.hasFinalizer, hkind, List.contains_iff_mem.2 hmem] at hno
      exact absurd hno.symm Bool.false_ne_true
    rw [hadded]
    constructor
    · rw [List.count_append, hzero]
      simp
    · rw [List.filter_append]
      simp

end Kin

end Estate

end ReleaseOperator
