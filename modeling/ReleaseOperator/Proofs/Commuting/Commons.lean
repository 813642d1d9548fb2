import ReleaseOperator.Proofs.Commuting.Bare
import ReleaseOperator.Proofs.StoreRules

/-!
# A world in common

Passes over different resources share the stores of both kinds and Helm with all releases.
The rest is fixed by rules: what the store refuses depends on the object, what the cluster
says on what it is asked for, and what Helm says and does on the release it is asked about and
on nothing else. The class has nothing to add; the clock and the dice are free.
-/

namespace ReleaseOperator

open InMemory Program

/-- The kind, namespace and name of a resource. -/
structure Address where
  kind : Kind
  namespaceName : String
  name : String
  deriving DecidableEq

/-- Where a resource is kept. -/
def Resource.address (r : Resource) : Address := ⟨r.kind, r.namespaceName, r.name⟩

/-- What can be asked of the store. -/
inductive StoreVerb where
  | get
  | update
  | updateStatus
  deriving DecidableEq

/-- The name and namespace of the release that a call is about. -/
def HelmCall.place : HelmCall → String × String
  | upgradeOrInstall request => request.release.place
  | uninstall name ns _ => (name, ns)
  | releaseInfo name ns => (name, ns)
  | values name ns => (name, ns)
  | manifest name ns => (name, ns)
  | chartVersion r _ => r.place

/-- What passes share and change. A release is whatever Helm keeps about it. -/
structure Commons (H : Type) where
  store : Kind → Store
  releases : String × String → H

namespace Commons

variable {H : Type}

/-- The resource at an address. -/
def find (s : Commons H) (x : Address) : Option Resource :=
  (s.store x.kind).get? x.namespaceName x.name

/-- The commons with another store of a kind. -/
def setStore (s : Commons H) (kind : Kind) (new : Store) : Commons H :=
  { s with store := fun k => if k = kind then new else s.store k }

/-- The commons with a release as it has become. -/
def setRelease (s : Commons H) (place : String × String) (new : H) : Commons H :=
  { s with releases := fun p => if p = place then new else s.releases p }

/-- The answer to a write and the commons afterwards, given what the store of a kind makes of
it. A refused write has no effect. -/
def write (s : Commons H) (refusal : Option ClusterError) (kind : Kind)
    (made : Except ClusterError Resource × Store) : Except ClusterError Resource × Commons H :=
  match refusal with
  | some e => (.error e, s)
  | none => (made.1, s.setStore kind made.2)

/-- Every resource is kept where it says. -/
def Keyed (s : Commons H) : Prop := ∀ kind, (s.store kind).Keyed kind

theorem Keyed.address {s : Commons H} (h : s.Keyed) {x : Address} {o : Resource}
    (ho : s.find x = some o) : o.address = x := by
  obtain ⟨hkind, hkey⟩ := h x.kind x.namespaceName x.name o ho
  injection hkey with hns hname
  rw [Resource.address, hkind, hns, hname]

/-- Two stores have come to the same revision, and so has what they keep at an address. -/
structure Aligned (x : Address) (s t : Commons H) : Prop where
  revision : (s.store x.kind).revision = (t.store x.kind).revision
  stored : (s.find x).map (fun o => o.metadata.resourceVersion) =
    (t.find x).map fun o => o.metadata.resourceVersion

theorem setStore_self (s : Commons H) (kind : Kind) : s.setStore kind (s.store kind) = s := by
  rw [setStore]
  congr
  funext k
  split
  · rename_i h
    rw [h]
  · rfl

end Commons

/-- What the collaborators do, each by what it is asked about. -/
structure Rules (H : Type) where
  /-- The error with which the store refuses a call for an object, if it does. -/
  refusal : StoreVerb → Address → Option ClusterError
  cluster : (c : ClusterCall) → c.Answer
  /-- The answer of Helm about a release, and the release afterwards. -/
  helm : (c : HelmCall) → H → c.Answer × H

namespace Rules

variable {H : Type}

/-- How a call may be answered, and the commons afterwards. -/
def Answered (rules : Rules H) (s : Commons H) : (c : Call) → c.Answer → Commons H → Prop
  | .store (.get kind ns name), a, s' =>
    a = (match rules.refusal .get ⟨kind, ns, name⟩ with
      | some e => .error e
      | none => .ok (s.find ⟨kind, ns, name⟩)) ∧ s' = s
  | .store (.update r), a, s' =>
    (a, s') = s.write (rules.refusal .update r.address) r.kind ((s.store r.kind).update r)
  | .store (.updateStatus r), a, s' =>
    (a, s') =
      s.write (rules.refusal .updateStatus r.address) r.kind ((s.store r.kind).updateStatus r)
  | .cluster c, a, s' => a = rules.cluster c ∧ s' = s
  | .helm c, a, s' =>
    a = (rules.helm c (s.releases c.place)).1 ∧
      s' = s.setRelease c.place (rules.helm c (s.releases c.place)).2
  | .hook _ _ _, a, s' => a = .done ∧ s' = s
  | .now, _, s' => s' = s
  | .draw _ _ _, _, s' => s' = s
  | .count _, _, s' => s' = s

/-- Answers by the rules, at a time and with the shortest delays. -/
def answer (rules : Rules H) (time : String) : (c : Call) → StateM (Commons H) c.Answer
  | .store (.get kind ns name) => fun s =>
    (match rules.refusal .get ⟨kind, ns, name⟩ with
      | some e => .error e
      | none => .ok (s.find ⟨kind, ns, name⟩), s)
  | .store (.update r) => fun s =>
    s.write (rules.refusal .update r.address) r.kind ((s.store r.kind).update r)
  | .store (.updateStatus r) => fun s =>
    s.write (rules.refusal .updateStatus r.address) r.kind ((s.store r.kind).updateStatus r)
  | .cluster c => fun s => (rules.cluster c, s)
  | .helm c => fun s =>
    ((rules.helm c (s.releases c.place)).1,
      s.setRelease c.place (rules.helm c (s.releases c.place)).2)
  | .hook _ _ _ => fun s => (.done, s)
  | .now => fun s => (time, s)
  | .draw low _ ordered => fun s => (⟨low, Pass.low_mem_draw ordered⟩, s)
  | .count _ => fun s => ((), s)

theorem answered_answer (rules : Rules H) (time : String) (s : Commons H) (c : Call) :
    rules.Answered s c (rules.answer time c s).1 (rules.answer time c s).2 := by
  rcases c with (_ | _ | _) | _ | _ | _ | _ | _ | _
  · exact ⟨rfl, rfl⟩
  · exact rfl
  · exact rfl
  · exact ⟨rfl, rfl⟩
  · exact ⟨rfl, rfl⟩
  · exact ⟨rfl, rfl⟩
  · exact rfl
  · exact rfl
  · exact rfl

/-- The conduct of the collaborators under the rules. -/
def conduct (rules : Rules H) : Conduct (Commons H) where
  may s c a s' := rules.Answered s c a s'
  answers s c := ⟨_, _, rules.answered_answer "" s c⟩

end Rules

/-! ### Two worlds that agree on a site -/

/-- Where a resource is kept, and where its release is if it has one. -/
structure Site where
  address : Address
  place? : Option (String × String)

namespace Site

variable {H : Type} {x : Site} {s s' s₀ t t' t₀ : Commons H} {r r' w w' : Resource}

/-- A resource belongs to a site. -/
def Holds (x : Site) (r : Resource) : Prop :=
  r.address = x.address ∧ x.place? = some r.releasePlace

theorem Holds.of_bare (h : x.Holds r) (hr : r.bare = r'.bare) : x.Holds r' := by
  have haddress : r.address = r'.address := Resource.eq_of_bare (fun _ => rfl) hr
  have hplace : r.releasePlace = r'.releasePlace := Resource.eq_of_bare (fun _ => rfl) hr
  exact ⟨haddress ▸ h.1, hplace ▸ h.2⟩

/-- One world is as another was, but for a site. -/
structure Frame (x : Site) (s₀ s : Commons H) : Prop where
  stored : ∀ y, y ≠ x.address → s.find y = s₀.find y
  releases : ∀ p, x.place? ≠ some p → s.releases p = s₀.releases p

/-- Two worlds agree on a site, and have changed nowhere else since they were `s₀` and `t₀`. If
they were aligned then, they still are. -/
structure Level (x : Site) (s₀ t₀ s t : Commons H) : Prop where
  stored : (s.find x.address).map Resource.bare = (t.find x.address).map Resource.bare
  held : ∀ o, s.find x.address = some o → x.Holds o
  release : ∀ p, x.place? = some p → s.releases p = t.releases p
  left : x.Frame s₀ s
  right : x.Frame t₀ t
  aligned : s₀.Aligned x.address t₀ → s.Aligned x.address t

/-- Copies in hand of the resource at a site, in two worlds that agree on it. They differ in
their revisions, and each has the one that is stored. -/
structure Hand (x : Site) (s₀ t₀ : Commons H) (r r' : Resource) (s t : Commons H) : Prop
    extends level : x.Level s₀ t₀ s t where
  like : r.bare = r'.bare
  holds : x.Holds r
  fresh : ∀ o, s.find x.address = some o → o.metadata.resourceVersion = r.metadata.resourceVersion
  fresh' : ∀ o, t.find x.address = some o →
    o.metadata.resourceVersion = r'.metadata.resourceVersion

/-- Copies that were changed at hand, with their revisions and their place kept. -/
theorem Hand.change (h : x.Hand s₀ t₀ r r' s t) (hlike : w.bare = w'.bare)
    (haddress : w.address = r.address) (hplace : w.releasePlace = r.releasePlace)
    (hrev : w.metadata.resourceVersion = r.metadata.resourceVersion)
    (hrev' : w'.metadata.resourceVersion = r'.metadata.resourceVersion) :
    x.Hand s₀ t₀ w w' s t where
  level := h.level
  like := hlike
  holds := ⟨haddress.trans h.holds.1, hplace ▸ h.holds.2⟩
  fresh o ho := (h.fresh o ho).trans hrev.symm
  fresh' o ho := (h.fresh' o ho).trans hrev'.symm

/-- What is read from the store at a site is a copy in hand. -/
theorem Level.hand (h : x.Level s₀ t₀ s t) (hr : s.find x.address = some r)
    (hr' : t.find x.address = some r') : x.Hand s₀ t₀ r r' s t where
  level := h
  like := by
    have hstored := h.stored
    rw [hr, hr'] at hstored
    exact Option.some.inj hstored
  holds := h.held r hr
  fresh o ho := by
    rw [hr] at ho
    rw [Option.some.inj ho]
  fresh' o ho := by
    rw [hr'] at ho
    rw [Option.some.inj ho]

/-- A call to Helm about the release of a site. -/
theorem Hand.setRelease {c : HelmCall} (h : x.Hand s₀ t₀ r r' s t)
    (hplace : x.place? = some c.place) (new : H) :
    x.Hand s₀ t₀ r r' (s.setRelease c.place new) (t.setRelease c.place new) where
  stored := h.stored
  held := h.held
  release p hp := by
    rw [hplace] at hp
    rw [Commons.setRelease, Commons.setRelease]
    dsimp only
    rw [if_pos (Option.some.inj hp).symm, if_pos (Option.some.inj hp).symm]
  left := by
    refine ⟨h.left.stored, fun p hp => ?_⟩
    have hne : p ≠ c.place := fun e => hp (e ▸ hplace)
    exact (if_neg hne).trans (h.left.releases p hp)
  right := by
    refine ⟨h.right.stored, fun p hp => ?_⟩
    have hne : p ≠ c.place := fun e => hp (e ▸ hplace)
    exact (if_neg hne).trans (h.right.releases p hp)
  aligned h₀ := ⟨(h.aligned h₀).revision, (h.aligned h₀).stored⟩
  like := h.like
  holds := h.holds
  fresh := h.fresh
  fresh' := h.fresh'

end Site

/-! ### Writing -/

namespace InMemory.Store

variable {s : Store} {r old new : Resource} {ns name : String}

/-- The store with what a write has made of a resource: it takes the place of what was stored,
unless the resource is to be gone. -/
def land (s : Store) (new : Resource) (gone : Bool) : Store :=
  { s with
    objects := if gone then s.objects.erase (keyOf new) else s.objects.put (keyOf new) new
    revision := s.revision + 1 }

theorem get?_land (gone : Bool) :
    (s.land new gone).get? ns name =
      if (ns, name) = keyOf new then (if gone then none else some new) else s.get? ns name := by
  rw [get?, land]
  dsimp only
  by_cases h : (ns, name) = keyOf new
  · rw [if_pos h, h]
    cases gone with
    | true => exact Table.get?_erase_self
    | false => exact Table.get?_put_self
  · rw [if_neg h]
    cases gone with
    | true => exact Table.get?_erase_of_ne h
    | false => exact Table.get?_put_of_ne h

/-- A write that makes something of what is stored. -/
def revise (s : Store) (r : Resource) (make : Resource → Resource) (gone : Resource → Bool) :
    Except ClusterError Resource × Store :=
  match s.current r with
  | .error e => (.error e, s)
  | .ok old => (.ok (make old), s.land (make old) (gone (make old)))

theorem update_eq_revise (s : Store) (r : Resource) :
    s.update r = s.revise r (fun old => s.merged old r)
      fun new => new.isDeleting && new.finalizers.isEmpty := rfl

theorem updateStatus_eq_revise (s : Store) (r : Resource) :
    s.updateStatus r =
      s.revise r (fun old => withStatusOf old r (s.revision + 1)) fun _ => false := rfl

variable {make : Resource → Resource} {gone : Resource → Bool}

theorem revise_of_get?_eq_none (h : s.get? r.namespaceName r.name = none) :
    s.revise r make gone = (.error (.notFound (r.namespaceName ++ "/" ++ r.name)), s) := by
  have hcurrent : s.current r = .error (.notFound (r.namespaceName ++ "/" ++ r.name)) := by
    unfold current keyOf
    dsimp only
    rw [h]
  rw [revise, hcurrent]

theorem revise_of_get? (h : s.get? r.namespaceName r.name = some old)
    (hrev : old.metadata.resourceVersion = r.metadata.resourceVersion) :
    s.revise r make gone = (.ok (make old), s.land (make old) (gone (make old))) := by
  rw [revise, current_of_get? h hrev]

end InMemory.Store

/-- The commons with what a write has made of a resource. -/
def Commons.land {H : Type} (s : Commons H) (new : Resource) (gone : Bool) : Commons H :=
  s.setStore new.kind ((s.store new.kind).land new gone)

theorem Commons.find_land {H : Type} (s : Commons H) (new : Resource) (gone : Bool) (y : Address) :
    (s.land new gone).find y =
      if y = new.address then (if gone then none else some new) else s.find y := by
  rw [land, find, setStore]
  dsimp only
  by_cases hkind : y.kind = new.kind
  · rw [if_pos hkind, Store.get?_land, find, hkind]
    by_cases hkey : (y.namespaceName, y.name) = Store.keyOf new
    · injection hkey with hns hname
      have hy : y = new.address := by rw [Resource.address, ← hkind, ← hns, ← hname]
      rw [if_pos hy, hns, hname]
      exact if_pos rfl
    · rw [if_neg hkey, if_neg]
      intro hy
      exact hkey (congrArg (fun z : Address => (z.namespaceName, z.name)) hy)
  · rw [if_neg hkind, if_neg fun hy => hkind (congrArg Address.kind hy)]
    rfl

namespace Site

variable {H : Type} {x : Site} {s u s₀ t u' t₀ : Commons H} {w w' new new' : Resource}
  {a a' : Except ClusterError Resource}

theorem Frame.land (h : x.Frame s₀ s) (hnew : new.address = x.address) (gone : Bool) :
    x.Frame s₀ (s.land new gone) := by
  refine ⟨fun y hy => ?_, h.releases⟩
  rw [Commons.find_land, if_neg (hnew ▸ hy), h.stored y hy]

/-- Writes that make something alike land alike, and what is stored then is in hand. Each gets
the next revision of its store. -/
theorem Level.land (h : x.Level s₀ t₀ s t) (hnew : x.Holds new) (hlike : new.bare = new'.bare)
    (hrev : new.metadata.resourceVersion = some (toString ((s.store new.kind).revision + 1)))
    (hrev' : new'.metadata.resourceVersion = some (toString ((t.store new'.kind).revision + 1)))
    (gone : Bool) : x.Hand s₀ t₀ new new' (s.land new gone) (t.land new' gone) := by
  have hnew' := hnew.of_bare hlike
  have hthere : (s.land new gone).find x.address = if gone then none else some new := by
    rw [Commons.find_land, if_pos hnew.1.symm]
  have hthere' : (t.land new' gone).find x.address = if gone then none else some new' := by
    rw [Commons.find_land, if_pos hnew'.1.symm]
  have honly : ∀ {o n : Resource}, (if gone then none else some n) = some o → n = o := by
    intro o n ho
    cases gone with
    | true => exact absurd ho (by simp)
    | false => exact Option.some.inj ho
  have hkind : new.kind = x.address.kind := congrArg Address.kind hnew.1
  have hkind' : new'.kind = x.address.kind := congrArg Address.kind hnew'.1
  have haligned : s₀.Aligned x.address t₀ →
      (s.land new gone).Aligned x.address (t.land new' gone) := by
    intro h₀
    have hrevision := (h.aligned h₀).revision
    rw [hkind] at hrev
    rw [hkind', ← hrevision] at hrev'
    have hnext : ∀ (w : Commons H) (n : Resource), n.kind = x.address.kind →
        ((w.land n gone).store x.address.kind).revision =
          (w.store x.address.kind).revision + 1 := by
      rintro w n hn
      rw [Commons.land, Commons.setStore]
      dsimp only
      rw [if_pos hn.symm, hn]
      rfl
    refine ⟨?_, ?_⟩
    · rw [hnext s new hkind, hnext t new' hkind', hrevision]
    · rw [hthere, hthere']
      cases gone with
      | true => rfl
      | false => exact congrArg some (hrev.trans hrev'.symm)
  refine ⟨⟨?_, ?_, h.release, h.left.land hnew.1 gone, h.right.land hnew'.1 gone, haligned⟩, hlike,
    hnew, ?_, ?_⟩
  · rw [hthere, hthere']
    cases gone with
    | true => rfl
    | false => exact congrArg some hlike
  · intro o ho
    exact honly (hthere.symm.trans ho) ▸ hnew
  · intro o ho
    rw [honly (hthere.symm.trans ho)]
  · intro o ho
    rw [honly (hthere'.symm.trans ho)]

/-- Two writes at a site come out alike: both fail without effect, or both copies are the
stored ones. -/
def Written (x : Site) (s₀ t₀ s t : Commons H) (a : Except ClusterError Resource) (u : Commons H)
    (a' : Except ClusterError Resource) (u' : Commons H) : Prop :=
  (∃ e, a = .error e ∧ a' = .error e ∧ u = s ∧ u' = t) ∨
    ∃ new new', a = .ok new ∧ a' = .ok new' ∧ x.Hand s₀ t₀ new new' u u'

/-- Two writes of copies in hand come out alike: neither meets a conflict. -/
theorem Hand.written (h : x.Hand s₀ t₀ w w' s t) {refusal : Option ClusterError}
    {make make' : Resource → Resource} {gone : Resource → Bool}
    (hmake : ∀ o o', o.bare = o'.bare → (make o).bare = (make' o').bare)
    (hholds : ∀ o, x.Holds o → x.Holds (make o)) (hgone : ∀ r, gone r.bare = gone r)
    (hrev : ∀ o, (make o).metadata.resourceVersion =
      some (toString ((s.store w.kind).revision + 1)))
    (hrev' : ∀ o, (make' o).metadata.resourceVersion =
      some (toString ((t.store w'.kind).revision + 1)))
    (hs : (a, u) = s.write refusal w.kind ((s.store w.kind).revise w make gone))
    (ht : (a', u') = t.write refusal w'.kind ((t.store w'.kind).revise w' make' gone)) :
    x.Written s₀ t₀ s t a u a' u' := by
  have hholds' := h.holds.of_bare h.like
  have hfind : s.find x.address = (s.store w.kind).get? w.namespaceName w.name :=
    congrArg s.find h.holds.1.symm
  have hfind' : t.find x.address = (t.store w'.kind).get? w'.namespaceName w'.name :=
    congrArg t.find hholds'.1.symm
  have hstored := h.stored
  cases refusal with
  | some e =>
      injection hs with ha hu
      injection ht with ha' hu'
      exact Or.inl ⟨e, ha, ha', hu, hu'⟩
  | none =>
      cases hold : s.find x.address with
      | none =>
          rw [hold, Option.map_none, eq_comm, Option.map_eq_none_iff] at hstored
          rw [Store.revise_of_get?_eq_none (hfind.symm.trans hold)] at hs
          rw [Store.revise_of_get?_eq_none (hfind'.symm.trans hstored)] at ht
          injection hs with ha hu
          injection ht with ha' hu'
          have hns : w.namespaceName = w'.namespaceName :=
            congrArg Address.namespaceName (h.holds.1.trans hholds'.1.symm)
          have hname : w.name = w'.name := congrArg Address.name (h.holds.1.trans hholds'.1.symm)
          rw [← hns, ← hname] at ha'
          exact Or.inl ⟨_, ha, ha', hu.trans (Commons.setStore_self s w.kind),
            hu'.trans (Commons.setStore_self t w'.kind)⟩
      | some old =>
          rw [hold, Option.map_some, eq_comm, Option.map_eq_some_iff] at hstored
          obtain ⟨old', hold', hbare⟩ := hstored
          -- Each copy has the revision that is stored in its own world, so neither is refused.
          rw [Store.revise_of_get? (hfind.symm.trans hold) (h.fresh old hold)] at hs
          rw [Store.revise_of_get? (hfind'.symm.trans hold') (h.fresh' old' hold')] at ht
          injection hs with ha hu
          injection ht with ha' hu'
          have hlike : (make old).bare = (make' old').bare := hmake old old' hbare.symm
          have hnew : x.Holds (make old) := hholds old (h.held old hold)
          have hkind : w.kind = (make old).kind :=
            congrArg Address.kind (h.holds.1.trans hnew.1.symm)
          have hkind' : w'.kind = (make' old').kind :=
            congrArg Address.kind (hholds'.1.trans (hnew.of_bare hlike).1.symm)
          dsimp only at hu hu'
          have hnext := hrev old
          have hnext' := hrev' old'
          rw [hkind] at hu hnext
          rw [hkind', ← Resource.eq_of_bare hgone hlike] at hu'
          rw [hkind'] at hnext'
          refine Or.inr ⟨make old, make' old', ha, ha', ?_⟩
          rw [hu, hu']
          exact h.level.land hnew hlike hnext hnext' (gone (make old))

end Site

end ReleaseOperator
