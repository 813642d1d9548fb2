import ReleaseOperator.InMemory.Helm
import ReleaseOperator.Proofs.History
import ReleaseOperator.Proofs.Passes
import ReleaseOperator.Proofs.StoreRules

/-!
# An estate on fixed ground

An estate is what a pass can change: the stored resources and the releases. The ground
under it stays as it is: the values in the cluster, the versions of charts, and what
Helm reports as the values of a release. Helm deploys a release at the version asked for,
the workloads are ready, and the class has nothing to add. In trouble any call may fail
without effect, and a workload may not be ready.
-/

namespace ReleaseOperator

open InMemory Program

/-- What no pass changes. -/
structure Ground where
  configMap : String → String → String → Option String
  secret : String → String → String → Option String
  /-- The version of the chart of a release. -/
  chartVersion : Release → String
  /-- The values of a release with the given documents, as Helm reports them. -/
  values : List String → Json

/-- What passes change. -/
@[ext] structure Estate where
  store : Store
  releases : Table ReleaseKey StoredRelease

/-- The release as Helm deploys it for a request. -/
def Ground.deployed (g : Ground) (r : Release) (documents : List String) : StoredRelease :=
  ⟨⟨r.name, r.namespaceName, .deployed,
    if r.chart.version.isEmpty then g.chartVersion r else r.chart.version⟩, documents⟩

/-- An answer is true, or an error in trouble. -/
def Honest {ε α : Type} (trouble : Prop) (truth answer : Except ε α) : Prop :=
  answer = truth ∨ trouble ∧ ∃ e, answer = .error e

theorem Honest.eq {ε α : Type} {truth answer : Except ε α} (h : Honest False truth answer) :
    answer = truth := by
  rcases h with h | ⟨h, _⟩
  · exact h
  · exact h.elim

theorem Honest.ok {ε α : Type} {trouble : Prop} {truth : Except ε α} {a : α}
    (h : Honest trouble truth (.ok a)) : truth = .ok a := by
  rcases h with h | ⟨_, e, h⟩
  · exact h.symm
  · exact absurd h (by simp)

theorem Honest.error {ε α : Type} {trouble : Prop} {truth : Except ε α} {e : ε}
    (h : Honest trouble truth (.error e)) : trouble ∨ truth = .error e := by
  rcases h with h | ⟨ht, _⟩
  · exact Or.inr h.symm
  · exact Or.inl ht

theorem Honest.trouble {ε α : Type} {trouble : Prop} {a : α} {e : ε}
    (h : Honest trouble (.ok a) (.error e)) : trouble :=
  h.error.resolve_right (by simp)

namespace Estate

variable {α β ε : Type} {g : Ground} {trouble : Prop} {s s' : Estate}

/-- What Helm reports as the values of a release. -/
def valuesOf (g : Ground) (s : Estate) (name ns : String) : Except HelmError Json :=
  match s.releases.get? (ns, name) with
  | some r => .ok (g.values r.documents)
  | none => .error (.releaseNotFound name ns)

/-- A release installed or upgraded as requested. -/
def apply (g : Ground) (s : Estate) (request : ReleaseRequest) : Estate :=
  let r := request.release
  ⟨s.store, s.releases.put (r.namespaceName, r.name) (g.deployed r request.documents)⟩

/-- How a call may be answered, and the estate afterwards. -/
def Answered (g : Ground) (trouble : Prop) (s : Estate) :
    (c : Call) → c.Answer → Estate → Prop
  | .store c, a, s' => s'.releases = s.releases ∧ s.store.Answers trouble c a s'.store
  | .cluster (.configMap ns name key), a, s' =>
    s' = s ∧ Honest trouble (.ok (g.configMap ns name key)) a
  | .cluster (.secret ns name key), a, s' =>
    s' = s ∧ Honest trouble (.ok (g.secret ns name key)) a
  | .cluster (.workloadReady _), a, s' => s' = s ∧ (a = .ok true ∨ trouble)
  | .helm (.upgradeOrInstall request), a, s' =>
    (∃ info, a = .ok info ∧ s' = s.apply g request) ∨ s' = s ∧ trouble ∧ ∃ e, a = .error e
  | .helm (.uninstall name ns _), a, s' =>
    (a = .ok () ∧ s' = ⟨s.store, s.releases.erase (ns, name)⟩) ∨
      s' = s ∧ trouble ∧ ∃ e, a = .error e
  | .helm (.releaseInfo name ns), a, s' =>
    s' = s ∧ Honest trouble (.ok ((s.releases.get? (ns, name)).map StoredRelease.info)) a
  | .helm (.values name ns), a, s' => s' = s ∧ Honest trouble (s.valuesOf g name ns) a
  | .helm (.manifest _ ns), a, s' =>
    s' = s ∧ ((∃ text workloads, a = .ok text ∧ Manifest.workloads text ns = .ok workloads) ∨
      trouble ∧ ∃ e, a = .error e)
  | .helm (.chartVersion r _), a, s' => s' = s ∧ Honest trouble (.ok (g.chartVersion r)) a
  | .hook _ _ _, a, s' => s' = s ∧ a = .done
  | .now, _, s' => s' = s
  | .draw _ _ _, _, s' => s' = s
  | .count _, _, s' => s' = s

/-- Answers with which all goes well, or no release comes to be ready. -/
def answer (g : Ground) (ready : Bool) : (c : Call) → StateM Estate c.Answer
  | .store (.get _ ns name) => fun s => (.ok (s.store.get? ns name), s)
  | .store (.update r) => fun s => ((s.store.update r).1, ⟨(s.store.update r).2, s.releases⟩)
  | .store (.updateStatus r) => fun s =>
    ((s.store.updateStatus r).1, ⟨(s.store.updateStatus r).2, s.releases⟩)
  | .cluster (.configMap ns name key) => fun s => (.ok (g.configMap ns name key), s)
  | .cluster (.secret ns name key) => fun s => (.ok (g.secret ns name key), s)
  | .cluster (.workloadReady _) => fun s => (.ok ready, s)
  | .helm (.upgradeOrInstall request) => fun s =>
    (.ok (g.deployed request.release request.documents).info, s.apply g request)
  | .helm (.uninstall name ns _) => fun s => (.ok (), ⟨s.store, s.releases.erase (ns, name)⟩)
  | .helm (.releaseInfo name ns) => fun s =>
    (.ok ((s.releases.get? (ns, name)).map StoredRelease.info), s)
  | .helm (.values name ns) => fun s => (s.valuesOf g name ns, s)
  | .helm (.manifest _ _) => fun s =>
    (if ready then .ok "" else .error (.io "no manifest"), s)
  | .helm (.chartVersion r _) => fun s => (.ok (g.chartVersion r), s)
  | .hook _ _ _ => fun s => (.done, s)
  | .now => fun s => ("", s)
  | .draw low _ ordered => fun s => (⟨low, Pass.low_mem_draw ordered⟩, s)
  | .count _ => fun s => ((), s)

theorem answered_answer (g : Ground) {ready : Bool} (h : ready = true ∨ trouble) (s : Estate)
    (c : Call) : Answered g trouble s c (answer g ready c s).1 (answer g ready c s).2 := by
  rcases c with (_ | _ | _) | (_ | _ | _) | (_ | _ | _ | _ | _ | _) | _ | _ | _ | _
  · exact ⟨rfl, rfl, Or.inl rfl⟩
  · exact ⟨rfl, Or.inl rfl⟩
  · exact ⟨rfl, Or.inl rfl⟩
  · exact ⟨rfl, Or.inl rfl⟩
  · exact ⟨rfl, Or.inl rfl⟩
  · exact ⟨rfl, h.imp_left (congrArg Except.ok)⟩
  · exact Or.inl ⟨_, rfl, rfl⟩
  · exact Or.inl ⟨rfl, rfl⟩
  · exact ⟨rfl, Or.inl rfl⟩
  · exact ⟨rfl, Or.inl rfl⟩
  · refine ⟨rfl, ?_⟩
    cases ready with
    | true => exact Or.inl ⟨"", _, rfl, rfl⟩
    | false => exact Or.inr ⟨h.resolve_left Bool.false_ne_true, _, rfl⟩
  · exact ⟨rfl, Or.inl rfl⟩
  · exact ⟨rfl, rfl⟩
  · rfl
  · rfl
  · rfl

/-- The collaborators of an estate, in trouble or not. -/
def conduct (g : Ground) (trouble : Prop) : Conduct Estate where
  may := Answered g trouble
  answers s c := ⟨_, _, answered_answer g (Or.inl rfl) s c⟩

/-- A call that looks around changes nothing. -/
theorem eq_of_isQuiet {c : Call} {a : c.Answer} (hc : c.isQuiet = true)
    (h : (conduct g trouble).may s c a s') : s' = s := by
  rcases c with (_ | _ | _) | (_ | _ | _) | (_ | _ | _ | _ | _ | _) | _ | _ | _ | _
  · obtain ⟨hreleases, hstore, _⟩ := h
    exact Estate.ext hstore hreleases
  · exact absurd hc Bool.false_ne_true
  · exact absurd hc Bool.false_ne_true
  · exact h.1
  · exact h.1
  · exact h.1
  · exact absurd hc Bool.false_ne_true
  · exact absurd hc Bool.false_ne_true
  · exact h.1
  · exact h.1
  · exact h.1
  · exact h.1
  · exact h.1
  · exact h
  · exact h
  · exact h

theorem always_quiet {p : Pass α} (hp : Pass.Quiet p) :
    Always (conduct g trouble) p s fun _ s' => s' = s := by
  refine hp.always (I := fun t => t = s) ?_ rfl
  intro t c a t' hc hmay ht
  rw [eq_of_isQuiet hc hmay, ht]

/-! ### Looking values up -/

/-- What a look-up comes to, unless a call fails on the way. -/
def Yields (g : Ground) (p : Pass (Except ε α)) (v : Except ε α) : Prop :=
  ∀ trouble s, Always (conduct g trouble) p s fun r s' => s' = s ∧ Honest trouble v r

theorem yields_done (v : Except ε α) : Yields g (.done v) v :=
  fun _ _ => ⟨rfl, Or.inl rfl⟩

theorem exists_yields_bind {x : ExceptT ε Pass α} {f : α → ExceptT ε Pass β}
    (hx : ∃ v, Yields g x.run v) (hf : ∀ a, ∃ v, Yields g (f a).run v) :
    ∃ v, Yields g (x >>= f).run v := by
  obtain ⟨v, hv⟩ := hx
  cases v with
  | error e =>
      refine ⟨.error e, fun trouble s => ?_⟩
      rw [ExceptT.run_bind, always_bind]
      refine (hv trouble s).mono ?_
      rintro r s' ⟨rfl, rfl | ⟨ht, e', rfl⟩⟩
      · exact ⟨rfl, Or.inl rfl⟩
      · exact ⟨rfl, Or.inr ⟨ht, e', rfl⟩⟩
  | ok a =>
      obtain ⟨w, hw⟩ := hf a
      refine ⟨w, fun trouble s => ?_⟩
      rw [ExceptT.run_bind, always_bind]
      refine (hv trouble s).mono ?_
      rintro r s' ⟨rfl, rfl | ⟨ht, e', rfl⟩⟩
      · exact hw trouble s'
      · exact ⟨rfl, Or.inr ⟨ht, e', rfl⟩⟩

theorem exists_yields_resolveKey (kind : SourceKind) (ns : String) (ref : KeyRef) :
    ∃ v, Yields g (Sources.resolveKey kind ns ref).run v := by
  have hlookup : ∃ text, Yields g (Sources.lookup kind ns ref.name ref.key) (.ok text) := by
    cases kind with
    | secret => exact ⟨g.secret ns ref.name ref.key, fun _ _ _ _ h => h⟩
    | configMap => exact ⟨g.configMap ns ref.name ref.key, fun _ _ _ _ h => h⟩
  obtain ⟨text, htext⟩ := hlookup
  refine ⟨Sources.ofAnswer kind ns ref (.ok text), fun trouble s => ?_⟩
  change Always _ (Sources.ofAnswer kind ns ref <$> Sources.lookup kind ns ref.name ref.key) s _
  rw [always_map]
  refine (htext trouble s).mono ?_
  rintro r s' ⟨rfl, rfl | ⟨ht, e, rfl⟩⟩
  · exact ⟨rfl, Or.inl rfl⟩
  · exact ⟨rfl, Or.inr ⟨ht, _, rfl⟩⟩

theorem exists_yields_resolveFrom (ns : String) (index : Nat) (sources : List ValuesSource) :
    ∃ v, Yields g (Sources.resolveFrom ns index sources).run v := by
  induction sources generalizing index with
  | nil => exact ⟨_, yields_done _⟩
  | cons source rest ih =>
      refine exists_yields_bind ?_ fun document => exists_yields_bind (ih _) fun documents =>
        ⟨_, yields_done _⟩
      unfold Sources.resolveOne
      split
      · exact ⟨_, yields_done _⟩
      · split
        · exact exists_yields_resolveKey _ _ _
        · exact exists_yields_resolveKey _ _ _
        · exact ⟨_, yields_done _⟩

theorem exists_yields_requiredSecret (ns name key : String) :
    ∃ v, Yields g (Sources.requiredSecret ns name key).run v := by
  refine ⟨(g.secret ns name key).elim (.error (.missing SourceKind.secret.name ns name key)) .ok,
    ?_⟩
  intro trouble s
  unfold Sources.requiredSecret
  rw [ExceptT.run_mk, always_bind]
  intro a s' hmay
  obtain ⟨rfl, rfl | ⟨ht, e, rfl⟩⟩ := hmay
  · cases g.secret ns name key with
    | some text => exact ⟨rfl, Or.inl rfl⟩
    | none => exact ⟨rfl, Or.inl rfl⟩
  · exact ⟨rfl, Or.inr ⟨ht, _, rfl⟩⟩

theorem exists_yields_credentials (ns : String) (repository : Repository) :
    ∃ v, Yields g (Sources.credentials ns repository).run v := by
  unfold Sources.credentials
  split
  · exact ⟨_, yields_done _⟩
  · exact exists_yields_bind (exists_yields_requiredSecret _ _ _) fun username =>
      exists_yields_bind (exists_yields_requiredSecret _ _ _) fun password => ⟨_, yields_done _⟩

/-- A look-up that comes to a result when nothing fails. -/
theorem Yields.eq_of_always {p : Pass (Except ε α)} {v w : Except ε α} (h : Yields g p v)
    (hw : Always (conduct g False) p s fun r _ => r = w) : v = w := by
  obtain ⟨r, s', _, ⟨⟨_, hv⟩, hr⟩⟩ := ((h False s).and hw).exists
  rw [← hv.eq, hr]

end Estate

end ReleaseOperator
