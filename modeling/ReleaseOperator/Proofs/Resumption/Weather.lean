import ReleaseOperator.Proofs.Estate.Writes
import ReleaseOperator.Proofs.Invariants

/-!
# What an action goes through

Passes over an action in any weather: calls fail, Helm leaves releases behind in whatever
status, workloads come and go, and the operator is started anew between the passes. All this
changes how far the action is, but never what it asks for, as long as it names a version: no
pass writes anything else into a resource than its status, its finalizer and a version that
was left open.
-/

namespace ReleaseOperator

open InMemory Program Work

namespace Resource

/-- A resource that asks for the same under the same name. -/
structure SameRequest (r r' : Resource) : Prop where
  spec : r'.spec = r.spec
  namespaceName : r'.namespaceName = r.namespaceName
  name : r'.name = r.name
  deletion : r'.metadata.deletionTime = r.metadata.deletionTime

namespace SameRequest

variable {r r' w : Resource} {setup : Setup}

theorem refl (r : Resource) : r.SameRequest r := ⟨rfl, rfl, rfl, rfl⟩

theorem kind (h : r.SameRequest r') : r'.kind = r.kind := congrArg Spec.kind h.spec

theorem wish (h : r.SameRequest r') : r'.wish = r.wish := by
  rw [Resource.wish, Resource.wish, h.spec]

theorem className (h : r.SameRequest r') : r'.className = r.className := by
  rw [Resource.className, Resource.className, h.spec]

theorem isDeleting (h : r.SameRequest r') : r'.isDeleting = r.isDeleting :=
  congrArg Option.isSome h.deletion

theorem desiredVersion (h : r.SameRequest r') : r'.desiredVersion = r.desiredVersion :=
  desiredVersion_congr h.spec

theorem release (h : r.SameRequest r') (defaults : ChartDefaults) :
    r'.release defaults = r.release defaults :=
  release_congr h.spec h.namespaceName h.name defaults

theorem releaseKey (h : r.SameRequest r') (setup : Setup) :
    r'.releaseKey setup = r.releaseKey setup := by
  rw [Resource.releaseKey, Resource.releaseKey, h.release]

theorem overrides (h : r.SameRequest r') : r'.overrides = r.overrides := by
  rw [Resource.overrides, Resource.overrides, h.spec]

/-- A write of the status changes nothing that is asked for. -/
theorem restated (h : r.SameRequest r') (hr : r'.Restated w) : r.SameRequest w := by
  obtain ⟨n, status, rfl⟩ := hr
  exact ⟨h.spec, h.namespaceName, h.name, h.deletion⟩

theorem recorded {j : Job} {reason : Reason} (h : r.SameRequest j.resource)
    (hw : j.Recorded reason w) : r.SameRequest w := by
  refine ⟨hw.spec.trans h.spec, hw.namespaceName.trans h.namespaceName, hw.name.trans h.name, ?_⟩
  rw [hw.metadata]
  exact h.deletion

theorem addFinalizer (h : r.SameRequest r') : r.SameRequest r'.addFinalizer := by
  unfold Resource.addFinalizer
  split
  · exact h
  · exact ⟨h.spec, h.namespaceName, h.name, h.deletion⟩

/-- A write of the whole resource keeps what the copy asks for. -/
theorem rewritten {old : Resource} (h : r.SameRequest w) (hold : r.SameRequest old)
    (hr : old.Rewritten w r') : r.SameRequest r' := by
  obtain ⟨n, gen, _, rfl⟩ := hr
  exact ⟨h.spec, h.namespaceName, h.name, hold.deletion⟩

end SameRequest

end Resource

namespace Estate

variable {g : Ground} {setup : Setup} {ns name : String} {o r : Resource} {j : Job}
  {m m' : Memory} {s s' : Estate} {c : Call} {a : c.Answer}

/-- How calls may be answered in any weather: the store keeps its rules or refuses, and
everything else may be answered in whatever way, with whatever becoming of the releases. -/
def Stormy (s : Estate) : (c : Call) → c.Answer → Estate → Prop
  | .store c, a, s' => s'.releases = s.releases ∧ s.store.Answers True c a s'.store
  | _, _, s' => s'.store = s.store

theorem stormy_of_answered (h : Answered g True s c a s') : Stormy s c a s' := by
  rcases c with _ | (_ | _ | _) | (_ | _ | _ | _ | _ | _) | _ | _ | _ | _
  · exact h
  · exact congrArg Estate.store h.1
  · exact congrArg Estate.store h.1
  · exact congrArg Estate.store h.1
  · rcases h with ⟨_, _, rfl⟩ | ⟨rfl, _⟩
    · rfl
    · rfl
  · rcases h with ⟨_, rfl⟩ | ⟨rfl, _⟩
    · rfl
    · rfl
  · exact congrArg Estate.store h.1
  · exact congrArg Estate.store h.1
  · exact congrArg Estate.store h.1
  · exact congrArg Estate.store h.1
  · exact congrArg Estate.store h.1
  · exact congrArg Estate.store h
  · exact congrArg Estate.store h
  · exact congrArg Estate.store h

/-- The collaborators in any weather. -/
def storm : Conduct Estate where
  may := Stormy
  answers s c := ⟨_, _, stormy_of_answered (answered_answer
    ⟨fun _ _ _ => none, fun _ _ _ => none, fun _ => "", fun _ => .null⟩ (Or.inl rfl) s c)⟩

/-- Passes over an action in any weather, with restarts between them. -/
inductive Weathered (setup : Setup) (ns name : String) (m : Memory) (s : Estate) :
    Memory → Estate → Prop
  | start : Weathered setup ns name m s m s
  | pass {m' m'' : Memory} {s' s'' : Estate} {result : Except PassError Outcome}
      (h : Weathered setup ns name m s m' s')
      (hrun : Runs storm ((reconcile setup .action ns name).run m') s' (result, m'') s'') :
      Weathered setup ns name m s m'' s''
  | restart {m' : Memory} {s' : Estate} (h : Weathered setup ns name m s m' s') :
      Weathered setup ns name m s .empty s'

/-- The store still holds an action that asks for the same. -/
structure Holds (ns name : String) (o : Resource) (s : Estate) : Prop where
  keyed : s.store.Keyed .action
  stored : ∃ r, s.store.get? ns name = some r ∧ o.SameRequest r

theorem Holds.of_store (h : Holds ns name o s) (hstore : s'.store = s.store) :
    Holds ns name o s' := by
  obtain ⟨hkeyed, hstored⟩ := h
  rw [← hstore] at hkeyed hstored
  exact ⟨hkeyed, hstored⟩

theorem store_of_isQuiet (hquiet : c.isQuiet = true) (hmay : storm.may s c a s') :
    s'.store = s.store := by
  cases c with
  | store c =>
      cases c with
      | get kind ns name => exact hmay.2.1
      | _ => exact absurd hquiet Bool.false_ne_true
  | _ => exact hmay

theorem Holds.place (h : Holds ns name o s) : Store.keyOf o = (ns, name) := by
  obtain ⟨r, hr, hsame⟩ := h.stored
  obtain ⟨_, hkey⟩ := h.keyed ns name r hr
  rw [← hkey, Store.keyOf, Store.keyOf, hsame.namespaceName, hsame.name]

/-- A status can only be written onto the action that is there. -/
theorem Holds.updateStatus {w : Resource} (h : Holds ns name o s)
    (hkey : Store.keyOf w = (ns, name)) {a : Except ClusterError Resource}
    (hmay : storm.may s (.store (.updateStatus w)) a s') :
    Holds ns name o s' ∧ ∀ new, a = .ok new → o.SameRequest new := by
  obtain ⟨_, hwrite | ⟨_, hstore, e, rfl⟩⟩ := hmay
  · cases a with
    | error e => exact ⟨h.of_store (Store.updateStatus_error hwrite), fun _ hnew => by cases hnew⟩
    | ok new =>
        obtain ⟨old, hold, _, rfl, hget, hkeyed⟩ := Store.updateStatus_ok h.keyed hkey hwrite
        obtain ⟨r, hr, hsame⟩ := h.stored
        obtain rfl : r = old := Option.some.inj (hr.symm.trans hold)
        have hnew := hsame.restated (w := Store.withStatusOf r w (s.store.revision + 1))
          ⟨_, _, rfl⟩
        exact ⟨⟨hkeyed, _, hget, hnew⟩, fun new' hnew' => Except.ok.inj hnew' ▸ hnew⟩
  · exact ⟨h.of_store hstore, fun _ hnew => by cases hnew⟩

/-- A copy that asks for the same may be written. -/
theorem Holds.update {w : Resource} (h : Holds ns name o s) (hstays : o.isDeleting = false)
    (hw : o.SameRequest w) {a : Except ClusterError Resource}
    (hmay : storm.may s (.store (.update w)) a s') :
    Holds ns name o s' ∧ ∀ new, a = .ok new → o.SameRequest new := by
  obtain ⟨_, hwrite | ⟨_, hstore, e, rfl⟩⟩ := hmay
  · cases a with
    | error e => exact ⟨h.of_store (Store.update_error hwrite), fun _ hnew => by cases hnew⟩
    | ok new =>
        obtain ⟨r, hr, hsame⟩ := h.stored
        have hkey : Store.keyOf w = (ns, name) := by
          rw [← h.place, Store.keyOf, Store.keyOf, hw.namespaceName, hw.name]
        have hkind : w.kind = .action := hw.kind.trans (hsame.kind ▸ (h.keyed ns name r hr).1)
        obtain ⟨old, hold, _, rfl, hget, hkeyed⟩ := Store.update_ok h.keyed hkind hkey hwrite
        obtain rfl : r = old := Option.some.inj (hr.symm.trans hold)
        have hnew : o.SameRequest (s.store.merged r w) :=
          ⟨hw.spec, hw.namespaceName, hw.name, hsame.deletion⟩
        refine ⟨⟨hkeyed, _, hget.resolve_right ?_, hnew⟩,
          fun new' hnew' => Except.ok.inj hnew' ▸ hnew⟩
        rintro ⟨_, hdeleting, _⟩
        rw [hnew.isDeleting, hstays] at hdeleting
        exact absurd hdeleting Bool.false_ne_true
  · exact ⟨h.of_store hstore, fun _ hnew => by cases hnew⟩

theorem always_persistResource_storm {w : Resource} (h : Holds ns name o s)
    (hstays : o.isDeleting = false) (hw : o.SameRequest w) :
    Always storm (Pass.persistResource w) s fun or s' =>
      Holds ns name o s' ∧ o.SameRequest or.2 := by
  rw [Pass.always_persistResource]
  intro a s₁ hmay
  obtain ⟨h₁, hnew⟩ := h.update hstays hw hmay
  rw [Pass.always_afterWrite]
  cases a with
  | ok new => exact ⟨h₁, hnew new rfl⟩
  | error e =>
      refine (Pass.quiet_refused e).always
        (fun _ _ _ _ hq hmay h => h.of_store (store_of_isQuiet hq hmay)) h₁ |>.mono ?_
      exact fun _ _ ht => ⟨ht, hw⟩

/-- The work on an action that names a version keeps what it asks for. -/
theorem upheld_sameRequest (setup : Setup)
    (hnamed : o.desiredVersion.isEmpty = false) :
    Upheld storm setup (fun _ => True)
      (fun j s => Holds ns name o s ∧ o.SameRequest j.resource)
      (fun _ s => Holds ns name o s) where
  stop h := h.1
  look hquiet h hmay := ⟨h.1.of_store (store_of_isQuiet hquiet hmay), h.2⟩
  draw h hmay := h.of_store hmay
  entry _ _ _ _ h := h
  status := by
    rintro j s w reason ⟨h, hsame⟩ hw _
    have hsame' := hsame.recorded hw
    refine proceeds_persistStatus
      (fun hquiet h hmay => h.of_store (store_of_isQuiet hquiet hmay)) ?_
    intro a t hmay
    have ht := h.of_store (store_of_isQuiet rfl hmay)
    refine ⟨ht, ?_⟩
    rintro latest rfl _ a' t' hmay'
    obtain ⟨_, hstore, hanswer⟩ := hmay
    have hget : s.store.get? w.namespaceName w.name = some latest := by
      rcases hanswer with hanswer | ⟨_, e, he⟩
      · exact (Except.ok.inj hanswer).symm
      · cases he
    have hplace : Store.keyOf w = (ns, name) := by
      rw [← h.place, Store.keyOf, Store.keyOf, hsame'.namespaceName, hsame'.name]
    obtain ⟨_, hkey⟩ := h.keyed _ _ _ hget
    obtain ⟨ht', hnew⟩ := ht.updateStatus (w := latest.copyStatus w) (hkey.trans hplace) hmay'
    exact ⟨ht', fun new hok => ⟨ht', hnew new hok⟩⟩
  pin := by
    rintro j s t credentials version ⟨_, hsame⟩ hempty _
    rw [hsame.desiredVersion, hnamed] at hempty
    exact absurd hempty Bool.false_ne_true
  apply h _ hmay := ⟨h.1.of_store hmay, h.2⟩
  applied h _ _ hmay := ⟨h.1.of_store hmay, h.2⟩
  rehearsed _ _ h := h
  remove h hmay := ⟨h.1.of_store hmay, h.2⟩

/-- A pass keeps what an action asks for when it names a version. -/
theorem always_holds (hstays : o.isDeleting = false) (hnamed : o.desiredVersion.isEmpty = false)
    (m : Memory) (h : Holds ns name o s) :
    AlwaysFrom storm (reconcile setup .action ns name) m s fun _ _ s' => Holds ns name o s' := by
  have hquiet : ∀ {α : Type} {p : Pass α} {t : Estate}, Pass.Quiet p → Holds ns name o t →
      Always storm p t fun _ t' => Holds ns name o t' := fun hp ht =>
    hp.always (fun _ _ _ _ hq hmay h => h.of_store (store_of_isQuiet hq hmay)) ht
  rw [always_reconcile]
  intro a s₁ hmay
  have h₁ := h.of_store (store_of_isQuiet rfl hmay)
  rcases a with e | _ | r
  · exact hquiet (Pass.quiet_shortDelayWith _) h₁
  · exact h₁
  · have hsame : o.SameRequest r := by
      obtain ⟨_, _, hanswer | ⟨_, e, he⟩⟩ := hmay
      · obtain ⟨r', hr', hsame⟩ := h.stored
        obtain rfl : r = r' := Option.some.inj ((Except.ok.inj hanswer).trans hr')
        exact hsame
      · cases he
    dsimp only
    split
    · exact h₁
    · rw [Reconcile.always_found, hsame.isDeleting, hstays, if_neg Bool.false_ne_true]
      split
      · exact h₁
      · rw [Pass.always_ensureFinalizer]
        split
        · dsimp only
          rw [Reconcile.always_live]
          refine ((upheld_sameRequest setup hnamed).live Upheld.recordsAll_true
            (fun _ _ _ h => h) ⟨h₁, hsame⟩).mono ?_
          intro o' j' t ht
          exact (upheld_sameRequest setup hnamed).halted_of_proceeds ht
        · refine (always_persistResource_storm h₁ hstays hsame.addFinalizer).mono ?_
          rintro ⟨o', r'⟩ t ⟨ht, _⟩
          dsimp only
          split
          · exact ht
          · exact hquiet Pass.quiet_shortDelay ht

/-- Whatever an action that names a version goes through, it goes on asking for the same. -/
theorem Weathered.holds (h : Weathered setup ns name m s m' s') (hstays : o.isDeleting = false)
    (hnamed : o.desiredVersion.isEmpty = false) (ho : Holds ns name o s) :
    Holds ns name o s' := by
  induction h with
  | start => exact ho
  | pass _ hrun ih => exact always_iff_runs.1 (always_holds hstays hnamed _ ih) _ _ hrun
  | restart _ ih => exact ih

end Estate

end ReleaseOperator
