import ReleaseOperator.Proofs.Commuting.Keys
import ReleaseOperator.Proofs.Commuting.Workers
import ReleaseOperator.InMemory.Helm
import ReleaseOperator.Proofs.Edits.Script

/-!
# Independent passes commute

Passes over different resources with different releases may be taken in either order. A pass
leaves everything beside its own site and keys as it was, so the later pass of the one order
and the earlier one of the other see the same, and by the frame of each what the other has
done stands to the end.
-/

namespace ReleaseOperator

/-!
## Passes in two worlds

A pass over a resource, taken twice: in two worlds that agree on the site of the resource, with
memories that agree on the keys of its address. It ends alike in both, leaves them agreeing, and
changes nothing beside the site and the keys.
-/

open InMemory Program

variable {H : Type} {rules : Rules H}

section TwoWorlds

variable {x : Site} {s t s₀ t₀ : Commons H} {m n m₀ n₀ : Memory} {r r' : Resource}

theorem ObjectId.hasStart_ofResource {y : Address} (h : r.address = y) :
    Text.hasStart (ObjectId.ofResource r).objectKey y.start = true := by
  subst h
  exact ObjectId.hasStart_objectKey (.ofResource r)

namespace Site.Hand

theorem objectId (h : x.Hand s₀ t₀ r r' s t) : ObjectId.ofResource r = ObjectId.ofResource r' :=
  Resource.eq_of_bare (fun _ => rfl) h.like

/-- The jobs that a pass starts with are abreast. -/
theorem start (h : x.Hand s₀ t₀ r r' s t) (setup : Setup) {e e' : Entry} (he : e.bare = e'.bare) :
    x.Abreast s₀ t₀ (Job.start setup r e) (Job.start setup r' e') s t := by
  have hrelease : r.release setup.defaults = r'.release setup.defaults :=
    Resource.eq_of_bare (f := fun r => r.release setup.defaults) (fun _ => rfl) h.like
  refine ⟨.mk' h.like hrelease he h.holds ?_, h⟩
  exact h.holds.2.trans (congrArg some (Resource.place_release r _).symm)

theorem forget (h : x.Hand s₀ t₀ r r' s t) (hm : Memory.Level x.address m₀ n₀ m n) :
    Memory.Level x.address m₀ n₀ (m.forget r) (n.forget r') := by
  rw [Memory.forget, Memory.forget, ← h.objectId]
  exact hm.dropUnder (ObjectId.hasStart_ofResource h.holds.1)

end Site.Hand

namespace Reconcile

/-- Two passes end with like outcomes, in worlds and with memories that agree. -/
def LikeEnd (x : Site) (s₀ t₀ : Commons H) (m₀ n₀ : Memory) (o : Outcome) (m : Memory)
    (s : Commons H) (o' : Outcome) (n : Memory) (t : Commons H) : Prop :=
  o.Like o' ∧ x.Level s₀ t₀ s t ∧ Memory.Level x.address m₀ n₀ m n

/-- Work on the entries of a resource in two trackers that agree on its keys. -/
theorem paired_withEntry (tracker : Memory → Tracker) (put : Tracker → Memory → Memory)
    (hread : ∀ m n, Memory.Level x.address m₀ n₀ m n →
      Tracker.Level x.address.start (tracker m₀) (tracker n₀) (tracker m) (tracker n))
    (hput : ∀ m n t u, Memory.Level x.address m₀ n₀ m n →
      Tracker.Level x.address.start (tracker m₀) (tracker n₀) t u →
      Memory.Level x.address m₀ n₀ (put t m) (put u n))
    {work work' : Entry → Pass (α × Job)} (rel : α → α → Prop) (h : x.Hand s₀ t₀ r r' s t)
    (hm : Memory.Level x.address m₀ n₀ m n)
    (hwork : ∀ e e', e.bare = e'.bare →
      Paired rules.conduct (work e) s (work' e') t fun aj u aj' u' =>
        rel aj.1 aj'.1 ∧ x.Abreast s₀ t₀ aj.2 aj'.2 u u') :
    PairedFrom rules.conduct (withEntry r tracker put work) m s (withEntry r' tracker put work') n t
      fun aj m' u aj' n' u' =>
        rel aj.1 aj'.1 ∧ x.Abreast s₀ t₀ aj.2 aj'.2 u u' ∧ Memory.Level x.address m₀ n₀ m' n' := by
  have hid := ObjectId.hasStart_ofResource h.holds.1
  have hgeneration : r.generation = r'.generation := Resource.eq_of_bare (fun _ => rfl) h.like
  unfold withEntry
  rw [← h.objectId, ← hgeneration]
  have hensured := (hread m n hm).ensure hid r.generation .start
  refine pairedFrom_bind ?_
  rw [pairedFrom_get]
  rcases hkept : (tracker m).ensure (.ofResource r) r.generation .start with ⟨e, kept⟩
  rcases hkept' : (tracker n).ensure (.ofResource r) r.generation .start with ⟨e', kept'⟩
  rw [hkept, hkept'] at hensured
  obtain ⟨hentry, hkept⟩ := hensured
  have hm' := hput m n kept kept' hm hkept
  refine pairedFrom_bind ?_
  rw [pairedFrom_modify]
  refine pairedFrom_bind (pairedFrom_lift ((hwork e e' hentry).mono ?_))
  rintro ⟨a, j⟩ u ⟨a', j'⟩ u' ⟨ha, hj⟩
  exact ⟨ha, hj, hput _ _ _ _ hm' ((hread _ _ hm').record hid hj.alike.entry)⟩

theorem paired_live (setup : Setup) (h : x.Hand s₀ t₀ r r' s t)
    (hm : Memory.Level x.address m₀ n₀ m n) :
    PairedFrom rules.conduct (live setup r) m s (live setup r') n t (LikeEnd x s₀ t₀ m₀ n₀) := by
  refine pairedFrom_bind ((paired_withEntry Memory.lifecycle (fun t m => { m with lifecycle := t })
    (fun _ _ hm => hm.lifecycle) (fun _ _ _ _ hm ht => ⟨ht, hm.deletion⟩) Outcome.Like h hm
    ?_).mono ?_)
  · intro e e' he
    exact Work.twin_live setup _ _ s t (h.start setup he)
  · rintro ⟨o, j⟩ m' u ⟨o', j'⟩ n' u' ⟨ho, hj, hm'⟩
    exact ⟨ho, hj.hand.level, hm'⟩

theorem paired_clear (setup : Setup) (h : x.Hand s₀ t₀ r r' s t)
    (hm : Memory.Level x.address m₀ n₀ m n) :
    PairedFrom rules.conduct (clear setup r) m s (clear setup r') n t (LikeEnd x s₀ t₀ m₀ n₀) := by
  have hfinalizer : r.hasFinalizer = r'.hasFinalizer := Resource.eq_of_bare (fun _ => rfl) h.like
  unfold clear
  rw [← hfinalizer]
  split
  · refine pairedFrom_bind ((paired_withEntry Memory.deletion (fun t m => { m with deletion := t })
      (fun _ _ hm => hm.deletion) (fun _ _ _ _ hm ht => ⟨hm.lifecycle, ht⟩) LikeAnswer h hm
      ?_).mono ?_)
    · intro e e' he
      exact Work.twin_clear setup _ _ s t (h.start setup he)
    · rintro ⟨⟨forget, o⟩, j⟩ m' u ⟨⟨_, o'⟩, j'⟩ n' u' ⟨⟨rfl, ho⟩, hj, hm'⟩
      dsimp only
      cases forget with
      | true => exact ⟨ho, hj.hand.level, hj.hand.forget hm'⟩
      | false => exact ⟨ho, hj.hand.level, hm'⟩
  · exact ⟨rfl, h.level, h.forget hm⟩

theorem paired_found (setup : Setup) (h : x.Hand s₀ t₀ r r' s t)
    (hm : Memory.Level x.address m₀ n₀ m n) :
    PairedFrom rules.conduct (found setup r) m s (found setup r') n t (LikeEnd x s₀ t₀ m₀ n₀) := by
  have hdeleting : r.isDeleting = r'.isDeleting := Resource.eq_of_bare (fun _ => rfl) h.like
  have hterminal : r.isTerminal = r'.isTerminal :=
    Resource.eq_of_bare Resource.isTerminal_bare h.like
  unfold found
  rw [← hdeleting, ← hterminal]
  split
  · exact paired_clear setup h hm
  · split
    · exact ⟨rfl, h.level, hm⟩
    · refine pairedFrom_bind (pairedFrom_lift ((Pass.paired_ensureFinalizer h).mono ?_))
      rintro ⟨_, w⟩ u ⟨_, w'⟩ u' ⟨hw, ⟨rfl, rfl⟩ | ⟨o, o', rfl, rfl, ho⟩⟩
      · exact paired_live setup hw hm
      · exact ⟨ho, hw.level, hm⟩

end Reconcile

/-- One pass in two worlds that agree on a site: it ends alike in both, and they still agree. -/
theorem paired_reconcile (setup : Setup) (h : x.Level s₀ t₀ s t)
    (hm : Memory.Level x.address m₀ n₀ m n) :
    PairedFrom rules.conduct
      (reconcile setup x.address.kind x.address.namespaceName x.address.name) m s
      (reconcile setup x.address.kind x.address.namespaceName x.address.name) n t
      fun a m' u a' n' u' => a.map Outcome.bare = a'.map Outcome.bare ∧
        x.Level s₀ t₀ u u' ∧ Memory.Level x.address m₀ n₀ m' n' := by
  refine pairedFrom_bind (pairedFrom_lift ((Pass.paired_get rfl rfl).mono ?_))
  rintro a u a' u' ⟨rfl, rfl, ⟨e, rfl, rfl⟩ | ⟨rfl, rfl⟩⟩
  · refine pairedFrom_bind (pairedFrom_lift
      ((Pass.twin_shortDelayWith (.cluster e) u u' h).mono ?_))
    rintro o v o' v' ⟨ho, hv⟩
    exact ⟨congrArg Except.ok ho, hv, hm⟩
  · have hstored := h.stored
    cases hr : u.find x.address with
    | none =>
        rw [hr, Option.map_none, eq_comm, Option.map_eq_none_iff] at hstored
        rw [hstored]
        -- With nothing there, all keys of the address go, and no others.
        refine ⟨rfl, h, hm.dropUnder ?_⟩
        exact Text.hasStart_iff.2 ⟨[], (List.append_nil _).symm⟩
    | some r =>
        rw [hr, Option.map_some, eq_comm, Option.map_eq_some_iff] at hstored
        obtain ⟨r', hr', _⟩ := hstored
        have hhand := h.hand hr hr'
        have hclass : r.className = r'.className := Resource.eq_of_bare (fun _ => rfl) hhand.like
        rw [hr']
        dsimp only
        rw [← hclass]
        split
        · exact ⟨rfl, h, hm⟩
        · refine pairedFrom_bind ((Reconcile.paired_found setup hhand hm).mono ?_)
          rintro o m' v o' n' v' ⟨ho, hv, hm'⟩
          exact ⟨congrArg Except.ok ho, hv, hm'⟩

end TwoWorlds

/-! ## Both orders -/

variable {s s₁ s₂ t₁ t₂ : Commons H} {m m₁ m₂ n₁ n₂ : Memory} {x y : Address}

namespace Commons

/-- What is at an address, and the release of the resource there. -/
def site (s : Commons H) (x : Address) : Site := ⟨x, (s.find x).map Resource.releasePlace⟩

/-- Two addresses, with or without resources, have nothing to do with each other: they differ,
and the resources that are there ask for different releases. -/
structure Independent (s : Commons H) (x y : Address) : Prop where
  ne : x ≠ y
  plain : x.Plain
  plain' : y.Plain
  places : ∀ o o', s.find x = some o → s.find y = some o' → o.releasePlace ≠ o'.releasePlace

/-- The same resources up to revisions and times, and the same releases. -/
structure Same (s t : Commons H) : Prop where
  stored : ∀ x, (s.find x).map Resource.bare = (t.find x).map Resource.bare
  releases : ∀ place, s.releases place = t.releases place

theorem Independent.symm (h : s.Independent x y) : s.Independent y x :=
  ⟨h.ne.symm, h.plain', h.plain, fun o o' ho ho' e => h.places o' o ho' ho e.symm⟩

theorem Independent.place (h : s.Independent x y) {p : String × String}
    (hp : (s.site y).place? = some p) : (s.site x).place? ≠ some p := by
  obtain ⟨o', ho', rfl⟩ := Option.map_eq_some_iff.1 hp
  intro hx
  obtain ⟨o, ho, hplace⟩ := Option.map_eq_some_iff.1 hx
  exact h.places o o' ho ho' hplace

theorem Keyed.holds (hs : s.Keyed) {o : Resource} (ho : s.find x = some o) :
    (s.site x).Holds o :=
  ⟨hs.address ho, congrArg (Option.map Resource.releasePlace) ho⟩

end Commons

/-- The same entries under all keys, up to times. -/
def Tracker.Same (t u : Tracker) : Prop :=
  ∀ key, (t.find? key).map Entry.bare = (u.find? key).map Entry.bare

/-- The same entries in both trackers. -/
structure Memory.Same (m n : Memory) : Prop where
  lifecycle : m.lifecycle.Same n.lifecycle
  deletion : m.deletion.Same n.deletion

/-- The pass over the resource at an address. -/
def Address.pass (setup : Setup) (x : Address) : Reconcile (Except PassError Outcome) :=
  reconcile setup x.kind x.namespaceName x.name

/-- A pass runs from a world and a memory to others. -/
abbrev PassRuns (rules : Rules H) (setup : Setup) (x : Address) (m : Memory) (s : Commons H)
    (a : Except PassError Outcome) (n : Memory) (t : Commons H) : Prop :=
  Runs rules.conduct ((x.pass setup).run m) s (a, n) t

namespace PassRuns

variable {setup : Setup} {a a' : Except PassError Outcome} {t u v : Commons H}
  {n k l : Memory}

/-- Two runs of a pass from worlds and memories that agree on it end alike, still agree and
leave the rest alone. -/
theorem alike (hs : s.Keyed) (hstored : t.find x = s.find x)
    (hrelease : ∀ p, (s.site x).place? = some p → s.releases p = t.releases p)
    (hlifecycle : m.lifecycle.view x.start = n.lifecycle.view x.start)
    (hdeletion : m.deletion.view x.start = n.deletion.view x.start)
    (h : PassRuns rules setup x m s a k u) (h' : PassRuns rules setup x n t a' l v) :
    a.map Outcome.bare = a'.map Outcome.bare ∧ (s.site x).Level s t u v ∧
      Memory.Level x m n k l := by
  have hlevel : (s.site x).Level s t s t :=
    ⟨congrArg _ hstored.symm, fun o ho => hs.holds ho, hrelease,
      ⟨fun _ _ => rfl, fun _ _ => rfl⟩, ⟨fun _ _ => rfl, fun _ _ => rfl⟩, id⟩
  have hmemory : Memory.Level (s.site x).address m n m n :=
    ⟨⟨hlifecycle, rfl, rfl⟩, ⟨hdeletion, rfl, rfl⟩⟩
  exact paired_iff_runs.1 (paired_reconcile setup hlevel hmemory) _ _ _ _ h h'

/-- What a pass leaves alone. -/
theorem frame (hs : s.Keyed) (h : PassRuns rules setup x m s a n t) :
    (s.site x).Frame s t ∧ Memory.Level x m m n n := by
  obtain ⟨_, hlevel, hmemory⟩ := alike hs rfl (fun _ _ => rfl) rfl rfl h h
  exact ⟨hlevel.left, hmemory⟩

end PassRuns

theorem Address.disjoint_start (hx : x.Plain) (hy : y.Plain) (hne : x ≠ y) {key : String}
    (h : Text.hasStart key x.start = true) : Text.hasStart key y.start = false := by
  cases h' : Text.hasStart key y.start with
  | false => rfl
  | true => exact absurd (Address.eq_of_hasStart hx hy h h') hne

/-- Trackers after two passes in either order: the one pass leads from `t` to `t₁` and from
`u₁` to `u₂`, the other one from `t` to `u₁` and from `t₁` to `t₂`. -/
theorem Tracker.same_of_levels {t t₁ t₂ u₁ u₂ : Tracker} (hx : x.Plain) (hy : y.Plain)
    (hne : x ≠ y) (hlevel : Level x.start t u₁ t₁ u₂) (hlevel' : Level y.start t t₁ u₁ t₂) :
    t₂.Same u₂ := by
  intro key
  cases hkx : Text.hasStart key x.start with
  | true =>
      rw [find?_eq_of_dropUnder hlevel'.right (Address.disjoint_start hx hy hne hkx)]
      exact find?_eq_of_view hlevel.view hkx
  | false =>
      rw [find?_eq_of_dropUnder hlevel.right hkx]
      cases hky : Text.hasStart key y.start with
      | true => exact find?_eq_of_view hlevel'.view.symm hky
      | false =>
          rw [find?_eq_of_dropUnder hlevel'.right hky, find?_eq_of_dropUnder hlevel.left hkx,
            find?_eq_of_dropUnder hlevel'.left hky]

/-- The worlds after two passes in either order. -/
theorem Commons.same_of_levels (hxy : s.Independent x y)
    (hx : (s.site x).Level s t₁ s₁ t₂) (hy : (s.site y).Level s s₁ t₁ s₂) : s₂.Same t₂ := by
  refine ⟨fun z => ?_, fun p => ?_⟩
  -- At its own site each pass makes the same in both orders; elsewhere neither makes anything.
  · by_cases hzx : z = x
    · subst hzx
      rw [hy.right.stored z hxy.ne]
      exact hx.stored
    · rw [hx.right.stored z hzx]
      by_cases hzy : z = y
      · subst hzy
        exact hy.stored.symm
      · rw [hy.right.stored z hzy, hx.left.stored z hzx, hy.left.stored z hzy]
  · by_cases hpx : (s.site x).place? = some p
    · rw [hy.right.releases p (hxy.symm.place hpx)]
      exact hx.release p hpx
    · rw [hx.right.releases p hpx]
      by_cases hpy : (s.site y).place? = some p
      · exact (hy.release p hpy).symm
      · rw [hy.right.releases p hpy, hx.left.releases p hpx, hy.left.releases p hpy]

/-- A pass sees the same before and after a pass over an independent resource. -/
theorem PassRuns.alike_of_independent {setup setup' : Setup} {a b b' : Except PassError Outcome}
    (hs : s.Keyed) (hxy : s.Independent x y) (hx : PassRuns rules setup x m s a m₁ s₁)
    (hy : PassRuns rules setup' y m s b' n₁ t₁) (hy' : PassRuns rules setup' y m₁ s₁ b m₂ s₂) :
    b'.map Outcome.bare = b.map Outcome.bare ∧ (s.site y).Level s s₁ t₁ s₂ ∧
      Memory.Level y m m₁ n₁ m₂ := by
  obtain ⟨hframe, hmemory⟩ := hx.frame hs
  have hview : ∀ {t u : Tracker}, t.dropUnder x.start = u.dropUnder x.start →
      u.view y.start = t.view y.start := by
    intro t u hdrop
    have hdisjoint : ∀ key, Text.hasStart key y.start = true → Text.hasStart key x.start = false :=
      fun _ => Address.disjoint_start hxy.plain' hxy.plain hxy.ne.symm
    rw [← Tracker.view_dropUnder_of_disjoint hdisjoint, ← hdrop,
      Tracker.view_dropUnder_of_disjoint hdisjoint]
  refine hy.alike hs (hframe.stored y hxy.ne.symm) ?_ (hview hmemory.lifecycle.left)
    (hview hmemory.deletion.left) hy'
  exact fun p hp => (hframe.releases p (hxy.place hp)).symm

/-- Independent passes commute: in either order each pass ends in the same way but for the delay
drawn, and afterwards the same is stored up to revisions and times, the releases are the same,
and so are the entries of both trackers. -/
theorem independent_passes_commute {setup setup' : Setup} {a a' b b' : Except PassError Outcome}
    (hs : s.Keyed) (hxy : s.Independent x y)
    (hx : PassRuns rules setup x m s a m₁ s₁) (hy : PassRuns rules setup' y m₁ s₁ b m₂ s₂)
    (hy' : PassRuns rules setup' y m s b' n₁ t₁) (hx' : PassRuns rules setup x n₁ t₁ a' n₂ t₂) :
    a.map Outcome.bare = a'.map Outcome.bare ∧ b.map Outcome.bare = b'.map Outcome.bare ∧
      s₂.Same t₂ ∧ m₂.Same n₂ := by
  obtain ⟨hb, hsite', hmemory'⟩ := PassRuns.alike_of_independent hs hxy hx hy' hy
  obtain ⟨ha, hsite, hmemory⟩ := PassRuns.alike_of_independent hs hxy.symm hy' hx hx'
  refine ⟨ha, hb.symm, Commons.same_of_levels hxy hsite hsite', ?_, ?_⟩
  · exact Tracker.same_of_levels hxy.plain hxy.plain' hxy.ne hmemory.lifecycle hmemory'.lifecycle
  · exact Tracker.same_of_levels hxy.plain hxy.plain' hxy.ne hmemory.deletion hmemory'.deletion

/-! ### Namesakes -/

namespace Namesakes

/-- Helm that deploys a release at once and remembers its documents. -/
def trialRules : Rules (Option StoredRelease) where
  refusal _ _ := none
  cluster
    | .configMap _ _ _ => .ok none
    | .secret _ _ _ => .ok none
    | .workloadReady _ => .ok true
  helm
    | .upgradeOrInstall request, _ =>
      let r := request.release
      let info : ReleaseInfo := ⟨r.name, r.namespaceName, .deployed, r.chart.version⟩
      (.ok info, some ⟨info, request.documents⟩)
    | .uninstall _ _ _, _ => (.ok (), none)
    | .releaseInfo _ _, h => (.ok (h.map StoredRelease.info), h)
    | .values name ns, h =>
      (match h with
        | some r => .ok r.values
        | none => .error (.releaseNotFound name ns), h)
    | .manifest _ _, h => (.ok "", h)
    | .chartVersion r _, h => (.ok r.chart.version, h)

/-- The action `web`, which is to bring another release about than the module `web`. -/
def trialAction : Resource :=
  { metadata := { trialModule.metadata with finalizers := some [Kind.action.finalizer] }
    spec := .action ⟨"helm", .reconcile, "0.1.0",
      ⟨"extra", "default", ⟨"extra", "0.1.0", "/charts/extra"⟩, .none, []⟩⟩
    status := none }

/-- A module and an action of the same namespace and name, before any release. -/
def commons : Commons (Option StoredRelease) where
  store
    | .module => trialStore trialModule
    | .action => trialStore trialAction
  releases _ := none

/-- Where the resource `web` of a kind is kept. -/
def web (kind : Kind) : Address := ⟨kind, "default", "web"⟩

theorem keyed_commons : commons.Keyed
  | .module => keyed_trialStore_of_kind rfl rfl
  | .action => keyed_trialStore_of_kind rfl rfl

theorem independent : commons.Independent (web .module) (web .action) where
  ne := by decide
  plain := by decide
  plain' := by decide
  places o o' ho ho' := by
    obtain ⟨_, rfl⟩ := get?_trialStore ho
    obtain ⟨_, rfl⟩ := get?_trialStore ho'
    decide

/-- The pass over the resource `web` of a kind: its end, the memory and the commons then. -/
def pass (kind : Kind) (m : Memory) (s : Commons (Option StoredRelease)) :
    (Except PassError Outcome × Memory) × Commons (Option StoredRelease) :=
  ((((web kind).pass trialSetup).run m).run (trialRules.answer "") : StateM _ _) s

theorem passRuns (kind : Kind) (m : Memory) (s : Commons (Option StoredRelease)) :
    PassRuns trialRules trialSetup (web kind) m s (pass kind m s).1.1 (pass kind m s).1.2
      (pass kind m s).2 :=
  runs_run (trialRules.answered_answer "") _ s

/-- The pass that comes first. -/
def first (kind : Kind) : (Except PassError Outcome × Memory) × Commons (Option StoredRelease) :=
  pass kind .empty commons

theorem passRuns_first (kind : Kind) :
    PassRuns trialRules trialSetup (web kind) .empty commons (first kind).1.1 (first kind).1.2
      (first kind).2 :=
  passRuns kind .empty commons

/-- The pass that comes after that over the resource of another kind. -/
def second (before kind : Kind) :
    (Except PassError Outcome × Memory) × Commons (Option StoredRelease) :=
  pass kind (first before).1.2 (first before).2

theorem passRuns_second (before kind : Kind) :
    PassRuns trialRules trialSetup (web kind) (first before).1.2 (first before).2
      (second before kind).1.1 (second before kind).1.2 (second before kind).2 :=
  passRuns kind (first before).1.2 (first before).2

end Namesakes

open Namesakes in
/-- A module and an action of the same name are both brought about, in either order. -/
theorem namesake_passes_commute :
    (first .module).1.1.toOption = some .done ∧ (first .action).1.1.toOption = some .done ∧
      (first .module).1.1.map Outcome.bare = (second .action .module).1.1.map Outcome.bare ∧
      (second .module .action).1.1.map Outcome.bare = (first .action).1.1.map Outcome.bare ∧
      (second .module .action).2.Same (second .action .module).2 ∧
      (second .module .action).1.2.Same (second .action .module).1.2 := by
  refine ⟨by decide +kernel, by decide +kernel, ?_⟩
  exact independent_passes_commute keyed_commons independent (passRuns_first .module)
    (passRuns_second .module .action) (passRuns_first .action) (passRuns_second .action .module)

end ReleaseOperator
