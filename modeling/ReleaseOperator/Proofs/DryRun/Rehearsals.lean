import ReleaseOperator.Proofs.DryRun.Passes

/-!
# Dry runs are rehearsals

A module is looked after twice, in earnest and by dry runs, from the same stores on. Between
passes that have settled users edit it, and in the end they delete it; what its values come to
may be another thing in every pass. Each pass ends alike in both, and leaves the same resource
and the same entries. A pass in earnest is first followed by its rehearsal over the releases of
the dry runs, and that is compared with the dry run itself, which is told other times.
-/

namespace ReleaseOperator

open InMemory Program

variable {H : Type} {rules : Rules H} {info : H → Option ReleaseInfo} {setup : Setup}
  {x : Address} {spec : Spec} {now : Instant} {s t s' t' : Commons H} {m n m' n' : Memory}
  {r r' : Resource} {settled : Bool} {a a' : Except PassError Outcome}

/-! ### What users do -/

/-- A resource as it is stored after its specification was edited. -/
def Resource.edited (r : Resource) (spec : Spec) (revision : Nat) : Resource :=
  let new := { r with spec }
  Store.withRevision
    (if Store.sameSpec r new then new else Store.withGeneration new (r.generation + 1)) revision

/-- A resource as it is stored after its deletion was asked for. -/
def Resource.markedDeleted (r : Resource) (now : Instant) (revision : Nat) : Resource :=
  Store.withRevision { r with metadata := { r.metadata with deletionTime := some now } } revision

namespace Commons

/-- A user edits the specification of the resource at an address. -/
def edit (s : Commons H) (x : Address) (spec : Spec) : Commons H :=
  match (s.store x.kind).edit x.namespaceName x.name fun r => some { r with spec } with
  | some (some store) => s.setStore x.kind store
  | _ => s

/-- A user asks for the deletion of the resource at an address. -/
def markDeleted (s : Commons H) (x : Address) (now : Instant) : Commons H :=
  s.setStore x.kind ((s.store x.kind).markDeleted x.namespaceName x.name now)

theorem edit_of_find_eq_none (h : s.find x = none) : s.edit x spec = s := by
  rw [edit, Store.edit, show (s.store x.kind).get? x.namespaceName x.name = none from h]
  rfl

theorem find_edit (h : s.find x = some r) (spec : Spec) :
    (s.edit x spec).find x = some (r.edited spec ((s.store x.kind).revision + 1)) ∧
      ((s.edit x spec).store x.kind).revision = (s.store x.kind).revision + 1 := by
  rw [edit, Store.edit, show (s.store x.kind).get? x.namespaceName x.name = some r from h]
  dsimp only [Option.map_some]
  rw [find, setStore]
  dsimp only
  rw [if_pos rfl]
  exact ⟨Table.get?_put_self, rfl⟩

theorem markDeleted_of_find_eq_none (h : s.find x = none) (now : Instant) :
    (s.markDeleted x now).find x = none ∧
      ((s.markDeleted x now).store x.kind).revision = (s.store x.kind).revision + 1 := by
  have hget : (s.store x.kind).get? x.namespaceName x.name = none := h
  rw [markDeleted, Store.markDeleted, hget, find, setStore]
  dsimp only
  rw [if_pos rfl]
  exact ⟨hget, rfl⟩

theorem find_markDeleted (h : s.find x = some r) (now : Instant) :
    (s.markDeleted x now).find x = (if r.finalizers.isEmpty then none
        else some (r.markedDeleted now ((s.store x.kind).revision + 1))) ∧
      ((s.markDeleted x now).store x.kind).revision = (s.store x.kind).revision + 1 := by
  have hget : (s.store x.kind).get? x.namespaceName x.name = some r := h
  rw [markDeleted, Store.markDeleted, hget, find, setStore]
  dsimp only
  rw [if_pos rfl]
  split
  · exact ⟨Table.get?_erase_self, rfl⟩
  · exact ⟨Table.get?_put_self, rfl⟩

/-- The same resource is stored at an address but for times, and at the same revision. -/
structure Agree (x : Address) (s t : Commons H) : Prop where
  stored : (s.find x).map Resource.bare = (t.find x).map Resource.bare
  aligned : s.Aligned x t

/-- What users do to the same resource comes to the same. -/
theorem Agree.of_find {o o' : Option Resource} (hs : s.find x = o) (ht : t.find x = o')
    (hbare : o.map Resource.bare = o'.map Resource.bare)
    (hrevision : (s.store x.kind).revision = (t.store x.kind).revision)
    (hversion : o.map (fun r => r.metadata.resourceVersion) =
      o'.map fun r => r.metadata.resourceVersion) : s.Agree x t := by
  subst hs ht
  exact ⟨hbare, hrevision, hversion⟩

end Commons

theorem Resource.bare_edited (h : r.bare = r'.bare) (n n' : Nat) :
    (r.edited spec n).bare = (r'.edited spec n').bare := by
  have hbare : ∀ (w : Resource) (k : Nat), (w.edited spec k).bare =
      { w.bare with
        spec
        metadata := { w.bare.metadata with
          generation :=
            if Store.sameSpec w.bare { w.bare with spec } then w.bare.metadata.generation
            else some (w.bare.generation + 1)
          resourceVersion := some "" } } := by
    intro w k
    have hsame : Store.sameSpec w.bare { w.bare with spec } =
        Store.sameSpec w { w with spec } := rfl
    rw [hsame, Resource.edited]
    dsimp only
    split
    · rfl
    · rfl
  rw [hbare, hbare, h]

theorem Resource.bare_markedDeleted (h : r.bare = r'.bare) (n n' : Nat) :
    (r.markedDeleted now n).bare = (r'.markedDeleted now n').bare := by
  have hbare : ∀ (w : Resource) (k : Nat), (w.markedDeleted now k).bare =
      { w.bare with
        metadata := { w.bare.metadata with
          deletionTime := some now
          resourceVersion := some "" } } := fun _ _ => rfl
  rw [hbare, hbare, h]

namespace Commons

theorem Agree.edit (h : s.Agree x t) (spec : Spec) : (s.edit x spec).Agree x (t.edit x spec) := by
  have hstored := h.stored
  have hrevision := h.aligned.revision
  cases hr : s.find x with
  | none =>
      rw [hr, Option.map_none, eq_comm, Option.map_eq_none_iff] at hstored
      rw [edit_of_find_eq_none hr, edit_of_find_eq_none hstored]
      exact h
  | some r =>
      rw [hr, Option.map_some, eq_comm, Option.map_eq_some_iff] at hstored
      obtain ⟨r', hr', hbare⟩ := hstored
      obtain ⟨hfind, hnext⟩ := find_edit hr spec
      obtain ⟨hfind', hnext'⟩ := find_edit hr' spec
      refine .of_find hfind hfind' (congrArg some (Resource.bare_edited hbare.symm _ _)) ?_ ?_
      · rw [hnext, hnext', hrevision]
      · rw [hrevision]
        rfl

theorem Agree.markDeleted (h : s.Agree x t) (now : Instant) :
    (s.markDeleted x now).Agree x (t.markDeleted x now) := by
  have hstored := h.stored
  have hrevision := h.aligned.revision
  cases hr : s.find x with
  | none =>
      rw [hr, Option.map_none, eq_comm, Option.map_eq_none_iff] at hstored
      obtain ⟨hfind, hnext⟩ := markDeleted_of_find_eq_none hr now
      obtain ⟨hfind', hnext'⟩ := markDeleted_of_find_eq_none hstored now
      refine .of_find hfind hfind' rfl ?_ rfl
      rw [hnext, hnext', hrevision]
  | some r =>
      rw [hr, Option.map_some, eq_comm, Option.map_eq_some_iff] at hstored
      obtain ⟨r', hr', hbare⟩ := hstored
      obtain ⟨hfind, hnext⟩ := find_markDeleted hr now
      obtain ⟨hfind', hnext'⟩ := find_markDeleted hr' now
      have hfinalizers : r'.finalizers = r.finalizers := Resource.eq_of_bare (fun _ => rfl) hbare
      rw [hfinalizers] at hfind'
      refine .of_find hfind hfind' ?_ ?_ ?_
      · split
        · rfl
        · exact congrArg some (Resource.bare_markedDeleted hbare.symm _ _)
      · rw [hnext, hnext', hrevision]
      · rw [hrevision]
        split
        · rfl
        · rfl

end Commons

namespace Earnest

/-- An edit leaves the object and its status as they are. -/
theorem edited_keeps (hkind : spec.kind = r.kind) (n : Nat) :
    (r.edited spec n).address = r.address ∧
      ObjectId.ofResource (r.edited spec n) = .ofResource r ∧
      (r.edited spec n).conditions = r.conditions ∧ (r.edited spec n).isDeleting = r.isDeleting ∧
      (r.edited spec n).isTerminal = r.isTerminal ∧
      r.generation ≤ (r.edited spec n).generation := by
  have hsame : (⟨spec.kind, r.namespaceName, r.name⟩ : Address) = r.address := by
    rw [hkind]
    rfl
  have hid : (⟨spec.kind.name, r.namespaceName, r.name, r.metadata.uid.getD ""⟩ : ObjectId) =
      .ofResource r := by
    rw [hkind]
    rfl
  rw [Resource.edited]
  split
  · exact ⟨hsame, hid, rfl, rfl, rfl, Int.le_refl _⟩
  · exact ⟨hsame, hid, rfl, rfl, rfl, Int.le_of_lt (Int.lt_succ _)⟩

/-- After an edit of a settled resource there is nothing open. -/
theorem Poised.edit (h : Poised info x true m s) (hkind : spec.kind = x.kind) :
    Poised info x true m (s.edit x spec) := by
  cases hr : s.find x with
  | none =>
      rw [Commons.edit_of_find_eq_none hr]
      exact h
  | some r =>
      have haddress := h.address r hr
      have hkind' : spec.kind = r.kind := hkind.trans (congrArg Address.kind haddress).symm
      obtain ⟨hsame, hid, hconditions, hdeleting, hterminal, hgeneration⟩ :=
        edited_keeps hkind' ((s.store x.kind).revision + 1)
      obtain ⟨hfind, -⟩ := Commons.find_edit hr spec
      refine ⟨fun w hw => ?_, fun w hw hstays hgoesOn => ?_, fun w g hw => ?_⟩
      all_goals obtain rfl := Option.some.inj (hfind.symm.trans hw)
      · exact hsame.trans haddress
      · rw [hdeleting] at hstays
        rw [hterminal] at hgoesOn
        have hremembered := h.living r hr hstays hgoesOn
        have hclosed := hremembered.closed rfl
        have hentry : ∀ e, m.lifecycle.get? (.ofResource r)
            (r.edited spec ((s.store x.kind).revision + 1)).generation = some e →
            m.lifecycle.get? (.ofResource r) r.generation = some e := by
          intro e he
          by_cases heq : (r.edited spec ((s.store x.kind).revision + 1)).generation = r.generation
          · rw [heq] at he
            exact he
          · rw [hremembered.above _ (by omega)] at he
            exact absurd he.symm (Option.some_ne_none e)
        refine ⟨fun g hg => ?_, fun e he => ?_, fun _ e he => ?_, fun hpending => ?_, fun _ => ?_⟩
        · rw [hid]
          exact hremembered.above g (by omega)
        · rw [hid] at he
          have hfinish := hremembered.ended rfl e (hentry e he)
          cases hremembered.rests e (hentry e he) with
          | ahead early _ _ =>
              rw [hfinish] at early
              exact absurd early (by decide)
          | behind stage digest closed => exact .behind stage digest (hconditions ▸ closed)
        · rw [hid] at he
          exact hremembered.ended rfl e (hentry e he)
        · rw [hconditions, hclosed] at hpending
          exact absurd hpending Bool.false_ne_true
        · rw [hconditions]
          exact hclosed
      · rw [hid]
        exact h.leaving r g hr

theorem Poised.markDeleted (h : Poised info x settled m s) (now : Instant) :
    Poised info x settled m (s.markDeleted x now) := by
  cases hr : s.find x with
  | none => exact poised_of_find_eq_none (Commons.markDeleted_of_find_eq_none hr now).1
  | some r =>
      obtain ⟨hfind, -⟩ := Commons.find_markDeleted hr now
      split at hfind
      · exact poised_of_find_eq_none hfind
      · refine ⟨fun w hw => ?_, fun w hw hstays => ?_, fun w g hw => ?_⟩
        all_goals obtain rfl := Option.some.inj (hfind.symm.trans hw)
        · exact h.address r hr
        · exact absurd hstays (by simp [Resource.markedDeleted, Store.withRevision,
            Resource.isDeleting])
        · exact h.leaving r g hr

end Earnest

/-! ### Two runs side by side -/

/-- A module is looked after in earnest, with a memory and a world that come first, and by dry
runs beside. At first nothing is remembered, the same is stored and the module has no release.
Both see the same passes, for which the collaborators oblige, the same edits of what has settled
in the pass before, and the same request to delete it. -/
inductive Rehearsing (info : H → Option ReleaseInfo) (setup : Setup) (x : Address) :
    Bool → Memory → Commons H → Memory → Commons H → Prop
  | start {s t : Commons H} (module : x.kind = .module) (keyed : s.Keyed) (same : t.store = s.store)
      (vacant : ∀ r, s.find x = some r → info (s.releases r.releasePlace) = none) :
      Rehearsing info setup x false .empty s .empty t
  | pass {settled : Bool} {m m' n n' : Memory} {s s' t t' : Commons H} {rules : Rules H}
      {a a' : Except PassError Outcome} (before : Rehearsing info setup x settled m s n t)
      (obliging : rules.Obliging info)
      (credits : rules.Credits x.namespaceName setup.defaults.repository)
      (earnest : PassRuns rules setup x m s a m' s')
      (dry : PassRuns rules setup.dry x n t a' n' t') :
      Rehearsing info setup x (settles a) m' s' n' t'
  | edit {settled : Bool} {m n : Memory} {s t : Commons H}
      (before : Rehearsing info setup x settled m s n t) (calm : settled = true) (spec : Spec)
      (module : spec.kind = .module) :
      Rehearsing info setup x settled m (s.edit x spec) n (t.edit x spec)
  | delete {settled : Bool} {m n : Memory} {s t : Commons H}
      (before : Rehearsing info setup x settled m s n t) (now : Instant) :
      Rehearsing info setup x settled m (s.markDeleted x now) n (t.markDeleted x now)

/-- What the two runs keep: the one in earnest is poised, the same is stored in both and the
trackers have the same entries. -/
structure Abreast (info : H → Option ReleaseInfo) (x : Address) (settled : Bool) (m : Memory)
    (s : Commons H) (n : Memory) (t : Commons H) : Prop where
  module : x.kind = .module
  poised : Earnest.Poised info x settled m s
  agree : s.Agree x t
  memory : Memory.Level x .empty .empty m n

namespace Abreast

/-- A pass ends alike in earnest and as a dry run. -/
theorem pass (h : Abreast info x settled m s n t) (hacts : setup.dryRun = false)
    (hrules : rules.Obliging info)
    (hcredits : rules.Credits x.namespaceName setup.defaults.repository)
    (hearnest : PassRuns rules setup x m s a m' s')
    (hdry : PassRuns rules setup.dry x n t a' n' t') :
    a.map Outcome.bare = a'.map Outcome.bare ∧ Abreast info x (settles a) m' s' n' t' := by
  obtain ⟨hpoised, hshadow⟩ := always_iff_runs.1
    (Earnest.shadowed_pass hrules hacts h.poised hcredits h.module) _ _ hearnest
  let site : Site := ⟨x, (s.find x).map Resource.releasePlace⟩
  have hlevel : site.Level (s.withReleases t.releases) t (s.withReleases t.releases) t := by
    refine ⟨h.agree.stored, fun o ho => ⟨h.poised.address o ho, ?_⟩, fun _ _ => rfl,
      ⟨fun _ _ => rfl, fun _ _ => rfl⟩, ⟨fun _ _ => rfl, fun _ _ => rfl⟩, id⟩
    exact congrArg (Option.map Resource.releasePlace) ho
  obtain ⟨ha, hlevel', hmemory⟩ := paired_iff_runs.1
    (paired_reconcile setup.dry hlevel h.memory) _ _ _ _ (hshadow t.releases) hdry
  have haligned := hlevel'.aligned ⟨h.agree.aligned.revision, h.agree.aligned.stored⟩
  exact ⟨ha, h.module, hpoised, ⟨hlevel'.stored, haligned.revision, haligned.stored⟩, hmemory⟩

end Abreast

theorem Rehearsing.abreast (hacts : setup.dryRun = false)
    (h : Rehearsing info setup x settled m s n t) : Abreast info x settled m s n t := by
  induction h with
  | @start s t module keyed same vacant =>
      have hfind : t.find x = s.find x := by
        rw [Commons.find, same, ← Commons.find]
      refine ⟨module, ⟨fun r hr => keyed.address hr, fun r hr _ _ => ?_, fun _ _ _ => rfl⟩,
        ⟨by rw [hfind], by rw [same], by rw [hfind]⟩, ⟨rfl, rfl, rfl⟩, ⟨rfl, rfl, rfl⟩⟩
      exact Earnest.remembered_empty fun _ => vacant r hr
  | pass before obliging credits earnest dry ih =>
      exact (ih.pass hacts obliging credits earnest dry).2
  | edit before calm spec module ih =>
      subst calm
      exact ⟨ih.module, ih.poised.edit (module.trans ih.module.symm), ih.agree.edit spec, ih.memory⟩
  | delete before now ih =>
      exact ⟨ih.module, ih.poised.markDeleted now, ih.agree.markDeleted now, ih.memory⟩

/-- A resource without the times of its conditions. -/
def Resource.timeless (r : Resource) : Resource := { r with status := r.status.map Status.bare }

theorem Resource.timeless_eq (h : r.bare = r'.bare)
    (hversion : r.metadata.resourceVersion = r'.metadata.resourceVersion) :
    r.timeless = r'.timeless := by
  have htimeless : ∀ w : Resource, w.timeless =
      { w.bare with metadata := { w.bare.metadata with
          resourceVersion := w.metadata.resourceVersion } } := fun _ => rfl
  rw [htimeless, htimeless, h, hversion]

theorem Commons.Agree.timeless (h : s.Agree x t) :
    (s.find x).map Resource.timeless = (t.find x).map Resource.timeless := by
  have hstored := h.stored
  have hversion := h.aligned.stored
  cases hr : s.find x with
  | none =>
      rw [hr, Option.map_none, eq_comm, Option.map_eq_none_iff] at hstored
      rw [hstored]
  | some r =>
      rw [hr, Option.map_some, eq_comm, Option.map_eq_some_iff] at hstored
      obtain ⟨r', hr', hbare⟩ := hstored
      rw [hr, hr'] at hversion
      rw [hr']
      exact congrArg some (Resource.timeless_eq hbare.symm (Option.some.inj hversion))

theorem Tracker.Level.same {start : String} {t u : Tracker}
    (h : Level start .empty .empty t u) : t.Same u := by
  intro key
  cases hkey : Text.hasStart key start with
  | true => exact find?_eq_of_view h.view hkey
  | false => rw [find?_eq_of_dropUnder (h.left.trans h.right.symm) hkey]

/-- Dry runs rehearse what would happen in earnest: pass by pass they end in the same way but for
the delay drawn, and leave the same resource, up to times, and the same entries in both
trackers. -/
theorem dry_runs_rehearse (hacts : setup.dryRun = false)
    (hlife : Rehearsing info setup x settled m s n t) (hrules : rules.Obliging info)
    (hcredits : rules.Credits x.namespaceName setup.defaults.repository)
    (hearnest : PassRuns rules setup x m s a m' s')
    (hdry : PassRuns rules setup.dry x n t a' n' t') :
    a.map Outcome.bare = a'.map Outcome.bare ∧
      (s'.find x).map Resource.timeless = (t'.find x).map Resource.timeless ∧ m'.Same n' := by
  obtain ⟨ha, habreast⟩ := (hlife.abreast hacts).pass hacts hrules hcredits hearnest hdry
  exact ⟨ha, habreast.agree.timeless, habreast.memory.lifecycle.same,
    habreast.memory.deletion.same⟩

/-! ### A life that is rehearsed -/

namespace Rehearsing

open Namesakes

/-- What the trial Helm reports. -/
def report : Option StoredRelease → Option ReleaseInfo := Option.map StoredRelease.info

theorem obliging_trialRules : trialRules.Obliging report where
  accepts _ _ := rfl
  reports _ _ _ := rfl
  deploys _ _ := ⟨_, _, _, rfl, rfl, rfl, fun _ => rfl⟩
  removes _ _ _ _ := ⟨none, rfl, rfl⟩
  manifest _ _ _ _ _ := ⟨"", [], rfl, rfl⟩
  ready _ := rfl
  impartial r _ := ⟨.ok r.chart.version, fun _ => rfl⟩

theorem credits_trialRules (ns : String) : trialRules.Credits ns trialSetup.defaults.repository :=
  fun _ => ⟨none, rfl⟩

/-- The pass over the module `web` at a time. -/
def trialPass (setup : Setup) (time : String) (m : Memory) (s : Commons (Option StoredRelease)) :
    (Except PassError Outcome × Memory) × Commons (Option StoredRelease) :=
  ((((web .module).pass setup).run m).run (trialRules.answer time) : StateM _ _) s

theorem passRuns_trialPass (setup : Setup) (time : String) (m : Memory)
    (s : Commons (Option StoredRelease)) :
    PassRuns trialRules setup (web .module) m s (trialPass setup time m s).1.1
      (trialPass setup time m s).1.2 (trialPass setup time m s).2 :=
  runs_run (trialRules.answered_answer time) _ s

/-- The module is installed. -/
def installed (setup : Setup) (time : String) :
    (Except PassError Outcome × Memory) × Commons (Option StoredRelease) :=
  trialPass setup time .empty commons

/-- The module is edited and goes to the other version. -/
def upgraded (setup : Setup) (time : String) :
    (Except PassError Outcome × Memory) × Commons (Option StoredRelease) :=
  trialPass setup time (installed setup time).1.2
    ((installed setup time).2.edit (web .module) (trialSpec "0.2.0" 2))

/-- The module is deleted and cleared away. -/
def removed (setup : Setup) (time : String) :
    (Except PassError Outcome × Memory) × Commons (Option StoredRelease) :=
  trialPass setup time (upgraded setup time).1.2
    ((upgraded setup time).2.markDeleted (web .module) ⟨0⟩)

theorem passRuns_installed (setup : Setup) (time : String) :
    PassRuns trialRules setup (web .module) .empty commons (installed setup time).1.1
      (installed setup time).1.2 (installed setup time).2 :=
  passRuns_trialPass setup time .empty commons

theorem passRuns_upgraded (setup : Setup) (time : String) :
    PassRuns trialRules setup (web .module) (installed setup time).1.2
      ((installed setup time).2.edit (web .module) (trialSpec "0.2.0" 2))
      (upgraded setup time).1.1 (upgraded setup time).1.2 (upgraded setup time).2 := by
  rw [upgraded]
  exact passRuns_trialPass setup time _ _

theorem passRuns_removed (setup : Setup) (time : String) :
    PassRuns trialRules setup (web .module) (upgraded setup time).1.2
      ((upgraded setup time).2.markDeleted (web .module) ⟨0⟩)
      (removed setup time).1.1 (removed setup time).1.2 (removed setup time).2 := by
  rw [removed]
  exact passRuns_trialPass setup time _ _

theorem rehearsing_upgraded :
    Rehearsing report trialSetup (web .module) (settles (upgraded trialSetup "09:00").1.1)
      (upgraded trialSetup "09:00").1.2 (upgraded trialSetup "09:00").2
      (upgraded trialSetup.dry "10:00").1.2 (upgraded trialSetup.dry "10:00").2 := by
  have hstart : Rehearsing report trialSetup (web .module) false .empty commons .empty commons :=
    .start rfl keyed_commons rfl fun _ _ => rfl
  have hinstalled := hstart.pass obliging_trialRules (credits_trialRules _)
    (passRuns_installed trialSetup "09:00") (passRuns_installed trialSetup.dry "10:00")
  have hcalm : settles (installed trialSetup "09:00").1.1 = true := by decide +kernel
  exact (hinstalled.edit hcalm (trialSpec "0.2.0" 2) rfl).pass obliging_trialRules
    (credits_trialRules _) (passRuns_upgraded trialSetup "09:00")
    (passRuns_upgraded trialSetup.dry "10:00")

end Rehearsing

open Namesakes Rehearsing in
/-- In earnest there was a release, in the dry run there was none, and the deletion of the module
comes to the same. -/
theorem removal_is_rehearsed :
    ((upgraded trialSetup "09:00").2.releases ("web", "default")).map
        (fun release => release.info.chartVersion) = some "0.2.0" ∧
      ((upgraded trialSetup.dry "10:00").2.releases ("web", "default")).isNone = true ∧
      (removed trialSetup "09:00").1.1.map Outcome.bare =
        (removed trialSetup.dry "10:00").1.1.map Outcome.bare ∧
      ((removed trialSetup "09:00").2.find (web .module)).map Resource.timeless =
        ((removed trialSetup.dry "10:00").2.find (web .module)).map Resource.timeless ∧
      (removed trialSetup "09:00").1.2.Same (removed trialSetup.dry "10:00").1.2 := by
  refine ⟨by decide +kernel, by decide +kernel, ?_⟩
  exact dry_runs_rehearse rfl (rehearsing_upgraded.delete ⟨0⟩) obliging_trialRules
    (credits_trialRules _) (passRuns_removed trialSetup "09:00")
    (passRuns_removed trialSetup.dry "10:00")

end ReleaseOperator
