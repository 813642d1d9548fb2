import ReleaseOperator.Proofs.Estate.Asked
import ReleaseOperator.Proofs.Estate.Convergence

/-!
# When the latest edit wins

After an edit of a module the action is chosen anew from the status that the generation
before has left. An update or an upgrade applies the release in any case. An installation
passes by a release that stands already: if it is at another version than the one asked
for now, the installation waits for that version for good, and nothing applies it. So the
latest edit wins exactly when the work that is chosen can move the release.
-/

namespace ReleaseOperator

open InMemory Program Situation

/-!
## Work that moves the release

An update or an upgrade applies the release, and so does an installation where no release
stands. An installation over a release at the version asked for only completes, but an
update follows if the values are others.
-/

namespace Estate

variable {g : Ground} {trouble : Prop} {setup : Setup} {x y z : Situation} {o r : Resource}
  {release : Option StoredRelease} {stored : StoredRelease} {documents own : List Json}
  {a : Action} {n : Nat} {requeue : Bool}

/-- What the work on a new generation can bring to what is asked for: an update or an
upgrade, an installation where no release stands, and one where the release that stands
is at the version asked for, if its values are those asked for or the version can be
read, so that an update follows. -/
inductive Movable (g : Ground) (documents : List Json) (r : Resource)
    (release : Option StoredRelease) : Prop
  | moved {a : Action} (hselect : r.selectAction = .ok a) (ha : a ≠ .install)
  | installed (hselect : r.selectAction = .ok .install) (hnone : release = none)
  | standing {stored : StoredRelease} (hselect : r.selectAction = .ok .install)
      (hrelease : release = some stored) (hat : isAt r release = true)
      (hvalues : g.values stored.documents = Values.mergeAll documents ∨
        ∃ v, Version.parse r.desiredVersion = .ok v)

theorem asAsked_of_isAt (hat : isAt r (some stored) = true)
    (hnamed : r.desiredVersion.isEmpty = false)
    (hvalues : g.values stored.documents = Values.mergeAll documents)
    (hlast : r.lastVersion = some r.desiredVersion) : AsAsked g documents r (some stored) := by
  obtain ⟨hdeployed, hempty | hversion⟩ := (isAt_some r stored).1 hat
  · rw [hnamed] at hempty
    exact absurd hempty Bool.false_ne_true
  · exact ⟨⟨stored, rfl, hdeployed, hversion, hvalues⟩, hlast⟩

/-- A release that is applied has what is asked for. -/
theorem Applied.asAsked (h : Applied g setup r release)
    (hprovided : Provided g setup r documents) (hnamed : r.desiredVersion.isEmpty = false)
    (hvalues : g.values (Sources.render documents) = Values.mergeAll documents)
    (hlast : r.lastVersion = some r.desiredVersion) : AsAsked g documents r release := by
  obtain ⟨documents', hprovided', rfl⟩ := h
  obtain rfl := hprovided'.2.unique hprovided.2
  exact asAsked_of_isAt (isAt_wanted r _) hnamed hvalues hlast

/-- The work on a module that names its version and whose values are found. -/
structure Workable (g : Ground) (setup : Setup) (documents : List Json) (r : Resource) : Prop where
  kind : r.kind = .module
  provided : Provided g setup r documents
  named : r.desiredVersion.isEmpty = false
  values : g.values (Sources.render documents) = Values.mergeAll documents

theorem Workable.alike {r' : Resource} (h : Workable g setup documents r) (hr : r.Alike r') :
    Workable g setup documents r' :=
  ⟨hr.kind.trans h.kind, Provided.alike h.provided hr,
    (congrArg String.isEmpty hr.desiredVersion).trans h.named, h.values⟩

theorem Workable.restated {r' : Resource} (h : Workable g setup documents r)
    (hr : r.Restated r') : Workable g setup documents r' :=
  ⟨hr.kind.trans h.kind, Provided.restated h.provided hr,
    (congrArg String.isEmpty hr.desiredVersion).trans h.named, h.values⟩

/-- A sound course over a named version comes to its end. -/
theorem Workable.finishes {serves : Resource → Option StoredRelease → Prop}
    (h : Workable g setup documents x.resource) (hserves : Service g setup serves)
    (hx : Sound serves a x) (hcourse : Course g setup False a x requeue y) :
    y.entry.stage = .finish ∧ Sound serves a y ∧ x.resource.Restated y.resource := by
  rcases hcourse.calm hserves h.kind ⟨_, h.provided⟩ hx with
    ⟨_, hfinish, hsound, hr⟩ | ⟨_, _, hempty, _⟩
  · exact ⟨hfinish, hsound, hr⟩
  · rw [h.named] at hempty
    exact absurd hempty Bool.false_ne_true

/-- A course that applies the release ends with what is asked for. -/
theorem Workable.asAsked (h : Workable g setup documents x.resource) (ha : a ≠ .install)
    (hstage : x.entry.stage = .start) (hcourse : Course g setup False a x requeue y) :
    AsAsked g documents y.resource y.release := by
  have hsound : Sound (Applied g setup) a x := by
    refine .of_rank_le ?_ fun hinstall => absurd hinstall ha
    rw [hstage]
    decide
  obtain ⟨hfinish, hend, hr⟩ := h.finishes service_applied hsound hcourse
  have hy := h.restated hr
  have happlied := hend.served (by rw [hfinish]; decide)
  exact Applied.asAsked happlied hy.provided hy.named hy.values
    (hend.done hfinish).lastVersion

theorem comes_of_found {gen : Int} (hfound : Found y gen z)
    (h : AsAsked g documents y.resource y.release) : Comes g setup documents n z := by
  apply comes_of_asAsked
  rw [hfound.1, hfound.2.1]
  exact h

/-- An update or an upgrade comes to what is asked for. -/
theorem Workable.comes_of_moved (h : Workable g setup documents x.resource) (hx : Unbegun x)
    (hselect : x.resource.selectAction = .ok a) (ha : a ≠ .install)
    (hheld : x.resource.hasFinalizer = true) : Comes g setup documents 1 x := by
  right
  intro z hz
  obtain ⟨_, y, hcourse, hfound⟩ := hx.begun hz hheld hselect
  have hstage : x.entry.stage = .start := by
    obtain ⟨gen, hentry⟩ := hx
    rw [hentry]
    rfl
  exact comes_of_found hfound
    (Workable.asAsked (x := { x with entry := x.entry.pin a }) h ha hstage hcourse)

/-- An installation passes by a release that stands. -/
theorem release_of_stands (h : Course g setup trouble .install x requeue y)
    (hstands : stands x.release = true) :
    y.release = x.release ∧ y.entry.digest = x.entry.digest := by
  induction h with
  | finish _ => exact ⟨rfl, rfl⟩
  | halt hhalt => cases hhalt <;> exact ⟨rfl, rfl⟩
  | advance hadvance _ ih =>
      cases hadvance with
      | apply _ _ hno =>
          rw [hno rfl] at hstands
          exact absurd hstands Bool.false_ne_true
      | _ => exact ih hstands

/-- Finished work on a release with other values is done again as an update. -/
theorem Workable.comes_of_finished (h : Workable g setup documents x.resource)
    (hstage : x.entry.stage = .finish) (hheld : x.resource.hasFinalizer = true)
    (hselect : x.resource.selectAction = .ok .update) (hrelease : x.release = some stored)
    (hdigest : x.entry.digest = none)
    (hdiffer : Values.digest (g.values stored.documents) ≠ digestOf documents) :
    Comes g setup documents 1 x := by
  have happlied : ∀ documents', x.appliedDigest g documents' =
      Values.digest (g.values stored.documents) := by
    intro documents'
    rw [appliedDigest, hdigest, hrelease]
    rfl
  right
  rintro z ⟨requeue, y, hthrough, hfound⟩
  cases hthrough with
  | hindered hfalse => exact hfalse.elim
  | hold hno _ =>
      rw [hheld] at hno
      exact absurd hno.symm Bool.false_ne_true
  | live _ hlive =>
      cases hlive with
      | settled _ hselects =>
          rw [selectsUpdate_iff.2 hselect] at hselects
          exact absurd hselects.symm Bool.false_ne_true
      | hindered _ hwhy =>
          rcases hwhy with hfalse | hnone
          · exact hfalse.elim
          · exact absurd ⟨_, h.provided⟩ hnone
      | unchanged _ _ hvalued hsame =>
          obtain rfl := hvalued.unique h.provided.2
          rcases hsame with hfalse | hsame
          · exact hfalse.elim
          · exact absurd ((happlied _).symm.trans hsame) hdiffer
      | changed _ _ _ _ hcourse =>
          exact comes_of_found hfound
            (Workable.asAsked (x := x.rearmed _) h (by decide) rfl hcourse)
      | undecided hno _ _ => exact absurd hstage hno
      | chosen hno _ _ _ => exact absurd hstage hno
      | kept hno _ _ => exact absurd hstage hno

/-- An installation over a release at the version asked for completes, and if the values
are others it is followed by an update. -/
theorem Workable.comes_of_standing (h : Workable g setup documents x.resource) (hx : Unbegun x)
    (hselect : x.resource.selectAction = .ok .install) (hheld : x.resource.hasFinalizer = true)
    (hrelease : x.release = some stored) (hat : isAt x.resource x.release = true)
    (hvalues : g.values stored.documents = Values.mergeAll documents ∨
      Values.digest (g.values stored.documents) ≠ digestOf documents ∧
        ∃ v, Version.parse x.resource.desiredVersion = .ok v) :
    Comes g setup documents 2 x := by
  have hstands : stands x.release = true := by
    rw [hrelease, isAt_some] at hat
    rw [hrelease]
    simp [stands, Work.standsAlready, hat.1]
  right
  intro z hz
  obtain ⟨_, y, hcourse, hfound⟩ := hx.begun hz hheld hselect
  obtain ⟨gen, hentry⟩ := hx
  have hsound : Sound (fun r release => isAt r release = true) .install
      { x with entry := x.entry.pin .install } := by
    refine .of_rank_le ?_ fun _ _ => hat
    rw [hentry]
    exact Nat.zero_le 5
  obtain ⟨hfinish, hend, hr⟩ := Workable.finishes
    (x := { x with entry := x.entry.pin .install }) h service_isAt hsound hcourse
  obtain ⟨hsame, hdigest⟩ := release_of_stands hcourse hstands
  have hdone := hend.done hfinish
  have hy := h.restated hr
  have hyrelease : y.release = some stored := hsame.trans hrelease
  have hyat : isAt y.resource (some stored) = true := by
    rw [← hyrelease]
    exact hend.served (by rw [hfinish]; decide)
  rcases hvalues with hvalues | ⟨hdiffer, v, hparse⟩
  · apply comes_of_found hfound
    rw [hyrelease]
    exact asAsked_of_isAt hyat hy.named hvalues hdone.lastVersion
  · have hyheld : y.resource.hasFinalizer = true := by
      obtain ⟨n, status, heq⟩ := hr
      rw [heq]
      exact hheld
    have hupdate : y.resource.selectAction = .ok .update := by
      rcases selectAction_concluded hdone.closed hdone.lastVersion with hok | ⟨e, _, herror, _⟩
      · exact hok
      · rw [hr.desiredVersion, hparse] at herror
        exact absurd herror (by simp)
    obtain ⟨hresource, hzrelease, hzentry⟩ := hfound
    rw [← hresource] at hy hyheld hupdate
    rcases hzentry with ⟨hkept, _⟩ | hfresh
    · refine hy.comes_of_finished ?_ hyheld hupdate (hzrelease.trans hyrelease) ?_ hdiffer
      · rw [hkept]
        exact hfinish
      · rw [hkept, hdigest, hentry]
        rfl
    · exact hy.comes_of_moved ⟨_, hfresh⟩ hupdate (by decide) hyheld

/-- A first installation comes to what is asked for. -/
theorem Steady.comes (hkind : o.kind = .module)
    (hnamed : (Text.trim (askedVersion g setup o)).isEmpty = false) (hown : Resolves g o own)
    (hcredited : Credited g setup o) (hgeneric : ∀ release, setup.baseValues release = none)
    (hvalues : g.values (Sources.render own) = Values.mergeAll own) (hx : Steady g setup o x)
    (hmissing : missing x.resource < n) : Comes g setup own n x := by
  have hasAsked : ∀ {y}, Steady g setup o y → Attained g setup y.resource y.release →
      y.resource.lastVersion = some y.resource.desiredVersion →
      AsAsked g own y.resource y.release := by
    intro y hy hat hlast
    have hprovided := hy.fitting.kin.provided hkind hown hcredited
    rw [hgeneric] at hprovided
    exact Applied.asAsked hat.2 hprovided hat.1 hvalues hlast
  induction n generalizing x with
  | zero => exact absurd hmissing (Nat.not_lt_zero _)
  | succ n ih =>
      by_cases hnow : AsAsked g own x.resource x.release
      · exact Or.inl hnow
      · right
        rintro z ⟨requeue, y, hthrough, hfound⟩
        have hz := hx.next hkind hnamed hthrough hfound
        cases hx.calm hkind hnamed hown hcredited hthrough with
        | complete hstage _ hy =>
            have hat := hy.applied_of_rank (by rw [hstage]; decide)
            exact comes_of_found hfound (hasAsked hy hat (hy.done hstage).lastVersion)
        | closer hless =>
            rw [← hfound.1] at hless
            exact ih hz (by omega)
        | stuck hat hlast _ => exact absurd (hasAsked hx hat hlast) hnow

/-- Movable work comes to what is asked for. -/
theorem Movable.comes (hx : Orderly x) (hunbegun : Unbegun x)
    (h : Movable g own x.resource x.release) (hkind : x.resource.kind = .module)
    (hgeneric : ∀ release, setup.baseValues release = none) (hown : Resolves g x.resource own)
    (hcredited : Credited g setup x.resource)
    (hnamed : (Text.trim (askedVersion g setup x.resource)).isEmpty = false)
    (hvalues : g.values (Sources.render own) = Values.mergeAll own)
    (hdigest : ∀ stored, x.release = some stored →
      Values.digest (g.values stored.documents) = digestOf own →
        g.values stored.documents = Values.mergeAll own) :
    Comes g setup own 3 x := by
  have hprovided : Provided g setup x.resource own := by
    have hkin := (Kin.refl x.resource).provided hkind hown hcredited
    rw [hgeneric] at hkin
    exact hkin
  cases h with
  | moved hselect ha =>
      have hversion := hx.named_of_selectAction hselect ha
      refine (hunbegun.comes fun z hz hr _ hheld => ?_).succ
      have hwork : Workable g setup own x.resource := ⟨hkind, hprovided, hversion, hvalues⟩
      exact (hwork.alike hr).comes_of_moved hz (hr.selectAction.trans hselect) ha hheld
  | installed hselect hnone =>
      obtain ⟨r, release, e⟩ := x
      obtain ⟨gen, rfl⟩ := hunbegun
      obtain rfl : release = none := hnone
      have hfitting : Fitting g setup r r none :=
        ⟨.refl r, Or.inl rfl, Or.inl (installPending_of_selectAction hselect)⟩
      exact (hfitting.steady gen).comes hkind hnamed hown hcredited hgeneric hvalues
        (Nat.lt_succ_of_le (missing_le r))
  | @standing stored hselect hrelease hat hcase =>
      have hversion := hx.named_of_release hrelease
      refine hunbegun.comes fun z hz hr hsame hheld => ?_
      have hwork : Workable g setup own x.resource := ⟨hkind, hprovided, hversion, hvalues⟩
      refine (hwork.alike hr).comes_of_standing hz (hr.selectAction.trans hselect) hheld
        (hsame.trans hrelease) ?_ ?_
      · rw [isAt, hr.desiredVersion, hsame]
        exact hat
      · rw [hr.desiredVersion]
        by_cases heq : g.values stored.documents = Values.mergeAll own
        · exact Or.inl heq
        · exact Or.inr ⟨fun hd => heq (hdigest stored hrelease hd), hcase.resolve_left heq⟩

/-! ## The latest edit -/

variable {ns name : String} {m : Memory} {s s' : Estate}

/-- Where the work is not movable it is inert or undecided. -/
theorem inert_or_undecided (hx : Orderly x) (hunbegun : Unbegun x)
    (hkind : x.resource.kind = .module) (hnot : ¬AsAsked g documents x.resource x.release)
    (hstays : ¬Movable g documents x.resource x.release) :
    Inert g documents x ∨ Undecided g documents x := by
  cases hselect : x.resource.selectAction with
  | error e => exact Or.inr ⟨hunbegun, ⟨e, hselect⟩, hnot⟩
  | ok a =>
      left
      by_cases ha : a = .install
      · subst ha
        cases hrelease : x.release with
        | none => exact absurd (.installed hselect hrelease) hstays
        | some stored =>
            obtain ⟨gen, hentry⟩ := hunbegun
            refine ⟨hkind, ?_, hx.named_of_release hrelease, fun a ha => ?_,
              Or.inl (installPending_of_selectAction hselect), fun _ => ?_, fun hat => ?_⟩
            · rw [hrelease]
              simp [stands, Work.standsAlready, hx.deployed stored hrelease]
            · rw [hentry] at ha
              exact absurd ha (by simp [Entry.fresh])
            · rw [hentry]
              simp [Entry.fresh, Stage.rank]
            · have hneither := fun h => hstays (.standing hselect hrelease hat h)
              refine ⟨?_, fun heq => ?_⟩
              · cases hparse : Version.parse x.resource.desiredVersion with
                | error e => exact ⟨e, rfl⟩
                | ok v => exact absurd (Or.inr ⟨v, hparse⟩) hneither
              · rw [hrelease] at heq
                exact hneither (Or.inl (Option.some.inj heq))
      · exact absurd (.moved hselect ha) hstays

/-- However a module was edited at last and whatever it has been through: when nothing
fails any more, it comes to what it asks for if and only if it is there already or its
work can move the release. -/
theorem latest_spec_wins_iff {r : Resource} (hacts : setup.dryRun = false)
    (hgeneric : ∀ release, setup.baseValues release = none)
    (hlived : Lived g setup ns name m s) (hedit : Edits ns name s s')
    (hstored : s'.store.get? ns name = some r) (hown : Resolves g r own)
    (hcredited : Credited g setup r)
    (hnamed : (Text.trim (askedVersion g setup r)).isEmpty = false)
    (hvalues : g.values (Sources.render own) = Values.mergeAll own)
    (hdigest : ∀ stored, s'.releases.get? (r.releaseKey setup) = some stored →
      Values.digest (g.values stored.documents) = digestOf own →
        g.values stored.documents = Values.mergeAll own) :
    (∃ n, Within g setup ns name (Carries g setup ns name own) n m s') ↔
      AsAsked g own r (s'.releases.get? (r.releaseKey setup)) ∨
        Movable g own r (s'.releases.get? (r.releaseKey setup)) := by
  obtain ⟨x, hviews, hx⟩ := hlived.orderly hacts
  obtain ⟨r', hviews', hx'⟩ := hviews.edit hx hedit
  obtain rfl : r' = r := Option.some.inj (hviews'.stored.symm.trans hstored)
  have hkind := hviews'.tended.kind
  have hunbegun : Unbegun ⟨r', x.release, .fresh r'.generation .start⟩ := ⟨_, rfl⟩
  rw [hviews'.release] at hdigest ⊢
  constructor
  · rintro ⟨n, hwithin⟩
    by_cases hnow : AsAsked g own r' x.release
    · exact Or.inl hnow
    · right
      by_contra hstays
      rcases inert_or_undecided hx' hunbegun hkind hnow hstays with hinert | hundecided
      · exact hviews'.never (fun _ _ => Inert.next) (fun _ => Inert.not_asAsked) hinert hwithin
      · exact hviews'.never (fun _ _ => Undecided.next) (fun _ h => h.2.2) hundecided hwithin
  · rintro (hnow | hmovable)
    · exact ⟨0, hviews'.within hnow⟩
    · exact ⟨3, hviews'.within (Movable.comes hx' hunbegun hmovable hkind hgeneric hown hcredited
        hnamed hvalues hdigest)⟩

theorem lived_trialModule :
    Lived trialGround trialSetup "default" "web" .empty (trialEstate trialModule) :=
  .start (keyed_trialStore rfl rfl) rfl rfl rfl rfl rfl (fun hempty => absurd hempty (by decide))
    fun _ => rfl

/-- The hypotheses of `latest_spec_wins_iff` hold of a module that is edited before the
first pass, and its latest edit wins. -/
theorem latest_spec_wins_iff_trialModule :
    ∃ s' r, Lived trialGround trialSetup "default" "web" .empty (trialEstate trialModule) ∧
      Edits "default" "web" (trialEstate trialModule) s' ∧
      s'.store.get? "default" "web" = some r ∧ r.spec = trialSpec "0.2.0" 2 ∧
      ∃ n, Within trialGround trialSetup "default" "web"
        (Carries trialGround trialSetup "default" "web" [replicas 2]) n .empty s' := by
  have hfound : (trialEstate trialModule).store.get? "default" "web" = some trialModule := rfl
  have hsame : Store.sameSpec trialModule { trialModule with spec := trialSpec "0.2.0" 2 } =
      false := by decide +kernel
  obtain ⟨s', r, hedit, hreleases, hstored, hspec, hstatus⟩ :=
    exists_edits hfound rfl (Or.inr ⟨⟨0, 2, 0, [], []⟩, rfl⟩) hsame
  refine ⟨s', r, lived_trialModule, hedit, hstored, hspec, ?_⟩
  obtain ⟨hown, hcredited, hdesired⟩ := trial_of_spec hspec
  have hnone : ∀ key, s'.releases.get? key = none := by
    rw [hreleases]
    exact fun _ => rfl
  have hnamed : (Text.trim (askedVersion trialGround trialSetup r)).isEmpty = false := by
    rw [askedVersion_of_named (by rw [hdesired]; decide), hdesired]
    decide
  have hpending : installPending r.conditions = true := by
    rw [Resource.conditions, Resource.statusD, hstatus]
    rfl
  refine (latest_spec_wins_iff rfl (fun _ => rfl) lived_trialModule hedit hstored hown hcredited
    hnamed values_trialGround.2 ?_).2
      (Or.inr (.installed (selectAction_pending hpending) (hnone _)))
  intro stored hsome
  rw [hnone] at hsome
  exact absurd hsome (by simp)

/-- A pass on which the release does not come to be ready leaves the installation waiting. -/
theorem exists_waiting_trialModule :
    ∃ m s x stored, Lived trialGround trialSetup "default" "web" m s ∧
      Views trialSetup "default" "web" x m s ∧ Orderly x ∧
      x.resource.spec = trialSpec "0.1.0" 1 ∧ installPending x.resource.conditions = true ∧
      x.release = some stored ∧ stored.info.chartVersion = "0.1.0" := by
  obtain ⟨_, hrun⟩ := runs_stalledPasses trialGround trialSetup "default" "web" 0
    (.empty, trialEstate trialModule)
  have hpending : ((stalledPasses trialGround trialSetup "default" "web" 1
      (.empty, trialEstate trialModule)).2.store.get? "default" "web").any
        (fun r => installPending r.conditions) = true := by decide +kernel
  have hrelease : ((stalledPasses trialGround trialSetup "default" "web" 1
      (.empty, trialEstate trialModule)).2.releases.get?
        (trialModule.releaseKey trialSetup)).isSome = true := by decide +kernel
  have htroubled := troubled_stalledPasses trialGround trialSetup "default" "web" 1 .empty
    (trialEstate trialModule)
  generalize stalledPasses trialGround trialSetup "default" "web" 1
    (.empty, trialEstate trialModule) = ms at *
  have hlived : Lived trialGround trialSetup "default" "web" ms.1 ms.2 :=
    .pass lived_trialModule hrun
  obtain ⟨x, hx, hsteady⟩ := htroubled.steady_of_new (o := trialModule) rfl
    (keyed_trialStore rfl rfl) rfl rfl rfl rfl rfl rfl fun _ => rfl
  obtain ⟨x', hx', horderly⟩ := hlived.orderly rfl
  obtain rfl := hx'.unique hx
  rw [hx.stored] at hpending
  rw [← (hsteady.fitting.kin.sameRelease rfl).1, hx.release] at hrelease
  have hattained : Attained trialGround trialSetup x'.resource x'.release := by
    refine hsteady.fitting.served.resolve_left fun hnone => ?_
    rw [hnone] at hrelease
    exact absurd hrelease Bool.false_ne_true
  obtain ⟨hnamed, documents, _, hwanted⟩ := hattained
  have hspec : x'.resource.spec = trialSpec "0.1.0" 1 := by
    rcases hsteady.fitting.kin.spec with hspec | ⟨hempty, _⟩
    · exact hspec
    · exact absurd hempty (by decide)
  refine ⟨ms.1, ms.2, x', _, hlived, hx, horderly, hspec, hpending, hwanted, ?_⟩
  rw [chartVersion_wanted hnamed, (trial_of_spec hspec).2.2]
  decide

/-- The user of a module whose installation waits asks for a newer version, which is never
applied, although nothing fails from then on. -/
theorem newer_version_never_comes :
    ∃ m s s' r, Lived trialGround trialSetup "default" "web" m s ∧
      Edits "default" "web" s s' ∧ s'.store.get? "default" "web" = some r ∧
      r.spec = trialSpec "0.2.0" 1 ∧ Resolves trialGround r [replicas 1] ∧
      Credited trialGround trialSetup r ∧
      trialGround.values (Sources.render [replicas 1]) = Values.mergeAll [replicas 1] ∧
      ∀ n, ¬Within trialGround trialSetup "default" "web"
        (Carries trialGround trialSetup "default" "web" [replicas 1]) n m s' := by
  obtain ⟨m, s, x, stored, hlived, hx, horderly, hspec, hpending, hrelease, hversion⟩ :=
    exists_waiting_trialModule
  have hsame : Store.sameSpec x.resource { x.resource with spec := trialSpec "0.2.0" 1 } =
      false := by
    have hdiffer : (trialSpec "0.1.0" 1).toJson.agrees (trialSpec "0.2.0" 1).toJson = false := by
      decide +kernel
    rw [Store.sameSpec, hspec]
    exact hdiffer
  obtain ⟨s', r, hedit, _, hstored, hspec', hstatus⟩ :=
    exists_edits hx.stored hspec (Or.inr ⟨⟨0, 2, 0, [], []⟩, rfl⟩) hsame
  obtain ⟨hown, hcredited, hdesired⟩ := trial_of_spec hspec'
  refine ⟨m, s, s', r, hlived, hedit, hstored, hspec', hown, hcredited, values_trialGround.1,
    fun n => ?_⟩
  obtain ⟨r', hr, _⟩ := hx.edit horderly hedit
  obtain rfl : r' = r := Option.some.inj (hr.stored.symm.trans hstored)
  have hother : ¬isAt r' x.release = true := by
    rw [hrelease, isAt_some, hversion, hdesired]
    exact fun h => absurd h.2 (by decide)
  have hpending' : installPending r'.conditions = true := by
    rw [Resource.conditions, Resource.statusD, hstatus]
    exact hpending
  refine hr.never (fun _ _ => Inert.next) (fun _ => Inert.not_asAsked)
    ⟨hr.tended.kind, ?_, ?_, ?_, Or.inl hpending', fun _ => Nat.zero_le 6,
      fun hat => absurd hat hother⟩
  · rw [hrelease, stands, Option.map_some, Work.standsAlready]
    exact decide_eq_true fun hfailed => absurd ((horderly.deployed stored hrelease).symm.trans
      hfailed) (by decide)
  · dsimp only
    rw [hdesired]
    decide
  · exact fun _ ha => absurd ha (by simp [Entry.fresh])

end Estate

end ReleaseOperator
