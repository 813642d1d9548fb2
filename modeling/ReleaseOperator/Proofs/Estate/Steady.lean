import ReleaseOperator.Proofs.Estate.Kin

/-!
# What holds throughout a first installation

Whatever fails during the installation of a new module, what is stored, what is deployed
and what is remembered keep fitting together: the release, if there is one, is the one
asked for, and behind the work it is there.
-/

namespace ReleaseOperator

open InMemory Program Situation

namespace Estate

variable {g : Ground} {trouble : Prop} {setup : Setup} {x y z : Situation} {o r r' : Resource}
  {release : Option StoredRelease} {a : Action} {requeue : Bool}

/-- The version is known, and the release is the one asked for. -/
def Attained (g : Ground) (setup : Setup) (r : Resource) (release : Option StoredRelease) : Prop :=
  r.desiredVersion.isEmpty = false ∧ Applied g setup r release

/-- What holds of a module and its release, whatever is remembered. -/
structure Fitting (g : Ground) (setup : Setup) (o r : Resource)
    (release : Option StoredRelease) : Prop where
  kin : Kin g setup o r
  served : release = none ∨ Attained g setup r release
  status : installPending r.conditions = true ∨
    Attained g setup r release ∧ r.lastVersion = some r.desiredVersion

/-- What holds of a situation during an installation. -/
structure Steady (g : Ground) (setup : Setup) (o : Resource) (x : Situation) : Prop where
  fitting : Fitting g setup o x.resource x.release
  fresh : x.entry.action = none → x.entry.stage = .start
  action : ∀ a, x.entry.action = some a → a = .install ∨
    a = .update ∧ Attained g setup x.resource x.release ∧
      x.resource.lastVersion = some x.resource.desiredVersion
  version : 3 < x.entry.stage.rank → x.resource.desiredVersion.isEmpty = false
  sound : ∀ a, x.entry.action = some a → Sound (Applied g setup) a x

theorem Fitting.steady (h : Fitting g setup o r release) (gen : Int) :
    Steady g setup o ⟨r, release, .fresh gen .start⟩ :=
  ⟨h, fun _ => rfl, fun _ ha => absurd ha (by simp [Entry.fresh]),
    fun hrank => absurd hrank (by simp [Entry.fresh, Stage.rank]),
    fun _ ha => absurd ha (by simp [Entry.fresh])⟩

theorem Steady.found {gen : Int} (h : Steady g setup o x) (hfound : Found x gen y) :
    Steady g setup o y := by
  obtain ⟨r, release, e⟩ := y
  obtain ⟨rfl, rfl, ⟨rfl, _⟩ | rfl⟩ := hfound
  · exact h
  · exact h.fitting.steady _

theorem Attained.restated (h : Attained g setup r release) (hr : r.Restated r') :
    Attained g setup r' release := by
  refine ⟨?_, h.2.restated hr⟩
  rw [hr.desiredVersion]
  exact h.1

theorem Fitting.noted {reason : Reason} (h : Fitting g setup o r release)
    (hn : r.Noted reason r')
    (hreason : Reason.installPending.contains reason = true ∨
      Attained g setup r release ∧ r.lastVersion = some r.desiredVersion) :
    Fitting g setup o r' release := by
  refine ⟨h.kin.restated hn.restated, h.served.imp_right fun hat => hat.restated hn.restated, ?_⟩
  rcases hreason with hpending | ⟨hat, hlast⟩
  · left
    rw [installPending_of_endsIn hn.ends]
    exact hpending
  · right
    refine ⟨hat.restated hn.restated, ?_⟩
    rw [hn.lastVersion, hn.restated.desiredVersion]
    exact hlast

/-- What is chosen when nothing is pinned. -/
theorem Fitting.selectAction (h : Fitting g setup o r release) :
    r.selectAction = .ok .install ∨
      (Attained g setup r release ∧ r.lastVersion = some r.desiredVersion) ∧
        (r.selectAction = .ok .update ∨
          ∃ e e', Version.parse r.desiredVersion = .error e ∧ r.selectAction = .error e') := by
  cases hpending : installPending r.conditions with
  | true => exact Or.inl (selectAction_pending hpending)
  | false =>
      rcases h.status with hp | hstatus
      · rw [hpending] at hp
        exact absurd hp Bool.false_ne_true
      · exact Or.inr ⟨hstatus, selectAction_concluded hpending hstatus.2⟩

/-! ### One pass keeps it -/

theorem Attained.advance (hat : Attained g setup x.resource x.release)
    (h : Advance g setup a x y) : Attained g setup y.resource y.release := by
  cases h with
  | announce _ _ hnoted => exact hat.restated hnoted.restated
  | apply _ hprovided _ => exact ⟨hat.1, _, hprovided, rfl⟩
  | conclude _ hconcluded => exact hat.restated hconcluded.restated
  | _ => exact hat

theorem lastVersion_advance (hlast : x.resource.lastVersion = some x.resource.desiredVersion)
    (h : Advance g setup a x y) : y.resource.lastVersion = some y.resource.desiredVersion := by
  cases h with
  | announce _ _ hnoted =>
      exact (hnoted.lastVersion.trans hlast).trans
        (congrArg some hnoted.restated.desiredVersion.symm)
  | conclude _ hconcluded =>
      exact hconcluded.lastVersion.trans
        (congrArg some hconcluded.restated.desiredVersion.symm)
  | _ => exact hlast

theorem Steady.update (hx : Steady g setup o x) (ha : x.entry.action = some a)
    (hne : a ≠ .install) : Attained g setup x.resource x.release ∧
      x.resource.lastVersion = some x.resource.desiredVersion := by
  rcases hx.action a ha with heq | ⟨_, hat⟩
  · exact absurd heq hne
  · exact hat

theorem Steady.fitting_advance (hx : Steady g setup o x) (ha : x.entry.action = some a)
    (h : Advance g setup a x y) : Fitting g setup o y.resource y.release := by
  cases h with
  | announce _ hreason hnoted =>
      refine hx.fitting.noted hnoted ?_
      by_cases hinstall : a = .install
      · rw [hinstall] at hreason
        exact Or.inl (announced_installPending hreason)
      · exact Or.inr (hx.update ha hinstall)
  | apply hstage hprovided _ =>
      have hversion := hx.version (by rw [hstage]; decide)
      exact ⟨hx.fitting.kin, Or.inr ⟨hversion, _, hprovided, rfl⟩,
        hx.fitting.status.imp_right fun hlast => ⟨⟨hversion, _, hprovided, rfl⟩, hlast.2⟩⟩
  | conclude hstage hconcluded =>
      have hrank : 5 < x.entry.stage.rank := by
        rw [hstage]
        decide
      have hattained : Attained g setup x.resource x.release :=
        ⟨hx.version (by omega), (hx.sound a ha).served hrank⟩
      have hattained' := hattained.restated hconcluded.restated
      refine ⟨hx.fitting.kin.restated hconcluded.restated, Or.inr hattained',
        Or.inr ⟨hattained', ?_⟩⟩
      rw [hconcluded.lastVersion, hconcluded.restated.desiredVersion]
  | _ => exact hx.fitting

theorem Steady.advance (hx : Steady g setup o x) (hkind : o.kind = .module)
    (ha : x.entry.action = some a) (h : Advance g setup a x y) :
    Steady g setup o y.entered ∧ y.entered.entry.action = some a := by
  have haction : y.entered.entry.action = some a := by
    cases h <;> exact ha
  have hpinned : ∀ a', y.entered.entry.action = some a' → a' = a := by
    intro a' ha'
    exact Option.some.inj (ha'.symm.trans haction)
  refine ⟨⟨hx.fitting_advance (y := y) ha h, ?_, ?_, ?_, ?_⟩, haction⟩
  · intro hnone
    rw [haction] at hnone
    exact absurd hnone (by simp)
  · intro a' ha'
    obtain rfl := hpinned a' ha'
    rcases hx.action a' ha with heq | ⟨heq, hat, hlast⟩
    · exact Or.inl heq
    · exact Or.inr ⟨heq, hat.advance (y := y) h, lastVersion_advance (y := y) hlast h⟩
  · intro hrank
    change y.resource.desiredVersion.isEmpty = false
    rw [(restated_advance h).desiredVersion]
    exact named_advance hx.version (fun hne => (hx.update ha hne).1.1) h hrank
  · intro a' ha'
    obtain rfl := hpinned a' ha'
    exact (hx.sound a' ha).advance service_applied (hx.fitting.kin.kind.trans hkind) h

theorem Fitting.isEmpty_version (h : Fitting g setup o r release)
    (hkind : o.kind = .module) (hnamed : (Text.trim (askedVersion g setup o)).isEmpty = false)
    (hempty : r.desiredVersion.isEmpty = true) :
    o.desiredVersion.isEmpty = true ∧ r.spec = o.spec ∧ release = none ∧
      installPending r.conditions = true := by
  have hnot : ¬Attained g setup r release := by
    intro hat
    rw [hat.1] at hempty
    exact absurd hempty Bool.false_ne_true
  have hspec : o.desiredVersion.isEmpty = true ∧ r.spec = o.spec := by
    rcases h.kin.version hkind with hdesired | ⟨_, hopen⟩
    · rw [hdesired, hnamed] at hempty
      exact absurd hempty Bool.false_ne_true
    · exact hopen
  exact ⟨hspec.1, hspec.2, h.served.resolve_right hnot, h.status.resolve_right fun hs => hnot hs.1⟩

/-- Each halt keeps it. -/
theorem Steady.halt (hx : Steady g setup o x) (hkind : o.kind = .module)
    (hnamed : (Text.trim (askedVersion g setup o)).isEmpty = false)
    (ha : x.entry.action = some a) (h : Halt g setup trouble a x y) : Steady g setup o y := by
  have hpinned : ∀ a', x.entry.action = some a' → a' = a := by
    intro a' ha'
    exact Option.some.inj (ha'.symm.trans ha)
  cases h with
  | hindered time _ =>
      exact ⟨hx.fitting, hx.fresh, hx.action, hx.version,
        fun a' ha' => (hx.sound a' ha').marked time⟩
  | failed _ hstage hnoted =>
      have hr := hnoted.restated
      have hfinish : x.entry.stage ≠ .finish := by
        rcases hstage with hst | ⟨hst, _⟩
        · rw [hst]
          decide
        · rw [hst]
          decide
      refine ⟨hx.fitting.noted hnoted ?_, hx.fresh, ?_, ?_, ?_⟩
      · by_cases hinstall : a = .install
        · rw [hinstall]
          exact Or.inl rfl
        · exact Or.inr (hx.update ha hinstall)
      · intro a' ha'
        rcases hx.action a' ha' with heq | ⟨heq, hat, hlast⟩
        · exact Or.inl heq
        · exact Or.inr ⟨heq, hat.restated hr, (hnoted.lastVersion.trans hlast).trans
            (congrArg some hr.desiredVersion.symm)⟩
      · intro hrank
        exact (congrArg String.isEmpty hr.desiredVersion).trans (hx.version hrank)
      · intro a' ha'
        exact (hx.sound a' ha').restate service_applied hr hfinish
  | pin hstage hinstall hempty hwritten =>
      obtain ⟨hoempty, hspec, hnone, hpending⟩ := hx.fitting.isEmpty_version hkind hnamed hempty
      have hkin := hx.fitting.kin.pin hspec hoempty hwritten
      refine ⟨⟨hkin, Or.inl hnone, Or.inl ?_⟩, hx.fresh, ?_, ?_, ?_⟩
      · rw [hwritten.conditions]
        exact hpending
      · intro a' ha'
        rw [hpinned a' ha']
        exact Or.inl hinstall
      · intro hrank
        change 3 < x.entry.stage.rank at hrank
        rw [hstage] at hrank
        exact absurd hrank (by decide)
      · intro a' ha'
        refine .of_rank_le ?_ fun _ hstands => ?_
        · change x.entry.stage.rank ≤ 5
          rw [hstage]
          decide
        · change stands x.release = true at hstands
          rw [hnone] at hstands
          exact absurd hstands (by decide)
  | wait _ _ => exact hx

theorem Steady.course (hx : Steady g setup o x) (hkind : o.kind = .module)
    (hnamed : (Text.trim (askedVersion g setup o)).isEmpty = false)
    (ha : x.entry.action = some a) (h : Course g setup trouble a x requeue y) :
    Steady g setup o y := by
  induction h with
  | finish _ => exact hx
  | halt hhalt => exact hx.halt hkind hnamed ha hhalt
  | advance hadvance _ ih =>
      obtain ⟨hy, ha'⟩ := hx.advance hkind ha hadvance
      exact ih hy ha'

theorem Steady.applied_of_rank (hx : Steady g setup o x) (hrank : 5 < x.entry.stage.rank) :
    Attained g setup x.resource x.release := by
  refine ⟨hx.version (by omega), ?_⟩
  cases haction : x.entry.action with
  | none =>
      rw [hx.fresh haction] at hrank
      exact absurd hrank (by decide)
  | some a => exact (hx.sound a haction).served hrank

theorem Steady.done (hx : Steady g setup o x) (hstage : x.entry.stage = .finish) :
    Done x.resource := by
  cases haction : x.entry.action with
  | none =>
      have hstart := hx.fresh haction
      rw [hstage] at hstart
      exact absurd hstart (by decide)
  | some a => exact (hx.sound a haction).done hstage

theorem Steady.rearmed (hx : Steady g setup o x) (hstage : x.entry.stage = .finish)
    (digest : String) : Steady g setup o (x.rearmed digest) := by
  have hattained := hx.applied_of_rank (by rw [hstage]; decide)
  have hdone := hx.done hstage
  refine ⟨hx.fitting, fun hnone => absurd hnone (by simp [Situation.rearmed, Entry.pin, Entry.rearm,
    Entry.setStage]), ?_, fun hrank => absurd hrank (by simp [Situation.rearmed, Entry.rearm,
    Entry.setStage, Stage.rank]), ?_⟩
  · intro a' ha'
    exact Or.inr ⟨(Option.some.inj ha').symm, hattained, hdone.lastVersion⟩
  · intro a' ha'
    obtain rfl : Action.update = a' := Option.some.inj ha'
    exact ⟨fun _ => hattained.2, fun _ _ => hattained.2, fun hfinish => absurd hfinish (by
      simp [Situation.rearmed, Entry.rearm, Entry.setStage])⟩

/-- The action that is chosen fits what is there. -/
theorem Steady.chosen (hx : Steady g setup o x)
    (haction : x.entry.action = none) (hselect : x.resource.selectAction = .ok a) :
    Steady g setup o { x with entry := x.entry.pin a } := by
  have hstart := hx.fresh haction
  have hchoice : a = .install ∨ a = .update ∧ Attained g setup x.resource x.release ∧
      x.resource.lastVersion = some x.resource.desiredVersion := by
    rcases hx.fitting.selectAction with hinstall | ⟨hat, hupdate | ⟨_, _, _, herror⟩⟩
    · rw [hinstall] at hselect
      exact Or.inl (Except.ok.inj hselect).symm
    · rw [hupdate] at hselect
      exact Or.inr ⟨(Except.ok.inj hselect).symm, hat⟩
    · rw [herror] at hselect
      exact absurd hselect (by simp)
  have hpinned : ∀ a', (x.entry.pin a).action = some a' → a' = a :=
    fun a' ha' => (Option.some.inj ha').symm
  refine ⟨hx.fitting, fun hnone => absurd hnone (by simp [Entry.pin]), ?_, hx.version, ?_⟩
  · intro a' ha'
    rw [hpinned a' ha']
    exact hchoice
  · intro a' ha'
    refine .of_rank_le ?_ fun _ hstands => ?_
    · change x.entry.stage.rank ≤ 5
      rw [hstart]
      decide
    · rcases hx.fitting.served with hnone | hattained
      · rw [hnone] at hstands
        exact absurd hstands (by decide)
      · exact hattained.2

theorem Steady.live (hx : Steady g setup o x) (hkind : o.kind = .module)
    (hnamed : (Text.trim (askedVersion g setup o)).isEmpty = false)
    (h : Live g setup trouble x requeue y) : Steady g setup o y := by
  cases h with
  | unchanged hstage hselects hvalued happlied =>
      exact ⟨hx.fitting, hx.fresh, hx.action, hx.version, fun a' ha' =>
        ⟨(hx.sound a' ha').served, (hx.sound a' ha').standing, (hx.sound a' ha').done⟩⟩
  | changed hstage _ _ _ hcourse =>
      exact (hx.rearmed hstage _).course hkind hnamed rfl hcourse
  | chosen hstage haction hselect hcourse =>
      exact (hx.chosen haction hselect).course hkind hnamed rfl hcourse
  | kept hstage haction hcourse => exact hx.course hkind hnamed haction hcourse
  | _ => exact hx

theorem Attained.alike (h : Attained g setup r release) (hr : r.Alike r') :
    Attained g setup r' release := by
  refine ⟨?_, Applied.alike h.2 hr⟩
  rw [hr.desiredVersion]
  exact h.1

theorem lastVersion_alike (hr : r.Alike r') (h : r.lastVersion = some r.desiredVersion) :
    r'.lastVersion = some r'.desiredVersion := by
  rw [hr.lastVersion, hr.desiredVersion]
  exact h

theorem Fitting.hold (h : Fitting g setup o r release) (hkind : o.kind = .module)
    (hno : r.hasFinalizer = false) (hw : r.Rewritten r.addFinalizer r') :
    Fitting g setup o r' release := by
  have hr := hw.alike.1
  refine ⟨h.kin.hold hkind hno hw, h.served.imp_right fun hat => hat.alike hr, ?_⟩
  rw [hr.conditions]
  refine h.status.imp_right ?_
  rintro ⟨hat, hlast⟩
  exact ⟨hat.alike hr, lastVersion_alike hr hlast⟩

/-- The finalizer makes no difference to the entry unless it begins a new generation. -/
theorem Steady.hold (hx : Steady g setup o x) (hkind : o.kind = .module)
    (hno : x.resource.hasFinalizer = false)
    (hw : x.resource.Rewritten x.resource.addFinalizer r)
    (hgen : r.generation = x.resource.generation) :
    Steady g setup o { x with resource := r } := by
  have hr := hw.alike.1
  refine ⟨hx.fitting.hold hkind hno hw, hx.fresh, ?_, ?_, ?_⟩
  · intro a' ha'
    refine (hx.action a' ha').imp_right ?_
    rintro ⟨heq, hat, hlast⟩
    exact ⟨heq, hat.alike hr, lastVersion_alike hr hlast⟩
  · intro hrank
    exact (congrArg String.isEmpty hr.desiredVersion).trans (hx.version hrank)
  · intro a' ha'
    have hsound := hx.sound a' ha'
    refine ⟨fun hrank => Applied.alike (hsound.served hrank) hr,
      fun hinstall hstands => Applied.alike (hsound.standing hinstall hstands) hr,
      fun hfinish => ?_⟩
    have hdone := hsound.done hfinish
    refine ⟨?_, ?_, lastVersion_alike hr hdone.lastVersion, ?_⟩
    · change installPending r.conditions = false
      rw [hr.conditions]
      exact hdone.closed
    · change r.phase = _
      rw [Resource.phase, Resource.statusD, hr.status]
      exact hdone.phase
    · change r.observedGeneration = some r.generation
      rw [Resource.observedGeneration, Resource.statusD, hr.status, hgen]
      exact hdone.observed

/-- A pass keeps it, whatever fails. -/
theorem Steady.next (hx : Steady g setup o x) (hkind : o.kind = .module)
    (hnamed : (Text.trim (askedVersion g setup o)).isEmpty = false)
    (h : Through g setup trouble x requeue y) (hfound : Found y x.resource.generation z) :
    Steady g setup o z := by
  cases h with
  | hindered _ => exact hx.found hfound
  | hold hno hw =>
      obtain ⟨rz, release, e⟩ := z
      obtain ⟨hresource, hrelease, hentry⟩ := hfound
      dsimp only at hresource hrelease hentry
      subst hresource hrelease
      rcases hentry with ⟨rfl, hgen⟩ | rfl
      · exact hx.hold hkind hno hw hgen
      · exact (hx.fitting.hold hkind hno hw).steady _
  | live _ hlive => exact (hx.live hkind hnamed hlive).found hfound

end Estate

end ReleaseOperator
