import ReleaseOperator.Proofs.Estate.Writes

/-!
# The steps of a pass on an estate

What is asked at a stage leads from a situation to one that the stage may lead to.
-/

namespace ReleaseOperator

open InMemory Program

namespace Estate

variable {g : Ground} {trouble : Prop} {setup : Setup} {ns name : String} {x y : Situation}
  {j : Job} {s t : Estate} {a : Action} {reason : Reason}

/-! ### Looking values up -/

theorem exists_valued (g : Ground) (setup : Setup) (r : Resource) (e : Entry) :
    ∃ v, Yields g ((Job.start setup r e).values setup).run v ∧
      ∀ documents, v = .ok documents ↔ Valued g setup r documents := by
  obtain ⟨d, hd⟩ := exists_yields_resolveFrom (g := g) r.namespaceName 0 r.overrides
  let base := (setup.baseValues (r.release setup.defaults)).toList
  refine ⟨d.map fun own => base ++ own, ?_, ?_⟩
  · intro trouble s
    rw [Job.values_run, always_map]
    refine (hd trouble s).mono ?_
    rintro v s' ⟨rfl, rfl | ⟨ht, e', rfl⟩⟩
    · exact ⟨rfl, Or.inl rfl⟩
    · exact ⟨rfl, Or.inr ⟨ht, e', rfl⟩⟩
  · intro documents
    constructor
    · intro hv
      cases d with
      | error e' => exact absurd hv (by simp [Except.map])
      | ok own =>
          refine ⟨own, fun s => (hd False s).mono ?_, (Except.ok.inj hv).symm⟩
          rintro v s' ⟨_, hv'⟩
          exact hv'.eq
    · rintro ⟨own, hown, rfl⟩
      rw [hd.eq_of_always (hown ⟨.empty, []⟩)]
      rfl

theorem Valued.unique {r : Resource} {documents documents' : List Json}
    (h : Valued g setup r documents) (h' : Valued g setup r documents') :
    documents = documents' := by
  obtain ⟨v, _, hv⟩ := exists_valued g setup r (.fresh 0 .start)
  have heq := ((hv documents).2 h).symm.trans ((hv documents').2 h')
  exact Except.ok.inj heq

theorem exists_credited (g : Ground) (setup : Setup) (r : Resource) (e : Entry) :
    ∃ v, Yields g (Job.start setup r e).credentials.run v ∧
      ((∃ c, v = .ok c) ↔ Credited g setup r) := by
  obtain ⟨v, hv⟩ := exists_yields_credentials (g := g) r.namespaceName
    (r.release setup.defaults).repository
  refine ⟨v, hv, ?_⟩
  constructor
  · rintro ⟨c, rfl⟩
    refine ⟨c, fun s => (hv False s).mono ?_⟩
    rintro w s' ⟨_, hw⟩
    exact hw.eq
  · rintro ⟨c, hc⟩
    exact ⟨c, hv.eq_of_always (hc ⟨.empty, []⟩)⟩

/-! ### The work of a stage -/

/-- What the work of a stage has to lead to. -/
def Goes (g : Ground) (setup : Setup) (ns name : String) (trouble : Prop) (a : Action)
    (x : Situation) (o : Outcome) (j : Job) (s : Estate) : Prop :=
  (o.requeue = true ∧ ∃ y, Situation.Halt g setup trouble a x y ∧ Left setup ns name y j s) ∨
    o.requeue = false ∧ ∃ y, Situation.Advance g setup a x y ∧ At setup ns name y j s

theorem At.hindered (h : At setup ns name x j s)
    (hwhy : trouble ∨ ¬∃ documents, Provided g setup x.resource documents) {o : Outcome}
    (ho : o.requeue = true) : Goes g setup ns name trouble a x o j s :=
  Or.inl ⟨ho, _, .hindered x.entry.preInstall hwhy, h.left⟩

theorem At.goes_fail (h : At setup ns name x j s)
    (hwhy : trouble ∨ ¬∃ documents, Provided g setup x.resource documents)
    (hstage : x.entry.stage = .work ∨ x.entry.stage = .preWork ∧ a = .install) (f : Failure) :
    AlwaysFrom (conduct g trouble) (Work.fail a.failure f) j s
      (Goes g setup ns name trouble a x) := by
  refine (h.fail a.failure f).mono ?_
  rintro o j' s' ⟨ho, hleft | ⟨r, hr, hleft⟩⟩
  · exact Or.inl ⟨ho, _, .hindered x.entry.preInstall hwhy, hleft⟩
  · exact Or.inl ⟨ho, _, .failed hwhy hstage hr, hleft⟩

theorem At.handOver (h : At setup ns name x j s) {documents : List Json}
    (hprovided : Provided g setup x.resource documents) (hstage : x.entry.stage = .work)
    (hstands : a = .install → stands x.release = false) (credentials : Option Credentials) :
    AlwaysFrom (conduct g trouble) (Work.handOver a.failure documents credentials) j s
      (Goes g setup ns name trouble a x) := by
  rw [Work.always_handOver]
  intro answer s' hmay
  rcases hmay with ⟨info, rfl, rfl⟩ | ⟨rfl, ht, e, rfl⟩
  · obtain rfl := h.job
    refine Or.inr ⟨rfl, _, .apply hstage hprovided hstands, h.keyed, h.stored, ?_, rfl, ?_⟩
    · exact Table.get?_put_self
    · exact ⟨h.tended.acts, h.tended.kind, h.tended.className, h.tended.stays, h.tended.goesOn,
        h.tended.action⟩
  · exact h.goes_fail (Or.inl ht) (Or.inl hstage) _

theorem At.applyRelease (h : At setup ns name x j s) (hstage : x.entry.stage = .work)
    (hstands : a = .install → stands x.release = false) :
    AlwaysFrom (conduct g trouble) (Work.applyRelease setup a.failure) j s
      (Goes g setup ns name trouble a x) := by
  have hjob := h.job
  obtain ⟨v, hyields, hvalued⟩ := exists_valued g setup x.resource x.entry
  obtain ⟨c, hcyields, hcredited⟩ := exists_credited g setup x.resource x.entry
  rw [← hjob] at hyields hcyields
  rw [Work.always_applyRelease, h.tended.acts]
  refine (hyields trouble s).mono ?_
  rintro d s₁ ⟨rfl, hd⟩
  cases d with
  | error e =>
      refine h.goes_fail (hd.error.imp_right ?_) (Or.inl hstage) _
      rintro rfl ⟨documents, _, hdocuments⟩
      exact absurd ((hvalued documents).2 hdocuments) (by simp)
  | ok documents =>
      have hdocuments : Valued g setup x.resource documents := (hvalued documents).1 hd.ok
      refine (hcyields trouble s₁).mono ?_
      rintro d' s₂ ⟨rfl, hd'⟩
      cases d' with
      | error e =>
          refine h.goes_fail (hd'.error.imp_right ?_) (Or.inl hstage) _
          rintro rfl ⟨_, hcred, _⟩
          obtain ⟨c, hc⟩ := hcredited.2 hcred
          exact absurd hc (by simp)
      | ok credentials =>
          exact h.handOver ⟨hcredited.1 ⟨_, hd'.ok⟩, hdocuments⟩ hstage hstands credentials

/-- The version of the chart is written, and the pass ends there. -/
theorem At.pinVersion (h : At setup ns name x j s) (hstage : x.entry.stage = .preWork)
    (hempty : x.resource.desiredVersion.isEmpty = true) :
    AlwaysFrom (conduct g trouble) (Work.pinVersion setup) j s
      (Goes g setup ns name trouble .install x) := by
  have hjob := h.job
  obtain ⟨c, hcyields, hcredited⟩ := exists_credited g setup x.resource x.entry
  rw [← hjob] at hcyields
  rw [Work.always_pinVersion]
  refine (hcyields trouble s).mono ?_
  rintro d s₁ ⟨rfl, hd⟩
  cases d with
  | error e =>
      refine h.goes_fail (a := .install) (hd.error.imp_right ?_) (Or.inr ⟨hstage, rfl⟩) _
      rintro rfl ⟨_, hcred, _⟩
      obtain ⟨c, hc⟩ := hcredited.2 hcred
      exact absurd hc (by simp)
  | ok credentials =>
      dsimp only
      rintro answer s₂ ⟨rfl, hanswer⟩
      cases answer with
      | error e =>
          exact h.goes_fail (a := .install) (Or.inl hanswer.trouble) (Or.inr ⟨hstage, rfl⟩) _
      | ok version =>
          have hversion : g.chartVersion j.release = version := Except.ok.inj hanswer.ok
          subst hversion
          obtain rfl := hjob
          obtain ⟨hkind, hkey⟩ := h.keyed ns name _ h.stored
          have hwkey : Store.keyOf (pinned g setup x.resource) = (ns, name) := by
            rw [← hkey, Store.keyOf, Resource.namespaceName, Resource.name, pinned,
              Resource.metadata_setDesiredVersion]
            rfl
          have hwrev := congrArg Metadata.resourceVersion (x.resource.metadata_setDesiredVersion
            (g.chartVersion (x.resource.release setup.defaults)))
          have hwkind : (pinned g setup x.resource).kind = .module := by
            rw [pinned, Resource.kind_setDesiredVersion]
            exact hkind
          refine (h.persistResource hwkind hwkey hwrev).mono ?_
          rintro ⟨o, r⟩ t (⟨ho, ht, rfl⟩ | ⟨rfl, hwritten, hkeyed, hstored, hreleases⟩)
          · dsimp only at ho ⊢
            rw [if_pos ho]
            exact Or.inl ⟨ho, _, .hindered x.entry.preInstall (Or.inl ht), h.left_of_entry rfl⟩
          · refine always_delay.mono ?_
            rintro o t' ⟨ho, rfl⟩
            refine Or.inl ⟨ho, _, .pin hstage rfl hempty hwritten, hkeyed, hstored, ?_, rfl, ?_⟩
            · rw [hreleases, (hwritten.pinned setup).2.2]
              exact h.release
            · exact tended_rewritten h.tended hwritten (hwritten.pinned setup).1
                (hwritten.pinned setup).2.1

theorem At.idle (h : At setup ns name x j s) (hidle : x.Idle a) {o : Outcome}
    (ho : o.requeue = false) : Goes g setup ns name trouble a x o j s :=
  Or.inr ⟨ho, x, .idle hidle, h⟩

/-- The class has nothing to add. -/
theorem At.hook (h : At setup ns name x j s) (hidle : x.Idle a) (moment : HookMoment)
    (action : Action) :
    AlwaysFrom (conduct g trouble) (Work.hook moment action) j s
      (Goes g setup ns name trouble a x) := by
  rw [Work.hook, Work.always_about, Pass.always_hook]
  rintro o s' ⟨rfl, rfl⟩
  exact h.idle hidle rfl

theorem At.preInstall (h : At setup ns name x j s) (hstage : x.entry.stage = .preWork) :
    AlwaysFrom (conduct g trouble) (Work.preInstall setup) j s
      (Goes g setup ns name trouble .install x) := by
  have hdesired : j.resource.desiredVersion = x.resource.desiredVersion := by
    rw [h.job]
    rfl
  rw [Work.always_preInstall, hdesired]
  split
  · rename_i hempty
    exact h.pinVersion hstage hempty
  · rename_i hempty
    exact h.hook (Situation.idle_preWork hstage fun _ => Bool.eq_false_iff.2 hempty) .preWork
      .install

theorem At.install (h : At setup ns name x j s) (hstage : x.entry.stage = .work) :
    AlwaysFrom (conduct g trouble) (Work.install setup) j s
      (Goes g setup ns name trouble .install x) := by
  have hkey : (j.release.namespaceName, j.release.name) = x.resource.releaseKey setup := by
    rw [h.job]
    rfl
  rw [Work.always_install, h.tended.acts]
  rintro answer s' ⟨rfl, hanswer⟩
  rw [hkey, h.release] at hanswer
  cases answer with
  | error e =>
      refine (always_delayWith (.helm e)).mono ?_
      rintro o s'' ⟨ho, rfl⟩
      exact h.hindered (Or.inl hanswer.trouble) ho
  | ok info =>
      obtain rfl : x.release.map StoredRelease.info = info := Except.ok.inj hanswer.ok
      dsimp only
      split
      · rename_i hstands
        exact Or.inr ⟨rfl, x, .stand hstage rfl hstands, h⟩
      · rename_i hstands
        exact h.applyRelease (a := .install) hstage fun _ => Bool.not_eq_true _ ▸ hstands

theorem At.goes_announce (h : At setup ns name x j s)
    (hreason : a.announced? x.entry.stage = some reason) :
    AlwaysFrom (conduct g trouble) (Work.announce reason none) j s
      (Goes g setup ns name trouble a x) := by
  refine (h.announce reason none).mono ?_
  rintro o j' s' (⟨ho, ht, rfl, hentry⟩ | ⟨rfl, r, hr, hat⟩)
  · exact Or.inl ⟨ho, _, .hindered x.entry.preInstall (Or.inl ht), h.left_of_entry hentry⟩
  · exact Or.inr ⟨rfl, _, .announce x.entry.preInstall hreason hr, hat⟩

/-- The first announcement of an installation. -/
theorem At.announceInstall (h : At setup ns name x j s)
    (hstage : x.entry.stage = .announcePreWork) :
    AlwaysFrom (conduct g trouble) Work.announceInstall j s
      (Goes g setup ns name trouble .install x) := by
  obtain rfl := h.job
  rw [Work.always_announceInstall]
  refine (always_quiet Pass.quiet_now).mono ?_
  rintro time s₁ rfl
  let y : Situation := x.marked (some (x.entry.preInstall.getD time))
  have hy : At setup ns name y (.start setup x.resource (x.entry.markPreInstall time)) s₁ :=
    ⟨h.keyed, h.stored, h.release, rfl, h.tended.acts, h.tended.kind, h.tended.className,
      h.tended.stays, h.tended.goesOn, h.tended.action⟩
  refine (hy.announce .preInstall none).mono ?_
  rintro o j' s' (⟨ho, ht, rfl, hentry⟩ | ⟨rfl, r, hr, hat⟩)
  · exact Or.inl ⟨ho, y, .hindered _ (Or.inl ht), hy.left_of_entry hentry⟩
  · refine Or.inr ⟨rfl, _, .announce _ ?_ hr, hat⟩
    rw [hstage]
    rfl

theorem At.goes_conclude (h : At setup ns name x j s) (hstage : x.entry.stage = .complete) :
    AlwaysFrom (conduct g trouble) (Work.conclude a.success true) j s
      (Goes g setup ns name trouble a x) := by
  refine (h.conclude a.success).mono ?_
  rintro o j' s' (⟨ho, ht, rfl, hentry⟩ | ⟨rfl, r, hr, hat⟩)
  · exact Or.inl ⟨ho, _, .hindered x.entry.preInstall (Or.inl ht), h.left_of_entry hentry⟩
  · exact Or.inr ⟨rfl, _, .conclude hstage hr, hat⟩

end Estate

end ReleaseOperator
