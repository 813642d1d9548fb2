import ReleaseOperator.Proofs.DryRun.Obliging
import ReleaseOperator.Proofs.Estate.Runs

/-!
# Keeping a module in line in earnest

The work on a module that lives, with collaborators that oblige. Where an installation may be
chosen there is no release, behind the work the release is deployed at the version asked for and
its digest is remembered, and at the end the installation is closed. So what the work asks about
releases is answered as a rehearsal takes for granted, and between passes it rests either in front
of the release or at the end.
-/

namespace ReleaseOperator

open InMemory Program

namespace Resource

/-- The object goes on and so does its release; its generation does not go back. -/
structure Continues (r r' : Resource) : Prop where
  address : r'.address = r.address
  id : ObjectId.ofResource r' = .ofResource r
  generation : r.generation ≤ r'.generation
  deleting : r'.isDeleting = r.isDeleting
  place : r'.releasePlace = r.releasePlace

variable {r r' w : Resource}

theorem Continues.trans {r'' : Resource} (h : r.Continues r') (h' : r'.Continues r'') :
    r.Continues r'' :=
  ⟨h'.address.trans h.address, h'.id.trans h.id, Int.le_trans h.generation h'.generation,
    h'.deleting.trans h.deleting, h'.place.trans h.place⟩

theorem continues_restated (h : r.Restated r') : r.Continues r' := by
  obtain ⟨n, status, rfl⟩ := h
  exact ⟨rfl, rfl, Int.le_refl _, rfl, rfl⟩

/-- A resource that is written as a whole goes on when the copy keeps its place. -/
theorem continues_rewritten (h : r.Rewritten w r') (haddress : w.address = r.address)
    (hplace : w.releasePlace = r.releasePlace) : r.Continues r' := by
  obtain ⟨n, gen, hle, rfl⟩ := h
  have hid : (w.kind, w.namespaceName, w.name) = (r.kind, r.namespaceName, r.name) :=
    congrArg (fun x : Address => (x.kind, x.namespaceName, x.name)) haddress
  injection hid with hkind hid
  injection hid with hns hname
  refine ⟨haddress, ?_, hle, rfl, hplace⟩
  rw [ObjectId.ofResource, ObjectId.ofResource, ← hkind, ← hns, ← hname]
  rfl

theorem address_setDesiredVersion (r : Resource) (version : String) :
    (r.setDesiredVersion version).address = r.address := by
  rcases r with ⟨_, _ | _, _⟩
  · rfl
  · rfl

theorem releasePlace_setDesiredVersion (r : Resource) (version : String) :
    (r.setDesiredVersion version).releasePlace = r.releasePlace := by
  rcases r with ⟨_, _ | _, _⟩
  · rfl
  · rfl

end Resource

namespace Earnest

variable {H : Type}

/-- There is no release at the place that a resource asks for. -/
def Vacant (info : H → Option ReleaseInfo) (r : Resource) (s : Commons H) : Prop :=
  info (s.releases r.releasePlace) = none

/-- Where the work on a living resource rests between passes. -/
inductive Rests (info : H → Option ReleaseInfo) (e : Entry) (r : Resource) (s : Commons H) : Prop
  /-- Its release has not been dealt with yet. -/
  | ahead (early : e.stage.rank ≤ 5) (keeps : e.action ≠ some .delete)
      (due : e.action = some .install → Vacant info r s)
  /-- All is done, and it is known with which values. -/
  | behind (stage : e.stage = .finish) (digest : e.digest.isSome = true)
      (closed : installPending r.conditions = false)

/-- What is stored when the work on a resource has come to an outcome: the same object, with the
work at rest. It is at the end unless it is to be taken up soon. -/
structure Rested (info : H → Option ReleaseInfo) (x : Address) (r : Resource) (o : Outcome)
    (e : Entry) (r' : Resource) (s : Commons H) : Prop where
  stored : s.find x = some r'
  continues : r.Continues r'
  entry : Rests info e r' s
  clear : installPending r'.conditions = true → Vacant info r' s
  settled : o.requeue = false → e.stage = .finish

/-- The work on a resource has come to an outcome. -/
def Left (info : H → Option ReleaseInfo) (x : Address) (r : Resource) (o : Outcome) (j : Job)
    (s : Commons H) : Prop :=
  ∃ r', Rested info x r o j.entry r' s

/-- An action is performed for a module that lives, whose stored copy is in hand. -/
structure Busy (setup : Setup) (x : Address) (r : Resource) (a : Action) (j : Job) (s : Commons H) :
    Prop where
  kind : r.kind = .module
  stays : r.isDeleting = false
  keeps : a ≠ .delete
  action : j.entry.action = some a
  restated : r.Restated j.resource
  current : j.UpToDate setup x s

/-- The action is at a stage. -/
structure At (info : H → Option ReleaseInfo) (setup : Setup) (x : Address) (r : Resource)
    (a : Action) (st : Stage) (j : Job) (s : Commons H) : Prop
    extends Busy setup x r a j s where
  stage : j.entry.stage = st
  goesOn : st.rank ≤ 1 → j.resource.isTerminal = false
  clear : st.rank ≤ 5 → installPending j.resource.conditions = true → Vacant info r s
  due : st.rank ≤ 5 → a = .install → Vacant info r s
  deployed : st = .awaitWork → ∃ i, info (s.releases r.releasePlace) = some i ∧
    Pass.isDeployedAt r.desiredVersion i = true
  digest : 5 < st.rank → j.entry.digest.isSome = true
  closed : st = .finish → installPending j.resource.conditions = false

variable {rules : Rules H} {info : H → Option ReleaseInfo} {setup : Setup} {x : Address}
  {r r' : Resource} {a : Action} {st : Stage} {j j' : Job} {o : Outcome} {reason : Reason}
  {s t : Commons H}

theorem Vacant.congr (h : Vacant info r s) (hplace : r'.releasePlace = r.releasePlace)
    (hkept : t.releases = s.releases) : Vacant info r' t := by
  rw [Vacant, hplace, hkept]
  exact h

/-- Leaving in front of the release, to come back soon. -/
theorem At.left (h : At info setup x r a st j s) (hearly : st.rank ≤ 5) (ho : o.requeue = true) :
    Left info x r o j s := by
  have hcontinues := Resource.continues_restated h.restated
  refine ⟨j.resource, h.current.stored, hcontinues, .ahead (h.stage ▸ hearly) ?_ ?_, ?_, ?_⟩
  · rw [h.action]
    exact fun heq => h.keeps (Option.some.inj heq)
  · rw [h.action]
    exact fun heq => (h.due hearly (Option.some.inj heq)).congr hcontinues.place rfl
  · exact fun hpending => (h.clear hearly hpending).congr hcontinues.place rfl
  · rw [ho]
    exact fun hno => absurd hno.symm Bool.false_ne_true

/-- The end is reached. -/
theorem At.leave (h : At info setup x r a .finish j s) : Left info x r .done j s := by
  have hclosed := h.closed rfl
  refine ⟨j.resource, h.current.stored, Resource.continues_restated h.restated,
    .behind h.stage (h.digest (by decide)) hclosed, ?_, fun _ => h.stage⟩
  rw [hclosed]
  exact fun hpending => absurd hpending Bool.false_ne_true

/-- The next stage is entered. -/
theorem At.enter (h : At info setup x r a st j s) (hst : st ≠ .finish) (hwork : st ≠ .work)
    (hclosed : st = .complete → installPending j.resource.conditions = false) :
    At info setup x r a st.next (j.enter st.next) s := by
  have hrank := Stage.rank_next hst
  refine ⟨⟨h.kind, h.stays, h.keeps, h.action, h.restated, h.current.withEntry _⟩, rfl, ?_, ?_, ?_,
    ?_, ?_, ?_⟩
  · exact fun hearly => h.goesOn (by omega)
  · exact fun hearly => h.clear (by omega)
  · exact fun hearly => h.due (by omega)
  · intro hnext
    cases st <;> first | exact absurd rfl hwork | exact absurd hnext (by decide)
  · intro hlate
    have hne : st.rank ≠ 5 := by
      intro heq
      cases st <;> first | exact hwork rfl | exact absurd heq (by decide)
    exact h.digest (by omega)
  · intro hnext
    cases st <;> first | exact hclosed rfl | exact absurd rfl hst | exact absurd hnext (by decide)

/-- A step after which the run goes on. -/
theorem At.passes (h : At info setup x r a st j s) (hst : st ≠ .finish) (hwork : st ≠ .work)
    (hclosed : st = .complete → installPending j.resource.conditions = false) :
    Passes (At info setup x r a) (Left info x r) st .done j s :=
  h.enter hst hwork hclosed

/-- A step that stops the run in front of the release. -/
theorem Left.passes (h : Left info x r o j s) (ho : o.requeue = true) :
    Passes (At info setup x r a) (Left info x r) st o j s := by
  rw [Passes, if_pos ho]
  exact h

/-! ### What is recorded -/

/-- An event is recorded; those of installations are recorded by installations only. -/
theorem At.advised (h : At info setup x r a st j s) (hadvised : j.Advised setup x reason j' t)
    (hkept : t.releases = s.releases) (hlater : 1 < st.rank) (hst : st ≠ .finish)
    (hreason : Reason.installPending.contains reason = true → a = .install) :
    At info setup x r a st j' t := by
  have hpending := installPending_of_endsIn hadvised.ends
  have hentry := hadvised.entry
  refine ⟨⟨h.kind, h.stays, h.keeps, ?_, h.restated.trans hadvised.restated, hadvised.current⟩, ?_,
    fun hearly => absurd hlater (Nat.not_lt.2 hearly), ?_, ?_, ?_, ?_, fun hno => absurd hno hst⟩
  · rw [hentry]
    exact h.action
  · rw [hentry]
    exact h.stage
  · rw [hpending]
    exact fun hearly hyes => (h.due hearly (hreason hyes)).congr rfl hkept
  · exact fun hearly ha => (h.due hearly ha).congr rfl hkept
  · rw [hkept]
    exact h.deployed
  · rw [hentry]
    exact h.digest

/-- The class has nothing to add. -/
theorem At.hook (h : At info setup x r a st j s) (hst : st ≠ .finish) (hwork : st ≠ .work)
    (hcomplete : st ≠ .complete) (moment : HookMoment) (action : Action) :
    AlwaysFrom rules.conduct (Work.hook moment action) j s fun o j' t =>
      t.releases = s.releases → Passes (At info setup x r a) (Left info x r) st o j' t := by
  rw [Work.hook, Work.always_about, Pass.always_hook]
  rintro o t ⟨rfl, rfl⟩ -
  exact h.passes hst hwork fun hno => absurd hno hcomplete

section Steps

variable (hrules : rules.Obliging info)

include hrules

theorem At.announce (h : At info setup x r a st j s)
    (hreason : Action.announced? a st = some reason) :
    AlwaysFrom rules.conduct (Work.announce reason none) j s fun o j' t =>
      t.releases = s.releases → Passes (At info setup x r a) (Left info x r) st o j' t := by
  have hst : 1 < st.rank ∧ st ≠ .finish ∧ st ≠ .work ∧ st ≠ .complete := by
    cases a <;> cases st <;> first | decide | cases hreason
  have hinstall : Reason.installPending.contains reason = true → a = .install := by
    cases a <;> cases st <;> cases hreason <;> decide
  refine (h.current.announce hrules reason none).mono ?_
  rintro _ j' t ⟨rfl, hadvised⟩ hkept
  exact (h.advised hadvised hkept hst.1 hst.2.1 hinstall).passes hst.2.1 hst.2.2.1
    fun hno => absurd hno hst.2.2.2

/-- A failure in front of the release. -/
theorem At.fail (h : At info setup x r a st j s) (hreason : a.failure = reason)
    (hlater : 1 < st.rank) (hearly : st.rank ≤ 5) (f : Failure) :
    AlwaysFrom rules.conduct (Work.fail reason f) j s fun o j' t =>
      t.releases = s.releases → Passes (At info setup x r a) (Left info x r) st o j' t := by
  have hst : st ≠ .finish := by
    rintro rfl
    exact absurd hearly (by decide)
  have hinstall : Reason.installPending.contains reason = true → a = .install := by
    subst hreason
    cases a <;> decide
  refine (h.current.fail hrules reason f).mono ?_
  rintro o j' t ⟨ho, hadvised⟩ hkept
  exact ((h.advised hadvised hkept hlater hst hinstall).left hearly ho).passes ho

theorem At.conclude (h : At info setup x r a .complete j s) (hreason : a.success = reason) :
    AlwaysFrom rules.conduct (Work.conclude reason true) j s fun o j' t =>
      t.releases = s.releases → Passes (At info setup x r a) (Left info x r) .complete o j' t := by
  have hclosed : Reason.installPending.contains reason = false := by
    subst hreason
    cases a <;> decide
  refine (h.current.conclude hrules reason true).mono ?_
  rintro _ j' t ⟨rfl, hadvised⟩ hkept
  have hat := h.advised hadvised hkept (by decide) (by decide) fun hyes => by
    rw [hclosed] at hyes
    exact absurd hyes Bool.false_ne_true
  refine hat.passes (by decide) (by decide) fun _ => ?_
  rw [installPending_of_endsIn hadvised.ends]
  exact hclosed

theorem At.announceInstall (h : At info setup x r .install .announcePreWork j s) :
    AlwaysFrom rules.conduct Work.announceInstall j s fun o j' t =>
      t.releases = s.releases →
        Passes (At info setup x r .install) (Left info x r) .announcePreWork o j' t := by
  rw [Work.always_announceInstall]
  refine (Rules.always_aside (Pass.asks_now fun _ h => h)).mono ?_
  rintro time t rfl
  have hat : At info setup x r .install .announcePreWork
      { j with entry := j.entry.markPreInstall time } t :=
    ⟨⟨h.kind, h.stays, h.keeps, h.action, h.restated, h.current.withEntry _⟩, h.stage, h.goesOn,
      h.clear, h.due, h.deployed, h.digest, h.closed⟩
  exact hat.announce hrules rfl

theorem At.concludeInstall (h : At info setup x r .install .complete j s) :
    AlwaysFrom rules.conduct Work.concludeInstall j s fun o j' t =>
      t.releases = s.releases →
        Passes (At info setup x r .install) (Left info x r) .complete o j' t := by
  refine Work.always_concludeInstall ?_ (h.conclude hrules rfl)
  rintro o j' t u t' ht hpost
  obtain rfl : t' = t := ht
  exact hpost

/-! ### The version of the chart -/

variable (hcredits : rules.Credits x.namespaceName setup.defaults.repository)

include hcredits

omit hrules in
theorem Busy.credentials (h : Busy setup x r a j s) :
    Always rules.conduct j.credentials.run s fun c t =>
      t = s ∧ ∃ credentials, c = .ok credentials := by
  have hns : j.resource.namespaceName = x.namespaceName :=
    congrArg Address.namespaceName h.current.address
  have hrepository : j.release.repository = setup.defaults.repository := by
    rw [h.current.release]
    exact Resource.repository_release (h.restated.kind.trans h.kind) setup.defaults
  rw [Job.credentials, hns, hrepository]
  exact (Rules.always_aside
    ((Pass.asks_credentials (fun _ h => h) _ _).mono fun _ => Call.isAside_of_isLookup)).and
      (hcredits s)

/-- The version of the chart is written, and the pass ends there. -/
theorem At.pinVersion (h : At info setup x r .install .preWork j s) :
    AlwaysFrom rules.conduct (Work.pinVersion setup) j s fun o j' t =>
      t.releases = s.releases →
        Passes (At info setup x r .install) (Left info x r) .preWork o j' t := by
  rw [Work.always_pinVersion]
  refine (h.credentials hcredits).mono ?_
  rintro _ _ ⟨rfl, credentials, rfl⟩
  obtain ⟨answer, hanswer⟩ := hrules.impartial j.release credentials
  dsimp only
  intro a' u hmay
  obtain ⟨rfl, rfl⟩ := Rules.answered_kept (hanswer _) hmay
  rcases a' with e | version
  · exact h.fail hrules rfl (by decide) (by decide) (.helm e)
  have haddress := j.resource.address_setDesiredVersion version
  have hplace := j.resource.releasePlace_setDesiredVersion version
  have hrev := congrArg Metadata.resourceVersion (j.resource.metadata_setDesiredVersion version)
  have hstored : u.find (j.resource.setDesiredVersion version).address = some j.resource := by
    rw [haddress, h.current.address]
    exact h.current.stored
  refine (hrules.always_persistResource hstored hrev.symm).mono ?_
  rintro ⟨o, r'⟩ t ⟨rfl, hwritten, hfind⟩
  dsimp only
  rw [if_neg (by decide)]
  have hagain : Always rules.conduct Pass.shortDelay t fun o _ => o.requeue = true :=
    Pass.always_shortDelay fun _ _ _ => rfl
  refine (hagain.and (Rules.always_aside (Pass.asks_shortDelay fun _ h => h))).mono ?_
  rintro o t' ⟨ho, rfl⟩ hkept
  have hcontinues := Resource.continues_restated h.restated
  have hgoes := Resource.continues_rewritten hwritten haddress hplace
  have hfind : t'.find x = some r' := by
    rw [haddress, h.current.address, hgoes.deleting, hcontinues.deleting, h.stays] at hfind
    exact hfind
  have hvacant : Vacant info r' t' :=
    (h.due (by decide) rfl).congr (hgoes.place.trans hcontinues.place) hkept
  refine Left.passes ⟨r', hfind, hcontinues.trans hgoes, .ahead ?_ ?_ fun _ => hvacant,
    fun _ => hvacant, ?_⟩ ho
  · change j.entry.stage.rank ≤ 5
    rw [h.stage]
    decide
  · change j.entry.action ≠ some .delete
    rw [h.action]
    decide
  · rw [ho]
    exact fun hno => absurd hno.symm Bool.false_ne_true

theorem At.preInstall (h : At info setup x r .install .preWork j s) :
    AlwaysFrom rules.conduct (Work.preInstall setup) j s fun o j' t =>
      t.releases = s.releases →
        Passes (At info setup x r .install) (Left info x r) .preWork o j' t := by
  rw [Work.always_preInstall]
  split
  · exact h.pinVersion hrules hcredits
  · exact h.hook (by decide) (by decide) (by decide) _ _

/-- A step that has nothing to do with the release. -/
theorem At.step (h : At info setup x r a st j s) {work : Work Outcome}
    (hmem : (st, work) ∈ (Worker.forAction setup a).steps) (hwork : st ≠ .work) :
    AlwaysFrom rules.conduct work j s fun o j' t =>
      t.releases = s.releases → Passes (At info setup x r a) (Left info x r) st o j' t := by
  have hkeeps := h.keeps
  cases a <;>
    simp only [Worker.steps, Worker.forAction, List.mem_cons, Prod.mk.injEq, List.not_mem_nil,
      or_false] at hmem <;>
    rcases hmem with ⟨rfl, rfl⟩ | ⟨rfl, rfl⟩ | ⟨rfl, rfl⟩ | ⟨rfl, rfl⟩ | ⟨rfl, rfl⟩ | ⟨rfl, rfl⟩ |
      ⟨rfl, rfl⟩
  case install.inl => exact h.announceInstall hrules
  case install.inr.inl => exact h.preInstall hrules hcredits
  case install.inr.inr.inr.inr.inr.inr => exact h.concludeInstall hrules
  all_goals first
    | exact absurd rfl hwork
    | exact absurd rfl hkeeps
    | exact h.announce hrules rfl
    | exact h.hook (by decide) (by decide) (by decide) _ _
    | exact h.conclude hrules rfl
    | exact fun _ => h.passes (by decide) (by decide) fun hno => absurd hno (by decide)

/-! ### The work -/

omit hcredits in
/-- What is handed over in earnest is deployed at once, at the version asked for. -/
theorem At.handOver (h : At info setup x r a .work j s) (documents : List Json)
    (credentials : Option Credentials) :
    ShadowedFrom rules (Work.handOver reason documents credentials)
      (do
        Work.changeEntry fun e => e.setDigest (Values.digest (Values.mergeAll documents))
        return .done)
      j s (Passes (At info setup x r a) (Left info x r) .work) := by
  refine shadowedFrom_ahead ((alwaysFrom_get _).2 ⟨rfl, rfl, ?_⟩)
  refine shadowedFrom_ahead ((Work.always_ask _ _).2 ((Pass.always_helm _ _).2 ?_))
  intro answer t hmay
  obtain ⟨⟨answer, rfl⟩, hstore, i, hinfo, hstatus, hversion⟩ :=
    hrules.answered_upgradeOrInstall hmay
  refine ⟨rfl, hstore, shadowedFrom_modify _ (shadowedFrom_pure Outcome.done ?_)⟩
  have hcontinues := Resource.continues_restated h.restated
  have hplace : j.release.place = r.releasePlace := h.current.place.trans hcontinues.place
  have hdesired : j.release.chart.version = r.desiredVersion := by
    rw [h.current.release, Situation.version_release, h.restated.desiredVersion]
  have hstored : t.find x = some j.resource := by
    rw [Commons.find, hstore]
    exact h.current.stored
  dsimp only at hinfo hversion
  rw [hplace] at hinfo
  rw [hdesired] at hversion
  refine At.mk ⟨h.kind, h.stays, h.keeps, h.action, h.restated,
    ⟨hstored, h.current.address, h.current.release⟩⟩ rfl (fun hno => absurd hno (by decide))
    (fun hno => absurd hno (by decide)) (fun hno => absurd hno (by decide))
    (fun _ => ⟨i, hinfo, ?_⟩) (fun _ => rfl) fun hno => absurd hno (by decide)
  rw [Pass.isDeployedAt, hstatus]
  cases hempty : r.desiredVersion.isEmpty with
  | true => rfl
  | false =>
      rw [hversion hempty, Situation.trim_desiredVersion]
      simp

/-- Values that can be looked up are handed over; those that cannot are a failure also of the
rehearsal. -/
theorem At.applyRelease (h : At info setup x r a .work j s) (hacts : setup.dryRun = false)
    (hreason : a.failure = reason) :
    ShadowedFrom rules (Work.applyRelease setup reason) (Work.applyRelease setup.dry reason) j s
      (Passes (At info setup x r a) (Left info x r) .work) := by
  have hlookup : Asks (fun c => c.isLookup = true) (j.values setup).run :=
    Pass.asks_jobValues (fun _ h => h) setup j
  have hvalues : AlwaysFrom rules.conduct (Work.about fun j => (j.values setup).run) j s
      fun _ j' t => j' = j ∧ t = s := by
    refine (Work.always_about _ _).2 ((Rules.always_aside ?_).mono fun _ _ ht => ⟨rfl, ht⟩)
    exact hlookup.mono fun _ => Call.isAside_of_isLookup
  have hoblivious : Pass.Oblivious ((Work.about fun j => (j.values setup).run).run j) :=
    (Pass.oblivious_of_asks_lookup hlookup).bind fun _ => trivial
  unfold Work.applyRelease
  refine shadowedFrom_bind
    ((shadowedFrom_of_oblivious hrules.impartial hoblivious hvalues).mono ?_)
  rintro (e | documents) j' t ⟨⟨rfl, rfl⟩, -⟩
  · refine (shadowedFrom_of_oblivious hrules.impartial (Work.oblivious_fail _ _ _)
      (h.fail hrules hreason (by decide) (by decide) _)).mono ?_
    exact fun _ _ _ hpost => hpost.1 hpost.2
  · have hdry : setup.dry.dryRun = true := rfl
    dsimp only
    rw [hacts, if_neg Bool.false_ne_true, if_pos hdry]
    refine shadowedFrom_ahead ((Work.always_about _ _).2 ((h.credentials hcredits).mono ?_))
    rintro _ t' ⟨rfl, credentials, rfl⟩
    exact ⟨rfl, rfl, h.handOver hrules documents credentials⟩

/-- Nothing stands in the way of an installation. -/
theorem At.install (h : At info setup x r .install .work j s) (hacts : setup.dryRun = false) :
    ShadowedFrom rules (Work.install setup) (Work.install setup.dry) j s
      (Passes (At info setup x r .install) (Left info x r) .work) := by
  have hdry : setup.dry.dryRun = true := rfl
  have hplace := h.current.place.trans (Resource.continues_restated h.restated).place
  have hvacant : info (s.releases (j.release.name, j.release.namespaceName)) = none := by
    rw [← Release.place, hplace]
    exact h.due (by decide) rfl
  unfold Work.install
  rw [hacts, if_neg Bool.false_ne_true, if_pos hdry]
  refine shadowedFrom_ahead ((Work.always_about _ _).2 ((Pass.always_helm _ _).2 ?_))
  intro answer t hmay
  obtain ⟨rfl, rfl⟩ := hrules.answered_releaseInfo hmay
  rw [hvacant]
  exact ⟨rfl, rfl, h.applyRelease hrules hcredits hacts rfl⟩

theorem At.work (h : At info setup x r a .work j s) (hacts : setup.dryRun = false) :
    ShadowedFrom rules (Worker.forAction setup a).work (Worker.forAction setup.dry a).work j s
      (Passes (At info setup x r a) (Left info x r) .work) := by
  have hkeeps := h.keeps
  cases a with
  | install => exact h.install hrules hcredits hacts
  | update => exact h.applyRelease hrules hcredits hacts rfl
  | upgrade => exact h.applyRelease hrules hcredits hacts rfl
  | delete => exact absurd rfl hkeeps

omit hcredits in
/-- What has been deployed is ready when it is waited for. -/
theorem At.awaited (h : At info setup x r a .awaitWork j s) :
    AlwaysFrom rules.conduct (Worker.forAction setup a).isDone j s fun done j' t =>
      done = (true, .done) ∧ j' = j ∧ t = s ∧
        At info setup x r a .announcePostWork (j.enter .announcePostWork) s := by
  have hplace := h.current.place.trans (Resource.continues_restated h.restated).place
  obtain ⟨i, hinfo, hat⟩ := h.deployed rfl
  rw [← hplace] at hinfo
  rw [← h.restated.desiredVersion] at hat
  have hready : AlwaysFrom rules.conduct (Work.isReady setup) j s fun done j' t =>
      done = (true, .done) ∧ j' = j ∧ t = s ∧
        At info setup x r a .announcePostWork (j.enter .announcePostWork) s := by
    rw [Work.always_isReady]
    refine (hrules.always_isReady hinfo hat).mono ?_
    rintro _ t ⟨rfl, rfl⟩
    exact ⟨rfl, rfl, rfl, h.enter (by decide) (by decide) fun hno => absurd hno (by decide)⟩
  have hkeeps := h.keeps
  cases a with
  | delete => exact absurd rfl hkeeps
  | install => exact hready
  | update => exact hready
  | upgrade => exact hready

omit hrules hcredits in
theorem At.needed (h : At info setup x r a .checkNeeded j s) :
    AlwaysFrom rules.conduct (Worker.forAction setup a).isNeeded j s fun no j' t =>
      no = (true, .done) ∧
        At info setup x r a .announcePreWork (j'.enter .announcePreWork) t := by
  have hnext := h.enter (by decide) (by decide) fun hno => absurd hno (by decide)
  have hgoesOn := h.goesOn (by decide)
  cases a with
  | install =>
      refine ⟨?_, hnext⟩
      change (!j.resource.isTerminal, Outcome.done) = (true, .done)
      rw [hgoesOn]
      rfl
  | update => exact ⟨rfl, hnext⟩
  | upgrade => exact ⟨rfl, hnext⟩
  | delete => exact ⟨rfl, hnext⟩

/-- An action on a living module is rehearsed by what it does without a release. -/
theorem At.perform (h : At info setup x r a j.entry.stage j s) (hacts : setup.dryRun = false) :
    ShadowedFrom rules (Work.perform setup a) (Work.perform setup.dry a) j s (Left info x r) := by
  refine shadowed_perform hrules.impartial ?_ ?_ ?_ ?_ ?_ ?_ h
  · exact fun j s h => h.enter (by decide) (by decide) fun hno => absurd hno (by decide)
  · exact fun j s h => h.needed
  · exact fun st work hmem hwork j s h => h.step hrules hcredits hmem hwork
  · exact fun j s h => h.work hrules hcredits hacts
  · exact fun j s h => h.awaited hrules
  · exact fun j s h => h.leave

end Steps

/-! ### A living module -/

/-- A pass has a module that lives in hand. -/
structure Begun (info : H → Option ReleaseInfo) (setup : Setup) (x : Address) (j : Job)
    (s : Commons H) : Prop where
  kind : j.resource.kind = .module
  stays : j.resource.isDeleting = false
  goesOn : j.resource.isTerminal = false
  clear : installPending j.resource.conditions = true → Vacant info j.resource s
  current : j.UpToDate setup x s

namespace Begun

theorem withEntry (h : Begun info setup x j s) (e : Entry) :
    Begun info setup x { j with entry := e } s :=
  ⟨h.kind, h.stays, h.goesOn, h.clear, h.current.withEntry e⟩

/-- A pass that leaves all as it is, with the work at rest. -/
theorem left (h : Begun info setup x j s) (hrests : Rests info j.entry j.resource s)
    (hsettled : o.requeue = false → j.entry.stage = .finish) :
    Left info x j.resource o j s :=
  ⟨j.resource, h.current.stored, Resource.continues_restated (.refl _), hrests, h.clear, hsettled⟩

/-- An action that is due is at a stage in front of the release. -/
theorem performing (h : Begun info setup x j s) (haction : j.entry.action = some a)
    (hkeeps : a ≠ .delete) (hearly : j.entry.stage.rank ≤ 5)
    (hdue : a = .install → Vacant info j.resource s) :
    At info setup x j.resource a j.entry.stage j s := by
  refine ⟨⟨h.kind, h.stays, hkeeps, haction, .refl _, h.current⟩, rfl, fun _ => h.goesOn,
    fun _ => h.clear, fun _ => hdue, fun hawait => ?_, fun hlate => absurd hearly (by omega),
    fun hfinish => ?_⟩
  · rw [hawait] at hearly
    exact absurd hearly (by decide)
  · rw [hfinish] at hearly
    exact absurd hearly (by decide)

/-- The action of a module is chosen by its status. -/
theorem always_chooseAction (h : Begun info setup x j s) (rules : Rules H) :
    Pass.Oblivious j.chooseAction ∧ Always rules.conduct j.chooseAction s fun r t =>
      t = s ∧ match r with
        | .ok a => a ≠ .delete ∧ (a = .install → Vacant info j.resource s)
        | .error o => o.requeue = true := by
  rw [Job.chooseAction, Estate.wish_of_kind h.kind]
  dsimp only
  cases hselect : j.resource.selectAction with
  | ok a =>
      refine ⟨trivial, rfl, Estate.selectAction_ne_delete hselect, ?_⟩
      rintro rfl
      exact h.clear (Estate.installPending_of_selectAction hselect)
  | error e =>
      refine ⟨(Pass.oblivious_shortDelayWith _).bind fun _ => trivial, ?_⟩
      have hagain : ∀ f, Always rules.conduct (Pass.shortDelayWith f) s
          fun o _ => o.requeue = true := fun f => Pass.always_shortDelayWith fun _ _ _ => rfl
      dsimp only
      rw [always_bind]
      refine ((hagain _).and
        (Rules.always_aside (Pass.asks_shortDelayWith (fun _ h => h) _))).mono ?_
      exact fun o t ht => ⟨ht.2, ht.1⟩

variable (hrules : rules.Obliging info)
  (hcredits : rules.Credits x.namespaceName setup.defaults.repository)

include hrules hcredits

/-- The action that has been chosen, or is chosen now, is rehearsed. -/
theorem runPinned (h : Begun info setup x j s) (hacts : setup.dryRun = false)
    (hearly : j.entry.stage.rank ≤ 5) (hkeeps : j.entry.action ≠ some .delete)
    (hdue : j.entry.action = some .install → Vacant info j.resource s) :
    ShadowedFrom rules (Work.runPinned setup) (Work.runPinned setup.dry) j s
      (Left info x j.resource) := by
  unfold Work.runPinned Work.pinnedAction
  refine shadowedFrom_bind (shadowedFrom_get ?_)
  cases hentry : j.entry.action with
  | some a =>
      rw [hentry] at hkeeps hdue
      refine shadowedFrom_pure (Except.ok a) ?_
      refine (h.performing hentry ?_ hearly ?_).perform hrules hcredits hacts
      · exact fun ha => hkeeps (congrArg some ha)
      · exact fun ha => hdue (congrArg some ha)
  | none =>
      obtain ⟨hoblivious, hchoice⟩ := h.always_chooseAction rules
      refine shadowedFrom_bind (shadowedFrom_lift ?_)
      refine (shadowed_of_oblivious hrules.impartial hoblivious hchoice).mono ?_
      rintro (o | a) t ⟨⟨rfl, hr⟩, -⟩
      · refine shadowedFrom_pure (Except.error o) (shadowedFrom_pure o (h.left ?_ ?_))
        · refine .ahead hearly hkeeps fun hno => ?_
          rw [hentry] at hno
          exact absurd hno (by simp)
        · rw [hr]
          exact fun hno => absurd hno.symm Bool.false_ne_true
      · refine shadowedFrom_modify _ (shadowedFrom_pure (Except.ok a) ?_)
        exact ((h.withEntry (j.entry.pin a)).performing rfl hr.1 hearly hr.2).perform hrules
          hcredits hacts

omit hcredits in
/-- Whether the values have changed is found out alike once they have been applied. -/
theorem valuesChanged (h : Begun info setup x j s) {d : String}
    (hdigest : j.entry.digest = some d) :
    ShadowedFrom rules (Work.valuesChanged setup) (Work.valuesChanged setup.dry) j s
      fun _ j' t => j' = j ∧ t = s := by
  have hself : { j with entry := j.entry.setDigest d } = j := by
    rw [Entry.setDigest, ← hdigest]
  have hdigests : Shadowed rules (j.valuesDigest setup).run (j.valuesDigest setup.dry).run s
      fun _ t => t = s := by
    have hlookup : Asks (fun c => c.isLookup = true) (j.valuesDigest setup).run :=
      Pass.asks_valuesDigest (fun _ h => h) setup j
    have haside : Always rules.conduct (j.valuesDigest setup).run s fun _ t => t = s :=
      Rules.always_aside (hlookup.mono fun _ => Call.isAside_of_isLookup)
    refine (shadowed_of_oblivious hrules.impartial (Pass.oblivious_of_asks_lookup hlookup)
      haside).mono ?_
    exact fun _ _ ht => ht.1
  unfold Work.valuesChanged
  refine shadowedFrom_get ?_
  split
  · exact shadowedFrom_pure (Except.ok false) ⟨rfl, rfl⟩
  refine shadowedFrom_bind (shadowedFrom_lift (hdigests.mono ?_))
  rintro (e | desired) t rfl
  · refine shadowedFrom_bind (shadowedFrom_lift ((shadowed_of_oblivious hrules.impartial
      (Pass.oblivious_shortDelayWith _)
      (Rules.always_aside (Pass.asks_shortDelayWith (fun _ h => h) _))).mono ?_))
    rintro o t' ⟨rfl, -⟩
    exact shadowedFrom_pure (Except.error o) ⟨rfl, rfl⟩
  · dsimp only
    rw [Job.appliedDigest, Job.appliedDigest, hdigest]
    refine shadowedFrom_bind (shadowedFrom_pure (Except.ok d) ?_)
    exact shadowedFrom_modify _ (shadowedFrom_pure (Except.ok _) ⟨hself, rfl⟩)

/-- A pass over a living module is rehearsed. -/
theorem live (h : Begun info setup x j s) (hacts : setup.dryRun = false)
    (hrests : Rests info j.entry j.resource s) :
    ShadowedFrom rules (Work.live setup) (Work.live setup.dry) j s (Left info x j.resource) := by
  unfold Work.live
  refine shadowedFrom_get ?_
  rcases hrests with ⟨hearly, hkeeps, hdue⟩ | ⟨hstage, hdigest, hclosed⟩
  · have hstage : j.entry.stage ≠ .finish := by
      intro hfinish
      rw [hfinish] at hearly
      exact absurd hearly (by decide)
    rw [if_neg hstage, if_neg hstage]
    exact h.runPinned hrules hcredits hacts hearly hkeeps hdue
  · have hrests : Rests info j.entry j.resource s := .behind hstage hdigest hclosed
    obtain ⟨d, hd⟩ := Option.isSome_iff_exists.1 hdigest
    rw [if_pos hstage, if_pos hstage]
    refine shadowedFrom_bind ((h.valuesChanged hrules hd).mono ?_)
    rintro (o | _ | _) j' t ⟨rfl, rfl⟩
    · exact shadowedFrom_pure o (h.left hrests fun _ => hstage)
    · exact shadowedFrom_pure Outcome.done (h.left hrests fun _ => hstage)
    · have hearly : Stage.start.rank ≤ 5 := by decide
      have hkeeps : some Action.update ≠ some .delete := by decide
      have hdue : some Action.update ≠ some .install := by decide
      refine shadowedFrom_modify _ ?_
      exact (h.withEntry (j'.entry.pin .update).rearm).runPinned hrules hcredits hacts hearly hkeeps
        fun hno => absurd hno hdue

end Begun

end Earnest

end ReleaseOperator
