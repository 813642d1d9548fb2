import ReleaseOperator.Proofs.Evidence.Reports

/-!
# The steps of an action and their evidence

Up to the work a stage rests on nothing, so all that is to be kept there is that the pass is
still tending the resource. From the work on each step is looked at for what it tells: the
removal of a release, the report that it is not deployed, the report that it is ready. The
steps behind that keep the evidence.
-/

namespace ReleaseOperator.Contest

open InMemory Relation Program Work

variable {setup : Setup} {kind : Kind} {ns name : String} {begun s t : Contest} {r w : Resource}
  {j : Job} {action : Action} {pinned : Option Action} {stage : Stage} {c : Call} {a : c.Answer}

/-! ### Writing a resource as a whole -/

/-- What has become of a guarded write of a resource: it was refused, or the stored resource
was exchanged. What has happened meanwhile keeps all work where it was. -/
structure Saved (kind : Kind) (ns name : String) (begun s : Contest) (w : Resource)
    (or : Outcome × Resource) (t : Contest) : Prop where
  keyed : t.store.Keyed kind
  path : ReflTransGen (Guarded kind ns name) begun t
  story : ∃ recent, t.story = recent ++ s.story ∧ ∀ x ∈ recent, ∀ aim, Event.Keeps aim x
  result : or.1.requeue = true ∧ t.store = s.store ∨
    or.1.requeue = false ∧ (s.story.Smooth → t.story.Smooth) ∧
      ∃ old, s.store.get? ns name = some old ∧ or.2 = s.store.merged old w ∧
        (t.store.get? ns name = some or.2 ∨
          t.store.get? ns name = none ∧ or.2.isDeleting = true ∧ or.2.finalizers = [])

theorem always_saved (hkeyed : s.store.Keyed kind)
    (hpath : ReflTransGen (Guarded kind ns name) begun s)
    (hguard : Guard kind ns name s (.store (.update w))) :
    Always (uninterrupted kind) (Pass.persistResource w) s
      (Saved kind ns name begun s w) := by
  rw [Pass.always_persistResource]
  rintro a t ⟨store, hans, rfl⟩
  have hstep := hpath.tail ⟨_, a, store, hguard, hans, rfl⟩
  rw [Pass.always_afterWrite]
  cases a with
  | ok new =>
      obtain ⟨old, hold, _, hnew, hget, hkeyed'⟩ :=
        Store.update_ok hkeyed hguard.1 hguard.2.1 (update_of_answered hguard.1 hans)
      have hsmooth : s.story.Smooth →
          Story.Smooth (.asked (.store (.update w)) (.ok new) :: s.story) :=
        fun h => ⟨not_error_ok, h⟩
      refine ⟨hkeyed', hstep, ⟨[_], rfl, ?_⟩, Or.inr ⟨rfl, hsmooth, old, hold, hnew, hget⟩⟩
      intro x hx aim
      obtain rfl := List.mem_singleton.1 hx
      exact trivial
  | error e =>
      obtain rfl : store = s.store := same_of_update_error hguard.1 hans
      have hrefused : Always (uninterrupted kind) (Pass.refused e)
          ⟨s.store, .asked (.store (.update w)) (.error e) :: s.story⟩ fun _ t =>
            t.store = s.store ∧ ReflTransGen (Guarded kind ns name) begun t ∧
              ∃ recent, t.story = recent ++ s.story ∧ ∀ x ∈ recent, ∀ aim, Event.Keeps aim x := by
        refine (calm_refused e).always ?_ ⟨rfl, hstep, [_], rfl, ?_⟩
        · rintro x c a y hc ⟨store, hans, rfl⟩ ⟨hsame, hpath, recent, hstory, hrecent⟩
          have hxy := answered_of_isQuiet hc.1 hans
          refine ⟨hxy.trans hsame,
            hpath.tail ⟨c, a, store, guard_of_isQuiet hc.1, hans, rfl⟩,
            .asked c a :: recent, congrArg _ hstory, ?_⟩
          intro e he aim
          rcases List.mem_cons.1 he with rfl | he
          · exact hc.2 aim a
          · exact hrecent e he aim
        · intro x hx aim
          obtain rfl := List.mem_singleton.1 hx
          exact trivial
      refine ((Pass.always_refused_requeue e).and hrefused).mono ?_
      rintro o t ⟨ho, hstore, hpath, hstory⟩
      exact ⟨by rw [hstore]; exact hkeyed, hpath, hstory, Or.inl ⟨ho, hstore⟩⟩

/-- A write that has the finalizer leaves the stored resource with it. -/
theorem Saved.stays {or : Outcome × Resource} {old : Resource}
    (h : Saved kind ns name begun s w or t) (hold : s.store.get? ns name = some old)
    (hfin : old.hasFinalizer = true) (hwfin : w.hasFinalizer = true) :
    ∃ o, t.store.get? ns name = some o ∧ o.metadata.uid = old.metadata.uid ∧
      o.isDeleting = old.isDeleting ∧ o.hasFinalizer = true ∧ old.generation ≤ o.generation := by
  rcases h.result with ⟨_, hsame⟩ | ⟨_, _, old', hold', hnew, hget⟩
  · exact ⟨old, hsame ▸ hold, rfl, rfl, hfin, Int.le_refl _⟩
  · obtain rfl : old = old' := Option.some.inj (hold.symm.trans hold')
    have hnewfin : or.2.hasFinalizer = true := by
      rw [hnew]
      exact hwfin
    rcases hget with hget | ⟨_, _, hnil⟩
    · refine ⟨or.2, hget, ?_, ?_, hnewfin, ?_⟩
      · rw [hnew]
        rfl
      · rw [hnew]
        rfl
      · rw [hnew]
        exact Store.le_generation_merged s.store old w
    · rw [Resource.hasFinalizer, hnil] at hnewfin
      exact absurd hnewfin (by simp)

theorem attested_of_recent {story recent : Story} (hrecent : ∀ x ∈ recent, Event.Keeps r.aim x)
    (h : Story.Attested r action stage story) :
    Story.Attested r action stage (recent ++ story) :=
  Story.append_of_cons (fun _ _ he h => h.cons he) hrecent h

/-! ### Steps up to the work -/

theorem Left.draw {e : Entry} {low high : Nat} {ordered : low ≤ high}
    {n : Call.Answer (.draw low high ordered)}
    (h : Left kind ns name begun r action pinned e s)
    (hmay : (uninterrupted kind).may s (.draw low high ordered) n t) :
    Left kind ns name begun r action pinned e t := by
  obtain ⟨store, hans, rfl⟩ := hmay
  obtain rfl : store = s.store := hans
  obtain ⟨o, ho, huid, hdel, hfin, hle, hatt⟩ := h.stored
  exact ⟨h.keyed, h.path.tail ⟨_, n, s.store, trivial, rfl, rfl⟩,
    ⟨o, ho, huid, hdel, hfin, hle, fun he => (hatt he).cons trivial⟩, h.chosen⟩

/-- A version that is written down leaves the finalizer on and may begin a new generation. -/
theorem At.pinVersion (h : At kind ns name begun r action pinned stage j s)
    (hstage : stage.rank ≤ 5) (version : String) :
    Always (uninterrupted kind) (Pass.persistResource (j.resource.setDesiredVersion version)) s
      fun _ t => Left kind ns name begun r action pinned j.entry t := by
  have hcopy := h.tending.copy
  obtain ⟨hkind, hkey⟩ := h.tending.writes hcopy
  have hwkind : (j.resource.setDesiredVersion version).kind = kind := by
    rw [Resource.kind_setDesiredVersion]
    exact hkind
  have hwkey : Store.keyOf (j.resource.setDesiredVersion version) = (ns, name) := by
    rw [Store.keyOf, Resource.namespaceName, Resource.name, Resource.metadata_setDesiredVersion]
    exact hkey
  have hwfin : (j.resource.setDesiredVersion version).hasFinalizer = true := by
    rw [Resource.hasFinalizer, Resource.kind_setDesiredVersion, Resource.finalizers,
      Resource.metadata_setDesiredVersion]
    exact hcopy.hasFinalizer.trans h.tending.finalizer
  obtain ⟨o', ho', hmatch⟩ := h.tending.stored
  have hguard : Guard kind ns name s (.store (.update (j.resource.setDesiredVersion version))) :=
    ⟨hwkind, hwkey, fun _ => ⟨o', ho', fun _ => hmatch.hasFinalizer.trans h.tending.finalizer⟩,
      fun hno => absurd (hwfin.symm.trans hno) (by decide)⟩
  refine (always_saved h.tending.keyed h.tending.path hguard).mono ?_
  intro or t ht
  obtain ⟨o, ho, huid, hdel, hfin, hle⟩ :=
    ht.stays ho' (hmatch.hasFinalizer.trans h.tending.finalizer) hwfin
  refine ⟨ht.keyed, ht.path, ⟨o, ho, huid.trans hmatch.uid, hdel.trans hmatch.isDeleting, hfin,
    hmatch.generation ▸ hle, fun _ => ?_⟩, h.chosen⟩
  exact Story.attested_of_rank_le (by rw [h.reached]; exact hstage)

/-- A release is applied in the middle of a pass only where the resource asks for it. -/
theorem At.upgradeOrInstall (h : At kind ns name begun r action pinned stage j s)
    (hstage : stage.rank ≤ 5) {request : ReleaseRequest} (hrequest : request.release = j.release)
    {a : Except HelmError ReleaseInfo}
    (hmay : (uninterrupted kind).may s (.helm (.upgradeOrInstall request)) a t) :
    At kind ns name begun r action pinned stage j t := by
  obtain ⟨store, hans, rfl⟩ := hmay
  obtain rfl : store = s.store := hans
  obtain ⟨o, ho, hmatch⟩ := h.tending.stored
  have hfin := hmatch.hasFinalizer.trans h.tending.finalizer
  have hplace : request.release.place = r.releasePlace := by
    rw [hrequest]
    exact h.tending.release
  exact ⟨h.tending.asked ⟨⟨r, h.tending.fetched, h.tending.finalizer, hplace⟩, o, ho, hfin⟩ rfl,
    h.reached, h.chosen, Story.attested_of_rank_le hstage⟩

/-- Whatever is asked up to the work keeps the pass at its stage. -/
theorem At.upheld (hstage : stage.rank ≤ 5) :
    Upheld (uninterrupted kind) setup (fun reason => reason ∈ Reason.underway)
      (At kind ns name begun r action pinned stage)
      (Left kind ns name begun r action pinned) where
  stop h := h.left
  look hq h hmay := by
    obtain ⟨ht, _⟩ := h.tending.quietCall hq hmay
    exact ⟨ht, h.reached, h.chosen, Story.attested_of_rank_le hstage⟩
  draw h hmay := h.draw hmay
  entry _ hs ha _ h := h.withJob rfl h.tending.copy hs ha
  status := by
    intro j s w reason h hrecorded hreason
    refine (h.persistStatus hrecorded.metadata hrecorded.spec ?_).mono ?_
    · intro reason' hmem hends'
      rw [← endsIn_unique hrecorded.endsIn hends'] at hmem
      have hnot : ∀ x ∈ Reason.underway, x ∉ Reason.successes := by decide
      exact absurd hmem (hnot reason hreason)
    · intro or t ht
      unfold Proceeds
      split
      · exact ht.left
      · exact ht
  pin := by
    intro j s t credentials version h _ hmay
    obtain ⟨ht, _⟩ := h.tending.quietCall rfl hmay
    have hat : At kind ns name begun r action pinned stage j t :=
      ⟨ht, h.reached, h.chosen, Story.attested_of_rank_le hstage⟩
    exact hat.pinVersion hstage version
  apply h hrequest hmay := h.upgradeOrInstall hstage hrequest hmay
  applied h hrequest _ hmay :=
    (h.upgradeOrInstall hstage hrequest hmay).withJob rfl h.tending.copy rfl rfl
  rehearsed _ _ h := h.withJob rfl h.tending.copy rfl rfl
  remove := by
    rintro j s a t h ⟨store, hans, rfl⟩
    obtain rfl : store = s.store := hans
    exact ⟨h.tending.asked trivial rfl, h.reached, h.chosen, Story.attested_of_rank_le hstage⟩

/-! ### Entering a stage -/

/-- A stage is entered when what it rests on is there, the entering itself included. -/
theorem At.enter (h : At kind ns name begun r action pinned stage j s) (next : Stage)
    (hnext : Story.Attested r action next
      (.asked (.count (.transition next.label action.workName)) () :: s.story)) :
    AlwaysFrom (uninterrupted kind) (Work.enter action next) j s fun _ j' t =>
      At kind ns name begun r action pinned next j' t := by
  rw [Work.always_enter]
  intro u t hmay
  obtain ⟨ht, rfl⟩ := h.tending.quietCall rfl hmay
  exact ⟨ht.withJob rfl h.tending.copy, rfl, h.chosen, hnext⟩

/-- Stages other than the first one are entered without losing evidence. -/
theorem keeps_entering {next : Stage} (hnext : next ≠ .checkNeeded) (aim : Aim) (work : String)
    (u : Unit) : Event.Keeps aim (.asked (.count (.transition next.label work)) u) :=
  fun hlabel => hnext (Stage.label_injective hlabel)

/-! ### The release removed -/

/-- The removal ends with no release left, or it comes back. -/
theorem At.uninstall (hdry : setup.dryRun = false)
    (h : At kind ns name begun r action pinned .work j s) :
    AlwaysFrom (uninterrupted kind) (Work.uninstall setup) j s fun o j' t =>
      if o.requeue then Left kind ns name begun r action pinned j'.entry t
      else At kind ns name begun r action pinned .work j' t ∧ Story.Removed r.aim t.story := by
  have U : Upheld (uninterrupted kind) setup (fun reason => reason ∈ Reason.underway)
      (At kind ns name begun r action pinned .work) (Left kind ns name begun r action pinned) :=
    At.upheld (by decide)
  have hplace : j.release.place = r.aim.place := h.tending.release
  rw [Work.always_uninstall, hdry]
  simp only [Bool.false_eq_true, ↓reduceIte]
  intro a t hmay
  have ht := U.look rfl h hmay
  obtain ⟨_, rfl⟩ := h.tending.quietCall rfl hmay
  rcases a with e | _ | info
  · refine Pass.always_shortDelayWith ?_
    rintro d t' ⟨n, hn⟩
    exact ht.left.draw hn
  · refine ⟨ht, Story.since_of_mark ?_⟩
    exact hplace
  · intro a' t' hmay'
    have ht' := U.remove ht hmay'
    obtain ⟨store, hans, rfl⟩ := hmay'
    cases a' with
    | ok u => exact ⟨ht', Story.since_of_mark ⟨rfl, hplace⟩⟩
    | error e =>
        refine (U.stopped_fail ht' (by decide) _).mono ?_
        rintro o j' t ⟨ho, hleft⟩
        rw [if_pos ho]
        exact hleft

/-! ### The end of the wait -/

/-- The wait for a removal ends when Helm has reported that nothing is deployed. -/
theorem At.isGone (hdry : setup.dryRun = false)
    (h : At kind ns name begun r .delete pinned .awaitWork j s) :
    AlwaysFrom (uninterrupted kind) (Work.isGone setup) j s fun gone j' t =>
      At kind ns name begun r .delete pinned .awaitWork j' t ∧
        (gone.1 = true → Story.Attested r .delete .announcePostWork t.story) := by
  have hplace : j.release.place = r.aim.place := h.tending.release
  rw [Work.isGone, hdry]
  simp only [Bool.false_eq_true, ↓reduceIte]
  rw [alwaysFrom_bind, alwaysFrom_get, alwaysFrom_bind, Work.always_ask, Pass.always_helm]
  intro a t hmay
  have hkeeps : Event.Keeps r.aim
      (.asked (.helm (.releaseInfo j.release.name j.release.namespaceName)) a) := trivial
  obtain ⟨ht, rfl⟩ := h.calmCall rfl hkeeps hmay
  cases a with
  | error e =>
      rw [Work.always_ask]
      refine ((ht.calm (calm_unanswered (.helm e))).and (always_unanswered _)).mono ?_
      rintro gone t ⟨ht, hno⟩
      exact ⟨ht, fun hyes => absurd (hno.symm.trans hyes) Bool.false_ne_true⟩
  | ok info =>
      rw [alwaysFrom_pure]
      refine ⟨ht, fun hgone hdel => Story.since_of_mark ⟨⟨hplace, ?_⟩, h.attested hdel⟩⟩
      rintro i rfl hdeployed
      rw [Option.any_some, hdeployed] at hgone
      exact absurd hgone (by decide)

/-- The wait for a release ends when it was reported as ready. -/
theorem At.isReady (hdry : setup.dryRun = false) (haction : action ≠ .delete)
    (h : At kind ns name begun r action pinned .awaitWork j s) :
    AlwaysFrom (uninterrupted kind) (Work.isReady setup) j s fun ready j' t =>
      At kind ns name begun r action pinned .awaitWork j' t ∧
        (ready.1 = true → Story.Attested r action .announcePostWork t.story) := by
  have hversion : j.resource.desiredVersion = r.aim.version :=
    congrArg Aim.version h.tending.copy.aim
  rw [Work.always_isReady, Job.isReady, hdry, hversion]
  simp only [Bool.false_eq_true, ↓reduceIte]
  refine ((h.calm (calm_releaseReady _ _)).and (always_releaseReady h.tending.release)).mono ?_
  rintro ready t ⟨ht, hgrounds⟩
  refine ⟨ht, fun hyes => ?_⟩
  obtain ⟨news, hnews, hready⟩ := hgrounds hyes
  have hproven : Story.Worked r.aim s.story → Story.Proven r.aim t.story := by
    intro hworked
    rw [hnews.1]
    exact hworked.proven (fun x hx => hnews.2 x hx r.aim) hready
  cases action with
  | delete => exact absurd rfl haction
  | install => exact hproven h.attested
  | update => exact hproven h.attested
  | upgrade => exact hproven h.attested

theorem At.isDone (hdry : setup.dryRun = false)
    (h : At kind ns name begun r action pinned .awaitWork j s) :
    AlwaysFrom (uninterrupted kind) (Worker.forAction setup action).isDone j s fun done j' t =>
      At kind ns name begun r action pinned .awaitWork j' t ∧
        (done.1 = true → Story.Attested r action .announcePostWork t.story) := by
  cases action with
  | delete => exact h.isGone hdry
  | install => exact h.isReady hdry (by decide)
  | update => exact h.isReady hdry (by decide)
  | upgrade => exact h.isReady hdry (by decide)

/-! ### The steps after the wait -/

/-- The completion of an action is recorded as a success only when it was one. -/
theorem At.conclude (h : At kind ns name begun r action pinned stage j s) {reason : Reason}
    {reaches : Bool}
    (hsuccess : reason ∈ Reason.successes →
      ∀ story, Story.Attested r action stage story → Story.Proven r.aim story) :
    AlwaysFrom (uninterrupted kind) (Work.conclude reason reaches) j s fun _ j' t =>
      At kind ns name begun r action pinned stage j' t := by
  rw [Work.always_conclude]
  refine (h.calm calm_now).mono ?_
  intro time t ht
  refine ht.persistStatus (Work.metadata_concluded j reason reaches time)
    (Work.spec_concluded j reason reaches time) ?_
  intro reason' hmem hends
  rw [← endsIn_unique (Work.endsIn_concluded j reason reaches time) hends] at hmem
  exact hsuccess hmem

theorem At.concludeInstall (h : At kind ns name begun r .install pinned .complete j s) :
    AlwaysFrom (uninterrupted kind) Work.concludeInstall j s fun _ j' t =>
      At kind ns name begun r .install pinned .complete j' t := by
  refine Work.always_concludeInstall ?_ (h.conclude fun _ _ => id)
  intro o j' s' u t hmay h'
  have hkeeps : Event.Keeps r.aim (.asked (.count .installDuration) u) := trivial
  exact (h'.calmCall rfl hkeeps hmay).1

theorem At.complete (h : At kind ns name begun r action pinned .complete j s) :
    AlwaysFrom (uninterrupted kind) (Worker.forAction setup action).complete j s fun _ j' t =>
      At kind ns name begun r action pinned .complete j' t := by
  cases action with
  | install => exact h.concludeInstall
  | update => exact h.conclude fun _ _ => id
  | upgrade => exact h.conclude fun _ _ => id
  | delete => exact h.conclude fun hmem => absurd hmem (by decide)

/-- The class is asked after the wait; nothing rests on its answer. -/
theorem At.postWork (h : At kind ns name begun r action pinned .postWork j s) :
    AlwaysFrom (uninterrupted kind) (Worker.forAction setup action).postWork j s fun _ j' t =>
      At kind ns name begun r action pinned .postWork j' t := by
  have hhook : AlwaysFrom (uninterrupted kind) (Work.hook .postWork action) j s fun _ j' t =>
      At kind ns name begun r action pinned .postWork j' t := by
    rw [Work.hook, Work.always_about]
    exact h.calm (calm_hook .postWork action j.release)
  cases action <;> exact hhook

/-! ### Whole runs -/

/-- A step leads to the next stage, or the work stops. -/
def Leads (kind : Kind) (ns name : String) (begun : Contest) (r : Resource) (action : Action)
    (pinned : Option Action) (stage : Stage) : Outcome → Job → Contest → Prop :=
  Worker.Onward (uninterrupted kind) action stage (At kind ns name begun r action pinned)
    (Proceeds (At kind ns name begun r action pinned .finish)
      (Left kind ns name begun r action pinned))

theorem At.onward {o : Outcome} (h : At kind ns name begun r action pinned stage j s)
    (hnext : o.requeue = false → Story.Attested r action stage.next
      (.asked (.count (.transition stage.next.label action.workName)) () :: s.story)) :
    Leads kind ns name begun r action pinned stage o j s := by
  unfold Leads Worker.Onward
  split
  · rename_i ho
    rw [Proceeds, if_pos ho]
    exact h.left
  · rename_i ho
    exact h.enter stage.next (hnext (Bool.not_eq_true _ ▸ ho))

/-- Behind the wait every stage rests on what the one before it rests on. -/
theorem attested_next (hstage : 6 < stage.rank) (hne : stage ≠ .finish)
    (h : Story.Attested r action stage s.story) :
    Story.Attested r action stage.next
      (.asked (.count (.transition stage.next.label action.workName)) () :: s.story) := by
  have hnext : stage.next ≠ .checkNeeded := by
    cases stage <;> first | decide | exact absurd hstage (by decide)
  have hkept := h.cons (keeps_entering hnext r.aim action.workName ())
  cases stage <;> first
    | exact absurd rfl hne
    | exact absurd hstage (by decide)
    | cases action <;> first | exact hkept | exact trivial

theorem Left.onward {o : Outcome} (h : Left kind ns name begun r action pinned j.entry s)
    (ho : o.requeue = true) :
    Leads kind ns name begun r action pinned stage o j s := by
  rw [Leads, Worker.Onward, if_pos ho, Proceeds, if_pos ho]
  exact h

/-- Up to the work any evidence for the next stage has to come from its being entered. -/
theorem At.step (hstage : stage.rank ≤ 5) {work : Work Outcome}
    (hmem : (stage, work) ∈ (Worker.forAction setup action).steps)
    (h : At kind ns name begun r action pinned stage j s)
    (hnext : ∀ story, Story.Attested r action stage.next
      (.asked (.count (.transition stage.next.label action.workName)) () :: story)) :
    AlwaysFrom (uninterrupted kind) work j s
      (Leads kind ns name begun r action pinned stage) := by
  have U : Upheld (uninterrupted kind) setup (fun reason => reason ∈ Reason.underway)
      (At kind ns name begun r action pinned stage) (Left kind ns name begun r action pinned) :=
    At.upheld hstage
  have hne : stage ≠ .complete := by
    rintro rfl
    exact absurd hstage (by decide)
  refine (U.step (fun _ => id) action hmem hne h).mono ?_
  intro o j' t ht
  unfold Proceeds at ht
  split at ht
  · rename_i ho
    exact ht.onward ho
  · exact ht.onward fun _ => hnext t.story

theorem At.work (hdry : setup.dryRun = false)
    (h : At kind ns name begun r action pinned .work j s) :
    AlwaysFrom (uninterrupted kind) (Worker.forAction setup action).work j s
      (Leads kind ns name begun r action pinned .work) := by
  have hmem : (.work, (Worker.forAction setup action).work) ∈
      (Worker.forAction setup action).steps := by simp [Worker.steps]
  cases action with
  | install => exact h.step (by decide) hmem fun _ => Story.since_of_mark rfl
  | update => exact h.step (by decide) hmem fun _ => Story.since_of_mark rfl
  | upgrade => exact h.step (by decide) hmem fun _ => Story.since_of_mark rfl
  | delete =>
      refine (h.uninstall hdry).mono ?_
      intro o j' t ht
      split at ht
      · rename_i ho
        exact ht.onward ho
      · exact ht.1.onward fun _ _ => ht.2.cons (keeps_entering (by decide) _ _ _)

/-- Work that is not needed is over; a removal is always needed. -/
theorem At.isNeeded (h : At kind ns name begun r action pinned .checkNeeded j s) :
    AlwaysFrom (uninterrupted kind) (Worker.forAction setup action).isNeeded j s fun needed j' t =>
      if needed.1 || needed.2.requeue then
        Leads kind ns name begun r action pinned .checkNeeded needed.2 j' t
      else AlwaysFrom (uninterrupted kind) (Work.enter action .finish) j' t fun _ =>
        Proceeds (At kind ns name begun r action pinned .finish)
          (Left kind ns name begun r action pinned) .done := by
  have hneeded : AlwaysFrom (uninterrupted kind) (Worker.forAction setup action).isNeeded j s
      fun needed j' t => At kind ns name begun r action pinned .checkNeeded j' t ∧
        (needed.1 = false → action ≠ .delete) := by
    cases action with
    | delete => exact ⟨h, fun hno : true = false => absurd hno (by decide)⟩
    | install => exact ⟨h, fun _ => by decide⟩
    | update => exact ⟨h, fun _ => by decide⟩
    | upgrade => exact ⟨h, fun _ => by decide⟩
  refine hneeded.mono ?_
  rintro needed j' t ⟨ht, hdelete⟩
  split
  · exact ht.onward fun _ => Story.attested_of_rank_le (by decide)
  · rename_i hno
    rw [Bool.or_eq_true, not_or, Bool.not_eq_true] at hno
    refine ht.enter .finish ?_
    cases action with
    | delete => exact absurd rfl (hdelete hno.1)
    | install => exact trivial
    | update => exact trivial
    | upgrade => exact trivial

theorem At.await (hdry : setup.dryRun = false)
    (h : At kind ns name begun r action pinned .awaitWork j s) :
    AlwaysFrom (uninterrupted kind) (Worker.forAction setup action).isDone j s fun done j' t =>
      if done.1 || done.2.requeue then
        Leads kind ns name begun r action pinned .awaitWork done.2 j' t
      else Always (uninterrupted kind) Pass.shortDelay t fun o u =>
        Proceeds (At kind ns name begun r action pinned .finish)
          (Left kind ns name begun r action pinned) o j' u := by
  refine (h.isDone hdry).mono ?_
  rintro done j' t ⟨ht, hdone⟩
  split
  · rename_i hyes
    refine ht.onward fun ho => ?_
    rw [ho, Bool.or_false] at hyes
    exact (hdone hyes).cons (keeps_entering (by decide) _ _ _)
  · refine Pass.always_shortDelay ?_
    rintro d u ⟨n, hn⟩
    exact ht.left.draw hn

/-- Each step leads on. -/
theorem At.leads (hdry : setup.dryRun = false) {work : Work Outcome}
    (hmem : (stage, work) ∈ (Worker.forAction setup action).steps)
    (h : At kind ns name begun r action pinned stage j s) :
    AlwaysFrom (uninterrupted kind) work j s (Leads kind ns name begun r action pinned stage) := by
  have hearly : stage.rank ≤ 4 → AlwaysFrom (uninterrupted kind) work j s
      (Leads kind ns name begun r action pinned stage) := by
    intro hstage
    refine h.step (Nat.le_succ_of_le hstage) hmem fun _ => Story.attested_of_rank_le ?_
    have hne : stage ≠ .finish := by
      rintro rfl
      exact absurd hstage (by decide)
    rw [Stage.rank_next hne]
    exact Nat.succ_le_succ hstage
  have hlate : 6 < stage.rank → stage ≠ .finish →
      AlwaysFrom (uninterrupted kind) work j s (fun _ j' t =>
        At kind ns name begun r action pinned stage j' t) →
      AlwaysFrom (uninterrupted kind) work j s (Leads kind ns name begun r action pinned stage) :=
    fun hstage hne hwork => hwork.mono fun _ _ _ ht =>
      ht.onward fun _ => attested_next hstage hne ht.attested
  have hsteps := hmem
  simp only [Worker.steps, List.mem_cons, Prod.mk.injEq, List.not_mem_nil, or_false] at hsteps
  rcases hsteps with ⟨rfl, rfl⟩ | ⟨rfl, rfl⟩ | ⟨rfl, rfl⟩ | ⟨rfl, rfl⟩ | ⟨rfl, rfl⟩ |
    ⟨rfl, rfl⟩ | ⟨rfl, rfl⟩
  · exact hearly (by decide)
  · exact hearly (by decide)
  · exact hearly (by decide)
  · exact h.work hdry
  · refine hlate (by decide) (by decide) ?_
    cases action <;> exact h
  · exact hlate (by decide) (by decide) h.postWork
  · exact hlate (by decide) (by decide) h.complete

/-- An action from whatever stage it has reached: it comes to its end, or it leaves the
resource with its finalizer. -/
theorem At.perform (hdry : setup.dryRun = false)
    (h : At kind ns name begun r action pinned stage j s) :
    AlwaysFrom (uninterrupted kind) (Work.perform setup action) j s
      (Proceeds (At kind ns name begun r action pinned .finish)
        (Left kind ns name begun r action pinned)) := by
  rw [Work.always_perform, h.reached]
  exact Worker.always_run_of_steps (Worker.action_forAction setup action)
    (fun _ _ h => h.onward fun _ => Story.attested_of_rank_le (by decide))
    (fun _ _ h => h.isNeeded) (fun _ _ h => h.await hdry)
    (fun _ _ hmem _ _ h => h.leads hdry hmem) (fun _ _ h => h) h

end ReleaseOperator.Contest
