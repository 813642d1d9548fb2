import ReleaseOperator.Proofs.Absence.Failures
import ReleaseOperator.Proofs.Selections

/-!
# A release that is missing

Helm answers every question about a release that is not there by the same failure. The client
takes it for the answer that there is none when it is asked what is known of the release, but
not when it is asked for the values. A pass over a finished module that has to know which values
were applied therefore fails, and so does every later one, where an engine that says that there
is no such release lets the values that are asked for stand in.
-/

namespace ReleaseOperator

open InMemory Relation Program Helm

/-- A pass that does not get at the resource or at the sources of its values. -/
def Failure.isUpstream : Failure → Bool
  | .cluster _ | .source _ => true
  | _ => false

/-- A failure to have the values of a release, with the text by which Helm says that there is no
such release. -/
def Failure.DeniesValues (f : Failure) : Prop :=
  ∃ text, saysReleaseAbsent text = true ∧ f = .helm (.commandFailed "get-values" (Text.trim text))

/-- Everything that is asked about a release fails, and says that there is no such release. -/
def Helm.Client.Misses {T : Type} (client : Client) (b : Behaviour ShellCall ShellCall.Answer T)
    (name ns : String) : Prop :=
  ∀ t what rest, client.FailsOn b t (Arguments.get what name ns ++ rest)
    fun text => saysReleaseAbsent text = true

/-- A resource whose work is finished and whose values are to be looked after, under an entry
that does not know which were applied. -/
structure Unmeasured (setup : Setup) (m : Memory) (r : Resource) (e : Entry) : Prop where
  className : r.className = setup.className
  lives : r.isDeleting = false
  goesOn : r.isTerminal = false
  finalizer : r.hasFinalizer = true
  wish : r.wish = .declarative
  selects : r.selectsUpdate = true
  kept : m.lifecycle.get? (.ofResource r) r.generation = some e
  finished : e.stage = .finish
  fresh : e.digest = none

/-- A pass that is to be made again because of a failure, and that leaves the entry as it was. -/
structure PutOff (r : Resource) (e : Entry) (why : Failure → Prop) (a : Except PassError Outcome)
    (m : Memory) : Prop where
  comesBack : ∃ d f, why f ∧ a = .ok (.failed d f)
  kept : m.lifecycle.get? (.ofResource r) r.generation = some e

/-- A pass that need not be made again, after which the values that are asked for count as those
that were applied. -/
structure TakesDesired {S : Type} (b : Conduct S) (setup : Setup) (r : Resource) (e : Entry)
    (a : Except PassError Outcome) (m : Memory) : Prop where
  rests : a = .ok .done
  taken : ∃ s desired s', Runs b ((Job.start setup r e).valuesDigest setup).run s (.ok desired) s' ∧
    m.lifecycle.get? (.ofResource r) r.generation = some (e.setDigest desired)

section Passes

variable {S T : Type} {b : Conduct S} {setup : Setup} {m : Memory} {r : Resource} {e : Entry}
  {kind : Kind} {ns name : String} {s : S} {why : Failure → Prop}

theorem PutOff.imp {why' : Failure → Prop} {a : Except PassError Outcome}
    (h : PutOff r e why a m) (himp : ∀ f, why f → why' f) : PutOff r e why' a m := by
  obtain ⟨⟨d, f, hf, ha⟩, hkept⟩ := h
  exact ⟨⟨d, f, himp f hf, ha⟩, hkept⟩

namespace Unmeasured

/-- The entry as it is left by the pass. -/
theorem recorded (h : Unmeasured setup m r e) (e' : Entry) :
    (m.lifecycle.record (.ofResource r) r.generation e').get? (.ofResource r) r.generation =
      some e' :=
  Tracker.get?_record_of_get? h.kept e'

/-- A pass that cannot have the values that are asked for is put off. All others turn on what is
found to be applied. -/
theorem always_reconcile (h : Unmeasured setup m r e)
    (hread : ∀ a s', b.may s (.store (.get kind ns name)) a s' →
      (∃ e, a = .error e) ∨ a = .ok (some r))
    {post : Except PassError Outcome → Memory → S → Prop}
    (hput : ∀ a m' s', PutOff r e (fun f => f.isUpstream = true) a m' → post a m' s')
    (happlied : ∀ s₁ desired s₂,
      Runs b ((Job.start setup r e).valuesDigest setup).run s₁ (.ok desired) s₂ →
      Always b ((Job.start setup r e).appliedDigest setup desired) s₂ fun applied s' =>
        match applied with
        | .error o => ∀ m', m'.lifecycle.get? (.ofResource r) r.generation = some e →
            post (.ok o) m' s'
        | .ok applied => applied = desired ∧ ∀ m',
            m'.lifecycle.get? (.ofResource r) r.generation = some (e.setDigest desired) →
              post (.ok .done) m' s') :
    AlwaysFrom b (reconcile setup kind ns name) m s post := by
  rw [ReleaseOperator.always_reconcile]
  intro a s₁ hmay
  rcases hread a s₁ hmay with ⟨failure, rfl⟩ | rfl
  · exact Pass.always_shortDelayWith fun d s' _ => hput _ _ _ ⟨⟨d, _, rfl, rfl⟩, h.kept⟩
  dsimp only
  rw [if_neg (not_not_intro h.className), Reconcile.always_found,
    if_neg (by rw [h.lives]; exact Bool.false_ne_true),
    if_neg (by rw [h.goesOn]; exact Bool.false_ne_true), Pass.always_ensureFinalizer,
    if_pos h.finalizer]
  dsimp only
  rw [Reconcile.always_live, Tracker.ensure_of_get? h.kept]
  dsimp only
  have hresource : (Job.start setup r e).resource = r := rfl
  have hstage : (Job.start setup r e).entry.stage = .finish := h.finished
  rw [Work.always_live, if_pos hstage, Work.always_valuesChanged, hresource, h.wish, h.selects,
    if_neg (by decide)]
  refine always_iff_runs.2 fun d s₂ hrun => ?_
  cases d with
  | error failure =>
      exact Pass.always_shortDelayWith fun d s' _ =>
        hput _ _ _ ⟨⟨d, _, rfl, rfl⟩, h.recorded e⟩
  | ok desired =>
      refine (happlied _ desired s₂ hrun).mono fun applied s' hpost => ?_
      cases applied with
      | error o => exact hpost _ (h.recorded e)
      | ok applied =>
          obtain ⟨rfl, hpost⟩ := hpost
          dsimp only
          rw [show decide (applied ≠ applied) = false from decide_eq_false (not_not_intro rfl)]
          exact hpost _ (h.recorded _)

/-- Where nothing is done to releases, or Helm says of the values that there is no such release,
the values that are asked for stand in. -/
theorem takesDesired (h : Unmeasured setup m r e)
    (hread : ∀ a s', b.may s (.store (.get kind ns name)) a s' →
      (∃ e, a = .error e) ∨ a = .ok (some r))
    (hmissing : setup.dryRun = true ∨ ∀ s a s', b.may s (.helm (.values
      (r.release setup.defaults).name (r.release setup.defaults).namespaceName)) a s' →
        a = .error (.releaseNotFound (r.release setup.defaults).name
          (r.release setup.defaults).namespaceName)) :
    AlwaysFrom b (reconcile setup kind ns name) m s fun a m' _ =>
      PutOff r e (fun f => f.isUpstream = true) a m' ∨ TakesDesired b setup r e a m' := by
  refine h.always_reconcile hread (fun _ _ _ => Or.inl) fun s₁ desired s₂ hrun => ?_
  have hdone : ∀ m', m'.lifecycle.get? (.ofResource r) r.generation = some (e.setDigest desired) →
      PutOff r e (fun f => f.isUpstream = true) (.ok .done) m' ∨
        TakesDesired b setup r e (.ok .done) m' :=
    fun m' hm' => Or.inr ⟨rfl, _, desired, _, hrun, hm'⟩
  have hdigest : (Job.start setup r e).entry.digest = none := h.fresh
  rw [Job.always_appliedDigest, hdigest]
  dsimp only
  split
  · exact ⟨rfl, hdone⟩
  · rename_i hdry
    intro a s' hmay
    obtain rfl := (hmissing.resolve_left hdry) _ _ _ hmay
    exact ⟨rfl, hdone⟩

/-- Where Helm fails to tell the values in another way the pass is put off, and the entry does
not come to know any. -/
theorem putOff (h : Unmeasured setup m r e) (hwet : setup.dryRun = false)
    (hread : ∀ a s', b.may s (.store (.get kind ns name)) a s' →
      (∃ e, a = .error e) ∨ a = .ok (some r))
    (hfails : ∀ s a s', b.may s (.helm (.values (r.release setup.defaults).name
      (r.release setup.defaults).namespaceName)) a s' →
        ∃ e, a = .error e ∧ (∀ name ns, e ≠ .releaseNotFound name ns) ∧ why (.helm e)) :
    AlwaysFrom b (reconcile setup kind ns name) m s fun a m' _ =>
      PutOff r e (fun f => f.isUpstream = true ∨ why f) a m' := by
  refine h.always_reconcile hread (fun _ _ _ hput => hput.imp fun _ => Or.inl) ?_
  intro s₁ desired s₂ _
  have hdigest : (Job.start setup r e).entry.digest = none := h.fresh
  rw [Job.always_appliedDigest, hdigest]
  dsimp only
  rw [if_neg (by rw [hwet]; exact Bool.false_ne_true)]
  intro a s' hmay
  obtain ⟨failure, rfl, hother, hwhy⟩ := hfails _ _ _ hmay
  cases failure with
  | releaseNotFound name ns => exact absurd rfl (hother name ns)
  | _ =>
      exact Pass.always_shortDelayWith fun d s'' _ m' hm' => ⟨⟨d, _, Or.inr hwhy, rfl⟩, hm'⟩

end Unmeasured

end Passes

/-! ### What the client makes of it -/

section Missing

variable {T : Type} {client : Client} {b : Behaviour ShellCall ShellCall.Answer T}
  {name ns : String}

theorem Helm.Client.Misses.always_releaseInfo (h : client.Misses b name ns) (t : T) :
    Always b (client.releaseInfo name ns).run t fun a _ => a = .ok none := by
  refine Client.absent_releaseInfo ?_
  exact (h t "metadata" ["--output", "json"]).imp fun _ => saysAbsent_of_saysReleaseAbsent

theorem Helm.Client.Misses.always_values (h : client.Misses b name ns) (t : T) :
    Always b (client.values name ns).run t fun a _ => ∃ text, saysReleaseAbsent text = true ∧
      a = .error (.commandFailed "get-values" (Text.trim text)) :=
  Client.always_values_of_fails (h t "values" ["--output", "json"]) fun text _ htext =>
    ⟨text, htext, rfl⟩

namespace Contest

/-- A pass reads what is stored, or fails to. -/
theorem read_of_driven {kind : Kind} {place : String} {r : Resource} {st st' : Contest × T}
    {a : Except ClusterError (Option Resource)} (hr : st.1.store.get? place name = some r)
    (hmay : (driven kind place name client b).may st (.store (.get kind place name)) a st') :
    (∃ e, a = .error e) ∨ a = .ok (some r) := by
  obtain ⟨⟨store, hans, _⟩, _⟩ := hmay
  rcases a with e | found
  · exact Or.inl ⟨e, rfl⟩
  · obtain rfl : found = some r := (stored_of_answered hans).symm.trans hr
    exact Or.inr rfl

theorem denied_of_driven {kind : Kind} {place key : String} {st st' : Contest × T}
    {a : Except HelmError Json} (h : client.Misses b name ns)
    (hmay : (driven kind place key client b).may st (.helm (.values name ns)) a st') :
    ∃ e, a = .error e ∧ (∀ name ns, e ≠ .releaseNotFound name ns) ∧
      (Failure.helm e).DeniesValues := by
  obtain ⟨text, htext, rfl⟩ := always_iff_runs.1 (h.always_values st.2) _ _ hmay.2
  refine ⟨_, rfl, fun _ _ h => ?_, text, htext, rfl⟩
  cases h

end Contest

end Missing

/-- While Helm says of a release that there is none, whatever is asked, the client says so of all
that is known of it, but not of its values. A pass over a finished module that has to know the
values that were applied is put off for that, where it would rest, with the values that are
asked for as those applied, if the engine said that there is no such release. It rests in a dry
run. -/
theorem values_of_missing_release {T : Type} (client : Client)
    (b : Behaviour ShellCall ShellCall.Answer T) (name ns : String)
    (hmissing : client.Misses b name ns) :
    (∀ t, Always b (client.releaseInfo name ns).run t fun a _ => TellsAbsence name ns a ∧
      Report.part name ns ReleaseInfo.chartVersion a = .error (.releaseNotFound name ns)) ∧
    (∀ t, Always b (client.values name ns).run t fun a _ => ∃ text, saysReleaseAbsent text = true ∧
      a = .error (.commandFailed "get-values" (Text.trim text))) ∧
    ∀ (setup : Setup) (m : Memory) (r : Resource) (e : Entry), Unmeasured setup m r e →
      (r.release setup.defaults).name = name → (r.release setup.defaults).namespaceName = ns →
      ∀ (kind : Kind) (place key : String),
        (∀ st : Contest × T, st.1.store.get? place key = some r →
          AlwaysFrom (Contest.driven kind place key client b) (reconcile setup kind place key) m st
            fun a m' _ => if setup.dryRun then
                PutOff r e (fun f => f.isUpstream = true) a m' ∨
                  TakesDesired (Contest.driven kind place key client b) setup r e a m'
              else PutOff r e (fun f => f.isUpstream = true ∨ f.DeniesValues) a m') ∧
        ∀ (S : Type) (engine : Conduct S) (s : S),
          (∀ a s', engine.may s (.store (.get kind place key)) a s' →
            (∃ e, a = .error e) ∨ a = .ok (some r)) →
          (∀ s a s', engine.may s (.helm (.values name ns)) a s' →
            a = .error (.releaseNotFound name ns)) →
          AlwaysFrom engine (reconcile setup kind place key) m s fun a m' _ =>
            PutOff r e (fun f => f.isUpstream = true) a m' ∨
              TakesDesired engine setup r e a m' := by
  refine ⟨fun t => (hmissing.always_releaseInfo t).mono ?_, hmissing.always_values, ?_⟩
  · rintro a _ rfl
    exact ⟨tellsAbsence_none, rfl⟩
  rintro setup m r e h rfl rfl kind place key
  refine ⟨fun st hr => ?_, fun S engine s hread hnone => h.takesDesired hread (Or.inr hnone)⟩
  have hread : ∀ a st', (Contest.driven kind place key client b).may st
      (.store (.get kind place key)) a st' → (∃ e, a = .error e) ∨ a = .ok (some r) :=
    fun _ _ => Contest.read_of_driven hr
  cases hdry : setup.dryRun with
  | true => exact h.takesDesired hread (Or.inl hdry)
  | false => exact h.putOff hdry hread fun _ _ _ => Contest.denied_of_driven hmissing

/-! ### A release that has vanished -/

/-- What Helm says of a release that is not there. -/
def missingText : String := "Error: release: not found"

theorem misses_missingText (name ns : String) :
    (Client.usual none).Misses (broken missingText) name ns := by
  intro t what rest
  refine (failing_broken (by decide +kernel) (.usual none) t _).imp ?_
  rintro _ rfl
  decide +kernel

namespace Contest

/-- The module `web`, which was installed, and whose release has vanished since. -/
def vanishedWeb : Resource := Selections.settledModule "0.1.0"

/-- The finished entry of the module, which does not know the values applied. -/
def vanishedEntry : Entry := ⟨1, .finish, some .update, none, none⟩

/-- It is all that is remembered. -/
def vanishedMemory : Memory :=
  ⟨⟨[((ObjectId.ofResource vanishedWeb).key 1, vanishedEntry)]⟩, .empty⟩

theorem unmeasured_vanished :
    Unmeasured trialSetup vanishedMemory vanishedWeb vanishedEntry where
  className := rfl
  lives := rfl
  goesOn := rfl
  finalizer := by decide
  wish := rfl
  selects := by decide +kernel
  kept := by decide +kernel
  finished := rfl
  fresh := rfl

/-- A pass over the module, computed, while Helm says that there is no such release. -/
def vanishedPass : (Except PassError Outcome × Memory) × (Contest × Unit) :=
  ((ReleaseOperator.reconcile trialSetup .module "default" "web").run vanishedMemory).run
    (through .module (.usual none) (breaking missingText))
      (⟨trialStore vanishedWeb, []⟩, ())

theorem runs_vanishedPass :
    Runs (driven .module "default" "web" (.usual none) (broken missingText))
      ((ReleaseOperator.reconcile trialSetup .module "default" "web").run vanishedMemory)
      (⟨trialStore vanishedWeb, []⟩, ()) (vanishedPass.1.1, vanishedPass.1.2)
      vanishedPass.2 := by
  rw [Prod.eta]
  unfold vanishedPass
  exact runs_run (may_through .module "default" "web" (.usual none) missingText) _ _

end Contest

/-- The values of the missing release are told to be a failure of the command, and a pass over
the finished module is put off for it without a digest. -/
theorem values_of_missing_release_put_off :
    (Client.usual none).Misses (broken missingText) "web" "default" ∧
      Always (broken missingText) ((Client.usual none).values "web" "default").run () (fun a _ =>
        a = .error (.commandFailed "get-values" missingText)) ∧
      Unmeasured trialSetup Contest.vanishedMemory Contest.vanishedWeb Contest.vanishedEntry ∧
      Runs (Contest.driven .module "default" "web" (.usual none) (broken missingText))
        ((reconcile trialSetup .module "default" "web").run Contest.vanishedMemory)
        (⟨trialStore Contest.vanishedWeb, []⟩, ())
        (Contest.vanishedPass.1.1, Contest.vanishedPass.1.2) Contest.vanishedPass.2 ∧
      Contest.vanishedPass.1.1 = .ok (.failed (Duration.ofMillis 1000)
        (.helm (.commandFailed "get-values" missingText))) ∧
      Contest.vanishedPass.1.2 = Contest.vanishedMemory := by
  refine ⟨misses_missingText _ _, ?_, Contest.unmeasured_vanished, Contest.runs_vanishedPass,
    by decide +kernel, by decide +kernel⟩
  have hfails : (Client.usual none).FailsOn (broken missingText) ()
      (Arguments.getJson "values" "web" "default") (· = missingText) :=
    failing_broken (by decide +kernel) _ _ _
  refine Client.always_values_of_fails hfails ?_
  rintro _ _ rfl
  rw [show Text.trim missingText = missingText by decide +kernel]

/-- Every pass over the module is put off while Helm says so. -/
theorem values_of_missing_release_web :
    (Client.usual none).Misses (broken missingText) "web" "default" ∧
      Unmeasured trialSetup Contest.vanishedMemory Contest.vanishedWeb Contest.vanishedEntry ∧
      AlwaysFrom (Contest.driven .module "default" "web" (.usual none) (broken missingText))
        (reconcile trialSetup .module "default" "web") Contest.vanishedMemory
        (⟨trialStore Contest.vanishedWeb, []⟩, ()) (fun a m' _ =>
          PutOff Contest.vanishedWeb Contest.vanishedEntry
            (fun f => f.isUpstream = true ∨ f.DeniesValues) a m') := by
  obtain ⟨_, _, hpass⟩ := values_of_missing_release (.usual none) (broken missingText) "web"
    "default" (misses_missingText _ _)
  obtain ⟨hdriven, _⟩ := hpass trialSetup Contest.vanishedMemory Contest.vanishedWeb
    Contest.vanishedEntry Contest.unmeasured_vanished rfl rfl .module "default" "web"
  exact ⟨misses_missingText _ _, Contest.unmeasured_vanished, hdriven (_, ()) rfl⟩

end ReleaseOperator
