import ReleaseOperator.Proofs.Edits.Script
import ReleaseOperator.Proofs.Executions.Passage
import ReleaseOperator.Proofs.Readiness.Manifests

/-!
# The verdict on a release

Whether a release is ready is asked in an order: what Helm reports of it, what its manifest is, and
of each workload in the manifest whether it is ready. Here every call has one answer. The release
is confirmed when all of them speak for it; otherwise the first that does not decides, and it is
either a failure, by which the question is put off, or a plain no.
-/

namespace ReleaseOperator

/-- A release is deployed, and at the version that is desired, if there is one. -/
def ReleaseInfo.IsAt (info : ReleaseInfo) (desired : String) : Prop :=
  info.status = .deployed ∧ (desired = "" ∨ Text.trim info.chartVersion = desired)

theorem ReleaseInfo.isAt_iff {info : ReleaseInfo} {desired : String} :
    Pass.isDeployedAt desired info = true ↔ info.IsAt desired := by
  rw [Pass.isDeployedAt, Bool.and_eq_true, Bool.or_eq_true, decide_eq_true_eq, decide_eq_true_eq,
    String.isEmpty_iff, IsAt]

/-! ### Passes whose calls have one answer each -/

namespace Pass

variable {α β ε : Type} (answer : (c : Call) → c.Answer)

/-- What a pass comes to when each call has one answer. -/
def resultWith (p : Pass α) : α :=
  Id.run (p.run fun c => pure (answer c))

/-- The calls of a pass when each call has one answer, in their order. -/
def callsWith : Pass α → List Call
  | Program.done _ => []
  | Program.ask c next => c :: callsWith (next (answer c))

theorem resultWith_bind (p : Pass α) (f : α → Pass β) :
    resultWith answer (p >>= f) = resultWith answer (f (resultWith answer p)) := by
  rw [resultWith, Program.bind_eq, Program.run_bind]
  rfl

theorem callsWith_bind (p : Pass α) (f : α → Pass β) :
    callsWith answer (p >>= f) =
      callsWith answer p ++ callsWith answer (f (resultWith answer p)) := by
  rw [Program.bind_eq]
  induction p with
  | done a => rfl
  | ask c next ih => exact congrArg (c :: ·) (ih (answer c))

theorem resultWith_run_bind (x : ExceptT ε Pass α) (f : α → ExceptT ε Pass β) :
    resultWith answer (x >>= f).run =
      (resultWith answer x.run >>= fun a => resultWith answer (f a).run) := by
  rw [ExceptT.run_bind, resultWith_bind]
  cases resultWith answer x.run <;> rfl

/-- Where a step fails there are no more calls. -/
theorem callsWith_run_bind (x : ExceptT ε Pass α) (f : α → ExceptT ε Pass β) :
    callsWith answer (x >>= f).run = callsWith answer x.run ++
      match resultWith answer x.run with
      | .ok a => callsWith answer (f a).run
      | .error _ => [] := by
  rw [ExceptT.run_bind, callsWith_bind]
  cases resultWith answer x.run <;> rfl

end Pass

/-! ### What the answers say -/

namespace Release

variable (release : Release) (desired : String) (answer : (c : Call) → c.Answer)

/-- Helm reports the release as deployed at the desired version. -/
def Deployed : Prop :=
  ∃ info : ReleaseInfo,
    answer (.helm (.releaseInfo release.name release.namespaceName)) = .ok (some info) ∧
      info.IsAt desired

/-- The release is deployed at the desired version, and its manifest is read, and every workload
that the manifest speaks of is ready. -/
structure Confirmed : Prop where
  deployed : release.Deployed desired answer
  workloads : ∃ text documents,
    answer (.helm (.manifest release.name release.namespaceName)) = .ok text ∧
      Manifest.Reads text documents ∧
      ∀ w, Manifest.Speaks documents release.namespaceName w →
        answer (.cluster (.workloadReady w)) = .ok true

/-- The first answer that does not speak for the release is a failure: Helm does not report it, its
manifest is not told or cannot be read, or one of its workloads cannot be asked about while all
those before it are ready. -/
inductive Faults : Failure → Prop
  | unreported {e : HelmError}
      (fault : answer (.helm (.releaseInfo release.name release.namespaceName)) = .error e) :
      Faults (.helm e)
  | untold {e : HelmError} (deployed : release.Deployed desired answer)
      (fault : answer (.helm (.manifest release.name release.namespaceName)) = .error e) :
      Faults (.helm e)
  | malformed {text : String} {p : Yaml.Problem} (deployed : release.Deployed desired answer)
      (told : answer (.helm (.manifest release.name release.namespaceName)) = .ok text)
      (malformed : Manifest.Malformed text)
      (fault : Manifest.workloads text release.namespaceName = .error p) :
      Faults (.helm (.parse p.message))
  | unasked {text : String} {documents : List Yaml.Value} {before after : List Workload}
      {w : Workload} {e : ClusterError} (deployed : release.Deployed desired answer)
      (told : answer (.helm (.manifest release.name release.namespaceName)) = .ok text)
      (reads : Manifest.Reads text documents)
      (lists : Manifest.Lists release.namespaceName documents (before ++ w :: after))
      (ready : ∀ v ∈ before, answer (.cluster (.workloadReady v)) = .ok true)
      (fault : answer (.cluster (.workloadReady w)) = .error e) :
      Faults (.cluster e)

end Release

/-! ### What they come to -/

section Verdicts

variable {release : Release} {desired text : String} {answer : (c : Call) → c.Answer}
  {ws rest : List Workload} {w : Workload} {f : Failure}

open Pass

/-- A question that could not be asked is put off. -/
theorem resultWith_unanswered (answer : (c : Call) → c.Answer) (f : Failure) :
    ∃ d, d.IsShort ∧ resultWith answer (unanswered f) = (false, .failed d f) :=
  ⟨_, Duration.isShort_drawn _, rfl⟩

theorem resultWith_workloadsReady (h : ∀ w ∈ ws, answer (.cluster (.workloadReady w)) = .ok true) :
    resultWith answer (workloadsReady (ws ++ rest)) = resultWith answer (workloadsReady rest) := by
  induction ws with
  | nil => rfl
  | cons w ws ih =>
      rw [List.forall_mem_cons] at h
      have hfirst : resultWith answer (cluster (.workloadReady w)) = .ok true := h.1
      rw [List.cons_append, workloadsReady, resultWith_bind, hfirst]
      exact ih h.2

/-- Either all workloads are ready, or the first that is not decides. -/
theorem ready_or_decided (answer : (c : Call) → c.Answer) (ws : List Workload) :
    (∀ w ∈ ws, answer (.cluster (.workloadReady w)) = .ok true) ∨
      resultWith answer (workloadsReady ws) = (false, .done) ∨
      ∃ before w after e, ws = before ++ w :: after ∧
        (∀ v ∈ before, answer (.cluster (.workloadReady v)) = .ok true) ∧
        answer (.cluster (.workloadReady w)) = .error e := by
  induction ws with
  | nil => exact .inl (List.forall_mem_nil _)
  | cons w ws ih =>
      rcases hfirst : answer (.cluster (.workloadReady w)) with e | _ | _
      · exact .inr (.inr ⟨[], w, ws, e, rfl, List.forall_mem_nil _, hfirst⟩)
      · refine .inr (.inl ?_)
        have hasked : resultWith answer (cluster (.workloadReady w)) = .ok false := hfirst
        rw [workloadsReady, resultWith_bind, hasked]
        rfl
      · have hready : ∀ v ∈ [w], answer (.cluster (.workloadReady v)) = .ok true := by
          simpa using hfirst
        rcases ih with hall | hno | ⟨before, v, after, e, rfl, hbefore, hfault⟩
        · exact .inl (List.forall_mem_cons.2 ⟨hfirst, hall⟩)
        · exact .inr (.inl ((resultWith_workloadsReady hready).trans hno))
        · exact .inr (.inr ⟨w :: before, v, after, e, rfl,
            List.forall_mem_cons.2 ⟨hfirst, hbefore⟩, hfault⟩)

/-- A release that is deployed is asked for its manifest. -/
theorem resultWith_releaseReady_of_deployed (h : release.Deployed desired answer) :
    resultWith answer (releaseReady release desired) =
      resultWith answer (manifestReady release) := by
  obtain ⟨info, hinfo, hat⟩ := h
  have hasked : resultWith answer (helm (.releaseInfo release.name release.namespaceName)) =
      .ok (some info) := hinfo
  rw [releaseReady, resultWith_bind, hasked]
  dsimp only
  rw [if_pos (ReleaseInfo.isAt_iff.2 hat)]

/-- A release that is reported, but not as deployed at the desired version, is not ready. -/
theorem resultWith_releaseReady_of_reported {info : ReleaseInfo}
    (h : answer (.helm (.releaseInfo release.name release.namespaceName)) = .ok (some info))
    (hnot : ¬ info.IsAt desired) :
    resultWith answer (releaseReady release desired) = (false, .done) := by
  have hasked : resultWith answer (helm (.releaseInfo release.name release.namespaceName)) =
      .ok (some info) := h
  rw [releaseReady, resultWith_bind, hasked]
  exact congrArg (resultWith answer) (if_neg fun hat => hnot (ReleaseInfo.isAt_iff.1 hat))

theorem resultWith_manifestReady_of_read
    (h : answer (.helm (.manifest release.name release.namespaceName)) = .ok text)
    (hws : Manifest.workloads text release.namespaceName = .ok ws) :
    resultWith answer (manifestReady release) = resultWith answer (workloadsReady ws) := by
  have hasked : resultWith answer (helm (.manifest release.name release.namespaceName)) =
      .ok text := h
  rw [manifestReady, resultWith_bind, hasked]
  dsimp only
  rw [hws]

theorem resultWith_manifestReady_of_fault {p : Yaml.Problem}
    (h : answer (.helm (.manifest release.name release.namespaceName)) = .ok text)
    (hp : Manifest.workloads text release.namespaceName = .error p) :
    resultWith answer (manifestReady release) =
      resultWith answer (unanswered (.helm (.parse p.message))) := by
  have hasked : resultWith answer (helm (.manifest release.name release.namespaceName)) =
      .ok text := h
  rw [manifestReady, resultWith_bind, hasked]
  dsimp only
  rw [hp]

theorem Release.Confirmed.ready (h : release.Confirmed desired answer) :
    resultWith answer (releaseReady release desired) = (true, .done) := by
  obtain ⟨text, documents, htext, hreads, hready⟩ := h.workloads
  obtain ⟨ws, hws⟩ := Manifest.exists_workloads_iff.2 ⟨documents, hreads⟩
  have hall : ∀ w ∈ ws, answer (.cluster (.workloadReady w)) = .ok true := fun w hw =>
    hready w ((Manifest.mem_workloads_iff hws hreads.1 w).1 hw)
  rw [resultWith_releaseReady_of_deployed h.deployed, resultWith_manifestReady_of_read htext hws,
    ← List.append_nil ws]
  exact resultWith_workloadsReady hall

theorem Release.Faults.failed (h : release.Faults desired answer f) :
    ∃ d, d.IsShort ∧ resultWith answer (releaseReady release desired) = (false, .failed d f) := by
  cases h with
  | @unreported e fault =>
      have hasked : resultWith answer (helm (.releaseInfo release.name release.namespaceName)) =
          .error e := fault
      rw [releaseReady, resultWith_bind, hasked]
      exact resultWith_unanswered answer _
  | @untold e deployed fault =>
      have hasked : resultWith answer (helm (.manifest release.name release.namespaceName)) =
          .error e := fault
      rw [resultWith_releaseReady_of_deployed deployed, manifestReady, resultWith_bind, hasked]
      exact resultWith_unanswered answer _
  | malformed deployed told _ fault =>
      rw [resultWith_releaseReady_of_deployed deployed,
        resultWith_manifestReady_of_fault told fault]
      exact resultWith_unanswered answer _
  | @unasked _ _ _ _ w e deployed told reads lists ready fault =>
      have hws := Manifest.workloads_eq_ok_iff.2 ⟨_, reads, lists⟩
      have hasked : resultWith answer (cluster (.workloadReady w)) = .error e := fault
      rw [resultWith_releaseReady_of_deployed deployed,
        resultWith_manifestReady_of_read told hws, resultWith_workloadsReady ready,
        workloadsReady, resultWith_bind, hasked]
      exact resultWith_unanswered answer _

/-- A release that is neither confirmed nor at fault is not ready yet. -/
theorem confirmed_or_not_ready_or_faults (release : Release) (desired : String)
    (answer : (c : Call) → c.Answer) :
    release.Confirmed desired answer ∨
      resultWith answer (releaseReady release desired) = (false, .done) ∨
      ∃ f, release.Faults desired answer f := by
  rcases hinfo : answer (.helm (.releaseInfo release.name release.namespaceName)) with e | _ | info
  · exact .inr (.inr ⟨_, .unreported hinfo⟩)
  · have hasked : resultWith answer (helm (.releaseInfo release.name release.namespaceName)) =
        .ok none := hinfo
    rw [releaseReady, resultWith_bind, hasked]
    exact .inr (.inl rfl)
  · by_cases hat : info.IsAt desired
    · have hdeployed : release.Deployed desired answer := ⟨info, hinfo, hat⟩
      rcases htext : answer (.helm (.manifest release.name release.namespaceName)) with e | text
      · exact .inr (.inr ⟨_, .untold hdeployed htext⟩)
      · cases hws : Manifest.workloads text release.namespaceName with
        | error p =>
            have hmalformed : Manifest.Malformed text := by
              rw [Manifest.malformed_iff, ← Manifest.exists_workloads_iff, hws]
              rintro ⟨ws, ⟨⟩⟩
            exact .inr (.inr ⟨_, .malformed hdeployed htext hmalformed hws⟩)
        | ok ws =>
            obtain ⟨documents, hreads, hlists⟩ := Manifest.workloads_eq_ok_iff.1 hws
            rcases ready_or_decided answer ws with
              hall | hno | ⟨before, w, after, e, rfl, hbefore, hfault⟩
            · refine .inl ⟨hdeployed, text, documents, htext, hreads, fun w hw => hall w ?_⟩
              exact (Manifest.mem_workloads_iff hws hreads.1 w).2 hw
            · rw [resultWith_releaseReady_of_deployed hdeployed,
                resultWith_manifestReady_of_read htext hws]
              exact .inr (.inl hno)
            · exact .inr (.inr ⟨_, .unasked hdeployed htext hreads hlists hbefore hfault⟩)
    · exact .inr (.inl (resultWith_releaseReady_of_reported hinfo hat))

theorem releaseReady_eq_ready_iff :
    resultWith answer (releaseReady release desired) = (true, .done) ↔
      release.Confirmed desired answer := by
  refine ⟨fun hready => ?_, Release.Confirmed.ready⟩
  rcases confirmed_or_not_ready_or_faults release desired answer with h | h | ⟨f, h⟩
  · exact h
  · rw [h] at hready
    cases hready
  · obtain ⟨d, -, h⟩ := h.failed
    rw [h] at hready
    cases hready

theorem releaseReady_eq_failed_iff :
    (∃ d, d.IsShort ∧ resultWith answer (releaseReady release desired) = (false, .failed d f)) ↔
      release.Faults desired answer f := by
  refine ⟨?_, Release.Faults.failed⟩
  rintro ⟨d, -, hfailed⟩
  rcases confirmed_or_not_ready_or_faults release desired answer with h | h | ⟨f', h⟩
  · rw [h.ready] at hfailed
    cases hfailed
  · rw [h] at hfailed
    cases hfailed
  · obtain ⟨d', -, h'⟩ := h.failed
    rw [hfailed] at h'
    cases h'
    exact h

theorem releaseReady_eq_not_ready_iff :
    resultWith answer (releaseReady release desired) = (false, .done) ↔
      ¬ release.Confirmed desired answer ∧ ∀ f, ¬ release.Faults desired answer f := by
  constructor
  · refine fun hno => ⟨fun h => ?_, fun f h => ?_⟩
    · rw [h.ready] at hno
      cases hno
    · obtain ⟨d, -, h⟩ := h.failed
      rw [h] at hno
      cases hno
  · rintro ⟨hnot, hnone⟩
    rcases confirmed_or_not_ready_or_faults release desired answer with h | h | ⟨f, h⟩
    · exact absurd h hnot
    · exact h
    · exact absurd h (hnone f)

/-- A release whose manifest cannot be read is at fault, and no workload is asked about. -/
theorem releaseReady_of_malformed (hdeployed : release.Deployed desired answer)
    (htext : answer (.helm (.manifest release.name release.namespaceName)) = .ok text)
    (hmalformed : Manifest.Malformed text) :
    (∃ p, release.Faults desired answer (.helm (.parse p))) ∧
      ∀ w, .cluster (.workloadReady w) ∉ callsWith answer (releaseReady release desired) := by
  obtain ⟨p, hp⟩ : ∃ p, Manifest.workloads text release.namespaceName = .error p := by
    cases hws : Manifest.workloads text release.namespaceName with
    | error p => exact ⟨p, rfl⟩
    | ok ws =>
        have hreads := Manifest.exists_workloads_iff.1 ⟨ws, hws⟩
        exact absurd hreads (Manifest.malformed_iff.1 hmalformed)
  refine ⟨⟨_, .malformed hdeployed htext hmalformed hp⟩, fun w => ?_⟩
  obtain ⟨info, hinfo, hat⟩ := hdeployed
  have hreported : resultWith answer (helm (.releaseInfo release.name release.namespaceName)) =
      .ok (some info) := hinfo
  have htold : resultWith answer (helm (.manifest release.name release.namespaceName)) =
      .ok text := htext
  have hasked (c : HelmCall) : callsWith answer (helm c) = [.helm c] := rfl
  have hdrawn : callsWith answer (unanswered (.helm (.parse p.message))) =
      [.draw _ _ (Outcome.window_le 1 2 (Duration.ofSecs 1))] := rfl
  rw [releaseReady, callsWith_bind, hreported, hasked]
  dsimp only
  rw [if_pos (ReleaseInfo.isAt_iff.2 hat), manifestReady, callsWith_bind, htold, hasked]
  dsimp only
  rw [hp]
  dsimp only
  rw [hdrawn]
  simp

end Verdicts

/-- A job that is not rehearsed finds its release ready exactly when Helm reports it as deployed at
the desired version, its manifest is read and every workload that the manifest speaks of is ready.
It puts the question off because of a failure exactly when the first answer that does not speak for
that is this failure; a manifest with one malformed document is such an answer, whatever workloads
it speaks of, and none of them is asked about. In all other cases the release is not ready yet. -/
theorem Job.readiness_is_exact {setup : Setup} (hwet : setup.dryRun = false) (j : Job)
    (answer : (c : Call) → c.Answer) :
    (Pass.resultWith answer (j.isReady setup) = (true, .done) ↔
      j.release.Confirmed j.resource.desiredVersion answer) ∧
    (∀ f, (∃ d, d.IsShort ∧ Pass.resultWith answer (j.isReady setup) = (false, .failed d f)) ↔
      j.release.Faults j.resource.desiredVersion answer f) ∧
    (Pass.resultWith answer (j.isReady setup) = (false, .done) ↔
      ¬ j.release.Confirmed j.resource.desiredVersion answer ∧
        ∀ f, ¬ j.release.Faults j.resource.desiredVersion answer f) ∧
    ∀ text, j.release.Deployed j.resource.desiredVersion answer →
      answer (.helm (.manifest j.release.name j.release.namespaceName)) = .ok text →
      Manifest.Malformed text →
        (∃ d p, d.IsShort ∧
          Pass.resultWith answer (j.isReady setup) = (false, .failed d (.helm (.parse p)))) ∧
          ∀ w, .cluster (.workloadReady w) ∉ Pass.callsWith answer (j.isReady setup) := by
  rw [isReady, hwet, if_neg Bool.false_ne_true]
  refine ⟨releaseReady_eq_ready_iff, fun f => releaseReady_eq_failed_iff,
    releaseReady_eq_not_ready_iff, fun text hdeployed htext hmalformed => ?_⟩
  obtain ⟨⟨p, hfaults⟩, hnone⟩ := releaseReady_of_malformed hdeployed htext hmalformed
  obtain ⟨d, hshort, hfailed⟩ := hfaults.failed
  exact ⟨⟨d, p, hshort, hfailed⟩, hnone⟩

/-- The work on the module `web` from its start. -/
def webJob : Job := .start trialSetup trialModule (.fresh 1 .start)

/-- Helm reports the release `web` as deployed, with blanks around the version, and its manifest is
told or not. -/
def webTold (manifest : Except HelmError String) : (c : Call) → c.Answer
  | .helm (.releaseInfo _ _) => .ok (some ⟨"web", "default", .deployed, " 0.1.0 "⟩)
  | .helm (.manifest _ _) => manifest
  | c => (Contest.wellAnswered .module none (trialStore trialModule) c).1

/-- The release `web` is ready when its manifest has no objects. The question is put off when Helm
does not tell the manifest in time, and when what it tells is no Yaml. -/
theorem readiness_is_exact_web :
    trialSetup.dryRun = false ∧
      Pass.resultWith (webTold (.ok "")) (webJob.isReady trialSetup) = (true, .done) ∧
      (∃ d, d.IsShort ∧ Pass.resultWith (webTold (.error (.timedOut "get" 5)))
        (webJob.isReady trialSetup) = (false, .failed d (.helm (.timedOut "get" 5)))) ∧
      ∃ d p, d.IsShort ∧ Pass.resultWith (webTold (.ok "[")) (webJob.isReady trialSetup) =
        (false, .failed d (.helm (.parse p))) := by
  have hwet : trialSetup.dryRun = false := rfl
  have hdeployed (manifest : Except HelmError String) :
      webJob.release.Deployed webJob.resource.desiredVersion (webTold manifest) :=
    ⟨_, rfl, rfl, .inr (by decide)⟩
  have hread : Manifest.workloads "" webJob.release.namespaceName = .ok [] := rfl
  have hconfirmed : webJob.release.Confirmed webJob.resource.desiredVersion (webTold (.ok "")) := by
    obtain ⟨documents, hreads⟩ := Manifest.exists_workloads_iff.1 ⟨_, hread⟩
    refine ⟨hdeployed _, "", documents, rfl, hreads, fun w hw => ?_⟩
    exact absurd ((Manifest.mem_workloads_iff hread hreads.1 w).2 hw) List.not_mem_nil
  have hmalformed : Manifest.Malformed "[" := by
    refine Manifest.malformed_iff.2 fun hreads => ?_
    have hsome : ∃ ws, Manifest.workloads "[" "default" = .ok ws :=
      Manifest.exists_workloads_iff.2 hreads
    obtain ⟨ws, hws⟩ := hsome
    have hnone : (Manifest.workloads "[" "default").toOption = none := by decide +kernel
    rw [hws] at hnone
    cases hnone
  refine ⟨hwet, (Job.readiness_is_exact hwet webJob _).1.2 hconfirmed, ?_, ?_⟩
  · exact ((Job.readiness_is_exact hwet webJob _).2.1 _).2 (.untold (hdeployed _) rfl)
  · exact ((Job.readiness_is_exact hwet webJob _).2.2.2 "[" (hdeployed _) rfl hmalformed).1

end ReleaseOperator
