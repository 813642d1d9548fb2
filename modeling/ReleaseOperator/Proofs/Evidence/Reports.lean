import ReleaseOperator.Proofs.Evidence.Tending

/-!
# What the report of a ready release tells

A release is told to be ready when Helm and the cluster have said so, and the story has their
words: the workloads that were asked about are all those that have a name in the manifest of
the release.
-/

namespace ReleaseOperator

open InMemory Relation Program

namespace Manifest

variable {ε α β : Type} {items : List α} {results : List β} {f : α → Except ε β}

theorem ok_of_bind {x : Except ε α} {g : α → Except ε β} {b : β} (h : x >>= g = .ok b) :
    ∃ a, x = .ok a ∧ g a = .ok b := by
  cases x with
  | error e => cases h
  | ok a => exact ⟨a, rfl, h⟩

theorem exists_of_mapM (h : items.mapM f = .ok results) {item : α} (hmem : item ∈ items) :
    ∃ result ∈ results, f item = .ok result := by
  induction items generalizing results with
  | nil => exact absurd hmem List.not_mem_nil
  | cons head rest ih =>
      rw [List.mapM_cons] at h
      obtain ⟨first, hfirst, h⟩ := ok_of_bind h
      obtain ⟨others, hothers, h⟩ := ok_of_bind h
      obtain rfl : first :: others = results := Except.ok.inj h
      rcases List.mem_cons.1 hmem with rfl | hmem
      · exact ⟨first, List.mem_cons_self, hfirst⟩
      · obtain ⟨result, hin, heq⟩ := ih hothers hmem
        exact ⟨result, List.mem_cons_of_mem _ hin, heq⟩

/-- Every workload that a manifest speaks of is among those of the manifest. -/
theorem mem_workloads {manifest ns : String} {ws : List Workload}
    (h : workloads manifest ns = .ok ws) :
    ∃ documents, Yaml.readAll? manifest = .ok documents ∧ ∀ w, Names documents ns w → w ∈ ws := by
  obtain ⟨documents, hread, h⟩ := ok_of_bind h
  obtain ⟨headers, hheaders, h⟩ := ok_of_bind h
  obtain rfl := Except.ok.inj h
  refine ⟨documents, hread, ?_⟩
  rintro ⟨kind, wns, name⟩ ⟨document, hmem, header, hheader, hversion, hkind, rfl, hname, rfl⟩
  obtain ⟨result, hin, heq⟩ := exists_of_mapM hheaders hmem
  obtain rfl : some header = result := Except.ok.inj (hheader.symm.trans heq)
  refine List.mem_filterMap.2 ⟨header, List.mem_filterMap.2 ⟨some header, hin, rfl⟩, ?_⟩
  have happs : header.apiVersion = WorkloadKind.apiVersion := hversion
  have hfound : WorkloadKind.ofObject? header.apiVersion header.kind = some kind := by
    rw [WorkloadKind.ofObject?, if_pos happs, hkind]
    exact WorkloadKind.ofName?_name kind
  have hempty : header.name.isEmpty = false := by
    rw [← Bool.not_eq_true, String.isEmpty_iff]
    exact hname
  rw [Header.workload?, hempty, hfound]
  rfl

end Manifest

namespace Contest

variable {kind : Kind} {s t u : Contest} {c : Call} {a : c.Answer} {aim : Aim}
  {release : Release} {ws : List Workload}

/-- What has come to the story between two states keeps all work where it was. -/
def Tells (s t : Contest) (news : Story) : Prop :=
  t.story = news ++ s.story ∧ ∀ x ∈ news, ∀ aim, Event.Keeps aim x

theorem Tells.refl (s : Contest) : Tells s s [] :=
  ⟨rfl, fun _ hx => absurd hx List.not_mem_nil⟩

theorem tells_of_may (hmay : (uninterrupted kind).may s c a t) (hcalm : Calm c) :
    Tells s t [.asked c a] := by
  obtain ⟨store, _, rfl⟩ := hmay
  refine ⟨rfl, ?_⟩
  intro x hx
  obtain rfl := List.mem_singleton.1 hx
  exact fun aim => hcalm.2 aim a

theorem Tells.trans {news news' : Story} (h : Tells s t news) (h' : Tells t u news') :
    Tells s u (news' ++ news) := by
  refine ⟨by rw [h'.1, h.1, List.append_assoc], ?_⟩
  intro x hx
  rcases List.mem_append.1 hx with hx | hx
  · exact h'.2 x hx
  · exact h.2 x hx

/-- Where the answer is yes, the story has the grounds for it. -/
def Grounds (s : Contest) (grounds : Story → Prop) (r : Bool × Outcome) (t : Contest) : Prop :=
  r.1 = true → ∃ news, Tells s t news ∧ grounds news

theorem grounds_of_no {grounds : Story → Prop} {r : Bool × Outcome} (hno : r.1 = false) :
    Grounds s grounds r t :=
  fun hyes => absurd (hno.symm.trans hyes) Bool.false_ne_true

/-- A question that could not be asked is not answered with yes. -/
theorem always_unanswered (f : Failure) :
    Always (uninterrupted kind) (Pass.unanswered f) t fun r _ => r.1 = false := by
  rw [Pass.unanswered, always_bind]
  exact Pass.always_shortDelayWith fun _ _ _ => rfl

/-- What was told before counts as well. -/
theorem Grounds.after {grounds grounds' : Story → Prop} {news : Story} {r : Bool × Outcome}
    (h : Grounds t grounds r u) (htells : Tells s t news)
    (himp : ∀ more, grounds more → grounds' (more ++ news)) : Grounds s grounds' r u := by
  intro hr
  obtain ⟨more, hmore, hgrounds⟩ := h hr
  exact ⟨more ++ news, htells.trans hmore, himp more hgrounds⟩

/-! ### Readiness -/

theorem calm_manifestReady (release : Release) : Asks Calm (Pass.manifestReady release) :=
  Pass.asks_manifestReady (fun _ => calm_of_isAside) ⟨rfl, fun _ _ => trivial⟩

theorem calm_releaseReady (release : Release) (desired : String) :
    Asks Calm (Pass.releaseReady release desired) := by
  refine (calm_ask (.helm (.releaseInfo _ _)) ⟨rfl, fun _ _ => trivial⟩).bind ?_
  rintro (e | _ | info)
  · exact calm_unanswered (.helm e)
  · exact trivial
  · dsimp only
    split
    · exact calm_manifestReady release
    · exact trivial

theorem always_workloadsReady (s : Contest) (ws : List Workload) :
    Always (uninterrupted kind) (Pass.workloadsReady ws) s (Grounds s fun news =>
      ∀ w ∈ ws, .asked (.cluster (.workloadReady w)) (.ok true) ∈ news) := by
  induction ws generalizing s with
  | nil => exact fun _ => ⟨[], Tells.refl s, fun _ hw => absurd hw List.not_mem_nil⟩
  | cons w rest ih =>
      rw [Pass.workloadsReady, always_bind, Pass.always_cluster]
      rintro (e | _ | _) t hmay
      · exact (always_unanswered _).mono fun _ _ => grounds_of_no
      · exact grounds_of_no rfl
      · refine (ih t).mono ?_
        intro r u hr
        refine hr.after (tells_of_may hmay ⟨rfl, fun _ _ => trivial⟩) ?_
        intro more hmore w' hw'
        rcases List.mem_cons.1 hw' with rfl | hw'
        · exact List.mem_append_right _ List.mem_cons_self
        · exact List.mem_append_left _ (hmore w' hw')

theorem always_manifestReady (release : Release) :
    Always (uninterrupted kind) (Pass.manifestReady release) s
      (Grounds s (WorkloadsReported release.place)) := by
  rw [Pass.manifestReady, always_bind, Pass.always_helm]
  rintro (e | manifest) t hmay
  · exact (always_unanswered _).mono fun _ _ => grounds_of_no
  · dsimp only
    split
    · exact (always_unanswered _).mono fun _ _ => grounds_of_no
    · rename_i ws hws
      obtain ⟨documents, hread, hall⟩ := Manifest.mem_workloads hws
      refine (always_workloadsReady t ws).mono ?_
      intro r u hr
      refine hr.after (tells_of_may hmay ⟨rfl, fun _ _ => trivial⟩) ?_
      intro more hmore
      exact ⟨manifest, documents, List.mem_append_right _ List.mem_cons_self, hread,
        fun w hw => List.mem_append_left _ (hmore w (hall w hw))⟩

/-- A release that is told to be ready was reported so. -/
theorem always_releaseReady (hplace : release.place = aim.place) :
    Always (uninterrupted kind) (Pass.releaseReady release aim.version) s
      (Grounds s (ReportedReady aim)) := by
  rw [Pass.releaseReady, always_bind, Pass.always_helm]
  rintro (e | _ | info) t hmay
  · exact (always_unanswered _).mono fun _ _ => grounds_of_no
  · exact grounds_of_no rfl
  · dsimp only
    split
    · rename_i hdeployed
      rw [Pass.isDeployedAt, Bool.and_eq_true, decide_eq_true_eq, Bool.or_eq_true,
        String.isEmpty_iff, decide_eq_true_eq] at hdeployed
      refine (always_manifestReady release).mono ?_
      intro r u hr
      refine hr.after (tells_of_may hmay ⟨rfl, fun _ _ => trivial⟩) ?_
      intro more hmore
      rw [hplace] at hmore
      refine ⟨⟨info, ?_, hdeployed.1, fun hne => hdeployed.2.resolve_left hne⟩,
        hmore.mono (List.subset_append_left _ _)⟩
      rw [← hplace]
      exact List.mem_append_right _ List.mem_cons_self
    · exact grounds_of_no rfl

end Contest

end ReleaseOperator
