import ReleaseOperator.Proofs.Evidence.Tending
import ReleaseOperator.Proofs.Renewal.Contents

/-!
# A job that keeps to its resource

Nobody interferes with a pass here. So in the middle of it the stored resource and the copy in
hand are the resource as it was found, but for the status, and what the job asks for comes to
the merge of that resource. What is known of the entry beyond that is carried along as a
condition on the entry and the story (`Carried`), which only the applying of a release has to
establish anew.
-/

namespace ReleaseOperator

open InMemory Program Work

namespace Event

/-- A release was installed or upgraded. -/
def applies : Event → Bool
  | .asked (.helm (.upgradeOrInstall _)) (.ok _) => true
  | _ => false

theorem applies_of_isQuiet {c : Call} (h : c.isQuiet = true) (a : c.Answer) :
    (asked c a).applies = false := by
  rcases c with _ | _ | (_ | _ | _ | _ | _ | _) | _ | _ | _ | _ <;>
    first | rfl | exact absurd h Bool.false_ne_true

end Event

namespace Renewal

variable {α : Type} {v : Contents} {trouble : Prop} {setup : Setup} {r w : Resource} {j : Job}
  {s t : Contest} {merge : Option Json} {holds : Entry → Story → Prop} {reason : Reason}

/-- The stored resource and the copy in hand are the resource as it was found, but for the
status. -/
structure Attuned (setup : Setup) (r : Resource) (j : Job) (s : Contest) : Prop where
  keyed : s.store.Keyed .module
  stored : ∃ o, s.store.get? r.namespaceName r.name = some o ∧ r.Matches o
  copy : r.Matches j.resource
  release : j.release = r.release setup.defaults

namespace Attuned

theorem kind (h : Attuned setup r j s) : r.kind = .module := by
  obtain ⟨o, ho, hmatch⟩ := h.stored
  exact hmatch.kind.symm.trans (h.keyed _ _ _ ho).1

theorem withEntry (h : Attuned setup r j s) (e : Entry) :
    Attuned setup r { j with entry := e } s :=
  ⟨h.keyed, h.stored, h.copy, h.release⟩

theorem withResource (h : Attuned setup r j s) (hw : r.Matches w) :
    Attuned setup r { j with resource := w } s :=
  ⟨h.keyed, h.stored, hw, h.release⟩

theorem same (h : Attuned setup r j s) (hstore : t.store = s.store) : Attuned setup r j t :=
  ⟨hstore ▸ h.keyed, hstore ▸ h.stored, h.copy, h.release⟩

theorem quiet (h : Attuned setup r j s) {c : Call} {a : c.Answer} (hq : c.isQuiet = true)
    (hmay : (conduct v trouble).may s c a t) : Attuned setup r j t :=
  h.same (store_of_isQuiet hq hmay)

/-! ### Values and credentials -/

/-- The values of the job come to the merge of the resource, whenever they are looked up. -/
theorem values (h : Attuned setup r j s) :
    Always (conduct v trouble) (j.values setup).run t fun d _ =>
      (∀ documents, d = .ok documents → v.merge? setup r = some (Values.mergeAll documents)) ∧
      (¬ trouble → ∀ now, v.merge? setup r = some now → ∃ documents, d = .ok documents) := by
  have hns : j.resource.namespaceName = r.namespaceName := congrArg Prod.fst h.copy.key
  have hoverrides : j.resource.overrides = r.overrides := by
    rw [Resource.overrides, h.copy.spec]
    rfl
  rw [Job.values_run, always_map, hns, hoverrides, h.release]
  refine (reads_resolve r.namespaceName r.overrides).mono ?_
  rintro (e | documents) _ ⟨hok, hread⟩
  · refine ⟨fun _ he => absurd he (by simp [Except.map]), fun htrouble now hnow => ?_⟩
    rw [Contents.merge?, hread htrouble] at hnow
    exact absurd hnow (by simp)
  · refine ⟨?_, fun _ _ _ => ⟨_, rfl⟩⟩
    rintro merged heq
    obtain rfl := Except.ok.inj heq
    rw [Contents.merge?, hok documents rfl]

theorem valuesDigest (h : Attuned setup r j s) :
    Always (conduct v trouble) (j.valuesDigest setup).run t fun d _ =>
      (∀ digest, d = .ok digest → ∃ now, v.merge? setup r = some now ∧
        digest = Values.digest now) ∧
      (¬ trouble → ∀ now, v.merge? setup r = some now → d = .ok (Values.digest now)) := by
  rw [Job.valuesDigest_run, always_map]
  refine h.values.mono ?_
  rintro (e | documents) _ ⟨hok, hresolves⟩
  · refine ⟨fun _ he => absurd he (by simp [Except.map]), fun htrouble now hnow => ?_⟩
    obtain ⟨_, he⟩ := hresolves htrouble now hnow
    exact absurd he (by simp)
  · have hmerge := hok documents rfl
    refine ⟨?_, fun _ now hnow => ?_⟩
    · rintro digest heq
      obtain rfl := Except.ok.inj heq
      exact ⟨_, hmerge, rfl⟩
    · obtain rfl := Option.some.inj (hmerge.symm.trans hnow)
      rfl

/-- The credentials resolve where the contents grant them. -/
theorem credentials (h : Attuned setup r j s) (hgrants : v.Grants setup r) :
    Always (conduct v False) j.credentials.run t fun c _ => ∃ credentials, c = .ok credentials := by
  have hns : j.resource.namespaceName = r.namespaceName := congrArg Prod.fst h.copy.key
  obtain ⟨credentials, hread⟩ := hgrants
  rw [Job.credentials, hns, h.release]
  refine (reads_credentials _ _).mono ?_
  rintro c _ ⟨_, hc⟩
  exact ⟨credentials, Option.some.inj ((hc id).symm.trans hread)⟩

/-! ### Writing the status -/

/-- Whatever is read is the resource as it was found. -/
theorem get (h : Attuned setup r j s) {a : Except ClusterError (Option Resource)}
    (hmay : (conduct v trouble).may s (.store (.get .module r.namespaceName r.name)) a t) :
    t.store = s.store ∧ a ≠ .ok none ∧ (∀ e, a = .error e → trouble) ∧
      ∀ o, a = .ok (some o) → s.store.get? r.namespaceName r.name = some o ∧ r.Matches o := by
  obtain ⟨o, ho, hmatch⟩ := h.stored
  obtain ⟨hstore, hok | ⟨htrouble, e, he⟩⟩ := kept_of_may hmay
  · subst hok
    rw [ho]
    refine ⟨hstore, by simp, fun e he => absurd he (by simp), ?_⟩
    rintro o' ho'
    obtain rfl := Option.some.inj (Except.ok.inj ho')
    exact ⟨rfl, hmatch⟩
  · subst he
    exact ⟨hstore, by simp, fun _ _ => htrouble, fun _ ho' => absurd ho' (by simp)⟩

/-- A status that is put onto the stored copy is taken, unless the call fails. -/
theorem updateStatus (h : Attuned setup r j s) {latest : Resource}
    (hlatest : s.store.get? r.namespaceName r.name = some latest)
    {a : Except ClusterError Resource}
    (hmay : (conduct v trouble).may s (.store (.updateStatus (latest.copyStatus w))) a t) :
    (∀ new, a = .ok new → Attuned setup r { j with resource := new } t) ∧
      ∀ e, a = .error e → trouble ∧ t.store = s.store := by
  obtain ⟨o, ho, hmatch⟩ := h.stored
  obtain rfl : latest = o := Option.some.inj (hlatest.symm.trans ho)
  have hkey : Store.keyOf (latest.copyStatus w) = (r.namespaceName, r.name) := hmatch.key
  have hget : s.store.get? (latest.copyStatus w).namespaceName (latest.copyStatus w).name =
      some latest := by
    injection hkey with hns hname
    rw [hns, hname]
    exact hlatest
  cases a with
  | ok new =>
      refine ⟨?_, fun _ he => absurd he (by simp)⟩
      rintro new' heq
      obtain rfl := Except.ok.inj heq
      have htaken : (.ok new, t.store) = s.store.updateStatus (latest.copyStatus w) := by
        rcases kept_of_may hmay with htaken | ⟨_, _, _, he⟩
        · exact htaken
        · exact absurd he (by simp)
      obtain ⟨old, hold, _, rfl, hnew, hkeyed⟩ := Store.updateStatus_ok h.keyed hkey htaken
      obtain rfl : latest = old := Option.some.inj (hlatest.symm.trans hold)
      have hnewmatch := (hmatch.copyStatus (latest.copyStatus w)).withRevision
        (s.store.revision + 1)
      exact ⟨hkeyed, ⟨_, hnew, hnewmatch⟩, hnewmatch, h.release⟩
  | error e =>
      refine ⟨fun _ he => absurd he (by simp), fun _ _ => ?_⟩
      rcases kept_of_may hmay with hrefused | ⟨htrouble, hstore, _⟩
      · exact absurd hrefused (Store.updateStatus_ne_error hget rfl)
      · exact ⟨htrouble, hstore⟩

end Attuned

/-- Calls that neither write nor concern a release leave a job attuned. -/
theorem Attuned.always (h : Attuned setup r j s) {p : Pass α} (hp : Pass.Quiet p) :
    Always (conduct v trouble) p s fun _ t => Attuned setup r j t :=
  hp.always (fun _ _ _ _ hq hmay h₁ => h₁.quiet hq hmay) h

/-! ### What is carried along -/

/-- A condition on the entry and the story that only the applying of a release touches, after
which it holds of the entry with the digest of the merge that was applied. -/
structure Carried (merge : Option Json) (holds : Entry → Story → Prop) : Prop where
  asked : ∀ {e es c} {a : c.Answer}, (Event.asked c a).applies = false → holds e es →
    holds e (.asked c a :: es)
  entry : ∀ {e e' es}, e'.stage = e.stage → e'.action = e.action → e'.digest = e.digest →
    holds e es → holds e' es
  applied : ∀ {e es request info now}, merge = some now → holds e es →
    holds (e.setDigest (Values.digest now))
      (.asked (.helm (.upgradeOrInstall request)) (.ok info) :: es)

theorem carried_true (merge : Option Json) : Carried merge fun _ _ => True :=
  ⟨fun _ _ => trivial, fun _ _ _ _ => trivial, fun _ _ => trivial⟩

/-- The job is attuned and the condition holds. -/
structure Holding (setup : Setup) (r : Resource) (holds : Entry → Story → Prop) (j : Job)
    (s : Contest) : Prop where
  attuned : Attuned setup r j s
  holds : holds j.entry s.story

namespace Holding

variable {c : Call} {a : c.Answer}

theorem quiet (h : Holding setup r holds j s) (hcarried : Carried merge holds)
    (hq : c.isQuiet = true) (hmay : (conduct v trouble).may s c a t) :
    Holding setup r holds j t := by
  refine ⟨h.attuned.quiet hq hmay, ?_⟩
  rw [story_of_may hmay]
  exact hcarried.asked (Event.applies_of_isQuiet hq a) h.holds

theorem always (h : Holding setup r holds j s) (hcarried : Carried merge holds) {p : Pass α}
    (hp : Pass.Quiet p) : Always (conduct v trouble) p s fun _ t => Holding setup r holds j t :=
  hp.always (fun _ _ _ _ hq hmay h₁ => h₁.quiet hcarried hq hmay) h

/-- The status of the copy in hand written; it is taken, unless a call fails. -/
theorem persistStatus (h : Holding setup r holds j s) (hcarried : Carried merge holds)
    (hw : r.Matches w) :
    Always (conduct v trouble) (Pass.persistStatus w) s fun or t =>
      Holding setup r holds { j with resource := or.2 } t ∧ (¬ trouble → or.1 = .done) := by
  have hwkind := hw.kind.trans h.attuned.kind
  have hkey := hw.key
  injection hkey with hwns hwname
  have hrefused : ∀ {p : Pass Outcome} {x : Contest}, Pass.Quiet p → trouble →
      Holding setup r holds j x → Always (conduct v trouble) p x fun o t =>
        Holding setup r holds { j with resource := w } t ∧ (¬ trouble → o = .done) :=
    fun hp htrouble hx => (hx.always hcarried hp).mono fun _ _ ht =>
      ⟨⟨ht.attuned.withResource hw, ht.holds⟩, fun hno => absurd htrouble hno⟩
  rw [Pass.always_persistStatus, hwkind, hwns, hwname]
  intro a s₁ hmay
  have h₁ := h.quiet hcarried rfl hmay
  obtain ⟨hstore, hnone, herror, hsome⟩ := h.attuned.get hmay
  rcases a with e | _ | latest
  · exact hrefused (Pass.quiet_refused e) (herror e rfl) h₁
  · exact absurd rfl hnone
  · obtain ⟨hlatest, hmatch⟩ := hsome latest rfl
    dsimp only
    rw [if_neg (not_not_intro (hmatch.uid.trans hw.uid.symm))]
    intro a s₂ hmay₂
    obtain ⟨htaken, hfailed⟩ := h₁.attuned.updateStatus (hstore ▸ hlatest) hmay₂
    have hholds₂ : holds j.entry s₂.story := by
      rw [story_of_may hmay₂]
      exact hcarried.asked rfl h₁.holds
    rw [Pass.always_afterWrite]
    cases a with
    | ok new => exact ⟨⟨htaken new rfl, hholds₂⟩, fun _ => rfl⟩
    | error e =>
        obtain ⟨htrouble, hsame⟩ := hfailed e rfl
        exact hrefused (Pass.quiet_refused e) htrouble ⟨h₁.attuned.same hsame, hholds₂⟩

end Holding

/-- Whatever the work asks of its surroundings, it stays attuned and the condition is carried
along. -/
theorem holding_upheld (hlive : setup.dryRun = false)
    (hcarried : Carried (v.merge? setup r) holds) :
    Upheld (conduct v trouble) setup (fun _ => True) (Holding setup r holds)
      (fun e s => holds e s.story) where
  stop h := h.holds
  look hq h hmay := h.quiet hcarried hq hmay
  draw h hmay := by
    rw [story_of_may hmay]
    exact hcarried.asked rfl h
  entry e hstage haction hdigest h :=
    ⟨h.attuned.withEntry e, hcarried.entry hstage haction hdigest h.holds⟩
  status := by
    intro j s w reason h hw _
    refine (h.persistStatus hcarried (h.attuned.copy.of_eq hw.metadata hw.spec)).mono ?_
    rintro or t ⟨ht, _⟩
    unfold Proceeds
    split
    · exact ht.holds
    · exact ht
  pin := by
    intro j s t credentials version h _ hmay
    have ht := (h.quiet hcarried rfl hmay).holds
    have hquiet : ∀ {p : Pass Outcome} {x : Contest}, Pass.Quiet p → holds j.entry x.story →
        Always (conduct v trouble) p x fun _ t' => holds j.entry t'.story := fun hp hx =>
      hp.always (fun _ c a _ hq hmay' hx' => by
        rw [story_of_may hmay']
        exact hcarried.asked (Event.applies_of_isQuiet hq a) hx') hx
    rw [Pass.always_persistResource]
    intro a t₁ hmay₁
    have ht₁ : holds j.entry t₁.story := by
      rw [story_of_may hmay₁]
      exact hcarried.asked rfl ht
    rw [Pass.always_afterWrite]
    cases a with
    | ok new => exact ht₁
    | error e => exact hquiet (Pass.quiet_refused e) ht₁
  apply h _ hmay := by
    refine ⟨h.attuned.same (kept_of_may hmay), ?_⟩
    rw [story_of_may hmay]
    exact hcarried.asked rfl h.holds
  applied := by
    rintro j s request documents info t h _ ⟨x, y, hrun⟩ hmay
    have hmerge := (always_iff_runs.1 h.attuned.values _ _ hrun).1 documents rfl
    refine ⟨(h.attuned.same (kept_of_may hmay)).withEntry _, ?_⟩
    rw [story_of_may hmay]
    exact hcarried.applied hmerge h.holds
  rehearsed documents hdry := absurd hdry (by rw [hlive]; exact Bool.false_ne_true)
  remove h hmay := by
    refine ⟨h.attuned.same (kept_of_may hmay), ?_⟩
    rw [story_of_may hmay]
    exact hcarried.asked rfl h.holds

end Renewal

end ReleaseOperator
