import ReleaseOperator.Proofs.Estate.Runs
import ReleaseOperator.Proofs.Renewal.Attuned

/-!
# An update that is under way

An update cannot get past the stage at which its release is applied without the entry
remembering the merge that was applied. So an update that was begun anew and has come to its
end has applied the merge. And where nothing fails before that stage, the release is handed
over in the pass that begins the update.
-/

namespace ReleaseOperator

/-!
## Whether values have changed

When the work on a module is finished, its merge is held against what the entry remembers: the
merge applied last, or else a baseline, for which Helm is asked once. Here the entry remembers
the digest of a given tree of values, if any, and what is decided is told in terms of those
values.
-/

open InMemory Program Work

/-- Whether Helm is asked. -/
def Call.isHelm : Call → Bool
  | .helm _ => true
  | _ => false

theorem Call.isHelm_of_isLookup {c : Call} (h : c.isLookup = true) : c.isHelm = false := by
  cases c with
  | helm c => exact absurd h Bool.false_ne_true
  | _ => rfl

namespace Event

/-- A release was handed to Helm to be installed or upgraded, whatever came of it. -/
def handsOver : Event → Bool
  | .asked (.helm (.upgradeOrInstall _)) _ => true
  | _ => false

/-- The baseline that comes of asking Helm for the values of a release: those it reports, or a
given merge when the release is gone. -/
def baseline? (merge : Option Json) : Event → Option Json
  | .asked (.helm (.values _ _)) (.ok deployed) => some deployed
  | .asked (.helm (.values _ _)) (.error (.releaseNotFound _ _)) => merge
  | _ => none

theorem handsOver_of_applies {e : Event} (h : e.applies = true) : e.handsOver = true := by
  unfold applies at h
  split at h
  · rfl
  · exact absurd h Bool.false_ne_true

end Event

namespace Story

/-- The first baseline of a story. -/
def baseline? (merge : Option Json) : Story → Option Json
  | [] => none
  | e :: es => (baseline? merge es).or (e.baseline? merge)

/-- Nothing was asked that changes the store or a release. -/
def IsQuiet (es : Story) : Prop := ∀ c a, .asked c a ∈ es → c.isQuiet = true

/-- Helm was not asked to change anything, nor for values. -/
structure Untouched (merge : Option Json) (es : Story) : Prop where
  applies : es.any Event.applies = false
  handsOver : es.any Event.handsOver = false
  baseline : es.baseline? merge = none

variable {es : Story} {c : Call} {a : c.Answer} {merge : Option Json} {b : Json}

theorem untouched_nil (merge : Option Json) : Untouched merge [] := ⟨rfl, rfl, rfl⟩

theorem Untouched.asked (h : es.Untouched merge) (hc : c.isHelm = false) :
    Untouched merge (.asked c a :: es) := by
  cases c with
  | helm c => exact absurd hc.symm Bool.false_ne_true
  | _ =>
      refine ⟨h.applies, h.handsOver, ?_⟩
      rw [baseline?, h.baseline]
      rfl

theorem baseline?_of_suffix {es' : Story} (hsuffix : es <:+ es')
    (h : es.baseline? merge = some b) : es'.baseline? merge = some b := by
  obtain ⟨later, rfl⟩ := hsuffix
  induction later with
  | nil => exact h
  | cons e later ih =>
      rw [List.cons_append, baseline?, ih]
      rfl

/-- A basis, or else the first baseline, stays what it is as the story goes on. -/
theorem or_baseline?_of_suffix {es' : Story} {basis : Option Json} (hsuffix : es <:+ es')
    (h : basis.or (es.baseline? merge) = some b) : basis.or (es'.baseline? merge) = some b := by
  cases basis with
  | some b' => exact h
  | none => exact baseline?_of_suffix hsuffix h

theorem isQuiet_nil : IsQuiet [] := fun _ _ h => absurd h List.not_mem_nil

theorem IsQuiet.asked (h : es.IsQuiet) (hc : c.isQuiet = true) : IsQuiet (.asked c a :: es) := by
  intro c' a' hmem
  rcases List.mem_cons.1 hmem with heq | hmem
  · injection heq with hc' _
    exact hc' ▸ hc
  · exact h c' a' hmem

theorem IsQuiet.not_handsOver (h : es.IsQuiet) : ¬ es.any Event.handsOver = true := by
  intro hany
  obtain ⟨e, he, hhands⟩ := List.any_eq_true.1 hany
  rcases e with _ | ⟨c, a⟩ | _
  · exact absurd hhands Bool.false_ne_true
  · have hq := h c a he
    rcases c with _ | _ | (_ | _ | _ | _ | _ | _) | _ | _ | _ | _ <;>
      first | exact absurd hhands Bool.false_ne_true | exact absurd hq Bool.false_ne_true
  · exact absurd hhands Bool.false_ne_true

theorem IsQuiet.not_applies (h : es.IsQuiet) : ¬ es.any Event.applies = true := by
  intro hany
  obtain ⟨e, he, happlies⟩ := List.any_eq_true.1 hany
  exact h.not_handsOver (List.any_eq_true.2 ⟨e, he, Event.handsOver_of_applies happlies⟩)

end Story

namespace Renewal

variable {α : Type} {v : Contents} {trouble : Prop} {setup : Setup} {r : Resource} {e : Entry}
  {j : Job} {s t : Contest} {merge basis : Option Json} {now : Json}

/-- Where Helm is not asked the story stays untouched. -/
theorem always_untouched {p : Pass α} (hp : Asks (fun c => c.isHelm = false) p)
    (h : s.story.Untouched merge) :
    Always (conduct v trouble) p s fun _ t => t.story.Untouched merge :=
  hp.always (fun _ _ _ _ hc hmay h₁ => by
    rw [story_of_may hmay]
    exact h₁.asked hc) h

theorem apart_shortDelayWith {f : Failure} :
    Asks (fun c => c.isHelm = false) (Pass.shortDelayWith f) := ⟨rfl, fun _ => trivial⟩

/-- Looking around leaves the store as it is and the story quiet. -/
theorem always_isQuiet {p : Pass α} (hp : Pass.Quiet p) (h : s.story.IsQuiet) :
    Always (conduct v trouble) p s fun _ (t : Contest) => t.store = s.store ∧ t.story.IsQuiet := by
  refine hp.always (I := fun t : Contest => t.store = s.store ∧ t.story.IsQuiet) ?_ ⟨rfl, h⟩
  rintro t c a t' hc hmay ⟨hstore, hquiet⟩
  refine ⟨(store_of_isQuiet hc hmay).trans hstore, ?_⟩
  rw [story_of_may hmay]
  exact hquiet.asked hc

/-- What the entry remembers as applied: what it knew, or a baseline that Helm was asked for. -/
theorem applied_digest (hlive : setup.dryRun = false) (hmerge : merge = some now)
    (hdigest : j.entry.digest = basis.map Values.digest) (hfresh : s.story.Untouched merge) :
    Always (conduct v trouble) (j.appliedDigest setup (Values.digest now)) s fun d t =>
      match d with
      | .error _ => basis = none ∧ t.story.Untouched merge
      | .ok applied => ∃ b, basis.or (t.story.baseline? merge) = some b ∧
          applied = Values.digest b := by
  rw [Job.always_appliedDigest, hdigest]
  cases basis with
  | some b => exact ⟨b, rfl, rfl⟩
  | none =>
      dsimp only [Option.map_none]
      rw [if_neg (by rw [hlive]; exact Bool.false_ne_true)]
      intro a t hmay
      have hbaseline : t.story.baseline? merge = (Event.asked _ a).baseline? merge := by
        rw [story_of_may hmay, Story.baseline?, hfresh.baseline]
        rfl
      have hsilent : (Event.asked _ a).baseline? merge = none → t.story.Untouched merge := by
        intro hnone
        refine ⟨?_, ?_, hbaseline.trans hnone⟩
        · rw [story_of_may hmay]
          exact hfresh.applies
        · rw [story_of_may hmay]
          exact hfresh.handsOver
      rcases a with e | deployed
      · cases e with
        | releaseNotFound name ns => exact ⟨now, hbaseline.trans hmerge, rfl⟩
        | _ =>
            refine (always_untouched apart_shortDelayWith (hsilent rfl)).mono ?_
            exact fun _ _ h => ⟨rfl, h⟩
      · exact ⟨deployed, hbaseline, rfl⟩

/-- What may be decided about the values of a finished module whose entry remembers those of a
basis: nothing, for want of an answer, or whether the merge differs from the basis. -/
inductive Decided (setup : Setup) (r : Resource) (e : Entry) (merge basis : Option Json)
    (trouble : Prop) : Except Outcome Bool → Job → Contest → Prop
  | hindered {o : Outcome} {t : Contest} (untouched : t.story.Untouched merge)
      (why : trouble ∨ merge = none ∨ basis = none) :
      Decided setup r e merge basis trouble (.error o) (.start setup r e) t
  | judged {b now : Json} {t : Contest} (merged : merge = some now)
      (held : basis.or (t.story.baseline? merge) = some b) :
      Decided setup r e merge basis trouble (.ok (Values.digest b ≠ Values.digest now))
        (.start setup r (e.setDigest (Values.digest b))) t

theorem decided (h : Attuned setup r (.start setup r e) s) (hlive : setup.dryRun = false)
    (hselects : r.selectsUpdate = true) (hdigest : e.digest = basis.map Values.digest)
    (hfresh : s.story.Untouched (v.merge? setup r)) :
    AlwaysFrom (conduct v trouble) (valuesChanged setup) (.start setup r e) s
      (Decided setup r e (v.merge? setup r) basis trouble) := by
  have hwish : r.wish = .declarative := Estate.wish_of_kind h.kind
  have hresource : (Job.start setup r e).resource = r := rfl
  rw [Work.always_valuesChanged, hresource, hwish, hselects, if_neg (by decide)]
  have hapart := Pass.asks_valuesDigest (fun _ => Call.isHelm_of_isLookup) setup
    (Job.start setup r e)
  refine (h.valuesDigest.and (always_untouched hapart hfresh)).mono ?_
  rintro (failure | desired) s₁ ⟨⟨hok, hresolves⟩, h₁⟩
  · refine (always_untouched apart_shortDelayWith h₁).mono fun _ s₂ h₂ => .hindered h₂ ?_
    by_cases htrouble : trouble
    · exact Or.inl htrouble
    · refine Or.inr (Or.inl (Option.eq_none_iff_forall_not_mem.2 fun now hnow => ?_))
      exact absurd (hresolves htrouble now hnow) (by simp)
  · obtain ⟨now, hmerge, rfl⟩ := hok desired rfl
    refine (applied_digest hlive hmerge hdigest h₁).mono ?_
    rintro (o | applied) s₂ hd
    · exact .hindered hd.2 (Or.inr (Or.inr hd.1))
    · obtain ⟨b, hheld, rfl⟩ := hd
      exact .judged hmerge hheld

/-! ## The update -/

variable {o : Outcome} {st : Stage} {reason : Reason}

/-- The entry is that of an update which remembers a merge once it is past the applying. -/
def Renewing (now : Json) (e : Entry) : Prop :=
  e.action = some .update ∧
    (Stage.work.rank < e.stage.rank → e.digest = some (Values.digest now))

/-- Such an entry at a stage. -/
def RenewingAt (now : Json) (st : Stage) (e : Entry) (_ : Story) : Prop :=
  e.stage = st ∧ Renewing now e

theorem carried_renewingAt (now : Json) (st : Stage) :
    Carried (some now) (RenewingAt now st) where
  asked _ h := h
  entry hstage haction hdigest h := by
    refine ⟨hstage.trans h.1, haction.trans h.2.1, fun hpast => ?_⟩
    rw [hstage] at hpast
    exact hdigest.trans (h.2.2 hpast)
  applied hnow h := by
    obtain rfl := Option.some.inj hnow
    exact ⟨h.1, h.2.1, fun _ => rfl⟩

/-- What was applied is remembered, or the work stops. -/
theorem remembers_applyRelease (h : Holding setup r (RenewingAt now st) j s)
    (hlive : setup.dryRun = false) (hmerge : v.merge? setup r = some now) :
    AlwaysFrom (conduct v trouble) (Work.applyRelease setup reason) j s fun o j' _ =>
      o.requeue = false → j'.entry.digest = some (Values.digest now) := by
  have hcarried := carried_renewingAt now st
  have U : Upheld (conduct v trouble) setup (fun _ => True)
      (Holding setup r (RenewingAt now st)) (fun e s => RenewingAt now st e s.story) :=
    holding_upheld hlive (hmerge ▸ hcarried)
  have hfail : ∀ {x : Contest} {f : Failure}, Holding setup r (RenewingAt now st) j x →
      AlwaysFrom (conduct v trouble) (Work.fail reason f) j x fun o j' _ =>
        o.requeue = false → j'.entry.digest = some (Values.digest now) := fun hx =>
    (U.stopped_fail hx trivial _).mono fun _ _ _ hstop hno =>
      absurd (hstop.1.symm.trans hno) (by decide)
  rw [Work.always_applyRelease]
  refine (h.attuned.values.and (h.always hcarried (Pass.quiet_jobValues setup j))).mono ?_
  rintro (failure | documents) s₁ ⟨⟨hok, _⟩, h₁⟩
  · exact hfail h₁
  · obtain rfl := Option.some.inj ((hok documents rfl).symm.trans hmerge)
    dsimp only
    rw [if_neg (by rw [hlive]; exact Bool.false_ne_true)]
    refine (h₁.always hcarried (Pass.quiet_credentials _ _)).mono ?_
    rintro (failure | credentials) s₂ h₂
    · exact hfail h₂
    · dsimp only
      rw [Work.always_handOver]
      intro a s₃ hmay
      cases a with
      | ok info => exact fun _ => rfl
      | error failure => exact hfail (U.apply h₂ rfl hmay)

/-- A step that was gone through leads to the next stage. -/
theorem onward_renewing (hgoes : Proceeds (Holding setup r (RenewingAt now st))
      (fun e s => RenewingAt now st e s.story) o j s)
    (hpast : o.requeue = false → Stage.work.rank < st.next.rank →
      j.entry.digest = some (Values.digest now)) :
    Worker.Onward (conduct v trouble) .update st
      (fun st => Holding setup r (RenewingAt now st)) (fun _ j _ => Renewing now j.entry)
      o j s := by
  unfold Worker.Onward
  split
  · rename_i ho
    rw [Proceeds, if_pos ho] at hgoes
    exact hgoes.2
  · rename_i ho
    rw [Proceeds, if_neg ho] at hgoes
    rw [Work.always_enter]
    intro u s' hmay
    exact ⟨(hgoes.attuned.quiet rfl hmay).withEntry _, rfl, hgoes.holds.2.1,
      hpast (Bool.not_eq_true _ ▸ ho)⟩

/-- The run of an update remembers the merge when it gets past the applying. -/
theorem renewing_perform (h : Attuned setup r j s) (hlive : setup.dryRun = false)
    (hmerge : v.merge? setup r = some now) (he : Renewing now j.entry) :
    AlwaysFrom (conduct v trouble) (Work.perform setup .update) j s fun _ j' _ =>
      Renewing now j'.entry := by
  have U : ∀ st, Upheld (conduct v trouble) setup (fun _ => True)
      (Holding setup r (RenewingAt now st)) (fun e s => RenewingAt now st e s.story) :=
    fun st => holding_upheld hlive (hmerge ▸ carried_renewingAt now st)
  -- Away from the stage of the applying only an entry that is past it goes on to one past it.
  have hother : ∀ {st : Stage} {o : Outcome} {j : Job} {s : Contest}, st ≠ .work →
      Proceeds (Holding setup r (RenewingAt now st)) (fun e s => RenewingAt now st e s.story) o j
        s → Worker.Onward (conduct v trouble) .update st
          (fun st => Holding setup r (RenewingAt now st)) (fun _ j _ => Renewing now j.entry) o j
          s := by
    intro st o j s hst hgoes
    refine onward_renewing hgoes fun ho hpast => ?_
    rw [Proceeds, if_neg (by rw [ho]; exact Bool.false_ne_true)] at hgoes
    have hlate : Stage.work.rank < st.rank := by
      cases st <;> first | exact absurd rfl hst | exact absurd hpast (by decide) | decide
    exact hgoes.holds.2.2 (by rw [hgoes.holds.1]; exact hlate)
  have hneeded : Stage.checkNeeded ≠ .work := by decide
  rw [Work.always_perform]
  refine @Worker.always_run_of_steps _ _ _ _ rfl (fun st => Holding setup r (RenewingAt now st)) _
    ?_ ?_ ?_ ?_ ?_ _ _ _ ⟨h, rfl, he⟩
  · exact fun j s h => hother (by decide) ((U _).proceeds h)
  · exact fun j s h => hother (o := .done) hneeded ((U _).proceeds h)
  · intro j s h
    refine ((U _).isReady h).mono ?_
    rintro ⟨done, o⟩ j' t ht
    split
    · exact hother (by decide) ((U _).proceeds ht)
    · exact ((U _).quiet Pass.quiet_shortDelay ht).mono fun _ _ ht' => ht'.holds.2
  · intro st work hmem j s h
    by_cases hwork : st = .work
    · subst hwork
      have hstep : work = Work.applyRelease setup .updateFailed := by
        simpa [Worker.steps, Worker.forAction, Worker.update, Worker.idle] using hmem
      rw [hstep]
      refine (((U _).applyRelease h trivial).and (remembers_applyRelease h hlive hmerge)).mono ?_
      rintro o j' t ⟨hgoes, hremembers⟩
      exact onward_renewing hgoes fun ho _ => hremembers ho
    · exact ((U _).anyStep Upheld.recordsAll_true .update hmem h).mono fun _ _ _ hgoes =>
        hother hwork hgoes
  · exact fun j s h => h.holds.2

/-! ### Handing the release over -/

/-- A release has been handed over. -/
def Handed (s : Contest) : Prop := s.story.any Event.handsOver = true

theorem Handed.of_suffix (h : Handed s) (hsuffix : s.story <:+ t.story) : Handed t := by
  obtain ⟨event, hmem, hhands⟩ := List.any_eq_true.1 h
  exact List.any_eq_true.2 ⟨event, hsuffix.mem hmem, hhands⟩

theorem Handed.always (h : Handed s) (p : Pass α) :
    Always (conduct v trouble) p s fun _ t => Handed t :=
  (always_suffix p).mono fun _ _ hsuffix => h.of_suffix hsuffix

/-- Where nothing fails an event is recorded, and the work goes on. -/
theorem goesOn_announce (h : Attuned setup r j s) (detail : Option String) :
    AlwaysFrom (conduct v False) (Work.announce reason detail) j s fun o j' t =>
      o.requeue = false ∧ Attuned setup r j' t := by
  rw [Work.always_announce]
  refine (h.always Pass.quiet_now).mono ?_
  intro time t ht
  have hcopy : r.Matches (j.noted reason detail time) :=
    ht.copy.of_eq (j.metadata_noted reason detail time) (j.spec_noted reason detail time)
  split
  · have hholding : Holding setup r (fun _ _ => True) j t := ⟨ht, trivial⟩
    refine (hholding.persistStatus (carried_true (v.merge? setup r)) hcopy).mono ?_
    rintro or t' ⟨ht', hdone⟩
    exact ⟨by rw [hdone id]; rfl, ht'.attuned⟩
  · exact ⟨rfl, ht.withResource hcopy⟩

/-- Where the sources resolve the release is handed over, whatever Helm makes of it. -/
theorem handed_applyRelease (h : Attuned setup r j s) (hlive : setup.dryRun = false)
    (hmerge : v.merge? setup r = some now) (hgrants : v.Grants setup r) :
    AlwaysFrom (conduct v False) (Work.applyRelease setup reason) j s fun _ _ t => Handed t := by
  rw [Work.always_applyRelease]
  refine h.values.mono ?_
  rintro d s₁ ⟨_, hresolves⟩
  obtain ⟨documents, rfl⟩ := hresolves id now hmerge
  dsimp only
  rw [if_neg (by rw [hlive]; exact Bool.false_ne_true)]
  refine (h.credentials hgrants).mono ?_
  rintro c s₂ ⟨credentials, rfl⟩
  dsimp only
  rw [Work.always_handOver]
  intro a s₃ hmay
  have hhanded : Handed s₃ := by
    rw [Handed, story_of_may hmay]
    rfl
  cases a with
  | ok info => exact hhanded
  | error failure => exact hhanded.always _

/-- Up to the applying the job is attuned; behind it the release has been handed over. -/
def Due (setup : Setup) (r : Resource) (st : Stage) (j : Job) (s : Contest) : Prop :=
  if st.rank ≤ Stage.work.rank then Attuned setup r j s else Handed s

theorem onward_attuned (h : Attuned setup r j s) (ho : o.requeue = false)
    (hst : st.next.rank ≤ Stage.work.rank) :
    Worker.Onward (conduct v trouble) .update st (Due setup r) (fun _ _ t => Handed t) o j s := by
  rw [Worker.Onward, if_neg (by rw [ho]; exact Bool.false_ne_true), Work.always_enter]
  intro u s' hmay
  rw [Due, if_pos hst]
  exact (h.quiet rfl hmay).withEntry _

theorem onward_handed (h : Handed s) (hst : ¬ st.next.rank ≤ Stage.work.rank) :
    Worker.Onward (conduct v trouble) .update st (Due setup r) (fun _ _ t => Handed t) o j s := by
  unfold Worker.Onward
  split
  · exact h
  · rw [Work.always_enter]
    intro u s' hmay
    rw [Due, if_neg hst]
    exact h.of_suffix (by rw [story_of_may hmay]; exact List.suffix_cons _ _)

/-- An update that begins hands its release over, if nothing but Helm can fail. -/
theorem handed_perform (h : Attuned setup r j s) (hlive : setup.dryRun = false)
    (hmerge : v.merge? setup r = some now) (hgrants : v.Grants setup r)
    (hstage : j.entry.stage = .start) :
    AlwaysFrom (conduct v False) (Work.perform setup .update) j s fun _ _ t => Handed t := by
  have hearly : ∀ {st : Stage} {j : Job} {s : Contest}, st.rank ≤ Stage.work.rank →
      Due setup r st j s → Attuned setup r j s := by
    intro st j s hst hdue
    rwa [Due, if_pos hst] at hdue
  have hlate : ∀ {st : Stage} {j : Job} {s : Contest}, ¬ st.rank ≤ Stage.work.rank →
      Due setup r st j s → Handed s := by
    intro st j s hst hdue
    rwa [Due, if_neg hst] at hdue
  have hstart : ∀ j s, Due setup r .start j s → Worker.Onward (conduct v False) .update .start
      (Due setup r) (fun _ _ t => Handed t) .done j s :=
    fun j s hdue => onward_attuned (hearly (by decide) hdue) rfl (by decide)
  rw [Work.always_perform, hstage]
  refine Worker.always_run_of_steps rfl hstart ?_ ?_ ?_ ?_
    (by rw [Due, if_pos (by decide)]; exact h)
  · exact fun j s hdue => onward_attuned (o := .done) (hearly (by decide) hdue) rfl (by decide)
  · intro j s hdue
    refine ((hlate (by decide) hdue).always _).mono ?_
    rintro ⟨⟨done, o⟩, j'⟩ t ht
    dsimp only
    split
    · exact onward_handed ht (by decide)
    · exact ht.always _
  · intro st work hmem j s hdue
    simp only [Worker.steps, Worker.forAction, Worker.update, Worker.idle, List.mem_cons,
      Prod.mk.injEq, List.not_mem_nil, or_false] at hmem
    rcases hmem with ⟨rfl, rfl⟩ | ⟨rfl, rfl⟩ | ⟨rfl, rfl⟩ | ⟨rfl, rfl⟩ | ⟨rfl, rfl⟩ | ⟨rfl, rfl⟩ |
      ⟨rfl, rfl⟩
    · exact (alwaysFrom_pure _ _).2 (onward_attuned (hearly (by decide) hdue) rfl (by decide))
    · rw [Work.hook, Work.always_about, Pass.always_hook]
      intro o s' hmay
      obtain rfl := hmay.2.1
      exact onward_attuned ((hearly (by decide) hdue).quiet rfl hmay) rfl (by decide)
    · exact (goesOn_announce (hearly (by decide) hdue) none).mono fun _ _ _ ht =>
        onward_attuned ht.2 ht.1 (by decide)
    · exact (handed_applyRelease (hearly (by decide) hdue) hlive hmerge hgrants).mono
        fun _ _ _ ht => onward_handed ht (by decide)
    all_goals exact ((hlate (by decide) hdue).always _).mono fun _ _ ht =>
      onward_handed ht (by decide)
  · exact fun j s hdue => hlate (by decide) hdue

end Renewal

end ReleaseOperator
