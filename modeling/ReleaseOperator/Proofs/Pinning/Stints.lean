import ReleaseOperator.Proofs.Pinning.Course

/-!
# A pass over an entry

A pass over a resource that lives works on one entry. It leaves the machine where it was, or it
takes it up the stages under the action that is pinned, or it has the machine begin anew, which
it does only for a resource whose finished work is out of date because of its values.
-/

namespace ReleaseOperator

open Program

/-- The values of a settled resource are not those applied: the documents it asks for, as they
were looked up, do not come to the digest of the entry, or, where the entry has none, to that of
the values that Helm reported. -/
structure ValuesChanged (setup : Setup) (r : Resource) (e : Entry) (es : Story) : Prop where
  kind : r.kind = .module
  settled : r.selectsUpdate = true
  differ : ∃ (documents : List Json) (before after : Story) (applied : String),
    Runs Conduct.unruled ((Job.start setup r e).values setup).run before (.ok documents) after ∧
    after <:+ es ∧
    (e.digest = some applied ∨ e.digest = none ∧ ∃ deployed,
      .asked (.helm (.values (r.release setup.defaults).name
        (r.release setup.defaults).namespaceName)) (.ok deployed) ∈ es ∧
      applied = Values.digest deployed) ∧
    applied ≠ Values.digest (Values.mergeAll documents)

/-- What a pass may do to the entry that it works on. -/
inductive Entry.Moves (setup : Setup) (r : Resource) (e e' : Entry) (es : Story) : Prop
  | stayed (stage : e'.stage = e.stage) (action : e'.action = e.action) (unmoved : es.entered = [])
  | ascended (a : Action) (unfinished : e.stage ≠ .finish)
      (chosen : e.stage = .start ∧ e.action = none ∨ e.action = some a)
      (ascent : Ascent e.stage a e' es)
  | renewed (finished : e.stage = .finish) (changed : ValuesChanged setup r e es)
      (ascent : Ascent .start .update e' es)

/-- An entry as it is kept between passes: once its machine has left the first stage an action
is pinned, and no release was applied too often. -/
structure Entry.Steady (past : Story) (e : Entry) : Prop where
  pinned : e.stage ≠ .start → ∃ a, e.action = some a
  sparing : Story.Sparing e.stage past

theorem Entry.steady_fresh (generation : Int) : (fresh generation .start).Steady [] :=
  ⟨fun h => absurd rfl h, .nil _⟩

/-- In a pass the machine has not moved yet. -/
structure Story.Resting (past : Story) (st : Stage) (es : Story) : Prop where
  unmoved : es.entered = []
  sparing : Story.Sparing st (es ++ past)

variable {setup : Setup} {r : Resource} {e e' : Entry} {es es' past : Story} {j : Job}
  {α : Type} {st : Stage} {action : Action}

theorem Resource.kind_of_declarative (h : r.wish = .declarative) : r.kind = .module := by
  rcases r with ⟨_, s | s, _⟩
  · rfl
  · unfold wish at h
    dsimp only at h
    split at h
    · cases h
    · cases h

theorem ValuesChanged.mono (h : ValuesChanged setup r e es) (hsuffix : es <:+ es') :
    ValuesChanged setup r e es' := by
  obtain ⟨documents, before, after, applied, hrun, hafter, hbasis, hne⟩ := h.differ
  refine ⟨h.kind, h.settled, documents, before, after, applied, hrun, hafter.trans hsuffix, ?_,
    hne⟩
  refine hbasis.imp_right ?_
  rintro ⟨hdigest, deployed, hmem, happlied⟩
  exact ⟨hdigest, deployed, hsuffix.mem hmem, happlied⟩

/-- What no further question can undo stays true. -/
theorem Story.always {I : Story → Prop} (hI : ∀ es c a, I es → I (.asked c a :: es)) (h : I es)
    (p : Pass α) : Always Conduct.unruled p es fun _ es' => I es' := by
  induction p generalizing es with
  | done a => exact h
  | ask c next ih =>
      rintro a _ rfl
      exact ih a (hI es c a h)

theorem Story.always_suffix (p : Pass α) (es : Story) :
    Always Conduct.unruled p es fun _ es' => es <:+ es' :=
  Story.always (fun _ _ _ hsuffix => hsuffix.trans (List.suffix_cons _ _)) List.suffix_rfl p

theorem Story.always_fetched (h : es.fetched? = some r) (p : Pass α) :
    Always Conduct.unruled p es fun _ es' => es'.fetched? = some r :=
  Story.always (fun _ _ _ => Story.fetched?_asked) h p

theorem Story.Resting.told (h : Story.Resting past st es) {c : Call} (hc : c.isPlain = true)
    (a : c.Answer) : Story.Resting past st (.asked c a :: es) := by
  refine ⟨?_, h.sparing.plain hc a⟩
  rw [Story.entered_cons, Event.entered?_of_isPlain hc, h.unmoved]
  rfl

theorem Story.Resting.always (h : Story.Resting past st es) {p : Pass α} (hp : Pass.Plain p) :
    Always Conduct.unruled p es fun _ es' => Story.Resting past st es' := by
  refine hp.always ?_ h
  rintro es c a _ hc rfl hrest
  exact hrest.told hc a

theorem Course.steady {origin : Stage} (h : Course origin action past e.stage e es) :
    e.Steady (es ++ past) :=
  ⟨fun _ => ⟨action, h.pinned⟩, h.sparing⟩

namespace Entry

theorem Steady.stage_of_none (h : e.Steady past) (hnone : e.action = none) :
    e.stage = .start := by
  refine Decidable.byContradiction fun hstage => ?_
  obtain ⟨a, ha⟩ := h.pinned hstage
  rw [hnone] at ha
  cases ha

/-- An entry after a pass over it: what the pass did to it, and that it is in order. -/
def Passed (setup : Setup) (r : Resource) (past : Story) (e e' : Entry) (es : Story) : Prop :=
  e.Moves setup r e' es ∧ e'.Steady (es ++ past)

theorem passed_of_resting (h : Story.Resting past e.stage es) (hsteady : e.Steady past)
    (hstage : e'.stage = e.stage) (haction : e'.action = e.action) :
    Passed setup r past e e' es :=
  ⟨.stayed hstage haction h.unmoved, fun hst => haction ▸ hsteady.pinned (hstage ▸ hst),
    hstage ▸ h.sparing⟩

/-- The action that is pinned is performed; where there is none one is pinned first. -/
theorem always_runPinned (h : Story.Resting past j.entry.stage es)
    (hsteady : j.entry.Steady past) (hunfinished : j.entry.stage ≠ .finish) :
    AlwaysFrom Conduct.unruled (Work.runPinned setup) j es fun _ j' es' =>
      Passed setup r past j.entry j'.entry es' := by
  have hperform : ∀ a (j' : Job) (es' : Story), j'.entry.stage = j.entry.stage →
      j'.entry.action = some a →
      j.entry.stage = .start ∧ j.entry.action = none ∨ j.entry.action = some a →
      Story.Resting past j.entry.stage es' →
      AlwaysFrom Conduct.unruled (Work.perform setup a) j' es' fun _ j'' es'' =>
        Passed setup r past j.entry j''.entry es'' := by
    intro a j' es' hstage haction hchosen hrest
    have hcourse := Course.start haction hrest.unmoved (hstage ▸ hrest.sparing)
    refine (hcourse.always_perform setup).mono ?_
    rintro o j'' es'' h''
    rw [hstage] at h''
    exact ⟨.ascended a hunfinished hchosen h''.toAscent, h''.steady⟩
  rw [Work.always_runPinned]
  split
  · rename_i a ha
    exact hperform a j es rfl ha (Or.inr ha) h
  · rename_i hnone
    refine (h.always (Pass.quiet_chooseAction j).plain).mono ?_
    rintro (o | a) es' hrest
    · exact passed_of_resting hrest hsteady rfl rfl
    · exact hperform a _ es' rfl rfl (Or.inl ⟨hsteady.stage_of_none hnone, hnone⟩) hrest

end Entry

/-- The values that stand in for those applied are those of the digest of the entry, or else
those that Helm reports. Without either there is no difference to be seen. -/
theorem Story.Resting.always_appliedDigest (h : Story.Resting past st es) (desired : String) :
    Always Conduct.unruled (j.appliedDigest setup desired) es fun result es' =>
      Story.Resting past st es' ∧ ∀ applied, result = .ok applied → applied ≠ desired →
        j.entry.digest = some applied ∨ j.entry.digest = none ∧ ∃ deployed,
          .asked (.helm (.values j.release.name j.release.namespaceName)) (.ok deployed) ∈ es' ∧
          applied = Values.digest deployed := by
  have hsame : ∀ {es' : Story}, Story.Resting past st es' →
      Story.Resting past st es' ∧ ∀ applied, (.ok desired : Except Outcome String) = .ok applied →
        applied ≠ desired → j.entry.digest = some applied ∨ j.entry.digest = none ∧ ∃ deployed,
          .asked (.helm (.values j.release.name j.release.namespaceName)) (.ok deployed) ∈ es' ∧
          applied = Values.digest deployed :=
    fun hrest => ⟨hrest, fun _ heq hne => absurd (Except.ok.inj heq).symm hne⟩
  rw [Job.always_appliedDigest]
  split
  · rename_i d hd
    refine ⟨h, fun applied heq _ => Or.inl ?_⟩
    rw [hd, Except.ok.inj heq]
  rename_i hnone
  split
  · exact hsame h
  rintro (f | deployed) es' rfl
  · have hrest :=
      h.told (c := .helm (.values j.release.name j.release.namespaceName)) rfl (.error f)
    cases f with
    | releaseNotFound name ns => exact hsame hrest
    | _ =>
        refine (hrest.always (Pass.quiet_shortDelayWith _).plain).mono fun o _ hrest' => ?_
        exact ⟨hrest', fun _ heq => by cases heq⟩
  · refine ⟨h.told rfl _, fun applied heq _ => Or.inr ⟨hnone, deployed, List.mem_cons_self, ?_⟩⟩
    exact (Except.ok.inj heq).symm

namespace Entry

/-- Whether finished work is out of date. If it is, that shows in the story; the machine stays
where it is for now. -/
theorem always_valuesChanged (h : Story.Resting past .finish es) :
    AlwaysFrom Conduct.unruled (Work.valuesChanged setup) (.start setup r e) es
      fun result j' es' => e.Alike j'.entry ∧ Story.Resting past .finish es' ∧
        (result = .ok true → ValuesChanged setup r e es') := by
  have hkept : ∀ {result : Except Outcome Bool} {es' : Story}, result ≠ .ok true →
      Story.Resting past .finish es' → e.Alike (Job.start setup r e).entry ∧
        Story.Resting past .finish es' ∧ (result = .ok true → ValuesChanged setup r e es') :=
    fun hresult hrest => ⟨⟨rfl, rfl⟩, hrest, fun heq => absurd heq hresult⟩
  rw [Work.always_valuesChanged]
  split
  · exact hkept (by simp) h
  rename_i hguard
  rw [Bool.not_eq_true, Bool.or_eq_false_iff, decide_eq_false_iff_not, Decidable.not_not,
    Bool.not_eq_false'] at hguard
  obtain ⟨hdeclared, hsettled⟩ := hguard
  rw [Job.valuesDigest_run, always_map]
  refine ((h.always (Pass.quiet_jobValues setup _).plain).and
    (always_iff_runs.2 fun _ _ hrun => hrun)).mono ?_
  rintro (f | documents) es₁ ⟨h₁, hrun⟩
  · exact (h₁.always (Pass.quiet_shortDelayWith _).plain).mono fun o _ hrest =>
      hkept (by simp) hrest
  refine ((h₁.always_appliedDigest _).and (Story.always_suffix _ es₁)).mono ?_
  rintro (o | applied) es₂ ⟨⟨h₂, hbasis⟩, hsuffix⟩
  · exact hkept (by simp) h₂
  refine ⟨⟨rfl, rfl⟩, h₂, fun heq => ?_⟩
  have hne := of_decide_eq_true (Except.ok.inj heq)
  exact ⟨Resource.kind_of_declarative hdeclared, hsettled, documents, es, es₁, applied, hrun,
    hsuffix, hbasis applied rfl hne, hne⟩

/-- A pass over the entry of a resource that lives. -/
theorem always_live (setup : Setup) (r : Resource) (h : Story.Resting past e.stage es)
    (hsteady : e.Steady past) :
    AlwaysFrom Conduct.unruled (Work.live setup) (.start setup r e) es fun _ j' es' =>
      Passed setup r past e j'.entry es' := by
  rw [Work.always_live]
  split
  · rename_i hfinish
    have hstage : e.stage = .finish := hfinish
    refine (always_valuesChanged (hstage ▸ h)).mono ?_
    rintro (o | _ | _) j' es' ⟨halike, hrest, hchanged⟩
    · exact passed_of_resting (hstage ▸ hrest) hsteady halike.stage halike.action
    · exact passed_of_resting (hstage ▸ hrest) hsteady halike.stage halike.action
    · dsimp only
      rw [Work.always_runPinned]
      have hcourse : Course .start .update past .start ((j'.entry.pin .update).rearm) es' :=
        Course.start (e := (j'.entry.pin .update).rearm) rfl hrest.unmoved
          (hrest.sparing.mono (Nat.le_refl 1))
      refine (Always.and (hcourse.always_perform setup) (Story.always_suffix _ es')).mono ?_
      rintro ⟨o, j''⟩ es'' ⟨h'', hsuffix⟩
      exact ⟨.renewed hstage ((hchanged rfl).mono hsuffix) h''.toAscent, h''.steady⟩
  · rename_i hunfinished
    exact always_runPinned h hsteady hunfinished

end Entry

end ReleaseOperator
