import ReleaseOperator.Proofs.Edits.Writes

/-!
# The steps of a pass among edits

Every step of every action takes what holds in the middle of a pass to what holds after
it. The one step that leaves something pending is the completion: the generation that it
records becomes a finished one only with the entering of the last stage right behind it.
-/

namespace ReleaseOperator.Contest

open InMemory Relation Program

variable {setup : Setup} {kind : Kind} {ns name : String} {trusted : Prop}
  {pending : Int → Prop} {r : Resource} {j : Job} {s t : Contest} {reason : Reason}

theorem Underway.withEntry (e : Entry) (h : Underway setup kind ns name trusted pending r j s)
    (he : e.generation = j.entry.generation) :
    Underway setup kind ns name trusted pending r { j with entry := e } s :=
  ⟨h.keyed, h.fair, h.fetched, h.place, h.release, fun htrust => he.trans (h.entry htrust),
    h.stored, h.inHand⟩

theorem ended_or {o : Outcome} {j' : Job} {P : Prop}
    (h : if o.requeue then Underway setup kind ns name trusted settledOnly r j s else P)
    (hentry : j'.entry = j.entry) :
    if o.requeue then Ended setup kind ns name trusted r j' s else P := by
  split
  · rename_i ho
    rw [if_pos ho] at h
    refine ⟨h.settled, ?_⟩
    rw [hentry]
    exact h.entry
  · rename_i ho
    rw [if_neg ho] at h
    exact h

/-! ### Recording -/

/-- A status that keeps the observed generation of the copy in hand stays honest. -/
theorem Underway.honest_kept {story : Story} {old w : Resource} {n : Nat}
    (h : Underway setup kind ns name trusted settledOnly r j s) (htrust : trusted)
    (hold : s.store.get? ns name = some old) (hsuffix : s.story <:+ story)
    (hobs : w.observedGeneration = j.resource.observedGeneration) :
    Honest story settledOnly (Store.withStatusOf old w n) := by
  obtain ⟨o, ho, houid, hogen, _⟩ := h.stored
  obtain rfl : old = o := Option.some.inj (hold.symm.trans ho)
  obtain ⟨c, _, _, _, hcobs, hckind, hckey, hcuid, hcgen, _, hchonest⟩ := h.inHand
  obtain ⟨hokind, hokey⟩ := h.keyed ns name old hold
  have hle := Story.editsInHand_le s.story
  intro g hg
  have hg' : c.observedGeneration = some g := by
    rw [← hcobs, ← hobs]
    exact hg
  have hgen : (Store.withStatusOf old w n).generation = old.generation := rfl
  obtain ⟨hlec, hfin⟩ := hchonest htrust g hg'
  rw [hgen]
  refine ⟨by omega, fun he => ?_⟩
  have hid : ObjectId.ofResource (Store.withStatusOf old w n) = ObjectId.ofResource c :=
    objectId_eq (hokind.trans hckind.symm) (hokey.trans hckey.symm) (houid.trans hcuid.symm)
  rw [hid]
  rcases hfin (by omega) with hf | ho | hp
  · exact Or.inl (hf.mono hsuffix)
  · exact Or.inr (Or.inl (ho.mono hsuffix))
  · exact hp.elim

theorem Underway.announce {detail : Option String}
    (h : Underway setup kind ns name trusted settledOnly r j s)
    (hreason : reason ∉ Reason.completions) :
    AlwaysFrom (conduct kind ns name) (Work.announce reason detail) j s
      (Goes setup kind ns name trusted r) := by
  rw [Work.always_announce]
  refine (h.quiet Pass.quiet_now).mono ?_
  rintro time s₁ ⟨h₁, _⟩
  split
  · have hpersist := h₁.persistStatus (j.noted reason detail time) settledOnly rfl rfl
      (fun latest a t _ ⟨reason', hmem, hends⟩ => by
        have hsame := endsIn_unique (j.endsIn_noted reason detail time) hends
        exact absurd (hsame ▸ hmem) hreason)
      (fun htrust latest old a t n ht hold =>
        ht.honest_kept htrust hold (List.suffix_cons _ _) rfl)
    refine hpersist.mono ?_
    rintro ⟨o, r'⟩ t ht
    exact ended_or ht rfl
  · rename_i hnews
    rw [Job.noted_eq_self (Bool.not_eq_true _ ▸ hnews)]
    exact h₁.goes

theorem Underway.fail {f : Failure} (h : Underway setup kind ns name trusted settledOnly r j s)
    (hreason : reason ∉ Reason.completions) :
    AlwaysFrom (conduct kind ns name) (Work.fail reason f) j s
      (Goes setup kind ns name trusted r) := by
  rw [Work.always_fail]
  refine (h.announce hreason).mono ?_
  intro o j' s' hgoes
  have hrequeue : Always (conduct kind ns name) (Pass.shortDelayWith f) s' fun o _ =>
      o.requeue = true := Pass.always_shortDelayWith fun _ _ _ => rfl
  refine (hrequeue.and (hgoes.ended.quiet (Pass.quiet_shortDelayWith f))).mono ?_
  rintro o' t ⟨ho', hended⟩
  rw [Goes, if_pos ho']
  exact hended

/-- What a completion records is the generation of the copy in hand. -/
theorem Underway.fair_concluded {reaches : Bool} {time : String} {latest : Resource}
    {a : Except ClusterError Resource}
    (h : Underway setup kind ns name trusted settledOnly r j s)
    (hreaches : reaches = true ∨ reason = .uninstallSucceeded) :
    Fair setup kind ns name (.asked
      (.store (.updateStatus (latest.copyStatus (Work.concluded j reason reaches time)))) a)
      s.story := by
  intro _
  obtain ⟨c, hc, hmeta, hspec, _, hckind, _, _, hcgen, _⟩ := h.inHand
  have hgen : j.resource.generation = c.generation := by
    rw [Resource.generation, hmeta]
    rfl
  refine ⟨r, c, h.fetched, hc, ?_, ?_, hcgen⟩
  · rw [← hgen]
    exact Work.observedGeneration_concluded j reason reaches time
  · intro hmodule hnot
    have hjkind : j.resource.kind = .module := by
      rw [Resource.kind, hspec]
      exact hckind.trans hmodule
    rcases hreaches with htrue | hun
    · subst htrue
      rw [← hgen]
      exact (Work.success_concluded j reason time hjkind).2
    · subst hun
      exact absurd (Work.endsIn_concluded j .uninstallSucceeded reaches time) hnot

/-- With a completion the generation of the entry is pending, unless an edit came in
between. -/
theorem Underway.honest_concluded {reaches : Bool} {time : String} {latest old : Resource}
    {a : Except ClusterError Resource} {n : Nat}
    (h : Underway setup kind ns name trusted settledOnly r j s)
    (hreason : reason ∈ Reason.completions) (hold : s.store.get? ns name = some old) :
    Honest (.asked
      (.store (.updateStatus (latest.copyStatus (Work.concluded j reason reaches time)))) a ::
        s.story) (fun g => g = r.generation)
      (Store.withStatusOf old (latest.copyStatus (Work.concluded j reason reaches time)) n) := by
  obtain ⟨o, ho, _, hogen, _⟩ := h.stored
  obtain rfl : old = o := Option.some.inj (hold.symm.trans ho)
  obtain ⟨c, hc, hmeta, _, _, _, _, _, hcgen, _⟩ := h.inHand
  have hle := Story.editsInHand_le s.story
  have hobs : (Store.withStatusOf old (latest.copyStatus (Work.concluded j reason reaches time))
      n).observedGeneration = some j.resource.generation :=
    Work.observedGeneration_concluded j reason reaches time
  have hgen : j.resource.generation = c.generation := by
    rw [Resource.generation, hmeta]
    rfl
  have hnew : (Store.withStatusOf old (latest.copyStatus (Work.concluded j reason reaches time))
      n).generation = old.generation := rfl
  intro g hg
  have hgj : j.resource.generation = g := Option.some.inj (hobs.symm.trans hg)
  rw [hnew]
  refine ⟨by omega, fun _ => ?_⟩
  by_cases hedits : s.story.editsInHand = 0
  · exact Or.inr (Or.inr (by omega))
  · refine Or.inr (Or.inl ⟨_, a, s.story, List.suffix_rfl, ?_, hedits⟩)
    exact ⟨reason, hreason, Work.endsIn_concluded j reason reaches time⟩

theorem Underway.conclude {reaches : Bool}
    (h : Underway setup kind ns name trusted settledOnly r j s)
    (hreason : reason ∈ Reason.completions)
    (hreaches : reaches = true ∨ reason = .uninstallSucceeded) :
    AlwaysFrom (conduct kind ns name) (Work.conclude reason reaches) j s fun o j' t =>
      if o.requeue then Ended setup kind ns name trusted r j' t
      else Underway setup kind ns name trusted (fun g => g = r.generation) r j' t := by
  rw [Work.always_conclude]
  refine (h.quiet Pass.quiet_now).mono ?_
  rintro time s₁ ⟨h₁, _⟩
  have hpersist := h₁.persistStatus (Work.concluded j reason reaches time)
    (fun g => g = r.generation) (Work.metadata_concluded j reason reaches time)
    (Work.spec_concluded j reason reaches time) (fun _ _ _ ht => ht.fair_concluded hreaches)
    (fun _ _ _ _ _ _ ht hold => ht.honest_concluded hreason hold)
  refine hpersist.mono ?_
  rintro ⟨o, r'⟩ t ht
  exact ended_or ht rfl

/-! ### Applying and removing a release -/

/-- The values of a job are resolved from the overrides of the copy in hand. -/
theorem Underway.values (h : Underway setup kind ns name trusted settledOnly r j s) :
    Always (conduct kind ns name) (j.values setup).run s fun v t =>
      Underway setup kind ns name trusted settledOnly r j t ∧
        ∀ documents, v = .ok documents → ∃ c resolved, t.story.inHand? = some c ∧
          Resolved kind ns name c resolved t.story ∧
          documents = (setup.baseValues j.release).toList ++ resolved := by
  obtain ⟨c, hc, hmeta, hspec, _⟩ := h.inHand
  have hns : j.resource.namespaceName = c.namespaceName := by
    rw [Resource.namespaceName, hmeta]
    rfl
  have hoverrides : j.resource.overrides = c.overrides := by
    rw [Resource.overrides, hspec]
    rfl
  rw [Job.values_run, hns, hoverrides, always_map]
  have hquiet := h.quiet (Pass.quiet_resolveFrom c.namespaceName 0 c.overrides)
  have hruns : Always (conduct kind ns name) (Sources.resolve c.namespaceName c.overrides).run s
      fun d t => Runs (conduct kind ns name) (Sources.resolve c.namespaceName c.overrides).run s
        d t := always_iff_runs.2 fun _ _ hrun => hrun
  refine (hquiet.and hruns).mono ?_
  rintro d t ⟨⟨hunder, _, hhand⟩, hrun⟩
  refine ⟨hunder, ?_⟩
  intro documents hd
  cases d with
  | error e => exact absurd hd (by simp [Except.map])
  | ok resolved =>
      refine ⟨c, resolved, hhand.trans hc, ⟨s, t, hrun, List.suffix_rfl⟩, ?_⟩
      exact (Except.ok.inj hd).symm

theorem Underway.handOver {documents : List Json} {credentials : Option Credentials}
    {c : Resource} {resolved : List Json}
    (h : Underway setup kind ns name trusted settledOnly r j s)
    (hc : s.story.inHand? = some c) (hresolved : Resolved kind ns name c resolved s.story)
    (hdocuments : documents = (setup.baseValues j.release).toList ++ resolved)
    (hreason : reason ∉ Reason.completions) :
    AlwaysFrom (conduct kind ns name) (Work.handOver reason documents credentials) j s
      (Goes setup kind ns name trusted r) := by
  rw [Work.always_handOver]
  rintro a t ⟨store, hans, hedits⟩
  obtain rfl : store = s.store := hans
  obtain ⟨c', hc', _, _, _, _, _, _, hcgen, hcspec, _⟩ := h.inHand
  obtain rfl : c = c' := Option.some.inj (hc.symm.trans hc')
  have happlied : AppliedFrom setup kind ns name
      ⟨j.release, credentials, Sources.render documents, false, false⟩ s.story r c :=
    ⟨h.fetched, hc, h.release, ⟨resolved, hresolved, by rw [hdocuments]⟩, hcgen, hcspec⟩
  have ht := (h.asked (a := a) (c := .helm (.upgradeOrInstall _)) ⟨r, c, happlied⟩ rfl).edits hedits
  cases a with
  | ok info => exact (ht.withEntry (j.entry.setDigest _) rfl).goes
  | error e => exact ht.fail hreason

theorem Underway.applyRelease (h : Underway setup kind ns name trusted settledOnly r j s)
    (hreason : reason ∉ Reason.completions) :
    AlwaysFrom (conduct kind ns name) (Work.applyRelease setup reason) j s
      (Goes setup kind ns name trusted r) := by
  rw [Work.always_applyRelease]
  refine h.values.mono ?_
  rintro v s₁ ⟨h₁, hdocuments⟩
  cases v with
  | error e => exact h₁.fail hreason
  | ok documents =>
      obtain ⟨c, resolved, hc, ⟨x, y, hrun, hsuffix⟩, hsplit⟩ := hdocuments documents rfl
      dsimp only
      split
      · exact (h₁.withEntry (j.entry.setDigest _) rfl).goes
      · refine (h₁.quiet (Pass.quiet_credentials _ _)).mono ?_
        rintro credentials s₂ ⟨h₂, hsuffix₂, hhand⟩
        cases credentials with
        | error e => exact h₂.fail hreason
        | ok credentials =>
            exact h₂.handOver (hhand.trans hc) ⟨x, y, hrun, hsuffix.trans hsuffix₂⟩ hsplit hreason

theorem Underway.hook (moment : HookMoment) (action : Action)
    (h : Underway setup kind ns name trusted settledOnly r j s) :
    AlwaysFrom (conduct kind ns name) (Work.hook moment action) j s
      (Goes setup kind ns name trusted r) := by
  rw [Work.hook, Work.always_about]
  refine (h.quiet (Pass.quiet_hook moment action j.release)).mono ?_
  rintro o t ⟨ht, _⟩
  exact ht.goes

theorem Underway.pinVersion (h : Underway setup kind ns name trusted settledOnly r j s) :
    AlwaysFrom (conduct kind ns name) (Work.pinVersion setup) j s
      (Goes setup kind ns name trusted r) := by
  rw [Work.always_pinVersion]
  refine (h.quiet (Pass.quiet_credentials _ _)).mono ?_
  rintro credentials s₁ ⟨h₁, _⟩
  cases credentials with
  | error e => exact h₁.fail (by decide)
  | ok credentials =>
      dsimp only
      intro a s₂ hmay
      have h₂ := h₁.quietCall rfl hmay
      cases a with
      | error e => exact h₂.fail (by decide)
      | ok version =>
          dsimp only
          obtain ⟨hkind, hns, hname⟩ := h₂.copyPlace rfl rfl
          have hwkind : (j.resource.setDesiredVersion version).kind = kind := by
            rw [← hkind]
            exact Resource.kind_setDesiredVersion j.resource version
          have hwkey : Store.keyOf (j.resource.setDesiredVersion version) = (ns, name) := by
            rw [Store.keyOf, Resource.namespaceName, Resource.name,
              Resource.metadata_setDesiredVersion]
            exact Prod.ext hns hname
          refine (h₂.persistResource hwkind hwkey).mono ?_
          rintro ⟨o, r'⟩ t ht
          have hentry : trusted → j.entry.generation = r.generation := h.entry
          dsimp only
          split
          · rename_i ho
            rw [Goes, if_pos ho]
            exact ⟨ht, hentry⟩
          · have hrequeue : Always (conduct kind ns name) Pass.shortDelay t fun o _ =>
                o.requeue = true := Pass.always_shortDelay fun _ _ _ => rfl
            refine (hrequeue.and (ht.quiet Pass.quiet_shortDelay)).mono ?_
            rintro o' t' ⟨ho', ht'⟩
            rw [Goes, if_pos ho']
            exact ⟨ht', hentry⟩

theorem Underway.preInstall (h : Underway setup kind ns name trusted settledOnly r j s) :
    AlwaysFrom (conduct kind ns name) (Work.preInstall setup) j s
      (Goes setup kind ns name trusted r) := by
  rw [Work.always_preInstall]
  split
  · exact h.pinVersion
  · exact h.hook .preWork .install

theorem Underway.delayWith (f : Failure)
    (h : Underway setup kind ns name trusted settledOnly r j s) :
    Always (conduct kind ns name) (Pass.shortDelayWith f) s fun o t =>
      Goes setup kind ns name trusted r o j t := by
  refine (h.quiet (Pass.quiet_shortDelayWith f)).mono ?_
  rintro o t ⟨ht, _⟩
  exact ht.goes

theorem Underway.install (h : Underway setup kind ns name trusted settledOnly r j s) :
    AlwaysFrom (conduct kind ns name) (Work.install setup) j s
      (Goes setup kind ns name trusted r) := by
  rw [Work.always_install]
  split
  · exact h.applyRelease (by decide)
  · intro a t hmay
    have ht := h.quietCall rfl hmay
    cases a with
    | error e => exact ht.delayWith _
    | ok info =>
        dsimp only
        split
        · exact ht.goes
        · exact ht.applyRelease (by decide)

theorem Underway.uninstall (h : Underway setup kind ns name trusted settledOnly r j s) :
    AlwaysFrom (conduct kind ns name) (Work.uninstall setup) j s
      (Goes setup kind ns name trusted r) := by
  rw [Work.always_uninstall]
  split
  · exact h.goes
  · intro a t hmay
    have ht := h.quietCall rfl hmay
    rcases a with e | _ | info
    · exact ht.delayWith _
    · exact ht.goes
    · rintro a' t' ⟨store, hans, hedits⟩
      obtain rfl : store = t.store := hans
      have ht' := (ht.asked (a := a') (c := .helm (.uninstall _ _ _)) trivial rfl).edits hedits
      cases a' with
      | ok u => exact ht'.goes
      | error e => exact ht'.fail (by decide)

end ReleaseOperator.Contest
