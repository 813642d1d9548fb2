import ReleaseOperator.Proofs.Renewal.Update
import ReleaseOperator.Proofs.Generations

/-!
# The standing of an entry

An entry is at the disposal of one pass after the other. Its standing between two passes is the
memory together with the merge last applied under the entry and the baseline that stands in
until there is one; both are told from the stories of the passes. What the entry remembers is
the digest of what it stands for, and an update that is under way stays one for as long as the
merge stays the same.
-/

namespace ReleaseOperator

open InMemory Program Work

/-!
## The work on a module with a finished entry

When the work of an entry is finished, the work on the module begins with the question whether
its values have changed. Only if they have is there an update. Either way the entry remembers
what it has to: the merge that was applied last, or else the baseline.
-/

theorem Entry.setDigest_eq_self {e : Entry} {d : String} (h : e.digest = some d) :
    e.setDigest d = e := by
  rcases e with ⟨_, _, _, digest, _⟩
  obtain rfl : digest = some d := h
  rfl

namespace Renewal

section OnePass

variable {v : Contents} {trouble : Prop} {setup : Setup} {r : Resource} {e : Entry}
  {j : Job} {s t : Contest} {merge basis : Option Json} {now : Json} {digest : Option String}

/-- What a pass begins with on a module: it was found, and nothing else has happened. -/
structure Begun (setup : Setup) (r : Resource) (e : Entry) (merge : Option Json) (s : Contest) :
    Prop where
  attuned : Attuned setup r (.start setup r e) s
  quiet : s.story.IsQuiet
  untouched : s.story.Untouched merge

/-- The question whether values have changed changes nothing itself. -/
theorem isQuiet_valuesChanged (hquiet : s.story.IsQuiet) :
    AlwaysFrom (conduct v trouble) (valuesChanged setup) j s fun _ _ (t : Contest) =>
      t.store = s.store ∧ t.story.IsQuiet := by
  rw [Work.always_valuesChanged]
  split
  · exact ⟨rfl, hquiet⟩
  · refine (always_isQuiet (Pass.quiet_valuesDigest setup j) hquiet).mono ?_
    rintro (failure | desired) s₁ ⟨hstore₁, hquiet₁⟩
    · refine (always_isQuiet (Pass.quiet_shortDelayWith _) hquiet₁).mono ?_
      rintro o s₂ ⟨hstore₂, hquiet₂⟩
      exact ⟨hstore₂.trans hstore₁, hquiet₂⟩
    · refine (always_isQuiet (Pass.quiet_appliedDigest setup j desired) hquiet₁).mono ?_
      rintro (o | applied) s₂ ⟨hstore₂, hquiet₂⟩
      · exact ⟨hstore₂.trans hstore₁, hquiet₂⟩
      · exact ⟨hstore₂.trans hstore₁, hquiet₂⟩

/-- The answer to the question, the store being as it was. -/
theorem Begun.decided (h : Begun setup r e merge s) (hmerge : v.merge? setup r = merge)
    (hlive : setup.dryRun = false) (hselects : r.selectsUpdate = true)
    (hdigest : e.digest = basis.map Values.digest) :
    AlwaysFrom (conduct v trouble) (valuesChanged setup) (.start setup r e) s fun d j t =>
      Decided setup r e merge basis trouble d j t ∧ t.store = s.store ∧ t.story.IsQuiet := by
  subst hmerge
  exact (Renewal.decided h.attuned hlive hselects hdigest h.untouched).and
    (isQuiet_valuesChanged h.quiet)

/-- A module whose status does not select an update is not asked about. -/
theorem always_valuesChanged_of_not (h : r.selectsUpdate = false)
    (post : Except Outcome Bool → Job → Contest → Prop) (hpost : post (.ok false) j s)
    (hresource : j.resource = r) :
    AlwaysFrom (conduct v trouble) (valuesChanged setup) j s post := by
  rw [Work.always_valuesChanged, hresource, h, if_pos (by simp)]
  exact hpost

/-! ### What the entry remembers -/

/-- The entry remembers a digest, until a release is applied, and then that of the merge. -/
def Remembering (merge : Option Json) (digest : Option String) (e : Entry) (es : Story) : Prop :=
  if es.any Event.applies then ∃ now, merge = some now ∧ e.digest = some (Values.digest now)
  else e.digest = digest

theorem carried_remembering (merge : Option Json) (digest : Option String) :
    Carried merge (Remembering merge digest) where
  asked happlies h := by
    unfold Remembering at h ⊢
    rw [List.any_cons, happlies, Bool.false_or]
    exact h
  entry _ _ hdigest h := by
    unfold Remembering at h ⊢
    rw [hdigest]
    exact h
  applied hnow _ := ⟨_, hnow, rfl⟩

theorem remembering_runPinned (h : Holding setup r (Remembering merge digest) j s)
    (hlive : setup.dryRun = false) (hmerge : v.merge? setup r = merge) :
    AlwaysFrom (conduct v trouble) (runPinned setup) j s fun _ j' t =>
      Remembering merge digest j'.entry t.story := by
  have hcarried := carried_remembering merge digest
  have U : Upheld (conduct v trouble) setup (fun _ => True)
      (Holding setup r (Remembering merge digest))
      (fun e s => Remembering merge digest e s.story) :=
    holding_upheld hlive (hmerge ▸ hcarried)
  have hunstaged : Upheld.Unstaged (Holding setup r (Remembering merge digest)) :=
    fun _ _ st h => ⟨h.attuned.withEntry _, h.holds⟩
  have hperform : ∀ {j : Job} {s : Contest} {a : Action},
      Holding setup r (Remembering merge digest) j s →
      AlwaysFrom (conduct v trouble) (Work.perform setup a) j s fun _ j' t =>
        Remembering merge digest j'.entry t.story := fun h =>
    (U.perform Upheld.recordsAll_true hunstaged h _).mono fun _ _ _ hgoes =>
      U.halted_of_proceeds hgoes
  rw [Work.always_runPinned]
  split
  · exact hperform h
  · refine (h.always hcarried (Pass.quiet_chooseAction j)).mono ?_
    rintro (o | a) t ht
    · exact ht.holds
    · have hpinned : Holding setup r (Remembering merge digest)
          { j with entry := j.entry.pin a } t := ⟨ht.attuned.withEntry _, ht.holds⟩
      exact hperform hpinned

/-- What the entry has to remember after a pass: what it knew or, if it was finished and knew
nothing, the first baseline of the pass. -/
def recalled (e : Entry) (basis merge : Option Json) (es : Story) : Option Json :=
  basis.or (if e.stage = .finish then es.baseline? merge else none)

/-- A pass that leaves Helm untouched leaves the entry to remember what it did. -/
theorem remembering_of_untouched {es : Story} (h : es.Untouched merge)
    (hdigest : e.digest = basis.map Values.digest) :
    Remembering merge ((recalled e basis merge es).map Values.digest) e es := by
  rw [Remembering, if_neg (by rw [h.applies]; exact Bool.false_ne_true), recalled, h.baseline,
    ite_self, Option.or_none]
  exact hdigest

theorem remembering_live_of_finish (h : Begun setup r e merge s)
    (hmerge : v.merge? setup r = merge) (hlive : setup.dryRun = false) (hstage : e.stage = .finish)
    (hdigest : e.digest = basis.map Values.digest) :
    AlwaysFrom (conduct v trouble) (Work.live setup) (.start setup r e) s fun _ j t =>
      Remembering merge ((recalled e basis merge t.story).map Values.digest) j.entry t.story := by
  have hentry : (Job.start setup r e).entry = e := rfl
  rw [Work.always_live, hentry, if_pos hstage]
  cases hselects : r.selectsUpdate with
  | false =>
      exact always_valuesChanged_of_not hselects _ (remembering_of_untouched h.untouched hdigest)
        rfl
  | true =>
      refine (h.decided hmerge hlive hselects hdigest).mono ?_
      rintro d j t ⟨hd, hstore, hquiet⟩
      cases hd with
      | hindered untouched why => exact remembering_of_untouched untouched hdigest
      | @judged b now _ merged held =>
          have hrecalled : ∀ {es : Story}, t.story <:+ es → recalled e basis merge es = some b := by
            intro es hsuffix
            rw [recalled, if_pos hstage]
            exact Story.or_baseline?_of_suffix hsuffix held
          have hremembers : Remembering merge (some (Values.digest b))
              (e.setDigest (Values.digest b)) t.story := by
            rw [Remembering, if_neg hquiet.not_applies]
            rfl
          by_cases hchanged : Values.digest b ≠ Values.digest now
          · rw [decide_eq_true hchanged]
            have hrearmed : Holding setup r (Remembering merge (some (Values.digest b)))
                (Job.start setup r ((e.setDigest (Values.digest b)).pin .update).rearm) t :=
              ⟨(h.attuned.same hstore).withEntry _, hremembers⟩
            refine ((remembering_runPinned hrearmed hlive hmerge).and
              (alwaysFrom_suffix _)).mono ?_
            rintro o j' t' ⟨ht', hsuffix⟩
            rw [hrecalled hsuffix]
            exact ht'
          · rw [decide_eq_false hchanged]
            dsimp only
            rw [hrecalled List.suffix_rfl]
            exact hremembers

theorem remembering_live (h : Begun setup r e merge s) (hmerge : v.merge? setup r = merge)
    (hlive : setup.dryRun = false) (hdigest : e.digest = basis.map Values.digest) :
    AlwaysFrom (conduct v trouble) (Work.live setup) (.start setup r e) s fun _ j t =>
      Remembering merge ((recalled e basis merge t.story).map Values.digest) j.entry t.story := by
  by_cases hstage : e.stage = .finish
  · exact remembering_live_of_finish h hmerge hlive hstage hdigest
  · have hentry : (Job.start setup r e).entry = e := rfl
    rw [Work.always_live, hentry, if_neg hstage]
    have hrecalled : ∀ es, recalled e basis merge es = basis := by
      intro es
      rw [recalled, if_neg hstage, Option.or_none]
    have hremembers := remembering_of_untouched h.untouched hdigest
    rw [hrecalled] at hremembers
    refine (remembering_runPinned ⟨h.attuned, hremembers⟩ hlive hmerge).mono fun _ _ t ht => ?_
    rw [hrecalled]
    exact ht

/-! ### Whether there is an update -/

/-- Where nothing but Helm can fail a finished module whose status selects an update hands its
release over exactly when its merge differs from what the entry remembers; and then the entry
is that of an update. -/
theorem handed_live_iff (h : Begun setup r e (some now) s) (hmerge : v.merge? setup r = some now)
    (hgrants : v.Grants setup r) (hlive : setup.dryRun = false) (hstage : e.stage = .finish)
    (hselects : r.selectsUpdate = true) (hdigest : e.digest = basis.map Values.digest) :
    AlwaysFrom (conduct v False) (Work.live setup) (.start setup r e) s fun _ j t =>
      (Handed t ↔ ∃ b, basis.or (t.story.baseline? (some now)) = some b ∧
        Values.digest b ≠ Values.digest now) ∧ (Handed t → Renewing now j.entry) := by
  have hentry : (Job.start setup r e).entry = e := rfl
  rw [Work.always_live, hentry, if_pos hstage]
  refine (h.decided hmerge hlive hselects hdigest).mono ?_
  rintro d j t ⟨hd, hstore, hquiet⟩
  have hnot : ¬ Handed t := hquiet.not_handsOver
  cases hd with
  | hindered untouched why =>
      refine ⟨⟨fun hhanded => absurd hhanded hnot, ?_⟩, fun hhanded => absurd hhanded hnot⟩
      rintro ⟨b, hb, _⟩
      rcases why with hfalse | hnone | rfl
      · exact hfalse.elim
      · exact absurd hnone (by simp)
      · rw [untouched.baseline] at hb
        exact absurd hb (by simp)
  | @judged b now' _ merged held =>
      obtain rfl := Option.some.inj merged
      by_cases hchanged : Values.digest b ≠ Values.digest now
      · rw [decide_eq_true hchanged]
        dsimp only
        rw [Work.always_runPinned]
        have hattuned : Attuned setup r
            (Job.start setup r ((e.setDigest (Values.digest b)).pin .update).rearm) t :=
          (h.attuned.same hstore).withEntry _
        have hrenewing : Renewing now ((e.setDigest (Values.digest b)).pin .update).rearm :=
          ⟨rfl, fun hpast => absurd hpast (Nat.not_lt_zero _)⟩
        refine (((handed_perform hattuned hlive hmerge hgrants rfl).and
          (renewing_perform hattuned hlive hmerge hrenewing)).and (alwaysFrom_suffix _)).mono ?_
        rintro o j' t' ⟨⟨hhanded, hrenewed⟩, hsuffix⟩
        have hheld := Story.or_baseline?_of_suffix hsuffix held
        exact ⟨⟨fun _ => ⟨b, hheld, hchanged⟩, fun _ => hhanded⟩, fun _ => hrenewed⟩
      · rw [decide_eq_false hchanged]
        refine ⟨⟨fun hhanded => absurd hhanded hnot, ?_⟩, fun hhanded => absurd hhanded hnot⟩
        rintro ⟨b', hb', hdiffers⟩
        obtain rfl := Option.some.inj (held.symm.trans hb')
        exact absurd hdiffers hchanged

/-- Nothing is done for a finished module whose entry remembers its merge, and the entry stays
as it is. -/
theorem settled_live (h : Begun setup r e (some now) s) (hmerge : v.merge? setup r = some now)
    (hlive : setup.dryRun = false) (hstage : e.stage = .finish)
    (hdigest : e.digest = some (Values.digest now)) :
    AlwaysFrom (conduct v trouble) (Work.live setup) (.start setup r e) s fun o j (t : Contest) =>
      j.entry = e ∧ t.store = s.store ∧ t.story.IsQuiet ∧ (¬ trouble → o = .done) := by
  have hentry : (Job.start setup r e).entry = e := rfl
  rw [Work.always_live, hentry, if_pos hstage]
  cases hselects : r.selectsUpdate with
  | false =>
      exact always_valuesChanged_of_not hselects _ ⟨rfl, rfl, h.quiet, fun _ => rfl⟩ rfl
  | true =>
      have hremembers : e.digest = (some now).map Values.digest := hdigest
      refine (h.decided hmerge hlive hselects hremembers).mono ?_
      rintro d j t ⟨hd, hstore, hquiet⟩
      cases hd with
      | hindered untouched why =>
          refine ⟨rfl, hstore, hquiet, fun hno => ?_⟩
          rcases why with htrouble | hnone | hnone
          · exact absurd htrouble hno
          · exact absurd hnone (by simp)
          · exact absurd hnone (by simp)
      | @judged b now' _ merged held =>
          obtain rfl := Option.some.inj merged
          obtain rfl := Option.some.inj held
          rw [decide_eq_false (fun hne => hne rfl)]
          exact ⟨Entry.setDigest_eq_self hdigest, hstore, hquiet, fun _ => rfl⟩

/-- An update that is under way goes on to remember the merge as long as that stays the same. -/
theorem renewing_live (h : Begun setup r e (some now) s) (hmerge : v.merge? setup r = some now)
    (hlive : setup.dryRun = false) (he : Renewing now e) :
    AlwaysFrom (conduct v trouble) (Work.live setup) (.start setup r e) s fun _ j _ =>
      Renewing now j.entry := by
  by_cases hstage : e.stage = .finish
  · have hdigest := he.2 (by rw [hstage]; decide)
    refine (settled_live h hmerge hlive hstage hdigest).mono ?_
    rintro o j t ⟨hj, _⟩
    rw [hj]
    exact he
  · have hentry : (Job.start setup r e).entry = e := rfl
    rw [Work.always_live, hentry, if_neg hstage, Work.always_runPinned, hentry, he.1]
    exact renewing_perform h.attuned hlive hmerge he

end OnePass

/-! ## One pass after the other -/

open Relation

/-- The store holds a resource of an object in a generation, which is not being deleted. -/
structure Finds (id : ObjectId) (g : Int) (store : Store) (r : Resource) : Prop where
  keyed : store.Keyed .module
  stored : store.get? id.namespaceName id.name = some r
  identity : ObjectId.ofResource r = id
  generation : r.generation = g
  stays : r.isDeleting = false

/-- The memory, the merge last applied under an entry, and the baseline for as long as there is
none. -/
structure Standing where
  memory : Memory
  applied : Option Json
  baseline : Option Json

/-- The pass over a module of an object. -/
def pass (setup : Setup) (id : ObjectId) : Reconcile (Except PassError Outcome) :=
  reconcile setup .module id.namespaceName id.name

namespace Standing

/-- What the merge of the module is held against. -/
def basis (x : Standing) : Option Json := x.applied.or x.baseline

/-- The entry of a generation of an object. -/
def entry? (x : Standing) (id : ObjectId) (g : Int) : Option Entry :=
  x.memory.lifecycle.get? id g

/-- The work of the entry is finished. -/
def isFinished (x : Standing) (id : ObjectId) (g : Int) : Bool :=
  (x.entry? id g).any fun e => e.stage = .finish

/-- The standing after a pass with a merge. Nothing but a pass that begins with a finished entry
gives a baseline. -/
def after (x : Standing) (id : ObjectId) (g : Int) (merge : Option Json) (m : Memory)
    (story : Story) : Standing :=
  ⟨m, if story.any Event.applies then merge else x.applied,
    x.baseline.or (if x.isFinished id g then story.baseline? merge else none)⟩

@[simp] theorem memory_after (x : Standing) (id : ObjectId) (g : Int) (merge : Option Json)
    (m : Memory) (story : Story) : (x.after id g merge m story).memory = m := rfl

end Standing

/-- What may come between: a pass over the module in this generation, with a merge of a given
kind and whatever failures, or something that leaves the entry alone. A pass with which the
entry comes to be has nothing to stand on. -/
inductive Turn (id : ObjectId) (g : Int) (merges : Option Json → Prop) :
    Standing → Standing → Prop
  | passed {setup : Setup} {v : Contents} {store : Store} {r : Resource}
      {result : Except PassError Outcome × Memory} {t : Contest} {x : Standing}
      (live : setup.dryRun = false) (found : Finds id g store r)
      (merge : merges (v.merge? setup r)) (new : x.entry? id g = none → x.basis = none)
      (run : Runs (conduct v True) ((pass setup id).run x.memory) ⟨store, []⟩ result t) :
      Turn id g merges x (x.after id g (v.merge? setup r) result.2 t.story)
  | aside {x : Standing} {m : Memory} (same : m.lifecycle.get? id g = x.entry? id g) :
      Turn id g merges x { x with memory := m }

variable {v : Contents} {trouble : Prop} {setup : Setup} {id : ObjectId} {g : Int} {store : Store}
  {r : Resource} {m : Memory} {e : Entry} {x y : Standing} {merge : Option Json} {now : Json}
  {merges : Option Json → Prop}

/-! ### Opening a pass -/

theorem Finds.begun (h : Finds id g store r) (e : Entry) (merge : Option Json) :
    Begun setup r e merge
      ⟨store, [.asked (.store (.get .module id.namespaceName id.name)) (.ok (some r))]⟩ := by
  obtain ⟨hkeyed, hstored, rfl, -, -⟩ := h
  have hmatch := Resource.Matches.refl r
  refine ⟨⟨hkeyed, ⟨r, hstored, hmatch⟩, hmatch, rfl⟩, Story.isQuiet_nil.asked rfl,
    (Story.untouched_nil merge).asked rfl⟩

theorem apart_shortDelay : Asks (fun c => c.isHelm = false) Pass.shortDelay :=
  ⟨rfl, fun _ => trivial⟩

theorem apart_persistResource (w : Resource) :
    Asks (fun c => c.isHelm = false) (Pass.persistResource w) := by
  refine ⟨rfl, ?_⟩
  rintro (e | new)
  · have hrefused : Asks (fun c => c.isHelm = false) (Pass.refused e) := by
      unfold Pass.refused
      split
      · exact apart_shortDelay
      · exact apart_shortDelayWith
    exact hrefused.bind fun _ => trivial
  · exact trivial

/-- A pass over a module that stays: either the memory stays as it is and Helm is not asked, or
the work on the module leads to what is to be shown. -/
theorem always_pass (hfound : Finds id g store r) (merge : Option Json)
    {post : Except PassError Outcome → Memory → Contest → Prop}
    (idle : ∀ result (t : Contest), t.story.Untouched merge → post result m t)
    (works : ∀ s, Begun setup r (m.lifecycle.ensure id g .start).1 merge s → s.store = store →
      AlwaysFrom (conduct v trouble) (Work.live setup)
        (.start setup r (m.lifecycle.ensure id g .start).1) s fun o j t =>
          post (.ok o) { m with lifecycle :=
            (m.lifecycle.ensure id g .start).2.record id g j.entry } t) :
    AlwaysFrom (conduct v trouble) (pass setup id) m ⟨store, []⟩ post := by
  rw [pass, always_reconcile]
  intro a s hmay
  have hstore : s.store = store := store_of_isQuiet rfl hmay
  have hstory := story_of_may hmay
  rcases (kept_of_may hmay).2 with rfl | ⟨-, e, rfl⟩
  · have hstored : (⟨store, []⟩ : Contest).store.get? id.namespaceName id.name = some r :=
      hfound.stored
    rw [hstored] at hstory ⊢
    have hbegun : ∀ e, Begun setup r e merge s := by
      intro e
      obtain ⟨sstore, sstory⟩ := s
      obtain rfl : sstore = store := hstore
      obtain rfl := hstory
      exact hfound.begun e merge
    have huntouched := (hbegun (.fresh g .start)).untouched
    have hidentity := hfound.identity
    dsimp only
    split
    · exact idle _ _ huntouched
    · rw [Reconcile.always_found, hfound.stays, if_neg Bool.false_ne_true]
      split
      · exact idle _ _ huntouched
      · rw [Pass.always_ensureFinalizer]
        split
        · dsimp only
          rw [Reconcile.always_live, hidentity, hfound.generation]
          exact works s (hbegun _) hstore
        · refine (always_untouched (apart_persistResource _) huntouched).mono ?_
          rintro ⟨o, w⟩ t ht
          dsimp only
          split
          · exact idle _ _ ht
          · exact (always_untouched apart_shortDelay ht).mono fun _ _ ht' => idle _ _ ht'
  · refine (always_untouched apart_shortDelayWith ?_).mono fun o t ht => idle _ _ ht
    rw [hstory]
    exact (Story.untouched_nil merge).asked rfl

/-! ### What the entry stands for -/

theorem Standing.finished (h : x.isFinished id g = true) :
    ∃ e, x.entry? id g = some e ∧ e.stage = .finish := by
  obtain ⟨e, he, hstage⟩ := (Option.any_eq_true _ _).1 h
  exact ⟨e, he, of_decide_eq_true hstage⟩

/-- What the entry remembers, if there is one, is the digest of what it stands for. -/
def Standing.Remembers (x : Standing) (id : ObjectId) (g : Int) : Prop :=
  ∀ e, x.entry? id g = some e → e.digest = x.basis.map Values.digest

/-- The entry that a pass works on. -/
theorem digest_ensure (hx : x.Remembers id g) (hnew : x.entry? id g = none → x.basis = none) :
    (x.memory.lifecycle.ensure id g .start).1.digest = x.basis.map Values.digest := by
  rw [Tracker.ensure_fst]
  cases hentry : x.memory.lifecycle.get? id g with
  | some e => exact hx e hentry
  | none =>
      rw [hnew hentry]
      rfl

theorem stage_ensure_iff (x : Standing) (id : ObjectId) (g : Int) :
    (x.memory.lifecycle.ensure id g .start).1.stage = .finish ↔ x.isFinished id g = true := by
  rw [Tracker.ensure_fst, Standing.isFinished, Standing.entry?]
  cases x.memory.lifecycle.get? id g with
  | some e => exact (decide_eq_true_iff).symm
  | none => exact ⟨fun h => absurd h Stage.noConfusion, fun h => absurd h Bool.false_ne_true⟩

theorem basis_after (x : Standing) (id : ObjectId) (g : Int) (merge : Option Json) (m : Memory)
    (es : Story) :
    (x.after id g merge m es).basis = if es.any Event.applies then
        merge.or (x.after id g merge m es).baseline
      else recalled (x.memory.lifecycle.ensure id g .start).1 x.basis merge es := by
  rw [Standing.basis, recalled, Standing.basis, Option.or_assoc]
  simp only [Standing.after, stage_ensure_iff]
  split
  · rfl
  · rfl

theorem Turn.remembers (h : Turn id g merges x y) (hx : x.Remembers id g) : y.Remembers id g := by
  cases h with
  | aside same => exact fun e he => hx e (same ▸ he)
  | @passed setup v store r result t _ live found _ new run =>
      have hpost : AlwaysFrom (conduct v True) (pass setup id) x.memory ⟨store, []⟩
          fun _ m t => (x.after id g (v.merge? setup r) m t.story).Remembers id g := by
        refine always_pass found (v.merge? setup r) ?_ ?_
        · intro _ t ht e he
          rw [basis_after, if_neg (by rw [ht.applies]; exact Bool.false_ne_true), recalled,
            ht.baseline, ite_self, Option.or_none]
          exact hx e he
        · intro s hbegun _
          refine (remembering_live hbegun rfl live (digest_ensure hx new)).mono ?_
          intro o j t hremembers e he
          obtain rfl := Tracker.get?_record_self he
          rw [basis_after]
          unfold Remembering at hremembers
          split at hremembers
          · rename_i happlies
            obtain ⟨now, hmerge, hdigest⟩ := hremembers
            rw [if_pos happlies, hmerge]
            exact hdigest
          · rename_i hnone
            rw [if_neg hnone]
            exact hremembers
      exact always_iff_runs.1 hpost _ _ run

/-- An entry stands for what the passes over the module have made of it since it came to be. -/
theorem remembers_of_history (hnew : m.lifecycle.get? id g = none)
    (h : ReflTransGen (Turn id g merges) ⟨m, none, none⟩ x) : x.Remembers id g := by
  induction h with
  | refl =>
      intro e he
      have hkept : m.lifecycle.get? id g = some e := he
      rw [hnew] at hkept
      exact absurd hkept (by simp)
  | tail _ hturn ih => exact hturn.remembers ih

/-! ### An update under way -/

/-- The entry is there, and it is that of an update that remembers a merge once it is past the
applying. -/
def Standing.Renews (x : Standing) (id : ObjectId) (g : Int) (now : Json) : Prop :=
  ∃ e, x.entry? id g = some e ∧ Renewing now e

theorem Turn.renews (h : Turn id g (fun merge => merge = some now) x y)
    (hx : x.Renews id g now) : y.Renews id g now := by
  obtain ⟨e, he, hrenewing⟩ := hx
  cases h with
  | aside same => exact ⟨e, same.trans he, hrenewing⟩
  | @passed setup v store r result t _ live found merge new run =>
      have hensure : x.memory.lifecycle.ensure id g .start = (e, x.memory.lifecycle) :=
        Tracker.ensure_of_get? he
      have hpost : AlwaysFrom (conduct v True) (pass setup id) x.memory ⟨store, []⟩
          fun _ m t => (x.after id g (v.merge? setup r) m t.story).Renews id g now := by
        refine always_pass found (some now) (fun _ _ _ => ⟨e, he, hrenewing⟩) ?_
        intro s hbegun _
        rw [hensure] at hbegun ⊢
        refine (renewing_live hbegun merge live hrenewing).mono ?_
        intro o j t hj
        exact ⟨j.entry, Tracker.get?_record_of_get? he j.entry, hj⟩
      exact always_iff_runs.1 hpost _ _ run

theorem renews_of_turns (hx : x.Renews id g now)
    (h : ReflTransGen (Turn id g fun merge => merge = some now) x y) : y.Renews id g now := by
  induction h with
  | refl => exact hx
  | tail _ hturn ih => exact hturn.renews ih

end Renewal

end ReleaseOperator
