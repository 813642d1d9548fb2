import ReleaseOperator.Proofs.Commuting.Twins
import ReleaseOperator.Proofs.Operations
import ReleaseOperator.Proofs.Invariants

/-!
# Work in two worlds

The same work on two copies of a job, each in a world of its own: as long as the worlds agree
on the site of the job, every operation has like outcomes and leaves jobs and worlds that
agree. An operation is its own twin, and a run of stages is one because its stages are.
-/

namespace ReleaseOperator

/-!
## Writes in two worlds

Two copies in hand, one in each of two worlds that agree on their site, are read and written
alike: a pass writes what it has read last, so it meets no conflict in either world, and the
revisions that the writes get stay out of the outcome.
-/

open InMemory Program

variable {H : Type} {rules : Rules H} {x : Site} {s t s₀ t₀ : Commons H} {r r' : Resource}

theorem Site.Hand.addFinalizer (h : x.Hand s₀ t₀ r r' s t) :
    x.Hand s₀ t₀ r.addFinalizer r'.addFinalizer s t := by
  refine h.change ?_ ?_ ?_ ?_ ?_
  · rw [Resource.bare_addFinalizer, Resource.bare_addFinalizer, h.like]
  all_goals
    unfold Resource.addFinalizer
    split
    · rfl
    · rfl

namespace Pass

/-- What is read at a site in two worlds: the same refusal, or what is stored there. -/
theorem paired_get {kind kind' : Kind} {ns ns' name name' : String}
    (hy : (⟨kind, ns, name⟩ : Address) = x.address)
    (hy' : (⟨kind', ns', name'⟩ : Address) = x.address) :
    Paired rules.conduct (get kind ns name) s (get kind' ns' name') t fun a u a' u' =>
      u = s ∧ u' = t ∧ ((∃ e, a = .error e ∧ a' = .error e) ∨
        a = .ok (s.find x.address) ∧ a' = .ok (t.find x.address)) := by
  rintro a u ⟨ha, hu⟩ a' u' ⟨ha', hu'⟩
  refine ⟨hu, hu', ?_⟩
  rw [hy] at ha
  rw [hy'] at ha'
  cases hrefusal : rules.refusal .get x.address with
  | some e =>
      rw [hrefusal] at ha ha'
      exact Or.inl ⟨e, ha, ha'⟩
  | none =>
      rw [hrefusal] at ha ha'
      exact Or.inr ⟨ha, ha'⟩

theorem paired_update (h : x.Hand s₀ t₀ r r' s t) :
    Paired rules.conduct (update r) s (update r') t fun a u a' u' =>
      x.Written s₀ t₀ s t a u a' u' := by
  intro a u hu a' u' hu'
  have hu : (a, u) = s.write _ r.kind ((s.store r.kind).update r) := hu
  have hu' : (a', u') = t.write _ r'.kind ((t.store r'.kind).update r') := hu'
  rw [Store.update_eq_revise] at hu hu'
  rw [← h.holds.1.trans (h.holds.of_bare h.like).1.symm] at hu'
  refine h.written (fun o o' hbare => Store.bare_merged hbare h.like _ _) ?_ (fun _ => rfl)
    (fun _ => rfl) (fun _ => rfl) hu hu'
  exact fun o _ => h.holds

theorem paired_updateStatus (h : x.Hand s₀ t₀ r r' s t) :
    Paired rules.conduct (updateStatus r) s (updateStatus r') t fun a u a' u' =>
      x.Written s₀ t₀ s t a u a' u' := by
  intro a u hu a' u' hu'
  have hu : (a, u) = s.write _ r.kind ((s.store r.kind).updateStatus r) := hu
  have hu' : (a', u') = t.write _ r'.kind ((t.store r'.kind).updateStatus r') := hu'
  rw [Store.updateStatus_eq_revise] at hu hu'
  rw [← h.holds.1.trans (h.holds.of_bare h.like).1.symm] at hu'
  refine h.written (fun o o' hbare => Store.bare_withStatusOf hbare h.like _ _) ?_ (fun _ => rfl)
    (fun _ => rfl) (fun _ => rfl) hu hu'
  exact fun o ho => ho

/-- A write of a copy in hand goes alike in two worlds: it has like outcomes and leaves copies
in hand. -/
def TwinWrite (rules : Rules H) (x : Site) (s₀ t₀ : Commons H)
    (write : Resource → Pass (Outcome × Resource)) : Prop :=
  ∀ r r' s t, x.Hand s₀ t₀ r r' s t →
    Paired rules.conduct (write r) s (write r') t fun or u or' u' =>
      or.1.Like or'.1 ∧ x.Hand s₀ t₀ or.2 or'.2 u u'

/-- An outcome that comes without a write leaves the copies as they are. -/
theorem paired_unwritten {p : Pass Outcome}
    (hp : Twin rules (x.Hand s₀ t₀ r r') p p Outcome.Like) (h : x.Hand s₀ t₀ r r' s t) :
    Paired rules.conduct (do return (← p, r)) s (do return (← p, r')) t fun or u or' u' =>
      or.1.Like or'.1 ∧ x.Hand s₀ t₀ or.2 or'.2 u u' :=
  paired_bind ((hp s t h).mono fun _ _ _ _ h' => h')

theorem paired_afterWrite {u u' : Commons H} {a a' : Except ClusterError Resource}
    (h : x.Hand s₀ t₀ r r' s t) (hw : x.Written s₀ t₀ s t a u a' u') :
    Paired rules.conduct (afterWrite r a) u (afterWrite r' a') u' fun or v or' v' =>
      or.1.Like or'.1 ∧ x.Hand s₀ t₀ or.2 or'.2 v v' := by
  rcases hw with ⟨e, rfl, rfl, rfl, rfl⟩ | ⟨new, new', rfl, rfl, hnew⟩
  · exact paired_unwritten (twin_refused e) h
  · exact ⟨rfl, hnew⟩

theorem twin_persistResource : TwinWrite rules x s₀ t₀ persistResource := by
  intro r r' s t h
  exact paired_bind ((paired_update h).mono fun _ _ _ _ hw => paired_afterWrite h hw)

theorem twin_persistStatus : TwinWrite rules x s₀ t₀ persistStatus := by
  intro r r' s t h
  refine paired_bind ((paired_get h.holds.1 (h.holds.of_bare h.like).1).mono ?_)
  rintro a u a' u' ⟨rfl, rfl, ⟨e, rfl, rfl⟩ | ⟨rfl, rfl⟩⟩
  · exact paired_unwritten (twin_refused e) h
  · have hstored := h.stored
    cases ho : u.find x.address with
    | none =>
        rw [ho, Option.map_none, eq_comm, Option.map_eq_none_iff] at hstored
        rw [hstored]
        exact paired_unwritten twin_shortDelay h
    | some o =>
        rw [ho, Option.map_some, eq_comm, Option.map_eq_some_iff] at hstored
        obtain ⟨o', ho', hbare⟩ := hstored
        rw [ho']
        have huid : (o.metadata.uid ≠ r.metadata.uid) = (o'.metadata.uid ≠ r'.metadata.uid) := by
          rw [Resource.eq_of_bare (f := fun r => r.metadata.uid) (fun _ => rfl) h.like,
            Resource.eq_of_bare (f := fun r => r.metadata.uid) (fun _ => rfl) hbare]
        have hcopy : x.Hand s₀ t₀ (o.copyStatus r) (o'.copyStatus r') u u' := by
          refine (h.level.hand ho ho').change ?_ rfl rfl rfl rfl
          rw [Resource.bare_copyStatus, Resource.bare_copyStatus, h.like, hbare]
        dsimp only
        simp only [huid]
        split
        · exact paired_unwritten twin_shortDelay h
        · exact paired_bind ((paired_updateStatus hcopy).mono fun _ _ _ _ hw =>
            paired_afterWrite h hw)

theorem twin_removeFinalizer : TwinWrite rules x s₀ t₀ removeFinalizer := by
  intro r r' s t h
  have hfinalizer : r.hasFinalizer = r'.hasFinalizer := Resource.eq_of_bare (fun _ => rfl) h.like
  unfold removeFinalizer
  rw [← hfinalizer]
  split
  · refine twin_persistResource _ _ s t (h.change ?_ rfl rfl rfl rfl)
    rw [Resource.bare_removeFinalizer, Resource.bare_removeFinalizer, h.like]
  · exact ⟨rfl, h⟩

/-- A pass that has to put the finalizer on does so in both worlds. -/
theorem paired_ensureFinalizer (h : x.Hand s₀ t₀ r r' s t) :
    Paired rules.conduct (ensureFinalizer r) s (ensureFinalizer r') t fun or u or' u' =>
      x.Hand s₀ t₀ or.2 or'.2 u u' ∧
        (or.1 = none ∧ or'.1 = none ∨ ∃ o o', or.1 = some o ∧ or'.1 = some o' ∧ o.Like o') := by
  have hfinalizer : r.hasFinalizer = r'.hasFinalizer := Resource.eq_of_bare (fun _ => rfl) h.like
  unfold ensureFinalizer
  rw [← hfinalizer]
  split
  · exact ⟨h, Or.inl ⟨rfl, rfl⟩⟩
  · refine paired_bind ((twin_persistResource _ _ s t h.addFinalizer).mono ?_)
    rintro ⟨o, w⟩ u ⟨o', w'⟩ u' ⟨ho, hw⟩
    dsimp only at ho hw ⊢
    rw [← Outcome.requeue_eq_of_bare ho]
    split
    · exact ⟨hw, Or.inr ⟨o, o', rfl, rfl, ho⟩⟩
    · refine paired_bind ((twin_shortDelay u u' hw).mono ?_)
      rintro d v d' v' ⟨hd, hv⟩
      exact ⟨hv, Or.inr ⟨d, d', rfl, rfl, hd⟩⟩

end Pass

/-! ## Operations in two worlds -/

/-- Two jobs at a site that differ in revisions and times at most. -/
structure Site.Alike (x : Site) (j j' : Job) : Prop where
  like : j.bare = j'.bare
  holds : x.Holds j.resource
  place : x.place? = some j.release.place

/-- Two jobs at a site with the copies in hand, in two worlds that agree on the site. -/
structure Site.Abreast (x : Site) (s₀ t₀ : Commons H) (j j' : Job) (s t : Commons H) : Prop where
  alike : x.Alike j j'
  hand : x.Hand s₀ t₀ j.resource j'.resource s t

namespace Site.Alike

variable {j j' : Job}

theorem resource (h : x.Alike j j') : j.resource.bare = j'.resource.bare := by
  change j.bare.resource = j'.bare.resource
  rw [h.like]

theorem release (h : x.Alike j j') : j.release = j'.release := by
  change j.bare.release = j'.bare.release
  rw [h.like]

theorem entry (h : x.Alike j j') : j.entry.bare = j'.entry.bare := by
  change j.bare.entry = j'.bare.entry
  rw [h.like]

theorem stage (h : x.Alike j j') : j.entry.stage = j'.entry.stage := by
  change j.entry.bare.stage = j'.entry.bare.stage
  rw [h.entry]

theorem action (h : x.Alike j j') : j.entry.action = j'.entry.action := by
  change j.entry.bare.action = j'.entry.bare.action
  rw [h.entry]

theorem mk' (hresource : j.resource.bare = j'.resource.bare) (hrelease : j.release = j'.release)
    (hentry : j.entry.bare = j'.entry.bare) (holds : x.Holds j.resource)
    (place : x.place? = some j.release.place) : x.Alike j j' := by
  refine ⟨?_, holds, place⟩
  rw [Job.bare, Job.bare, hresource, hrelease, hentry]

end Site.Alike

namespace Work

variable {α α' β β' : Type} {rel : α → α' → Prop} {rel' : β → β' → Prop}

/-- From jobs that are abreast, two pieces of work end with related results and jobs that are
still abreast. -/
def Twin (rules : Rules H) (x : Site) (s₀ t₀ : Commons H) (w : Work α) (w' : Work α')
    (rel : α → α' → Prop) : Prop :=
  ∀ j j' s t, x.Abreast s₀ t₀ j j' s t →
    PairedFrom rules.conduct w j s w' j' t fun a k u a' k' u' =>
      rel a a' ∧ x.Abreast s₀ t₀ k k' u u'

theorem twin_pure {a : α} {a' : α'} (h : rel a a') : Twin rules x s₀ t₀ (pure a) (pure a') rel :=
  fun _ _ _ _ hj => ⟨h, hj⟩

theorem Twin.bind {w : Work α} {w' : Work α'} {f : α → Work β} {f' : α' → Work β'}
    (h : Twin rules x s₀ t₀ w w' rel)
    (hf : ∀ a a', rel a a' → Twin rules x s₀ t₀ (f a) (f' a') rel') :
    Twin rules x s₀ t₀ (w >>= f) (w' >>= f') rel' := by
  intro j j' s t hj
  refine pairedFrom_bind ((h j j' s t hj).mono ?_)
  intro a k u a' k' u' ⟨ha, hk⟩
  exact hf a a' ha k k' u u' hk

theorem twin_ask {p : Pass α} {p' : Pass α'}
    (h : ∀ r r', Pass.Twin rules (x.Hand s₀ t₀ r r') p p' rel) :
    Twin rules x s₀ t₀ (ask p) (ask p') rel := by
  intro j j' s t hj
  refine pairedFrom_lift ((h j.resource j'.resource s t hj.hand).mono ?_)
  exact fun _ _ _ _ ⟨ha, hhand⟩ => ⟨ha, hj.alike, hhand⟩

/-- Work that looks at the job at hand. -/
theorem twin_get {w : Job → Work α} {w' : Job → Work α'}
    (h : ∀ j j', x.Alike j j' → Twin rules x s₀ t₀ (w j) (w' j') rel) :
    Twin rules x s₀ t₀ (get >>= w) (get >>= w') rel :=
  fun j j' s t hj => h j j' hj.alike j j' s t hj

theorem pairedFrom_about {f : Job → Pass α} {f' : Job → Pass α'} {j j' : Job}
    {post : α → Job → Commons H → α' → Job → Commons H → Prop}
    (h : Paired rules.conduct (f j) s (f' j') t fun a u a' u' => post a j u a' j' u') :
    PairedFrom rules.conduct (about f) j s (about f') j' t post := by
  refine pairedFrom_bind ?_
  change PairedFrom rules.conduct (ask (f j)) j s (ask (f' j')) j' t post
  exact pairedFrom_lift h

theorem twin_about {f : Job → Pass α} {f' : Job → Pass α'}
    (h : ∀ j j', x.Alike j j' → ∀ r r', Pass.Twin rules (x.Hand s₀ t₀ r r') (f j) (f' j') rel) :
    Twin rules x s₀ t₀ (about f) (about f') rel :=
  twin_get fun j j' hj => twin_ask (h j j' hj)

theorem twin_changeEntry {f f' : Entry → Entry}
    (h : ∀ e e', e.bare = e'.bare → (f e).bare = (f' e').bare) :
    Twin rules x s₀ t₀ (changeEntry f) (changeEntry f') Eq := by
  intro j j' s t hj
  exact ⟨rfl, .mk' hj.alike.resource hj.alike.release (h _ _ hj.alike.entry) hj.alike.holds
    hj.alike.place, hj.hand⟩

/-- The resource at hand changed, with its revision and its place kept. -/
theorem abreast_change {j j' : Job} {w w' : Resource} (hj : x.Abreast s₀ t₀ j j' s t)
    (hlike : w.bare = w'.bare) (haddress : w.address = j.resource.address)
    (hplace : w.releasePlace = j.resource.releasePlace)
    (hrev : w.metadata.resourceVersion = j.resource.metadata.resourceVersion)
    (hrev' : w'.metadata.resourceVersion = j'.resource.metadata.resourceVersion) :
    x.Abreast s₀ t₀ { j with resource := w } { j' with resource := w' } s t := by
  have hhand := hj.hand.change hlike haddress hplace hrev hrev'
  exact ⟨.mk' hlike hj.alike.release hj.alike.entry hhand.holds hj.alike.place, hhand⟩

theorem twin_write {f : Resource → Pass (Outcome × Resource)}
    (h : Pass.TwinWrite rules x s₀ t₀ f) :
    Twin rules x s₀ t₀ (write f) (write f) Outcome.Like := by
  intro j j' s t hj
  refine pairedFrom_bind (pairedFrom_about ((h _ _ s t hj.hand).mono ?_))
  rintro ⟨o, w⟩ u ⟨o', w'⟩ u' ⟨ho, hw⟩
  exact ⟨ho, .mk' hw.like hj.alike.release hj.alike.entry hw.holds hj.alike.place, hw⟩

/-! ### What is recorded -/

theorem twin_note (reason : Reason) (detail : Option String) :
    Twin rules x s₀ t₀ (note reason detail) (note reason detail) Eq := by
  intro j j' s t hj
  refine pairedFrom_bind (pairedFrom_lift ((Pass.twin_now s t hj.hand).mono ?_))
  intro time u time' u' ⟨_, hhand⟩
  have hnews : j.isNews reason detail time = j'.isNews reason detail time' := by
    rw [← Job.isNews_bare, hj.alike.like, Job.isNews_bare]
  refine ⟨hnews, abreast_change ⟨hj.alike, hhand⟩ ?_ rfl rfl rfl rfl⟩
  have hnoted := Job.bare_noted j reason detail time
  rw [hj.alike.like, ← Job.bare_noted j' reason detail time'] at hnoted
  exact hnoted

theorem twin_announce (reason : Reason) (detail : Option String) :
    Twin rules x s₀ t₀ (announce reason detail) (announce reason detail) Outcome.Like := by
  refine (twin_note reason detail).bind ?_
  rintro news _ rfl
  cases news with
  | true => exact twin_write Pass.twin_persistStatus
  | false => exact twin_pure rfl

theorem twin_fail (reason : Reason) (f : Failure) :
    Twin rules x s₀ t₀ (fail reason f) (fail reason f) Outcome.Like :=
  (twin_announce reason (some f.text)).bind fun _ _ _ =>
    twin_ask fun _ _ => Pass.twin_shortDelayWith f

theorem twin_changeResource {f f' : Resource → Resource}
    (hbare : ∀ r r', r.bare = r'.bare → (f r).bare = (f' r').bare)
    (haddress : ∀ r, (f r).address = r.address) (hplace : ∀ r, (f r).releasePlace = r.releasePlace)
    (hrev : ∀ r, (f r).metadata.resourceVersion = r.metadata.resourceVersion)
    (hrev' : ∀ r, (f' r).metadata.resourceVersion = r.metadata.resourceVersion) :
    Twin rules x s₀ t₀ (changeResource f) (changeResource f') Eq := by
  intro j j' s t hj
  exact ⟨rfl, abreast_change hj (hbare _ _ hj.alike.resource) (haddress _) (hplace _) (hrev _)
    (hrev' _)⟩

theorem twin_setObservedGeneration (g : Int) :
    Twin rules x s₀ t₀ (changeResource fun r => r.setObservedGeneration g)
      (changeResource fun r => r.setObservedGeneration g) Eq := by
  refine twin_changeResource ?_ (fun _ => rfl) (fun _ => rfl) (fun _ => rfl) fun _ => rfl
  intro r r' h
  rw [Resource.bare_setObservedGeneration, h, Resource.bare_setObservedGeneration]

theorem twin_recordSuccess (g : Int) :
    Twin rules x s₀ t₀ (changeResource fun r => r.recordSuccess r.desiredVersion g)
      (changeResource fun r => r.recordSuccess r.desiredVersion g) Eq := by
  have hsame : ∀ (r : Resource) (version : String),
      (r.recordSuccess version g).metadata = r.metadata ∧
        (r.recordSuccess version g).spec = r.spec := by
    rintro ⟨metadata, s | s, status⟩ version
    · exact ⟨rfl, rfl⟩
    · exact ⟨rfl, rfl⟩
  refine twin_changeResource ?_ ?_ ?_ ?_ ?_
  · intro r r' h
    rw [Resource.bare_recordSuccess, Resource.bare_recordSuccess, h,
      Resource.eq_of_bare (f := Resource.desiredVersion) (fun _ => rfl) h]
  · intro r
    rw [Resource.address, Resource.kind, Resource.namespaceName, Resource.name, (hsame r _).1,
      (hsame r _).2]
    rfl
  · intro r
    rw [Resource.releasePlace, Resource.namespaceName, Resource.name, (hsame r _).1,
      (hsame r _).2]
    rfl
  · exact fun r => by rw [(hsame r _).1]
  · exact fun r => by rw [(hsame r _).1]

theorem twin_conclude (reason : Reason) (reachesVersion : Bool) :
    Twin rules x s₀ t₀ (conclude reason reachesVersion) (conclude reason reachesVersion)
      Outcome.Like := by
  refine twin_get fun j j' hj => ?_
  have hgeneration : j.resource.generation = j'.resource.generation :=
    Resource.eq_of_bare (fun _ => rfl) hj.resource
  rw [hgeneration]
  refine (twin_note reason none).bind fun _ _ _ => ?_
  refine (twin_setObservedGeneration _).bind fun _ _ _ => ?_
  cases reachesVersion with
  | true =>
      exact (twin_recordSuccess _).bind fun _ _ _ => twin_write Pass.twin_persistStatus
  | false => exact twin_write Pass.twin_persistStatus

end Work

end ReleaseOperator
