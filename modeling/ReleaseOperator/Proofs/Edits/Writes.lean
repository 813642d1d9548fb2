import ReleaseOperator.Proofs.Edits.Story
import ReleaseOperator.Proofs.Generations

/-!
# Writes among edits

A status that is written takes over the specification which the store holds at that
moment, so the copy in hand moves to the newest generation while the release and the
entry stay with the one that was found. The two ways in which a status changes are told
apart: an event on the way leaves the observed generation alone, and a completion sets
it to the generation of the copy in hand.
-/

namespace ReleaseOperator

open InMemory Relation Program

/-!
## What holds while a pass is under way

The job of a pass has the release of the resource as it was found, and everything else
of the copy in hand. The generations of the two differ by the edits that lie between
them. `Underway` says so in the middle of a pass, together with what is to be shown of
every event (`Fair`). Edits keep it, and so does every call that writes nothing.

The status is trusted when it speaks only of generations whose work was finished. That
part is kept apart by the proposition `trusted`, since nothing else depends on it.
-/

/-- Whether a status was written at the completion of the work. -/
def Resource.Completes (w : Resource) : Prop :=
  ∃ reason ∈ Reason.completions, endsIn w.conditions reason

namespace Contest

section Fairness

variable (setup : Setup) (kind : Kind) (ns name : String)

/-- The documents were resolved from the overrides of a copy, earlier in the story. -/
def Resolved (c : Resource) (documents : List Json) (es : Story) : Prop :=
  ∃ s₁ s₂, Runs (conduct kind ns name) (Sources.resolve c.namespaceName c.overrides).run s₁
    (.ok documents) s₂ ∧ s₂.story <:+ es

/-- A release is applied with the descriptor of the resource as it was found and the
overrides of the copy in hand. -/
structure AppliedFrom (request : ReleaseRequest) (es : Story) (r c : Resource) : Prop where
  fetched : es.fetched? = some r
  inHand : es.inHand? = some c
  release : request.release = r.release setup.defaults
  documents : ∃ documents, Resolved kind ns name c documents es ∧
    request.documents =
      Sources.render ((setup.baseValues request.release).toList ++ documents)
  generation : c.generation = r.generation + es.editsInHand
  spec : es.editsInHand = 0 → c.spec = r.spec

/-- A completion is recorded for the generation of the copy in hand. -/
structure CompletedFor (w : Resource) (es : Story) (r c : Resource) : Prop where
  fetched : es.fetched? = some r
  inHand : es.inHand? = some c
  observed : w.observedGeneration = some c.generation
  last : kind = .module → ¬ endsIn w.conditions .uninstallSucceeded →
    w.statusD.lastGeneration = some c.generation
  generation : c.generation = r.generation + es.editsInHand

/-- What is shown of every event, given the story before it. -/
def Fair : Event → Story → Prop
  | .asked (.helm (.upgradeOrInstall request)) _, es =>
    ∃ r c, AppliedFrom setup kind ns name request es r c
  | .asked (.store (.updateStatus w)) _, es => w.Completes → ∃ r c, CompletedFor kind w es r c
  | _, _ => True

/-- Every event of a story is fair. -/
def AllFair (story : Story) : Prop :=
  ∀ e es, (e :: es) <:+ story → Fair setup kind ns name e es

end Fairness

/-- The work for a generation of an object was brought to its end. -/
def Finished (story : Story) (id : ObjectId) (g : Int) : Prop :=
  ∃ action a r, ∃ es : Story,
    (.asked (.count (.transition Stage.finish.label action)) a :: es) <:+ story ∧
    es.fetched? = some r ∧ ObjectId.ofResource r = id ∧ r.generation = g

/-- A completion was recorded with a copy in hand that is newer than the resource as it
was found. -/
def Overtaken (story : Story) : Prop :=
  ∃ w a, ∃ es : Story, (.asked (.store (.updateStatus w)) a :: es) <:+ story ∧ w.Completes ∧
    es.editsInHand ≠ 0

/-- A status speaks of no later generation than that of its resource, and of that one only
when its work is finished, was overtaken, or is the one that is `pending`. -/
def Honest (story : Story) (pending : Int → Prop) (o : Resource) : Prop :=
  ∀ g, o.observedGeneration = some g → g ≤ o.generation ∧
    (g = o.generation → Finished story (.ofResource o) g ∨ Overtaken story ∨ pending g)

theorem Finished.mono {story story' : Story} {id : ObjectId} {g : Int}
    (h : Finished story id g) (hsuffix : story <:+ story') : Finished story' id g := by
  obtain ⟨action, a, r, es, hes, hr⟩ := h
  exact ⟨action, a, r, es, hes.trans hsuffix, hr⟩

theorem Overtaken.mono {story story' : Story} (h : Overtaken story)
    (hsuffix : story <:+ story') : Overtaken story' := by
  obtain ⟨w, a, es, hes, hw⟩ := h
  exact ⟨w, a, es, hes.trans hsuffix, hw⟩

theorem Honest.mono {story story' : Story} {pending pending' : Int → Prop} {o : Resource}
    (h : Honest story pending o) (hsuffix : story <:+ story') (hp : ∀ g, pending g → pending' g) :
    Honest story' pending' o := by
  intro g hg
  obtain ⟨hle, hfin⟩ := h g hg
  refine ⟨hle, fun he => ?_⟩
  rcases hfin he with hf | ho | hpend
  · exact Or.inl (hf.mono hsuffix)
  · exact Or.inr (Or.inl (ho.mono hsuffix))
  · exact Or.inr (Or.inr (hp g hpend))

/-- A status that was honest before an edit speaks of an earlier generation now. -/
theorem Honest.edited {story story' : Story} {pending pending' : Int → Prop} {o new : Resource}
    (h : Honest story pending o) (hstatus : new.status = o.status)
    (hg : new.generation = o.generation + 1) : Honest story' pending' new := by
  intro g hobs
  have hobs' : o.observedGeneration = some g := by
    rw [Resource.observedGeneration, Resource.statusD, ← hstatus]
    exact hobs
  have hle := (h g hobs').1
  exact ⟨by omega, fun he => by omega⟩

/-- Between two passes: the store keeps its order, all events were fair, and a trusted
status is honest. -/
structure Settled (setup : Setup) (kind : Kind) (ns name : String) (trusted : Prop)
    (s : Contest) : Prop where
  keyed : s.store.Keyed kind
  fair : AllFair setup kind ns name s.story
  honest : trusted → ∀ o, s.store.get? ns name = some o → Honest s.story (fun _ => False) o

/-- In the middle of a pass over the resource that was found as `r`. -/
structure Underway (setup : Setup) (kind : Kind) (ns name : String) (trusted : Prop)
    (pending : Int → Prop) (r : Resource) (j : Job) (s : Contest) : Prop where
  keyed : s.store.Keyed kind
  fair : AllFair setup kind ns name s.story
  fetched : s.story.fetched? = some r
  place : r.kind = kind ∧ Store.keyOf r = (ns, name)
  release : j.release = r.release setup.defaults
  entry : trusted → j.entry.generation = r.generation
  stored : ∃ o, s.store.get? ns name = some o ∧ o.metadata.uid = r.metadata.uid ∧
    o.generation = r.generation + s.story.editsSinceFetch ∧
    (s.story.editsSinceFetch = 0 → o.spec = r.spec) ∧ (trusted → Honest s.story pending o)
  inHand : ∃ c, s.story.inHand? = some c ∧ j.resource.metadata = c.metadata ∧
    j.resource.spec = c.spec ∧ j.resource.observedGeneration = c.observedGeneration ∧
    c.kind = kind ∧ Store.keyOf c = (ns, name) ∧ c.metadata.uid = r.metadata.uid ∧
    c.generation = r.generation + s.story.editsInHand ∧
    (s.story.editsInHand = 0 → c.spec = r.spec) ∧ (trusted → Honest s.story pending c)

variable {setup : Setup} {kind : Kind} {ns name : String} {trusted : Prop}
  {pending : Int → Prop} {r : Resource} {j : Job} {s t : Contest}

theorem allFair_cons {e : Event} {es : Story} (h : AllFair setup kind ns name es)
    (he : Fair setup kind ns name e es) : AllFair setup kind ns name (e :: es) := by
  intro e' es' hsuffix
  rcases List.suffix_cons_iff.1 hsuffix with heq | hsuffix
  · injection heq with he' hes'
    subst he' hes'
    exact he
  · exact h e' es' hsuffix

theorem Settled.edit (h : Settled setup kind ns name trusted s) (hedit : Edit ns name s t) :
    Settled setup kind ns name trusted t := by
  obtain ⟨old, new, hold, hnew, hgen, _, hstatus, hkeyed, hstory⟩ := hedit.stored h.keyed
  refine ⟨hkeyed, ?_, ?_⟩
  · rw [hstory]
    exact allFair_cons h.fair trivial
  · intro htrust o ho
    rw [hnew] at ho
    injection ho with ho
    subst ho
    exact (h.honest htrust old hold).edited hstatus hgen

theorem Underway.edit (h : Underway setup kind ns name trusted pending r j s)
    (hedit : Edit ns name s t) : Underway setup kind ns name trusted pending r j t := by
  obtain ⟨old, new, hold, hnew, hgen, huid, hstatus, hkeyed, hstory⟩ := hedit.stored h.keyed
  have hsuffix : s.story <:+ t.story := by
    rw [hstory]
    exact List.suffix_cons _ _
  obtain ⟨o, ho, houid, hogen, _, hohonest⟩ := h.stored
  rw [hold] at ho
  injection ho with ho
  subst ho
  obtain ⟨c, hc, hmeta, hspec, hobs, hckind, hckey, hcuid, hcgen, hcspec, hchonest⟩ := h.inHand
  refine ⟨hkeyed, ?_, ?_, h.place, h.release, h.entry, ⟨new, hnew, huid.trans houid, ?_, ?_, ?_⟩,
    ⟨c, ?_, hmeta, hspec, hobs, hckind, hckey, hcuid, ?_, ?_, ?_⟩⟩
  · rw [hstory]
    exact allFair_cons h.fair trivial
  · rw [hstory]
    exact h.fetched
  · rw [hstory, Story.editsSinceFetch_edited h.fetched, hgen, hogen]
    push_cast
    omega
  · rw [hstory, Story.editsSinceFetch_edited h.fetched]
    intro hzero
    exact absurd hzero (Nat.succ_ne_zero _)
  · intro htrust
    exact (hohonest htrust).edited hstatus hgen
  · rw [hstory]
    exact hc
  · rw [hstory]
    exact hcgen
  · rw [hstory]
    exact hcspec
  · intro htrust
    exact (hchonest htrust).mono hsuffix fun _ => id

theorem Underway.edits (h : Underway setup kind ns name trusted pending r j s)
    (hedits : ReflTransGen (Edit ns name) s t) :
    Underway setup kind ns name trusted pending r j t := by
  induction hedits with
  | refl => exact h
  | tail _ hedit ih => exact ih.edit hedit

theorem Settled.edits (h : Settled setup kind ns name trusted s)
    (hedits : ReflTransGen (Edit ns name) s t) : Settled setup kind ns name trusted t := by
  induction hedits with
  | refl => exact h
  | tail _ hedit ih => exact ih.edit hedit

/-- A call that writes nothing to the store keeps what holds, if it is a fair event. -/
theorem Underway.asked {c : Call} {a : c.Answer}
    (h : Underway setup kind ns name trusted pending r j s)
    (hfair : Fair setup kind ns name (.asked c a) s.story)
    (hw : (Event.asked c a).written? = none) :
    Underway setup kind ns name trusted pending r j ⟨s.store, .asked c a :: s.story⟩ := by
  have hsuffix : s.story <:+ .asked c a :: s.story := List.suffix_cons _ _
  obtain ⟨o, ho, houid, hogen, hospec, hohonest⟩ := h.stored
  obtain ⟨k, hk, hmeta, hspec, hobs, hkkind, hkkey, hkuid, hkgen, hkspec, hkhonest⟩ := h.inHand
  refine ⟨h.keyed, allFair_cons h.fair hfair, Story.fetched?_asked h.fetched, h.place, h.release,
    h.entry,
    ⟨o, ho, houid, hogen, hospec, fun htrust => (hohonest htrust).mono hsuffix fun _ => id⟩,
    ⟨k, Story.inHand?_asked hw hk, hmeta, hspec, hobs, hkkind, hkkey, hkuid, ?_, ?_,
      fun htrust => (hkhonest htrust).mono hsuffix fun _ => id⟩⟩
  · rw [Story.editsInHand_asked hw]
    exact hkgen
  · rw [Story.editsInHand_asked hw]
    exact hkspec

theorem fair_of_isQuiet {c : Call} (h : c.isQuiet = true) (a : c.Answer) (es : Story) :
    Fair setup kind ns name (.asked c a) es := by
  rcases c with (_ | _ | _) | _ | (_ | _ | _ | _ | _ | _) | _ | _ | _ | _ <;>
    first | exact trivial | exact absurd h Bool.false_ne_true

theorem Underway.quietCall {c : Call} {a : c.Answer}
    (h : Underway setup kind ns name trusted pending r j s) (hq : c.isQuiet = true)
    (hmay : (conduct kind ns name).may s c a t) :
    Underway setup kind ns name trusted pending r j t := by
  obtain ⟨store, hans, hedits⟩ := hmay
  have hstore := answered_of_isQuiet hq hans
  subst hstore
  exact (h.asked (fair_of_isQuiet hq a _) (Event.written?_of_isQuiet hq a)).edits hedits

theorem inHand?_of_edits (h : ReflTransGen (Edit ns name) s t) :
    t.story.inHand? = s.story.inHand? := by
  induction h with
  | refl => rfl
  | tail _ hedit ih =>
      obtain ⟨_, _, _, _, _, _, _, rfl⟩ := hedit
      exact ih

theorem Underway.inHand?_quietCall {c : Call} {a : c.Answer}
    (h : Underway setup kind ns name trusted pending r j s) (hq : c.isQuiet = true)
    (hmay : (conduct kind ns name).may s c a t) : t.story.inHand? = s.story.inHand? := by
  obtain ⟨store, _, hedits⟩ := hmay
  obtain ⟨k, hk, _⟩ := h.inHand
  rw [inHand?_of_edits hedits, hk]
  exact Story.inHand?_asked (Event.written?_of_isQuiet hq a) hk

/-- Looking around keeps what holds, and the copy in hand. -/
theorem Underway.quiet {α : Type} {p : Pass α} (hp : Pass.Quiet p)
    (h : Underway setup kind ns name trusted pending r j s) :
    Always (conduct kind ns name) p s fun _ t =>
      Underway setup kind ns name trusted pending r j t ∧ s.story <:+ t.story ∧
        t.story.inHand? = s.story.inHand? := by
  refine hp.always ?_ ⟨h, List.suffix_rfl, rfl⟩
  rintro s₁ c a s₂ hq hmay ⟨hunder, hsuffix, hhand⟩
  refine ⟨hunder.quietCall hq hmay, hsuffix.trans ?_,
    (hunder.inHand?_quietCall hq hmay).trans hhand⟩
  exact (List.suffix_cons _ _).trans (suffix_of_may hmay)

/-! ## Writes -/

/-- Nothing is pending. -/
def settledOnly : Int → Prop := fun _ => False

/-- At the end of the work on a job. -/
def Ended (setup : Setup) (kind : Kind) (ns name : String) (trusted : Prop) (r : Resource)
    (j : Job) (s : Contest) : Prop :=
  Settled setup kind ns name trusted s ∧ (trusted → j.entry.generation = r.generation)

/-- After a step: the work has ended or goes on. -/
def Goes (setup : Setup) (kind : Kind) (ns name : String) (trusted : Prop) (r : Resource)
    (o : Outcome) (j : Job) (s : Contest) : Prop :=
  if o.requeue then Ended setup kind ns name trusted r j s
  else Underway setup kind ns name trusted settledOnly r j s

theorem Underway.settled (h : Underway setup kind ns name trusted settledOnly r j s) :
    Settled setup kind ns name trusted s := by
  refine ⟨h.keyed, h.fair, ?_⟩
  intro htrust o ho
  obtain ⟨o', ho', _, _, _, hhonest⟩ := h.stored
  rw [ho] at ho'
  injection ho' with ho'
  subst ho'
  exact hhonest htrust

theorem Underway.ended (h : Underway setup kind ns name trusted settledOnly r j s) :
    Ended setup kind ns name trusted r j s :=
  ⟨h.settled, h.entry⟩

theorem Goes.ended {o : Outcome} (h : Goes setup kind ns name trusted r o j s) :
    Ended setup kind ns name trusted r j s := by
  unfold Goes at h
  split at h
  · exact h
  · exact h.ended

theorem Settled.quietCall {c : Call} {a : c.Answer} (h : Settled setup kind ns name trusted s)
    (hq : c.isQuiet = true) (hmay : (conduct kind ns name).may s c a t) :
    Settled setup kind ns name trusted t := by
  obtain ⟨store, hans, hedits⟩ := hmay
  have hstore := answered_of_isQuiet hq hans
  subst hstore
  have hasked : Settled setup kind ns name trusted ⟨s.store, .asked c a :: s.story⟩ := by
    refine ⟨h.keyed, allFair_cons h.fair (fair_of_isQuiet hq a _), ?_⟩
    intro htrust o ho
    exact (h.honest htrust o ho).mono (List.suffix_cons _ _) fun _ => id
  exact hasked.edits hedits

theorem Settled.quiet {α : Type} {p : Pass α} (hp : Pass.Quiet p)
    (h : Settled setup kind ns name trusted s) :
    Always (conduct kind ns name) p s fun _ t => Settled setup kind ns name trusted t :=
  hp.always (fun _ _ _ _ hq hmay h₁ => h₁.quietCall hq hmay) h

theorem Ended.quiet {α : Type} {p : Pass α} (hp : Pass.Quiet p)
    (h : Ended setup kind ns name trusted r j s) :
    Always (conduct kind ns name) p s fun _ t => Ended setup kind ns name trusted r j t :=
  (h.1.quiet hp).mono fun _ _ ht => ⟨ht, h.2⟩

theorem Underway.goes {o : Outcome}
    (h : Underway setup kind ns name trusted settledOnly r j s) :
    Goes setup kind ns name trusted r o j s := by
  unfold Goes
  split
  · exact h.ended
  · exact h

/-- The copy of a job bears the kind, the namespace and the name of the pass. -/
theorem Underway.copyPlace (h : Underway setup kind ns name trusted pending r j s) {w : Resource}
    (hmeta : w.metadata = j.resource.metadata) (hspec : w.spec = j.resource.spec) :
    w.kind = kind ∧ w.namespaceName = ns ∧ w.name = name := by
  obtain ⟨c, _, hcmeta, hcspec, _, hckind, hckey, _⟩ := h.inHand
  have hkey : Store.keyOf w = (ns, name) := by
    rw [Store.keyOf, Resource.namespaceName, Resource.name, hmeta, hcmeta]
    exact hckey
  injection hkey with hns hname
  refine ⟨?_, hns, hname⟩
  rw [Resource.kind, hspec, hcspec]
  exact hckind

/-- A status that was written: the copy in hand becomes what the store holds. -/
theorem Underway.written {w old new : Resource} {store : Store}
    (h : Underway setup kind ns name trusted settledOnly r j s)
    (hold : s.store.get? ns name = some old)
    (hfair : Fair setup kind ns name (.asked (.store (.updateStatus w)) (.ok new)) s.story)
    (hnew : new = Store.withStatusOf old w (s.store.revision + 1))
    (hget : store.get? ns name = some new) (hkeyed : store.Keyed kind)
    (hhonest : trusted →
      Honest (.asked (.store (.updateStatus w)) (.ok new) :: s.story) pending new) :
    Underway setup kind ns name trusted pending r { j with resource := new }
      ⟨store, .asked (.store (.updateStatus w)) (.ok new) :: s.story⟩ := by
  obtain ⟨hkind, hkey⟩ := hkeyed ns name new hget
  obtain ⟨o, ho, houid, hogen, hospec, _⟩ := h.stored
  rw [hold] at ho
  injection ho with ho
  subst ho
  have huid : new.metadata.uid = r.metadata.uid := by
    rw [hnew]
    exact houid
  have hgen : new.generation = r.generation + s.story.editsSinceFetch := by
    rw [hnew]
    exact hogen
  have hspec : s.story.editsSinceFetch = 0 → new.spec = r.spec := by
    rw [hnew]
    exact hospec
  refine ⟨hkeyed, allFair_cons h.fair hfair, Story.fetched?_asked h.fetched, h.place, h.release,
    h.entry, ⟨new, hget, huid, hgen, hspec, hhonest⟩,
    ⟨new, Story.inHand?_written rfl, rfl, rfl, rfl, hkind, hkey, huid, ?_, ?_, hhonest⟩⟩
  · rw [Story.editsInHand_written rfl]
    exact hgen
  · rw [Story.editsInHand_written rfl]
    exact hspec

theorem Underway.refused {p : Pass Outcome} {w : Resource}
    (h : Underway setup kind ns name trusted settledOnly r j s) (hquiet : Pass.Quiet p)
    (hrequeue : Always (conduct kind ns name) p s fun o _ => o.requeue = true) :
    Always (conduct kind ns name) p s fun o t =>
      if o.requeue then Underway setup kind ns name trusted settledOnly r j t
      else Underway setup kind ns name trusted pending r { j with resource := w } t := by
  refine (hrequeue.and (h.quiet hquiet)).mono ?_
  rintro o t ⟨ho, hunder, _⟩
  rw [if_pos ho]
  exact hunder

/-- The status of a copy written, when the event is fair and its status honest. -/
theorem Underway.persistStatus (w : Resource) (pending : Int → Prop)
    (h : Underway setup kind ns name trusted settledOnly r j s)
    (hmeta : w.metadata = j.resource.metadata) (hspec : w.spec = j.resource.spec)
    (hfair : ∀ (latest : Resource) a t, Underway setup kind ns name trusted settledOnly r j t →
      Fair setup kind ns name (.asked (.store (.updateStatus (latest.copyStatus w))) a) t.story)
    (hhonest : trusted → ∀ (latest old : Resource) a t n,
      Underway setup kind ns name trusted settledOnly r j t → t.store.get? ns name = some old →
      Honest (.asked (.store (.updateStatus (latest.copyStatus w))) a :: t.story) pending
        (Store.withStatusOf old (latest.copyStatus w) n)) :
    Always (conduct kind ns name) (Pass.persistStatus w) s fun or t =>
      if or.1.requeue then Underway setup kind ns name trusted settledOnly r j t
      else Underway setup kind ns name trusted pending r { j with resource := or.2 } t := by
  obtain ⟨hwkind, hwns, hwname⟩ := h.copyPlace hmeta hspec
  rw [Pass.always_persistStatus, hwkind, hwns, hwname]
  intro a s₁ hmay
  have h₁ := h.quietCall rfl hmay
  obtain ⟨store, hans, _⟩ := hmay
  rcases a with e | _ | latest
  · exact h₁.refused (Pass.quiet_refused e) (Pass.always_refused_requeue e)
  · exact h₁.refused Pass.quiet_shortDelay (Pass.always_shortDelay fun _ _ _ => rfl)
  · dsimp only
    split
    · exact h₁.refused Pass.quiet_shortDelay (Pass.always_shortDelay fun _ _ _ => rfl)
    · intro a s₂ hmay₂
      have hlatest := stored_of_answered hans
      obtain ⟨hlkind, hlkey⟩ := h.keyed ns name latest hlatest
      obtain ⟨store₂, hans₂, hedits⟩ := hmay₂
      have hkind : (latest.copyStatus w).kind = kind := hlkind
      rw [Pass.always_afterWrite]
      cases a with
      | ok new =>
          have hwkey : Store.keyOf (latest.copyStatus w) = (ns, name) := hlkey
          obtain ⟨old, hold, _, hnew, hget, hkeyed⟩ :=
            Store.updateStatus_ok h₁.keyed hwkey (updateStatus_of_answered hkind hans₂)
          have hstatus := fun htrust =>
            hhonest htrust latest old (.ok new) s₁ (s₁.store.revision + 1) h₁ hold
          rw [← hnew] at hstatus
          exact (h₁.written hold (hfair latest _ s₁ h₁) hnew hget hkeyed hstatus).edits hedits
      | error e =>
          rw [same_of_updateStatus_error hkind hans₂] at hedits
          have h₂ := (h₁.asked (hfair latest _ s₁ h₁) rfl).edits hedits
          exact h₂.refused (Pass.quiet_refused e) (Pass.always_refused_requeue e)

theorem Honest.merged {story : Story} {store : Store} {old w : Resource}
    (h : Honest story pending old)
    (hid : ObjectId.ofResource (store.merged old w) = ObjectId.ofResource old) :
    Honest story pending (store.merged old w) := by
  intro g hg
  obtain ⟨hle, hfin⟩ := h g hg
  have hgen := Store.le_generation_merged store old w
  refine ⟨Int.le_trans hle hgen, fun he => ?_⟩
  rw [hid]
  exact hfin (by omega)

/-- A resource written as a whole ends the work: its copy is not looked at again. -/
theorem Underway.persistResource {w : Resource}
    (h : Underway setup kind ns name trusted settledOnly r j s) (hkind : w.kind = kind)
    (hkey : Store.keyOf w = (ns, name)) :
    Always (conduct kind ns name) (Pass.persistResource w) s fun _ t =>
      Settled setup kind ns name trusted t := by
  rw [Pass.always_persistResource]
  intro a t hmay
  obtain ⟨store, hans, hedits⟩ := hmay
  rw [Pass.always_afterWrite]
  have hfair : ∀ a, Fair setup kind ns name (.asked (.store (.update w)) a) s.story :=
    fun _ => trivial
  cases a with
  | ok new =>
      obtain ⟨old, hold, _, hnew, hget, hkeyed⟩ :=
        Store.update_ok h.keyed hkind hkey (update_of_answered hkind hans)
      refine Settled.edits ⟨hkeyed, allFair_cons h.fair (hfair _), ?_⟩ hedits
      intro htrust o ho
      rcases hget with hget | ⟨hnone, _⟩
      · obtain rfl : new = o := Option.some.inj (hget.symm.trans ho)
        have hid : ObjectId.ofResource new = ObjectId.ofResource old := by
          obtain ⟨hnkind, hnkey⟩ := hkeyed ns name new hget
          obtain ⟨hokind, hokey⟩ := h.keyed ns name old hold
          have huid : new.metadata.uid = old.metadata.uid := by
            rw [hnew]
            rfl
          exact objectId_eq (hnkind.trans hokind.symm) (hnkey.trans hokey.symm) huid
        have hhonest := h.settled.honest htrust old hold
        rw [hnew] at hid ⊢
        exact (hhonest.merged hid).mono (List.suffix_cons _ _) fun _ => id
      · exact absurd (hnone.symm.trans ho) (by simp)
  | error e =>
      rw [same_of_update_error hkind hans] at hedits
      have h₂ := (h.asked (hfair (.error e)) rfl).edits hedits
      refine (h₂.quiet (Pass.quiet_refused e)).mono ?_
      rintro o t' ⟨hunder, _⟩
      exact hunder.settled

end Contest

end ReleaseOperator
