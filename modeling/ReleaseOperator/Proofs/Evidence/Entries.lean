import ReleaseOperator.Proofs.Evidence.Steps
import ReleaseOperator.Proofs.Generations

/-!
# What remembered entries rest on

Between passes the evidence lies in the story and the stage in the memory. An entry for the
generation that is stored rests on the evidence for its stage; older entries are never taken
up again, as the next generation gets an entry of its own. So edits do no harm, and what
keeps the work where it was keeps the memory sound.
-/

namespace ReleaseOperator

open InMemory Relation Program

namespace Tracker

variable {t : Tracker} {o o' r : Resource} {rests rests' : Entry → Prop} {e : Entry}

/-- No entry of an object is ahead of it, and one for its own generation has what it rests
on. -/
def Backed (t : Tracker) (o : Resource) (rests : Entry → Prop) : Prop :=
  ∀ g e, t.get? (.ofResource o) g = some e → g ≤ o.generation ∧ (g = o.generation → rests e)

theorem backed_empty : empty.Backed o rests := by
  intro g e he
  cases he

theorem Backed.dropUnder (h : t.Backed o rests) (start : String) :
    (t.dropUnder start).Backed o rests :=
  fun g e he => h g e (find?_dropUnder he)

theorem Backed.carry (h : t.Backed o rests) (hid : ObjectId.ofResource o' = ObjectId.ofResource o)
    (hle : o.generation ≤ o'.generation)
    (hrests : o'.generation = o.generation → ∀ e, rests e → rests' e) : t.Backed o' rests' := by
  intro g e he
  rw [hid] at he
  obtain ⟨hg, hrest⟩ := h g e he
  refine ⟨Int.le_trans hg hle, ?_⟩
  rintro rfl
  have heq : o'.generation = o.generation := Int.le_antisymm hg hle
  exact hrests heq e (hrest heq)

/-- The entry at hand for an object has what it rests on. -/
theorem Backed.ensured (h : t.Backed o rests) (hfresh : rests (.fresh o.generation .start)) :
    rests (t.ensure (.ofResource o) o.generation .start).1 := by
  rw [ensure_fst]
  cases he : t.get? (.ofResource o) o.generation with
  | none => exact hfresh
  | some e => exact (h _ e he).2 rfl

/-- An entry put back takes the place of the one before it. -/
theorem Backed.recorded (h : t.Backed r rests)
    (hid : ObjectId.ofResource o = ObjectId.ofResource r) (hle : r.generation ≤ o.generation)
    (hrests : o.generation = r.generation → rests' e) :
    ((t.ensure (.ofResource r) r.generation .start).2.record (.ofResource r) r.generation
      e).Backed o rests' := by
  intro g e' he'
  rw [hid] at he'
  by_cases hg : g = r.generation
  · subst hg
    rw [get?_record_self he']
    exact ⟨hle, fun heq => hrests heq.symm⟩
  · rw [get?_record_of_ne hg] at he'
    have hle' := (h g e' (get?_of_get?_ensure hg he')).1
    exact ⟨Int.le_trans hle' hle, fun heq => absurd (Int.le_antisymm hle' (heq ▸ hle)) hg⟩

end Tracker

/-- What an entry of a living resource rests on: nothing as long as no action is chosen. -/
def Entry.Rests (o : Resource) (story : Story) (e : Entry) : Prop :=
  match e.action with
  | none => e.stage = .start
  | some action => Story.Attested o action e.stage story

namespace Contest

variable {kind : Kind} {ns name : String} {m : Memory} {s t u : Contest} {r o o' : Resource}
  {e : Entry} {begun : Contest}

/-- A stored resource after some events: the same object, in the same generation with the same
aim and nothing that undoes evidence, or in a later one. -/
structure Follows (s t : Contest) (o o' : Resource) : Prop where
  uid : o'.metadata.uid = o.metadata.uid
  deleting : o.isDeleting = true → o'.isDeleting = true
  generation : o.generation ≤ o'.generation
  same : o'.generation = o.generation → o'.aim = o.aim ∧
    ∃ recent, t.story = recent ++ s.story ∧ ∀ x ∈ recent, Event.Keeps o.aim x

theorem Follows.attested (h : Follows s t o o') (hdel : o'.isDeleting = o.isDeleting)
    {action : Action} {stage : Stage} (hgen : o'.generation = o.generation)
    (hatt : Story.Attested o action stage s.story) :
    Story.Attested o' action stage t.story := by
  obtain ⟨haim, recent, hstory, hrecent⟩ := h.same hgen
  rw [hstory]
  exact (attested_of_recent hrecent hatt).congr haim hdel

theorem Follows.rests (h : Follows s t o o') (hdel : o'.isDeleting = o.isDeleting)
    (hgen : o'.generation = o.generation) (hrests : e.Rests o s.story) : e.Rests o' t.story := by
  unfold Entry.Rests at hrests ⊢
  split
  · rename_i hnone
    rw [hnone] at hrests
    exact hrests
  · rename_i action hsome
    rw [hsome] at hrests
    exact h.attested hdel hgen hrests

theorem isDeleting_eq_of_false (h : Follows s t o o') (hliving : o'.isDeleting = false) :
    o.isDeleting = false := by
  cases hdel : o.isDeleting with
  | false => rfl
  | true => exact absurd (h.deleting hdel) (by rw [hliving]; decide)

/-- A store and a memory whose entries have what they rest on. Only a resource that is being
deleted has entries for its deletion. -/
structure Sound (kind : Kind) (ns name : String) (m : Memory) (s : Contest) : Prop where
  keyed : s.store.Keyed kind
  living : ∀ o, s.store.get? ns name = some o → o.isDeleting = false →
    m.lifecycle.Backed o (Entry.Rests o s.story)
  dying : ∀ o, s.store.get? ns name = some o → m.deletion.Backed o fun e =>
    o.isDeleting = true ∧ Story.Attested o .delete e.stage s.story

theorem sound_empty (hkeyed : s.store.Keyed kind) : Sound kind ns name .empty s :=
  ⟨hkeyed, fun _ _ _ => Tracker.backed_empty, fun _ _ => Tracker.backed_empty⟩

theorem objectId_stored (hkeyed : s.store.Keyed kind) (hkeyed' : t.store.Keyed kind)
    (ho : s.store.get? ns name = some o) (ho' : t.store.get? ns name = some o')
    (huid : o'.metadata.uid = o.metadata.uid) :
    ObjectId.ofResource o' = ObjectId.ofResource o := by
  obtain ⟨hkind, hkey⟩ := hkeyed ns name o ho
  obtain ⟨hkind', hkey'⟩ := hkeyed' ns name o' ho'
  exact objectId_eq (hkind'.trans hkind.symm) (hkey'.trans hkey.symm) huid

/-- What keeps the work where it was, or begins a new generation, keeps the memory sound. -/
theorem Sound.carry (h : Sound kind ns name m s) (hkeyed : t.store.Keyed kind)
    (hstored : ∀ o', t.store.get? ns name = some o' →
      ∃ o, s.store.get? ns name = some o ∧ Follows s t o o') : Sound kind ns name m t := by
  refine ⟨hkeyed, ?_, ?_⟩
  · intro o' ho' hliving
    obtain ⟨o, ho, hfollows⟩ := hstored o' ho'
    have hdel := isDeleting_eq_of_false hfollows hliving
    refine (h.living o ho hdel).carry (objectId_stored h.keyed hkeyed ho ho' hfollows.uid)
      hfollows.generation ?_
    exact fun hgen e => hfollows.rests (hliving.trans hdel.symm) hgen
  · intro o' ho'
    obtain ⟨o, ho, hfollows⟩ := hstored o' ho'
    refine (h.dying o ho).carry (objectId_stored h.keyed hkeyed ho ho' hfollows.uid)
      hfollows.generation ?_
    rintro hgen e ⟨hdel, hatt⟩
    have hdel' := hfollows.deleting hdel
    exact ⟨hdel', hfollows.attested (hdel'.trans hdel.symm) hgen hatt⟩

/-- An event that keeps the work for the stored resource where it was. -/
theorem Sound.told (h : Sound kind ns name m s) {x : Event}
    (hkeeps : ∀ o, s.store.get? ns name = some o → x.Keeps o.aim) :
    Sound kind ns name m ⟨s.store, x :: s.story⟩ := by
  refine h.carry h.keyed fun o ho => ⟨o, ho, rfl, id, Int.le_refl _, fun _ => ?_⟩
  refine ⟨rfl, [x], rfl, ?_⟩
  intro y hy
  obtain rfl := List.mem_singleton.1 hy
  exact hkeeps o ho

theorem Sound.onBoth (h : Sound kind ns name m s) (start : String) :
    Sound kind ns name (m.onBoth fun t => t.dropUnder start) s :=
  ⟨h.keyed, fun o ho hdel => (h.living o ho hdel).dropUnder start,
    fun o ho => (h.dying o ho).dropUnder start⟩

end Contest

end ReleaseOperator
