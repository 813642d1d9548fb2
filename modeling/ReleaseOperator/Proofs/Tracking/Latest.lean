import ReleaseOperator.Proofs.Tracking.Holders

/-!
# The tracker as a map of latest generations

Entries are asked for, in any order of generations, changed by those who hold them, and purged,
for one object or for all of one name. After any such history the tracker keeps for each object
the entry of the highest generation asked for since it was last purged, and nothing else.
-/

namespace ReleaseOperator

namespace Holding

/-- What is done with a tracker and its entries. -/
inductive Call where
  | ensure (holder : String) (id : ObjectId) (generation : Int) (initial : Stage)
  /-- A holder changes the entry that it has. -/
  | change (holder : String) (f : Entry → Entry)
  | forget (id : ObjectId)
  | forgetNamed (kind namespaceName name : String)

/-- All parts of names are plain, and an entry stays one of its generation. -/
def Call.Plain : Call → Prop
  | .ensure _ id _ _ => id.Plain
  | .change _ f => ∀ e, (f e).generation = e.generation
  | .forget id => id.Plain
  | .forgetNamed kind ns name =>
      ObjectId.PlainText kind ∧ ObjectId.PlainText ns ∧ ObjectId.PlainText name

/-- What a call makes of the tracker and its holders. -/
def call (h : Holding) : Call → Holding
  | .ensure holder id g initial => h.ensure holder id g initial
  | .change holder f => h.change holder f
  | .forget id => h.onTracker fun t => t.forget id
  | .forgetNamed kind ns name => h.onTracker fun t => t.forgetNamed kind ns name

/-- What is left after a history of calls, the last one first. -/
def after : List Call → Holding
  | [] => empty
  | c :: cs => (after cs).call c

/-- The generations of an object asked for since it was last purged. -/
def ensured (id : ObjectId) : List Call → List Int
  | [] => []
  | .ensure _ id' g _ :: cs => if id' = id then g :: ensured id cs else ensured id cs
  | .change _ _ :: cs => ensured id cs
  | .forget id' :: cs => if id' = id then [] else ensured id cs
  | .forgetNamed kind ns name :: cs =>
      if ObjectId.Named kind ns name id then [] else ensured id cs

/-- The highest of them. -/
def latest? (id : ObjectId) (cs : List Call) : Option Int := (ensured id cs).max?

variable {cs : List Call} {id other : ObjectId} {g : Int} {holder kind ns name : String}
  {initial : Stage}

theorem sound_after (cs : List Call) : (after cs).Sound := by
  induction cs with
  | nil => exact sound_empty
  | cons c cs ih =>
      cases c with
      | ensure holder id g initial => exact ih.ensure holder id g initial
      | change holder f => exact ih.change holder f
      | forget id => exact ih.onTracker_dropUnder _
      | forgetNamed kind ns name => exact ih.onTracker_dropUnder _

theorem tracker_after_ensure : (after (.ensure holder id g initial :: cs)).tracker =
    ((after cs).tracker.ensure id g initial).2 :=
  (sound_after cs).tracker_ensure holder id g initial

theorem plain_after (hcs : ∀ c ∈ cs, c.Plain) : (after cs).tracker.Plain := by
  induction cs with
  | nil => exact Tracker.plain_empty
  | cons c cs ih =>
      have hc := hcs c List.mem_cons_self
      have ih := ih fun c' hc' => hcs c' (List.mem_cons_of_mem _ hc')
      cases c with
      | ensure holder id g initial =>
          rw [tracker_after_ensure]
          exact ih.ensure hc
      | change holder f =>
          rw [after, call, tracker_change]
          split
          · exact ih.amend hc
          · exact ih
      | forget id => exact ih.dropUnder _
      | forgetNamed kind ns name => exact ih.dropUnder _

/-- Asking for a generation raises the highest one to it. -/
theorem toList_latest?_ensure {t : Tracker} (ht : t.Plain) (hid : id.Plain)
    (hlatest : (t.entriesOf id).map (fun kv => kv.2.generation) = (latest? id cs).toList) :
    ((t.ensure id g initial).2.entriesOf id).map (fun kv => kv.2.generation) =
      (latest? id (.ensure holder id g initial :: cs)).toList := by
  have hmax : latest? id (.ensure holder id g initial :: cs) =
      some ((latest? id cs).elim g (max g)) := by
    rw [latest?, ensured, if_pos rfl, List.max?_cons]
    rfl
  rw [hmax]
  cases hget : t.get? id g with
  | some e =>
      have hg := (ht.get?_isSome_iff hlatest).1 (by rw [hget]; rfl)
      rw [Tracker.ensure_of_get? hget, hlatest, hg]
      simp
  | none =>
      cases hnewer : t.hasNewer id g with
      | true =>
          obtain ⟨m, hm, hlt⟩ := (ht.hasNewer_iff hid hlatest).1 hnewer
          rw [Tracker.ensure_of_newer hget hnewer, hlatest, hm, Option.elim_some,
            Int.max_eq_right (Int.le_of_lt hlt)]
      | false =>
          rw [Tracker.entriesOf_ensure_of_none hget hnewer]
          have hle : ∀ m, latest? id cs = some m → m ≤ g := by
            intro m hm
            refine Int.not_lt.1 fun hlt => ?_
            have htrue := (ht.hasNewer_iff hid hlatest).2 ⟨m, hm, hlt⟩
            exact Bool.false_ne_true (hnewer.symm.trans htrue)
          cases hm : latest? id cs with
          | none => rfl
          | some m => rw [Option.elim_some, Int.max_eq_left (hle m hm)]; rfl

/-- Each object has the entry of the highest generation asked for since it was purged. -/
theorem generations_after (hcs : ∀ c ∈ cs, c.Plain) (hid : id.Plain) :
    ((after cs).tracker.entriesOf id).map (fun kv => kv.2.generation) =
      (latest? id cs).toList := by
  induction cs with
  | nil => rfl
  | cons c cs ih =>
      have hc := hcs c List.mem_cons_self
      have hcs' : ∀ c' ∈ cs, c'.Plain := fun c' hc' => hcs c' (List.mem_cons_of_mem _ hc')
      have ih := ih hcs'
      cases c with
      | ensure holder id' g initial =>
          rw [tracker_after_ensure]
          by_cases hsame : id' = id
          · subst hsame
            exact toList_latest?_ensure (plain_after hcs') hid ih
          · rw [Tracker.entriesOf_ensure_of_ne hc hid (Ne.symm hsame), ih, latest?, latest?,
              ensured, if_neg hsame]
      | change holder f =>
          rw [after, call, tracker_change]
          split
          · rw [Tracker.generations_amend hc, ih]
            rfl
          · exact ih
      | forget id' =>
          rw [latest?, ensured]
          by_cases hsame : id' = id
          · subst hsame
            rw [if_pos rfl]
            exact congrArg (List.map _) Tracker.entriesOf_forget_self
          · rw [if_neg hsame]
            exact (congrArg (List.map _) (Tracker.entriesOf_forget_of_ne hc hid
              (Ne.symm hsame))).trans ih
      | forgetNamed kind ns name =>
          obtain ⟨hkind, hns, hname⟩ := hc
          have hdrop := Tracker.entriesOf_forgetNamed (t := (after cs).tracker) hid hkind hns hname
          rw [latest?, ensured]
          refine (congrArg (List.map _) hdrop).trans ?_
          split
          · rfl
          · exact ih

/-- A tracker is a map of latest generations. It keeps at most one entry of each object, that of
the highest generation asked for since the object was last purged. Asking for that generation
hands out the very entry that is kept, asking for a lower one hands out a fresh one aside, and a
higher one takes the place of what was kept. Purging takes away what it names, and nothing that
is done for one object changes an entry of another. -/
theorem latest_of_each (hcs : ∀ c ∈ cs, c.Plain) :
    (after cs).tracker.Plain ∧
    ∀ id : ObjectId, id.Plain →
      ((after cs).tracker.entriesOf id).map (fun kv => kv.2.generation) = (latest? id cs).toList ∧
      (∀ holder g initial,
        (latest? id cs = some g → ∃ e, (after cs).tracker.entriesOf id = [(id.key g, e)] ∧
          (after (.ensure holder id g initial :: cs)).tracker = (after cs).tracker ∧
          (after (.ensure holder id g initial :: cs)).HoldsKept holder (id.key g) e) ∧
        (∀ m, latest? id cs = some m → g < m →
          (after (.ensure holder id g initial :: cs)).tracker = (after cs).tracker ∧
          (after (.ensure holder id g initial :: cs)).HoldsAside holder (.fresh g initial)) ∧
        ((∀ m, latest? id cs = some m → m < g) →
          (after (.ensure holder id g initial :: cs)).tracker.entriesOf id =
            [(id.key g, .fresh g initial)] ∧
          (after (.ensure holder id g initial :: cs)).HoldsKept holder (id.key g)
            (.fresh g initial)) ∧
        ∀ other : ObjectId, other.Plain → other ≠ id →
          (after (.ensure holder id g initial :: cs)).tracker.entriesOf other =
            (after cs).tracker.entriesOf other) ∧
      ((after (.forget id :: cs)).tracker.entriesOf id = [] ∧
        ∀ other : ObjectId, other.Plain → other ≠ id →
          (after (.forget id :: cs)).tracker.entriesOf other =
            (after cs).tracker.entriesOf other) ∧
      ∀ kind ns name, ObjectId.PlainText kind → ObjectId.PlainText ns → ObjectId.PlainText name →
        (after (.forgetNamed kind ns name :: cs)).tracker.entriesOf id =
          if ObjectId.Named kind ns name id then [] else (after cs).tracker.entriesOf id := by
  have hsound := sound_after cs
  have hplain := plain_after hcs
  refine ⟨hplain, fun id hid => ?_⟩
  have hlatest := generations_after hcs hid
  refine ⟨hlatest, fun holder g initial => ⟨fun hm => ?kept, fun m hm hlt => ?lower,
    fun hall => ?higher, fun other hother hne => ?others⟩,
    ⟨Tracker.entriesOf_forget_self, fun other hother hne => ?_⟩, fun kind ns name hkind hns hname =>
    Tracker.entriesOf_forgetNamed hid hkind hns hname⟩
  case others =>
    rw [tracker_after_ensure]
    exact Tracker.entriesOf_ensure_of_ne hid hother hne
  case kept =>
    obtain ⟨e, he⟩ := Tracker.entriesOf_eq_singleton (hlatest.trans (by rw [hm]; rfl))
    have hget := hplain.get?_of_entriesOf he
    rw [tracker_after_ensure, Tracker.ensure_of_get? hget]
    exact ⟨e, he, rfl, hsound.holdsKept_ensure_of_get? holder initial hget⟩
  case lower =>
    have hnone : (after cs).tracker.get? id g = none := by
      rw [← Option.not_isSome_iff_eq_none, hplain.get?_isSome_iff hlatest, hm]
      exact fun h => Int.ne_of_gt hlt (Option.some.inj h)
    have hnewer := (hplain.hasNewer_iff hid hlatest).2 ⟨m, hm, hlt⟩
    rw [tracker_after_ensure, Tracker.ensure_of_newer hnone hnewer]
    exact ⟨rfl, hsound.holdsAside_ensure holder initial hnone hnewer⟩
  case higher =>
    have hnone : (after cs).tracker.get? id g = none := by
      rw [← Option.not_isSome_iff_eq_none, hplain.get?_isSome_iff hlatest]
      exact fun h => Int.lt_irrefl g (hall g h)
    have hnewer : (after cs).tracker.hasNewer id g = false := by
      rw [Bool.eq_false_iff, Ne, hplain.hasNewer_iff hid hlatest]
      rintro ⟨m, hm, hlt⟩
      exact Int.lt_asymm hlt (hall m hm)
    rw [tracker_after_ensure, Tracker.entriesOf_ensure_of_none hnone hnewer]
    exact ⟨rfl, hsound.holdsKept_ensure_of_none holder initial hnone hnewer⟩
  exact Tracker.entriesOf_forget_of_ne hid hother hne

/-- Two objects of which one is called like the other begins, and a third that has the name of
the second and no uid: generations are asked for out of order, and the holder of a superseded
entry goes on with it. -/
def trialHistory : List Call :=
  [.change "one" fun e => e.setStage .awaitWork,
    .change "two" fun e => e.setDigest "abc",
    .ensure "three" ⟨"Module", "ns", "ab", ""⟩ 1 .start,
    .ensure "two" ⟨"Module", "ns", "ab", "u"⟩ 5 .start,
    .ensure "one" ⟨"Module", "ns", "ab", "u"⟩ 7 .start,
    .ensure "one" ⟨"Module", "ns", "a", "u"⟩ (-1) .start]

/-- Purging all of the shorter name leaves the entry of the longer one, changed as its holder
changed it. -/
theorem latest_of_each_trial : (∀ c ∈ trialHistory, c.Plain) ∧
    latest? ⟨"Module", "ns", "ab", "u"⟩ trialHistory = some 7 ∧
    (after trialHistory).tracker.entriesOf ⟨"Module", "ns", "ab", "u"⟩ =
      [("Module/ns/ab/u/gen-7", (Entry.fresh 7 .start).setStage .awaitWork)] ∧
    (after (.forgetNamed "Module" "ns" "a" :: trialHistory)).tracker.entriesOf
        ⟨"Module", "ns", "ab", "u"⟩ =
      [("Module/ns/ab/u/gen-7", (Entry.fresh 7 .start).setStage .awaitWork)] ∧
    (after (.forgetNamed "Module" "ns" "a" :: trialHistory)).tracker.entriesOf
        ⟨"Module", "ns", "a", "u"⟩ = [] := by
  have hplain : ∀ c ∈ trialHistory, c.Plain := by
    simp only [trialHistory, List.forall_mem_cons, List.not_mem_nil, false_imp_iff, implies_true,
      and_true, Call.Plain]
    exact ⟨fun _ => rfl, fun _ => rfl, by decide, by decide, by decide, by decide⟩
  have hlatest := (latest_of_each hplain).2
  have hkept : (after trialHistory).tracker.entriesOf ⟨"Module", "ns", "ab", "u"⟩ =
      [("Module/ns/ab/u/gen-7", (Entry.fresh 7 .start).setStage .awaitWork)] := by decide +kernel
  refine ⟨hplain, by decide, hkept, ?_, ?_⟩
  · obtain ⟨_, _, _, hnamed⟩ := hlatest ⟨"Module", "ns", "ab", "u"⟩ (by decide)
    exact (hnamed "Module" "ns" "a" (by decide) (by decide) (by decide)).trans hkept
  · obtain ⟨_, _, _, hnamed⟩ := hlatest ⟨"Module", "ns", "a", "u"⟩ (by decide)
    exact hnamed "Module" "ns" "a" (by decide) (by decide) (by decide)

end Holding

end ReleaseOperator
