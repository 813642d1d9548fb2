import ReleaseOperator.Proofs.Edits.Passes
import ReleaseOperator.Proofs.Edits.Script

/-!
# What the observed generation tells

Over any number of passes, with edits, restarts and deletions in between, a completion
records the generation of the copy in hand, while the entry whose work was done is of
the generation that the pass found. So the observed generation is that of the finished
work exactly when no edit lies between the two, and where no completion was overtaken by
an edit, a resource that has observed its own generation has had the work for it
finished.
-/

namespace ReleaseOperator.Contest

open InMemory Relation Program

/-- What operator and users can make of a store that speaks of no generation yet: users
create, edit and delete the resource, passes go over it, and the operator is started
anew with nothing remembered. -/
inductive Reached (setup : Setup) (kind : Kind) (ns name : String) : Memory → Contest → Prop
  | start {store : Store} (keyed : store.Keyed kind)
      (unobserved : ∀ o, store.get? ns name = some o →
        ∀ g, o.observedGeneration = some g → g < o.generation) :
      Reached setup kind ns name .empty ⟨store, []⟩
  | create {m : Memory} {s : Contest} (before : Reached setup kind ns name m s) (r : Resource)
      (ofKind : r.kind = kind) (new : r.status = none) :
      Reached setup kind ns name m ⟨s.store.insert r, s.story⟩
  | edit {m : Memory} {s t : Contest} (before : Reached setup kind ns name m s)
      (edit : Edit ns name s t) : Reached setup kind ns name m t
  | delete {m : Memory} {s : Contest} (before : Reached setup kind ns name m s) (now : Instant) :
      Reached setup kind ns name m ⟨s.store.markDeleted ns name now, s.story⟩
  | pass {m : Memory} {s t : Contest} {result : Except PassError Outcome × Memory}
      (before : Reached setup kind ns name m s)
      (run : Runs (conduct kind ns name) ((reconcile setup kind ns name).run m)
        ⟨s.store, .began :: s.story⟩ result t) :
      Reached setup kind ns name result.2 t
  | restart {m : Memory} {s : Contest} (before : Reached setup kind ns name m s) :
      Reached setup kind ns name .empty s

variable {setup : Setup} {kind : Kind} {ns name : String} {m : Memory} {s : Contest}

theorem allFair_began {story : Story} (h : AllFair setup kind ns name story) :
    AllFair setup kind ns name (.began :: story) :=
  allFair_cons h trivial

/-- In every reachable state the store is settled and the memory orderly. -/
theorem Reached.settled (h : Reached setup kind ns name m s) :
    Settled setup kind ns name True s ∧ m.Keyed := by
  induction h with
  | @start store keyed unobserved =>
      refine ⟨⟨keyed, ?_, ?_⟩, Memory.keyed_empty⟩
      · intro e es hsuffix
        exact absurd (List.suffix_nil.1 hsuffix) (List.cons_ne_nil _ _)
      · intro _ o ho g hg
        have hlt := unobserved o ho g hg
        exact ⟨Int.le_of_lt hlt, fun he => by omega⟩
  | create before r ofKind new ih =>
      refine ⟨⟨ih.1.keyed.insert ofKind, ih.1.fair, ?_⟩, ih.2⟩
      intro htrust o ho
      rcases Store.status_of_get?_insert ho with hstatus | hold
      · intro g hg
        rw [Resource.observedGeneration, Resource.statusD, hstatus, new] at hg
        exact absurd hg (by simp [Status.empty])
      · exact ih.1.honest htrust o hold
  | edit before hedit ih => exact ⟨ih.1.edit hedit, ih.2⟩
  | delete before now ih =>
      refine ⟨⟨ih.1.keyed.markDeleted ns name now, ih.1.fair, ?_⟩, ih.2⟩
      intro htrust o ho
      obtain ⟨old, hold, hstatus, hgen, hid⟩ := Store.get?_markDeleted ho
      intro g hg
      rw [Resource.observedGeneration, Resource.statusD, hstatus] at hg
      rw [hgen, hid]
      exact ih.1.honest htrust old hold g hg
  | pass before run ih =>
      have hbegan : Settled setup kind ns name True ⟨_, .began :: _⟩ :=
        ⟨ih.1.keyed, allFair_began ih.1.fair, fun htrust o ho =>
          (ih.1.honest htrust o ho).mono (List.suffix_cons _ _) fun _ => id⟩
      have hpass := hbegan.reconcile rfl fun _ => ih.2
      have hend := always_iff_runs.1 hpass _ _ run
      exact ⟨hend.1, hend.2 trivial⟩
  | restart before ih => exact ⟨ih.1, Memory.keyed_empty⟩

/-- However passes, edits and restarts follow each other: the entry that a pass works on is
of the generation that it found; a completion is recorded for the generation of the copy
in hand, and that is the same one if and only if no edit lies between the two; and where
this was so at every completion, a resource that has observed its own generation has had
the work for it finished. -/
theorem observed_generation_iff (h : Reached setup kind ns name m s) :
    (∀ r : Resource,
      (m.lifecycle.ensure (.ofResource r) r.generation .start).1.generation = r.generation ∧
        (m.deletion.ensure (.ofResource r) r.generation .start).1.generation = r.generation) ∧
      (∀ (w : Resource) (answer : Call.Answer (.store (.updateStatus w))) (es : Story),
        (.asked (.store (.updateStatus w)) answer :: es) <:+ s.story → w.Completes →
          ∃ r c, CompletedFor kind w es r c ∧
            (c.generation = r.generation ↔ es.editsInHand = 0)) ∧
      (¬ Overtaken s.story → ∀ o, s.store.get? ns name = some o →
        o.observedGeneration = some o.generation →
          Finished s.story (.ofResource o) o.generation) := by
  obtain ⟨hsettled, hkeyed⟩ := h.settled
  refine ⟨?_, ?_, ?_⟩
  · intro r
    exact ⟨hkeyed.1.generation_ensure _ _ _, hkeyed.2.generation_ensure _ _ _⟩
  · intro w answer es hsuffix hcompletes
    obtain ⟨r, c, hfor⟩ := hsettled.fair _ es hsuffix hcompletes
    refine ⟨r, c, hfor, ?_⟩
    have hgen := hfor.generation
    omega
  · intro hnot o ho hobs
    obtain ⟨_, hfin⟩ := hsettled.honest trivial o ho _ hobs
    rcases hfin rfl with hf | hover | hpending
    · exact hf
    · exact absurd hover hnot
    · exact hpending.elim

/-- The generations whose work was brought to its end, with their objects. -/
def finishedIn : Story → List (ObjectId × Int)
  | [] => []
  | e :: es =>
    (match e with
    | .asked (.count (.transition label _)) _ =>
      if label = Stage.finish.label then
        ((Story.fetched? es).map fun r => (ObjectId.ofResource r, r.generation)).toList
      else []
    | _ => []) ++ finishedIn es

theorem mem_finishedIn {story : Story} {id : ObjectId} {g : Int} (h : Finished story id g) :
    (id, g) ∈ finishedIn story := by
  obtain ⟨action, a, r, es, hsuffix, hr, hid, hg⟩ := h
  induction story with
  | nil => exact absurd (List.suffix_nil.1 hsuffix) (List.cons_ne_nil _ _)
  | cons e rest ih =>
      rcases List.suffix_cons_iff.1 hsuffix with heq | hsuffix
      · injection heq with he hes
        subst he hes
        rw [finishedIn]
        refine List.mem_append_left _ ?_
        rw [if_pos rfl, hr, ← hid, ← hg]
        exact List.mem_singleton_self _
      · exact List.mem_append_right _ (ih hsuffix)

/-- A pass that finds the module with its release deployed, and right after that the user
changes the values. -/
def overtakenPass : (Except PassError Outcome × Memory) × Contest :=
  scriptedPass trialSetup .module "default" "web" (some ⟨"web", "default", .deployed, "0.1.0"⟩)
    (trialSpec "0.1.0" 2) .empty ⟨trialStore trialModule, [.began]⟩

theorem reached_overtakenPass :
    Reached trialSetup .module "default" "web" overtakenPass.1.2 overtakenPass.2 := by
  have hstart : Reached trialSetup .module "default" "web" .empty ⟨trialStore trialModule, []⟩ := by
    refine Reached.start (keyed_trialStore rfl rfl) ?_
    intro o ho g hg
    obtain ⟨_, rfl⟩ := get?_trialStore ho
    have hnone : trialModule.observedGeneration = none := rfl
    rw [hnone] at hg
    exact absurd hg (by simp)
  exact Reached.pass hstart (runs_scriptedPass _ _ _ _ _ _ _ _)

/-- The hypothesis of `observed_generation_iff` holds after a pass with an edit in it. -/
theorem observed_generation_iff_overtaken :
    Reached trialSetup .module "default" "web" overtakenPass.1.2 overtakenPass.2 ∧
      (¬ Overtaken overtakenPass.2.story →
        ∀ o, overtakenPass.2.store.get? "default" "web" = some o →
          o.observedGeneration = some o.generation →
            Finished overtakenPass.2.story (.ofResource o) o.generation) :=
  ⟨reached_overtakenPass, (observed_generation_iff reached_overtakenPass).2.2⟩

/-- A resource may have observed its generation, and recorded it as its last success, when
only the work for the generation before it was done. -/
theorem observed_generation_overtaken :
    ∃ m s o, Reached trialSetup .module "default" "web" m s ∧
      s.store.get? "default" "web" = some o ∧ o.generation = 2 ∧
      o.observedGeneration = some 2 ∧ o.statusD.lastGeneration = some 2 ∧
      (m.lifecycle.entries.map fun kv => (kv.2.generation, kv.2.stage)) = [(1, .finish)] ∧
      ¬ Finished s.story (.ofResource o) 2 := by
  have hsome : (overtakenPass.2.store.get? "default" "web").isSome = true := by decide +kernel
  obtain ⟨o, ho⟩ := Option.isSome_iff_exists.1 hsome
  have hstatus : (overtakenPass.2.store.get? "default" "web").map (fun o =>
      (o.generation, o.observedGeneration, o.statusD.lastGeneration)) =
        some (2, some 2, some 2) := by decide +kernel
  rw [ho, Option.map_some] at hstatus
  injection hstatus with hstatus
  injection hstatus with hgen hstatus
  injection hstatus with hobs hlast
  refine ⟨_, _, o, reached_overtakenPass, ho, hgen, hobs, hlast, ?_, ?_⟩
  · decide +kernel
  · intro hfin
    have hnot : (2 : Int) ∉ (finishedIn overtakenPass.2.story).map Prod.snd := by decide +kernel
    exact hnot (List.mem_map.2 ⟨_, mem_finishedIn hfin, rfl⟩)

end ReleaseOperator.Contest
