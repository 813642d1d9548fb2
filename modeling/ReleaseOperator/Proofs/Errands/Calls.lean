import ReleaseOperator.Proofs.Absence.Driven
import ReleaseOperator.Proofs.Errands.Deeds
import ReleaseOperator.Proofs.Renewal.Update

/-!
# The calls of a pass and the deeds of its client

A pass among edits that is driven by the client leaves two records: a story, in which its calls stand
between the edits of users, and the deeds of the client. `Grown` says what was added to either of
them. A pass that asks nothing of Helm adds no deeds, and its result can be told from its calls:
`Replay` is the run of a pass with given answers.
-/

namespace ReleaseOperator

open InMemory Relation Program Helm

variable {α β : Type} {kind : Kind} {ns name : String} {client : Client}

/-- Whether an event is a call with its answer. -/
def Event.isCall : Event → Bool
  | .asked _ _ => true
  | _ => false

/-- The calls of a story, oldest first. -/
def Story.calls (es : Story) : List Event :=
  (es.filter Event.isCall).reverse

namespace Pass

/-- A pass whose calls are answered as in some events ends in this way. -/
inductive Replay : Pass α → List Event → α → Prop
  | done (a : α) : Replay (.done a) [] a
  | ask {c : Call} {next : c.Answer → Pass α} {a : c.Answer} {es : List Event} {r : α}
      (h : Replay (next a) es r) : Replay (Program.ask c next) (.asked c a :: es) r

theorem replay_bind {p : Pass α} {f : α → Pass β} {es : List Event} {r : β} :
    Replay (p >>= f) es r ↔
      ∃ a first rest, es = first ++ rest ∧ Replay p first a ∧ Replay (f a) rest r := by
  rw [bind_eq]
  constructor
  · intro h
    induction p generalizing es with
    | done a => exact ⟨a, [], es, rfl, .done a, h⟩
    | ask c next ih =>
        cases h with
        | ask h =>
            obtain ⟨a, first, rest, rfl, hfirst, hrest⟩ := ih _ h
            exact ⟨a, _ :: first, rest, rfl, .ask hfirst, hrest⟩
  · rintro ⟨a, first, rest, rfl, hfirst, hrest⟩
    induction hfirst with
    | done a => exact hrest
    | ask _ ih => exact .ask (ih hrest)

/-- The calls of a pass are calls that it may ask. -/
theorem Replay.allowed {allowed : Call → Prop} {p : Pass α} {es : List Event} {r : α}
    (h : Replay p es r) (hp : Asks allowed p) :
    ∀ e ∈ es, ∃ c a, e = .asked c a ∧ allowed c := by
  induction h with
  | done a => exact fun e he => absurd he List.not_mem_nil
  | ask _ ih =>
      intro e he
      cases List.mem_cons.1 he with
      | inl heq => exact ⟨_, _, heq, hp.1⟩
      | inr hrest => exact ih (hp.2 _) e hrest

end Pass

namespace Contest

variable {s t : Contest} {st st' st'' : Contest × List Deed} {c : Call} {a : c.Answer}

theorem calls_of_edits (h : ReflTransGen (Edit ns name) s t) : t.story.calls = s.story.calls := by
  induction h with
  | refl => rfl
  | tail _ hedit ih =>
      obtain ⟨_, _, _, _, _, _, _, rfl⟩ := hedit
      exact ih

theorem keyed_of_edits (h : ReflTransGen (Edit ns name) s t) (hkeyed : s.store.Keyed kind) :
    t.store.Keyed kind := by
  induction h with
  | refl => exact hkeyed
  | tail _ hedit ih =>
      obtain ⟨_, _, _, _, _, _, _, ht, _⟩ := hedit.stored ih
      exact ht

theorem keyed_of_answered {store store' : Store} (h : Answered kind store c a store')
    (hkeyed : store.Keyed kind) : store'.Keyed kind := by
  by_cases hquiet : c.isQuiet = true
  · exact answered_of_isQuiet hquiet h ▸ hkeyed
  · rcases c with (_ | w | w) | _ | (_ | _ | _ | _ | _ | _) | _ | _ | _ | _
    case store.update =>
      rw [Answered] at h
      split at h
      · rename_i hkind
        rcases h with hrules | ⟨_, hsame, _⟩
        · cases a with
          | error e => exact Store.update_error hrules ▸ hkeyed
          | ok new =>
              obtain ⟨_, _, _, _, _, hkeyed'⟩ := Store.update_ok hkeyed hkind rfl hrules
              exact hkeyed'
        · exact hsame ▸ hkeyed
      · exact h ▸ hkeyed
    case store.updateStatus =>
      rw [Answered] at h
      split at h
      · rcases h with hrules | ⟨_, hsame, _⟩
        · cases a with
          | error e => exact Store.updateStatus_error hrules ▸ hkeyed
          | ok new =>
              obtain ⟨_, _, _, _, _, hkeyed'⟩ := Store.updateStatus_ok hkeyed rfl hrules
              exact hkeyed'
        · exact hsame ▸ hkeyed
      · exact h ▸ hkeyed
    all_goals first
      | exact absurd rfl hquiet
      | exact h ▸ hkeyed

/-- A later state of a driven pass, with what was asked and what the client did in between. -/
structure Grown (kind : Kind) (st st' : Contest × List Deed) (asked : List Event)
    (own : List Deed) : Prop where
  calls : st'.1.story.calls = st.1.story.calls ++ asked
  deeds : st'.2 = st.2 ++ own
  keyed : st.1.store.Keyed kind → st'.1.store.Keyed kind

theorem Grown.refl (st : Contest × List Deed) : Grown kind st st [] [] :=
  ⟨(List.append_nil _).symm, (List.append_nil _).symm, id⟩

theorem Grown.trans {asked asked' : List Event} {own own' : List Deed}
    (h : Grown kind st st' asked own) (h' : Grown kind st' st'' asked' own') :
    Grown kind st st'' (asked ++ asked') (own ++ own') := by
  refine ⟨?_, ?_, fun hkeyed => h'.keyed (h.keyed hkeyed)⟩
  · rw [h'.calls, h.calls, List.append_assoc]
  · rw [h'.deeds, h.deeds, List.append_assoc]

/-- One call adds itself to the story. -/
theorem grown_of_may {own : List Deed}
    (h : (driven kind ns name client Deed.recording).may st c a st') (hdeeds : st'.2 = st.2 ++ own) :
    Grown kind st st' [.asked c a] own := by
  obtain ⟨⟨store, hanswered, hedits⟩, -⟩ := h
  refine ⟨?_, hdeeds, fun hkeyed => keyed_of_edits hedits (keyed_of_answered hanswered hkeyed)⟩
  rw [calls_of_edits hedits]
  exact List.reverse_cons

theorem grown_of_not_isHelm (h : (driven kind ns name client Deed.recording).may st c a st')
    (hc : c.isHelm = false) : Grown kind st st' [.asked c a] [] := by
  refine grown_of_may h ?_
  rw [List.append_nil]
  cases c with
  | helm c => exact absurd hc.symm Bool.false_ne_true
  | _ => exact h.2

/-- A pass that asks nothing of Helm has no deeds, and its calls tell how it ended. -/
theorem always_replay {p : Pass α} (hp : Asks (fun c => c.isHelm = false) p)
    (st : Contest × List Deed) :
    Always (driven kind ns name client Deed.recording) p st fun a st' =>
      ∃ asked, Grown kind st st' asked [] ∧ Pass.Replay p asked a := by
  induction p generalizing st with
  | done a => exact ⟨[], .refl st, .done a⟩
  | ask c next ih =>
      intro a st' hmay
      refine (ih a (hp.2 a) st').mono ?_
      rintro r st'' ⟨asked, hgrown, hreplay⟩
      exact ⟨_, (grown_of_not_isHelm hmay hp.1).trans hgrown, .ask hreplay⟩

end Contest

end ReleaseOperator
