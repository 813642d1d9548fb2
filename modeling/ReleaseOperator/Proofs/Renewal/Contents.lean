import ReleaseOperator.Proofs.Alert
import ReleaseOperator.Proofs.Waking.Minding

/-!
# What the sources come to

Values and credentials are looked up in the cluster. While a pass goes on the cluster holds
fixed contents, and a program that asks for nothing else can be read off them without anyone
answering. A look-up of the pass comes to the same, unless a call fails, and when it comes to
something then nothing has failed.
-/

namespace ReleaseOperator

open InMemory Program

/-- What the cluster holds under the keys by which values and credentials are looked up. -/
structure Contents where
  configMap : String → String → String → Option String
  secret : String → String → String → Option String

namespace Contents

variable {α : Type} {v : Contents}

/-- The answer is what the cluster holds. -/
def Tells (v : Contents) : (c : Call) → c.Answer → Prop
  | .cluster (.configMap ns name key), a => a = .ok (v.configMap ns name key)
  | .cluster (.secret ns name key), a => a = .ok (v.secret ns name key)
  | _, _ => True

/-- What a program that only looks up keys ends with. -/
def read? (v : Contents) : Program Call Call.Answer α → Option α
  | .done a => some a
  | .ask (.cluster (.configMap ns name key)) next => v.read? (next (.ok (v.configMap ns name key)))
  | .ask (.cluster (.secret ns name key)) next => v.read? (next (.ok (v.secret ns name key)))
  | .ask _ _ => none

/-- The merge of the values of the class and the overrides of a resource, if all of its sources
resolve. -/
def merge? (v : Contents) (setup : Setup) (r : Resource) : Option Json :=
  match v.read? (Sources.resolve r.namespaceName r.overrides).run with
  | some (.ok documents) =>
    some (Values.mergeAll ((setup.baseValues (r.release setup.defaults)).toList ++ documents))
  | _ => none

/-- The credentials for the repository of a resource resolve, if it needs any. -/
def Grants (v : Contents) (setup : Setup) (r : Resource) : Prop :=
  ∃ c, v.read? (Sources.credentials r.namespaceName (r.release setup.defaults).repository).run =
    some (.ok c)

theorem read?_ask {c : Call} {a : c.Answer} {next : c.Answer → Pass α} (hc : c.isLookup = true)
    (ha : v.Tells c a) : v.read? (Program.ask c next) = v.read? (next a) := by
  rcases c with _ | (⟨ns, name, key⟩ | ⟨ns, name, key⟩ | w) | _ | _ | _ | _ | _
  · exact absurd hc Bool.false_ne_true
  · obtain rfl : a = .ok (v.configMap ns name key) := ha
    rfl
  · obtain rfl : a = .ok (v.secret ns name key) := ha
    rfl
  all_goals exact absurd hc Bool.false_ne_true

/-- A module gets its chart from a repository that may do without credentials. -/
theorem grants_of_module {setup : Setup} {r : Resource} (hkind : r.kind = .module)
    (hpublic : setup.defaults.repository.credentialsSecret = none) : v.Grants setup r := by
  refine ⟨none, ?_⟩
  rw [Resource.repository_release hkind, Sources.credentials, hpublic]
  rfl

end Contents

namespace Renewal

/-- The store keeps to its rules, and nothing else changes it. -/
def Kept (trouble : Prop) (store : Store) : (c : Call) → c.Answer → Store → Prop
  | .store c, a, store' => store.Answers trouble c a store'
  | _, _, store' => store' = store

/-- Answers with which all goes well. -/
def answer (v : Contents) (info : Option ReleaseInfo) (c : Call) : StateM Contest c.Answer :=
  fun s =>
    let (a, store) : c.Answer × Store :=
      match c with
      | .store (.get _ ns name) => (.ok (s.store.get? ns name), s.store)
      | .store (.update r) => s.store.update r
      | .store (.updateStatus r) => s.store.updateStatus r
      | .cluster (.configMap ns name key) => (.ok (v.configMap ns name key), s.store)
      | .cluster (.secret ns name key) => (.ok (v.secret ns name key), s.store)
      | c => Contest.wellAnswered .module info s.store c
    (a, ⟨store, .asked c a :: s.story⟩)

theorem answer_spec (v : Contents) (info : Option ReleaseInfo) (trouble : Prop) (s : Contest)
    (c : Call) :
    v.Tells c (answer v info c s).1 ∧ c.IsGeneric (answer v info c s).1 ∧
      Kept trouble s.store c (answer v info c s).1 (answer v info c s).2.store ∧
      (answer v info c s).2 = ⟨(answer v info c s).2.store, .asked c (answer v info c s).1 ::
        s.story⟩ := by
  rcases c with (⟨k, ns, name⟩ | r | r) | (_ | _ | _) | (_ | _ | _ | _ | _ | _) | _ | _ | _ | _
  · exact ⟨trivial, trivial, ⟨rfl, Or.inl rfl⟩, rfl⟩
  · exact ⟨trivial, trivial, Or.inl rfl, rfl⟩
  · exact ⟨trivial, trivial, Or.inl rfl, rfl⟩
  · exact ⟨rfl, trivial, rfl, rfl⟩
  · exact ⟨rfl, trivial, rfl, rfl⟩
  all_goals first
    | exact ⟨trivial, trivial, rfl, rfl⟩
    | exact ⟨trivial, rfl, rfl, rfl⟩

/-- A pass that nobody interferes with, under fixed contents and a class that has nothing to
say. What Helm and the workloads answer is left open, and in trouble any call may fail. -/
def conduct (v : Contents) (trouble : Prop) : Conduct Contest where
  may s c a t := (v.Tells c a ∨ trouble ∧ c.Fails a) ∧ c.IsGeneric a ∧
    ∃ store, Kept trouble s.store c a store ∧ t = ⟨store, .asked c a :: s.story⟩
  answers s c := by
    obtain ⟨htells, hgeneric, hkept, ht⟩ := answer_spec v none trouble s c
    exact ⟨_, _, Or.inl htells, hgeneric, _, hkept, ht⟩

variable {α ε : Type} {v : Contents} {trouble : Prop} {setup : Setup} {r : Resource} {j : Job}
  {s t : Contest} {c : Call} {a : c.Answer}

theorem may_answer (v : Contents) (info : Option ReleaseInfo) (trouble : Prop) (s : Contest)
    (c : Call) : (conduct v trouble).may s c (answer v info c s).1 (answer v info c s).2 := by
  obtain ⟨htells, hgeneric, hkept, ht⟩ := answer_spec v info trouble s c
  exact ⟨Or.inl htells, hgeneric, _, hkept, ht⟩

theorem story_of_may (h : (conduct v trouble).may s c a t) : t.story = .asked c a :: s.story := by
  obtain ⟨_, _, _, _, rfl⟩ := h
  rfl

theorem kept_of_may (h : (conduct v trouble).may s c a t) :
    Kept trouble s.store c a t.store := by
  obtain ⟨_, _, _, hkept, rfl⟩ := h
  exact hkept

/-- A call that looks around leaves the store as it is. -/
theorem store_of_isQuiet (hq : c.isQuiet = true) (h : (conduct v trouble).may s c a t) :
    t.store = s.store := by
  have hkept := kept_of_may h
  rcases c with (_ | _ | _) | _ | _ | _ | _ | _ | _
  · exact hkept.1
  · exact absurd hq Bool.false_ne_true
  · exact absurd hq Bool.false_ne_true
  all_goals exact hkept

/-- Nothing that was asked is forgotten. -/
theorem always_suffix (p : Pass α) :
    Always (conduct v trouble) p s fun _ t => s.story <:+ t.story := by
  induction p generalizing s with
  | done a => exact List.suffix_rfl
  | ask c next ih =>
      intro a t hmay
      refine (ih a).mono fun _ u hsuffix => ?_
      rw [story_of_may hmay] at hsuffix
      exact (List.suffix_cons _ _).trans hsuffix

theorem alwaysFrom_suffix (work : Work α) :
    AlwaysFrom (conduct v trouble) work j s fun _ _ t => s.story <:+ t.story :=
  always_suffix _

/-! ### Looking keys up -/

/-- Since a moment of the story all that was looked up was told as the cluster holds it. -/
def Faithful (v : Contents) (begun : Story) (s : Contest) : Prop :=
  ∃ es, s.story = es ++ begun ∧ ∀ c a, .asked c a ∈ es → v.Tells c a

theorem faithful_refl (v : Contents) (s : Contest) : Faithful v s.story s :=
  ⟨[], rfl, fun _ _ h => absurd h List.not_mem_nil⟩

theorem Faithful.next {begun : Story} (h : Faithful v begun s)
    (hmay : (conduct v trouble).may s c a t) (ha : v.Tells c a) : Faithful v begun t := by
  obtain ⟨es, hes, htells⟩ := h
  refine ⟨.asked c a :: es, by rw [story_of_may hmay, hes, List.cons_append], ?_⟩
  intro c' a' hmem
  rcases List.mem_cons.1 hmem with heq | hmem
  · injection heq with hc ha'
    subst hc ha'
    exact ha
  · exact htells c' a' hmem

/-- What is faithful since the moment before a call is so since the moment after it, and the
answer to that call was. -/
theorem Faithful.split {begun : Story} (h : Faithful v begun s)
    (hsuffix : .asked c a :: begun <:+ s.story) :
    v.Tells c a ∧ Faithful v (.asked c a :: begun) s := by
  obtain ⟨es, hes, htells⟩ := h
  obtain ⟨later, hlater⟩ := hsuffix
  have hwhole : es ++ begun = (later ++ [.asked c a]) ++ begun := by
    rw [← hes, ← hlater, List.append_assoc, List.singleton_append]
  have hsplit : es = later ++ [.asked c a] := List.append_cancel_right hwhole
  subst hsplit
  refine ⟨htells c a (by simp), later, hlater.symm, ?_⟩
  intro c' a' hmem
  exact htells c' a' (List.mem_append_left _ hmem)

/-- Where the cluster never fails everything is told as it holds it. -/
theorem always_faithful (p : Pass α) :
    Always (conduct v False) p s fun _ t => Faithful v s.story t := by
  have hgeneral : ∀ begun, Faithful v begun s →
      Always (conduct v False) p s fun _ t => Faithful v begun t := by
    intro begun h
    induction p generalizing s with
    | done a => exact h
    | ask c next ih =>
        intro a t hmay
        exact ih a (h.next hmay (hmay.1.resolve_right fun hno => hno.1))
  exact hgeneral _ (faithful_refl v s)

/-- A look-up to which nothing but the truth was told comes to what can be read off the
contents. -/
theorem always_read {p : Pass α} (hp : Asks (fun c => c.isLookup = true) p) :
    Always (conduct v trouble) p s fun x t => Faithful v s.story t → v.read? p = some x := by
  induction p generalizing s with
  | done a => exact fun _ => rfl
  | ask c next ih =>
      intro a s' hmay
      have hstory := story_of_may hmay
      refine ((ih a (hp.2 a)).and (always_suffix _)).mono ?_
      rintro x t ⟨hread, hsuffix⟩ hfaithful
      rw [hstory] at hread hsuffix
      obtain ⟨ha, hrest⟩ := hfaithful.split hsuffix
      rw [Contents.read?_ask hp.1 ha]
      exact hread hrest

/-- A failed call is all that can keep an answer from being what the cluster holds. -/
theorem alert (v : Contents) (trouble : Prop) (begun : Story) :
    Alert (conduct v trouble) (Faithful v begun) Outcome.IsSoon where
  call h hmay hfails := h.next hmay (hmay.1.resolve_right fun hno => hfails hno.2)
  hook h hmay := by
    obtain rfl := hmay.2.1
    exact Or.inr ⟨rfl, h.next hmay trivial⟩
  soon h := h
  requeues h := h.requeue

/-- A look-up that came to something: what can be read off the contents. -/
def Reads (v : Contents) (trouble : Prop) (p : Pass (Except ε α)) (x : Except ε α) : Prop :=
  (∀ a, x = .ok a → v.read? p = some x) ∧ (¬ trouble → v.read? p = some x)

theorem reads_of_calm {p : Pass (Except ε α)} (hp : Asks (fun c => c.isLookup = true) p)
    (hcalm : Always (conduct v trouble) p s (CalmIfOk (Faithful v s.story))) :
    Always (conduct v trouble) p s fun x _ => Reads v trouble p x := by
  by_cases htrouble : trouble
  · refine ((always_read hp).and hcalm).mono ?_
    rintro x t ⟨hread, hfaithful⟩
    exact ⟨fun a ha => hread (hfaithful a ha), fun hno => absurd htrouble hno⟩
  · obtain rfl : trouble = False := eq_false htrouble
    refine ((always_read hp).and (always_faithful p)).mono ?_
    rintro x t ⟨hread, hfaithful⟩
    exact ⟨fun _ _ => hread hfaithful, fun _ => hread hfaithful⟩

theorem reads_resolve (ns : String) (sources : List ValuesSource) :
    Always (conduct v trouble) (Sources.resolve ns sources).run s fun x _ =>
      Reads v trouble (Sources.resolve ns sources).run x :=
  reads_of_calm (Pass.asks_resolveFrom (fun _ h => h) ns 0 sources)
    ((alert v trouble s.story).resolveFrom (faithful_refl v s) ns 0 sources)

theorem reads_credentials (ns : String) (repository : Repository) :
    Always (conduct v trouble) (Sources.credentials ns repository).run s fun x _ =>
      Reads v trouble (Sources.credentials ns repository).run x :=
  reads_of_calm (Pass.asks_credentials (fun _ h => h) ns repository)
    ((alert v trouble s.story).credentials (faithful_refl v s) ns repository)

end Renewal

end ReleaseOperator
