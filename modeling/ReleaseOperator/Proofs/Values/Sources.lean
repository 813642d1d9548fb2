import Mathlib.Data.List.ReduceOption
import ReleaseOperator.Proofs.Readiness.Verdicts
import ReleaseOperator.Proofs.Values.Layers

/-!
# Overrides in their order

An override names up to three origins of values, and the first of them counts: the values that are
given in place, the secret, the config map. What it comes to depends on nothing but its origin. It
gives a document, it gives nothing, or it fails; and the list comes to the documents of all
overrides, or to the failure of the first one that fails, behind which nothing is read.
-/

namespace ReleaseOperator

namespace Sources

open Pass

variable (answer : (c : Call) → c.Answer) (ns : String)

/-! ### What an override comes to -/

/-- The text under a key, nothing where the object or the key is missing, or what went wrong. -/
def under (kind : SourceKind) (ref : KeyRef) : Except ClusterError (Option String) :=
  match kind with
  | .secret => answer (.cluster (.secret ns ref.name ref.key))
  | .configMap => answer (.cluster (.configMap ns ref.name ref.key))

/-- What a key gives: the map that its text is, and nothing where the text is empty or where the key
is missing and optional. -/
inductive KeyGives (kind : SourceKind) (ref : KeyRef) : Option Json → Prop
  | map {text : String} {fields : List (String × Json)}
      (hheld : under answer ns kind ref = .ok (some text))
      (hread : Yaml.readValue? text = .ok (.object fields)) :
      KeyGives kind ref (some (.object fields))
  | null {text : String} (hheld : under answer ns kind ref = .ok (some text))
      (hread : Yaml.readValue? text = .ok .null) : KeyGives kind ref none
  | missing (hheld : under answer ns kind ref = .ok none) (hoptional : ref.isOptional = true) :
      KeyGives kind ref none

/-- How a key fails. -/
inductive KeyFails (kind : SourceKind) (ref : KeyRef) : SourceError → Prop
  | unread {e : ClusterError} (hheld : under answer ns kind ref = .error e) :
      KeyFails kind ref (.cluster e)
  | missing (hheld : under answer ns kind ref = .ok none) (hrequired : ref.isOptional = false) :
      KeyFails kind ref (.missing kind.name ns ref.name ref.key)
  | malformed {text : String} {p : Yaml.Problem}
      (hheld : under answer ns kind ref = .ok (some text))
      (hread : Yaml.readValue? text = .error p) :
      KeyFails kind ref (.invalid (origin kind ns ref) p.message)
  | noMap {text : String} {v : Json} (hheld : under answer ns kind ref = .ok (some text))
      (hread : Yaml.readValue? text = .ok v) (hnull : v.isNull = false)
      (hmap : v.isObject = false) :
      KeyFails kind ref
        (.invalid (origin kind ns ref) ("expected a map of values, found " ++ v.compact))

/-- What an override gives. Values in place go before a secret, and a secret before a config map. -/
inductive Gives (s : ValuesSource) : Option Json → Prop
  | map {fields : List (String × Json)} (h : s.values = some (.object fields)) :
      Gives s (some (.object fields))
  | null (h : s.values = some .null) : Gives s none
  | secret {ref : KeyRef} {d : Option Json} (hvalues : s.values = none)
      (href : s.secret = some ref) (h : KeyGives answer ns .secret ref d) : Gives s d
  | configMap {ref : KeyRef} {d : Option Json} (hvalues : s.values = none)
      (hsecret : s.secret = none) (href : s.configMap = some ref)
      (h : KeyGives answer ns .configMap ref d) : Gives s d
  | empty (hvalues : s.values = none) (hsecret : s.secret = none) (hconfig : s.configMap = none) :
      Gives s none

/-- How an override at a place of the list fails. -/
inductive Fails (index : Nat) (s : ValuesSource) : SourceError → Prop
  | noMap {v : Json} (h : s.values = some v) (hnull : v.isNull = false)
      (hmap : v.isObject = false) :
      Fails index s (.invalid ("overrides[" ++ toString index ++ "].values")
        ("expected a map of values, found " ++ v.compact))
  | secret {ref : KeyRef} {e : SourceError} (hvalues : s.values = none)
      (href : s.secret = some ref) (h : KeyFails answer ns .secret ref e) : Fails index s e
  | configMap {ref : KeyRef} {e : SourceError} (hvalues : s.values = none)
      (hsecret : s.secret = none) (href : s.configMap = some ref)
      (h : KeyFails answer ns .configMap ref e) : Fails index s e

/-- The calls that read an override: at most the one of its origin. -/
def reads (s : ValuesSource) : List Call :=
  match s.values, s.secret, s.configMap with
  | some _, _, _ => []
  | none, some ref, _ => [.cluster (.secret ns ref.name ref.key)]
  | none, none, some ref => [.cluster (.configMap ns ref.name ref.key)]
  | none, none, none => []

variable {answer ns} {index : Nat} {s : ValuesSource} {kind : SourceKind} {ref : KeyRef}
  {name text : String} {v : Json} {d : Option Json} {e : SourceError}
  {sources before xs ys : List ValuesSource} {documents : List Json}

theorem document?_eq_ok_iff : document? name v = .ok d ↔
    v = .null ∧ d = none ∨ ∃ fields, v = .object fields ∧ d = some (.object fields) := by
  cases v <;> simp [document?, eq_comm]

theorem document?_eq_error_iff : document? name v = .error e ↔
    v.isNull = false ∧ v.isObject = false ∧
      e = .invalid name ("expected a map of values, found " ++ v.compact) := by
  cases v <;> simp [document?, Json.isNull, Json.isObject, eq_comm]

theorem ofAnswer_eq_ok_iff :
    ofAnswer kind ns ref (under answer ns kind ref) = .ok d ↔ KeyGives answer ns kind ref d := by
  constructor
  · intro h
    rcases hheld : under answer ns kind ref with e | _ | text
    · simp [hheld, ofAnswer] at h
    · cases hoptional : ref.isOptional
      · simp [hheld, ofAnswer, hoptional] at h
      · obtain rfl : none = d := by simpa [hheld, ofAnswer, hoptional] using h
        exact .missing hheld hoptional
    · cases hread : Yaml.readValue? text with
      | error p => simp [hheld, ofAnswer, parse, hread] at h
      | ok v =>
          rw [hheld, ofAnswer, parse, hread, document?_eq_ok_iff] at h
          rcases h with ⟨rfl, rfl⟩ | ⟨fields, rfl, rfl⟩
          · exact .null hheld hread
          · exact .map hheld hread
  · rintro (⟨hheld, hread⟩ | ⟨hheld, hread⟩ | ⟨hheld, hoptional⟩)
    · simp [hheld, ofAnswer, parse, hread, document?]
    · simp [hheld, ofAnswer, parse, hread, document?]
    · simp [hheld, ofAnswer, hoptional]

theorem ofAnswer_eq_error_iff :
    ofAnswer kind ns ref (under answer ns kind ref) = .error e ↔ KeyFails answer ns kind ref e := by
  constructor
  · intro h
    rcases hheld : under answer ns kind ref with e' | _ | text
    · obtain rfl : SourceError.cluster e' = e := by simpa [hheld, ofAnswer] using h
      exact .unread hheld
    · cases hoptional : ref.isOptional
      · obtain rfl : SourceError.missing kind.name ns ref.name ref.key = e := by
          simpa [hheld, ofAnswer, hoptional] using h
        exact .missing hheld hoptional
      · simp [hheld, ofAnswer, hoptional] at h
    · cases hread : Yaml.readValue? text with
      | error p =>
          obtain rfl : SourceError.invalid (origin kind ns ref) p.message = e := by
            simpa [hheld, ofAnswer, parse, hread] using h
          exact .malformed hheld hread
      | ok v =>
          rw [hheld, ofAnswer, parse, hread, document?_eq_error_iff] at h
          obtain ⟨hnull, hmap, rfl⟩ := h
          exact .noMap hheld hread hnull hmap
  · rintro (hheld | ⟨hheld, hrequired⟩ | ⟨hheld, hread⟩ | ⟨hheld, hread, hnull, hmap⟩)
    · simp [hheld, ofAnswer]
    · simp [hheld, ofAnswer, hrequired]
    · simp [hheld, ofAnswer, parse, hread]
    · simp [hheld, ofAnswer, parse, hread, document?_eq_error_iff, hnull, hmap]

theorem callsWith_resolveOne : callsWith answer (resolveOne ns index s).run = reads ns s := by
  obtain ⟨configMap, secret, values⟩ := s
  cases values <;> cases secret <;> cases configMap <;> rfl

theorem resultWith_resolveOne : resultWith answer (resolveOne ns index s).run =
    match s.values, s.secret, s.configMap with
    | some v, _, _ => document? ("overrides[" ++ toString index ++ "].values") v
    | none, some ref, _ => ofAnswer .secret ns ref (under answer ns .secret ref)
    | none, none, some ref => ofAnswer .configMap ns ref (under answer ns .configMap ref)
    | none, none, none => .ok none := by
  obtain ⟨configMap, secret, values⟩ := s
  cases values <;> cases secret <;> cases configMap <;> rfl

/-- An override gives what its origin gives. -/
theorem resolveOne_eq_ok_iff :
    resultWith answer (resolveOne ns index s).run = .ok d ↔ Gives answer ns s d := by
  constructor
  · intro h
    rw [resultWith_resolveOne] at h
    split at h
    · rename_i v hvalues
      rcases document?_eq_ok_iff.1 h with ⟨rfl, rfl⟩ | ⟨fields, rfl, rfl⟩
      · exact .null hvalues
      · exact .map hvalues
    · rename_i hvalues hsecret
      exact .secret hvalues hsecret (ofAnswer_eq_ok_iff.1 h)
    · rename_i hvalues hsecret hconfig
      exact .configMap hvalues hsecret hconfig (ofAnswer_eq_ok_iff.1 h)
    · rename_i hvalues hsecret hconfig
      obtain rfl := Except.ok.inj h
      exact .empty hvalues hsecret hconfig
  · intro h
    rw [resultWith_resolveOne]
    cases h with
    | map h => simp [h, document?]
    | null h => simp [h, document?]
    | secret hvalues href h => simp [hvalues, href, ofAnswer_eq_ok_iff.2 h]
    | configMap hvalues hsecret href h => simp [hvalues, hsecret, href, ofAnswer_eq_ok_iff.2 h]
    | empty hvalues hsecret hconfig => simp [hvalues, hsecret, hconfig]

/-- It fails where its origin fails. -/
theorem resolveOne_eq_error_iff :
    resultWith answer (resolveOne ns index s).run = .error e ↔ Fails answer ns index s e := by
  constructor
  · intro h
    rw [resultWith_resolveOne] at h
    split at h
    · rename_i v hvalues
      obtain ⟨hnull, hmap, rfl⟩ := document?_eq_error_iff.1 h
      exact .noMap hvalues hnull hmap
    · rename_i hvalues hsecret
      exact .secret hvalues hsecret (ofAnswer_eq_error_iff.1 h)
    · rename_i hvalues hsecret hconfig
      exact .configMap hvalues hsecret hconfig (ofAnswer_eq_error_iff.1 h)
    · cases h
  · intro h
    rw [resultWith_resolveOne]
    cases h with
    | noMap h hnull hmap => simp [h, document?_eq_error_iff, hnull, hmap]
    | secret hvalues href h => simp [hvalues, href, ofAnswer_eq_error_iff.2 h]
    | configMap hvalues hsecret href h => simp [hvalues, hsecret, href, ofAnswer_eq_error_iff.2 h]

/-- An override gives something or nothing, or it fails. -/
theorem gives_or_fails (answer : (c : Call) → c.Answer) (ns : String) (index : Nat)
    (s : ValuesSource) : (∃ d, Gives answer ns s d) ∨ ∃ e, Fails answer ns index s e := by
  cases h : resultWith answer (resolveOne ns index s).run with
  | error e => exact .inr ⟨e, resolveOne_eq_error_iff.1 h⟩
  | ok d => exact .inl ⟨d, resolveOne_eq_ok_iff.1 h⟩

theorem not_fails_of_gives (h : Gives answer ns s d) : ¬ Fails answer ns index s e := by
  intro hfails
  have hok := resolveOne_eq_error_iff.2 hfails
  simp [resolveOne_eq_ok_iff.2 h] at hok

/-- The text under a key gives a document, in whatever order its keys are written. -/
theorem KeyGives.isDocument (h : KeyGives answer ns kind ref (some v)) : v.IsDocument := by
  cases h with
  | map _ hread => exact ⟨.inr rfl, Yaml.ordered_of_readValue? hread⟩

theorem Gives.isDocument (h : Gives answer ns s (some v))
    (hvalues : ∀ w, s.values = some w → w.Ordered) : v.IsDocument := by
  cases h with
  | map h => exact ⟨.inr rfl, hvalues _ h⟩
  | secret _ _ h => exact h.isDocument
  | configMap _ _ _ h => exact h.isDocument

/-! ### The list -/

/-- All of some overrides give something or nothing. -/
def AllGive (answer : (c : Call) → c.Answer) (ns : String) (sources : List ValuesSource) : Prop :=
  ∀ s ∈ sources, ∃ d, Gives answer ns s d

theorem allGive_cons_iff : AllGive answer ns (s :: sources) ↔
    (∃ d, Gives answer ns s d) ∧ AllGive answer ns sources :=
  List.forall_mem_cons

theorem allGive_iff :
    AllGive answer ns sources ↔ ∃ given, List.Forall₂ (Gives answer ns) sources given := by
  induction sources with
  | nil => simp [AllGive]
  | cons s rest ih =>
      rw [allGive_cons_iff, ih]
      constructor
      · rintro ⟨⟨d, hd⟩, given, hgiven⟩
        exact ⟨d :: given, .cons hd hgiven⟩
      · rintro ⟨_, hgiven⟩
        cases hgiven with
        | cons hd hrest => exact ⟨⟨_, hd⟩, _, hrest⟩

theorem resolveFrom_cons_of_gives (h : Gives answer ns s d) :
    resultWith answer (resolveFrom ns index (s :: sources)).run =
      (d.toList ++ ·) <$> resultWith answer (resolveFrom ns (index + 1) sources).run := by
  rw [resolveFrom, resultWith_run_bind, resolveOne_eq_ok_iff.2 h]
  exact resultWith_run_bind answer _ _

theorem resolveFrom_cons_eq_ok_iff (h : Gives answer ns s d) :
    resultWith answer (resolveFrom ns index (s :: sources)).run = .ok documents ↔
      ∃ later, resultWith answer (resolveFrom ns (index + 1) sources).run = .ok later ∧
        documents = d.toList ++ later := by
  rw [resolveFrom_cons_of_gives h]
  cases resultWith answer (resolveFrom ns (index + 1) sources).run <;>
    simp [Functor.map, Except.map, eq_comm]

theorem resolveFrom_cons_eq_error_iff (h : Gives answer ns s d) :
    resultWith answer (resolveFrom ns index (s :: sources)).run = .error e ↔
      resultWith answer (resolveFrom ns (index + 1) sources).run = .error e := by
  rw [resolveFrom_cons_of_gives h]
  cases resultWith answer (resolveFrom ns (index + 1) sources).run <;>
    simp [Functor.map, Except.map]

theorem resolveFrom_cons_of_fails (h : Fails answer ns index s e) :
    resultWith answer (resolveFrom ns index (s :: sources)).run = .error e := by
  rw [resolveFrom, resultWith_run_bind, resolveOne_eq_error_iff.2 h]
  rfl

theorem callsWith_cons_of_gives (h : Gives answer ns s d) :
    callsWith answer (resolveFrom ns index (s :: sources)).run =
      reads ns s ++ callsWith answer (resolveFrom ns (index + 1) sources).run := by
  rw [resolveFrom, callsWith_run_bind, callsWith_resolveOne, resolveOne_eq_ok_iff.2 h]
  dsimp only
  rw [callsWith_run_bind]
  cases resultWith answer (resolveFrom ns (index + 1) sources).run <;>
    exact congrArg _ (List.append_nil _)

theorem callsWith_cons_of_fails (h : Fails answer ns index s e) :
    callsWith answer (resolveFrom ns index (s :: sources)).run = reads ns s := by
  rw [resolveFrom, callsWith_run_bind, callsWith_resolveOne, resolveOne_eq_error_iff.2 h]
  exact List.append_nil _

theorem reduceOption_cons (d : Option Json) (given : List (Option Json)) :
    (d :: given).reduceOption = d.toList ++ given.reduceOption := by
  cases d <;> simp

/-- The list comes to the documents of all overrides, in their order. -/
theorem resolveFrom_eq_ok_iff (index : Nat) (sources : List ValuesSource) (documents : List Json) :
    resultWith answer (resolveFrom ns index sources).run = .ok documents ↔
      ∃ given, List.Forall₂ (Gives answer ns) sources given ∧ documents = given.reduceOption := by
  induction sources generalizing index documents with
  | nil =>
      have hnil : resultWith answer (resolveFrom ns index []).run = .ok [] := rfl
      simp [hnil, eq_comm]
  | cons s rest ih =>
      constructor
      · intro h
        rcases gives_or_fails answer ns index s with ⟨d, hd⟩ | ⟨e, he⟩
        · obtain ⟨later, hlater, rfl⟩ := (resolveFrom_cons_eq_ok_iff hd).1 h
          obtain ⟨given, hgiven, rfl⟩ := (ih _ _).1 hlater
          exact ⟨d :: given, .cons hd hgiven, (reduceOption_cons d given).symm⟩
        · rw [resolveFrom_cons_of_fails he] at h
          cases h
      · rintro ⟨_, hgiven, rfl⟩
        cases hgiven with
        | cons hd hrest =>
            exact (resolveFrom_cons_eq_ok_iff hd).2
              ⟨_, (ih _ _).2 ⟨_, hrest, rfl⟩, reduceOption_cons _ _⟩

/-- What the list comes to can be merged as documents. -/
theorem isDocument_of_mem_resolved (hvalues : ∀ s ∈ sources, ∀ w, s.values = some w → w.Ordered)
    (h : resultWith answer (resolve ns sources).run = .ok documents) :
    ∀ d ∈ documents, d.IsDocument := by
  obtain ⟨given, hgiven, rfl⟩ := (resolveFrom_eq_ok_iff 0 sources documents).1 h
  clear h
  intro d hd
  rw [List.reduceOption_mem_iff] at hd
  induction hgiven with
  | nil => simp at hd
  | cons hgives _ ih =>
      obtain ⟨hfirst, hrest⟩ := List.forall_mem_cons.1 hvalues
      rcases List.mem_cons.1 hd with rfl | hd
      · exact hgives.isDocument hfirst
      · exact ih hrest hd

/-- It fails as the first of them that fails, each of them at its own place. -/
theorem resolveFrom_eq_error_iff (index : Nat) (sources : List ValuesSource) (e : SourceError) :
    resultWith answer (resolveFrom ns index sources).run = .error e ↔
      ∃ before s after, sources = before ++ s :: after ∧ AllGive answer ns before ∧
        Fails answer ns (index + before.length) s e := by
  constructor
  · intro h
    induction sources generalizing index with
    | nil => cases h
    | cons s rest ih =>
        rcases gives_or_fails answer ns index s with ⟨d, hd⟩ | ⟨e', he'⟩
        · obtain ⟨before, s', after, rfl, hbefore, hfails⟩ :=
            ih _ ((resolveFrom_cons_eq_error_iff hd).1 h)
          refine ⟨s :: before, s', after, rfl, allGive_cons_iff.2 ⟨⟨d, hd⟩, hbefore⟩, ?_⟩
          rwa [List.length_cons, ← Nat.add_assoc, Nat.add_right_comm]
        · rw [resolveFrom_cons_of_fails he'] at h
          obtain rfl := Except.error.inj h
          exact ⟨[], s, rest, rfl, by simp [AllGive], he'⟩
  · rintro ⟨before, s, after, rfl, hbefore, hfails⟩
    induction before generalizing index with
    | nil => exact resolveFrom_cons_of_fails hfails
    | cons t before ih =>
        obtain ⟨⟨d, hd⟩, hrest⟩ := allGive_cons_iff.1 hbefore
        refine (resolveFrom_cons_eq_error_iff hd).2 (ih _ hrest ?_)
        rwa [List.length_cons, ← Nat.add_assoc, Nat.add_right_comm] at hfails

/-- What is read are the overrides up to the first one that fails. -/
theorem callsWith_resolveFrom_append (index : Nat) (h : AllGive answer ns before)
    (rest : List ValuesSource) :
    callsWith answer (resolveFrom ns index (before ++ rest)).run =
      before.flatMap (reads ns) ++
        callsWith answer (resolveFrom ns (index + before.length) rest).run := by
  induction before generalizing index with
  | nil => rfl
  | cons s before ih =>
      obtain ⟨⟨d, hd⟩, hbefore⟩ := allGive_cons_iff.1 h
      rw [List.cons_append, callsWith_cons_of_gives hd, ih _ hbefore, List.flatMap_cons,
        List.append_assoc, List.length_cons, Nat.add_right_comm, Nat.add_assoc]

theorem resolveFrom_append (ns : String) (index : Nat) (xs ys : List ValuesSource) :
    resolveFrom ns index (xs ++ ys) = do
      let documents ← resolveFrom ns index xs
      let others ← resolveFrom ns (index + xs.length) ys
      return documents ++ others := by
  induction xs generalizing index with
  | nil => simp [resolveFrom]
  | cons s rest ih =>
      have hplace : index + 1 + rest.length = index + (s :: rest).length := by
        rw [List.length_cons, Nat.add_right_comm, Nat.add_assoc]
      simp only [List.cons_append, resolveFrom, ih, hplace, bind_assoc, pure_bind,
        List.append_assoc]

/-- Where the list begins makes no difference to what is read. -/
theorem callsWith_resolveFrom_eq (index index' : Nat) (sources : List ValuesSource) :
    callsWith answer (resolveFrom ns index sources).run =
      callsWith answer (resolveFrom ns index' sources).run := by
  induction sources generalizing index index' with
  | nil => rfl
  | cons s rest ih =>
      rcases gives_or_fails answer ns index s with ⟨d, hd⟩ | ⟨e, he⟩
      · rw [callsWith_cons_of_gives hd, callsWith_cons_of_gives hd, ih]
      · rcases gives_or_fails answer ns index' s with ⟨d, hd⟩ | ⟨e', he'⟩
        · exact absurd he (not_fails_of_gives hd)
        · rw [callsWith_cons_of_fails he, callsWith_cons_of_fails he']

/-- Overrides are resolved in their order. They come to documents exactly when each of them gives
something or nothing, and then there is one document for each map that is given; else the first one
that fails decides, from its place of the list, and none behind it is read. Some overrides behind
others are resolved once those are, with the same reads and documents as on their own. -/
theorem overrides_in_order (answer : (c : Call) → c.Answer) (ns : String)
    (sources : List ValuesSource) :
    ((∃ documents, resultWith answer (resolve ns sources).run = .ok documents) ↔
        AllGive answer ns sources) ∧
      (∀ documents, resultWith answer (resolve ns sources).run = .ok documents ↔
        ∃ given, List.Forall₂ (Gives answer ns) sources given ∧ documents = given.reduceOption) ∧
      (∀ e, resultWith answer (resolve ns sources).run = .error e ↔
        ∃ before s after, sources = before ++ s :: after ∧ AllGive answer ns before ∧
          Fails answer ns before.length s e) ∧
      (AllGive answer ns sources →
        callsWith answer (resolve ns sources).run = sources.flatMap (reads ns)) ∧
      (∀ before s after e, sources = before ++ s :: after → AllGive answer ns before →
        Fails answer ns before.length s e →
          callsWith answer (resolve ns sources).run = (before ++ [s]).flatMap (reads ns)) ∧
      ∀ xs ys, sources = xs ++ ys →
        resolve ns sources = (do
          let documents ← resolve ns xs
          let others ← resolveFrom ns xs.length ys
          return documents ++ others) ∧
        callsWith answer (resolveFrom ns xs.length ys).run =
          callsWith answer (resolve ns ys).run ∧
        ∀ others, resultWith answer (resolveFrom ns xs.length ys).run = .ok others ↔
          resultWith answer (resolve ns ys).run = .ok others := by
  refine ⟨?_, resolveFrom_eq_ok_iff 0 sources, fun e => ?_, fun h => ?_, ?_, ?_⟩
  · simp [resolve, resolveFrom_eq_ok_iff, allGive_iff]
  · simpa [resolve] using resolveFrom_eq_error_iff 0 sources e
  · have hnil : callsWith answer (resolveFrom ns sources.length []).run = [] := rfl
    simpa [resolve, hnil] using callsWith_resolveFrom_append 0 h []
  · rintro before s after e rfl hbefore hfails
    rw [resolve, callsWith_resolveFrom_append 0 hbefore, Nat.zero_add,
      callsWith_cons_of_fails hfails]
    simp
  · rintro xs ys rfl
    refine ⟨?_, callsWith_resolveFrom_eq _ _ _, fun others => ?_⟩
    · simpa [resolve] using resolveFrom_append ns 0 xs ys
    · rw [resolve, resolveFrom_eq_ok_iff, resolveFrom_eq_ok_iff]

end Sources

end ReleaseOperator
