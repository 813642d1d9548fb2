import Mathlib.Data.List.Forall2
import ReleaseOperator.Proofs.Evidence.Reports

/-!
# What a manifest speaks of

The documents of a manifest, told without its reader. A mapping is an object when all its keys are
texts and the fields of its header stand in it once at most: group and version, kind, and name,
which are empty where they are missing, and a namespace. Other documents are no objects, which is
no fault. A manifest is malformed when it is no Yaml or has a mapping that is no object, and then
nothing is read of it; otherwise the workloads are those of the objects that have a name.
-/

namespace ReleaseOperator.Manifest

open Yaml

/-! ### Fields -/

section Fields

variable {entries : List (Value × Value)} {fields : List (String × Value)} {key s name : String}
  {v : Option Value} {s? ns : Option String}

/-- The fields of a mapping whose keys are texts. -/
def FieldsOf (entries : List (Value × Value)) (fields : List (String × Value)) : Prop :=
  List.Forall₂ (fun entry field => entry.1.text? = some field.1 ∧ entry.2 = field.2) entries fields

/-- A key stands in some fields once, with this value, or not at all. -/
def Sole (fields : List (String × Value)) (key : String) (v : Option Value) : Prop :=
  fields.filter (fun field => field.1 = key) = v.toList.map fun w => (key, w)

/-- The text under a key, empty where the key is missing. -/
def TextAt (fields : List (String × Value)) (key s : String) : Prop :=
  Sole fields key none ∧ s = "" ∨ ∃ v, Sole fields key (some v) ∧ v.text? = some s

/-- The text under a key that may also be missing or null. -/
def OptionalAt (fields : List (String × Value)) (key : String) (s? : Option String) : Prop :=
  (Sole fields key none ∨ ∃ v, Sole fields key (some v) ∧ v.isNull = true) ∧ s? = none ∨
    ∃ v s, Sole fields key (some v) ∧ v.isNull = false ∧ v.text? = some s ∧ s? = some s

/-- The name and the namespace in a value that may be missing or null. -/
def MetadataAt (v : Option Value) (name : String) (ns : Option String) : Prop :=
  (∀ w, v = some w → w.untag = .atom .null) ∧ name = "" ∧ ns = none ∨
    ∃ w entries fields, v = some w ∧ w.untag = .mapping entries ∧ FieldsOf entries fields ∧
      TextAt fields "name" name ∧ OptionalAt fields "namespace" ns

theorem bind_eq_ok_iff {ε α β : Type} {x : Except ε α} {g : α → Except ε β} {b : β} :
    x >>= g = .ok b ↔ ∃ a, x = .ok a ∧ g a = .ok b := by
  constructor
  · exact ok_of_bind
  · rintro ⟨a, rfl, h⟩
    exact h

theorem mapM_eq_ok_iff {ε α β : Type} {f : α → Except ε β} {items : List α} {results : List β} :
    items.mapM f = .ok results ↔ List.Forall₂ (fun a b => f a = .ok b) items results := by
  induction items generalizing results with
  | nil =>
      rw [List.mapM_nil, List.forall₂_nil_left_iff]
      exact ⟨fun h => (Except.ok.inj h).symm, fun h => congrArg Except.ok h.symm⟩
  | cons a items ih =>
      simp only [List.mapM_cons, bind_eq_ok_iff, ih, List.forall₂_cons_left_iff]
      constructor
      · rintro ⟨b, hb, rest, hrest, h⟩
        exact ⟨b, rest, hb, hrest, (Except.ok.inj h).symm⟩
      · rintro ⟨b, rest, hb, hrest, rfl⟩
        exact ⟨b, hb, rest, hrest, rfl⟩

theorem fields?_eq_ok_iff : Value.fields? entries = .ok fields ↔ FieldsOf entries fields := by
  rw [Value.fields?, mapM_eq_ok_iff, FieldsOf]
  constructor
  · refine List.Forall₂.imp ?_
    rintro ⟨k, v⟩ ⟨s, w⟩ h
    dsimp only at h ⊢
    split at h
    · rename_i s' hs'
      obtain ⟨rfl, rfl⟩ := Prod.mk.inj (Except.ok.inj h)
      exact ⟨hs', rfl⟩
    · cases h
  · refine List.Forall₂.imp ?_
    rintro ⟨k, v⟩ ⟨s, w⟩ ⟨hs, rfl⟩
    dsimp only at hs ⊢
    rw [hs]

theorem field?_eq_ok_iff : Value.field? fields key = .ok v ↔ Sole fields key v := by
  have hkey : ∀ field ∈ fields.filter (fun field => field.1 = key), field.1 = key := by
    intro field hfield
    simpa using (List.mem_filter.1 hfield).2
  rw [Value.field?, Sole]
  generalize fields.filter (fun field => field.1 = key) = found at hkey ⊢
  rcases found with _ | ⟨⟨k, w⟩, _ | ⟨other, rest⟩⟩
  · cases v <;> simp
  · obtain rfl : k = key := hkey _ List.mem_cons_self
    cases v <;> simp
  · cases v <;> simp

theorem textField_eq_ok_iff : textField fields key = .ok s ↔ TextAt fields key s := by
  rw [textField, bind_eq_ok_iff, TextAt]
  constructor
  · rintro ⟨_ | v, hv, h⟩
    · exact .inl ⟨field?_eq_ok_iff.1 hv, (Except.ok.inj h).symm⟩
    · refine .inr ⟨v, field?_eq_ok_iff.1 hv, ?_⟩
      dsimp only at h
      split at h
      · rename_i s' hs'
        obtain rfl := Except.ok.inj h
        exact hs'
      · cases h
  · rintro (⟨hnone, rfl⟩ | ⟨v, hv, hs⟩)
    · exact ⟨none, field?_eq_ok_iff.2 hnone, rfl⟩
    · refine ⟨some v, field?_eq_ok_iff.2 hv, ?_⟩
      dsimp only
      rw [hs]
      rfl

theorem Sole.unique {w : Option Value} (h : Sole fields key v) (h' : Sole fields key w) : v = w := by
  rw [← field?_eq_ok_iff] at h h'
  exact Except.ok.inj (h.symm.trans h')

theorem optionalField_eq_ok_iff : optionalField fields key = .ok s? ↔ OptionalAt fields key s? := by
  rw [optionalField, bind_eq_ok_iff, OptionalAt]
  constructor
  · rintro ⟨_ | v, hv, h⟩
    · exact .inl ⟨.inl (field?_eq_ok_iff.1 hv), (Except.ok.inj h).symm⟩
    · have hsole := field?_eq_ok_iff.1 hv
      dsimp only at h
      split at h
      · rename_i hnull
        exact .inl ⟨.inr ⟨v, hsole, hnull⟩, (Except.ok.inj h).symm⟩
      · rename_i hnull
        obtain ⟨s, hs, h⟩ := ok_of_bind h
        obtain rfl := Except.ok.inj h
        rcases textField_eq_ok_iff.1 hs with ⟨hnone, -⟩ | ⟨w, hw, htext⟩
        · exact absurd (hnone.unique hsole) (by simp)
        · obtain rfl := Option.some.inj (hw.unique hsole)
          exact .inr ⟨w, s, hw, Bool.not_eq_true _ ▸ hnull, htext, rfl⟩
  · rintro (⟨hnone | ⟨v, hv, hnull⟩, rfl⟩ | ⟨v, s, hv, hnull, hs, rfl⟩)
    · exact ⟨none, field?_eq_ok_iff.2 hnone, rfl⟩
    · refine ⟨some v, field?_eq_ok_iff.2 hv, ?_⟩
      dsimp only
      rw [if_pos hnull]
      rfl
    · refine ⟨some v, field?_eq_ok_iff.2 hv, ?_⟩
      dsimp only
      rw [hnull, textField_eq_ok_iff.2 (.inr ⟨v, hv, hs⟩)]
      rfl

theorem metadata_eq_ok_iff : metadata v = .ok (name, ns) ↔ MetadataAt v name ns := by
  rw [MetadataAt]
  have hnothing (h : ∀ w, v = some w → w.untag = .atom .null) : metadata v = .ok ("", none) := by
    cases v with
    | none => rfl
    | some w =>
        rw [metadata, Option.map_some, h w rfl]
        rfl
  constructor
  · intro h
    cases v with
    | none =>
        obtain ⟨rfl, rfl⟩ := Prod.mk.inj (Except.ok.inj h)
        exact .inl ⟨fun w hw => (nomatch hw), rfl, rfl⟩
    | some w =>
        rw [metadata, Option.map_some] at h
        split at h
        · rename_i hnone
          cases hnone
        · rename_i hnull
          obtain ⟨rfl, rfl⟩ := Prod.mk.inj (Except.ok.inj h)
          exact .inl ⟨fun w' hw' => Option.some.inj hw' ▸ Option.some.inj hnull, rfl, rfl⟩
        · rename_i entries hentries
          obtain ⟨fields, hfields, h⟩ := ok_of_bind h
          obtain ⟨name', hname, h⟩ := ok_of_bind h
          obtain ⟨ns', hns, h⟩ := ok_of_bind h
          obtain ⟨rfl, rfl⟩ := Prod.mk.inj (Except.ok.inj h)
          exact .inr ⟨w, entries, fields, rfl, Option.some.inj hentries,
            fields?_eq_ok_iff.1 hfields, textField_eq_ok_iff.1 hname,
            optionalField_eq_ok_iff.1 hns⟩
        · cases h
  · rintro (⟨hnull, rfl, rfl⟩ | ⟨w, entries, fields, rfl, hentries, hfields, hname, hns⟩)
    · exact hnothing hnull
    · rw [metadata, Option.map_some, hentries]
      refine bind_eq_ok_iff.2 ⟨fields, fields?_eq_ok_iff.2 hfields, ?_⟩
      refine bind_eq_ok_iff.2 ⟨name, textField_eq_ok_iff.2 hname, ?_⟩
      exact bind_eq_ok_iff.2 ⟨ns, optionalField_eq_ok_iff.2 hns, rfl⟩

end Fields

/-! ### Documents -/

section Documents

variable {document : Value} {header : Header} {documents : List Value} {text ns : String}

/-- A document is a mapping. -/
def IsMapping (document : Value) : Prop :=
  ∃ entries, document.untag = .mapping entries

/-- A mapping has a header. -/
def Heads (document : Value) (header : Header) : Prop :=
  ∃ entries fields v, document.untag = .mapping entries ∧ FieldsOf entries fields ∧
    TextAt fields "apiVersion" header.apiVersion ∧ TextAt fields "kind" header.kind ∧
    Sole fields "metadata" v ∧ MetadataAt v header.name header.namespaceName

/-- A document speaks of a workload: it is of the group, the version and the kind, and it has a
name. Without a namespace, or with an empty one, the workload lies in that of the release. -/
def Speaks (documents : List Value) (releaseNamespace : String) (w : Workload) : Prop :=
  ∃ document ∈ documents, ∃ header, Heads document header ∧ header.apiVersion = "apps/v1" ∧
    header.kind = w.kind.name ∧ header.name = w.name ∧ w.name ≠ "" ∧
    ((header.namespaceName = none ∨ header.namespaceName = some "") ∧
        w.namespaceName = releaseNamespace ∨
      w.namespaceName ≠ "" ∧ header.namespaceName = some w.namespaceName)

/-- The workloads that documents speak of, in the order of the documents. -/
inductive Lists (releaseNamespace : String) : List Value → List Workload → Prop
  | nil : Lists releaseNamespace [] []
  | speaks {document : Value} {w : Workload} {documents : List Value} {ws : List Workload}
      (first : Speaks [document] releaseNamespace w) (rest : Lists releaseNamespace documents ws) :
      Lists releaseNamespace (document :: documents) (w :: ws)
  | silent {document : Value} {documents : List Value} {ws : List Workload}
      (first : ∀ w, ¬ Speaks [document] releaseNamespace w)
      (rest : Lists releaseNamespace documents ws) :
      Lists releaseNamespace (document :: documents) ws

/-- A manifest is read as some documents, and every mapping among them has a header. -/
def Reads (text : String) (documents : List Value) : Prop :=
  readAll? text = .ok documents ∧
    ∀ document ∈ documents, IsMapping document → ∃ header, Heads document header

/-- A manifest is no Yaml, or one of its documents has no value or is a mapping without a header. -/
def Malformed (text : String) : Prop :=
  (∃ p, Node.allOfText? text = .error p) ∨
    ∃ nodes, Node.allOfText? text = .ok nodes ∧ ∃ node ∈ nodes, (∃ p, node.toValue? = .error p) ∨
      ∃ document, node.toValue? = .ok document ∧ IsMapping document ∧
        ∀ header, ¬ Heads document header

theorem header?_eq_some_iff : header? document = .ok (some header) ↔ Heads document header := by
  rw [header?, Heads]
  constructor
  · intro h
    split at h
    · rename_i entries hentries
      obtain ⟨fields, hfields, h⟩ := ok_of_bind h
      obtain ⟨apiVersion, hversion, h⟩ := ok_of_bind h
      obtain ⟨kind, hkind, h⟩ := ok_of_bind h
      obtain ⟨v, hv, h⟩ := ok_of_bind h
      obtain ⟨⟨name, ns⟩, hmetadata, h⟩ := ok_of_bind h
      obtain rfl := Option.some.inj (Except.ok.inj h)
      exact ⟨entries, fields, v, hentries, fields?_eq_ok_iff.1 hfields,
        textField_eq_ok_iff.1 hversion, textField_eq_ok_iff.1 hkind, field?_eq_ok_iff.1 hv,
        metadata_eq_ok_iff.1 hmetadata⟩
    · cases h
  · rintro ⟨entries, fields, v, hentries, hfields, hversion, hkind, hv, hmetadata⟩
    rw [hentries]
    refine bind_eq_ok_iff.2 ⟨fields, fields?_eq_ok_iff.2 hfields, ?_⟩
    refine bind_eq_ok_iff.2 ⟨_, textField_eq_ok_iff.2 hversion, ?_⟩
    refine bind_eq_ok_iff.2 ⟨_, textField_eq_ok_iff.2 hkind, ?_⟩
    refine bind_eq_ok_iff.2 ⟨v, field?_eq_ok_iff.2 hv, ?_⟩
    exact bind_eq_ok_iff.2 ⟨_, metadata_eq_ok_iff.2 hmetadata, rfl⟩

theorem header?_eq_none_iff : header? document = .ok none ↔ ¬ IsMapping document := by
  rw [header?, IsMapping]
  split
  · rename_i entries hentries
    refine iff_of_false (fun h => ?_) fun h => h ⟨entries, hentries⟩
    obtain ⟨fields, -, h⟩ := ok_of_bind h
    obtain ⟨apiVersion, -, h⟩ := ok_of_bind h
    obtain ⟨kind, -, h⟩ := ok_of_bind h
    obtain ⟨v, -, h⟩ := ok_of_bind h
    obtain ⟨⟨name, ns⟩, -, h⟩ := ok_of_bind h
    cases h
  · rename_i hother
    exact iff_of_true rfl fun ⟨entries, hentries⟩ => hother entries hentries

/-- A document is decoded exactly when it has a header or needs none. -/
theorem exists_header?_iff :
    (∃ h, header? document = .ok h) ↔ (IsMapping document → ∃ header, Heads document header) := by
  constructor
  · rintro ⟨_ | header, h⟩ hmapping
    · exact absurd hmapping (header?_eq_none_iff.1 h)
    · exact ⟨header, header?_eq_some_iff.1 h⟩
  · intro h
    by_cases hmapping : IsMapping document
    · obtain ⟨header, hheads⟩ := h hmapping
      exact ⟨some header, header?_eq_some_iff.2 hheads⟩
    · exact ⟨none, header?_eq_none_iff.2 hmapping⟩

/-! ### Whole manifests -/

section MapM

variable {ε α β : Type} {f : α → Except ε β} {items : List α} {results : List β}

theorem exists_mapM_iff {P : β → Prop} :
    (∃ results, items.mapM f = .ok results ∧ ∀ b ∈ results, P b) ↔
      ∀ a ∈ items, ∃ b, f a = .ok b ∧ P b := by
  induction items with
  | nil => exact iff_of_true ⟨[], rfl, List.forall_mem_nil _⟩ (List.forall_mem_nil _)
  | cons a items ih =>
      simp only [List.mapM_cons, bind_eq_ok_iff, List.forall_mem_cons, ← ih]
      constructor
      · rintro ⟨_, ⟨b, hb, rest, hrest, h⟩, hall⟩
        obtain rfl := Except.ok.inj h
        rw [List.forall_mem_cons] at hall
        exact ⟨⟨b, hb, hall.1⟩, rest, hrest, hall.2⟩
      · rintro ⟨⟨b, hb, hPb⟩, rest, hrest, hall⟩
        exact ⟨b :: rest, ⟨b, hb, rest, hrest, rfl⟩, List.forall_mem_cons.2 ⟨hPb, hall⟩⟩

theorem mem_iff_of_mapM (h : items.mapM f = .ok results) {b : β} :
    b ∈ results ↔ ∃ a ∈ items, f a = .ok b := by
  rw [mapM_eq_ok_iff] at h
  induction h with
  | nil => simp
  | cons hfirst _ ih => simp [ih, hfirst, eq_comm]

end MapM

/-- The workloads of a manifest can be told exactly when it is read. -/
theorem exists_workloads_iff :
    (∃ ws, workloads text ns = .ok ws) ↔ ∃ documents, Reads text documents := by
  have hheaders (documents : List Value) :
      (∀ document ∈ documents, IsMapping document → ∃ header, Heads document header) ↔
        ∃ headers, documents.mapM header? = .ok headers := by
    have hall : (∃ headers, documents.mapM header? = .ok headers ∧ ∀ h ∈ headers, True) ↔
        ∀ document ∈ documents, ∃ h, header? document = .ok h ∧ True := exists_mapM_iff
    simpa [exists_header?_iff] using hall.symm
  simp only [workloads, bind_eq_ok_iff, Reads, hheaders]
  constructor
  · rintro ⟨_, documents, hread, headers, hheaders, -⟩
    exact ⟨documents, hread, headers, hheaders⟩
  · rintro ⟨documents, hread, headers, hheaders⟩
    exact ⟨_, documents, hread, headers, hheaders, rfl⟩

theorem exists_reads_iff : (∃ documents, Reads text documents) ↔
    ∃ nodes, Node.allOfText? text = .ok nodes ∧ ∀ node ∈ nodes, ∃ document,
      node.toValue? = .ok document ∧ (IsMapping document → ∃ header, Heads document header) := by
  simp only [Reads, readAll?, bind_eq_ok_iff, ← exists_mapM_iff]
  constructor
  · rintro ⟨documents, ⟨nodes, hnodes, hdocuments⟩, hheads⟩
    exact ⟨nodes, hnodes, documents, hdocuments, hheads⟩
  · rintro ⟨nodes, hnodes, documents, hdocuments, hheads⟩
    exact ⟨documents, ⟨nodes, hnodes, hdocuments⟩, hheads⟩

/-- A manifest is read unless it is malformed. -/
theorem malformed_iff : Malformed text ↔ ¬ ∃ documents, Reads text documents := by
  rw [exists_reads_iff, Malformed]
  constructor
  · rintro (⟨p, hp⟩ | ⟨nodes, hnodes, node, hnode, hfaulty⟩) ⟨nodes', hnodes', hall⟩
    · rw [hp] at hnodes'
      cases hnodes'
    · obtain rfl := Except.ok.inj (hnodes.symm.trans hnodes')
      obtain ⟨document, hdocument, hheads⟩ := hall node hnode
      rw [hdocument] at hfaulty
      rcases hfaulty with ⟨p, ⟨⟩⟩ | ⟨_, ⟨⟩, hmapping, hnone⟩
      obtain ⟨header, hheader⟩ := hheads hmapping
      exact hnone header hheader
  · intro hnot
    cases hnodes : Node.allOfText? text with
    | error p => exact .inl ⟨p, rfl⟩
    | ok nodes =>
        refine .inr ⟨nodes, rfl, ?_⟩
        have hsome : ¬ ∀ node ∈ nodes, ∃ document, node.toValue? = .ok document ∧
            (IsMapping document → ∃ header, Heads document header) :=
          fun hall => hnot ⟨nodes, hnodes, hall⟩
        simp only [not_forall] at hsome
        obtain ⟨node, hnode, hnone⟩ := hsome
        refine ⟨node, hnode, ?_⟩
        cases hdocument : node.toValue? with
        | error p => exact .inl ⟨p, rfl⟩
        | ok document =>
            rw [hdocument] at hnone
            simpa using hnone

theorem ofObject?_eq_some_iff {kind : WorkloadKind} {apiVersion s : String} :
    WorkloadKind.ofObject? apiVersion s = some kind ↔ apiVersion = "apps/v1" ∧ s = kind.name := by
  have hname : WorkloadKind.ofName? s = some kind ↔ s = kind.name := by
    constructor
    · intro h
      have hfound := List.find?_some h
      exact (of_decide_eq_true hfound).symm
    · rintro rfl
      exact WorkloadKind.ofName?_name kind
  rw [WorkloadKind.ofObject?, WorkloadKind.apiVersion]
  split
  · rename_i hversion
    rw [hname, and_iff_right hversion]
  · rename_i hversion
    exact iff_of_false (by simp) fun h => hversion h.1

theorem workload?_eq_some_iff {w : Workload} :
    header.workload? ns = some w ↔ header.apiVersion = "apps/v1" ∧ header.kind = w.kind.name ∧
      header.name = w.name ∧ w.name ≠ "" ∧
      ((header.namespaceName = none ∨ header.namespaceName = some "") ∧ w.namespaceName = ns ∨
        w.namespaceName ≠ "" ∧ header.namespaceName = some w.namespaceName) := by
  obtain ⟨kind, wns, name⟩ := w
  have hplace : (header.namespaceName.filter fun ns => !ns.isEmpty).getD ns = wns ↔
      ((header.namespaceName = none ∨ header.namespaceName = some "") ∧ wns = ns ∨
        wns ≠ "" ∧ header.namespaceName = some wns) := by
    rcases header.namespaceName with _ | own
    · simp [eq_comm]
    · by_cases hown : own = ""
      · subst hown
        have hfilter : (some "").filter (fun ns => !ns.isEmpty) = none := rfl
        rw [hfilter, Option.getD_none]
        simp [eq_comm]
      · have hfilter : (some own).filter (fun ns => !ns.isEmpty) = some own := by
          rw [Option.filter_some, if_pos]
          simpa using hown
        rw [hfilter, Option.getD_some, Option.some.injEq, Option.some.injEq]
        constructor
        · rintro rfl
          exact .inr ⟨hown, rfl⟩
        · rintro (⟨hnone | hempty, -⟩ | ⟨-, hsame⟩)
          · cases hnone
          · exact absurd hempty hown
          · exact hsame
  dsimp only
  rw [← hplace, Header.workload?]
  split
  · rename_i hempty
    refine iff_of_false (by simp) ?_
    rintro ⟨-, -, rfl, hname, -⟩
    exact hname (String.isEmpty_iff.1 hempty)
  · rename_i hempty
    rw [String.isEmpty_iff] at hempty
    simp only [Option.map_eq_some_iff, ofObject?_eq_some_iff, Workload.mk.injEq]
    constructor
    · rintro ⟨_, ⟨hversion, hkind⟩, rfl, hns, rfl⟩
      exact ⟨hversion, hkind, rfl, hempty, hns⟩
    · rintro ⟨hversion, hkind, rfl, -, hns⟩
      exact ⟨kind, ⟨hversion, hkind⟩, rfl, hns, rfl⟩

/-- The workloads of a manifest are those that it speaks of. -/
theorem mem_workloads_iff {ws : List Workload} (h : workloads text ns = .ok ws)
    (hread : readAll? text = .ok documents) (w : Workload) : w ∈ ws ↔ Speaks documents ns w := by
  obtain ⟨documents', hread', h⟩ := ok_of_bind h
  obtain rfl : documents = documents' := Except.ok.inj (hread.symm.trans hread')
  obtain ⟨headers, hheaders, h⟩ := ok_of_bind h
  obtain rfl := Except.ok.inj h
  have hmem (header : Header) :
      some header ∈ headers ↔ ∃ document ∈ documents, Heads document header := by
    simp only [mem_iff_of_mapM hheaders, header?_eq_some_iff]
  simp only [List.mem_filterMap, id, exists_eq_right, hmem, workload?_eq_some_iff, Speaks]
  constructor
  · rintro ⟨header, ⟨document, hdocument, hheads⟩, hspeaks⟩
    exact ⟨document, hdocument, header, hheads, hspeaks⟩
  · rintro ⟨document, hdocument, header, hheads, hspeaks⟩
    exact ⟨header, ⟨document, hdocument, hheads⟩, hspeaks⟩

/-- A document speaks of the workload that its header tells. -/
theorem speaks_singleton_iff {h : Option Header} (hheader : header? document = .ok h)
    (ns : String) (w : Workload) :
    Speaks [document] ns w ↔ h.bind (Header.workload? ns) = some w := by
  have hheads (header : Header) : Heads document header ↔ h = some header := by
    rw [← header?_eq_some_iff, hheader, Except.ok.injEq]
  simp only [Speaks, List.mem_singleton, exists_eq_left, hheads, Option.bind_eq_some_iff,
    workload?_eq_some_iff]

theorem lists_of_mapM {headers : List (Option Header)} (h : documents.mapM header? = .ok headers) :
    Lists ns documents ((headers.filterMap id).filterMap (Header.workload? ns)) := by
  rw [mapM_eq_ok_iff] at h
  rw [List.filterMap_filterMap]
  induction h with
  | nil => exact .nil
  | @cons document h documents headers hfirst _ ih =>
      have hspeaks := speaks_singleton_iff hfirst ns
      rw [List.filterMap_cons]
      split
      · rename_i hnone
        refine .silent (fun w hw => ?_) ih
        rw [hspeaks] at hw
        exact absurd (hnone.symm.trans hw) (by simp)
      · rename_i w hw
        exact .speaks ((hspeaks w).2 hw) ih

theorem Speaks.unique {v w : Workload} (h : Speaks [document] ns v) (h' : Speaks [document] ns w) :
    v = w := by
  have hsome : ∃ header, Heads document header := by
    obtain ⟨_, hmem, header, hheads, -⟩ := h
    exact List.mem_singleton.1 hmem ▸ ⟨header, hheads⟩
  obtain ⟨header, hheads⟩ := hsome
  rw [speaks_singleton_iff (header?_eq_some_iff.2 hheads)] at h h'
  exact Option.some.inj (h.symm.trans h')

theorem Lists.unique {ws ws' : List Workload} (h : Lists ns documents ws)
    (h' : Lists ns documents ws') : ws = ws' := by
  induction h generalizing ws' with
  | nil =>
      cases h'
      rfl
  | speaks first _ ih =>
      cases h' with
      | speaks first' rest' => rw [first.unique first', ih rest']
      | silent first' _ => exact absurd first (first' _)
  | silent first _ ih =>
      cases h' with
      | speaks first' _ => exact absurd first' (first _)
      | silent _ rest' => exact ih rest'

/-- The workloads of a manifest that is read are listed in the order of its documents. -/
theorem workloads_eq_ok_iff {ws : List Workload} :
    workloads text ns = .ok ws ↔ ∃ documents, Reads text documents ∧ Lists ns documents ws := by
  have hlists {documents : List Value} {ws : List Workload} (hread : readAll? text = .ok documents)
      (h : workloads text ns = .ok ws) : Lists ns documents ws := by
    obtain ⟨documents', hread', h⟩ := ok_of_bind h
    obtain rfl : documents = documents' := Except.ok.inj (hread.symm.trans hread')
    obtain ⟨headers, hheaders, h⟩ := ok_of_bind h
    exact Except.ok.inj h ▸ lists_of_mapM hheaders
  constructor
  · intro h
    obtain ⟨documents, hreads⟩ := exists_workloads_iff.1 ⟨ws, h⟩
    exact ⟨documents, hreads, hlists hreads.1 h⟩
  · rintro ⟨documents, hreads, hlisted⟩
    obtain ⟨ws', h⟩ := exists_workloads_iff.2 ⟨documents, hreads⟩
    rw [h, (hlists hreads.1 h).unique hlisted]

end Documents

end ReleaseOperator.Manifest
