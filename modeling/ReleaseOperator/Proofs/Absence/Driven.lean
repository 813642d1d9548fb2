import Mathlib.Data.List.Infix
import ReleaseOperator.Text.Search
import ReleaseOperator.Helm.Client
import ReleaseOperator.Proofs.Behaviour
import ReleaseOperator.Proofs.Evidence.Tending
import ReleaseOperator.Proofs.Pinning.Plain

/-!
# Passes that are driven by the client

What a pass asks of Helm is answered by the client, which asks a machine in its turn: a program
inside a program. All else is answered as in any contest with users. While nobody takes the
finalizer off a resource that is being deleted, only a write of the resource as a whole could,
and the work of a deletion up to its wait asks for none.
-/

namespace ReleaseOperator.Text

/-!
## Answers of the Helm client

The client runs a program and reads its end. A run that fails is a failure with the text that
it left, and some of the questions take it for the answer that there is no such release: those
that ask what is known of a release, and the removal of one, when the text says that something
was not found.
-/

/-!
## Texts inside trimmed texts

Trimming takes only blanks, and only at the ends. So a text whose first and last characters are
no blanks occurs in a trimmed text where it occurs in the whole.
-/

variable {part cs : List Char}

theorem startsWith_iff {start : List Char} : startsWith start cs = true ↔ start <+: cs := by
  rw [startsWith, Option.isSome_iff_exists]
  constructor
  · rintro ⟨rest, h⟩
    exact ⟨rest, (dropStart?_eq_some_iff.1 h).symm⟩
  · rintro ⟨rest, rfl⟩
    exact ⟨rest, dropStart?_eq_some_iff.2 rfl⟩

theorem containsInfix_iff : containsInfix part cs = true ↔ part <:+: cs := by
  induction cs with
  | nil => rw [containsInfix, List.isEmpty_iff, List.infix_nil]
  | cons c cs ih => rw [containsInfix, Bool.or_eq_true, startsWith_iff, ih, List.infix_cons_iff]

theorem contains_iff {s t : String} : contains s t = true ↔ t.toList <:+: s.toList :=
  containsInfix_iff

/-- Blanks in front of a text that begins with none are not part of it. -/
theorem infix_dropWhile_isBlank_iff (h : ∀ c ∈ part.head?, isBlank c = false) :
    part <:+: cs.dropWhile isBlank ↔ part <:+: cs := by
  constructor
  · exact fun hin => hin.trans (List.dropWhile_suffix _).isInfix
  · rintro ⟨front, back, rfl⟩
    have hpart : (part ++ back).dropWhile isBlank = part ++ back ∨ part = [] := by
      cases part with
      | nil => exact Or.inr rfl
      | cons c rest =>
          have hc : isBlank c = false := h c rfl
          refine Or.inl ?_
          rw [List.cons_append, List.dropWhile_cons, hc]
          rfl
    rcases hpart with hpart | rfl
    · rw [List.append_assoc, List.dropWhile_append, hpart]
      split
      · exact ⟨[], back, rfl⟩
      · exact ⟨_, back, List.append_assoc _ _ _⟩
    · exact List.nil_infix

/-- Trimming takes nothing away from a text that neither begins nor ends with a blank. -/
theorem infix_trimChars_iff (hfirst : ∀ c ∈ part.head?, isBlank c = false)
    (hlast : ∀ c ∈ part.getLast?, isBlank c = false) : part <:+: trimChars cs ↔ part <:+: cs := by
  have hreverse : ∀ c ∈ part.reverse.head?, isBlank c = false := by
    rw [List.head?_reverse]
    exact hlast
  rw [trimChars, ← List.reverse_infix, List.reverse_reverse, infix_dropWhile_isBlank_iff hreverse,
    List.reverse_infix, infix_dropWhile_isBlank_iff hfirst]

theorem contains_trim {s t : String} (hfirst : ∀ c ∈ t.toList.head?, isBlank c = false)
    (hlast : ∀ c ∈ t.toList.getLast?, isBlank c = false) :
    contains (trim s) t = contains s t := by
  rw [Bool.eq_iff_iff, contains_iff, contains_iff, trim, String.toList_ofList]
  exact infix_trimChars_iff hfirst hlast

end ReleaseOperator.Text

namespace ReleaseOperator.Helm

/-! ## What the client answers -/

open Program

/-- A run that ended in failure, with a text. -/
def Ending.Fails (tells : String → Prop) (ending : Ending) : Prop :=
  ∃ code stdout stderr, ending = .exited code stdout stderr ∧ code ≠ 0 ∧
    tells (Text.Utf8.decodeMarked stderr)

/-- A failure that says that something was not found. -/
def saysAbsent (text : String) : Bool := Text.contains text "not found"

/-- The text with which Helm itself says that there is no such release. -/
def saysReleaseAbsent (text : String) : Bool := Text.contains text "release: not found"

/-- An answer that is an error, and none that says that there is no such release. -/
def Refused {α : Type} (a : Except HelmError α) : Prop :=
  ∃ e, a = .error e ∧ ∀ name ns, e ≠ .releaseNotFound name ns

theorem refused_commandFailed {α : Type} (label text : String) :
    Refused (.error (.commandFailed label text) : Except HelmError α) :=
  ⟨_, rfl, fun _ _ h => by cases h⟩

/-- What holds of a report that is a refusal holds of all that is read off it. -/
theorem Refused.report {r : Report} (h : Refused r) (name ns : String) :
    Refused r.isInstalled ∧ Refused r.isDeployed ∧ Refused (r.part name ns ReleaseInfo.status) ∧
      Refused (r.part name ns ReleaseInfo.chartVersion) := by
  obtain ⟨e, rfl, he⟩ := h
  exact ⟨⟨e, rfl, he⟩, ⟨e, rfl, he⟩, ⟨e, rfl, he⟩, ⟨e, rfl, he⟩⟩

/-- Whatever is asked about a release is answered by an error, and by none that says that there
is no such release. -/
def TellsFailure (name ns : String) (a : Report) : Prop :=
  Refused a ∧ Refused a.isInstalled ∧ Refused a.isDeployed ∧
    Refused (a.part name ns ReleaseInfo.status)

/-- It is answered that there is no such release. -/
def TellsAbsence (name ns : String) (a : Report) : Prop :=
  a = .ok none ∧ a.isInstalled = .ok false ∧ a.isDeployed = .ok false ∧
    a.part name ns ReleaseInfo.status = .error (.releaseNotFound name ns)

theorem tellsFailure_of_refused {name ns : String} {a : Report} (h : Refused a) :
    TellsFailure name ns a := by
  obtain ⟨hinstalled, hdeployed, hstatus, _⟩ := h.report name ns
  exact ⟨h, hinstalled, hdeployed, hstatus⟩

theorem tellsAbsence_none {name ns : String} : TellsAbsence name ns (.ok none) :=
  ⟨rfl, rfl, rfl, rfl⟩

theorem saysNotFound_commandFailed {label text : String} :
    saysNotFound (.commandFailed label (Text.trim text)) = saysAbsent text :=
  Text.contains_trim (by rintro _ ⟨⟩; decide) (by rintro _ ⟨⟩; decide)

theorem saysAbsent_of_saysReleaseAbsent {text : String} (h : saysReleaseAbsent text = true) :
    saysAbsent text = true := by
  rw [saysReleaseAbsent, Text.contains_iff] at h
  rw [saysAbsent, Text.contains_iff]
  exact List.IsInfix.trans ⟨"release: ".toList, [], by decide⟩ h

namespace Client

variable {T : Type} {b : Behaviour ShellCall ShellCall.Answer T} {t : T} {client : Client}
  {label name ns : String} {args : List String} {tells tells' : String → Prop}

/-- Every run of a command in a state of the machine fails, with a text of some sort. -/
def FailsOn (client : Client) (b : Behaviour ShellCall ShellCall.Answer T) (t : T)
    (args : List String) (tells : String → Prop) : Prop :=
  ∀ ending t', b.may t (.run ⟨Arguments.inContext client.context args, none⟩ client.deadline)
    ending t' → ending.Fails tells

theorem FailsOn.imp (h : client.FailsOn b t args tells) (himp : ∀ text, tells text → tells' text) :
    client.FailsOn b t args tells' := by
  intro ending t' hmay
  obtain ⟨code, stdout, stderr, hending, hcode, htells⟩ := h ending t' hmay
  exact ⟨code, stdout, stderr, hending, hcode, himp _ htells⟩

/-- A run that fails is a failure with the text that it left. -/
theorem always_run_of_fails {post : Except HelmError String → T → Prop}
    (hfails : client.FailsOn b t args tells)
    (hpost : ∀ text t', tells text → post (.error (.commandFailed label (Text.trim text))) t') :
    Always b (client.run label args none).run t post := by
  intro ending t' hmay
  obtain ⟨code, stdout, stderr, rfl, hcode, htells⟩ := hfails ending t' hmay
  obtain ⟨n, rfl⟩ := Nat.exists_eq_succ_of_ne_zero hcode
  intro u t'' _
  exact hpost _ t'' htells

/-- A failure to tell what is known of a release is a failure, or there is none. -/
theorem always_releaseInfo_of_fails {post : Report → T → Prop}
    (hfails : client.FailsOn b t (Arguments.getJson "metadata" name ns) tells)
    (hpost : ∀ text t', tells text → post
      (if saysAbsent text then .ok none
        else .error (.commandFailed "get-metadata" (Text.trim text))) t') :
    Always b (client.releaseInfo name ns).run t post := by
  change Always b (_ >>= _) t post
  rw [always_bind]
  refine always_run_of_fails hfails fun text t' htells => ?_
  change post (if saysNotFound _ = true then _ else _) t'
  rw [saysNotFound_commandFailed]
  exact hpost text t' htells

/-- So is a failure to remove a release. -/
theorem always_uninstall_of_fails {dryRun : Bool} {post : Except HelmError Unit → T → Prop}
    (hfails : client.FailsOn b t (Arguments.uninstall name ns dryRun) tells)
    (hpost : ∀ text t', tells text → post
      (if saysAbsent text then .ok ()
        else .error (.commandFailed "uninstall" (Text.trim text))) t') :
    Always b (client.uninstall name ns dryRun).run t post := by
  change Always b (ExceptT.run (_ <$> _) >>= _) t post
  rw [always_bind, ExceptT.run_map, always_map]
  refine always_run_of_fails hfails fun text t' htells => ?_
  change Always b (ExceptT.run (if saysNotFound _ = true then _ else _)) t' post
  have h := hpost text t' htells
  rw [saysNotFound_commandFailed]
  cases habsent : saysAbsent text with
  | true =>
      rw [habsent] at h
      exact h
  | false =>
      rw [habsent] at h
      exact h

/-- The values of a release are not had, whatever the failure. -/
theorem always_values_of_fails {post : Except HelmError Json → T → Prop}
    (hfails : client.FailsOn b t (Arguments.getJson "values" name ns) tells)
    (hpost : ∀ text t', tells text →
      post (.error (.commandFailed "get-values" (Text.trim text))) t') :
    Always b (client.values name ns).run t post := by
  change Always b (_ >>= _) t post
  rw [always_bind]
  exact always_run_of_fails hfails hpost

end Client

end ReleaseOperator.Helm

namespace ReleaseOperator

open InMemory Relation Program Helm

/-! ## Calls and passes -/

/-- What the client makes of a machine is the answer to what is asked of Helm. -/
def Call.Served {T : Type} (client : Client) (b : Behaviour ShellCall ShellCall.Answer T) (t : T) :
    (c : Call) → c.Answer → T → Prop
  | .helm c, a, t' => Runs b (client.answer c) t a t'
  | _, _, t' => t' = t

/-- A call that does not write a resource as a whole. -/
def Call.isSparing : Call → Bool
  | .store (.update _) => false
  | _ => true

theorem Call.isSparing_of_isQuiet {c : Call} (h : c.isQuiet = true) : c.isSparing = true := by
  rcases c with (_ | _ | _) | _ | _ | _ | _ | _ | _ <;>
    first | rfl | exact absurd h Bool.false_ne_true

namespace InMemory.Store

variable {s s' : Store} {kind : Kind} {ns name : String} {o w : Resource}
  {a : Except ClusterError Resource}

/-- A status that is written leaves each stored resource as it was, but for status and
revision. -/
theorem Keyed.matches_updateStatus (h : s.Keyed kind) (hw : (a, s') = s.updateStatus w)
    (ho : s.get? ns name = some o) :
    s'.Keyed kind ∧ ∃ o', s'.get? ns name = some o' ∧ o.Matches o' := by
  cases a with
  | error e =>
      obtain rfl := updateStatus_error hw
      exact ⟨h, o, ho, .refl o⟩
  | ok new =>
      have hkey : keyOf w = (w.namespaceName, w.name) := rfl
      obtain ⟨old, hold, _, rfl, hnew, hkeyed⟩ := updateStatus_ok h hkey hw
      refine ⟨hkeyed, ?_⟩
      by_cases hkey : (ns, name) = (w.namespaceName, w.name)
      · obtain ⟨rfl, rfl⟩ := Prod.mk.inj hkey
        obtain rfl := Option.some.inj (hold.symm.trans ho)
        exact ⟨_, hnew, ((Resource.Matches.refl old).copyStatus w).withRevision _⟩
      · have hother : (ns, name) ≠ keyOf (withStatusOf old w (s.revision + 1)) := by
          have hkey' := (h _ _ old hold).2
          exact fun heq => hkey (heq.trans hkey')
        unfold updateStatus at hw
        split at hw
        · exact absurd (congrArg Prod.fst hw) (by simp)
        · injection hw with hsame hs'
          injection hsame with hsame
          subst hs'
          rw [hsame] at hother
          exact ⟨o, (Table.get?_put_of_ne hother).trans ho, .refl o⟩

end InMemory.Store

namespace Contest

variable {T : Type} {client : Client} {b : Behaviour ShellCall ShellCall.Answer T} {kind : Kind}
  {ns name : String} {id : ObjectId} {s s' : Contest} {t t' : T} {c : Call} {a : c.Answer}

/-- Calls to Helm go through the client, and all else is as in a contest with users. -/
def driven (kind : Kind) (ns name : String) (client : Client)
    (b : Behaviour ShellCall ShellCall.Answer T) : Conduct (Contest × T) where
  may st c a st' := (conduct kind ns name).may st.1 c a st'.1 ∧ c.Served client b st.2 a st'.2
  answers st c := by
    cases c with
    | helm c =>
        obtain ⟨a, t', hrun⟩ := exists_runs (b := b) (client.answer c) st.2
        exact ⟨a, ⟨_, t'⟩, ⟨st.1.store, rfl, .refl⟩, hrun⟩
    | _ =>
        obtain ⟨a, s', h⟩ := (conduct kind ns name).answers st.1 _
        exact ⟨a, ⟨s', st.2⟩, h, rfl⟩

/-- The stored resource is to be deleted, and its finalizer holds it. -/
structure Held (kind : Kind) (ns name : String) (id : ObjectId) (s : Contest) : Prop where
  keyed : s.store.Keyed kind
  stored : ∃ o, s.store.get? ns name = some o ∧ o.isDeleting = true ∧ o.hasFinalizer = true ∧
    ObjectId.ofResource o = id

theorem Held.of_same (h : Held kind ns name id s) (hsame : s'.store = s.store) :
    Held kind ns name id s' :=
  ⟨hsame ▸ h.keyed, hsame ▸ h.stored⟩

/-- Users who edit a resource take neither its finalizer nor its deletion back. -/
theorem Held.edit (h : Held kind ns name id s) (hedit : Edit ns name s s') :
    Held kind ns name id s' := by
  obtain ⟨old, spec, store, hold, hkind, hspec, hedit, rfl⟩ := hedit
  obtain ⟨hnew, hkeyed⟩ := Store.edit_ok h.keyed hold hkind hspec hedit
  obtain ⟨o, ho, hdeleting, hheld, hid⟩ := h.stored
  obtain rfl := Option.some.inj (hold.symm.trans ho)
  refine ⟨hkeyed, _, hnew, hdeleting, ?_, ?_⟩
  · rw [← hheld, Resource.hasFinalizer, Resource.hasFinalizer, ← hkind]
    rfl
  · rw [← hid]
    exact objectId_eq hkind rfl rfl

theorem Held.edits (h : Held kind ns name id s) (hedits : ReflTransGen (Edit ns name) s s') :
    Held kind ns name id s' := by
  induction hedits with
  | refl => exact h
  | tail _ hedit ih => exact ih.edit hedit

/-- A call that does not write the resource as a whole leaves it held. -/
theorem Held.of_answered (h : Held kind ns name id s) {store : Store}
    (hsparing : c.isSparing = true) (hans : Answered kind s.store c a store) :
    Held kind ns name id ⟨store, .asked c a :: s.story⟩ := by
  by_cases hquiet : c.isQuiet = true
  · exact h.of_same (answered_of_isQuiet hquiet hans)
  · rcases c with (_ | _ | w) | _ | (_ | _ | _ | _ | _ | _) | _ | _ | _ | _
    case store.updateStatus =>
      rw [Answered] at hans
      split at hans
      · rcases hans with hrules | ⟨_, hsame, _⟩
        · obtain ⟨o, ho, hdeleting, hheld, hid⟩ := h.stored
          obtain ⟨hkeyed, o', ho', hmatches⟩ := h.keyed.matches_updateStatus hrules ho
          refine ⟨hkeyed, o', ho', hmatches.isDeleting.trans hdeleting,
            hmatches.hasFinalizer.trans hheld, ?_⟩
          rw [← hid]
          exact objectId_eq hmatches.kind hmatches.key hmatches.uid
        · exact h.of_same hsame
      · exact h.of_same hans
    case store.update => exact absurd hsparing Bool.false_ne_true
    all_goals first
      | exact absurd rfl hquiet
      | exact h.of_same hans

theorem Held.of_may (h : Held kind ns name id s) (hsparing : c.isSparing = true)
    (hmay : (driven kind ns name client b).may (s, t) c a (s', t')) : Held kind ns name id s' := by
  obtain ⟨store, hans, hedits⟩ := hmay.1
  exact (h.of_answered hsparing hans).edits hedits

end Contest

/-! ### What a deletion asks before its release is gone -/

namespace Pass

variable {α : Type}

/-- A pass that writes no resource as a whole. -/
abbrev Sparing (p : Pass α) : Prop := Asks (fun c : Call => c.isSparing = true) p

theorem Quiet.sparing {p : Pass α} (hp : Quiet p) : Sparing p :=
  hp.mono fun _ hc => Call.isSparing_of_isQuiet hc.1

theorem sparing_persistStatus (r : Resource) : Sparing (persistStatus r) := by
  refine ⟨rfl, ?_⟩
  rintro (e | _ | latest)
  · exact (quiet_refused e).sparing.bind fun _ => trivial
  · exact quiet_shortDelay.sparing.bind fun _ => trivial
  · change Sparing (if _ then _ else _)
    split
    · exact quiet_shortDelay.sparing.bind fun _ => trivial
    · refine ⟨rfl, ?_⟩
      rintro (e | stored)
      · exact (quiet_refused e).sparing.bind fun _ => trivial
      · exact trivial

end Pass

namespace Work

variable {setup : Setup} {st : Stage} {work : Work Outcome}

/-- Work that writes no resource as a whole. -/
abbrev Sparing {α : Type} (work : Work α) : Prop := AsksOnly (fun c => c.isSparing = true) work

theorem sparing_announce (reason : Reason) (detail : Option String) :
    Sparing (announce reason detail) := by
  have hnote : Sparing (note reason detail) :=
    (asksOnly_ask Pass.quiet_now.sparing).bind fun _ => asksOnly_get.bind fun _ =>
      (asksOnly_modify _).bind fun _ => asksOnly_pure _
  refine hnote.bind fun news => ?_
  split
  · exact (asksOnly_about fun j => Pass.sparing_persistStatus j.resource).bind fun _ =>
      (asksOnly_modify _).bind fun _ => asksOnly_pure _
  · exact asksOnly_pure _

theorem sparing_fail (reason : Reason) (f : Failure) : Sparing (fail reason f) :=
  (sparing_announce reason _).bind fun _ => asksOnly_ask (Pass.quiet_shortDelayWith f).sparing

theorem sparing_hook (moment : HookMoment) (action : Action) : Sparing (hook moment action) :=
  asksOnly_about fun j => (Pass.quiet_hook moment action j.release).sparing

theorem sparing_uninstall (setup : Setup) : Sparing (uninstall setup) := by
  unfold uninstall
  split
  · exact asksOnly_pure _
  · refine asksOnly_get.bind fun j => (asksOnly_ask (Pass.quiet_releaseInfo _ _).sparing).bind ?_
    rintro (e | _ | info)
    · exact asksOnly_ask (Pass.quiet_shortDelayWith (.helm e)).sparing
    · exact asksOnly_pure _
    · have hremoval : Pass.Sparing (Pass.helm (.uninstall j.release.name j.release.namespaceName
          false)) := ⟨rfl, fun _ => trivial⟩
      refine (asksOnly_ask hremoval).bind ?_
      rintro (e | u)
      · exact sparing_fail _ _
      · exact asksOnly_pure _

theorem sparing_isGone (setup : Setup) : Sparing (isGone setup) := by
  unfold isGone
  split
  · exact asksOnly_pure _
  · refine asksOnly_get.bind fun j => (asksOnly_ask (Pass.quiet_releaseInfo _ _).sparing).bind ?_
    rintro (e | info)
    · exact asksOnly_ask (Pass.quiet_unanswered (.helm e)).sparing
    · exact asksOnly_pure _

/-- Up to its work a deletion writes no resource as a whole. -/
theorem sparing_step (hmem : (st, work) ∈ (Worker.forAction setup .delete).steps)
    (hst : st.rank ≤ 5) : Sparing work := by
  simp only [Worker.steps, Worker.forAction, List.mem_cons, Prod.mk.injEq, List.not_mem_nil,
    or_false] at hmem
  rcases hmem with ⟨_, rfl⟩ | ⟨_, rfl⟩ | ⟨_, rfl⟩ | ⟨_, rfl⟩ | ⟨rfl, _⟩ | ⟨rfl, _⟩ | ⟨rfl, _⟩
  · exact sparing_announce _ _
  · exact sparing_hook _ _
  · exact sparing_announce _ _
  · exact sparing_uninstall setup
  all_goals exact absurd hst (by decide)

end Work

namespace Contest

variable {T α : Type} {client : Client} {b : Behaviour ShellCall ShellCall.Answer T} {kind : Kind}
  {ns name : String} {id : ObjectId} {j : Job} {st : Contest × T}

theorem Held.always (h : Held kind ns name id st.1) {p : Pass α} (hp : Pass.Sparing p) :
    Always (driven kind ns name client b) p st fun _ st' => Held kind ns name id st'.1 :=
  Asks.always hp (fun _ _ _ _ hc hmay h => Held.of_may h hc hmay) h

theorem Held.alwaysFrom (h : Held kind ns name id st.1) {work : Work α}
    (hwork : Work.Sparing work) :
    AlwaysFrom (driven kind ns name client b) work j st fun _ _ st' => Held kind ns name id st'.1 :=
  h.always (hwork j)

end Contest

end ReleaseOperator
