import ReleaseOperator.Proofs.Edits.Script
import ReleaseOperator.Proofs.Errands.Calls
import ReleaseOperator.Proofs.Errands.Handover

/-!
# What is applied is what is digested

A release is applied with the values of its class and, over them, the overrides of its resource in
the order of their list. These documents go two ways. Helm gets them as files, one for each, in their
order; and once Helm has taken them, the digest of their merge is remembered. If anything fails on the
way, the digest stays what it was, Helm is asked to upgrade only if all before that went well, and the
failure is put into the status of the resource, as far as the store takes it, and told.
-/

namespace ReleaseOperator

open InMemory Relation Program Helm

/-- The documents that some overrides give, each from its own place of the list and in their order,
and the calls that this takes. -/
inductive Sources.Resolved (ns : String) : Nat → List ValuesSource → List Event → List Json → Prop
  | nil (index : Nat) : Resolved ns index [] [] []
  | cons {index : Nat} {source : ValuesSource} {rest : List ValuesSource} {asked later : List Event}
      {document : Option Json} {documents : List Json}
      (h : Pass.Replay (resolveOne ns index source).run asked (.ok document))
      (hrest : Resolved ns (index + 1) rest later documents) :
      Resolved ns index (source :: rest) (asked ++ later) (document.toList ++ documents)

/-- A step that may fail went well when both of its parts did. -/
theorem Pass.replay_bind_ok {α β ε : Type} {x : ExceptT ε Pass α} {f : α → ExceptT ε Pass β}
    {es : List Event} {b : β} :
    Replay (x >>= f).run es (.ok b) ↔
      ∃ a first rest, es = first ++ rest ∧ Replay x.run first (.ok a) ∧
        Replay (f a).run rest (.ok b) := by
  rw [ExceptT.run_bind, replay_bind]
  constructor
  · rintro ⟨e | a, first, rest, rfl, hfirst, hrest⟩
    · cases hrest
    · exact ⟨a, first, rest, rfl, hfirst, hrest⟩
  · rintro ⟨a, first, rest, rfl, hfirst, hrest⟩
    exact ⟨.ok a, first, rest, rfl, hfirst, hrest⟩

theorem Sources.resolved_of_replay {ns : String} {index : Nat} {sources : List ValuesSource}
    {es : List Event} {documents : List Json}
    (h : Pass.Replay (resolveFrom ns index sources).run es (.ok documents)) :
    Resolved ns index sources es documents := by
  induction sources generalizing index es documents with
  | nil =>
      cases h
      exact .nil index
  | cons source rest ih =>
      rw [resolveFrom, Pass.replay_bind_ok] at h
      obtain ⟨document, first, later, rfl, hfirst, h⟩ := h
      rw [Pass.replay_bind_ok] at h
      obtain ⟨documents, middle, last, rfl, hmiddle, hlast⟩ := h
      cases hlast
      rw [List.append_nil]
      exact .cons hfirst (ih hmiddle)

/-- The values of a job are those of its class and those of its overrides. -/
theorem Job.resolved_of_replay {setup : Setup} {j : Job} {es : List Event} {documents : List Json}
    (h : Pass.Replay (j.values setup).run es (.ok documents)) :
    ∃ overrides, Sources.Resolved j.resource.namespaceName 0 j.resource.overrides es overrides ∧
      documents = (setup.baseValues j.release).toList ++ overrides := by
  rw [Job.values, Pass.replay_bind_ok] at h
  obtain ⟨overrides, first, rest, rfl, hfirst, hrest⟩ := h
  cases hrest
  rw [List.append_nil]
  exact ⟨overrides, Sources.resolved_of_replay hfirst, rfl⟩

/-! ### Failures in the status -/

/-- Calls that draw delays. -/
def Delays (es : List Event) : Prop :=
  ∀ e ∈ es, ∃ low high ordered n, e = .asked (.draw low high ordered) n

/-- A failure recorded for a job: the calls this takes, the store at the end and the copy of the
resource. A failure that is known is not written again; one that is news is written unless the
resource cannot be read or is another one by now; and if the write is taken, the stored resource has
it in its status. -/
inductive Job.Lodged (ns name : String) (j : Job) (reason : Reason) (f : Failure) :
    List Event → Store → Resource → Prop
  | known {draws : List Event} (store : Store) (time : String) (hdraws : Delays draws)
      (hknown : j.isNews reason (some f.text) time = false) :
      Lodged ns name j reason f (.asked .now time :: draws) store
        (j.noted reason (some f.text) time)
  | unread {draws : List Event} (store : Store) (time : String)
      (found : Except ClusterError (Option Resource)) (hdraws : Delays draws)
      (hnews : j.isNews reason (some f.text) time = true)
      (hother : ∀ latest, found = .ok (some latest) →
        latest.metadata.uid ≠ j.resource.metadata.uid) :
      Lodged ns name j reason f
        (.asked .now time ::
          .asked (.store (.get j.resource.kind j.resource.namespaceName j.resource.name)) found ::
          draws)
        store (j.noted reason (some f.text) time)
  | refused {draws : List Event} (store : Store) (time : String) (latest : Resource)
      (e : ClusterError) (hdraws : Delays draws)
      (hnews : j.isNews reason (some f.text) time = true)
      (hsame : latest.metadata.uid = j.resource.metadata.uid) :
      Lodged ns name j reason f
        (.asked .now time ::
          .asked (.store (.get j.resource.kind j.resource.namespaceName j.resource.name))
            (.ok (some latest)) ::
          .asked (.store (.updateStatus (latest.copyStatus (j.noted reason (some f.text) time))))
            (.error e) :: draws)
        store (j.noted reason (some f.text) time)
  | taken {draws : List Event} (store : Store) (time : String) (latest stored o : Resource)
      (hdraws : Delays draws) (hnews : j.isNews reason (some f.text) time = true)
      (hsame : latest.metadata.uid = j.resource.metadata.uid)
      (hstored : stored.status = (j.noted reason (some f.text) time).status)
      (ho : store.get? ns name = some o)
      (hstatus : o.status = (j.noted reason (some f.text) time).status) :
      Lodged ns name j reason f
        (.asked .now time ::
          .asked (.store (.get j.resource.kind j.resource.namespaceName j.resource.name))
            (.ok (some latest)) ::
          .asked (.store (.updateStatus (latest.copyStatus (j.noted reason (some f.text) time))))
            (.ok stored) :: draws)
        store stored

namespace Contest

variable {kind : Kind} {ns name : String} {client : Client} {st : Contest × List Deed} {j : Job}
  {reason : Reason} {f : Failure}

/-- What the status of the stored resource is. -/
def HasStatus (kind : Kind) (ns name : String) (status : Option Status) (s : Contest) : Prop :=
  s.store.Keyed kind ∧ ∃ o, s.store.get? ns name = some o ∧ o.status = status

theorem HasStatus.edits {status : Option Status} {s t : Contest}
    (h : HasStatus kind ns name status s) (hedits : ReflTransGen (Edit ns name) s t) :
    HasStatus kind ns name status t := by
  induction hedits with
  | refl => exact h
  | tail _ hedit ih =>
      obtain ⟨hkeyed, o, ho, hstatus⟩ := ih
      obtain ⟨old, new, hold, hnew, _, _, hsame, hkeyed', _⟩ := hedit.stored hkeyed
      obtain rfl := Option.some.inj (hold.symm.trans ho)
      exact ⟨hkeyed', new, hnew, hsame.trans hstatus⟩

theorem HasStatus.may {status : Option Status} {c : Call} {a : c.Answer} {st' : Contest × List Deed}
    (h : HasStatus kind ns name status st.1) (hc : c.isQuiet = true)
    (hmay : (driven kind ns name client Deed.recording).may st c a st') :
    HasStatus kind ns name status st'.1 := by
  obtain ⟨⟨store, hanswered, hedits⟩, -⟩ := hmay
  obtain rfl := answered_of_isQuiet hc hanswered
  exact HasStatus.edits (s := ⟨st.1.store, .asked c a :: st.1.story⟩) h hedits

/-- The resource that is read is the one of its place. -/
theorem place_of_read {latest : Resource} {st' : Contest × List Deed}
    (hkeyed : st.1.store.Keyed kind) (hkind : j.resource.kind = kind)
    (hns : j.resource.namespaceName = ns) (hname : j.resource.name = name)
    (hmay : (driven kind ns name client Deed.recording).may st
      (.store (.get j.resource.kind j.resource.namespaceName j.resource.name)) (.ok (some latest))
      st') :
    latest.kind = kind ∧ Store.keyOf latest = (ns, name) := by
  obtain ⟨⟨store, hanswered, -⟩, -⟩ := hmay
  rw [hkind, hns, hname] at hanswered
  exact hkeyed ns name latest (stored_of_answered hanswered)

/-- A write of the status that is taken leaves the stored resource with that status. -/
theorem hasStatus_of_written {w stored : Resource} {st' : Contest × List Deed}
    (hkeyed : st.1.store.Keyed kind) (hkind : w.kind = kind) (hkey : Store.keyOf w = (ns, name))
    (hmay : (driven kind ns name client Deed.recording).may st (.store (.updateStatus w))
      (.ok stored) st') :
    stored.status = w.status ∧ HasStatus kind ns name w.status st'.1 := by
  obtain ⟨⟨store, hanswered, hedits⟩, -⟩ := hmay
  obtain ⟨old, hold, _, rfl, hnew, hkeyed'⟩ :=
    Store.updateStatus_ok hkeyed hkey (updateStatus_of_answered hkind hanswered)
  refine ⟨rfl, HasStatus.edits (s := ⟨store, .asked _ _ :: st.1.story⟩) ?_ hedits⟩
  exact ⟨hkeyed', _, hnew, rfl⟩

/-- A pass that draws delays and does nothing else. -/
theorem always_delays {α : Type} {p : Pass α}
    (hp : Asks (fun c => ∃ low high ordered, c = .draw low high ordered) p)
    (st : Contest × List Deed) :
    Always (driven kind ns name client Deed.recording) p st fun _ st' =>
      ∃ draws, Delays draws ∧ Grown kind st st' draws [] ∧
        ∀ status, HasStatus kind ns name status st.1 → HasStatus kind ns name status st'.1 := by
  have hreplay : Always (driven kind ns name client Deed.recording) p st fun a st' =>
      ∃ asked, Grown kind st st' asked [] ∧ Pass.Replay p asked a := by
    refine always_replay (hp.mono ?_) st
    rintro _ ⟨low, high, ordered, rfl⟩
    rfl
  have hstatus : Always (driven kind ns name client Deed.recording) p st fun _ st' =>
      ∀ status, HasStatus kind ns name status st.1 → HasStatus kind ns name status st'.1 := by
    refine Asks.always hp ?_ fun status h => h
    rintro s _ a s' ⟨low, high, ordered, rfl⟩ hmay h status hst
    exact (h status hst).may rfl hmay
  refine (hreplay.and hstatus).mono ?_
  rintro a st' ⟨⟨asked, hgrown, hrun⟩, hkept⟩
  refine ⟨asked, fun e he => ?_, hgrown, hkept⟩
  obtain ⟨c, a, rfl, low, high, ordered, rfl⟩ := hrun.allowed hp e he
  exact ⟨low, high, ordered, a, rfl⟩

theorem draws_shortDelayWith (f : Failure) :
    Asks (fun c => ∃ low high ordered, c = .draw low high ordered) (Pass.shortDelayWith f) :=
  ⟨⟨_, _, _, rfl⟩, fun _ => trivial⟩

theorem draws_shortDelay :
    Asks (fun c => ∃ low high ordered, c = .draw low high ordered) Pass.shortDelay :=
  ⟨⟨_, _, _, rfl⟩, fun _ => trivial⟩

theorem draws_refused (e : ClusterError) :
    Asks (fun c => ∃ low high ordered, c = .draw low high ordered) (Pass.refused e) := by
  unfold Pass.refused
  split
  · exact draws_shortDelay
  · exact draws_shortDelayWith _

/-- Delays behind a failure that is recorded change nothing. -/
theorem lodged_delayed {s t : Contest} {asked draws : List Event} {r : Resource}
    (h : j.Lodged ns name reason f asked s.store r) (hkeyed : s.store.Keyed kind)
    (hdraws : Delays draws)
    (hkept : ∀ status, HasStatus kind ns name status s → HasStatus kind ns name status t) :
    j.Lodged ns name reason f (asked ++ draws) t.store r := by
  have hboth {first : List Event} (hfirst : Delays first) : Delays (first ++ draws) :=
    fun e he => (List.mem_append.1 he).elim (hfirst e) (hdraws e)
  cases h with
  | known _ time hfirst hknown => exact .known _ time (hboth hfirst) hknown
  | unread _ time found hfirst hnews hother => exact .unread _ time found (hboth hfirst) hnews hother
  | refused _ time latest e hfirst hnews hsame =>
      exact .refused _ time latest e (hboth hfirst) hnews hsame
  | taken _ time latest _ o hfirst hnews hsame hstored ho hstatus =>
      obtain ⟨-, o', ho', hstatus'⟩ := hkept _ ⟨hkeyed, o, ho, hstatus⟩
      exact .taken _ time latest r o' (hboth hfirst) hnews hsame hstored ho' hstatus'

/-- A failure is recorded as far as the store takes it. -/
theorem always_announce_lodged (hkeyed : st.1.store.Keyed kind) (hkind : j.resource.kind = kind)
    (hns : j.resource.namespaceName = ns) (hname : j.resource.name = name) :
    AlwaysFrom (driven kind ns name client Deed.recording)
      (Work.announce reason (some f.text)) j st
      fun _ j' st' => ∃ asked, Grown kind st st' asked [] ∧
        j' = { j with resource := j'.resource } ∧
        j.Lodged ns name reason f asked st'.1.store j'.resource := by
  have hnone : Delays [] := fun e he => absurd he List.not_mem_nil
  rw [Work.always_announce]
  intro time s₁ hnow
  change if _ then _ else _
  have hgrown₁ := grown_of_not_isHelm hnow rfl
  split
  · rename_i hnews
    rw [Pass.always_persistStatus]
    intro found s₂ hget
    have hgrown₂ := hgrown₁.trans (grown_of_not_isHelm hget rfl)
    have hunread (hother : ∀ latest, found = .ok (some latest) →
          latest.metadata.uid ≠ j.resource.metadata.uid) {p : Pass Outcome}
        (hp : Asks (fun c => ∃ low high ordered, c = .draw low high ordered) p) :
        Always (driven kind ns name client Deed.recording) p s₂ fun o s'' =>
          ∃ asked, Grown kind st s'' asked [] ∧ j.Lodged ns name reason f asked s''.1.store
            (j.noted reason (some f.text) time) := by
      refine (always_delays hp s₂).mono ?_
      rintro o s₃ ⟨draws, hdraws, hgrown₃, -⟩
      exact ⟨_, hgrown₂.trans hgrown₃, .unread _ time found hdraws hnews hother⟩
    rcases found with e | _ | latest
    · refine (hunread (fun _ h => absurd h (by simp)) (draws_refused e)).mono ?_
      rintro o s₃ ⟨asked, hgrown, hlodged⟩
      exact ⟨asked, hgrown, rfl, hlodged⟩
    · refine (hunread (fun _ h => absurd h (by simp)) draws_shortDelay).mono ?_
      rintro o s₃ ⟨asked, hgrown, hlodged⟩
      exact ⟨asked, hgrown, rfl, hlodged⟩
    · dsimp only
      split
      · rename_i hother
        refine (hunread ?_ draws_shortDelay).mono ?_
        · rintro _ ⟨⟩
          exact hother
        · rintro o s₃ ⟨asked, hgrown, hlodged⟩
          exact ⟨asked, hgrown, rfl, hlodged⟩
      · rename_i hsame
        have hsame : latest.metadata.uid = j.resource.metadata.uid := Decidable.not_not.1 hsame
        intro answer s₃ hwrite
        have hgrown₃ := hgrown₂.trans (grown_of_not_isHelm hwrite rfl)
        rw [Pass.always_afterWrite]
        cases answer with
        | error e =>
            refine (always_delays (draws_refused e) s₃).mono ?_
            rintro o s₄ ⟨draws, hdraws, hgrown₄, -⟩
            exact ⟨_, hgrown₃.trans hgrown₄, rfl, .refused _ time latest e hdraws hnews hsame⟩
        | ok stored =>
            obtain ⟨hlkind, hlkey⟩ := place_of_read (hgrown₁.keyed hkeyed) hkind hns hname hget
            obtain ⟨hstored, -, o, ho, hstatus⟩ :=
              hasStatus_of_written (w := latest.copyStatus (j.noted reason (some f.text) time))
                (hgrown₂.keyed hkeyed) hlkind hlkey hwrite
            exact ⟨_, hgrown₃, rfl, .taken _ time latest stored o hnone hnews hsame hstored ho hstatus⟩
  · rename_i hknown
    exact ⟨_, hgrown₁, rfl, .known _ time hnone (Bool.eq_false_iff.2 hknown)⟩

/-- A failure is told whether or not it could be recorded. -/
theorem always_fail_lodged (hkeyed : st.1.store.Keyed kind) (hkind : j.resource.kind = kind)
    (hns : j.resource.namespaceName = ns) (hname : j.resource.name = name) :
    AlwaysFrom (driven kind ns name client Deed.recording) (Work.fail reason f) j st
      fun o j' st' => ∃ asked d, Grown kind st st' asked [] ∧ o = .failed d f ∧
        j' = { j with resource := j'.resource } ∧
        j.Lodged ns name reason f asked st'.1.store j'.resource := by
  rw [Work.always_fail]
  refine (always_announce_lodged hkeyed hkind hns hname).mono ?_
  rintro _ j' s₁ ⟨asked, hgrown, hj', hlodged⟩
  have htold : Always (driven kind ns name client Deed.recording) (Pass.shortDelayWith f) s₁
      fun o _ => ∃ d, o = .failed d f :=
    Pass.always_shortDelayWith fun d _ _ => ⟨d, rfl⟩
  refine ((always_delays (draws_shortDelayWith f) s₁).and htold).mono ?_
  rintro _ s₂ ⟨⟨draws, hdraws, hgrown', hkept⟩, d, rfl⟩
  exact ⟨_, d, hgrown.trans hgrown', rfl, hj',
    lodged_delayed hlodged (hgrown.keyed hkeyed) hdraws hkept⟩

end Contest

/-! ### Applying a release -/

namespace Job

/-- The documents of values of a job: those of its class, and behind them those of its overrides. -/
def documents (setup : Setup) (j : Job) (overrides : List Json) : List Json :=
  (setup.baseValues j.release).toList ++ overrides

/-- What Helm is asked for with some documents. -/
def request (j : Job) (credentials : Option Credentials) (documents : List Json) : ReleaseRequest :=
  ⟨j.release, credentials, documents.map Yaml.render, false, false⟩

/-- The job that remembers some documents as applied. -/
def remember (j : Job) (documents : List Json) : Job :=
  { j with entry := j.entry.setDigest (Values.digest (Values.mergeAll documents)) }

/-- How the release of a job is applied: what is asked, what the client does, and what becomes of the
job. A failure at any point ends it. -/
inductive Application (ns name : String) (client : Client) (setup : Setup) (failure : Reason)
    (j : Job) : List Event → List Deed → Store → Outcome → Job → Prop
  | unresolved {values lodging : List Event} {e : SourceError} {d : Duration} {store : Store}
      {r : Resource} (hvalues : Pass.Replay (j.values setup).run values (.error e))
      (hlodged : j.Lodged ns name failure (.source e) lodging store r) :
      Application ns name client setup failure j (values ++ lodging) [] store
        (.failed d (.source e)) { j with resource := r }
  | rehearsed {values : List Event} {overrides : List Json} {store : Store}
      (hvalues : Sources.Resolved j.resource.namespaceName 0 j.resource.overrides values overrides)
      (hdry : setup.dryRun = true) :
      Application ns name client setup failure j values [] store .done
        (j.remember (j.documents setup overrides))
  | uncredited {values looks lodging : List Event} {overrides : List Json} {e : SourceError}
      {d : Duration} {store : Store} {r : Resource}
      (hvalues : Sources.Resolved j.resource.namespaceName 0 j.resource.overrides values overrides)
      (hwet : setup.dryRun = false) (hlooks : Pass.Replay j.credentials.run looks (.error e))
      (hlodged : j.Lodged ns name failure (.source e) lodging store r) :
      Application ns name client setup failure j (values ++ looks ++ lodging) [] store
        (.failed d (.source e)) { j with resource := r }
  | refused {values looks lodging : List Event} {overrides : List Json}
      {credentials : Option Credentials} {own : List Deed} {e : HelmError} {d : Duration}
      {store : Store} {r : Resource}
      (hvalues : Sources.Resolved j.resource.namespaceName 0 j.resource.overrides values overrides)
      (hwet : setup.dryRun = false) (hlooks : Pass.Replay j.credentials.run looks (.ok credentials))
      (hattempt : client.Attempt (j.request credentials (j.documents setup overrides)) own
        (.error e))
      (hlodged : j.Lodged ns name failure (.helm e) lodging store r) :
      Application ns name client setup failure j
        (values ++ looks ++ [.asked (.helm (.upgradeOrInstall
          (j.request credentials (j.documents setup overrides)))) (.error e)] ++ lodging)
        own store (.failed d (.helm e)) { j with resource := r }
  | applied {values looks : List Event} {overrides : List Json} {credentials : Option Credentials}
      {own : List Deed} {info : ReleaseInfo} {store : Store}
      (hvalues : Sources.Resolved j.resource.namespaceName 0 j.resource.overrides values overrides)
      (hwet : setup.dryRun = false) (hlooks : Pass.Replay j.credentials.run looks (.ok credentials))
      (hattempt : client.Attempt (j.request credentials (j.documents setup overrides)) own
        (.ok info)) :
      Application ns name client setup failure j
        (values ++ looks ++ [.asked (.helm (.upgradeOrInstall
          (j.request credentials (j.documents setup overrides)))) (.ok info)])
        own store .done (j.remember (j.documents setup overrides))

variable {ns name : String} {client : Client} {setup : Setup} {failure : Reason} {j j' : Job}
  {asked : List Event} {own : List Deed} {store : Store} {o : Outcome}

/-- Only where values and credentials were found is Helm asked to upgrade, with the documents that are
remembered if it goes well. -/
theorem Application.handed {i : Invocation}
    (h : Application ns name client setup failure j asked own store o j') (hi : i ∈ commands own)
    (hupgrade : i.args.head? = some "upgrade") :
    ∃ values overrides looks credentials,
      Sources.Resolved j.resource.namespaceName 0 j.resource.overrides values overrides ∧
        Pass.Replay j.credentials.run looks (.ok credentials) ∧ (values ++ looks) <+: asked ∧
        client.Handed (j.request credentials (j.documents setup overrides)) own i ∧
        (o = .done → j' = j.remember (j.documents setup overrides)) := by
  cases h with
  | unresolved => exact absurd hi List.not_mem_nil
  | rehearsed => exact absurd hi List.not_mem_nil
  | uncredited => exact absurd hi List.not_mem_nil
  | refused hvalues _ hlooks hattempt =>
      refine ⟨_, _, _, _, hvalues, hlooks, ?_, hattempt.handed hi hupgrade, fun h => absurd h ?_⟩
      · rw [List.append_assoc]
        exact List.prefix_append _ _
      · exact fun h => Bool.noConfusion (congrArg Outcome.requeue h)
  | applied hvalues _ hlooks hattempt =>
      exact ⟨_, _, _, _, hvalues, hlooks, List.prefix_append _ _, hattempt.handed hi hupgrade,
        fun _ => rfl⟩

/-- What went well has upgraded the release, unless it was a rehearsal. -/
theorem Application.exists_upgrade
    (h : Application ns name client setup failure j asked own store .done j')
    (hwet : setup.dryRun = false) : ∃ i ∈ commands own, i.args.head? = some "upgrade" := by
  generalize ho : Outcome.done = o at h
  cases h with
  | rehearsed _ hdry => exact absurd (hwet.symm.trans hdry) Bool.false_ne_true
  | applied _ _ _ hattempt => exact hattempt.exists_upgrade
  | _ => exact Bool.noConfusion (congrArg Outcome.requeue ho)

/-- What failed leaves all of the job but its resource as it was; the failure is recorded at the end and
told. -/
theorem Application.lodged_of_ne_done
    (h : Application ns name client setup failure j asked own store o j') (ho : o ≠ .done) :
    ∃ d f lodging, o = .failed d f ∧ lodging <:+ asked ∧ j' = { j with resource := j'.resource } ∧
      j.Lodged ns name failure f lodging store j'.resource := by
  cases h with
  | rehearsed => exact absurd rfl ho
  | applied => exact absurd rfl ho
  | unresolved _ hlodged => exact ⟨_, _, _, rfl, List.suffix_append _ _, rfl, hlodged⟩
  | uncredited _ _ _ hlodged => exact ⟨_, _, _, rfl, List.suffix_append _ _, rfl, hlodged⟩
  | refused _ _ _ _ hlodged => exact ⟨_, _, _, rfl, List.suffix_append _ _, rfl, hlodged⟩

end Job

namespace Contest

variable {kind : Kind} {ns name : String} {client : Client} {setup : Setup} {failure : Reason}
  {j : Job} {st : Contest × List Deed}

/-- Helm is asked through the client. -/
theorem attempt_of_may {request : ReleaseRequest} {a : Except HelmError ReleaseInfo}
    {st' : Contest × List Deed}
    (hmay : (driven kind ns name client Deed.recording).may st (.helm (.upgradeOrInstall request)) a
      st') :
    ∃ own, Grown kind st st' [.asked (.helm (.upgradeOrInstall request)) a] own ∧
      client.Attempt request own a := by
  obtain ⟨own, hdeeds, hattempt⟩ :=
    always_iff_runs.1 (client.always_attempt request st.2) a st'.2 hmay.2
  exact ⟨own, grown_of_may hmay hdeeds, hattempt⟩

theorem always_applyRelease (hkeyed : st.1.store.Keyed kind) (hkind : j.resource.kind = kind)
    (hns : j.resource.namespaceName = ns) (hname : j.resource.name = name) :
    AlwaysFrom (driven kind ns name client Deed.recording) (Work.applyRelease setup failure) j st
      fun o j' st' => ∃ asked own, Grown kind st st' asked own ∧
        j.Application ns name client setup failure asked own st'.1.store o j' := by
  rw [Work.always_applyRelease]
  refine (always_replay (Pass.asks_jobValues (fun _ => Call.isHelm_of_isLookup) setup j) st).mono ?_
  rintro (e | documents) s₁ ⟨values, hgrown₁, hvalues⟩
  · refine (always_fail_lodged (hgrown₁.keyed hkeyed) hkind hns hname).mono ?_
    rintro o j' s₂ ⟨lodging, d, hgrown₂, rfl, hj', hlodged⟩
    rw [hj']
    exact ⟨_, _, hgrown₁.trans hgrown₂, .unresolved hvalues hlodged⟩
  obtain ⟨overrides, hresolved, rfl⟩ := Job.resolved_of_replay hvalues
  cases hdry : setup.dryRun with
  | true => exact ⟨_, _, hgrown₁, .rehearsed hresolved hdry⟩
  | false =>
      dsimp only
      rw [if_neg Bool.false_ne_true]
      refine (always_replay (Pass.asks_credentials (fun _ => Call.isHelm_of_isLookup) _ _) s₁).mono ?_
      rintro (e | credentials) s₂ ⟨looks, hgrown₂, hlooks⟩
      · refine (always_fail_lodged (hgrown₂.keyed (hgrown₁.keyed hkeyed)) hkind hns hname).mono ?_
        rintro o j' s₃ ⟨lodging, d, hgrown₃, rfl, hj', hlodged⟩
        rw [hj']
        exact ⟨_, _, (hgrown₁.trans hgrown₂).trans hgrown₃,
          .uncredited hresolved hdry hlooks hlodged⟩
      dsimp only
      rw [Work.always_handOver]
      intro a s₃ hmay
      obtain ⟨own, hgrown₃, hattempt⟩ := attempt_of_may hmay
      have hgrown := (hgrown₁.trans hgrown₂).trans hgrown₃
      cases a with
      | ok info => exact ⟨_, _, hgrown, .applied hresolved hdry hlooks hattempt⟩
      | error e =>
          refine (always_fail_lodged (hgrown.keyed hkeyed) hkind hns hname).mono ?_
          rintro o j' s₄ ⟨lodging, d, hgrown₄, rfl, hj', hlodged⟩
          rw [hj']
          refine ⟨_, _, hgrown.trans hgrown₄, ?_⟩
          rw [List.append_nil]
          exact .refused hresolved hdry hlooks hattempt hlodged

/-- An operator that puts three replicas under the values of every resource. -/
def layeredSetup : Setup := { trialSetup with baseValues := fun _ => some (replicas 3) }

/-- The work on the module with one replica of its own, at its start. -/
def layeredJob : Job := Job.start layeredSetup trialModule (.fresh 1 .work)

/-- The module's overrides are one document. -/
theorem resolved_layeredJob {values : List Event} {overrides : List Json}
    (h : Sources.Resolved layeredJob.resource.namespaceName 0 layeredJob.resource.overrides values
      overrides) : overrides = [replicas 1] := by
  obtain _ | ⟨hfirst, hrest⟩ := h
  cases hfirst
  cases hrest
  rfl

end Contest

end ReleaseOperator
