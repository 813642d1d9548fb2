import ReleaseOperator.Proofs.Behaviour
import ReleaseOperator.Proofs.Estate.Writes
import ReleaseOperator.Proofs.Questions
import ReleaseOperator.Proofs.StoreRules
import ReleaseOperator.Proofs.Invariants

/-!
# Work that has nothing new to say

Work is done on a resource and stops; then it is done again on the resource as it was left, with
the same replies, and stops again. The first time it may have recorded a failure. The second time
it fails in the same way, and since the newest event of the resource already is that failure,
nothing is written. Two runs of the work are looked at side by side, the second one over a store
of which only the resource is known.
-/

namespace ReleaseOperator

/-!
## The same replies in every pass

Helm, the cluster and the class are asked from outside. Here they reply to a call by what they
were asked before in the same pass, and in every pass alike. So two programs that only ask them
come to the same, whatever the store holds, as long as nothing else was asked before.
-/

open InMemory Program

/-- Whether a call is put to Helm, the cluster or the class. -/
def Call.isOutward : Call → Bool
  | .cluster _ => true
  | .helm _ => true
  | .hook _ _ _ => true
  | _ => false

theorem Call.isOutward_of_isLookup {c : Call} (h : c.isLookup = true) : c.isOutward = true := by
  cases c with
  | cluster c => rfl
  | _ => exact absurd h Bool.false_ne_true

/-- What Helm, the cluster and the class reply to a call, by the calls that they have replied to
in the same pass, the newest first. -/
abbrev Replies := List Call → (c : Call) → c.Answer

/-- The version that Helm reads off a chart is never blank. -/
def Replies.NamesVersions (replies : Replies) : Prop :=
  ∀ asked release credentials version,
    replies asked (.helm (.chartVersion release credentials)) = .ok version →
      Text.isBlankText version = false

/-- The store in the course of a pass, and what the others were asked in it. -/
structure Dialogue where
  store : Store
  asked : List Call

namespace Dialogue

/-- How a call may be answered: the store keeps its rules, the others have their replies, and
the clock and the dice are free. -/
def Answered (replies : Replies) (s : Dialogue) : (c : Call) → c.Answer → Dialogue → Prop
  | .store c, a, t => s.store.Answers False c a t.store ∧ t.asked = s.asked
  | .now, _, t => t = s
  | .draw _ _ _, _, t => t = s
  | .count _, _, t => t = s
  | c, a, t => a = replies s.asked c ∧ t = ⟨s.store, c :: s.asked⟩

/-- The collaborators with such replies. -/
def conduct (replies : Replies) : Conduct Dialogue where
  may := Answered replies
  answers s c := by
    cases c with
    | store c =>
        obtain ⟨a, store, h⟩ := Store.exists_answer False s.store c
        exact ⟨a, ⟨store, s.asked⟩, h, rfl⟩
    | now => exact ⟨"", s, rfl⟩
    | draw low high ordered => exact ⟨⟨low, Nat.le_refl low, ordered⟩, s, rfl⟩
    | count c => exact ⟨(), s, rfl⟩
    | _ => exact ⟨_, _, rfl, rfl⟩

variable {α : Type} {replies : Replies} {s t u v : Dialogue} {c : Call} {a : c.Answer}

theorem answered_of_isOutward (hc : c.isOutward = true) (h : (conduct replies).may s c a t) :
    a = replies s.asked c ∧ t = ⟨s.store, c :: s.asked⟩ := by
  cases c with
  | cluster | helm | hook => exact h
  | _ => exact absurd hc Bool.false_ne_true

/-- Only a write to the store changes it. -/
theorem store_of_may (hc : c.isQuiet = true ∨ c.isOutward = true)
    (h : (conduct replies).may s c a t) : t.store = s.store := by
  rcases c with (_ | _ | _) | _ | _ | _ | _ | _ | _
  case store.get => exact h.1.1
  case cluster | helm | hook => rw [(answered_of_isOutward rfl h).2]
  case now | draw | count => exact congrArg store h
  all_goals rcases hc with hc | hc <;> exact absurd hc Bool.false_ne_true

theorem always_quiet {p : Pass α} (hp : Pass.Quiet p) :
    Always (conduct replies) p s fun _ t => t.store = s.store :=
  hp.always (I := fun t => t.store = s.store)
    (fun _ _ _ _ hc hmay ht => (store_of_may (Or.inl hc) hmay).trans ht) rfl

/-- Two runs of a program that only asks outwards come to the same. -/
theorem paired_outward {p : Pass α} (hp : Asks (fun c : Call => c.isOutward = true) p)
    (huv : u.asked = v.asked) :
    Paired (conduct replies) p u p v fun a u' a' v' =>
      a = a' ∧ u'.store = u.store ∧ v'.store = v.store ∧ u'.asked = v'.asked := by
  induction p generalizing u v with
  | done a => exact ⟨rfl, rfl, rfl, huv⟩
  | ask q next ih =>
      change Paired (conduct replies) (Pass.ask q >>= next) u (Pass.ask q >>= next) v _
      refine paired_bind ?_
      intro a u' hu a' v' hv
      obtain ⟨rfl, rfl⟩ := answered_of_isOutward hp.1 hu
      obtain ⟨rfl, rfl⟩ := answered_of_isOutward hp.1 hv
      rw [huv]
      exact ih _ (hp.2 _) rfl

/-! ### Writes -/

variable {kind : Kind} {ns name : String} {o w : Resource}

/-- A status is written, if it is put onto the resource that is stored. -/
theorem always_persistStatus (hkeyed : s.store.Keyed kind) (ho : s.store.get? ns name = some o)
    (hmetadata : w.metadata = o.metadata) :
    Always (conduct replies) (Pass.persistStatus w) s fun or t => or.1 = .done ∧
      t.store.Keyed kind ∧ t.store.get? ns name = some or.2 ∧ o.Restated or.2 ∧
      or.2.status = w.status := by
  obtain ⟨hkind, hkey⟩ := hkeyed ns name o ho
  have hplace : (w.namespaceName, w.name) = (ns, name) := by
    rw [← hkey, Store.keyOf, Resource.namespaceName, Resource.name, hmetadata]
    rfl
  obtain ⟨hns, hname⟩ := Prod.mk.inj hplace
  rw [Pass.always_persistStatus, hns, hname]
  rintro a s₁ ⟨⟨hsame, hanswer⟩, _⟩
  obtain rfl : a = .ok (s.store.get? ns name) := hanswer.resolve_right fun h => h.1
  rw [ho]
  dsimp only
  rw [if_neg (by rw [hmetadata]; exact not_not_intro rfl)]
  rintro a s₂ ⟨hanswer, _⟩
  have hwrite : (a, s₂.store) = s₁.store.updateStatus (o.copyStatus w) :=
    hanswer.resolve_right fun h => h.1
  rw [hsame] at hwrite
  rw [Pass.always_afterWrite]
  cases a with
  | error e =>
      obtain ⟨hns', hname'⟩ := Prod.mk.inj hkey
      have hget : s.store.get? o.namespaceName o.name = some o := by rw [hns', hname', ho]
      exact absurd hwrite (Store.updateStatus_ne_error (r := o.copyStatus w) hget rfl)
  | ok new =>
      obtain ⟨old, hold, _, rfl, hget, hkeyed'⟩ :=
        Store.updateStatus_ok hkeyed (r := o.copyStatus w) hkey hwrite
      obtain rfl : o = old := Option.some.inj (ho.symm.trans hold)
      exact ⟨rfl, hkeyed', hget, ⟨_, _, rfl⟩, rfl⟩

/-- A copy that is not stale is written as a whole. -/
theorem always_persistResource (hkeyed : s.store.Keyed kind)
    (ho : s.store.get? ns name = some o) (hkind : w.kind = kind)
    (hkey : Store.keyOf w = (ns, name))
    (hrev : w.metadata.resourceVersion = o.metadata.resourceVersion) :
    Always (conduct replies) (Pass.persistResource w) s fun or t => or.1 = .done ∧
      t.store.Keyed kind ∧ or.2 = s.store.merged o w ∧
      (t.store.get? ns name = some or.2 ∨
        t.store.get? ns name = none ∧ or.2.isDeleting = true ∧ or.2.finalizers = []) := by
  rw [Pass.always_persistResource]
  rintro a s₁ ⟨hanswer, _⟩
  have hwrite : (a, s₁.store) = s.store.update w := hanswer.resolve_right fun h => h.1
  rw [Pass.always_afterWrite]
  cases a with
  | error e =>
      obtain ⟨hns, hname⟩ := Prod.mk.inj hkey
      have hget : s.store.get? w.namespaceName w.name = some o := by rw [hns, hname, ho]
      exact absurd hwrite (Store.update_ne_error hget hrev.symm)
  | ok new =>
      obtain ⟨old, hold, _, rfl, hget, hkeyed'⟩ := Store.update_ok hkeyed hkind hkey hwrite
      obtain rfl : o = old := Option.some.inj (ho.symm.trans hold)
      exact ⟨rfl, hkeyed', rfl, hget⟩

end Dialogue

/-! ## Two runs of the same work -/

/-- Two runs of programs that carry a state of their own, one looked at inside the other. -/
theorem Program.pairedFrom_iff {Q : Type} {A : Q → Type} {S σ α α' : Type} {b : Behaviour Q A S}
    {w : StateT σ (Program Q A) α} {w' : StateT σ (Program Q A) α'} {x y : σ} {s t : S}
    {post : α → σ → S → α' → σ → S → Prop} :
    PairedFrom b w x s w' y t post ↔
      AlwaysFrom b w x s fun a x' s' => AlwaysFrom b w' y t fun a' y' t' =>
        post a x' s' a' y' t' := Iff.rfl

/-! ### An event that is no news any more -/

/-- A history that an observation was appended to ends in it, whenever it is made again. -/
theorem Condition.repeats_append (cs : List Condition) (r : Reason) (message time time' : String) :
    Condition.repeats (Condition.append cs (.ofReason r message time))
      (.ofReason r message time') = true := by
  obtain ⟨d, hd, hsame⟩ := newest?_append cs (.ofReason r message time)
  have hagain : d.sameObservation (.ofReason r message time) = true := by
    rcases hsame with rfl | hsame
    · simp [sameObservation]
    · exact hsame
  unfold repeats
  rw [show (ofReason r message time').type = (ofReason r message time).type from rfl, hd]
  exact hagain

/-- An event is no news to a resource with the status in which it was recorded. -/
theorem Job.isNews_eq_false {j j₁ : Job} {reason : Reason} {detail : Option String}
    {time : String} (hstatus : j₁.resource.status = (j.noted reason detail time).status)
    (hkind : j₁.resource.kind = j.resource.kind)
    (hmessage : j₁.message reason detail = j.message reason detail) (time' : String) :
    j₁.isNews reason detail time' = false := by
  have hconditions : j₁.resource.conditions = Condition.append j.resource.conditions
      (.ofReason reason (j.message reason detail) time) := by
    rw [Resource.conditions, Resource.statusD, hstatus]
    rfl
  have hphase : j₁.resource.phase = some (reason.phase j.resource.kind.successPhase) := by
    rw [Resource.phase, Resource.statusD, hstatus]
    rfl
  rw [isNews, Resource.accepts, hconditions, hmessage, Condition.repeats_append, hphase, noted,
    Resource.phase_recordReady, hkind]
  simp

/-- A job in hand in a store, and one that takes the same resource up again in another store, as
it was left there. -/
structure Echo (kind : Kind) (ns name : String) (s s₁ : Store) (j j₁ : Job) : Prop where
  keyed : s.Keyed kind
  stored : s.get? ns name = some j.resource
  keyed₁ : s₁.Keyed kind
  stored₁ : s₁.get? ns name = some j₁.resource
  restated : j.resource.Restated j₁.resource
  release : j₁.release = j.release

namespace Echo

variable {kind : Kind} {ns name : String} {s s₁ : Store} {j j₁ : Job}

theorem kind_eq (h : Echo kind ns name s s₁ j j₁) : j₁.resource.kind = j.resource.kind :=
  h.restated.kind

theorem message (h : Echo kind ns name s s₁ j j₁) (reason : Reason) (detail : Option String) :
    j₁.message reason detail = j.message reason detail := by
  obtain ⟨n, status, hr⟩ := h.restated
  rw [Job.message, Job.message, h.release, hr]
  rfl

theorem values (h : Echo kind ns name s s₁ j j₁) (setup : Setup) :
    j₁.values setup = j.values setup := by
  obtain ⟨n, status, hr⟩ := h.restated
  rw [Job.values, Job.values, h.release, hr]
  rfl

theorem credentials (h : Echo kind ns name s s₁ j j₁) : j₁.credentials = j.credentials := by
  obtain ⟨n, status, hr⟩ := h.restated
  rw [Job.credentials, Job.credentials, h.release, hr]
  rfl

end Echo

namespace Work

variable {α : Type}

/-- Work that comes to a stop, and that does so again on the resource as the store holds it then,
writes nothing the second time. -/
def EchoesWhere (stops : α → Prop) (replies : Replies) (ns name : String) (s s₁ : Store)
    (j j₁ : Job) (work work' : Work α) : Prop :=
  ∀ u v : Dialogue, u.store = s → v.store = s₁ → u.asked = v.asked →
    PairedFrom (Dialogue.conduct replies) work j u work' j₁ v fun a _ u' a' _ v' =>
      stops a → u'.store.get? ns name = some j₁.resource → stops a' → v'.store = s₁

/-- The same for work that stops by asking to come back. -/
abbrev Echoes (replies : Replies) (ns name : String) (s s₁ : Store) (j j₁ : Job)
    (work work' : Work Outcome) : Prop :=
  EchoesWhere (fun o => o.requeue = true) replies ns name s s₁ j j₁ work work'

variable {replies : Replies} {kind : Kind} {ns name : String} {s s₁ : Store} {j j₁ : Job}
  {setup : Setup}

section Rules

variable {stops : α → Prop} {work work' : Work α}

/-- Enough of the first run: it does not stop, or it leaves another resource. -/
theorem echoes_of_first (h : ∀ u : Dialogue, u.store = s →
    AlwaysFrom (Dialogue.conduct replies) work j u fun a _ u' =>
      stops a → u'.store.get? ns name ≠ some j₁.resource) :
    EchoesWhere stops replies ns name s s₁ j j₁ work work' := by
  intro u v hu _ _
  refine pairedFrom_iff.2 ((h u hu).mono fun a k u' hno => always_iff_runs.2 ?_)
  exact fun _ _ _ ha hleft => absurd hleft (hno ha)

/-- Enough of the second run: it writes nothing. -/
theorem echoes_of_second (h : ∀ v : Dialogue, v.store = s₁ →
    AlwaysFrom (Dialogue.conduct replies) work' j₁ v fun _ _ v' => v'.store = s₁) :
    EchoesWhere stops replies ns name s s₁ j j₁ work work' := by
  intro u v _ hv _
  refine pairedFrom_iff.2 (always_iff_runs.2 fun _ _ _ => ?_)
  exact (h v hv).mono fun _ _ _ hsame _ _ _ => hsame

end Rules

variable {work work' : Work Outcome}

/-- Work that is always done never stops. -/
theorem echoes_of_done (h : ∀ u : Dialogue, u.store = s →
    AlwaysFrom (Dialogue.conduct replies) work j u fun o _ _ => o = .done) :
    Echoes replies ns name s s₁ j j₁ work work' := by
  refine echoes_of_first fun u hu => (h u hu).mono ?_
  rintro _ _ _ rfl ho
  exact absurd ho Bool.false_ne_true

/-- The job in hand is looked at. -/
theorem echoes_get {f f' : Job → Work Outcome}
    (h : Echoes replies ns name s s₁ j j₁ (f j) (f' j₁)) :
    Echoes replies ns name s s₁ j j₁ (get >>= f) (get >>= f') :=
  h

/-- What is asked outwards is replied to alike. -/
theorem echoes_ask {p : Pass α} {f f' : α → Work Outcome}
    (hp : Asks (fun c : Call => c.isOutward = true) p)
    (h : ∀ a, Echoes replies ns name s s₁ j j₁ (f a) (f' a)) :
    Echoes replies ns name s s₁ j j₁ (ask p >>= f) (ask p >>= f') := by
  intro u v hu hv huv
  refine pairedFrom_bind (pairedFrom_lift ((Dialogue.paired_outward hp huv).mono ?_))
  rintro a u' _ v' ⟨rfl, hu', hv', huv'⟩
  exact h a u' v' (hu'.trans hu) (hv'.trans hv) huv'

theorem echoes_about {p : Job → Pass α} {f f' : α → Work Outcome}
    (hp : Asks (fun c : Call => c.isOutward = true) (p j)) (hsame : p j₁ = p j)
    (h : ∀ a, Echoes replies ns name s s₁ j j₁ (f a) (f' a)) :
    Echoes replies ns name s s₁ j j₁ (about p >>= f) (about p >>= f') := by
  have hask : Echoes replies ns name s s₁ j j₁ (ask (p j) >>= f) (ask (p j₁) >>= f') := by
    rw [hsame]
    exact echoes_ask hp h
  exact hask

theorem asks_helm (c : HelmCall) : Asks (fun c : Call => c.isOutward = true) (Pass.helm c) :=
  ⟨rfl, fun _ => trivial⟩

/-- Work of which only its last call is not quiet. -/
theorem echoes_quiet {p : Pass Outcome} (hp : Pass.Quiet p) :
    Echoes replies ns name s s₁ j j₁ work' (ask p) :=
  echoes_of_second fun _ hv => (always_ask _ _).2
    ((Dialogue.always_quiet hp).mono fun _ _ hsame => hsame.trans hv)

/-! ### What is recorded -/

section Recording

variable (h : Echo kind ns name s s₁ j j₁)

include h

/-- What is announced is recorded, and stops nothing. -/
theorem always_announce_echo {u : Dialogue} (hu : u.store = s) (reason : Reason)
    (detail : Option String) :
    AlwaysFrom (Dialogue.conduct replies) (announce reason detail) j u fun o _ u' =>
      o = .done ∧ ∃ time r, u'.store.get? ns name = some r ∧
        r.status = (j.noted reason detail time).status := by
  rw [always_announce]
  refine (Dialogue.always_quiet Pass.quiet_now).mono fun time u₁ hsame => ?_
  have hstored : u₁.store.get? ns name = some j.resource := by rw [hsame, hu, h.stored]
  split
  · have hkeyed : u₁.store.Keyed kind := by
      rw [hsame, hu]
      exact h.keyed
    refine (Dialogue.always_persistStatus hkeyed hstored
      (j.metadata_noted reason detail time)).mono ?_
    rintro ⟨o, r⟩ u₂ ⟨rfl, _, hget, _, hstatus⟩
    exact ⟨rfl, time, r, hget, hstatus⟩
  · rename_i hnews
    refine ⟨rfl, time, _, hstored, ?_⟩
    rw [Job.noted_eq_self (Bool.not_eq_true _ ▸ hnews)]

theorem echoes_announce (reason : Reason) (detail : Option String) :
    Echoes replies ns name s s₁ j j₁ (announce reason detail) work' :=
  echoes_of_done fun _ hu =>
    (always_announce_echo h hu reason detail).mono fun _ _ _ hrecorded => hrecorded.1

/-- What is concluded is recorded, and stops nothing. -/
theorem always_conclude_echo {u : Dialogue} (hu : u.store = s) (reason : Reason) (reaches : Bool) :
    AlwaysFrom (Dialogue.conduct replies) (conclude reason reaches) j u fun o _ _ => o = .done := by
  rw [always_conclude]
  refine (Dialogue.always_quiet Pass.quiet_now).mono fun time u₁ hsame => ?_
  have hkeyed : u₁.store.Keyed kind := by
    rw [hsame, hu]
    exact h.keyed
  have hstored : u₁.store.get? ns name = some j.resource := by rw [hsame, hu, h.stored]
  exact (Dialogue.always_persistStatus hkeyed hstored
    (metadata_concluded j reason reaches time)).mono fun _ _ hwritten => hwritten.1

theorem echoes_conclude (reason : Reason) (reaches : Bool) :
    Echoes replies ns name s s₁ j j₁ (conclude reason reaches) work' :=
  echoes_of_done fun _ hu => always_conclude_echo h hu reason reaches

/-- A failure that is the newest event of a resource is not written again. -/
theorem echoes_fail (reason : Reason) (f : Failure) :
    Echoes replies ns name s s₁ j j₁ (fail reason f) (fail reason f) := by
  intro u v hu hv _
  rw [pairedFrom_iff, always_fail]
  refine (always_announce_echo h hu reason _).mono ?_
  rintro _ k u₁ ⟨_, time, r, hget, hstatus⟩
  refine (Dialogue.always_quiet (Pass.quiet_shortDelayWith f)).mono fun o u₂ hsame => ?_
  by_cases hleft : u₂.store.get? ns name = some j₁.resource
  · have hnews : ∀ time', j₁.isNews reason (some f.text) time' = false := by
      rw [hsame, hget] at hleft
      obtain rfl := Option.some.inj hleft
      exact Job.isNews_eq_false hstatus h.kind_eq (h.message reason _)
    rw [always_fail, always_announce]
    refine (Dialogue.always_quiet Pass.quiet_now).mono fun time' v₁ hv₁ => ?_
    rw [hnews, if_neg Bool.false_ne_true]
    refine (Dialogue.always_quiet (Pass.quiet_shortDelayWith f)).mono ?_
    exact fun _ _ hv₂ _ _ _ => (hv₂.trans hv₁).trans hv
  · exact always_iff_runs.2 fun _ _ _ _ hleft' => absurd hleft' hleft

end Recording

end Work

end ReleaseOperator
