import ReleaseOperator.Proofs.Estate.Lived

/-!
# Coming to what a module asks for

When nothing fails, a pass leads from one situation to the next. A module comes to what
it asks for when on every way there is a situation, after a number of passes at most, in
which its release has the version and the values asked for and the status says so.
-/

namespace ReleaseOperator

open InMemory Program Situation

namespace Estate

variable {g : Ground} {setup : Setup} {ns name : String} {x y z : Situation}
  {documents : List Json} {a : Action} {m : Memory} {s : Estate} {n : Nat}

/-- The release has the version and the values that a resource asks for, and the status
says so. -/
def AsAsked (g : Ground) (documents : List Json) (r : Resource)
    (release : Option StoredRelease) : Prop :=
  (∃ stored, release = some stored ∧ stored.info.status = .deployed ∧
    Text.trim stored.info.chartVersion = r.desiredVersion ∧
    g.values stored.documents = Values.mergeAll documents) ∧
  r.lastVersion = some r.desiredVersion

/-- The module is stored and has what it asks for. -/
def Carries (g : Ground) (setup : Setup) (ns name : String) (documents : List Json)
    (s : Estate) : Prop :=
  ∃ r, s.store.get? ns name = some r ∧
    AsAsked g documents r (s.releases.get? (r.releaseKey setup))

/-- Passes on which nothing fails lead to an estate of a kind, after a number of them at
most. -/
def Within (g : Ground) (setup : Setup) (ns name : String) (post : Estate → Prop) :
    Nat → Memory → Estate → Prop
  | 0, _, s => post s
  | n + 1, m, s =>
    post s ∨ AlwaysFrom (conduct g False) (reconcile setup .module ns name) m s
      fun _ m' s' => Within g setup ns name post n m' s'

/-- A pass on which nothing fails, from one situation to the next. -/
def Next (g : Ground) (setup : Setup) (x z : Situation) : Prop :=
  ∃ requeue y, Through g setup False x requeue y ∧ Found y x.resource.generation z

/-- Passes on which nothing fails lead to what is asked for, after a number of them at
most. -/
def Comes (g : Ground) (setup : Setup) (documents : List Json) : Nat → Situation → Prop
  | 0, x => AsAsked g documents x.resource x.release
  | n + 1, x =>
    AsAsked g documents x.resource x.release ∨
      ∀ z, Next g setup x z → Comes g setup documents n z

theorem comes_of_asAsked (n : Nat) (h : AsAsked g documents x.resource x.release) :
    Comes g setup documents n x := by
  cases n with
  | zero => exact h
  | succ n => exact Or.inl h

theorem Comes.succ (h : Comes g setup documents n x) : Comes g setup documents (n + 1) x := by
  induction n generalizing x with
  | zero => exact Or.inl h
  | succ n ih => exact h.imp_right fun hlater z hz => ih (hlater z hz)

theorem Views.carries_iff (h : Views setup ns name x m s) :
    Carries g setup ns name documents s ↔ AsAsked g documents x.resource x.release := by
  rw [← h.release]
  constructor
  · rintro ⟨r, hstored, hr⟩
    obtain rfl := Option.some.inj (hstored.symm.trans h.stored)
    exact hr
  · exact fun hasked => ⟨x.resource, h.stored, hasked⟩

theorem Views.within (h : Views setup ns name x m s) (hx : Comes g setup documents n x) :
    Within g setup ns name (Carries g setup ns name documents) n m s := by
  induction n generalizing x m s with
  | zero => exact h.carries_iff.2 hx
  | succ n ih =>
      rcases hx with hnow | hlater
      · exact Or.inl (h.carries_iff.2 hnow)
      · right
        refine h.reconcile.mono ?_
        rintro result m' s' ⟨_, y, z, _, _, hthrough, hfound, hz⟩
        exact ih hz (hlater z ⟨_, y, hthrough, hfound⟩)

/-- What every pass keeps and what excludes what is asked for, excludes it for good. -/
theorem Views.never {I : Situation → Prop} (hnext : ∀ x z, I x → Next g setup x z → I z)
    (hnot : ∀ x, I x → ¬AsAsked g documents x.resource x.release)
    (h : Views setup ns name x m s) (hx : I x) :
    ¬Within g setup ns name (Carries g setup ns name documents) n m s := by
  induction n generalizing x m s with
  | zero => exact fun hnow => hnot x hx (h.carries_iff.1 hnow)
  | succ n ih =>
      rintro (hnow | hlater)
      · exact hnot x hx (h.carries_iff.1 hnow)
      · obtain ⟨_, _, _, ⟨_, y, z, _, _, hthrough, hfound, hz⟩, hwithin⟩ :=
          (h.reconcile.and hlater).exists
        exact ih hz (hnext x z hx ⟨_, y, hthrough, hfound⟩) hwithin

/-! ### The first pass of a generation -/

/-- Nothing has been done for the generation. -/
def Unbegun (x : Situation) : Prop := ∃ gen, x.entry = .fresh gen .start

theorem Unbegun.found {gen : Int} (h : Unbegun x) (hfound : Found y gen z)
    (hentry : y.entry = x.entry) : Unbegun z := by
  rcases hfound.2.2 with ⟨hsame, _⟩ | hfresh
  · obtain ⟨gen', hx⟩ := h
    exact ⟨gen', (hsame.trans hentry).trans hx⟩
  · exact ⟨_, hfresh⟩

/-- Without the finalizer a pass puts it on and does nothing else. -/
theorem Unbegun.held (hx : Unbegun x) (h : Next g setup x z)
    (hno : x.resource.hasFinalizer = false) :
    x.resource.Alike z.resource ∧ z.resource.hasFinalizer = true ∧ z.release = x.release ∧
      Unbegun z := by
  obtain ⟨requeue, y, hthrough, hfound⟩ := h
  cases hthrough with
  | hindered hfalse => exact hfalse.elim
  | hold _ hwritten =>
      obtain ⟨hr, hheld⟩ := Resource.Rewritten.alike hwritten
      rw [hfound.1]
      exact ⟨hr, hheld, hfound.2.1, hx.found hfound rfl⟩
  | live hheld _ =>
      rw [hno] at hheld
      exact absurd hheld Bool.false_ne_true

/-- One pass more is enough for a module without the finalizer. -/
theorem Unbegun.comes (hx : Unbegun x)
    (h : ∀ z, Unbegun z → x.resource.Alike z.resource → z.release = x.release →
      z.resource.hasFinalizer = true → Comes g setup documents n z) :
    Comes g setup documents (n + 1) x := by
  cases hheld : x.resource.hasFinalizer with
  | true => exact (h x hx ⟨rfl, rfl, rfl, rfl⟩ rfl hheld).succ
  | false =>
      right
      intro z hz
      obtain ⟨hr, hyes, hrelease, hunbegun⟩ := hx.held hz hheld
      exact h z hunbegun hr hrelease hyes

/-- The work on a new generation is that of the action that is chosen, or there is none. -/
theorem Unbegun.live {requeue : Bool} (hx : Unbegun x) (h : Live g setup False x requeue y) :
    y = x ∧ (∃ e, x.resource.selectAction = .error e) ∨
      ∃ a, x.resource.selectAction = .ok a ∧
        Course g setup False a { x with entry := x.entry.pin a } requeue y := by
  obtain ⟨gen, hentry⟩ := hx
  have hfinish : x.entry.stage ≠ .finish := by
    rw [hentry]
    exact fun h => absurd h (by simp [Entry.fresh])
  cases h with
  | settled hstage _ => exact absurd hstage hfinish
  | hindered hstage _ => exact absurd hstage hfinish
  | unchanged hstage _ _ _ => exact absurd hstage hfinish
  | changed hstage _ _ _ _ => exact absurd hstage hfinish
  | undecided _ _ herror => exact Or.inl ⟨rfl, _, herror⟩
  | chosen _ _ hok hcourse => exact Or.inr ⟨_, hok, hcourse⟩
  | kept _ haction _ =>
      rw [hentry] at haction
      exact absurd haction (by simp [Entry.fresh])

/-- With the finalizer a pass runs the action that is chosen. -/
theorem Unbegun.begun (hx : Unbegun x) (h : Next g setup x z)
    (hheld : x.resource.hasFinalizer = true) (hselect : x.resource.selectAction = .ok a) :
    ∃ requeue y, Course g setup False a { x with entry := x.entry.pin a } requeue y ∧
      Found y x.resource.generation z := by
  obtain ⟨requeue, y, hthrough, hfound⟩ := h
  cases hthrough with
  | hindered hfalse => exact hfalse.elim
  | hold hno _ =>
      rw [hheld] at hno
      exact absurd hno.symm Bool.false_ne_true
  | live _ hlive =>
      rcases hx.live hlive with ⟨_, e, herror⟩ | ⟨a', hok, hcourse⟩
      · rw [hselect] at herror
        exact absurd herror (by simp)
      · obtain rfl : a = a' := Except.ok.inj (hselect.symm.trans hok)
        exact ⟨requeue, y, hcourse, hfound⟩

/-!
## Work that cannot move the release

An installation passes by a release that stands, and waits for it to be at the version
asked for. If the version is another one, nothing that a pass does changes that.
-/

variable {trouble : Prop} {r : Resource} {requeue : Bool}

/-- An installation over a release that it passes by, which is at another version than the
one asked for, or has other values under a version that cannot be read. -/
structure Inert (g : Ground) (documents : List Json) (x : Situation) : Prop where
  kind : x.resource.kind = .module
  stands : stands x.release = true
  named : x.resource.desiredVersion.isEmpty = false
  action : ∀ a, x.entry.action = some a → a = .install
  choice : installPending x.resource.conditions = true ∨ ∃ e, x.resource.selectAction = .error e
  waits : isAt x.resource x.release = false → x.entry.stage.rank ≤ 6
  other : isAt x.resource x.release = true →
    (∃ e, Version.parse x.resource.desiredVersion = .error e) ∧
      x.release.map (fun stored => g.values stored.documents) ≠ some (Values.mergeAll documents)

namespace Inert

theorem not_asAsked (hx : Inert g documents x) :
    ¬AsAsked g documents x.resource x.release := by
  rintro ⟨⟨stored, hrelease, hdeployed, hversion, hvalues⟩, _⟩
  have hat : isAt x.resource x.release = true := by
    rw [hrelease, isAt_some]
    exact ⟨hdeployed, Or.inr hversion⟩
  have hother := (hx.other hat).2
  rw [hrelease] at hother
  exact hother (congrArg some hvalues)

theorem noted {reason : Reason} (hx : Inert g documents x) (hn : x.resource.Noted reason r)
    (hreason : Reason.installPending.contains reason = true) :
    Inert g documents { x with resource := r } := by
  obtain ⟨n, status, heq⟩ := hn.restated
  have hat : isAt r x.release = isAt x.resource x.release := by
    rw [heq]
    rfl
  have hdesired := hn.restated.desiredVersion
  refine ⟨hn.restated.kind.trans hx.kind, hx.stands, ?_, hx.action, Or.inl ?_, ?_, ?_⟩
  · exact (congrArg String.isEmpty hdesired).trans hx.named
  · rw [installPending_of_endsIn hn.ends]
    exact hreason
  · exact fun h => hx.waits (hat.symm.trans h)
  · dsimp only
    rw [hdesired]
    exact fun h => hx.other (hat.symm.trans h)

theorem entered (hx : Inert g documents x)
    (hrank : isAt x.resource x.release = false → x.entry.stage.rank ≤ 5) :
    Inert g documents x.entered := by
  refine ⟨hx.kind, hx.stands, hx.named, hx.action, hx.choice, ?_, hx.other⟩
  intro hat
  have hle := hrank hat
  change x.entry.stage.next.rank ≤ 6
  cases hst : x.entry.stage <;> rw [hst] at hle <;> first | decide | exact absurd hle (by decide)

theorem concluded (hx : Inert g documents x)
    (hc : x.resource.Concluded Action.install.success r) (hstage : x.entry.stage = .complete) :
    Inert g documents { x with resource := r } := by
  obtain ⟨n, status, heq⟩ := hc.restated
  have hkind := hc.restated.kind
  have hdesired := hc.restated.desiredVersion
  have hat : isAt r x.release = isAt x.resource x.release := by
    rw [heq]
    rfl
  have hold : isAt x.resource x.release = true := by
    cases hfalse : isAt x.resource x.release with
    | true => rfl
    | false =>
        have hle := hx.waits hfalse
        rw [hstage] at hle
        exact absurd hle (by decide)
  obtain ⟨⟨e, hparse⟩, hvalues⟩ := hx.other hold
  have hnamed : r.desiredVersion.isEmpty = false :=
    (congrArg String.isEmpty hdesired).trans hx.named
  rw [← hdesired] at hparse
  refine ⟨hkind.trans hx.kind, hx.stands, hnamed, hx.action, Or.inr ?_, ?_,
    fun _ => ⟨⟨e, hparse⟩, hvalues⟩⟩
  · refine selectAction_unreadable ?_ ?_ hnamed hparse
    · rw [installPending_of_endsIn hc.ends]
      rfl
    · rw [hc.lastVersion, hdesired]
  · intro hno
    rw [hat, hold] at hno
    exact absurd hno.symm Bool.false_ne_true

theorem advance (hx : Inert g documents x) (h : Advance g setup .install x y) :
    Inert g documents y.entered := by
  cases h with
  | idle hidle =>
      refine hx.entered fun hat => ?_
      have hle := hx.waits hat
      have hno := hidle.2.2
      cases hst : x.entry.stage <;> rw [hst] at hle hno <;>
        first | decide | exact absurd hle (by decide) | exact absurd (by decide) hno
  | announce time hreason hnoted =>
      have hy := hx.noted hnoted (announced_installPending hreason)
      have hmarked : Inert g documents (marked { x with resource := _ } time) :=
        ⟨hy.kind, hy.stands, hy.named, hy.action, hy.choice, hy.waits, hy.other⟩
      refine hmarked.entered fun _ => ?_
      change x.entry.stage.rank ≤ 5
      cases hst : x.entry.stage <;> rw [hst] at hreason <;> first | decide | cases hreason
  | stand hstage _ _ => exact hx.entered fun _ => by rw [hstage]; decide
  | apply _ _ hno =>
      have hstands := hx.stands
      rw [hno rfl] at hstands
      exact absurd hstands Bool.false_ne_true
  | await _ hat =>
      refine hx.entered fun hno => ?_
      rw [hat] at hno
      exact absurd hno.symm Bool.false_ne_true
  | conclude hstage hconcluded =>
      have hy := hx.concluded hconcluded hstage
      refine hy.entered fun hno => ?_
      have hle := hy.waits hno
      change x.entry.stage.rank ≤ 6 at hle
      rw [hstage] at hle
      exact absurd hle (by decide)

theorem halt (hx : Inert g documents x) (h : Halt g setup trouble .install x y) :
    Inert g documents y := by
  cases h with
  | hindered time _ =>
      exact ⟨hx.kind, hx.stands, hx.named, hx.action, hx.choice, hx.waits, hx.other⟩
  | failed _ _ hnoted => exact hx.noted hnoted rfl
  | pin _ _ hempty _ =>
      rw [hx.named] at hempty
      exact absurd hempty Bool.false_ne_true
  | wait _ _ => exact hx

theorem course (hx : Inert g documents x) (h : Course g setup trouble .install x requeue y) :
    Inert g documents y := by
  induction h with
  | finish _ => exact hx
  | halt hhalt => exact hx.halt hhalt
  | advance hadvance _ ih => exact ih (hx.advance hadvance)

theorem live (hx : Inert g documents x) (h : Live g setup trouble x requeue y) :
    Inert g documents y := by
  have hchoice : ∀ a, x.resource.selectAction = .ok a → a = .install := by
    intro a ha
    rcases hx.choice with hpending | ⟨e, herror⟩
    · rw [selectAction_pending hpending] at ha
      exact (Except.ok.inj ha).symm
    · rw [herror] at ha
      exact absurd ha (by simp)
  cases h with
  | unchanged _ _ _ _ =>
      exact ⟨hx.kind, hx.stands, hx.named, hx.action, hx.choice, hx.waits, hx.other⟩
  | changed _ hselects _ _ _ =>
      exact absurd (hchoice _ (selectsUpdate_iff.1 hselects)) (by decide)
  | chosen _ _ hselect hcourse =>
      obtain rfl := hchoice _ hselect
      have hpinned : Inert g documents { x with entry := x.entry.pin .install } :=
        ⟨hx.kind, hx.stands, hx.named, fun _ ha => (Option.some.inj ha).symm, hx.choice, hx.waits,
          hx.other⟩
      exact hpinned.course hcourse
  | kept _ haction hcourse =>
      obtain rfl := hx.action _ haction
      exact hx.course hcourse
  | _ => exact hx

theorem alike (hx : Inert g documents x) (hr : x.resource.Alike r) :
    Inert g documents { x with resource := r } := by
  have hdesired := hr.desiredVersion
  have hat : isAt r x.release = isAt x.resource x.release := by
    rw [isAt, isAt, hdesired]
  refine ⟨hr.kind.trans hx.kind, hx.stands, (congrArg String.isEmpty hdesired).trans hx.named,
    hx.action, ?_, ?_, ?_⟩
  · dsimp only
    rw [hr.conditions, hr.selectAction]
    exact hx.choice
  · exact fun h => hx.waits (hat.symm.trans h)
  · dsimp only
    rw [hdesired]
    exact fun h => hx.other (hat.symm.trans h)

theorem found {gen : Int} (hx : Inert g documents x) (hfound : Found x gen y) :
    Inert g documents y := by
  obtain ⟨r, release, e⟩ := y
  obtain ⟨rfl, rfl, ⟨rfl, _⟩ | rfl⟩ := hfound
  · exact hx
  · exact ⟨hx.kind, hx.stands, hx.named, fun _ ha => absurd ha (by simp [Entry.fresh]), hx.choice,
      fun _ => by simp [Entry.fresh, Stage.rank], hx.other⟩

/-- No pass brings such an installation to its end. -/
theorem next (hx : Inert g documents x) (h : Next g setup x z) : Inert g documents z := by
  obtain ⟨requeue, y, hthrough, hfound⟩ := h
  cases hthrough with
  | hindered hfalse => exact hfalse.elim
  | hold _ hwritten => exact (hx.alike (Resource.Rewritten.alike hwritten).1).found hfound
  | live _ hlive => exact (hx.live hlive).found hfound

end Inert

/-- Nothing can be chosen, and what is asked for is not there. -/
def Undecided (g : Ground) (documents : List Json) (x : Situation) : Prop :=
  Unbegun x ∧ (∃ e, x.resource.selectAction = .error e) ∧
    ¬AsAsked g documents x.resource x.release

theorem Undecided.next (hx : Undecided g documents x) (h : Next g setup x z) :
    Undecided g documents z := by
  obtain ⟨hunbegun, ⟨e, herror⟩, hnot⟩ := hx
  have hkept : x.resource.hasFinalizer = false ∨ z.resource = x.resource ∧ z.release = x.release ∧
      Unbegun z := by
    obtain ⟨requeue, y, hthrough, hfound⟩ := h
    cases hthrough with
    | hindered hfalse => exact hfalse.elim
    | hold hno _ => exact Or.inl hno
    | live _ hlive =>
        rcases hunbegun.live hlive with ⟨rfl, _⟩ | ⟨a, hok, _⟩
        · exact Or.inr ⟨hfound.1, hfound.2.1, hunbegun.found hfound rfl⟩
        · rw [herror] at hok
          exact absurd hok (by simp)
  rcases hkept with hno | ⟨hresource, hrelease, hz⟩
  · obtain ⟨hr, _, hrelease, hz⟩ := hunbegun.held h hno
    refine ⟨hz, ⟨e, hr.selectAction.trans herror⟩, ?_⟩
    rw [AsAsked, hr.desiredVersion, hr.lastVersion, hrelease]
    exact hnot
  · refine ⟨hz, ⟨e, ?_⟩, ?_⟩
    · rw [hresource]
      exact herror
    · rw [hresource, hrelease]
      exact hnot

end Estate

end ReleaseOperator
