import ReleaseOperator.Proofs.Edits.Script
import ReleaseOperator.Proofs.Evidence.Since

/-!
# The releases behind a story

What Helm answers tells at which places there are releases, if it tells the truth and nobody
else touches them. A release that was applied and did not succeed may be there or not, and so
may one whose removal failed. A place that was cleared stays vacant until something is applied
again.
-/

namespace ReleaseOperator

namespace Event

/-- A release is handed to Helm, whatever becomes of it. -/
def Applies : Event → Prop
  | .asked (.helm (.upgradeOrInstall _)) _ => True
  | _ => False

/-- How an event bears on the places at which Helm holds releases. -/
def Moves (places places' : List (String × String)) : Event → Prop
  | .asked (.helm (.upgradeOrInstall request)) (.ok _) =>
    places' = if request.dryRun then places else request.release.place :: places
  | .asked (.helm (.upgradeOrInstall request)) (.error _) =>
    places' = places ∨ places' = request.release.place :: places
  | .asked (.helm (.uninstall name ns dryRun)) (.ok _) =>
    places' = if dryRun then places else places.filter (· ≠ (name, ns))
  | .asked (.helm (.uninstall name ns _)) (.error _) =>
    places' = places ∨ places' = places.filter (· ≠ (name, ns))
  | .asked (.helm (.releaseInfo name ns)) (.ok none) => (name, ns) ∉ places ∧ places' = places
  | .asked (.helm (.releaseInfo name ns)) (.ok (some _)) => (name, ns) ∈ places ∧ places' = places
  | _ => places' = places

variable {e : Event} {places places' : List (String × String)} {place : String × String}

theorem exists_of_applies (h : e.Applies) :
    ∃ request a, e = asked (.helm (.upgradeOrInstall request)) a := by
  unfold Applies at h
  split at h
  · exact ⟨_, _, rfl⟩
  · exact h.elim

/-- What was not applied just now was there before. -/
theorem mem_of_moves (he : ¬ e.Applies) (hmoves : e.Moves places places')
    (hmem : place ∈ places') : place ∈ places := by
  unfold Moves at hmoves
  split at hmoves
  · exact absurd trivial he
  · exact absurd trivial he
  · split at hmoves
    · exact hmoves ▸ hmem
    · exact (List.mem_filter.1 (hmoves ▸ hmem)).1
  · rcases hmoves with rfl | rfl
    · exact hmem
    · exact (List.mem_filter.1 hmem).1
  · exact hmoves.2 ▸ hmem
  · exact hmoves.2 ▸ hmem
  · exact hmoves ▸ hmem

theorem not_mem_of_removes (he : e.Removes place) (hmoves : e.Moves places places') :
    place ∉ places' := by
  unfold Removes at he
  split at he
  · obtain rfl := he
    exact hmoves.2 ▸ hmoves.1
  · rename_i name ns dryRun u
    obtain ⟨rfl, rfl⟩ := he
    have hplaces : places' = places.filter (· ≠ (name, ns)) := hmoves
    rw [hplaces]
    simp
  · exact he.elim

theorem not_applies_of_keeps {aim : Aim} (h : e.Keeps aim) : ¬ e.Applies := by
  intro happlies
  obtain ⟨request, a, rfl⟩ := exists_of_applies happlies
  exact h

end Event

namespace Story

variable {start places : List (String × String)} {place : String × String} {es past : Story}
  {e : Event} {aim : Aim}

/-- The places at which there are releases after a story of a Helm that tells the truth. -/
inductive Held (start : List (String × String)) : Story → List (String × String) → Prop
  | nil : Held start [] start
  | cons {es : Story} {e : Event} {places places' : List (String × String)}
      (before : Held start es places) (moves : e.Moves places places') :
      Held start (e :: es) places'

/-- No release can be at a place, wherever there were any at the start. -/
def Vacant (place : String × String) (story : Story) : Prop :=
  ∀ start places, Held start story places → place ∉ places

theorem vacant_of_removes (he : e.Removes place) : Vacant place (e :: es) := by
  intro start places h
  cases h with
  | cons before moves => exact Event.not_mem_of_removes he moves

theorem Vacant.cons (h : Vacant place es) (he : ¬ e.Applies) : Vacant place (e :: es) := by
  intro start places hheld hmem
  cases hheld with
  | cons before moves => exact h start _ before (Event.mem_of_moves he moves hmem)

theorem Vacant.append {recent : Story} (h : Vacant place es)
    (hrecent : ∀ x ∈ recent, ¬ Event.Applies x) : Vacant place (recent ++ es) :=
  append_of_cons (fun _ _ he h => h.cons he) hrecent h

theorem vacant_of_removed (h : Removed aim es) : Vacant aim.place (es ++ past) := by
  obtain ⟨recent, e, es', rfl, hrecent, hmark⟩ := h
  rw [List.append_assoc]
  exact (vacant_of_removes hmark).append fun x hx => Event.not_applies_of_keeps (hrecent x hx)

/-- Where a release was removed and then found not to be deployed there is none. -/
theorem vacant_of_cleared (h : Cleared aim es) : Vacant aim.place (es ++ past) := by
  obtain ⟨recent, e, es', rfl, hrecent, hundeployed, hremoved⟩ := h
  rw [List.append_assoc]
  refine Vacant.append ((vacant_of_removed hremoved).cons ?_) fun x hx =>
    Event.not_applies_of_keeps (hrecent x hx)
  intro happlies
  obtain ⟨request, a, rfl⟩ := Event.exists_of_applies happlies
  exact hundeployed

/-! ### A Helm that can be run -/

/-- The places at which a Helm that does as it is told has releases. -/
def releases : Story → List (String × String)
  | [] => []
  | .asked (.helm (.upgradeOrInstall request)) (.ok _) :: es => request.release.place :: releases es
  | .asked (.helm (.uninstall name ns _)) (.ok _) :: es => (releases es).filter (· ≠ (name, ns))
  | _ :: es => releases es

/-- Whether Helm has answered according to these places. -/
def isTrue : Story → Bool
  | [] => true
  | .asked (.helm (.upgradeOrInstall request)) (.ok _) :: es => !request.dryRun && isTrue es
  | .asked (.helm (.uninstall _ _ dryRun)) (.ok _) :: es => !dryRun && isTrue es
  | .asked (.helm (.releaseInfo name ns)) (.ok info) :: es =>
    info.isSome == decide ((name, ns) ∈ releases es) && isTrue es
  | _ :: es => isTrue es

theorem held_of_isTrue (h : isTrue es = true) : Held [] es (releases es) := by
  fun_induction isTrue es with
  | case1 => exact .nil
  | case2 request info es ih =>
      rw [Bool.and_eq_true, Bool.not_eq_true'] at h
      refine (ih h.2).cons ?_
      rw [Event.Moves, h.1]
      rfl
  | case3 name ns dryRun u es ih =>
      rw [Bool.and_eq_true, Bool.not_eq_true'] at h
      refine (ih h.2).cons ?_
      rw [Event.Moves, h.1]
      rfl
  | case4 name ns info es ih =>
      rw [Bool.and_eq_true, beq_iff_eq] at h
      refine (ih h.2).cons ?_
      cases info with
      | none => exact ⟨of_decide_eq_false h.1.symm, rfl⟩
      | some i => exact ⟨of_decide_eq_true h.1.symm, rfl⟩
  | case5 e es happly hremove hinfo ih =>
      refine (ih h).cons ?_
      rcases e with _ | ⟨c, a⟩ | _
      · rfl
      · rcases c with _ | _ | (_ | _ | _ | _ | _ | _) | _ | _ | _ | _
        case helm.upgradeOrInstall request =>
          cases a with
          | ok info => exact absurd rfl (happly request info)
          | error f => exact Or.inl rfl
        case helm.uninstall name ns dryRun =>
          cases a with
          | ok u => exact absurd rfl (hremove name ns dryRun u)
          | error f => exact Or.inl rfl
        case helm.releaseInfo name ns =>
          cases a with
          | ok info => exact absurd rfl (hinfo name ns info)
          | error f => rfl
        all_goals rfl
      · rfl

/-- Helm answers by its books, its releases are deployed in the version 0.1.0, and all else
goes well. -/
def booked (story : Story) : (c : Call) → c.Answer
  | .helm (.releaseInfo name ns) =>
    .ok (if (name, ns) ∈ story.releases then some ⟨name, ns, .deployed, "0.1.0"⟩ else none)
  | c => (Contest.wellAnswered .module none .empty c).1

end Story

end ReleaseOperator
