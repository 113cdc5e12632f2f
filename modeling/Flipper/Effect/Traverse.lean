import Mathlib.Data.List.Perm.Basic

/-! Lists through a function that may fail. One failure is a failure of the whole list, so the
order of the elements matters to the order of the results only. -/
namespace Flipper.Effect
variable {α β γ : Type}

theorem mapM_cons (f : α → Option β) (a : α) (l : List α) :
    (a :: l).mapM f = (f a).bind fun b => (l.mapM f).map (b :: ·) := by
  rw [List.mapM_cons]
  cases f a with
  | none => rfl
  | some b => cases l.mapM f <;> rfl

theorem mapM_eq_some (f : α → Option β) (l : List α) (r : List β) :
    l.mapM f = some r ↔ (∀ a ∈ l, (f a).isSome) ∧ l.filterMap f = r := by
  induction l generalizing r with
  | nil => simp
  | cons a l ih =>
    rw [mapM_cons, List.forall_mem_cons]
    cases found : f a with
    | none => simp
    | some b =>
      rw [List.filterMap_cons_some found, Option.bind_some, Option.map_eq_some_iff]
      simp only [ih]
      constructor
      · rintro ⟨later, ⟨all, rfl⟩, rfl⟩
        exact ⟨⟨rfl, all⟩, rfl⟩
      · rintro ⟨⟨-, all⟩, rfl⟩
        exact ⟨_, ⟨all, rfl⟩, rfl⟩

theorem mem_of_mapM {f : α → Option β} {l : List α} {r : List β} (mapped : l.mapM f = some r)
    (member : b ∈ r) : ∃ a ∈ l, f a = some b := by
  obtain ⟨-, rfl⟩ := (mapM_eq_some f l r).mp mapped
  exact List.mem_filterMap.mp member

/-- What is read off a result is read off the element it came from. -/
theorem map_of_mapM {f : α → Option β} {g : β → γ} {h : α → γ} {l : List α} {r : List β}
    (mapped : l.mapM f = some r) (same : ∀ a b, f a = some b → g b = h a) : r.map g = l.map h := by
  induction l generalizing r with
  | nil =>
    cases mapped
    rfl
  | cons a l ih =>
    rw [mapM_cons] at mapped
    obtain ⟨b, found, mapped⟩ := Option.bind_eq_some_iff.mp mapped
    obtain ⟨later, rest, rfl⟩ := Option.map_eq_some_iff.mp mapped
    rw [List.map_cons, List.map_cons, same a b found, ih rest]

theorem mapM_perm (f : α → Option β) {l l' : List α} (perm : l.Perm l') :
    Option.Rel List.Perm (l.mapM f) (l'.mapM f) := by
  cases mapped : l.mapM f with
  | some r =>
    obtain ⟨all, rfl⟩ := (mapM_eq_some f l r).mp mapped
    have mapped' : l'.mapM f = some (l'.filterMap f) :=
      (mapM_eq_some ..).mpr ⟨fun a member => all a (perm.mem_iff.mpr member), rfl⟩
    rw [mapped']
    exact .some (perm.filterMap f)
  | none =>
    cases mapped' : l'.mapM f with
    | none => exact .none
    | some r =>
      obtain ⟨all, rfl⟩ := (mapM_eq_some f l' r).mp mapped'
      have found := (mapM_eq_some f l _).mpr ⟨fun a member => all a (perm.mem_iff.mp member), rfl⟩
      rw [mapped] at found
      cases found

theorem mapM_congr {f : α → Option γ} {g : β → Option γ} {l : List α} {l' : List β}
    (same : List.Forall₂ (fun a b => f a = g b) l l') : l.mapM f = l'.mapM g := by
  induction same with
  | nil => rfl
  | cons first _ ih => rw [mapM_cons, mapM_cons, first, ih]

theorem mapM_map (f : α → β) (g : β → Option γ) (l : List α) :
    (l.map f).mapM g = l.mapM (g ∘ f) :=
  mapM_congr (List.forall₂_map_left_iff.mpr (List.forall₂_same.mpr fun _ _ => rfl))

/-- Two passes are one. -/
theorem mapM_bind (f : α → Option β) (g : β → Option γ) (l : List α) :
    ((l.mapM f).bind fun r => r.mapM g) = l.mapM fun a => (f a).bind g := by
  induction l with
  | nil => rfl
  | cons a l ih =>
    rw [mapM_cons, mapM_cons, ← ih]
    cases f a with
    | none => rfl
    | some b =>
      cases l.mapM f with
      | none => cases found : g b <;> simp [found]
      | some r => simp only [Option.bind_some, Option.map_some, mapM_cons]

end Flipper.Effect
