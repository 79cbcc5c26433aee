import Mathlib.Data.List.Forall2
import Mathlib.Data.List.Lex

/-!
# Choices of one element from each list

`choices` lists all ways to choose one element from each of a list of lists, the last list's element
varying fastest. A choice is a list whose elements are members of the lists position by position,
and lists ordered by a relation give choices ordered by its lexicographic extension.
-/

namespace Choices

variable {α β : Type}

/-- The choices of one element from each list. -/
def choices : List (List α) → List (List α)
  | [] => [[]]
  | l :: ls => l.flatMap fun a => (choices ls).map (a :: ·)

theorem mem_choices {ls : List (List α)} {c : List α} :
    c ∈ choices ls ↔ List.Forall₂ (· ∈ ·) c ls := by
  induction ls generalizing c with
  | nil => simp [choices]
  | cons l ls ih =>
    simp only [choices, List.mem_flatMap, List.mem_map, ih, List.forall₂_cons_right_iff]
    constructor
    · rintro ⟨a, ha, c, hc, rfl⟩
      exact ⟨a, c, ha, hc, rfl⟩
    · rintro ⟨a, c, ha, hc, rfl⟩
      exact ⟨a, ha, c, hc, rfl⟩

/-- The choices from lists in order are in lexicographic order. -/
theorem pairwise_choices {r : α → α → Prop} {ls : List (List α)} (h : ∀ l ∈ ls, l.Pairwise r) :
    (choices ls).Pairwise (List.Lex r) := by
  induction ls with
  | nil => exact List.pairwise_singleton _ _
  | cons l ls ih =>
    have ih := ih fun l' hl' => h l' (List.mem_cons_of_mem _ hl')
    rw [choices, List.pairwise_flatMap]
    refine ⟨?_, (h l List.mem_cons_self).imp ?_⟩
    · intro a _
      exact List.pairwise_map.2 (ih.imp fun hlt => .cons hlt)
    · intro a b hab x hx y hy
      obtain ⟨c, -, rfl⟩ := List.mem_map.1 hx
      obtain ⟨d, -, rfl⟩ := List.mem_map.1 hy
      exact .rel hab

/-- The choices of the images are the images of the choices. -/
theorem choices_map (f : α → β) (ls : List (List α)) :
    choices (ls.map (List.map f)) = (choices ls).map (List.map f) := by
  induction ls with
  | nil => rfl
  | cons l ls ih =>
    simp only [choices, List.map_cons, ih, List.flatMap_map, List.map_flatMap, List.map_map]
    rfl

end Choices
