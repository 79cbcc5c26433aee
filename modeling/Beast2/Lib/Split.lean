import Mathlib.Data.List.DropRight

/-!
# Lists split at a separator

A list splits at the occurrences of a separator into the pieces between them, and joining the pieces
with the separator gives the list back. Cut at the last occurrence of the separator, a list is what
stands before it and a piece without a separator.
-/

namespace Split

variable {α : Type}

/-- A joined text is its first piece and the others behind their separators. -/
theorem intercalate_cons (x : α) (l : List α) (ls : List (List α)) :
    [x].intercalate (l :: ls) = l ++ ls.flatMap (x :: ·) := by
  induction ls generalizing l with
  | nil => simp
  | cons l' ls ih =>
    rw [List.intercalate_cons_cons, ih, List.flatMap_cons]
    simp

/-- A list cut at the last occurrence of an element. -/
theorem exists_last_of_mem {x : α} {l : List α} (h : x ∈ l) : ∃ a b, l = a ++ x :: b ∧ x ∉ b := by
  obtain ⟨b, a, hl, hb⟩ := List.eq_append_cons_of_mem (List.mem_reverse.2 h)
  refine ⟨a.reverse, b.reverse, ?_, mt List.mem_reverse.1 hb⟩
  rw [← l.reverse_reverse, hl]
  simp

/-- What may follow a piece: nothing, or a separator. -/
theorem append_inj_of_not_mem {x : α} {l m u v : List α} (hl : x ∉ l) (hm : x ∉ m)
    (hu : ∀ c ∈ u.head?, c = x) (hv : ∀ c ∈ v.head?, c = x) (h : l ++ u = m ++ v) :
    l = m ∧ u = v := by
  induction l generalizing m with
  | nil =>
    cases m with
    | nil => exact ⟨rfl, h⟩
    | cons y m =>
      have hy : y = x := hu y (by rw [show u = y :: m ++ v from h]; rfl)
      exact absurd (hy ▸ List.mem_cons_self) hm
  | cons y l ih =>
    cases m with
    | nil =>
      have hy : y = x := hv y (by rw [show v = y :: l ++ u from h.symm]; rfl)
      exact absurd (hy ▸ List.mem_cons_self) hl
    | cons z m =>
      obtain ⟨rfl, htail⟩ := List.cons.inj h
      obtain ⟨rfl, huv⟩ := ih (fun h => hl (.tail _ h)) (fun h => hm (.tail _ h)) htail
      exact ⟨rfl, huv⟩

/-- What may follow joined pieces for them to be told apart from it: nothing, or two separators. -/
def Ends (x : α) (u : List α) : Prop := u = [] ∨ ∃ v, u = x :: x :: v

theorem Ends.head {x : α} {u : List α} (h : Ends x u) : ∀ c ∈ u.head?, c = x := by
  rcases h with rfl | ⟨v, rfl⟩
  · intro c heq
    cases heq
  · intro c heq
    cases heq
    rfl

/-- Pieces behind their separators have a separator in front. -/
theorem Ends.head_flatMap {x : α} {u : List α} (h : Ends x u) (ls : List (List α)) :
    ∀ c ∈ (ls.flatMap (x :: ·) ++ u).head?, c = x := by
  cases ls with
  | nil => exact h.head
  | cons l ls =>
    intro c heq
    cases heq
    rfl

/-- No piece starts where the text ends. -/
theorem Ends.ne_flatMap {x : α} {u s l : List α} {ls : List (List α)} (h : Ends x u)
    (hl : l ≠ [] ∧ x ∉ l) : u ≠ (l :: ls).flatMap (x :: ·) ++ s := by
  obtain ⟨c, l, rfl⟩ := List.exists_cons_of_ne_nil hl.1
  rcases h with rfl | ⟨v, rfl⟩
  · exact (List.cons_ne_nil _ _).symm
  · intro heq
    exact hl.2 ((List.cons.inj (List.cons.inj heq).2).1 ▸ List.mem_cons_self)

/-- Pieces that are not empty and have no separator are read off a text with a separator in front of
each. -/
theorem flatMap_append_inj {x : α} {ls ms : List (List α)} {u v : List α}
    (hls : ∀ l ∈ ls, l ≠ [] ∧ x ∉ l) (hms : ∀ m ∈ ms, m ≠ [] ∧ x ∉ m) (hu : Ends x u)
    (hv : Ends x v) (h : ls.flatMap (x :: ·) ++ u = ms.flatMap (x :: ·) ++ v) :
    ls = ms ∧ u = v := by
  induction ls generalizing ms with
  | nil =>
    cases ms with
    | nil => exact ⟨rfl, h⟩
    | cons m ms => exact absurd h (hu.ne_flatMap (hms m List.mem_cons_self))
  | cons l ls ih =>
    obtain ⟨hl, hls⟩ := List.forall_mem_cons.1 hls
    cases ms with
    | nil => exact absurd h.symm (hv.ne_flatMap hl)
    | cons m ms =>
      obtain ⟨hm, hms'⟩ := List.forall_mem_cons.1 hms
      rw [List.flatMap_cons, List.flatMap_cons, List.append_assoc, List.append_assoc] at h
      obtain ⟨rfl, htail⟩ := append_inj_of_not_mem hl.2 hm.2 (hu.head_flatMap ls)
        (hv.head_flatMap ms) (List.cons.inj h).2
      obtain ⟨rfl, huv⟩ := ih hls hms' htail
      exact ⟨rfl, huv⟩

/-- And off a text with a separator between each two. -/
theorem intercalate_append_inj {x : α} {ls ms : List (List α)} {u v : List α}
    (hls : ∀ l ∈ ls, l ≠ [] ∧ x ∉ l) (hms : ∀ m ∈ ms, m ≠ [] ∧ x ∉ m) (hu : Ends x u)
    (hv : Ends x v) (h : [x].intercalate ls ++ u = [x].intercalate ms ++ v) : ls = ms ∧ u = v := by
  have hstart : ∀ {l w s : List α} {ks : List (List α)}, Ends x w → l ≠ [] ∧ x ∉ l →
      w ≠ [x].intercalate (l :: ks) ++ s := by
    intro l w s ks hw hl heq
    obtain ⟨c, l, rfl⟩ := List.exists_cons_of_ne_nil hl.1
    rw [intercalate_cons] at heq
    have hc : c = x := hw.head c (by rw [heq]; rfl)
    exact hl.2 (hc ▸ List.mem_cons_self)
  cases ls with
  | nil =>
    cases ms with
    | nil => exact ⟨rfl, h⟩
    | cons m ms => exact absurd h (hstart hu (hms m List.mem_cons_self))
  | cons l ls =>
    obtain ⟨hl, hls⟩ := List.forall_mem_cons.1 hls
    cases ms with
    | nil => exact absurd h.symm (hstart hv hl)
    | cons m ms =>
      obtain ⟨hm, hms'⟩ := List.forall_mem_cons.1 hms
      rw [intercalate_cons, intercalate_cons, List.append_assoc, List.append_assoc] at h
      obtain ⟨rfl, htail⟩ :=
        append_inj_of_not_mem hl.2 hm.2 (hu.head_flatMap ls) (hv.head_flatMap ms) h
      obtain ⟨rfl, huv⟩ := flatMap_append_inj hls hms' hu hv htail
      exact ⟨rfl, huv⟩

section

variable [BEq α] [LawfulBEq α]

/-- A split makes one more piece than there are separators. -/
theorem length_splitOn (x : α) (l : List α) : (l.splitOn x).length = l.count x + 1 := by
  induction l with
  | nil => rfl
  | cons y l ih =>
    rw [List.splitOn_cons_eq_if_modifyHead]
    by_cases hy : y = x
    · rw [if_pos (beq_iff_eq.2 hy), List.length_cons, ih, hy, List.count_cons_self]
    · rw [if_neg (mt beq_iff_eq.1 hy), List.length_modifyHead, ih, List.count_cons_of_ne hy]

/-- The separators of a joined text are those between the pieces and those in them. -/
theorem count_intercalate (x : α) {ls : List (List α)} (hls : ls ≠ []) :
    ([x].intercalate ls).count x + 1 = ls.length + ls.flatten.count x := by
  induction ls with
  | nil => exact absurd rfl hls
  | cons l ls ih =>
    cases ls with
    | nil =>
      rw [List.intercalate_singleton, List.length_singleton, List.flatten_singleton, Nat.add_comm]
    | cons l' ls =>
      have ih' := ih (List.cons_ne_nil l' ls)
      rw [List.intercalate_cons_cons, List.count_append, List.count_append, List.length_cons,
        List.flatten_cons, List.count_append, List.count_singleton_self]
      omega

/-- Joined pieces come apart into as many if none of them has the separator. -/
theorem not_mem_of_length_splitOn {x : α} {ls : List (List α)} (hls : ls ≠ [])
    (h : (([x].intercalate ls).splitOn x).length = ls.length) :
    ∀ l ∈ ls, x ∉ l := by
  have hcount := count_intercalate x hls
  rw [← length_splitOn, h] at hcount
  have hnone : x ∉ ls.flatten := List.count_eq_zero.1 (by omega)
  intro l hl hx
  exact hnone (List.mem_flatten_of_mem hl hx)

/-- The pieces of a list, each behind a separator, are the list behind one. -/
theorem flatMap_splitOn (x : α) (l : List α) : (l.splitOn x).flatMap (x :: ·) = x :: l := by
  obtain ⟨p, ps, hps⟩ := List.exists_cons_of_ne_nil (List.splitOn_ne_nil x l)
  have hjoin := @List.intercalate_splitOn _ l _ _ x
  rw [hps, intercalate_cons] at hjoin
  rw [hps, List.flatMap_cons, List.cons_append, hjoin]

/-- What is left of a list without the elements behind the last occurrence. -/
theorem rdropWhile_append_cons {x : α} (a : List α) {b : List α} (hb : x ∉ b) :
    (a ++ x :: b).rdropWhile (· != x) = a ++ [x] := by
  have hne : ∀ y ∈ b.reverse, (y != x) = true := by
    intro y hy
    rw [bne_iff_ne]
    rintro rfl
    exact hb (List.mem_reverse.1 hy)
  rw [List.rdropWhile, List.reverse_append, List.reverse_cons, List.append_assoc,
    List.dropWhile_append_of_pos hne]
  simp

end

end Split
