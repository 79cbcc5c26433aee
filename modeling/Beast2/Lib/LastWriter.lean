import Mathlib.Data.List.Nodup

/-!
# Last-writer-wins lists

A list holds at most one entry for a key. A write takes out the entries of its key and appends
itself, unless it is a deletion (`live` is false). The list after a sequence of writes is the writes
that no later write of their key follows, without the deletions and in the order in which they were
made (`foldl_put`), so the entry for a key is that of the last write with it
(`filter_survivors`).
-/

namespace LastWriter

variable {α κ : Type} [DecidableEq κ] (key : α → κ) (live : α → Bool)

/-- One write. -/
def put (store : List α) (x : α) : List α :=
  store.filter (fun o => key o ≠ key x) ++ if live x then [x] else []

/-- The writes that no later one of their key follows, without the deletions. -/
def survivors : List α → List α
  | [] => []
  | x :: xs => if live x ∧ ∀ y ∈ xs, key y ≠ key x then x :: survivors xs else survivors xs

/-- A sequence of writes leaves those entries of the list whose keys are not written, and the
survivors among the writes. -/
theorem foldl_put (xs store : List α) :
    xs.foldl (put key live) store =
      store.filter (fun o => ∀ y ∈ xs, key y ≠ key o) ++ survivors key live xs := by
  induction xs generalizing store with
  | nil => simp [survivors]
  | cons x xs ih =>
    have hstore : (store.filter fun o => key o ≠ key x).filter
        (fun o => ∀ y ∈ xs, key y ≠ key o) =
        store.filter fun o => ∀ y ∈ x :: xs, key y ≠ key o := by
      rw [List.filter_filter]
      refine List.filter_congr fun o _ => ?_
      simp [Bool.and_comm, @eq_comm _ (key x)]
    rw [List.foldl_cons, ih, put, List.filter_append, hstore, List.append_assoc]
    congr 1
    cases hx : live x with
    | false => simp [survivors, hx]
    | true =>
      by_cases hlater : ∀ y ∈ xs, key y ≠ key x
      · rw [survivors, if_pos rfl, if_pos ⟨hx, hlater⟩, List.filter_cons_of_pos (by simpa)]
        rfl
      · rw [survivors, if_pos rfl, if_neg fun h => hlater h.2,
          List.filter_cons_of_neg (by simpa using hlater)]
        rfl

/-- The entry for a key is that of the last write with it, if that is no deletion. -/
theorem filter_survivors (k : κ) (xs : List α) :
    (survivors key live xs).filter (fun o => key o = k) =
      match (xs.filter fun o => key o = k).getLast? with
      | some x => if live x then [x] else []
      | none => [] := by
  induction xs with
  | nil => rfl
  | cons x xs ih =>
    rcases ne_or_eq (key x) k with hx | rfl
    · have hsurvivors : (survivors key live (x :: xs)).filter (fun o => key o = k) =
          (survivors key live xs).filter fun o => key o = k := by
        rw [survivors]
        split
        · simp [hx]
        · rfl
      rw [hsurvivors, ih]
      simp [hx]
    · by_cases hlater : ∀ y ∈ xs, key y ≠ key x
      · -- no later write has the key, so nothing of it is left among the others
        have hnone : xs.filter (fun o => key o = key x) = [] := by
          simpa [List.filter_eq_nil_iff] using hlater
        rw [hnone, List.getLast?_nil] at ih
        cases hlive : live x with
        | false => simp [survivors, hlive, hnone, ih]
        | true =>
          rw [survivors, if_pos ⟨hlive, hlater⟩]
          simp [hnone, hlive, ih]
      · obtain ⟨y, hy, hkey⟩ : ∃ y ∈ xs, key y = key x := by simpa using hlater
        have hne : xs.filter (fun o => key o = key x) ≠ [] :=
          List.ne_nil_of_mem (List.mem_filter.2 ⟨hy, by simpa using hkey⟩)
        rw [survivors, if_neg fun h => hlater h.2, ih, List.filter_cons_of_pos (by simp),
          List.getLast?_cons, List.getLast?_eq_some_getLast hne, Option.getD_some]

/-- A write leaves the entries of other keys. -/
theorem filter_put {x : α} {k : κ} (hk : k ≠ key x) (store : List α) :
    (put key live store x).filter (fun o => key o = k) = store.filter fun o => key o = k := by
  have hx : (if live x then [x] else []).filter (fun o => key o = k) = [] := by
    split
    · simp [hk.symm]
    · rfl
  rw [put, List.filter_append, hx, List.append_nil, List.filter_filter]
  refine List.filter_congr fun o _ => ?_
  by_cases ho : key o = k
  · simp [ho, hk]
  · simp [ho]

/-- A write keeps the keys of a list distinct. -/
theorem nodup_put {store : List α} (h : (store.map key).Nodup) (x : α) :
    ((put key live store x).map key).Nodup := by
  rw [put, List.map_append]
  refine List.Nodup.append ((List.filter_sublist.map key).nodup h) ?_ ?_
  · split <;> simp
  · intro k hk hx
    obtain ⟨o, ho, rfl⟩ := List.mem_map.1 hk
    have hne : key o ≠ key x := by simpa using (List.mem_filter.1 ho).2
    split at hx
    · exact hne (by simpa using hx)
    · cases hx

/-- Writes of other values with the same keys. -/
theorem map_put {β : Type} {f : α → β} {key' : β → κ} {live' : β → Bool}
    (hkey : ∀ o, key' (f o) = key o) (store : List α) {x : α} (hlive : live' (f x) = live x) :
    (put key live store x).map f = put key' live' (store.map f) (f x) := by
  simp only [put, List.map_append, List.filter_map, hlive]
  congr 1
  · congr 1
    refine List.filter_congr fun o _ => ?_
    simp [hkey]
  · split <;> rfl

end LastWriter
