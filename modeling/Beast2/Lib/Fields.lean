import Mathlib.Data.List.Basic
import Mathlib.Data.List.Induction

/-!
# Containers of header fields

The interface of a container of named values whose names compare without case: the values under a
name, `set`, which leaves exactly one field of its name, and `erase`, which leaves none. Both leave
every other name alone. A list of pairs is such a container.
-/

namespace Fields

/-- A field name without the case of its letters. -/
def canon (name : List Char) : List Char := name.map Char.toLower

/-- A container of header fields. -/
class Container (F : Type) where
  empty : F
  findAll : F → List Char → List (List Char)
  set : F → List Char → List Char → F
  erase : F → List Char → F
  findAll_congr (f : F) {m n : List Char} (h : canon m = canon n) : findAll f m = findAll f n
  findAll_empty (n : List Char) : findAll empty n = []
  findAll_set (f : F) (m v n : List Char) :
    findAll (set f m v) n = if canon n = canon m then [v] else findAll f n
  findAll_erase (f : F) (m n : List Char) :
    findAll (erase f m) n = if canon n = canon m then [] else findAll f n

export Container (findAll)

attribute [simp] Container.findAll_empty

section
variable {F : Type} [Container F] {f : F} {m n v : List Char}

/-- A field of the name. -/
def Has (f : F) (n : List Char) : Prop := findAll f n ≠ []

theorem not_has_iff : ¬ Has f n ↔ findAll f n = [] := not_not

theorem findAll_set_ne (h : canon n ≠ canon m) :
    findAll (Container.set f m v) n = findAll f n := by
  rw [Container.findAll_set, if_neg h]

theorem findAll_erase_ne (h : canon n ≠ canon m) :
    findAll (Container.erase f m) n = findAll f n := by
  rw [Container.findAll_erase, if_neg h]

theorem findAll_set_self : findAll (Container.set f n v) n = [v] := by
  rw [Container.findAll_set, if_pos rfl]

theorem findAll_erase_self : findAll (Container.erase f n) n = [] := by
  rw [Container.findAll_erase, if_pos rfl]

/-- Of the fields of a name that are set one after the other, the last one stays. -/
theorem findAll_foldl_last (hs : List (List Char × List Char)) (f : F) (n : List Char) :
    findAll (hs.foldl (fun f h => Container.set f h.1 h.2) f) n =
      match ((hs.filter fun h => canon h.1 = canon n).map (·.2)).getLast? with
      | some v => [v]
      | none => findAll f n := by
  induction hs using List.reverseRecOn with
  | nil => rfl
  | append_singleton hs h ih =>
    rw [List.foldl_append, List.foldl_cons, List.foldl_nil, Container.findAll_set,
      List.filter_append, List.map_append]
    by_cases hn : canon n = canon h.1
    · simp [hn]
    · rw [if_neg hn, ih]
      simp [Ne.symm hn]

end

/-! ## Lists of pairs -/

/-- A container as the list of its fields. -/
abbrev FieldList := List (List Char × List Char)

/-- The fields of another name. -/
def FieldList.without (l : FieldList) (m : List Char) : FieldList :=
  l.filter fun q => canon q.1 ≠ canon m

/-- The values under a name. -/
def FieldList.values (l : FieldList) (n : List Char) : List (List Char) :=
  (l.filter fun q => canon q.1 = canon n).map (·.2)

theorem FieldList.values_without (l : FieldList) (m n : List Char) :
    (l.without m).values n = if canon n = canon m then [] else l.values n := by
  simp only [values, without, List.filter_filter]
  split
  · next h => simp [h]
  · next h =>
    congr 1
    apply List.filter_congr
    intro q _
    by_cases hq : canon q.1 = canon n
    · simp [hq, h]
    · simp [hq]

instance : Container FieldList where
  empty := []
  findAll := FieldList.values
  set l m v := l.without m ++ [(m, v)]
  erase := FieldList.without
  findAll_congr l m n h := by simp only [FieldList.values, h]
  findAll_empty _ := rfl
  findAll_erase := FieldList.values_without
  findAll_set l m v n := by
    have h := FieldList.values_without l m n
    simp only [FieldList.values, List.filter_append, List.map_append] at h ⊢
    rw [h]
    by_cases hn : canon n = canon m
    · simp [hn]
    · simp [hn, Ne.symm hn]

end Fields
