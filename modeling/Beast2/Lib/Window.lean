import Mathlib.Algebra.BigOperators.Fin
import Mathlib.Algebra.Order.BigOperators.Group.Finset
import Mathlib.Tactic.Ring

/-!
# Windows that move on

A window has slots that hold amounts. It moves on by some slots: the amounts of these are dropped,
the others move down and empty slots come in at the end. A ledger has an entry for every amount that
was put into the window, with the time when it was put in and the slot where it is, or the time when
it was dropped.

If a window and a ledger move on together, every slot holds the entries that are in it
(`held_shift`), and a window that moves on by no more slots than time has passed drops nothing early
(`Aged.shift`).
-/

namespace Window

variable {n : Nat} {M T : Type}

/-- A window that moves on by `k` slots. -/
def shift [Zero M] (k : Nat) (w : Fin n → M) (i : Fin n) : M :=
  if h : i + k < n then w ⟨i + k, h⟩ else 0

/-- Where an amount is: in a slot, or dropped at some time. -/
inductive Place (n : Nat) (T : Type) where
  | slot (i : Fin n)
  | out (time : T)
deriving DecidableEq, Repr

/-- Where an amount is after the window has moved on. -/
def Place.shift (k : Nat) (now : T) : Place n T → Place n T
  | slot i => if k ≤ i then slot ⟨i - k, by omega⟩ else out now
  | out t => out t

/-- An amount that was put into the window at some time, and where it is. -/
structure Entry (n : Nat) (M T : Type) where
  amount : M
  time : T
  place : Place n T
deriving DecidableEq, Repr

def Entry.shift (k : Nat) (now : T) (e : Entry n M T) : Entry n M T :=
  { e with place := e.place.shift k now }

/-- A window that does not move on. -/
theorem Entry.shift_zero (now : T) (e : Entry n M T) : e.shift 0 now = e := by
  obtain ⟨amount, time, place⟩ := e
  cases place with
  | slot i => rfl
  | out t => rfl

/-! ## What the slots hold -/

section
variable [AddCommMonoid M]

/-- What an entry adds to a slot. -/
def Entry.adds (e : Entry n M T) (i : Fin n) : M :=
  match e.place with
  | .slot j => if j = i then e.amount else 0
  | .out _ => 0

/-- What the entries of a ledger add to a slot. -/
def held (l : List (Entry n M T)) (i : Fin n) : M := (l.map (·.adds i)).sum

/-- A slot that moves down, or out. -/
theorem Place.shift_slot (k : Nat) (now : T) (j : Fin n) :
    (∃ h : k ≤ j, (slot j : Place n T).shift k now = slot ⟨j - k, by omega⟩) ∨
      (j : Nat) < k ∧ (slot j : Place n T).shift k now = out now := by
  rcases Nat.lt_or_ge j k with h | h
  · exact .inr ⟨h, if_neg (Nat.not_le.2 h)⟩
  · exact .inl ⟨h, if_pos h⟩

/-- An entry adds to a slot what it added to the one that has moved there. -/
theorem Entry.adds_shift (k : Nat) (now : T) (e : Entry n M T) :
    (e.shift k now).adds = Window.shift k e.adds := by
  funext i
  obtain ⟨amount, time, place⟩ := e
  cases place with
  | out t =>
    simp only [Window.shift, Entry.shift, Place.shift, Entry.adds]
    split
    · rfl
    · rfl
  | slot j =>
    have hmoved : (Window.shift k (Entry.adds ⟨amount, time, (.slot j : Place n T)⟩) i) =
        if (j : Nat) = i + k then amount else 0 := by
      simp only [Window.shift, Entry.adds, Fin.ext_iff]
      split
      · rfl
      · next h => exact (if_neg fun hj => h (hj.symm.trans_lt j.isLt)).symm
    rw [hmoved]
    rcases Place.shift_slot k now j with ⟨hk, heq⟩ | ⟨hk, heq⟩
    · simp only [Entry.shift, heq, Entry.adds, Fin.ext_iff]
      exact if_congr (by omega) rfl rfl
    · simp only [Entry.shift, heq, Entry.adds]
      exact (if_neg (by omega)).symm

theorem shift_add (k : Nat) (w w' : Fin n → M) : shift k (w + w') = shift k w + shift k w' := by
  funext i
  simp only [shift, Pi.add_apply]
  split
  · rfl
  · exact (add_zero 0).symm

/-- A window and its ledger move on together. -/
theorem held_shift (k : Nat) (now : T) (l : List (Entry n M T)) :
    held (l.map (Entry.shift k now)) = shift k (held l) := by
  induction l with
  | nil =>
    funext i
    simp [held, shift]
  | cons e l ih =>
    have hcons : ∀ (e : Entry n M T) (l : List (Entry n M T)), held (e :: l) = e.adds + held l :=
      fun _ _ => rfl
    rw [List.map_cons, hcons, hcons, ih, Entry.adds_shift, shift_add]

/-- An amount that is put into a slot. -/
theorem held_append (l : List (Entry n M T)) (amount : M) (time : T) (j i : Fin n) :
    held (l ++ [⟨amount, time, .slot j⟩]) i = held l i + if j = i then amount else 0 := by
  simp [held, Entry.adds]

variable [PartialOrder M] [CanonicallyOrderedAdd M] [IsOrderedAddMonoid M]

/-- The slots hold no more than was put in. -/
theorem sum_held_le (l : List (Entry n M T)) : ∑ i, held l i ≤ (l.map Entry.amount).sum := by
  induction l with
  | nil => simp [held]
  | cons e l ih =>
    have hadds : ∑ i, e.adds i ≤ e.amount := by
      obtain ⟨amount, time, place⟩ := e
      cases place with
      | slot j => simp [Entry.adds]
      | out t => simp [Entry.adds]
    calc ∑ i, held (e :: l) i = ∑ i, e.adds i + ∑ i, held l i := Finset.sum_add_distrib
      _ ≤ e.amount + (l.map Entry.amount).sum := add_le_add hadds ih

end

/-! ## Time -/

section
variable {width last now : Int} {l : List (Entry n M Int)}

/-- In a window whose slots are `width` long and which has last moved on at `last`: what is in a
slot was put in so many slots ago, but for one, and nothing was dropped earlier than that. -/
def Aged (width last : Int) (l : List (Entry n M Int)) : Prop :=
  ∀ e ∈ l, (∀ i : Fin n, e.place = .slot i → e.time + width * (n - 1 - i) < last + width) ∧
    ∀ t, e.place = .out t → e.time + width * (n - 1) < t

/-- A window that moves on by no more slots than time has passed. -/
theorem Aged.shift {k : Nat} (h : Aged width last l) (hwidth : 0 ≤ width)
    (hk : last + width * k ≤ now) : Aged width now (l.map (Entry.shift k now)) := by
  intro e' he'
  obtain ⟨e, he, rfl⟩ := List.mem_map.1 he'
  obtain ⟨hslot, hout⟩ := h e he
  obtain ⟨amount, time, place⟩ := e
  cases place with
  | out t =>
    refine ⟨?_, ?_⟩
    · intro i heq
      cases heq
    · intro _ heq
      cases heq
      exact hout t rfl
  | slot j =>
    have hj := hslot j rfl
    dsimp only at hj
    rcases Place.shift_slot k now j with ⟨hle, heq⟩ | ⟨hlt, heq⟩
    · refine ⟨fun i hi => ?_, fun t ht => ?_⟩
      · obtain rfl : ⟨j - k, by omega⟩ = i := Place.slot.inj (heq.symm.trans hi)
        have hcast : ((j - k : Nat) : Int) = j - k := by omega
        calc time + width * (n - 1 - (j - k : Nat))
            = time + width * (n - 1 - j) + width * k := by rw [hcast]; ring
          _ < last + width + width * k := by omega
          _ ≤ now + width := by omega
      · cases heq.symm.trans ht
    · refine ⟨fun i hi => ?_, fun t ht => ?_⟩
      · cases heq.symm.trans hi
      · obtain rfl : now = t := Place.out.inj (heq.symm.trans ht)
        -- it was in slot `j`, so the window moved on by more than `j` slots
        have hpast : width * (j + 1) ≤ width * k :=
          Int.mul_le_mul_of_nonneg_left (by omega) hwidth
        calc time + width * (n - 1)
            = time + width * (n - 1 - j) + width * (j + 1) - width := by ring
          _ < last + width + width * k - width := by omega
          _ ≤ now := by omega

end

end Window
