import Mathlib.Algebra.BigOperators.Ring.List
import Mathlib.Algebra.GroupWithZero.Nat
import Mathlib.Data.List.Induction

/-!
# Machines

A machine is a partial step function: it takes a state and an event to the next state, or to nothing
if the event cannot happen there. `run` takes a list of events one after the other, and `outputs` is
what the events of a run give in the states that they happen in. Where a machine is made of parts,
each event is for one of them; `part` keeps the events of a part, and a run of the machine is a run
of the part on these (`run_part`), whatever the other parts do in between.
-/

namespace Machine

variable {σ ε : Type}

/-- The state after a list of events. -/
def run (step : σ → ε → Option σ) : σ → List ε → Option σ
  | s, [] => some s
  | s, e :: es => (step s e).bind (run step · es)

section
variable {step : σ → ε → Option σ} {s s' : σ} {e : ε} {es es' : List ε}

/-- A run taken apart at its first event. -/
theorem run_cons_iff : run step s (e :: es) = some s' ↔
    ∃ m, step s e = some m ∧ run step m es = some s' :=
  Option.bind_eq_some_iff

/-- A run taken apart between two lists of events. -/
theorem run_append_iff : run step s (es ++ es') = some s' ↔
    ∃ m, run step s es = some m ∧ run step m es' = some s' := by
  induction es generalizing s with
  | nil => exact ⟨fun h => ⟨s, rfl, h⟩, fun ⟨_, h, h'⟩ => Option.some.inj h ▸ h'⟩
  | cons e es ih =>
    simp only [List.cons_append, run_cons_iff, ih]
    constructor
    · rintro ⟨a, ha, m, hm, h⟩
      exact ⟨m, ⟨a, ha, hm⟩, h⟩
    · rintro ⟨m, ⟨a, ha, hm⟩, h⟩
      exact ⟨a, ha, m, hm, h⟩

/-- What every step on the events of a run keeps holds after the run. -/
theorem run_inv {P : σ → Prop} (hstep : ∀ s e s', P s → e ∈ es → step s e = some s' → P s')
    (hs : P s) (h : run step s es = some s') : P s' := by
  induction es generalizing s with
  | nil => exact Option.some.inj h ▸ hs
  | cons e es ih =>
    obtain ⟨m, hm, h⟩ := run_cons_iff.1 h
    exact ih (fun s x s' hs hx => hstep s x s' hs (.tail _ hx)) (hstep s e m hs (.head _) hm) h

/-- What holds of the events so far and the state after them, if every step keeps it. -/
theorem run_history {P : List ε → σ → Prop}
    (hstep : ∀ es s₁ e s₂, run step s es = some s₁ → P es s₁ → step s₁ e = some s₂ →
      P (es ++ [e]) s₂)
    (hs : P [] s) (h : run step s es = some s') : P es s' := by
  induction es using List.reverseRecOn generalizing s' with
  | nil => exact Option.some.inj h ▸ hs
  | append_singleton es e ih =>
    obtain ⟨m, hm, h⟩ := run_append_iff.1 h
    obtain ⟨m', hm', h⟩ := run_cons_iff.1 h
    cases h
    exact hstep es m e _ hm (ih hm) hm'

/-- A quantity that every event adds to has the sum of what the events add. -/
theorem run_sum (μ : σ → Nat) (gain : ε → Nat)
    (hstep : ∀ s e s', step s e = some s' → μ s' = μ s + gain e)
    (h : run step s es = some s') : μ s' = μ s + (es.map gain).sum := by
  induction es generalizing s with
  | nil => exact congrArg μ (Option.some.inj h).symm
  | cons e es ih =>
    obtain ⟨m, hm, h⟩ := run_cons_iff.1 h
    rw [ih h, hstep s e m hm, List.map_cons, List.sum_cons, Nat.add_assoc]

/-- If no event uses more than it takes from a stock and what it is allowed besides, all of them use
no more than is taken from the stock and what they are allowed. -/
theorem run_le {P : σ → Prop} (μ : σ → Nat) (used allowed : ε → Nat)
    (hstep : ∀ s e s', P s → e ∈ es → step s e = some s' →
      P s' ∧ used e + μ s' ≤ μ s + allowed e)
    (hs : P s) (h : run step s es = some s') :
    (es.map used).sum + μ s' ≤ μ s + (es.map allowed).sum := by
  induction es generalizing s with
  | nil =>
    cases h
    exact Nat.le_of_eq (Nat.add_comm 0 _)
  | cons e es ih =>
    obtain ⟨m, hm, h⟩ := run_cons_iff.1 h
    obtain ⟨hP, hle⟩ := hstep s e m hs (.head _) hm
    have hrest := ih (fun s x s' hs hx => hstep s x s' hs (.tail _ hx)) hP h
    simp only [List.map_cons, List.sum_cons]
    omega

end

/-! ## Outputs -/

section
variable {β : Type} {step : σ → ε → Option σ} {out : σ → ε → List β}

/-- What the events of a run give, one after the other. -/
def outputs (step : σ → ε → Option σ) (out : σ → ε → List β) : σ → List ε → List β
  | _, [] => []
  | s, e :: es => out s e ++ (step s e).elim [] (outputs step out · es)

/-- What holds of the outputs so far and the state after them, if every step keeps it. -/
theorem run_outputs (out : σ → ε → List β) (os : List β) {P : List β → σ → Prop} {s s' : σ}
    {es : List ε} (hstep : ∀ os s e s', P os s → step s e = some s' → P (os ++ out s e) s')
    (hs : P os s) (h : run step s es = some s') : P (os ++ outputs step out s es) s' := by
  induction es generalizing s os with
  | nil =>
    cases h
    exact (List.append_nil os).symm ▸ hs
  | cons e es ih =>
    obtain ⟨m, hm, h⟩ := run_cons_iff.1 h
    have hrest := ih (os ++ out s e) (hstep os s e m hs hm) h
    rw [outputs, hm, ← List.append_assoc]
    exact hrest

/-- How much a run gives, if that depends on its events alone. -/
theorem length_outputs (given : ε → Nat) {s s' : σ} {es : List ε}
    (hstep : ∀ s e s', step s e = some s' → (out s e).length = given e)
    (h : run step s es = some s') : (outputs step out s es).length = (es.map given).sum := by
  induction es generalizing s with
  | nil => rfl
  | cons e es ih =>
    obtain ⟨m, hm, h⟩ := run_cons_iff.1 h
    have hrest := ih h
    rw [outputs, hm, List.length_append, hstep s e m hm, List.map_cons, List.sum_cons, ← hrest]
    rfl

end

/-! ## Machines made of parts -/

section
variable {ι τ : Type} [DecidableEq ι]

/-- The events of one part. -/
def part (i : ι) (es : List (ι × ε)) : List ε := (es.filter (·.1 = i)).map (·.2)

theorem part_cons (i j : ι) (e : ε) (es : List (ι × ε)) :
    part i ((j, e) :: es) = if j = i then e :: part i es else part i es := by
  by_cases h : j = i <;> simp [part, h]

theorem mem_part {i : ι} {e : ε} {es : List (ι × ε)} : e ∈ part i es ↔ (i, e) ∈ es := by
  simp [part]

variable {step : σ → ι × ε → Option σ} {s s' : σ} {es : List (ι × ε)}

/-- A run of the machine is a run of each part on its own events. -/
theorem run_part (get : σ → ι → τ) (partStep : τ → ε → Option τ)
    (hown : ∀ s i e s', step s (i, e) = some s' → partStep (get s i) e = some (get s' i))
    (hother : ∀ s i e s' j, step s (i, e) = some s' → i ≠ j → get s' j = get s j)
    (h : run step s es = some s') (j : ι) :
    run partStep (get s j) (part j es) = some (get s' j) := by
  induction es generalizing s with
  | nil => exact congrArg (fun s => some (get s j)) (Option.some.inj h)
  | cons e es ih =>
    obtain ⟨i, e⟩ := e
    obtain ⟨m, hm, h⟩ := run_cons_iff.1 h
    rw [part_cons]
    split
    · next hij =>
      subst hij
      exact run_cons_iff.2 ⟨get m i, hown s i e m hm, ih h⟩
    · next hij =>
      rw [← hother s i e m j hm hij]
      exact ih h

end

end Machine
