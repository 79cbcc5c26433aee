import Mathlib.Logic.Relation

/-!
# Calls under a mutex

Threads make calls whose bodies hold one mutex from their first step to their last. A body is a
sequence of actions on the shared state (`Body`), and the actions of all threads interleave in any
way the mutex allows (`Step`). In every state that is reached, the calls that have returned are
those of a serial run in the order in which they got the mutex, and while the mutex is free the
shared state is the one this run ends in (`serial_of_reachable`). What the actions only add to is
also there in the middle of a call (`Body.Grows`).
-/

namespace Mutex

variable {σ ρ κ τ : Type}

/-- The body of a call: actions on the shared state, each of which decides what comes next from the
state it finds. -/
inductive Body (σ ρ : Type) where
  | done (result : ρ)
  | act (update : σ → σ) (next : σ → Body σ ρ)

/-- A body that is not interrupted: the state it leaves and what it returns. -/
def Body.run : Body σ ρ → σ → σ × ρ
  | done r, s => (s, r)
  | act update next, s => (next s).run (update s)

/-- The shared state, the call that holds the mutex with what is left of its body, and the calls
that have returned. -/
structure System (τ κ σ ρ : Type) where
  shared : σ
  owner : Option (τ × κ × Body σ ρ)
  log : List (τ × κ × ρ)

/-- A thread gets the mutex, acts, or gives the mutex back and returns. -/
inductive Step (body : κ → Body σ ρ) : System τ κ σ ρ → System τ κ σ ρ → Prop
  | lock (s : σ) (log : List (τ × κ × ρ)) (t : τ) (c : κ) :
      Step body ⟨s, none, log⟩ ⟨s, some (t, c, body c), log⟩
  | act (s : σ) (log : List (τ × κ × ρ)) (t : τ) (c : κ) (update : σ → σ)
      (next : σ → Body σ ρ) :
      Step body ⟨s, some (t, c, .act update next), log⟩ ⟨update s, some (t, c, next s), log⟩
  | unlock (s : σ) (log : List (τ × κ × ρ)) (t : τ) (c : κ) (r : ρ) :
      Step body ⟨s, some (t, c, .done r), log⟩ ⟨s, none, log ++ [(t, c, r)]⟩

/-- The states that any threads can reach. -/
def Reachable (body : κ → Body σ ρ) (s₀ : σ) : System τ κ σ ρ → Prop :=
  Relation.ReflTransGen (Step body) ⟨s₀, none, []⟩

/-- Calls made one after the other, with what they return, and the state they end in. -/
inductive Serial (body : κ → Body σ ρ) (s₀ : σ) : List (τ × κ × ρ) → σ → Prop
  | nil : Serial body s₀ [] s₀
  | snoc {log : List (τ × κ × ρ)} {s : σ} (calls : Serial body s₀ log s) (t : τ) (c : κ) :
      Serial body s₀ (log ++ [(t, c, ((body c).run s).2)]) ((body c).run s).1

/-- A state of the interleaving beside the state of the serial run: they are the same while the
mutex is free, and otherwise the call that holds it will make them so. -/
def Matches (body : κ → Body σ ρ) (S : System τ κ σ ρ) (s : σ) : Prop :=
  match S.owner with
  | none => S.shared = s
  | some (_, c, b) => b.run S.shared = (body c).run s

/-- Every action of a body takes a state to one that is related to it. -/
inductive Body.Grows (R : σ → σ → Prop) : Body σ ρ → Prop
  | done (r : ρ) : Grows R (.done r)
  | act {update : σ → σ} {next : σ → Body σ ρ} (update_le : ∀ s, R s (update s))
      (next_grows : ∀ s, Grows R (next s)) : Grows R (.act update next)

section

variable {body : κ → Body σ ρ} {s₀ : σ} {S : System τ κ σ ρ} {R : σ → σ → Prop}

/-- Every interleaving is a serial run of the calls that have returned, and what a call in the
middle of its body has done is related to where the run ends. -/
theorem serial_of_reachable (hrefl : ∀ s, R s s) (htrans : ∀ s s' s'', R s s' → R s' s'' → R s s'')
    (hgrows : ∀ c, (body c).Grows R) (h : Reachable body s₀ S) :
    ∃ s, Serial body s₀ S.log s ∧ Matches body S s ∧ R s S.shared ∧
      ∀ o ∈ S.owner, Body.Grows R o.2.2 := by
  induction h with
  | refl => exact ⟨s₀, .nil, rfl, hrefl s₀, fun o ho => by cases ho⟩
  | tail _ hstep ih =>
    obtain ⟨s, hserial, hmatches, hle, howner⟩ := ih
    cases hstep with
    | lock s' log t c =>
      refine ⟨s, hserial, ?_, hle, ?_⟩
      · show (body c).run s' = (body c).run s
        rw [show s' = s from hmatches]
      · intro o heq
        cases heq
        exact hgrows c
    | act s' log t c update next =>
      cases howner _ rfl with
      | act update_le next_grows =>
        refine ⟨s, hserial, hmatches, htrans s s' _ hle (update_le s'), ?_⟩
        intro o heq
        cases heq
        exact next_grows s'
    | unlock s' log t c r =>
      -- the body has run to its end, so its state and its result are those of the serial call
      have hdone : (s', r) = (body c).run s := hmatches
      have hsnoc := hserial.snoc t c
      rw [← hdone] at hsnoc
      exact ⟨s', hsnoc, rfl, hrefl s', fun o ho => by cases ho⟩

/-- What is left of a body runs to its end and returns. -/
theorem reachable_done {s : σ} {log : List (τ × κ × ρ)} {t : τ} {c : κ} {b : Body σ ρ}
    (h : Reachable body s₀ ⟨s, some (t, c, b), log⟩) :
    Reachable body s₀ ⟨(b.run s).1, none, log ++ [(t, c, (b.run s).2)]⟩ := by
  induction b generalizing s with
  | done r => exact h.tail (.unlock s log t c r)
  | act update next ih => exact ih s (h.tail (.act s log t c update next))

/-- Every serial run is an interleaving. -/
theorem reachable_of_serial {s : σ} {log : List (τ × κ × ρ)} (h : Serial body s₀ log s) :
    Reachable body s₀ ⟨s, none, log⟩ := by
  induction h with
  | nil => exact .refl
  | @snoc log s _ t c ih => exact reachable_done (ih.tail (.lock s log t c))

end

end Mutex
