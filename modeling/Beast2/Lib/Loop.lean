import Mathlib.Logic.Relation

/-!
# Loops

A loop is its body: a function that takes the state at the loop's head and either goes round to the
next state or leaves the loop with a result (`Turn`). `Heads` relates a state to the states at the
head of the loop that a run from it reaches. A loop with a measure that every turn decreases always
ends, and `run` is its result; of any other, `runFuel` runs a bounded number of turns and `Exits`
says that it ends.
-/

namespace Loop

variable {σ ρ : Type}

/-- What one turn of a loop's body does. -/
inductive Turn (σ ρ : Type) where
  | next (s : σ)
  | exit (r : ρ)
deriving DecidableEq, Repr

/-- The body goes round from one state to the next. -/
def Goes (body : σ → Turn σ ρ) (s s' : σ) : Prop := body s = .next s'

/-- The states at the head of the loop that a run from `s` reaches, `s` among them. -/
abbrev Heads (body : σ → Turn σ ρ) : σ → σ → Prop := Relation.ReflTransGen (Goes body)

/-- The states at the head of the loop after the first turn. -/
abbrev LaterHeads (body : σ → Turn σ ρ) : σ → σ → Prop := Relation.TransGen (Goes body)

/-- A loop whose every turn decreases a measure, run to its end. -/
def run (body : σ → Turn σ ρ) (μ : σ → Nat) (hμ : ∀ s s', body s = .next s' → μ s' < μ s)
    (s : σ) : ρ :=
  match _h : body s with
  | .exit r => r
  | .next s' => run body μ hμ s'
termination_by μ s
decreasing_by exact hμ s s' _h

section
variable {body : σ → Turn σ ρ} {μ : σ → Nat} {hμ : ∀ s s', body s = .next s' → μ s' < μ s}

theorem run_exit {s : σ} {r : ρ} (h : body s = .exit r) : run body μ hμ s = r := by
  rw [run]
  split
  · simp_all
  · simp_all

theorem run_next {s s' : σ} (h : body s = .next s') : run body μ hμ s = run body μ hμ s' := by
  rw [run]
  split
  · simp_all
  · simp_all

/-- Induction along a run, from the turn that leaves the loop back to its start. -/
theorem run_rec {P : σ → ρ → Prop} (hexit : ∀ s r, body s = .exit r → P s r)
    (hnext : ∀ s s' r, body s = .next s' → P s' r → P s r) (s : σ) : P s (run body μ hμ s) := by
  induction hn : μ s using Nat.strongRecOn generalizing s with
  | _ n ih =>
    cases h : body s with
    | exit r => rw [run_exit h]; exact hexit s r h
    | next s' => rw [run_next h]; exact hnext s s' _ h (ih (μ s') (hn ▸ hμ s s' h) s' rfl)

/-- A run that reaches a head whose turn leaves the loop has the result of that turn. -/
theorem run_of_heads {s s' : σ} {r : ρ} (h : Heads body s s') (hexit : body s' = .exit r) :
    run body μ hμ s = r := by
  induction h using Relation.ReflTransGen.head_induction_on with
  | refl => exact run_exit hexit
  | head hgo _ ih => exact (run_next hgo).trans ih

/-- A run has a last head, whose turn leaves the loop with the result. -/
theorem exists_last (s : σ) : ∃ s', Heads body s s' ∧ body s' = .exit (run body μ hμ s) :=
  run_rec (P := fun s r => ∃ s', Heads body s s' ∧ body s' = .exit r)
    (fun s _ h => ⟨s, .refl, h⟩)
    (fun _ _ _ h ⟨last, hlast, hexit⟩ => ⟨last, .head h hlast, hexit⟩) s

end

section
variable {body : σ → Turn σ ρ} {A : σ → Prop} {s s' : σ}

/-- A loop that is left at its first turn has no later heads. -/
theorem forall_later_exit {r : ρ} (h : body s = .exit r) : ∀ x, LaterHeads body s x → A x := by
  intro x hx
  obtain ⟨y, hy, -⟩ := Relation.TransGen.head'_iff.1 hx
  rw [Goes, h] at hy
  cases hy

/-- The later heads of a loop that goes round are its second head and the later heads of that. -/
theorem forall_later_next (h : body s = .next s') :
    (∀ x, LaterHeads body s x → A x) ↔ A s' ∧ ∀ x, LaterHeads body s' x → A x := by
  constructor
  · exact fun H => ⟨H s' (.single h), fun x hx => H x (.head h hx)⟩
  · rintro ⟨h1, h2⟩ x hx
    obtain ⟨y, hy, hyx⟩ := Relation.TransGen.head'_iff.1 hx
    rw [Goes, h] at hy
    cases hy
    rcases Relation.reflTransGen_iff_eq_or_transGen.1 hyx with rfl | hyx
    · exact h1
    · exact h2 x hyx

end

/-! ## Loops that need not end -/

/-- A loop run for at most `fuel` turns. -/
def runFuel (body : σ → Turn σ ρ) : Nat → σ → Option ρ
  | 0, _ => none
  | fuel + 1, s =>
    match body s with
    | .exit r => some r
    | .next s' => runFuel body fuel s'

/-- A loop ends with a result. -/
def Exits (body : σ → Turn σ ρ) (s : σ) (r : ρ) : Prop := ∃ fuel, runFuel body fuel s = some r

section
variable {body : σ → Turn σ ρ} {s s' : σ} {r : ρ}

theorem exits_of_exit (h : body s = .exit r) : Exits body s r := ⟨1, by simp [runFuel, h]⟩

theorem exits_of_next (h : body s = .next s') (hr : Exits body s' r) : Exits body s r := by
  obtain ⟨fuel, hr⟩ := hr
  exact ⟨fuel + 1, by simp [runFuel, h, hr]⟩

/-- What holds at every head and gives a property of every result gives it of a run's result. -/
theorem of_exits {I : σ → Prop} {Q : ρ → Prop} (hnext : ∀ s s', I s → body s = .next s' → I s')
    (hexit : ∀ s r, I s → body s = .exit r → Q r) (hs : I s) (h : Exits body s r) : Q r := by
  obtain ⟨fuel, h⟩ := h
  induction fuel generalizing s with
  | zero => cases h
  | succ fuel ih =>
    rw [runFuel] at h
    cases hturn : body s with
    | exit r' =>
      rw [hturn] at h
      cases h
      exact hexit s r hs hturn
    | next s' =>
      rw [hturn] at h
      exact ih (hnext s s' hs hturn) h

/-- A loop ends with one result. -/
theorem exits_unique {r' : ρ} (h : Exits body s r) (h' : Exits body s r') : r = r' := by
  obtain ⟨fuel, h⟩ := h
  obtain ⟨fuel', h'⟩ := h'
  induction fuel generalizing s fuel' with
  | zero => cases h
  | succ fuel ih =>
    cases fuel' with
    | zero => cases h'
    | succ fuel' =>
      rw [runFuel] at h h'
      cases hturn : body s with
      | exit r₀ =>
        rw [hturn] at h h'
        cases h
        cases h'
        rfl
      | next s' =>
        rw [hturn] at h h'
        exact ih h fuel' h'

/-- A loop that follows another through every turn, and ends wherever that one ends, ends. -/
theorem exits_of_follows {τ ρ' : Type} {body' : τ → Turn τ ρ'} {f : σ → τ} {r' : ρ'}
    (hnext : ∀ s s', body s = .next s' → body' (f s) = .next (f s'))
    (hexit : ∀ s, body s = .exit r → Exits body' (f s) r') (h : Exits body s r) :
    Exits body' (f s) r' := by
  obtain ⟨fuel, h⟩ := h
  induction fuel generalizing s with
  | zero => cases h
  | succ fuel ih =>
    rw [runFuel] at h
    cases hs : body s with
    | exit r₀ =>
      rw [hs] at h
      cases h
      exact hexit s hs
    | next s' =>
      rw [hs] at h
      exact exits_of_next (hnext s s' hs) (ih h)

end

end Loop
