import Beast2.Lib.Log
import Beast2.Lib.Trace

/-!
# Preconditions and postconditions of programs that leave a trace

`Spec Q P x R` says of a program that starts after a log with `P`: whatever it does next is allowed
by `Q` after the log so far, and if it returns, its value and the log then have `R`. There is a rule
for each way to make a program; `along` turns the specification of a whole program into a fact about
its trace.
-/

namespace Trace

open Log

variable {ω ε α β : Type}

/-- A program does only what `Q` allows, from every log with `P`, and returns with `R`. -/
def Spec (Q : List ω → ω → Prop) (P : List ω → Prop) (x : Trace ω ε α) (R : α → List ω → Prop) :
    Prop :=
  ∀ l, P l → Along (fun m => Q (l ++ m)) x.log ∧ ∀ a, x.result = .ok a → R a (l ++ x.log)

section
variable {Q : List ω → ω → Prop} {P P' : List ω → Prop} {x : Trace ω ε α} {f : α → Trace ω ε β}
  {R R' : α → List ω → Prop} {S : β → List ω → Prop} {a : α} {e : ε} {o : ω}

/-- The rule of consequence. -/
theorem Spec.mono (h : Spec Q P x R) (hpre : ∀ l, P' l → P l) (hpost : ∀ a l, R a l → R' a l) :
    Spec Q P' x R' := by
  intro l hl
  obtain ⟨halong, hresult⟩ := h l (hpre l hl)
  exact ⟨halong, fun a ha => hpost a _ (hresult a ha)⟩

theorem Spec.ret (h : ∀ l, P l → R a l) : Spec Q P (pure a : Trace ω ε α) R := by
  intro l hl
  refine ⟨along_nil, fun b hb => ?_⟩
  cases hb
  rw [log_pure, List.append_nil]
  exact h l hl

theorem Spec.raise : Spec Q P (raise e : Trace ω ε α) R :=
  fun _ _ => ⟨along_nil, fun _ hb => by cases hb⟩

theorem Spec.require {b : Bool} {R : Unit → List ω → Prop} (h : ∀ l, P l → b = true → R () l) :
    Spec Q P (require b e) R := by
  intro l hl
  rw [log_require, List.append_nil]
  exact ⟨along_nil, fun u hu => h l hl (result_require_eq_ok.1 hu)⟩

theorem Spec.emit {R : Unit → List ω → Prop} (hQ : ∀ l, P l → Q l o)
    (hR : ∀ l, P l → R () (l ++ [o])) : Spec Q P (emit o : Trace ω ε Unit) R := by
  intro l hl
  refine ⟨?_, fun _ _ => hR l hl⟩
  have hone : Along (fun m => Q (l ++ m)) ([] ++ [o]) := by
    refine along_append_singleton.2 ⟨along_nil, ?_⟩
    rw [List.append_nil]
    exact hQ l hl
  exact hone

/-- Several things, one after the other. -/
theorem Spec.of_log {x : Trace ω ε α}
    (hQ : ∀ l, P l → ∀ l₁ o l₂, x.log = l₁ ++ o :: l₂ → Q (l ++ l₁) o)
    (hR : ∀ l a, P l → x.result = .ok a → R a (l ++ x.log)) : Spec Q P x R :=
  fun l hl => ⟨hQ l hl, fun a ha => hR l a hl ha⟩

/-- The rule of composition. -/
theorem Spec.bind (h : Spec Q P x R) (hf : ∀ a, Spec Q (R a) (f a) S) : Spec Q P (x >>= f) S := by
  intro l hl
  obtain ⟨halong, hresult⟩ := h l hl
  cases hx : x.result with
  | error e =>
    rw [log_bind_error hx]
    refine ⟨halong, fun b hb => ?_⟩
    obtain ⟨a, ha, -⟩ := result_bind.1 hb
    rw [hx] at ha
    cases ha
  | ok a =>
    obtain ⟨halong', hresult'⟩ := hf a _ (hresult a hx)
    rw [log_bind_ok hx, ← List.append_assoc, result_bind_ok hx]
    refine ⟨along_append.2 ⟨halong, ?_⟩, hresult'⟩
    simpa only [List.append_assoc] using halong'

/-- What follows a program that does nothing that can be seen. -/
theorem Spec.bind_lift {x : Except ε α} (h : ∀ a, x = .ok a → Spec Q P (f a) S) :
    Spec Q P (Trace.lift x >>= f) S := by
  refine .bind (R := fun a l => x = .ok a ∧ P l) ?_ fun a l hl => h a hl.1 l hl.2
  intro l hl
  rw [log_lift, List.append_nil]
  exact ⟨along_nil, fun a ha => ⟨ha, hl⟩⟩

/-- What follows a program that throws unless a condition holds. -/
theorem Spec.bind_require {b : Bool} {f : Unit → Trace ω ε β}
    (h : b = true → Spec Q P (f ()) S) : Spec Q P (Trace.require b e >>= f) S :=
  .bind (R := fun _ l => b = true ∧ P l) (.require fun _ hl hb => ⟨hb, hl⟩)
    fun _ l hl => h hl.1 l hl.2

/-- A program that starts with an empty log. -/
theorem Spec.along (h : Spec Q P x R) (hnil : P []) :
    Along Q x.log ∧ ∀ a, x.result = .ok a → R a x.log := by
  simpa only [List.nil_append] using h [] hnil

end

end Trace
