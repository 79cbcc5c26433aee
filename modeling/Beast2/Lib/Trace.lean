import Mathlib.Data.List.Basic

/-!
# Programs that leave a trace

A program of calls is what it does that can be seen, and how it ends, with a value or with what was
thrown. Two programs are put together by `bind`: the second one goes on after the trace of the
first, unless that threw. `log_bind_ok`, `log_bind_error` and `result_bind` take the two apart
again.
-/

/-- The trace of a program and its end. -/
structure Trace (ω ε α : Type) where
  log : List ω
  result : Except ε α

namespace Trace

variable {ω ε α β : Type}

/-- A program that only returns. -/
def ret (a : α) : Trace ω ε α := ⟨[], .ok a⟩

/-- One program after the other. -/
def bind (x : Trace ω ε α) (f : α → Trace ω ε β) : Trace ω ε β :=
  match x.result with
  | .ok a => ⟨x.log ++ (f a).log, (f a).result⟩
  | .error e => ⟨x.log, .error e⟩

instance : Monad (Trace ω ε) where
  pure := ret
  bind := bind

/-- A program that does one thing. -/
def emit (o : ω) : Trace ω ε Unit := ⟨[o], .ok ()⟩

/-- A program that throws. -/
def raise (e : ε) : Trace ω ε α := ⟨[], .error e⟩

/-- A program that does nothing that can be seen. -/
def lift (x : Except ε α) : Trace ω ε α := ⟨[], x⟩

/-- A program that throws unless a condition holds. -/
def require (b : Bool) (e : ε) : Trace ω ε Unit := if b then ret () else raise e

section
variable {x : Trace ω ε α} {f : α → Trace ω ε β} {a : α} {b : β} {e : ε}

@[simp] theorem log_pure (a : α) : (pure a : Trace ω ε α).log = [] := rfl

@[simp] theorem result_pure (a : α) : (pure a : Trace ω ε α).result = .ok a := rfl

@[simp] theorem log_emit (o : ω) : (emit o : Trace ω ε Unit).log = [o] := rfl

@[simp] theorem result_emit (o : ω) : (emit o : Trace ω ε Unit).result = .ok () := rfl

@[simp] theorem log_raise (e : ε) : (raise e : Trace ω ε α).log = [] := rfl

@[simp] theorem result_raise (e : ε) : (raise e : Trace ω ε α).result = .error e := rfl

@[simp] theorem log_lift (x : Except ε α) : (lift x : Trace ω ε α).log = [] := rfl

@[simp] theorem result_lift (x : Except ε α) : (lift x : Trace ω ε α).result = x := rfl

@[simp] theorem log_require (b : Bool) (e : ε) : (require b e : Trace ω ε Unit).log = [] := by
  unfold require
  split <;> rfl

@[simp] theorem result_require_eq_ok {b : Bool} {u : Unit} :
    (require b e : Trace ω ε Unit).result = .ok u ↔ b = true := by
  unfold require
  split
  · next h => exact ⟨fun _ => h, fun _ => rfl⟩
  · next h => exact ⟨fun hu => (by cases hu), fun hb => absurd hb h⟩

/-- The trace of two programs, the first of which returned. -/
theorem log_bind_ok (h : x.result = .ok a) : (x >>= f).log = x.log ++ (f a).log := by
  show (bind x f).log = _
  rw [bind, h]

theorem log_bind_error (h : x.result = .error e) : (x >>= f).log = x.log := by
  show (bind x f).log = _
  rw [bind, h]

theorem result_bind_ok (h : x.result = .ok a) : (x >>= f).result = (f a).result := by
  show (bind x f).result = _
  rw [bind, h]

/-- Two programs return only if both do. -/
theorem result_bind :
    (x >>= f).result = .ok b ↔ ∃ a, x.result = .ok a ∧ (f a).result = .ok b := by
  cases h : x.result with
  | ok a =>
    rw [result_bind_ok h]
    exact ⟨fun hb => ⟨a, rfl, hb⟩, fun ⟨a', ha, hb⟩ => by cases ha; exact hb⟩
  | error e =>
    have herror : (x >>= f).result = .error e := by
      show (bind x f).result = _
      rw [bind, h]
    rw [herror]
    exact ⟨fun hb => (by cases hb), fun ⟨a', ha, _⟩ => (by cases ha)⟩

end

end Trace
