import Mathlib.Data.List.TakeWhile

/-!
# Exceptions, and numbers in texts

What the functions of `burl` throw, and how the standard library reads a number from a text.
-/

namespace Beast2.Burl

/-- What is thrown: a `std::runtime_error` with its text, an exception of `std::stoul`, or one of a
network operation. -/
inductive Thrown where
  | runtimeError (what : String)
  | stoul
  | network
deriving DecidableEq, Repr

/-- `std::isspace` in the C locale. -/
def isspace (c : Char) : Bool :=
  c == ' ' || c == '\t' || c == '\n' || c == '\x0b' || c == '\x0c' || c == '\r'

/-- `std::stoul`: white space, a sign, digits, and anything after them; a minus sign negates modulo
2^64. -/
def stoul (t : List Char) : Except Thrown Nat :=
  let t := t.dropWhile isspace
  let (neg, t) := match t with
    | '-' :: t => (true, t)
    | '+' :: t => (false, t)
    | t => (false, t)
  let digits := t.takeWhile Char.isDigit
  let n := Nat.ofDigitChars 10 digits 0
  if digits = [] then .error .stoul
  else if 0x10000000000000000 ≤ n then .error .stoul
  else .ok (if neg then (0x10000000000000000 - n) % 0x10000000000000000 else n)

theorem isspace_of_isDigit {c : Char} (h : c.isDigit = true) : isspace c = false := by
  by_contra hspace
  simp only [isspace, Bool.not_eq_false, Bool.or_eq_true, beq_iff_eq] at hspace
  rcases hspace with ((((rfl | rfl) | rfl) | rfl) | rfl) | rfl <;> cases h

/-- A text of digits is read as its number, if it is not empty and the number has 64 bits. -/
theorem stoul_digits {t : List Char} (h : ∀ c ∈ t, c.isDigit = true) :
    stoul t = if t = [] ∨ 0x10000000000000000 ≤ Nat.ofDigitChars 10 t 0 then .error .stoul
      else .ok (Nat.ofDigitChars 10 t 0) := by
  have hspace : t.dropWhile isspace = t := by
    cases t with
    | nil => rfl
    | cons c t =>
      have hc := isspace_of_isDigit (h c List.mem_cons_self)
      rw [List.dropWhile_cons, hc, if_neg Bool.false_ne_true]
  have htake : t.takeWhile Char.isDigit = t := List.takeWhile_eq_self_iff.2 h
  simp only [stoul, hspace]
  split
  · cases h '-' List.mem_cons_self
  · cases h '+' List.mem_cons_self
  · rw [htake]
    by_cases hnil : t = []
    · rw [if_pos hnil, if_pos (.inl hnil)]
    · by_cases hn : 0x10000000000000000 ≤ Nat.ofDigitChars 10 t 0
      · rw [if_neg hnil, if_pos hn, if_pos (.inr hn)]
      · rw [if_neg hnil, if_neg hn, if_neg (not_or.2 ⟨hnil, hn⟩)]
        rfl

end Beast2.Burl
