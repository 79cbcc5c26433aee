import Beast2.Burl.GlobPattern

/-!
# Ranges in URL patterns

A range `[low-high:step]` of a URL pattern stands for low, low + step and so on, up to high. Its
generator adds the step in a type of fixed width, a `std::uint64_t` or a signed `char`, and looks at
the bound only afterwards. A step of zero never passes it, and a sum that does not fit the type
comes out below it; the generator then goes on for ever, with values outside of the range. The width
to which numbers are padded is narrowed to 8 bits. So a range is what it stands for exactly if it is
empty, or the first number above it fits the type and `low` has at most 255 digits
(`ranges_progress_iff`).
-/

namespace Beast2.Burl

open Grammar Loop Choices

/-! ## Progressions -/

/-- There are `n` numbers `low`, `low + step` and so on up to `high`, and the next one is above. -/
structure Counts (low high step n : Nat) : Prop where
  within : ∀ i < n, low + step * i ≤ high
  above : high < low + step * n

/-- The texts of the first `n` numbers of a progression. -/
def members (text : Nat → List Char) (low step n : Nat) : List (List Char) :=
  (List.range n).map fun i => text (low + step * i)

/-- A generator yields the texts of the numbers from `low` to `high` in steps, and none after
them. -/
def Progresses (g : Gen) (text : Nat → List Char) (low high step : Nat) : Prop :=
  ∃ n, Counts low high step n ∧ g.Yields (members text low step n)

section

variable {low high step n : Nat}

theorem Counts.tail (h : Counts low high step (n + 1)) : Counts (low + step) high step n := by
  have hassoc : ∀ i, low + step + step * i = low + step * (i + 1) := by
    intro i
    rw [Nat.mul_succ, Nat.add_assoc, Nat.add_comm step]
  refine ⟨fun i hi => ?_, ?_⟩
  · rw [hassoc]
    exact h.within (i + 1) (Nat.succ_lt_succ hi)
  · rw [hassoc]
    exact h.above

/-- An empty range counts nothing, and one that counts nothing is empty. -/
theorem counts_zero : Counts low high step 0 ↔ high < low := by
  constructor
  · intro h
    simpa using h.above
  · intro h
    exact ⟨fun i hi => absurd hi (Nat.not_lt_zero i), by simpa using h⟩

/-- A range that is not empty counts the numbers up to the last one that is not above `high`. -/
theorem counts_iff (hle : low ≤ high) :
    Counts low high step n ↔ 0 < step ∧ n = (high - low) / step + 1 := by
  constructor
  · intro h
    have hstep : 0 < step := by
      by_contra hzero
      have habove := h.above
      rw [Nat.eq_zero_of_not_pos hzero, Nat.zero_mul] at habove
      omega
    refine ⟨hstep, ?_⟩
    cases n with
    | zero => exact absurd (counts_zero.1 h) (Nat.not_lt.2 hle)
    | succ n =>
      have hlast := h.within n (Nat.lt_succ_self n)
      have habove := h.above
      have hdiv : (high - low) / step = n := by
        rw [Nat.div_eq_iff hstep]
        rw [Nat.mul_succ] at habove
        rw [Nat.mul_comm]
        omega
      rw [hdiv]
  · rintro ⟨hstep, rfl⟩
    refine ⟨fun i hi => ?_, ?_⟩
    · have hmul : step * i ≤ high - low :=
        (Nat.mul_le_mul_left step (Nat.le_of_lt_succ hi)).trans (Nat.mul_div_le _ _)
      omega
    · have hlt := Nat.lt_mul_div_succ (high - low) hstep
      omega

theorem members_succ (text : Nat → List Char) :
    members text low step (n + 1) = text low :: members text (low + step) step n := by
  rw [members, List.range_succ_eq_map, List.map_cons, List.map_map, members]
  congr 1
  refine List.map_congr_left fun i _ => ?_
  rw [Function.comp_apply, Nat.mul_succ, Nat.add_assoc, Nat.add_comm step]

end

/-! ## Generators that count -/

/-- The generators `g v` count: one above `high` is done, and one up to `high` returns its text and
goes on a step further, or with a value again if the sum is not below the limit of its type. -/
structure Counter (g : Nat → Gen) (text : Nat → List Char) (high step limit : Nat) : Prop where
  bound : high < limit
  done : ∀ v < limit, high < v → (g v).call.1 = none
  value : ∀ v ≤ high, ∃ g', (g v).call = (some (text v), g') ∧
    (v + step < limit → g' = g (v + step)) ∧ (limit ≤ v + step → g'.call.1 ≠ none)

section

variable {g : Nat → Gen} {text : Nat → List Char} {low high step limit n : Nat}

/-- What is yielded first is returned by the first call. -/
theorem Gen.Yields.call_eq {g : Gen} {xs : List (List Char)} (h : g.Yields xs) :
    g.call.1 = xs.head? := by
  cases h with
  | done hnone => exact hnone
  | value hcall => rw [hcall]; rfl

/-- A generator that counts yields its progression if the number above it is below the limit. -/
theorem Counter.yields (c : Counter g text high step limit) (hcounts : Counts low high step n)
    (hlimit : low + step * n < limit) : (g low).Yields (members text low step n) := by
  induction n generalizing low with
  | zero =>
    rw [Nat.mul_zero, Nat.add_zero] at hlimit
    exact .done (c.done low hlimit (counts_zero.1 hcounts))
  | succ n ih =>
    have hnext : low + step + step * n < limit := by
      rw [Nat.add_assoc, Nat.add_comm step, ← Nat.mul_succ]
      exact hlimit
    have hlow := hcounts.within 0 (Nat.succ_pos n)
    rw [Nat.mul_zero, Nat.add_zero] at hlow
    obtain ⟨g', hcall, hbelow, -⟩ := c.value low hlow
    have hfits : low + step < limit := by omega
    rw [members_succ]
    refine .value hcall ?_
    rw [hbelow hfits]
    exact ih hcounts.tail hnext

/-- It is done after as many values only if the next number is below the limit. -/
theorem Counter.lt_limit (c : Counter g text high step limit)
    (hcounts : Counts low high step (n + 1)) {xs : List (List Char)} (hxs : (g low).Yields xs)
    (hlength : xs.length = n + 1) : low + step * (n + 1) < limit := by
  induction n generalizing low xs with
  | zero =>
    have hlow := hcounts.within 0 (Nat.succ_pos 0)
    obtain ⟨g', hcall, -, hover⟩ := c.value low hlow
    by_contra hge
    rw [Nat.zero_add, Nat.mul_one, Nat.not_lt] at hge
    cases hxs with
    | done hnone => cases hlength
    | value hcall' htail =>
      cases hcall.symm.trans hcall'
      cases htail with
      | done hnone => exact hover hge hnone
      | value => cases hlength
  | succ n ih =>
    have hlow := hcounts.within 0 (Nat.succ_pos _)
    have hsecond := hcounts.within 1 (Nat.succ_lt_succ (Nat.succ_pos n))
    rw [Nat.mul_one] at hsecond
    obtain ⟨g', hcall, hbelow, -⟩ := c.value low hlow
    have hfits : low + step < limit := Nat.lt_of_le_of_lt hsecond c.bound
    cases hxs with
    | done hnone => cases hlength
    | value hcall' htail =>
      cases hcall.symm.trans hcall'
      rw [hbelow hfits] at htail
      have hlt := ih hcounts.tail htail (Nat.succ.inj hlength)
      rwa [Nat.add_assoc, Nat.add_comm step, ← Nat.mul_succ] at hlt

/-- A generator that counts yields its progression exactly if the range is empty, or the step is not
zero and the first number above the range is below the limit. -/
theorem Counter.progresses_iff (c : Counter g text high step limit) (hlow : low < limit) :
    Progresses (g low) text low high step ↔
      high < low ∨ 0 < step ∧ low + step * ((high - low) / step + 1) < limit := by
  by_cases hempty : high < low
  · refine iff_of_true ⟨0, counts_zero.2 hempty, ?_⟩ (.inl hempty)
    exact c.yields (counts_zero.2 hempty) hlow
  · have hle := Nat.not_lt.1 hempty
    rw [or_iff_right hempty]
    constructor
    · rintro ⟨n, hcounts, hyields⟩
      obtain ⟨hstep, rfl⟩ := (counts_iff hle).1 hcounts
      exact ⟨hstep, c.lt_limit hcounts hyields (by simp [members])⟩
    · rintro ⟨hstep, hlimit⟩
      have hcounts := (counts_iff hle).2 ⟨hstep, rfl⟩
      exact ⟨_, hcounts, c.yields hcounts hlimit⟩

end

/-! ## Ranges of numbers -/

/-- The text of a number with zeros before it up to a width. -/
def zeroPadded (width n : Nat) : List Char :=
  List.replicate (width - (Nat.toDigits 10 n).length) '0' ++ Nat.toDigits 10 n

section

variable {width low high step : Nat}

/-- A number of 64 bits has at most 20 digits. -/
theorem length_toDigits_le {n : Nat} (hn : n < 0x10000000000000000) :
    (Nat.toDigits 10 n).length ≤ 20 :=
  (Nat.length_toDigits_le_iff (by decide) (by decide)).2 (by omega)

/-- The generator pads its numbers to the low 8 bits of the width. -/
theorem padded_ofNat {n : Nat} (hn : n < 0x10000000000000000) :
    padded (BitVec.ofNat 8 width) (BitVec.ofNat 64 n) = zeroPadded (width % 256) n := by
  simp only [padded, zeroPadded, BitVec.toNat_ofNat]
  rw [Nat.mod_eq_of_lt hn]

/-- The generators of a range of numbers count. -/
theorem counter_range (hhigh : high < 0x10000000000000000) (hstep : step < 0x10000000000000000) :
    Counter (fun v => .range (BitVec.ofNat 8 width) (BitVec.ofNat 64 v) (BitVec.ofNat 64 high)
        (BitVec.ofNat 64 step)) (zeroPadded (width % 256)) high step 0x10000000000000000 where
  bound := hhigh
  done v hv habove := by
    have hlt : BitVec.ofNat 64 high < BitVec.ofNat 64 v := by
      simp only [BitVec.lt_def, BitVec.toNat_ofNat]
      omega
    rw [Gen.call, if_pos hlt]
  value v hv := by
    have hlt : ¬ BitVec.ofNat 64 high < BitVec.ofNat 64 v := by
      simp only [BitVec.lt_def, BitVec.toNat_ofNat]
      omega
    refine ⟨_, by rw [Gen.call, if_neg hlt, padded_ofNat (by omega)], fun _ => ?_, fun hover => ?_⟩
    · rw [BitVec.ofNat_add]
    · -- the sum lost 2^64 and is below the number it was made from
      have hwraps : ¬ BitVec.ofNat 64 high < BitVec.ofNat 64 v + BitVec.ofNat 64 step := by
        simp only [BitVec.lt_def, BitVec.toNat_add, BitVec.toNat_ofNat]
        omega
      rw [Gen.call, if_neg hwraps]
      exact Option.some_ne_none _

/-- A range of numbers is what it stands for exactly if it is empty, or its first number is written
with at most 255 digits, its step is not zero and the first number above it has 64 bits. -/
theorem progresses_range_iff (hlow : low < 0x10000000000000000)
    (hhigh : high < 0x10000000000000000) (hstep : step < 0x10000000000000000) :
    Progresses (makeRangeGen (BitVec.ofNat 8 width) (BitVec.ofNat 64 low) (BitVec.ofNat 64 high)
        (BitVec.ofNat 64 step)) (zeroPadded width) low high step ↔
      high < low ∨ width ≤ 255 ∧ 0 < step ∧
        low + step * ((high - low) / step + 1) < 0x10000000000000000 := by
  have hcounter := (@counter_range width high step hhigh hstep).progresses_iff hlow
  by_cases hwidth : width ≤ 255
  · rw [Nat.mod_eq_of_lt (Nat.lt_succ_of_le hwidth)] at hcounter
    rw [and_iff_right hwidth]
    exact hcounter
  · rw [or_iff_left (fun h => hwidth h.1)]
    constructor
    · rintro ⟨n, hcounts, hyields⟩
      by_contra hle
      -- the first number is returned with fewer characters than it was written with
      obtain ⟨n, rfl⟩ : ∃ m, n = m + 1 := Nat.exists_eq_succ_of_ne_zero
        (by rintro rfl; exact hle (counts_zero.1 hcounts))
      obtain ⟨g', hcall, -⟩ := (@counter_range width high step hhigh hstep).value low
        (Nat.not_lt.1 hle)
      rw [members_succ] at hyields
      have hfirst : zeroPadded (width % 256) low = zeroPadded width low :=
        Option.some.inj ((congrArg Prod.fst hcall).symm.trans hyields.call_eq)
      have hlength := congrArg List.length hfirst
      have hdigits := length_toDigits_le hlow
      simp only [zeroPadded, List.length_append, List.length_replicate] at hlength
      omega
    · intro hempty
      refine ⟨0, counts_zero.2 hempty, .done ?_⟩
      exact (@counter_range width high step hhigh hstep).done low hlow hempty

end

/-! ## Ranges of letters -/

/-- The text of a letter. -/
def letterText (n : Nat) : List Char := [Char.ofNat n]

section

variable {low high step : Nat}

/-- A number below 128 is itself as a signed `char`. -/
theorem toInt_ofNat_char {v : Nat} (hv : v < 128) : (BitVec.ofNat 8 v).toInt = v := by
  rw [BitVec.toInt_ofNat', Int.bmod_eq_of_le (by omega) (by omega)]

/-- The generators of a range of letters count. -/
theorem counter_char (hhigh : high < 128) (hstep : step < 256) :
    Counter (fun v => .char (BitVec.ofNat 8 v) (BitVec.ofNat 8 high) (BitVec.ofNat 8 step))
      letterText high step 128 where
  bound := hhigh
  done v hv habove := by
    have hlt : (BitVec.ofNat 8 high).slt (BitVec.ofNat 8 v) = true := by
      rw [BitVec.slt_eq_decide, toInt_ofNat_char hhigh, toInt_ofNat_char hv]
      exact decide_eq_true (Int.ofNat_lt.2 habove)
    rw [Gen.call, if_pos hlt]
  value v hv := by
    have hlt : ¬ (BitVec.ofNat 8 high).slt (BitVec.ofNat 8 v) = true := by
      rw [BitVec.slt_eq_decide, toInt_ofNat_char hhigh, toInt_ofNat_char (by omega),
        decide_eq_true_iff]
      omega
    have hchar : (BitVec.ofNat 8 v).toNat = v := by
      rw [BitVec.toNat_ofNat]
      omega
    refine ⟨_, by rw [Gen.call, if_neg hlt, hchar, letterText], fun _ => ?_, fun hover => ?_⟩
    · rw [BitVec.ofNat_add]
    · -- the sum is a negative `char`, or it lost 256 and is below the letter it was made from
      have hwraps :
          ¬ (BitVec.ofNat 8 high).slt (BitVec.ofNat 8 v + BitVec.ofNat 8 step) = true := by
        rw [BitVec.slt_eq_decide, toInt_ofNat_char hhigh, ← BitVec.ofNat_add, BitVec.toInt_ofNat',
          decide_eq_true_iff, Int.bmod_def]
        omega
      rw [Gen.call, if_neg hwraps]
      exact Option.some_ne_none _

/-- A range of letters is what it stands for exactly if it is empty, or its step is not zero and the
first number above it is a `char`. -/
theorem progresses_char_iff (hlow : low < 128) (hhigh : high < 128) (hstep : step < 256) :
    Progresses (makeCharGen (BitVec.ofNat 8 low) (BitVec.ofNat 8 high) (BitVec.ofNat 8 step))
        letterText low high step ↔
      high < low ∨ 0 < step ∧ low + step * ((high - low) / step + 1) < 128 :=
  (counter_char hhigh hstep).progresses_iff hlow

end

/-! ## Patterns -/

instance : DecidableEq Component := @instDecidableEqSum _ _ inferInstance inferInstance

/-- The components of a pattern, none if it is not accepted. -/
def components (pattern : List Char) : List Component :=
  ((globRule.parseAll pattern).toOption).getD []

/-- A component that is a range yields what it stands for. -/
def RangeProgresses : Component → Prop
  | .inr (.inl (low, high, step)) =>
    ∃ g, makeGen (.inr (.inl (low, high, step))) = .ok g ∧
      Progresses g (zeroPadded low.length) (Nat.ofDigitChars 10 low 0) high (step.getD 1)
  | .inr (.inr (.inl (low, high, step))) =>
    ∃ g, makeGen (.inr (.inr (.inl (low, high, step)))) = .ok g ∧
      Progresses g letterText low.toNat high.toNat (step.getD 1)
  | _ => True

/-- A component that is a range is empty, or it has a step and the first number above it fits the
type of its generator, and a first number is written with at most 255 digits. -/
def RangeFits : Component → Prop
  | .inr (.inl (low, high, step)) =>
    high < Nat.ofDigitChars 10 low 0 ∨ low.length ≤ 255 ∧ 0 < step.getD 1 ∧
      Nat.ofDigitChars 10 low 0 +
        step.getD 1 * ((high - Nat.ofDigitChars 10 low 0) / step.getD 1 + 1) < 0x10000000000000000
  | .inr (.inr (.inl (low, high, step))) =>
    high.toNat < low.toNat ∨ 0 < step.getD 1 ∧
      low.toNat + step.getD 1 * ((high.toNat - low.toNat) / step.getD 1 + 1) < 128
  | _ => True

instance : DecidablePred RangeFits
  | .inl _ => .isTrue trivial
  | .inr (.inl (_, _, _)) => inferInstanceAs (Decidable (_ ∨ _))
  | .inr (.inr (.inl (_, _, _))) => inferInstanceAs (Decidable (_ ∨ _))
  | .inr (.inr (.inr _)) => .isTrue trivial

/-- The calls of the closure for the components return finitely many results. -/
def FinitelyMany (gs : List Gen) : Prop :=
  ∃ N, ∀ rs : List GlobResult, (globClosure gs).Returns (rs.map some) → rs.length ≤ N

section

variable {it rest low : List Char} {high : Nat} {c d : Char} {step : Option Nat}

/-- A step is at most what its type holds. -/
theorem step_le {max : Nat} (h : optionalRule (stepRule max) it = .ok (step, rest))
    (hmax : 1 ≤ max) : step.getD 1 ≤ max := by
  rcases optionalRule_ok h with ⟨rfl, -⟩ | ⟨n, rfl, hstep⟩
  · exact hmax
  · simp only [stepRule, bind_ok] at hstep
    obtain ⟨_, -, hn⟩ := hstep
    exact (unsignedRule_ok hn).1

/-- The first number of a range is digits, its last number and its step have 64 bits. -/
theorem numRangeRule_ok (h : numRangeRule it = .ok ((low, high, step), rest)) :
    low ≠ [] ∧ (∀ c ∈ low, c.isDigit = true) ∧ high < 0x10000000000000000 ∧
      step.getD 1 < 0x10000000000000000 := by
  simp only [numRangeRule, bind_ok] at h
  obtain ⟨_, -, p, hlow, _, -, q, hhigh, r, hstep, _, -, h⟩ := h
  cases h
  obtain ⟨-, hne, hdigits⟩ := tokenRule_ok hlow
  exact ⟨hne, hdigits, Nat.lt_succ_of_le (unsignedRule_ok hhigh).1,
    Nat.lt_succ_of_le (step_le hstep (by decide))⟩

theorem toNat_lt_of_isAlpha (h : c.isAlpha = true) : c.toNat < 128 := by
  rcases (Bool.or_eq_true c.isUpper c.isLower).mp h with hupper | hlower
  · have hle : c.val ≥ 'A'.val ∧ c.val ≤ 'Z'.val := of_decide_eq_true hupper
    exact Nat.lt_of_le_of_lt (UInt32.le_iff_toNat_le.1 hle.2) (by decide)
  · have hle : c.val ≤ 'z'.val := of_decide_eq_true (Bool.and_eq_true_iff.1 hlower).2
    exact Nat.lt_of_le_of_lt (UInt32.le_iff_toNat_le.1 hle) (by decide)

/-- The bounds of a range of letters are letters, and its step has 8 bits. -/
theorem charRangeRule_ok (h : charRangeRule it = .ok ((c, d, step), rest)) :
    c.toNat < 128 ∧ d.toNat < 128 ∧ step.getD 1 < 256 := by
  simp only [charRangeRule, bind_ok] at h
  obtain ⟨_, -, p, hlow, _, -, q, hhigh, r, hstep, _, -, h⟩ := h
  cases h
  exact ⟨toNat_lt_of_isAlpha (delimRule_mem hlow), toNat_lt_of_isAlpha (delimRule_mem hhigh),
    Nat.lt_succ_of_le (step_le hstep (by decide))⟩

/-- The generator of a range of numbers is made exactly if the first number has 64 bits. -/
theorem makeGen_range_ok_iff (hne : low ≠ []) (hdigits : ∀ c ∈ low, c.isDigit = true) {g : Gen} :
    makeGen (.inr (.inl (low, high, step))) = .ok g ↔
      Nat.ofDigitChars 10 low 0 < 0x10000000000000000 ∧
        g = makeRangeGen (BitVec.ofNat 8 low.length) (BitVec.ofNat 64 (Nat.ofDigitChars 10 low 0))
          (BitVec.ofNat 64 high) (BitVec.ofNat 64 (step.getD 1)) := by
  simp only [makeGen, stoull, bind_ok, stoul_digits hdigits]
  by_cases hlow : Nat.ofDigitChars 10 low 0 < 0x10000000000000000
  · rw [if_neg (not_or.2 ⟨hne, Nat.not_le.2 hlow⟩)]
    simp [hlow, eq_comm]
  · rw [if_pos (.inr (Nat.not_lt.1 hlow))]
    simp [hlow]

/-- A component that is read, and whose generator is made, is what it stands for exactly if it
fits. -/
theorem rangeProgresses_iff {v : Component} (h : componentRule it = .ok (v, rest)) {g : Gen}
    (hg : makeGen v = .ok g) : RangeProgresses v ↔ RangeFits v := by
  rcases variantRule_ok h with ⟨s, rfl, -⟩ | ⟨v₁, rfl, h₁⟩
  · exact Iff.rfl
  rcases variantRule_ok h₁ with ⟨⟨low, high, step⟩, rfl, hrange⟩ | ⟨v₂, rfl, h₂⟩
  · obtain ⟨hne, hdigits, hhigh, hstep⟩ := numRangeRule_ok hrange
    obtain ⟨hlow, rfl⟩ := (makeGen_range_ok_iff hne hdigits).1 hg
    rw [RangeFits, ← progresses_range_iff hlow hhigh hstep]
    constructor
    · rintro ⟨g', hg', hprogresses⟩
      cases hg.symm.trans hg'
      exact hprogresses
    · intro hprogresses
      exact ⟨_, hg, hprogresses⟩
  rcases variantRule_ok h₂ with ⟨⟨low, high, step⟩, rfl, hrange⟩ | ⟨items, rfl, -⟩
  · obtain ⟨hlow, hhigh, hstep⟩ := charRangeRule_ok hrange
    rw [RangeFits, ← progresses_char_iff hlow hhigh hstep]
    constructor
    · rintro ⟨g', hg', hprogresses⟩
      cases hg'
      exact hprogresses
    · intro hprogresses
      exact ⟨_, rfl, hprogresses⟩
  · exact Iff.rfl

/-- A set yields its items. -/
theorem yields_set (items : List (List Char)) {i : Nat} (hi : i ≤ items.length) :
    (Gen.set items i).Yields (items.drop i) := by
  induction hn : items.length - i generalizing i with
  | zero =>
    have hend : i = items.length := by omega
    rw [hend, List.drop_length]
    exact .done (by rw [Gen.call, if_pos rfl])
  | succ n ih =>
    have hlt : i < items.length := by omega
    rw [List.drop_eq_getElem_cons hlt]
    refine .value ?_ (ih hlt (by omega))
    rw [Gen.call, if_neg (Nat.ne_of_lt hlt), List.getElem?_eq_getElem hlt]

/-- The generator of every component that is no range, or is what it stands for, yields finitely
many texts. -/
theorem exists_yields {v : Component} {g : Gen} (hg : makeGen v = .ok g)
    (hprogresses : RangeProgresses v) : ∃ xs, g.Yields xs := by
  rcases v with s | ⟨low, high, step⟩ | ⟨low, high, step⟩ | items
  · cases hg
    exact ⟨[s], .value rfl (.done rfl)⟩
  · obtain ⟨g', hg', n, -, hyields⟩ := hprogresses
    cases hg.symm.trans hg'
    exact ⟨_, hyields⟩
  · obtain ⟨g', hg', n, -, hyields⟩ := hprogresses
    cases hg.symm.trans hg'
    exact ⟨_, hyields⟩
  · cases hg
    exact ⟨_, yields_set items (Nat.zero_le _)⟩

end

/-! ## What the closure returns of them -/

/-- Calls of the same closure return the same, as long as both are made. -/
theorem Closure.Returns.agree {c : Closure} {rs rs' : List (Option GlobResult)}
    (h : c.Returns rs) (h' : c.Returns rs') (hle : rs.length ≤ rs'.length) : rs <+: rs' := by
  induction h generalizing rs' with
  | nil => exact List.nil_prefix
  | cons hcall _ ih =>
    cases h' with
    | nil => cases hle
    | cons hcall' hrest' =>
      cases exits_unique hcall hcall'
      exact List.cons_prefix_cons.2 ⟨rfl, ih hrest' (Nat.le_of_succ_le_succ hle)⟩

/-- The closure for components that each yield a finite sequence returns finitely many results. -/
theorem finitelyMany_of_yields {gs : List Gen} (h : ∀ g ∈ gs, ∃ xs, g.Yields xs) :
    FinitelyMany gs := by
  by_cases hne : gs = []
  · subst hne
    refine ⟨0, fun rs hrs => ?_⟩
    cases rs with
    | nil => exact Nat.le_refl 0
    | cons r rs =>
      -- a call of the closure without components faults
      cases hrs with
      | cons hcall _ => cases exits_unique hcall (exits_of_exit rfl)
  · obtain ⟨xss, hxss⟩ := exists_forall₂ h
    refine ⟨(choices xss).length, fun rs hrs => ?_⟩
    by_contra hlt
    rw [Nat.not_le] at hlt
    have hreturns := returns_choices hne hxss (rs.length - (choices xss).length)
    have hlength : (rs.map some).length = ((choices xss).map (some ∘ choiceResult gs) ++
        List.replicate (rs.length - (choices xss).length) none).length := by
      simp only [List.length_append, List.length_map, List.length_replicate]
      omega
    -- behind the choices there is only none
    have hall := (hrs.agree hreturns hlength.le).eq_of_length hlength
    have hnone : none ∈ rs.map some := by
      rw [hall]
      exact List.mem_append_right _ (List.mem_replicate.2 ⟨by omega, rfl⟩)
    obtain ⟨r, -, hr⟩ := List.mem_map.1 hnone
    cases hr

theorem components_eq {pattern : List Char} {vs : List Component}
    (h : globRule.parseAll pattern = .ok vs) : components pattern = vs := by
  rw [components, h]
  rfl

/-- The generators of an accepted pattern are those of its components, one by one. -/
theorem forall₂_components {pattern : List Char} {gs : List Gen}
    (h : makeGlobGenerator pattern = .ok gs) :
    List.Forall₂ (fun v g => makeGen v = .ok g) (components pattern) gs := by
  rw [makeGlobGenerator] at h
  cases hparse : globRule.parseAll pattern with
  | error e =>
    rw [hparse] at h
    cases h
  | ok vs =>
    rw [hparse] at h
    rw [components_eq hparse]
    exact mapM_ok.1 h

/-- A component of a pattern is read somewhere in it. -/
theorem exists_componentRule {pattern : List Char} {v : Component} (h : v ∈ components pattern) :
    ∃ it rest, componentRule it = .ok (v, rest) := by
  cases hparse : globRule.parseAll pattern with
  | error e =>
    rw [components, hparse] at h
    cases h
  | ok vs =>
    have hloop : rangeLoop componentRule pattern.length pattern = (vs, []) :=
      Except.ok.inj (parseAll_ok hparse)
    refine @mem_rangeLoop _ pattern componentRule pattern.length v ?_
    rw [hloop, ← components_eq hparse]
    exact h

/-- For every accepted pattern, every range in it yields what it stands for and the pattern returns
finitely many URLs if and only if every range in it fits. -/
theorem ranges_progress_iff {pattern : List Char} {gs : List Gen}
    (h : makeGlobGenerator pattern = .ok gs) :
    ((∀ v ∈ components pattern, RangeProgresses v) ∧ FinitelyMany gs) ↔
      ∀ v ∈ components pattern, RangeFits v := by
  have hgens := forall₂_components h
  have hranges : (∀ v ∈ components pattern, RangeProgresses v) ↔
      ∀ v ∈ components pattern, RangeFits v := by
    refine forall₂_congr fun v hv => ?_
    obtain ⟨it, rest, hread⟩ := exists_componentRule hv
    obtain ⟨g, -, hg⟩ := exists_of_forall₂ hgens hv
    exact rangeProgresses_iff hread hg
  rw [hranges, and_iff_left_of_imp]
  intro hfits
  refine finitelyMany_of_yields fun g hg => ?_
  obtain ⟨v, hv, hmade⟩ := exists_of_forall₂ hgens.flip hg
  exact exists_yields hmade (hranges.2 hfits v hv)

/-- The pattern `[08-12:2]-[a-c]` has two ranges that fit. -/
theorem numberLetter_progress :
    ∃ gs, makeGlobGenerator "[08-12:2]-[a-c]".toList = .ok gs ∧
      (∀ v ∈ components "[08-12:2]-[a-c]".toList, RangeProgresses v) ∧ FinitelyMany gs := by
  have hmade : makeGlobGenerator "[08-12:2]-[a-c]".toList = .ok
      [.range 2 8 12 2, .static (some "-".toList), .char 97 99 1] := by decide +kernel
  have hcomponents : components "[08-12:2]-[a-c]".toList =
      [.inr (.inl ("08".toList, 12, some 2)), .inl "-".toList,
        .inr (.inr (.inl ('a', 'c', none)))] := by decide +kernel
  refine ⟨_, hmade, (ranges_progress_iff hmade).2 ?_⟩
  rw [hcomponents]
  decide

/-- The generator of `[1-2:0]` returns 1 for ever, that of `[a-b:40]` goes on with a negative
`char`, and that of a range whose first number has 256 digits pads to none. -/
theorem zeroStep_not_progress :
    (∃ gs, makeGlobGenerator "[1-2:0]".toList = .ok gs ∧ ¬ FinitelyMany gs) ∧
    (∃ v, components "[a-b:40]".toList = [v] ∧ ¬ RangeProgresses v) ∧
    ∃ v, components ('[' :: List.replicate 255 '0' ++ "1-2]".toList) = [v] ∧
      ¬ RangeProgresses v := by
  refine ⟨⟨[.range 1 1 2 0], by decide +kernel, ?_⟩, ?_, ?_⟩
  · rintro ⟨N, hN⟩
    have hreturns : ∀ n, (globClosure [.range 1 1 2 0]).Returns
        ((List.replicate n ⟨['1'], [['1']]⟩).map some) := by
      intro n
      induction n with
      | zero => exact .nil
      | succ n ih => exact .cons (exits_of_exit rfl) ih
    have hle := hN _ (hreturns (N + 1))
    rw [List.length_replicate] at hle
    omega
  · refine ⟨.inr (.inr (.inl ('a', 'b', some 40))), by decide +kernel, ?_⟩
    have hread : componentRule "[a-b:40]".toList =
        .ok (.inr (.inr (.inl ('a', 'b', some 40))), []) := by decide +kernel
    rw [rangeProgresses_iff hread rfl]
    decide
  · refine ⟨.inr (.inl (List.replicate 255 '0' ++ ['1'], 2, none)), by decide +kernel, ?_⟩
    have hread : componentRule ('[' :: List.replicate 255 '0' ++ "1-2]".toList) =
        .ok (.inr (.inl (List.replicate 255 '0' ++ ['1'], 2, none)), []) := by decide +kernel
    rw [rangeProgresses_iff hread (g := .range 0 1 2 1) (by decide +kernel)]
    decide +kernel

end Beast2.Burl
