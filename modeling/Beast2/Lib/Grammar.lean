import Mathlib.Data.List.Forall2
import Mathlib.Data.List.TakeWhile
import Mathlib.Tactic.IntervalCases

/-!
# Parsing rules over character ranges

A rule reads a value from the front of a range and leaves the iterator behind what it took. A range
is the list of its characters, and an iterator into it the list of the characters from it to the
end. A rule is tried at an iterator (`Rule`) or on a whole text, which it then has to consume
(`Rule.parseAll`); the second form works on a copy of the caller's iterator.
-/

namespace Grammar

/-- The error codes of a grammar rule. -/
inductive Error where
  | invalid
  | leftover
  | mismatch
  | needMore
  | outOfRange
  | syntaxError
deriving DecidableEq, Repr

/-- A rule: the value it reads at the front of a range, and the range after it. -/
abbrev Rule (α : Type) := List Char → Except Error (α × List Char)

/-- Parse a whole text: a rule that leaves something fails with `leftover`. -/
def Rule.parseAll {α : Type} (r : Rule α) (s : List Char) : Except Error α :=
  match r s with
  | .error e => .error e
  | .ok (a, []) => .ok a
  | .ok (_, _ :: _) => .error .leftover

/-- A non-empty run of characters of a set. -/
def tokenRule (cs : Char → Bool) : Rule (List Char)
  | [] => .error .needMore
  | c :: it =>
    if cs c then .ok ((c :: it).takeWhile cs, (c :: it).dropWhile cs) else .error .mismatch

/-- One character of a set. -/
def delimRule (cs : Char → Bool) : Rule Char
  | [] => .error .needMore
  | c :: it => if cs c then .ok (c, it) else .error .mismatch

/-- A fixed text. -/
def literalRule (s : List Char) : Rule (List Char) := fun it =>
  if s.isPrefixOf it then .ok (s, it.drop s.length)
  else if it.isPrefixOf s then .error .needMore
  else .error .mismatch

/-- The first of two rules, or the second where the first fails. -/
def variantRule {α β : Type} (r : Rule α) (s : Rule β) : Rule (α ⊕ β) := fun it =>
  match r it with
  | .ok (a, rest) => .ok (.inl a, rest)
  | .error _ =>
    match s it with
    | .ok (b, rest) => .ok (.inr b, rest)
    | .error _ => .error .mismatch

/-- The first of several rules that does not fail, with its index. -/
def variantsRule {α : Type} : List (Rule α) → Rule (Nat × α)
  | [], _ => .error .mismatch
  | r :: rs, it =>
    match r it with
    | .ok (a, rest) => .ok ((0, a), rest)
    | .error _ =>
      match variantsRule rs it with
      | .ok ((i, a), rest) => .ok ((i + 1, a), rest)
      | .error e => .error e

/-- A decimal number up to `max`, without leading zeros. -/
def unsignedRule (max : Nat) : Rule Nat
  | [] => .error .mismatch
  | c :: it =>
    if c == '0' then
      match it with
      | d :: _ => if d.isDigit then .error .invalid else .ok (0, it)
      | [] => .ok (0, it)
    else if c.isDigit then
      let n := Nat.ofDigitChars 10 ((c :: it).takeWhile Char.isDigit) 0
      if n ≤ max then .ok (n, (c :: it).dropWhile Char.isDigit) else .error .invalid
    else .error .mismatch

/-- A rule or nothing: where the rule fails, the iterator stays. -/
def optionalRule {α : Type} (r : Rule α) : Rule (Option α)
  | [] => .ok (none, [])
  | it =>
    match r it with
    | .ok (a, rest) => .ok (some a, rest)
    | .error _ => .ok (none, it)

/-- At most `n` times a rule, one after the other, until it fails. -/
def rangeLoop {α : Type} (r : Rule α) : Nat → List Char → List α × List Char
  | 0, it => ([], it)
  | n + 1, it =>
    match r it with
    | .error _ => ([], it)
    | .ok (a, rest) => (a :: (rangeLoop r n rest).1, (rangeLoop r n rest).2)

/-- Any number of times a rule that takes at least one character. -/
def rangeRule {α : Type} (r : Rule α) : Rule (List α) := fun it => .ok (rangeLoop r it.length it)

/-- Equality of two texts up to the case of ASCII letters. -/
def ciIsEqual (s t : List Char) : Bool := s.map Char.toLower == t.map Char.toLower

/-! ## What the rules take -/

/-- The decimal digits of a positive number do not start with a zero. -/
theorem toDigits_head_ne_zero {n : Nat} (hn : 0 < n) {c : Char} {ds : List Char}
    (h : Nat.toDigits 10 n = c :: ds) : c ≠ '0' := by
  induction n using Nat.base_induction 10 (by omega) generalizing ds with
  | single m hm =>
    rw [Nat.toDigits_of_lt_base hm] at h
    cases h
    interval_cases m <;> decide
  | digit m k hk hm ih =>
    rw [← Nat.toDigits_append_toDigits (by omega) hm hk] at h
    cases hd : Nat.toDigits 10 m with
    | nil => exact absurd hd Nat.toDigits_ne_nil
    | cons d es =>
      rw [hd] at h
      cases h
      exact ih hm hd

section

variable {α : Type} {cs : Char → Bool} {it rest : List Char}

/-- The characters a rule for a set stops at: the next one is not of the set. -/
def StopsAt (cs : Char → Bool) (rest : List Char) : Prop := ∀ c ∈ rest.head?, cs c = false

/-- What is left of a text behind a run of characters stops at the next one. -/
theorem stopsAt_dropWhile (t : List Char) : StopsAt cs (t.dropWhile cs) := by
  intro c hc
  have hhead := List.head?_dropWhile_not cs t
  rw [Option.mem_def.1 hc] at hhead
  exact hhead

/-- A token stops where its characters do. -/
theorem takeWhile_append_of_stopsAt {t : List Char} (ht : ∀ c ∈ t, cs c = true)
    (hrest : StopsAt cs rest) : (t ++ rest).takeWhile cs = t := by
  rw [List.takeWhile_append_of_pos ht]
  cases rest with
  | nil => simp
  | cons c rest => simp [hrest c rfl]

theorem dropWhile_append_of_stopsAt {t : List Char} (ht : ∀ c ∈ t, cs c = true)
    (hrest : StopsAt cs rest) : (t ++ rest).dropWhile cs = rest := by
  rw [List.dropWhile_append_of_pos ht]
  cases rest with
  | nil => rfl
  | cons c rest => simp [hrest c rfl]

/-- A token is what the rule reads in front of a character that is not of its set. -/
theorem tokenRule_append {t : List Char} (hne : t ≠ []) (ht : ∀ c ∈ t, cs c = true)
    (hrest : StopsAt cs rest) : tokenRule cs (t ++ rest) = .ok (t, rest) := by
  have htake := takeWhile_append_of_stopsAt ht hrest
  have hdrop := dropWhile_append_of_stopsAt ht hrest
  cases t with
  | nil => exact absurd rfl hne
  | cons c t =>
    rw [List.cons_append] at htake hdrop ⊢
    simp only [tokenRule, ht c List.mem_cons_self, if_true, htake, hdrop]

/-- A token that is read is not empty and has characters of its set only. -/
theorem tokenRule_ok {t : List Char} (h : tokenRule cs it = .ok (t, rest)) :
    it = t ++ rest ∧ t ≠ [] ∧ ∀ c ∈ t, cs c = true := by
  cases it with
  | nil => cases h
  | cons c it =>
    rw [tokenRule] at h
    split at h
    · next hc =>
      cases h
      refine ⟨List.takeWhile_append_dropWhile.symm, ?_, ?_⟩
      · simp [hc]
      · exact fun d hd => List.mem_takeWhile_imp hd
    · cases h

/-- A sequence of rules succeeds if both its parts do. -/
theorem bind_ok {ε γ δ : Type} {x : Except ε γ} {f : γ → Except ε δ} {b : δ} :
    x >>= f = .ok b ↔ ∃ a, x = .ok a ∧ f a = .ok b := by
  cases x with
  | error e => simp [bind, Except.bind]
  | ok a => simp [bind, Except.bind]

/-- A sequence of calls for the elements of a list succeeds if every call does. -/
theorem mapM_ok {ε γ δ : Type} {f : γ → Except ε δ} {l : List γ} {r : List δ} :
    l.mapM f = .ok r ↔ List.Forall₂ (fun a b => f a = .ok b) l r := by
  induction l generalizing r with
  | nil =>
    rw [List.forall₂_nil_left_iff]
    exact ⟨fun h => (Except.ok.inj h).symm, fun h => congrArg Except.ok h.symm⟩
  | cons a l ih =>
    rw [List.forall₂_cons_left_iff]
    simp only [List.mapM_cons, bind_ok, ih]
    constructor
    · rintro ⟨b, hb, bs, hbs, h⟩
      cases h
      exact ⟨b, bs, hb, hbs, rfl⟩
    · rintro ⟨b, bs, hb, hbs, rfl⟩
      exact ⟨b, hb, bs, hbs, rfl⟩

/-- A sequence of calls fails with the error of one of them. -/
theorem mapM_error {ε γ δ : Type} {f : γ → Except ε δ} {l : List γ} {e : ε}
    (h : l.mapM f = .error e) : ∃ a ∈ l, f a = .error e := by
  induction l with
  | nil => cases h
  | cons a l ih =>
    rw [List.mapM_cons] at h
    cases ha : f a with
    | error e' =>
      rw [ha] at h
      cases h
      exact ⟨a, List.mem_cons_self, ha⟩
    | ok b =>
      rw [ha] at h
      cases hl : l.mapM f with
      | error e' =>
        rw [hl] at h
        cases h
        obtain ⟨x, hx, hfx⟩ := ih hl
        exact ⟨x, List.mem_cons_of_mem a hx, hfx⟩
      | ok bs =>
        rw [hl] at h
        cases h

/-- Partners of the elements of a list make a list of partners. -/
theorem exists_forall₂ {γ δ : Type} {R : γ → δ → Prop} {l : List γ} (h : ∀ a ∈ l, ∃ b, R a b) :
    ∃ r, List.Forall₂ R l r := by
  induction l with
  | nil => exact ⟨[], .nil⟩
  | cons a l ih =>
    obtain ⟨ha, hl⟩ := List.forall_mem_cons.1 h
    obtain ⟨b, hb⟩ := ha
    obtain ⟨bs, hbs⟩ := ih hl
    exact ⟨b :: bs, .cons hb hbs⟩

/-- What stands in the first of two lists related position by position has a partner in the
second. -/
theorem exists_of_forall₂ {γ δ : Type} {R : γ → δ → Prop} {l : List γ} {r : List δ}
    (h : List.Forall₂ R l r) {a : γ} (ha : a ∈ l) : ∃ b ∈ r, R a b := by
  induction h with
  | nil => cases ha
  | cons hab _ ih =>
    rcases List.mem_cons.1 ha with rfl | ha
    · exact ⟨_, List.mem_cons_self, hab⟩
    · obtain ⟨b, hb, hR⟩ := ih ha
      exact ⟨b, List.mem_cons_of_mem _ hb, hR⟩

/-- A whole text is parsed if the rule takes all of it. -/
theorem parseAll_ok {r : Rule α} {a : α} (h : r.parseAll it = .ok a) : r it = .ok (a, []) := by
  rw [Rule.parseAll] at h
  split at h
  · cases h
  · next hr =>
    cases h
    exact hr
  · cases h

/-- A delimiter that is read is the first character. -/
theorem delimRule_ok {c : Char} (h : delimRule cs it = .ok (c, rest)) : it = c :: rest := by
  cases it with
  | nil => cases h
  | cons d it =>
    rw [delimRule] at h
    split at h
    · cases h
      rfl
    · cases h

/-- And it is of the set. -/
theorem delimRule_mem {c : Char} (h : delimRule cs it = .ok (c, rest)) : cs c = true := by
  cases it with
  | nil => cases h
  | cons d it =>
    rw [delimRule] at h
    split at h
    · next hd =>
      cases h
      exact hd
    · cases h

/-- A delimiter of one character is that one. -/
theorem delimRule_eq {c d : Char} (h : delimRule (· == d) it = .ok (c, rest)) : it = d :: rest := by
  have hc := delimRule_mem h
  rw [delimRule_ok h, beq_iff_eq.1 hc]

theorem literalRule_append (s rest : List Char) : literalRule s (s ++ rest) = .ok (s, rest) := by
  simp [literalRule]

/-- A fixed text that is read stands at the front. -/
theorem literalRule_ok {s t : List Char} (h : literalRule s it = .ok (t, rest)) :
    it = s ++ rest := by
  rw [literalRule] at h
  split at h
  · next hp =>
    cases h
    obtain ⟨u, rfl⟩ := List.isPrefixOf_iff_prefix.1 hp
    simp
  · split at h <;> cases h

/-- A fixed text is refused at its first character. -/
theorem literalRule_of_ne {c d : Char} (h : c ≠ d) (s it : List Char) :
    literalRule (c :: s) (d :: it) = .error .mismatch := by
  simp [literalRule, h, h.symm]

/-- A rule or nothing reads what the rule reads. -/
theorem optionalRule_of_ok {r : Rule α} {a : α} (hne : it ≠ []) (h : r it = .ok (a, rest)) :
    optionalRule r it = .ok (some a, rest) := by
  cases it with
  | nil => exact absurd rfl hne
  | cons c it => simp [optionalRule, h]

/-- A rule or nothing reads nothing where the rule fails. -/
theorem optionalRule_of_error {r : Rule α} {e : Error} (h : r it = .error e) :
    optionalRule r it = .ok (none, it) := by
  cases it with
  | nil => rfl
  | cons c it => simp [optionalRule, h]

/-- An optional token is what the rule reads in front of a character that is not of its set. -/
theorem optionalRule_tokenRule_append {o : Option (List Char)}
    (ho : ∀ t, o = some t → t ≠ [] ∧ ∀ c ∈ t, cs c = true) (hrest : StopsAt cs rest) :
    optionalRule (tokenRule cs) (o.getD [] ++ rest) = .ok (o, rest) := by
  cases o with
  | none =>
    cases rest with
    | nil => rfl
    | cons c rest =>
      have hc : cs c = false := hrest c rfl
      simp [optionalRule, tokenRule, hc]
  | some t =>
    obtain ⟨hne, ht⟩ := ho t rfl
    have hne' : t ++ rest ≠ [] := by simp [hne]
    exact optionalRule_of_ok hne' (tokenRule_append hne ht hrest)

/-- A rule or nothing reads nothing or what the rule reads. -/
theorem optionalRule_ok {r : Rule α} {o : Option α} (h : optionalRule r it = .ok (o, rest)) :
    o = none ∧ rest = it ∨ ∃ a, o = some a ∧ r it = .ok (a, rest) := by
  cases it with
  | nil =>
    cases h
    exact .inl ⟨rfl, rfl⟩
  | cons c it =>
    simp only [optionalRule] at h
    split at h
    · next a s hr =>
      cases h
      exact .inr ⟨a, rfl, hr⟩
    · cases h
      exact .inl ⟨rfl, rfl⟩

/-- One of two rules reads what the first or the second reads. -/
theorem variantRule_ok {β : Type} {r : Rule α} {s : Rule β} {v : α ⊕ β}
    (h : variantRule r s it = .ok (v, rest)) :
    (∃ a, v = .inl a ∧ r it = .ok (a, rest)) ∨ ∃ b, v = .inr b ∧ s it = .ok (b, rest) := by
  rw [variantRule] at h
  split at h
  · next a t hr =>
    cases h
    exact .inl ⟨a, rfl, hr⟩
  · split at h
    · next b t hs =>
      cases h
      exact .inr ⟨b, rfl, hs⟩
    · cases h

/-- What a rule reads again and again, it reads at some place. -/
theorem mem_rangeLoop {r : Rule α} {n : Nat} {a : α} (h : a ∈ (rangeLoop r n it).1) :
    ∃ i s, r i = .ok (a, s) := by
  induction n generalizing it with
  | zero => cases h
  | succ n ih =>
    rw [rangeLoop] at h
    split at h
    · cases h
    · next b t hr =>
      rcases List.mem_cons.1 h with rfl | h
      · exact ⟨it, t, hr⟩
      · exact ih h

/-- A rule takes a text piece by piece, and each time something of it. -/
inductive Reads (r : Rule α) : List Char → List α → Prop
  | nil {e : Error} (stops : r [] = .error e) : Reads r [] []
  | cons {it rest : List Char} {a : α} {l : List α} (head : r it = .ok (a, rest))
      (shorter : rest.length < it.length) (tail : Reads r rest l) : Reads r it (a :: l)

theorem Reads.rangeLoop {r : Rule α} {l : List α} (h : Reads r it l) :
    ∀ {n : Nat}, it.length ≤ n → rangeLoop r n it = (l, []) := by
  induction h with
  | nil stops =>
    intro n _
    cases n with
    | zero => rfl
    | succ n => rw [Grammar.rangeLoop, stops]
  | @cons it rest a l head shorter _ ih =>
    intro n hn
    cases n with
    | zero => exact absurd shorter (by omega)
    | succ n =>
      rw [Grammar.rangeLoop, head]
      simp only [ih (n := n) (by omega)]

/-- A text that is taken piece by piece is parsed. -/
theorem Reads.parseAll {r : Rule α} {l : List α} (h : Reads r it l) :
    (rangeRule r).parseAll it = .ok l := by
  rw [Rule.parseAll, rangeRule, h.rangeLoop (Nat.le_refl _)]

/-- However often a rule is tried, something of the text is left. -/
def Jams (r : Rule α) (it : List Char) : Prop := ∀ n, (rangeLoop r n it).2 ≠ []

theorem Jams.of_error {r : Rule α} {e : Error} (hne : it ≠ []) (h : r it = .error e) :
    Jams r it := by
  intro n
  cases n with
  | zero => exact hne
  | succ n =>
    rw [rangeLoop, h]
    exact hne

theorem Jams.of_ok {r : Rule α} {a : α} (hne : it ≠ []) (h : r it = .ok (a, rest))
    (hrest : Jams r rest) : Jams r it := by
  intro n
  cases n with
  | zero => exact hne
  | succ n =>
    rw [rangeLoop, h]
    exact hrest n

/-- A text of which something is left is not parsed. -/
theorem Jams.parseAll {r : Rule α} (h : Jams r it) :
    (rangeRule r).parseAll it = .error .leftover := by
  have hleft := h it.length
  rw [Rule.parseAll, rangeRule]
  cases hloop : rangeLoop r it.length it with
  | mk l rest =>
    rw [hloop] at hleft
    cases rest with
    | nil => exact absurd rfl hleft
    | cons c rest => rfl

/-- A number is read back from its decimal digits. -/
theorem unsignedRule_append {max n : Nat} (hn : n ≤ max) (hrest : StopsAt Char.isDigit rest) :
    unsignedRule max (Nat.toDigits 10 n ++ rest) = .ok (n, rest) := by
  have hdigits : ∀ c ∈ Nat.toDigits 10 n, c.isDigit = true := fun c hc =>
    Nat.isDigit_of_mem_toDigits (by omega) (by omega) hc
  have htake := takeWhile_append_of_stopsAt hdigits hrest
  have hdrop := dropWhile_append_of_stopsAt hdigits hrest
  rcases Nat.eq_zero_or_pos n with rfl | hpos
  · cases rest with
    | nil => rfl
    | cons c rest => simp [unsignedRule, hrest c rfl]
  · cases hd : Nat.toDigits 10 n with
    | nil => exact absurd hd Nat.toDigits_ne_nil
    | cons c ds =>
      have hc : c ≠ '0' := toDigits_head_ne_zero hpos hd
      have hval : Nat.ofDigitChars 10 (c :: ds) 0 = n := by
        rw [← hd]
        exact Nat.ofDigitChars_ten_toDigits
      rw [hd, List.cons_append] at htake hdrop
      rw [hd] at hdigits
      simp [unsignedRule, hc, hdigits c List.mem_cons_self, htake, hdrop, hval, hn]

/-- A number that is read is in range. -/
theorem unsignedRule_ok {max n : Nat} (h : unsignedRule max it = .ok (n, rest)) :
    n ≤ max ∧ rest <:+ it := by
  cases it with
  | nil => cases h
  | cons c it =>
    simp only [unsignedRule] at h
    split at h
    · split at h
      · split at h
        · cases h
        · cases h
          exact ⟨Nat.zero_le _, List.suffix_cons _ _⟩
      · cases h
        exact ⟨Nat.zero_le _, List.suffix_cons _ _⟩
    · split at h
      · split at h
        · next hle =>
          cases h
          exact ⟨hle, List.dropWhile_suffix _⟩
        · cases h
      · cases h

end

end Grammar
