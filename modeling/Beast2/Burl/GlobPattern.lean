import Beast2.Lib.Grammar
import Beast2.Burl.Numbers
import Beast2.Burl.GlobProduct

/-!
# URL patterns and output names

`make_glob_generator` reads a URL pattern with a grammar and makes a generator of each component,
and `glob_result::interpolate` puts the tokens of a result into the name of an output file, where
`#1` stands for the first token, `#2` for the second (`glob.cpp`). An accepted pattern that is not
empty has at least one component (`ne_nil_of_makeGlobGenerator`). A name is what a reader of its
characters one by one makes of it exactly if every number in it fits in an `unsigned long`, since
`std::stoul` throws on any other (`interpolatesAsMeant_iff`).
-/

namespace Beast2.Burl

open Grammar

/-! ## Patterns -/

/-- `static_rule`. Reference: `glob.cpp:93`. -/
def staticRule : Rule (List Char) := tokenRule fun c => c != '\x7b' && c != '['

/-- A step behind a colon. Reference: `glob.cpp:101-104, 112-115`. -/
def stepRule (max : Nat) : Rule Nat := fun it => do
  let (_, it) ← delimRule (· == ':') it
  unsignedRule max it

/-- `num_range_rule`: the digits of the first number, the last number and the step. Reference:
`glob.cpp:96`. -/
def numRangeRule : Rule (List Char × Nat × Option Nat) := fun it => do
  let (_, it) ← delimRule (· == '[') it
  let (low, it) ← tokenRule Char.isDigit it
  let (_, it) ← delimRule (· == '-') it
  let (high, it) ← unsignedRule 0xFFFFFFFFFFFFFFFF it
  let (step, it) ← optionalRule (stepRule 0xFFFFFFFFFFFFFFFF) it
  let (_, it) ← delimRule (· == ']') it
  .ok ((low, high, step), it)

/-- `char_range_rule`. Reference: `glob.cpp:107`. -/
def charRangeRule : Rule (Char × Char × Option Nat) := fun it => do
  let (_, it) ← delimRule (· == '[') it
  let (low, it) ← delimRule Char.isAlpha it
  let (_, it) ← delimRule (· == '-') it
  let (high, it) ← delimRule Char.isAlpha it
  let (step, it) ← optionalRule (stepRule 0xFF) it
  let (_, it) ← delimRule (· == ']') it
  .ok ((low, high, step), it)

/-- An item of a set. Reference: `glob.cpp:121-125`. -/
def setItemRule : Rule (List Char) := fun it => do
  let (item, it) ← tokenRule (fun c => c != ',' && c != '\x7d') it
  let (_, it) ← optionalRule (delimRule (· == ',')) it
  .ok (item, it)

/-- `set_rule`. Reference: `glob.cpp:118`. -/
def setRule : Rule (List (List Char)) := fun it => do
  let (_, it) ← delimRule (· == '\x7b') it
  let (items, it) ← rangeRule setItemRule it
  let (_, it) ← delimRule (· == '\x7d') it
  .ok (items, it)

/-- A component of a pattern as it is read. -/
abbrev Component :=
  List Char ⊕ (List Char × Nat × Option Nat) ⊕ (Char × Char × Option Nat) ⊕ List (List Char)

/-- A component. Reference: `glob.cpp:129-130`. -/
def componentRule : Rule Component :=
  variantRule staticRule (variantRule numRangeRule (variantRule charRangeRule setRule))

/-- `glob_rule`. Reference: `glob.cpp:128`. -/
def globRule : Rule (List Component) := rangeRule componentRule

/-- `std::stoull`; `unsigned long long` has the range of `unsigned long`. -/
def stoull (t : List Char) : Except Thrown Nat := stoul t

/-- The generator of a component. Reference: `glob.cpp:141-173`. -/
def makeGen : Component → Except Thrown Gen
  | .inl s => .ok (makeStaticGen s)
  | .inr (.inl (low, high, step)) => do
    let n ← stoull low
    .ok (makeRangeGen (BitVec.ofNat 8 low.length) (BitVec.ofNat 64 n) (BitVec.ofNat 64 high)
      (BitVec.ofNat 64 (step.getD 1)))
  | .inr (.inr (.inl (low, high, step))) =>
    .ok (makeCharGen (BitVec.ofNat 8 low.toNat) (BitVec.ofNat 8 high.toNat)
      (BitVec.ofNat 8 (step.getD 1)))
  | .inr (.inr (.inr items)) => .ok (makeSetGen items)

/-- `make_glob_generator`: the components that its closure starts with. Reference: `glob.cpp:91`. -/
def makeGlobGenerator (pattern : List Char) : Except Thrown (List Gen) :=
  match globRule.parseAll pattern with
  | .error _ => .error (.runtimeError "Bad URL pattern")
  | .ok vs => vs.mapM makeGen

/-- A range without elements has taken nothing. -/
theorem rangeLoop_eq_nil {α : Type} {r : Rule α} {n : Nat} {it : List Char}
    (h : (rangeLoop r n it).1 = []) : (rangeLoop r n it).2 = it := by
  cases n with
  | zero => rfl
  | succ n =>
    rw [rangeLoop] at h ⊢
    cases hr : r it with
    | error e => rfl
    | ok p =>
      rw [hr] at h
      cases h

/-- An accepted pattern that is not empty has a component. -/
theorem ne_nil_of_makeGlobGenerator {pattern : List Char} {gs : List Gen} (hne : pattern ≠ [])
    (h : makeGlobGenerator pattern = .ok gs) : gs ≠ [] := by
  rw [makeGlobGenerator] at h
  cases hparse : globRule.parseAll pattern with
  | error e =>
    rw [hparse] at h
    cases h
  | ok vs =>
    rw [hparse] at h
    have hloop : rangeLoop componentRule pattern.length pattern = (vs, []) :=
      Except.ok.inj (parseAll_ok hparse)
    cases vs with
    | nil =>
      have hrest := rangeLoop_eq_nil (congrArg Prod.fst hloop)
      rw [hloop] at hrest
      exact absurd hrest.symm hne
    | cons v vs =>
      rintro rfl
      simp only [List.mapM_cons, bind_ok] at h
      obtain ⟨g, -, gs, -, h⟩ := h
      cases h

/-- The pattern of a set and a range. -/
example : makeGlobGenerator "/\x7ba,b\x7d-[1-2]".toList = .ok letterNumber := by decide +kernel

/-! ## Output names -/

/-- A piece of an output name as it is read: text, a `#` with a number, or a `#`. -/
abbrev OutputPiece := List Char ⊕ List Char ⊕ Char

/-- A `#` with a number. Reference: `glob.cpp:221-223`. -/
def numberRule : Rule (List Char) := fun it => do
  let (_, it) ← delimRule (· == '#') it
  tokenRule Char.isDigit it

/-- A piece. Reference: `glob.cpp:218-224`. -/
def pieceRule : Rule OutputPiece :=
  variantRule (tokenRule (· != '#')) (variantRule numberRule (delimRule (· == '#')))

/-- What `interpolate` throws: an error of the grammar, by `value()`, or what `std::stoul` does. -/
inductive InterpolateThrown where
  | value (e : Grammar.Error)
  | thrown (e : Thrown)
deriving DecidableEq, Repr

/-- `tokens[stoul(..) - 1]`, if that is in range. The index of `#0` wraps round to the largest
number, which is past the end of every vector. Reference: `glob.cpp:240-241`. -/
def tokenAt (tokens : List (List Char)) : Nat → Option (List Char)
  | 0 => none
  | n + 1 => tokens[n]?

/-- The text of a piece. Reference: `glob.cpp:231-257`. -/
def pieceText (tokens : List (List Char)) : OutputPiece → Except InterpolateThrown (List Char)
  | .inl s => .ok s
  | .inr (.inl ds) =>
    match stoul ds with
    | .error e => .error (.thrown e)
    | .ok n =>
      match tokenAt tokens n with
      | some token => .ok token
      | none => .ok ('#' :: ds)
  | .inr (.inr _) => .ok ['#']

/-- `glob_result::interpolate`. Reference: `glob.cpp:216`. -/
def interpolate (tokens : List (List Char)) (format : List Char) :
    Except InterpolateThrown (List Char) :=
  match (rangeRule pieceRule).parseAll format with
  | .error e => .error (.value e)
  | .ok vs => do
    let rs ← vs.mapM (pieceText tokens)
    .ok rs.flatten

/-- What a `#` and the digits behind it stand for: the token of that number, counted from one, or
themselves. -/
def numberText (tokens : List (List Char)) (ds : List Char) : List Char :=
  if 1 ≤ Nat.ofDigitChars 10 ds 0 then
    (tokens[Nat.ofDigitChars 10 ds 0 - 1]?).getD ('#' :: ds)
  else '#' :: ds

/-- An output name with its numbers replaced, read one character after the other. The digits behind
a `#` are collected first. -/
def expand (tokens : List (List Char)) : Option (List Char) → List Char → List Char
  | none, [] => []
  | some ds, [] => numberText tokens ds
  | none, c :: t => if c = '#' then expand tokens (some []) t else c :: expand tokens none t
  | some ds, c :: t =>
    if c.isDigit then expand tokens (some (ds ++ [c])) t
    else numberText tokens ds ++
      if c = '#' then expand tokens (some []) t else c :: expand tokens none t

/-- Every number behind a `#` fits in an `unsigned long`. -/
def HashesFit (format : List Char) : Prop :=
  ∀ pre ds t, format = pre ++ '#' :: (ds ++ t) → (∀ c ∈ ds, c.isDigit = true) →
    StopsAt Char.isDigit t → Nat.ofDigitChars 10 ds 0 < 0x10000000000000000

/-! ## The names are what a reader makes of them -/

section

variable {tokens : List (List Char)} {ds t format rest : List Char}

/-- The numbers of a text are those behind what has no `#` in it. -/
theorem hashesFit_append {s : List Char} (hs : '#' ∉ s) : HashesFit (s ++ t) ↔ HashesFit t := by
  constructor
  · intro h pre ds t' heq
    exact h (s ++ pre) ds t' (by rw [heq, List.append_assoc])
  · intro h pre ds t' heq
    rcases List.append_eq_append_iff.1 heq with ⟨pre', rfl, ht⟩ | ⟨s', rfl, hhash⟩
    · exact h pre' ds t' ht
    · cases s' with
      | nil => exact h [] ds t' hhash.symm
      | cons c s' =>
        obtain ⟨rfl, -⟩ := List.cons.inj hhash
        exact absurd (List.mem_append_right pre List.mem_cons_self) hs

/-- The numbers of a text that starts with one are that number and those behind it. -/
theorem hashesFit_hash (hds : ∀ c ∈ ds, c.isDigit = true) (hstop : StopsAt Char.isDigit t) :
    HashesFit ('#' :: (ds ++ t)) ↔
      Nat.ofDigitChars 10 ds 0 < 0x10000000000000000 ∧ HashesFit t := by
  have hhash : '#' ∉ ds := fun hmem => Bool.false_ne_true (hds '#' hmem)
  have happend : HashesFit (ds ++ t) ↔ HashesFit t := hashesFit_append hhash
  rw [← happend]
  constructor
  · intro h
    refine ⟨h [] ds t rfl hds hstop, fun pre es u heq => ?_⟩
    exact h ('#' :: pre) es u (by rw [heq, List.cons_append])
  · rintro ⟨hfit, h⟩ pre es u heq hes hu
    cases pre with
    | nil =>
      have heq' : ds ++ t = es ++ u := (List.cons.inj heq).2
      have hsame : ds = es := by
        rw [← takeWhile_append_of_stopsAt hds hstop, heq', takeWhile_append_of_stopsAt hes hu]
      rwa [← hsame]
    | cons c pre => exact h pre es u (List.cons.inj heq).2 hes hu

/-- Text without a `#` is copied. -/
theorem expand_text {s : List Char} (hs : ∀ c ∈ s, (c != '#') = true) :
    expand tokens none (s ++ t) = s ++ expand tokens none t := by
  induction s with
  | nil => rfl
  | cons c s ih =>
    obtain ⟨hc, hs⟩ := List.forall_mem_cons.1 hs
    rw [List.cons_append, expand, if_neg (bne_iff_ne.1 hc), ih hs, List.cons_append]

/-- The digits behind a `#` are collected and replaced. -/
theorem expand_digits {es : List Char} (hds : ∀ c ∈ ds, c.isDigit = true)
    (hstop : StopsAt Char.isDigit t) :
    expand tokens (some es) (ds ++ t) = numberText tokens (es ++ ds) ++ expand tokens none t := by
  induction ds generalizing es with
  | nil =>
    rw [List.nil_append, List.append_nil]
    cases t with
    | nil => rw [expand, expand, List.append_nil]
    | cons c t =>
      have hc : c.isDigit = false := hstop c rfl
      rw [expand, expand, hc, if_neg Bool.false_ne_true]
  | cons d ds ih =>
    obtain ⟨hd, hds⟩ := List.forall_mem_cons.1 hds
    rw [List.cons_append, expand, if_pos hd, ih hds, List.append_assoc, List.singleton_append]

/-- A number stands for its token if it fits, and throws if it does not. -/
theorem pieceText_number (hne : ds ≠ []) (hds : ∀ c ∈ ds, c.isDigit = true) {x : List Char} :
    pieceText tokens (.inr (.inl ds)) = .ok x ↔
      Nat.ofDigitChars 10 ds 0 < 0x10000000000000000 ∧ x = numberText tokens ds := by
  rw [pieceText, stoul_digits hds]
  by_cases hfit : Nat.ofDigitChars 10 ds 0 < 0x10000000000000000
  · have htext : numberText tokens ds =
        (tokenAt tokens (Nat.ofDigitChars 10 ds 0)).getD ('#' :: ds) := by
      rw [numberText]
      cases Nat.ofDigitChars 10 ds 0 with
      | zero => rfl
      | succ n => rw [if_pos (Nat.succ_le_succ (Nat.zero_le n)), tokenAt, Nat.add_sub_cancel]
    rw [if_neg (not_or.2 ⟨hne, Nat.not_le.2 hfit⟩), and_iff_right hfit, htext]
    dsimp only
    cases tokenAt tokens (Nat.ofDigitChars 10 ds 0) <;> simp [eq_comm]
  · rw [if_pos (.inr (Nat.not_lt.1 hfit))]
    simp [hfit]

/-- At a `#` in front of digits the number is read. -/
theorem pieceRule_number (hne : ds ≠ []) (hds : ∀ c ∈ ds, c.isDigit = true)
    (hstop : StopsAt Char.isDigit t) :
    pieceRule ('#' :: (ds ++ t)) = .ok (.inr (.inl ds), t) := by
  have htext : tokenRule (· != '#') ('#' :: (ds ++ t)) = .error .mismatch := rfl
  have hnumber : numberRule ('#' :: (ds ++ t)) = .ok (ds, t) := tokenRule_append hne hds hstop
  simp only [pieceRule, variantRule, htext, hnumber]

/-- At any other `#` it is read alone. -/
theorem pieceRule_hash (hstop : StopsAt Char.isDigit t) :
    pieceRule ('#' :: t) = .ok (.inr (.inr '#'), t) := by
  have htext : tokenRule (· != '#') ('#' :: t) = .error .mismatch := rfl
  have hnumber : ∃ e, numberRule ('#' :: t) = .error e := by
    show ∃ e, tokenRule Char.isDigit t = .error e
    cases t with
    | nil => exact ⟨_, rfl⟩
    | cons d t =>
      have hd : d.isDigit = false := hstop d rfl
      exact ⟨.mismatch, by rw [tokenRule, hd, if_neg Bool.false_ne_true]⟩
  obtain ⟨e, hnumber⟩ := hnumber
  have hhash : delimRule (· == '#') ('#' :: t) = .ok ('#', t) := rfl
  simp only [pieceRule, variantRule, htext, hnumber, hhash]

/-- At any other character the text up to the next `#` is read. -/
theorem pieceRule_text {s : List Char} (hne : s ≠ []) (hs : ∀ c ∈ s, (c != '#') = true)
    (hstop : StopsAt (· != '#') t) : pieceRule (s ++ t) = .ok (.inl s, t) := by
  simp only [pieceRule, variantRule, tokenRule_append hne hs hstop]

/-- A name that is not empty starts with a piece. It is read, and it has its text in the expansion
of the name exactly if its number fits. -/
theorem exists_piece (tokens : List (List Char)) (hne : format ≠ []) :
    ∃ v rest s, pieceRule format = .ok (v, rest) ∧ rest.length < format.length ∧
      expand tokens none format = s ++ expand tokens none rest ∧
      ∀ x, pieceText tokens v = .ok x ∧ HashesFit rest ↔ x = s ∧ HashesFit format := by
  obtain ⟨c, t, rfl⟩ := List.exists_cons_of_ne_nil hne
  by_cases hc : c = '#'
  · subst hc
    have hsplit : t = t.takeWhile Char.isDigit ++ t.dropWhile Char.isDigit :=
      List.takeWhile_append_dropWhile.symm
    have hds : ∀ c ∈ t.takeWhile Char.isDigit, c.isDigit = true := fun c hc =>
      List.mem_takeWhile_imp hc
    have hstop : StopsAt Char.isDigit (t.dropWhile Char.isDigit) := stopsAt_dropWhile t
    generalize t.takeWhile Char.isDigit = ds at hsplit hds
    generalize t.dropWhile Char.isDigit = rest at hsplit hstop
    subst hsplit
    have hlt : rest.length < ('#' :: (ds ++ rest)).length := by
      simp only [List.length_cons, List.length_append]
      omega
    have hexpand : expand tokens none ('#' :: (ds ++ rest)) =
        numberText tokens ds ++ expand tokens none rest := by
      rw [expand, if_pos rfl, expand_digits hds hstop, List.nil_append]
    by_cases hnil : ds = []
    · subst hnil
      refine ⟨.inr (.inr '#'), rest, ['#'], pieceRule_hash hstop, hlt, hexpand, fun x => ?_⟩
      have hzero : Nat.ofDigitChars 10 [] 0 < 0x10000000000000000 := by decide
      rw [hashesFit_hash hds hstop, and_iff_right hzero]
      simp [pieceText, eq_comm]
    · refine ⟨.inr (.inl ds), rest, numberText tokens ds, pieceRule_number hnil hds hstop, hlt,
        hexpand, fun x => ?_⟩
      rw [pieceText_number hnil hds, hashesFit_hash hds hstop, and_comm (b := x = _), and_assoc]
  · have hsplit : c :: t = (c :: t).takeWhile (· != '#') ++ (c :: t).dropWhile (· != '#') :=
      List.takeWhile_append_dropWhile.symm
    have hs : ∀ d ∈ (c :: t).takeWhile (· != '#'), (d != '#') = true := fun d hd =>
      List.mem_takeWhile_imp (p := (· != '#')) hd
    have hsne : (c :: t).takeWhile (· != '#') ≠ [] := by simp [hc]
    have hstop : StopsAt (· != '#') ((c :: t).dropWhile (· != '#')) := stopsAt_dropWhile _
    generalize (c :: t).takeWhile (· != '#') = s at hsplit hs hsne
    generalize (c :: t).dropWhile (· != '#') = rest at hsplit hstop
    have hhash : '#' ∉ s := fun hmem => bne_iff_ne.1 (hs '#' hmem) rfl
    rw [hsplit, hashesFit_append hhash]
    refine ⟨.inl s, rest, s, pieceRule_text hsne hs hstop, ?_, expand_text hs, fun x => ?_⟩
    · have hpos := List.length_pos_of_ne_nil hsne
      rw [List.length_append]
      omega
    · rw [pieceText]
      simp [eq_comm]

/-- The pieces of a name are read to its end, and they all have their texts exactly if its numbers
fit. -/
theorem rangeLoop_pieces (tokens : List (List Char)) {n : Nat} (hn : format.length ≤ n) :
    ∃ vs, rangeLoop pieceRule n format = (vs, []) ∧
      ∀ x, (∃ rs, vs.mapM (pieceText tokens) = .ok rs ∧ rs.flatten = x) ↔
        x = expand tokens none format ∧ HashesFit format := by
  have hempty : HashesFit [] := fun pre ds t h => absurd h (by simp)
  have hnone : ∀ x, (∃ rs, ([] : List OutputPiece).mapM (pieceText tokens) = .ok rs ∧
      rs.flatten = x) ↔ x = expand tokens none [] ∧ HashesFit [] := by
    intro x
    rw [and_iff_left hempty, expand]
    constructor
    · rintro ⟨rs, hrs, rfl⟩
      cases hrs
      rfl
    · rintro rfl
      exact ⟨[], rfl, rfl⟩
  induction n generalizing format with
  | zero =>
    cases List.eq_nil_of_length_eq_zero (Nat.le_zero.1 hn)
    exact ⟨[], rfl, hnone⟩
  | succ n ih =>
    by_cases hnil : format = []
    · subst hnil
      exact ⟨[], rfl, hnone⟩
    · obtain ⟨v, rest, s, hread, hlt, hexpand, htext⟩ := exists_piece tokens hnil
      obtain ⟨vs, hloop, hmap⟩ := @ih rest (by omega)
      refine ⟨v :: vs, by simp only [rangeLoop, hread, hloop], fun x => ?_⟩
      rw [hexpand]
      constructor
      · rintro ⟨rs, hrs, rfl⟩
        simp only [List.mapM_cons, bind_ok] at hrs
        obtain ⟨y, hy, ys, hys, hrs⟩ := hrs
        cases hrs
        obtain ⟨hrest, hfit⟩ := (hmap ys.flatten).1 ⟨ys, hys, rfl⟩
        obtain ⟨rfl, hformat⟩ := (htext y).1 ⟨hy, hfit⟩
        exact ⟨by rw [List.flatten_cons, hrest], hformat⟩
      · rintro ⟨rfl, hformat⟩
        obtain ⟨hy, hfit⟩ := (htext s).2 ⟨rfl, hformat⟩
        obtain ⟨ys, hys, hflat⟩ := (hmap _).2 ⟨rfl, hfit⟩
        refine ⟨s :: ys, ?_, by rw [List.flatten_cons, hflat]⟩
        rw [List.mapM_cons, hy, hys]
        rfl

/-- `interpolate` makes of a name what a reader of its characters makes of it, if every number in it
fits in an `unsigned long`, and throws if one does not. -/
theorem interpolate_ok_iff {x : List Char} :
    interpolate tokens format = .ok x ↔ x = expand tokens none format ∧ HashesFit format := by
  obtain ⟨vs, hloop, htext⟩ := rangeLoop_pieces tokens (Nat.le_refl format.length)
  have hparse : (rangeRule pieceRule).parseAll format = .ok vs := by
    simp only [Rule.parseAll, rangeRule, hloop]
  rw [interpolate, hparse, ← htext]
  show (vs.mapM (pieceText tokens) >>= fun rs => Except.ok rs.flatten) = _ ↔ _
  simp only [bind_ok, Except.ok.injEq]

theorem interpolate_eq (tokens : List (List Char)) (hfit : HashesFit format) :
    interpolate tokens format = .ok (expand tokens none format) :=
  interpolate_ok_iff.2 ⟨rfl, hfit⟩

/-- Without tokens nothing is replaced. -/
theorem expand_no_tokens (o : Option (List Char)) (t : List Char) :
    expand [] o t = (o.map ('#' :: ·)).getD [] ++ t := by
  have hnumber : ∀ ds, numberText [] ds = '#' :: ds := by
    intro ds
    rw [numberText, List.getElem?_nil, Option.getD_none, ite_self]
  induction t generalizing o with
  | nil =>
    cases o with
    | none => rfl
    | some ds => simp [expand, hnumber]
  | cons c t ih =>
    have hnone : expand [] none (c :: t) = c :: t := by
      rw [expand]
      split
      · next hc => rw [ih, hc]; rfl
      · rw [ih]; rfl
    cases o with
    | none => exact hnone
    | some ds =>
      rw [expand]
      split
      · rw [ih]; simp
      · rw [expand] at hnone
        rw [hnone, hnumber]; rfl

end

/-- The output name is as it is meant: `interpolate` does not throw and replaces the numbers, and
without tokens it gives the name back. -/
structure InterpolatesAsMeant (tokens : List (List Char)) (format : List Char) : Prop where
  text : interpolate tokens format = .ok (expand tokens none format)
  identity : tokens = [] → interpolate tokens format = .ok format

/-- An output name is as it is meant if and only if every number behind a `#` fits in an
`unsigned long`. -/
theorem interpolatesAsMeant_iff (tokens : List (List Char)) (format : List Char) :
    InterpolatesAsMeant tokens format ↔ HashesFit format := by
  constructor
  · intro h
    exact (interpolate_ok_iff.1 h.text).2
  · intro hfit
    refine ⟨interpolate_eq tokens hfit, ?_⟩
    rintro rfl
    have hsame : expand [] none format = format := expand_no_tokens none format
    rw [interpolate_eq [] hfit, hsame]

/-- A number of 20 digits throws, with a token and without. -/
theorem largeHash_not_interpolatesAsMeant :
    interpolate ["a".toList] "#18446744073709551616".toList = .error (.thrown .stoul) ∧
      ¬ InterpolatesAsMeant ["a".toList] "#18446744073709551616".toList ∧
      ¬ InterpolatesAsMeant [] "#18446744073709551616".toList := by
  have hthrows : ∀ tokens ∈ [["a".toList], []],
      interpolate tokens "#18446744073709551616".toList = .error (.thrown .stoul) := by
    decide +kernel
  refine ⟨hthrows _ (by simp), fun h => ?_, fun h => ?_⟩
  · cases (hthrows _ (by simp)).symm.trans h.text
  · cases (hthrows _ (by simp)).symm.trans h.text

example : interpolate ["a".toList, "7".toList] "vol#1-#2#3.##0".toList =
    .ok "vola-7#3.##0".toList := by decide +kernel

end Beast2.Burl
