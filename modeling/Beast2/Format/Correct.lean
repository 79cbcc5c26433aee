import Beast2.Format.Impl

/-!
# `format_to` agrees with its format language

The format language is read left to right into tokens: `{{` and `}}` are literal braces, `{}` is a
placeholder, any other use of a brace is malformed (`tokens`). `spec fs args` is the rendering of a
well-formed string with enough arguments. `call_spec` says that the segments `next` cuts and the
two loops over them compute `spec`: the scanner is split at the first brace of the text
(`brace_split`), `next` returns at the second character of a pair of braces, and one lemma per
pair carries the loops past it.
-/

namespace Beast2.Format

/-! ## The format language -/

/-- A token of the format language. -/
inductive Token where
  | text (c : Char)
  | placeholder
deriving DecidableEq, Repr

/-- The tokens of a format string, `none` when it is malformed. -/
def tokens : List Char → Option (List Token)
  | [] => some []
  | [c] => if c = '{' ∨ c = '}' then none else some [.text c]
  | c :: d :: r =>
    if c = '{' then
      if d = '{' then (tokens r).map (.text '{' :: ·)
      else if d = '}' then (tokens r).map (.placeholder :: ·)
      else none
    else if c = '}' then
      if d = '}' then (tokens r).map (.text '}' :: ·)
      else none
    else (tokens (d :: r)).map (.text c :: ·)

/-- The number of placeholders of a token list. -/
def placeholders (ts : List Token) : Nat := ts.count .placeholder

/-- The text of a token list, the `i`-th placeholder replaced by the `i`-th argument. -/
def render : List Token → List (List Char) → List Char
  | [], _ => []
  | .text c :: ts, args => c :: render ts args
  | .placeholder :: ts, args => args.headD [] ++ render ts args.tail

/-- The rendering, `none` when there are more placeholders than arguments. -/
def renderAll (ts : List Token) (args : List (List Char)) : Option (List Char) :=
  if args.length < placeholders ts then none else some (render ts args)

/-- What `format_to` should append: the rendering, `none` when the string is malformed or has more
placeholders than there are arguments. -/
def spec (fs : List Char) (args : List (List Char)) : Option (List Char) :=
  (tokens fs).bind (renderAll · args)

/-- A text without braces. -/
def NoBrace (t : List Char) : Prop := ∀ c ∈ t, c ≠ '{' ∧ c ≠ '}'

/-- Every text is free of braces or splits at its first brace. -/
theorem brace_split (r : List Char) :
    NoBrace r ∨ ∃ lit b r', NoBrace lit ∧ (b = '{' ∨ b = '}') ∧ r = lit ++ b :: r' := by
  induction r with
  | nil => exact .inl (by simp [NoBrace])
  | cons c r ih =>
    by_cases hc : c = '{' ∨ c = '}'
    · exact .inr ⟨[], c, r, by simp [NoBrace], hc, rfl⟩
    · rw [not_or] at hc
      rcases ih with hr | ⟨lit, b, r', hlit, hb, rfl⟩
      · exact .inl (List.forall_mem_cons.2 ⟨hc, hr⟩)
      · exact .inr ⟨c :: lit, b, r', List.forall_mem_cons.2 ⟨hc, hlit⟩, hb, rfl⟩

/-- A character that is no brace is its own token. -/
theorem tokens_cons {c : Char} (hc : c ≠ '{' ∧ c ≠ '}') (r : List Char) :
    tokens (c :: r) = (tokens r).map (.text c :: ·) := by
  cases r with
  | nil => simp [tokens, hc.1, hc.2]
  | cons d r => simp [tokens, hc.1, hc.2]

@[simp] theorem renderAll_text (c : Char) (ts : List Token) (args : List (List Char)) :
    renderAll (.text c :: ts) args = (renderAll ts args).map (c :: ·) := by
  have hc : placeholders (.text c :: ts) = placeholders ts := by simp [placeholders]
  unfold renderAll
  rw [hc]
  split <;> rfl

@[simp] theorem renderAll_placeholder_cons (ts : List Token) (a : List Char)
    (args : List (List Char)) :
    renderAll (.placeholder :: ts) (a :: args) = (renderAll ts args).map (a ++ ·) := by
  have hc : placeholders (.placeholder :: ts) = placeholders ts + 1 := by simp [placeholders]
  unfold renderAll
  simp only [hc, List.length_cons, Nat.add_lt_add_iff_right]
  split <;> rfl

@[simp] theorem renderAll_placeholder_nil (ts : List Token) :
    renderAll (.placeholder :: ts) [] = none := by
  simp [renderAll, placeholders]

/-- One literal character in front of a format string is one character in front of its
rendering. -/
theorem spec_of_text {fs fs' : List Char} {c : Char}
    (h : tokens fs = (tokens fs').map (.text c :: ·)) (args : List (List Char)) :
    spec fs args = (spec fs' args).map (c :: ·) := by
  unfold spec
  rw [h]
  cases tokens fs' <;> simp

/-- Literal text in front of a format string goes in front of its rendering. -/
theorem spec_append {lit : List Char} (hlit : NoBrace lit) (r : List Char)
    (args : List (List Char)) : spec (lit ++ r) args = (spec r args).map (lit ++ ·) := by
  induction lit with
  | nil => simp
  | cons c lit ih =>
    obtain ⟨hc, hlit⟩ := List.forall_mem_cons.1 hlit
    rw [List.cons_append, spec_of_text (tokens_cons hc _), ih hlit, Option.map_map]
    rfl

theorem spec_open (r : List Char) (args : List (List Char)) :
    spec ('{' :: '{' :: r) args = (spec r args).map ('{' :: ·) :=
  spec_of_text (by simp [tokens]) args

theorem spec_close (r : List Char) (args : List (List Char)) :
    spec ('}' :: '}' :: r) args = (spec r args).map ('}' :: ·) :=
  spec_of_text (by simp [tokens]) args

theorem spec_placeholder_nil (r : List Char) : spec ('{' :: '}' :: r) [] = none := by
  simp only [spec, tokens]
  cases tokens r <;> simp

theorem spec_placeholder_cons (r a : List Char) (args : List (List Char)) :
    spec ('{' :: '}' :: r) (a :: args) = (spec r args).map (a ++ ·) := by
  simp only [spec, tokens]
  cases tokens r <;> simp

@[simp] theorem spec_nil (args : List (List Char)) : spec [] args = some [] := by
  simp [spec, tokens, renderAll, placeholders, render]

/-- Without braces there is nothing to replace. -/
theorem spec_noBrace {lit : List Char} (hlit : NoBrace lit) (args : List (List Char)) :
    spec lit args = some lit := by
  simpa using spec_append hlit [] args

/-! ## `next` -/

@[simp] theorem upTo_one (t : List Char) (c : Char) : upTo (t ++ [c]) 1 = t := by
  simp [upTo]

@[simp] theorem upTo_two (t : List Char) (c d : Char) : upTo (t ++ [c] ++ [d]) 2 = t := by
  simp [upTo]

/-- What follows the first brace of a text and decides what `next` returns. -/
inductive Pair : Char → List Char → Prop where
  | openOpen (r : List Char) : Pair '{' ('{' :: r)
  | openClose (r : List Char) : Pair '{' ('}' :: r)
  | closeClose (r : List Char) : Pair '}' ('}' :: r)

/-- Any other use of a brace is malformed. -/
theorem spec_not_pair {b : Char} {r : List Char} (hb : b = '{' ∨ b = '}') (h : ¬ Pair b r)
    (args : List (List Char)) : spec (b :: r) args = none := by
  rcases r with - | ⟨d, r⟩
  · simp [spec, tokens, hb]
  · rcases hb with rfl | rfl
    · have h1 : d ≠ '{' := fun hd => h (hd ▸ .openOpen r)
      have h2 : d ≠ '}' := fun hd => h (hd ▸ .openClose r)
      simp [spec, tokens, h1, h2]
    · have h1 : d ≠ '}' := fun hd => h (hd ▸ .closeClose r)
      simp [spec, tokens, h1]

/-- The loop of `next` moves `p` over text without braces. -/
theorem nextLoop_append {lit : List Char} (hlit : NoBrace lit) (seg r : List Char) :
    nextLoop seg (lit ++ r) false false = nextLoop (seg ++ lit) r false false := by
  induction lit generalizing seg with
  | nil => simp
  | cons c lit ih =>
    obtain ⟨⟨h1, h2⟩, hlit⟩ := List.forall_mem_cons.1 hlit
    have hstep : nextLoop seg (c :: (lit ++ r)) false false
        = nextLoop (seg ++ [c]) (lit ++ r) false false := by
      simp [nextLoop, beq_false_of_ne h1, beq_false_of_ne h2]
    rw [List.cons_append, hstep, ih hlit, List.append_assoc]
    rfl

namespace FormatImpl

variable {s : FormatImpl} {lit r : List Char}

/-- Without a brace left, `next` returns all that is left. -/
theorem next_noBrace (hseg : s.seg = []) (hlit : NoBrace s.rest) :
    s.next = .ok (s.rest, { s with seg := [], rest := [], hasPlaceholder := false }) := by
  have h := nextLoop_append hlit s.seg []
  rw [List.append_nil, hseg, List.nil_append] at h
  simp [next, h, hseg, nextLoop]

/-- `next` at an escaped opening brace. -/
theorem next_open (hseg : s.seg = []) (hlit : NoBrace lit) (hr : s.rest = lit ++ '{' :: '{' :: r) :
    s.next = .ok (lit ++ ['{'], { s with seg := [], rest := r, hasPlaceholder := false }) := by
  simp [next, hseg, hr, nextLoop_append hlit, nextLoop, -List.append_assoc]

/-- `next` at an escaped closing brace. -/
theorem next_close (hseg : s.seg = []) (hlit : NoBrace lit)
    (hr : s.rest = lit ++ '}' :: '}' :: r) :
    s.next = .ok (lit ++ ['}'], { s with seg := [], rest := r, hasPlaceholder := false }) := by
  simp [next, hseg, hr, nextLoop_append hlit, nextLoop, -List.append_assoc]

/-- `next` at a placeholder: the segment before it may be empty. -/
theorem next_placeholder (hseg : s.seg = []) (hlit : NoBrace lit)
    (hr : s.rest = lit ++ '{' :: '}' :: r) :
    s.next = .ok (lit, { s with seg := [], rest := r, hasPlaceholder := true }) := by
  simp [next, hseg, hr, nextLoop_append hlit, nextLoop, -List.append_assoc]

/-- `next` throws at a brace that is not part of a pair. -/
theorem next_not_pair {b : Char} (hseg : s.seg = []) (hlit : NoBrace lit)
    (hb : b = '{' ∨ b = '}') (hp : ¬ Pair b r) (hr : s.rest = lit ++ b :: r) :
    ∃ e, s.next = .error e := by
  rcases r with - | ⟨d, r⟩
  · rcases hb with rfl | rfl <;> simp [next, hseg, hr, nextLoop_append hlit, nextLoop]
  · rcases hb with rfl | rfl
    · have h1 : d ≠ '{' := fun hd => hp (hd ▸ .openOpen r)
      have h2 : d ≠ '}' := fun hd => hp (hd ▸ .openClose r)
      simp [next, hseg, hr, nextLoop_append hlit, nextLoop, h1, h2]
    · have h1 : d ≠ '}' := fun hd => hp (hd ▸ .closeClose r)
      simp [next, hseg, hr, nextLoop_append hlit, nextLoop, h1]

end FormatImpl

/-! ## The loops -/

section
variable {s : FormatImpl} {lit r : List Char}

/-- The loop of `do_arg` at the empty segment. -/
theorem doArgLoop_nil (s : FormatImpl) : doArgLoop [] s = .ok s := by
  rw [doArgLoop, if_pos rfl]

/-- The loop of `do_arg` on a segment that does not end at a placeholder. -/
theorem doArgLoop_step {seg : List Char} (hseg : seg ≠ []) (hp : s.hasPlaceholder = false) :
    doArgLoop seg s = match (s.write seg).next with
      | .error e => .error ⟨e, (s.write seg).os⟩
      | .ok (seg', s') => doArgLoop seg' s' := by
  rw [doArgLoop, if_neg hseg, hp, if_neg Bool.false_ne_true]
  split <;> simp_all

/-- `do_arg` writes a segment that does not end at a placeholder and starts over. -/
theorem doArg_text {t a : List Char} (ht : t ≠ []) (hn : s.next = .ok (t, ⟨s.os, [], r, false⟩)) :
    doArg s a = doArg ⟨s.os ++ t, [], r, false⟩ a := by
  rw [doArg, hn]
  simp only
  rw [doArgLoop_step ht rfl, doArg]
  simp only [FormatImpl.write]
  cases (FormatImpl.mk (s.os ++ t) [] r false).next <;> rfl

/-- `do_arg` at a placeholder writes the text before it and the argument. -/
theorem doArg_placeholder {a : List Char} (hseg : s.seg = []) (hlit : NoBrace lit)
    (hr : s.rest = lit ++ '{' :: '}' :: r) :
    doArg s a = .ok ⟨s.os ++ (lit ++ a), [], r, true⟩ := by
  rw [doArg, FormatImpl.next_placeholder hseg hlit hr]
  -- an empty segment skips the loop, any other leaves it by `break`
  by_cases hl : lit = []
  · subst hl
    simp [doArgLoop_nil, FormatImpl.write]
  · simp only
    rw [doArgLoop, if_neg hl]
    simp [FormatImpl.write]

/-- `do_arg` at the end of the format string does nothing. -/
theorem doArg_nil {a : List Char} (hseg : s.seg = []) (hr : s.rest = []) :
    doArg s a = .ok ⟨s.os, [], [], false⟩ := by
  rw [doArg, FormatImpl.next_noBrace hseg (by simp [NoBrace, hr])]
  simp [hr, doArgLoop_nil]

/-- `do_arg` without a brace left writes what is left and no argument. -/
theorem doArg_noBrace {a : List Char} (hseg : s.seg = []) (hlit : NoBrace s.rest) :
    doArg s a = .ok ⟨s.os ++ s.rest, [], [], false⟩ := by
  by_cases hl : s.rest = []
  · rw [doArg_nil hseg hl, hl, List.append_nil]
  · rw [doArg_text hl (FormatImpl.next_noBrace hseg hlit), doArg_nil rfl rfl]

/-- `do_arg` throws at a malformed brace. -/
theorem doArg_error {a : List Char} {e : InvalidArgument} (hn : s.next = .error e) :
    doArg s a = .error ⟨e, s.os⟩ := by
  rw [doArg, hn]

/-- One turn of the tail loop. -/
theorem tailLoop_step (s : FormatImpl) : tailLoop s = match s.next with
      | .error e => .error ⟨e, s.os⟩
      | .ok (seg, s') => if s'.hasPlaceholder then .error ⟨tooFewError, s'.os⟩
          else if seg = [] then .ok s' else tailLoop (s'.write seg) := by
  rw [tailLoop]
  split <;> simp_all

end

/-! ## The call -/

/-- The outcome of a call that is to append `t`: the text after it, `none` when it throws. -/
def outcome (x : Except Thrown FormatImpl) : Option (List Char) := x.toOption.map (·.os)

/-- The tail loop renders what is left without arguments. -/
theorem tailLoop_spec (s : FormatImpl) (hseg : s.seg = []) :
    outcome (tailLoop s) = (spec s.rest []).map (s.os ++ ·) := by
  -- on the length of the text left: each turn cuts a segment off it
  induction hn : s.rest.length using Nat.strongRecOn generalizing s with
  | _ n ih =>
    rcases brace_split s.rest with hlit | ⟨lit, b, r, hlit, hb, hr⟩
    · rw [tailLoop_step, FormatImpl.next_noBrace hseg hlit, spec_noBrace hlit]
      by_cases hl : s.rest = []
      · simp [hl, outcome, Except.toOption]
      · have hend : outcome (tailLoop ⟨s.os ++ s.rest, [], [], false⟩)
            = (spec [] []).map (s.os ++ s.rest ++ ·) :=
          ih 0 (by have := List.length_pos_iff.2 hl; omega) _ rfl rfl
        simpa [hl, FormatImpl.write] using hend
    by_cases hp : Pair b r
    · have hlen : r.length < n := by rw [← hn, hr]; simp; omega
      cases hp with
      | openOpen r =>
        have hgo := ih r.length (by simp at hlen; omega) ⟨s.os ++ (lit ++ ['{']), [], r, false⟩
          rfl rfl
        rw [tailLoop_step, FormatImpl.next_open hseg hlit hr, hr, spec_append hlit, spec_open]
        simpa [FormatImpl.write, Option.map_map, Function.comp_def] using hgo
      | closeClose r =>
        have hgo := ih r.length (by simp at hlen; omega) ⟨s.os ++ (lit ++ ['}']), [], r, false⟩
          rfl rfl
        rw [tailLoop_step, FormatImpl.next_close hseg hlit hr, hr, spec_append hlit, spec_close]
        simpa [FormatImpl.write, Option.map_map, Function.comp_def] using hgo
      | openClose r =>
        rw [tailLoop_step, FormatImpl.next_placeholder hseg hlit hr, hr, spec_append hlit,
          spec_placeholder_nil]
        rfl
    · obtain ⟨e, he⟩ := FormatImpl.next_not_pair hseg hlit hb hp hr
      rw [tailLoop_step, he, hr, spec_append hlit, spec_not_pair hb hp]
      rfl

/-- `do_arg` takes one argument of the rendering: it stops behind the next placeholder, or at the
end of a string that has none. -/
theorem doArg_spec (s : FormatImpl) (hseg : s.seg = []) (a : List Char)
    (args : List (List Char)) :
    match doArg s a with
    | .error _ => spec s.rest (a :: args) = none
    | .ok s' => s'.seg = [] ∧
        (spec s.rest (a :: args)).map (s.os ++ ·) = (spec s'.rest args).map (s'.os ++ ·) := by
  induction hn : s.rest.length using Nat.strongRecOn generalizing s with
  | _ n ih =>
    rcases brace_split s.rest with hlit | ⟨lit, b, r, hlit, hb, hr⟩
    · rw [doArg_noBrace hseg hlit, spec_noBrace hlit]
      simp
    by_cases hp : Pair b r
    · have hlen : r.length < n := by rw [← hn, hr]; simp; omega
      cases hp with
      | openOpen r =>
        have hgo := ih r.length (by simp at hlen; omega) ⟨s.os ++ (lit ++ ['{']), [], r, false⟩
          rfl rfl
        rw [doArg_text (by simp) (FormatImpl.next_open hseg hlit hr), hr, spec_append hlit,
          spec_open]
        split at hgo <;> simp_all [Option.map_map, Function.comp_def]
      | closeClose r =>
        have hgo := ih r.length (by simp at hlen; omega) ⟨s.os ++ (lit ++ ['}']), [], r, false⟩
          rfl rfl
        rw [doArg_text (by simp) (FormatImpl.next_close hseg hlit hr), hr, spec_append hlit,
          spec_close]
        split at hgo <;> simp_all [Option.map_map, Function.comp_def]
      | openClose r =>
        rw [doArg_placeholder hseg hlit hr, hr, spec_append hlit, spec_placeholder_cons]
        simp [Option.map_map, Function.comp_def]
    · obtain ⟨e, he⟩ := FormatImpl.next_not_pair hseg hlit hb hp hr
      rw [doArg_error he, hr, spec_append hlit, spec_not_pair hb hp]
      rfl

/-- `operator()` renders what is left of the format string with the arguments. -/
theorem call_spec (args : List (List Char)) (s : FormatImpl) (hseg : s.seg = []) :
    outcome (call s args) = (spec s.rest args).map (s.os ++ ·) := by
  induction args generalizing s with
  | nil => exact tailLoop_spec s hseg
  | cons a args ih =>
    have ha := doArg_spec s hseg a args
    simp only [call, List.foldlM_cons] at ih ⊢
    cases hd : doArg s a with
    | error e =>
      rw [hd] at ha
      simp [ha, outcome, bind, Except.bind, Except.toOption]
    | ok s' =>
      rw [hd] at ha
      exact (ih s' ha.1).trans ha.2.symm

/-- `format_to` appends the rendering, and throws where there is none. -/
theorem formatTo_spec (dest fs : List Char) (args : List (List Char)) :
    (formatTo dest fs args).toOption = (spec fs args).map (dest ++ ·) := by
  have h := call_spec args (.init dest fs) rfl
  rw [outcome] at h
  rw [formatTo]
  cases hc : call (.init dest fs) args with
  | error e => rw [hc] at h; exact h
  | ok s => rw [hc] at h; exact h

/-- There is no rendering of a malformed string or with too few arguments. -/
theorem spec_eq_none_iff (fs : List Char) (args : List (List Char)) :
    spec fs args = none ↔
      tokens fs = none ∨ ∃ ts, tokens fs = some ts ∧ args.length < placeholders ts := by
  cases ht : tokens fs <;> simp [spec, ht, renderAll]

/-- `format_to` throws exactly on a malformed string and on one with more placeholders than there
are arguments; otherwise it appends the rendering to `dest`. -/
theorem formatTo_agrees (dest fs : List Char) (args : List (List Char)) :
    ((∃ e, formatTo dest fs args = .error e) ↔
      tokens fs = none ∨ ∃ ts, tokens fs = some ts ∧ args.length < placeholders ts) ∧
    ∀ ts, tokens fs = some ts → placeholders ts ≤ args.length →
      formatTo dest fs args = .ok (dest ++ render ts args) := by
  have h := formatTo_spec dest fs args
  constructor
  · rw [← spec_eq_none_iff]
    cases hf : formatTo dest fs args with
    | error e =>
      rw [hf] at h
      have hnone : spec fs args = none := by simpa [Except.toOption] using h.symm
      simp [hnone]
    | ok t =>
      rw [hf] at h
      have hsome : spec fs args ≠ none := fun hn => by simp [Except.toOption, hn] at h
      simp [hsome]
  · intro ts ht hle
    have hsome : spec fs args = some (render ts args) := by
      simp [spec, ht, renderAll, Nat.not_lt.2 hle]
    rw [hsome] at h
    cases hf : formatTo dest fs args with
    | error e => rw [hf] at h; cases h
    | ok t => rw [hf] at h; cases h; rfl

/-- The placeholder at the end, an escape before it and a surplus argument. -/
example : tokens "a{{}}{}".toList = some [.text 'a', .text '{', .text '}', .placeholder] := by
  decide

end Beast2.Format
