import Beast2.Burl.GlobRanges

/-!
# Which patterns have a generator that can be called

`make_glob_generator` throws `Bad URL pattern` for a text that its grammar refuses. The closure it
returns for any other text takes `front()` of the components on top of its stack and `pop_back()` of
its tokens without a look at their sizes. Every frame of the stack has components, and the tokens
are those of the frames below the top (`Closure.Sound`), so neither goes wrong, unless there are no
components at all: the grammar accepts the empty text. And the first number of a range is digits to
the grammar and a number to `std::stoull`, which throws if it does not have 64 bits. So a pattern is
refused or has a generator without faults exactly if it is not empty and the first numbers of its
ranges have 64 bits (`globTotal_iff`).
-/

namespace Beast2.Burl

open Grammar Loop

/-! ## The invariant of the closure -/

/-- How many tokens the frames have given. -/
def tokenCount : List (List Char × List Gen) → Nat
  | (_, g :: _) :: below => (if g.holdsStaticGen then 0 else 1) + tokenCount below
  | _ => 0

/-- Every frame of the stack has components, and there is a token for each of them that has given
one, which are those below the top. -/
structure Closure.Sound (c : Closure) : Prop where
  frames : ∀ f ∈ c.stack, f.2 ≠ []
  tokens : c.tokens.length = tokenCount c.stack.tail

theorem length_pushToken (tokens : List (List Char)) (g : Gen) (o : List Char) :
    (pushToken tokens g o).length = (if g.holdsStaticGen then 0 else 1) + tokens.length := by
  unfold pushToken
  split
  · rw [Nat.zero_add]
  · rw [List.length_append, Nat.add_comm]
    rfl

section

variable {c : Closure}

/-- Taking the frame from the top takes its token. -/
theorem exists_popToken {below : List (List Char × List Gen)} {tokens : List (List Char)}
    (hframes : ∀ f ∈ below, f.2 ≠ []) (htokens : tokens.length = tokenCount below) :
    ∃ c, popToken below tokens = .ok c ∧ c.Sound := by
  cases below with
  | nil => exact ⟨⟨[], tokens⟩, rfl, hframes, htokens⟩
  | cons f below =>
    obtain ⟨pre, gs⟩ := f
    cases gs with
    | nil => exact absurd rfl (hframes _ List.mem_cons_self)
    | cons g gs =>
      rw [popToken]
      cases hg : g.holdsStaticGen with
      | true =>
        refine ⟨_, if_pos rfl, hframes, ?_⟩
        rw [htokens, tokenCount, hg, if_pos rfl, Nat.zero_add]
        rfl
      | false =>
        rw [tokenCount, hg, if_neg Bool.false_ne_true] at htokens
        have hne : tokens.isEmpty = false := by
          cases tokens with
          | nil => rw [List.length_nil] at htokens; omega
          | cons => rfl
        rw [if_neg Bool.false_ne_true, hne, if_neg Bool.false_ne_true]
        refine ⟨_, rfl, hframes, ?_⟩
        rw [List.length_dropLast, htokens, Nat.add_sub_cancel_left]
        rfl

/-- A turn of the loop keeps the invariant and has no fault. -/
theorem Closure.Sound.turn (h : c.Sound) :
    (∃ c', c.turn = .next c' ∧ c'.Sound) ∨ ∃ r c', c.turn = .exit (.ok (r, c')) ∧ c'.Sound := by
  obtain ⟨stack, tokens⟩ := c
  obtain ⟨hframes, htokens⟩ := h
  cases stack with
  | nil => exact .inr ⟨none, _, rfl, hframes, htokens⟩
  | cons f below =>
    obtain ⟨pre, gs⟩ := f
    obtain ⟨htop, hbelow⟩ := List.forall_mem_cons.1 hframes
    cases gs with
    | nil => exact absurd rfl htop
    | cons g gs =>
      simp only [Closure.turn]
      cases hcall : g.call with
      | mk o g' =>
        cases o with
        | none =>
          obtain ⟨c', hpop, hsound⟩ := exists_popToken hbelow htokens
          exact .inl ⟨c', by simp only [hpop], hsound⟩
        | some o =>
          dsimp only
          have hframes' : ∀ f ∈ (pre, g' :: gs) :: below, f.2 ≠ [] :=
            List.forall_mem_cons.2 ⟨List.cons_ne_nil _ _, hbelow⟩
          by_cases hlast : gs.length + 1 = 1
          · rw [if_pos hlast]
            exact .inr ⟨_, _, rfl, hframes', htokens⟩
          · rw [if_neg hlast]
            refine .inl ⟨_, rfl, List.forall_mem_cons.2 ⟨?_, hframes'⟩, ?_⟩
            · rintro rfl
              exact hlast rfl
            · show (pushToken tokens g' o).length = tokenCount ((pre, g' :: gs) :: below)
              rw [length_pushToken, tokenCount, htokens]
              rfl

/-- A call has no fault and leaves a closure with the invariant. -/
theorem Closure.Sound.call (h : c.Sound) {r : Except Fault (Option GlobResult × Closure)}
    (hr : Exits Closure.turn c r) : ∃ o c', r = .ok (o, c') ∧ c'.Sound := by
  refine of_exits (Q := fun r => ∃ o c', r = .ok (o, c') ∧ c'.Sound) (fun s s' hs hturn => ?_)
    (fun s r hs hturn => ?_) h hr
  · rcases hs.turn with ⟨c', heq, hsound⟩ | ⟨o, c', heq, -⟩
    · cases hturn.symm.trans heq
      exact hsound
    · cases hturn.symm.trans heq
  · rcases hs.turn with ⟨c', heq, -⟩ | ⟨o, c', heq, hsound⟩
    · cases hturn.symm.trans heq
    · cases hturn.symm.trans heq
      exact ⟨o, c', rfl, hsound⟩

end

/-! ## Runs of calls -/

/-- One closure is another one after some calls. -/
abbrev Closure.Reaches : Closure → Closure → Prop :=
  Relation.ReflTransGen fun c c' => ∃ r, c.Call r c'

/-- Calls leave a closure with the invariant. -/
theorem Closure.Sound.reaches {c c' : Closure} (h : c.Sound) (hreach : c.Reaches c') :
    c'.Sound := by
  induction hreach with
  | refl => exact h
  | tail _ hcall ih =>
    obtain ⟨r, hcall⟩ := hcall
    obtain ⟨o, c', heq, hsound⟩ := ih.call hcall
    cases heq
    exact hsound

/-- No call of the generator for these components takes `front()` or `pop_back()` of an empty
vector, however often it was called before. -/
def NeverFaults (gs : List Gen) : Prop :=
  ∀ c, (globClosure gs).Reaches c → ∀ e, ¬ Exits Closure.turn c (.error e)

/-- The calls never fault exactly if there are components. -/
theorem neverFaults_iff {gs : List Gen} : NeverFaults gs ↔ gs ≠ [] := by
  constructor
  · rintro h rfl
    exact h _ .refl .front (exits_of_exit rfl)
  · intro hne c hreach e he
    have hfirst : (globClosure gs).Sound := by
      refine ⟨fun f hf => ?_, rfl⟩
      cases List.mem_singleton.1 hf
      exact hne
    obtain ⟨o, c', heq, -⟩ := (hfirst.reaches hreach).call he
    cases heq

/-! ## Patterns -/

/-- A pattern is refused, or it has a generator whose calls never fault. -/
def GlobTotal (pattern : List Char) : Prop :=
  makeGlobGenerator pattern = .error (.runtimeError "Bad URL pattern") ∨
    ∃ gs, makeGlobGenerator pattern = .ok gs ∧ NeverFaults gs

/-- The first number of every range in a pattern has 64 bits. -/
def FirstNumbersFit (pattern : List Char) : Prop :=
  ∀ low high step, .inr (.inl (low, high, step)) ∈ components pattern →
    Nat.ofDigitChars 10 low 0 < 0x10000000000000000

section

variable {pattern : List Char}

/-- The first number of a range in a pattern is digits. -/
theorem digits_of_mem_components {low : List Char} {high : Nat} {step : Option Nat}
    (h : .inr (.inl (low, high, step)) ∈ components pattern) :
    low ≠ [] ∧ ∀ c ∈ low, c.isDigit = true := by
  obtain ⟨it, rest, hread⟩ := exists_componentRule h
  rcases variantRule_ok hread with ⟨s, heq, -⟩ | ⟨v₁, heq, h₁⟩
  · cases heq
  cases heq
  rcases variantRule_ok h₁ with ⟨v, heq, hrange⟩ | ⟨v₂, heq, -⟩
  · cases heq
    obtain ⟨hne, hdigits, -⟩ := numRangeRule_ok hrange
    exact ⟨hne, hdigits⟩
  · cases heq

/-- The generator of a component cannot be made only for what `std::stoull` throws. -/
theorem makeGen_error {v : Component} {e : Thrown} (hmem : v ∈ components pattern)
    (h : makeGen v = .error e) : e = .stoul := by
  rcases v with s | ⟨low, high, step⟩ | ⟨low, high, step⟩ | items
  · cases h
  · obtain ⟨hne, hdigits⟩ := digits_of_mem_components hmem
    rw [makeGen, stoull, stoul_digits hdigits] at h
    split at h
    · cases h
      rfl
    · cases h
  · cases h
  · cases h

/-- `make_glob_generator` returns a generator only if the first numbers fit. -/
theorem firstNumbersFit_of_ok {gs : List Gen} (h : makeGlobGenerator pattern = .ok gs) :
    FirstNumbersFit pattern := by
  intro low high step hmem
  obtain ⟨hne, hdigits⟩ := digits_of_mem_components hmem
  obtain ⟨g, -, hg⟩ := exists_of_forall₂ (forall₂_components h) hmem
  exact ((makeGen_range_ok_iff hne hdigits).1 hg).1

/-- If they fit, it returns one or refuses the pattern. -/
theorem makeGlobGenerator_of_fit (h : FirstNumbersFit pattern) :
    makeGlobGenerator pattern = .error (.runtimeError "Bad URL pattern") ∨
      ∃ gs, makeGlobGenerator pattern = .ok gs := by
  rw [makeGlobGenerator]
  cases hparse : globRule.parseAll pattern with
  | error e => exact .inl rfl
  | ok vs =>
    have hvs := components_eq hparse
    have hgens : ∀ v ∈ vs, ∃ g, makeGen v = .ok g := by
      intro v hv
      rcases v with s | ⟨low, high, step⟩ | ⟨low, high, step⟩ | items
      · exact ⟨_, rfl⟩
      · rw [← hvs] at hv
        obtain ⟨hne, hdigits⟩ := digits_of_mem_components hv
        exact ⟨_, (makeGen_range_ok_iff hne hdigits).2 ⟨h low high step hv, rfl⟩⟩
      · exact ⟨_, rfl⟩
      · exact ⟨_, rfl⟩
    obtain ⟨gs, hgs⟩ := exists_forall₂ hgens
    exact .inr ⟨gs, mapM_ok.2 hgs⟩

end

/-- `make_glob_generator` refuses a pattern or returns a generator whose calls never fault if and
only if the pattern is not empty and the first numbers of its ranges have 64 bits. -/
theorem globTotal_iff (pattern : List Char) :
    GlobTotal pattern ↔ pattern ≠ [] ∧ FirstNumbersFit pattern := by
  constructor
  · rintro (hbad | ⟨gs, hok, hnever⟩)
    · refine ⟨?_, ?_⟩
      · rintro rfl
        cases hbad
      · intro low high step hmem
        -- a pattern that is refused has no components
        rw [makeGlobGenerator] at hbad
        cases hparse : globRule.parseAll pattern with
        | error e =>
          rw [components, hparse] at hmem
          cases hmem
        | ok vs =>
          rw [hparse] at hbad
          obtain ⟨v, hmem', hv⟩ := mapM_error hbad
          rw [← components_eq hparse] at hmem'
          cases makeGen_error hmem' hv
    · refine ⟨?_, firstNumbersFit_of_ok hok⟩
      rintro rfl
      have hnil : makeGlobGenerator [] = .ok [] := rfl
      cases hnil.symm.trans hok
      exact neverFaults_iff.1 hnever rfl
  · rintro ⟨hne, hfit⟩
    rcases makeGlobGenerator_of_fit hfit with hbad | ⟨gs, hok⟩
    · exact .inl hbad
    · exact .inr ⟨gs, hok, neverFaults_iff.2 (ne_nil_of_makeGlobGenerator hne hok)⟩

/-- A call of the generator of the empty pattern takes `front()` of no components, and a range from
2^64 makes `make_glob_generator` throw what `std::stoull` does. -/
theorem emptyPattern_not_globTotal :
    ¬ GlobTotal [] ∧
      makeGlobGenerator "[18446744073709551616-1]".toList = .error .stoul ∧
      ¬ GlobTotal "[18446744073709551616-1]".toList := by
  have hthrows : makeGlobGenerator "[18446744073709551616-1]".toList = .error .stoul := by
    decide +kernel
  refine ⟨?_, hthrows, ?_⟩
  · rintro (hbad | ⟨gs, hok, hnever⟩)
    · cases hbad
    · have hnil : makeGlobGenerator [] = .ok [] := rfl
      cases hnil.symm.trans hok
      exact neverFaults_iff.1 hnever rfl
  · rintro (hbad | ⟨gs, hok, -⟩)
    · cases hthrows.symm.trans hbad
    · cases hthrows.symm.trans hok

end Beast2.Burl
