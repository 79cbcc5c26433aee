import Beast2.Burl.Glob
import Beast2.Lib.Choices

/-!
# The closure enumerates the product of its components

The abstract meaning of a pattern is the list of choices of one value of each component, in
lexicographic order (`Choices.choices`). Calling the closure again and again returns the results of
these choices one after the other, and none ever after (`globClosure_returns`).

The proof follows the stack. `Emits` says which results the closure returns on its way from one head
of its loop to another, over as many calls as that takes. A frame of the stack emits the product of
what is left of its first generator and its other generators, and leaves the frames below it and the
tokens as they were (`emits_frame`).
-/

namespace Beast2.Burl

open Loop Choices

/-- A generator returns a finite sequence of texts, and none after them. -/
inductive Gen.Yields : Gen → List (List Char) → Prop
  | done {g : Gen} : g.call.1 = none → g.Yields []
  | value {g g' : Gen} {x : List Char} {xs : List (List Char)} : g.call = (some x, g') →
      g'.Yields xs → g.Yields (x :: xs)

/-- The tokens of a choice: the values of the components that are not static. -/
def choiceTokens : List Gen → List (List Char) → List (List Char)
  | g :: gs, x :: xs => if g.holdsStaticGen then choiceTokens gs xs else x :: choiceTokens gs xs
  | _, _ => []

/-- The result of a choice. -/
def choiceResult (gs : List Gen) (c : List (List Char)) : GlobResult :=
  ⟨c.flatten, choiceTokens gs c⟩

/-- Consecutive calls of the closure end without a fault and return these results. -/
inductive Closure.Returns : Closure → List (Option GlobResult) → Prop
  | nil {c : Closure} : c.Returns []
  | cons {c c' : Closure} {r : Option GlobResult} {rs : List (Option GlobResult)} :
      c.Call r c' → c'.Returns rs → c.Returns (r :: rs)

/-! ## What a frame of the stack emits -/

/-- The closure goes from one head of its loop to another and returns these results on the way. -/
inductive Closure.Emits : Closure → List GlobResult → Closure → Prop
  | refl {c : Closure} : c.Emits [] c
  | round {c c' c'' : Closure} {rs : List GlobResult} : c.turn = .next c' → c'.Emits rs c'' →
      c.Emits rs c''
  | result {c c' c'' : Closure} {r : GlobResult} {rs : List GlobResult} :
      c.turn = .exit (.ok (some r, c')) → c'.Emits rs c'' → c.Emits (r :: rs) c''

theorem Closure.Emits.trans {c c' c'' : Closure} {rs rs' : List GlobResult} (h : c.Emits rs c')
    (h' : c'.Emits rs' c'') : c.Emits (rs ++ rs') c'' := by
  induction h with
  | refl => exact h'
  | round hturn _ ih => exact .round hturn (ih h')
  | result hturn _ ih => exact .result hturn (ih h')

/-- A result of a frame: the text and the tokens before it, and those of the choice. -/
def extend (pre : List Char) (tokens : List (List Char)) (r : GlobResult) : GlobResult :=
  ⟨pre ++ r.result, tokens ++ r.tokens⟩

/-- The results of a frame for the values of its first generator and the choices of the others. -/
def frameResults (pre : List Char) (tokens : List (List Char)) (gs : List Gen)
    (xss : List (List (List Char))) : List GlobResult :=
  (choices xss).map fun c => extend pre tokens (choiceResult gs c)

/-- Pushing a token and taking it off again when the frame is back on top. -/
theorem popToken_pushToken {pre : List Char} {g : Gen} {gs : List Gen}
    {below : List (List Char × List Gen)} {tokens : List (List Char)} {o : List Char} :
    popToken ((pre, g :: gs) :: below) (pushToken tokens g o)
      = .ok ⟨(pre, g :: gs) :: below, tokens⟩ := by
  cases hg : g.holdsStaticGen <;> simp [popToken, pushToken, hg]

/-- The results of the choices that start with one value. -/
theorem frameResults_cons {pre : List Char} {tokens : List (List Char)} {g : Gen} {gs : List Gen}
    {x : List Char} {xs : List (List Char)} {xss : List (List (List Char))} :
    frameResults pre tokens (g :: gs) ((x :: xs) :: xss) =
      frameResults (pre ++ x) (pushToken tokens g x) gs xss ++
        frameResults pre tokens (g :: gs) (xs :: xss) := by
  simp only [frameResults, choices, List.flatMap_cons, List.map_append, List.map_map]
  congr 1
  apply List.map_congr_left
  intro c _
  cases hg : g.holdsStaticGen <;>
    simp [extend, choiceResult, choiceTokens, pushToken, hg]

/-- `frameResults` looks only at which components are static. -/
theorem frameResults_congr {pre : List Char} {tokens : List (List Char)} {g g' : Gen}
    {gs : List Gen} {xss : List (List (List Char))} (h : g'.holdsStaticGen = g.holdsStaticGen) :
    frameResults pre tokens (g' :: gs) xss = frameResults pre tokens (g :: gs) xss := by
  simp only [frameResults]
  apply List.map_congr_left
  intro c _
  cases c <;> simp [choiceResult, choiceTokens, h]

/-- The generator on top of the stack returned a value: the results of the choices that start with
it come out, and the frame is on top again. -/
def EmitsEach (gs : List Gen) (xss : List (List (List Char))) : Prop :=
  ∀ (pre : List Char) (below : List (List Char × List Gen)) (tokens : List (List Char)) (g g' : Gen)
    (x : List Char), g.call = (some x, g') →
    Closure.Emits ⟨(pre, g :: gs) :: below, tokens⟩
      (frameResults (pre ++ x) (pushToken tokens g x) gs xss) ⟨(pre, g' :: gs) :: below, tokens⟩

/-- The frame on top of the stack emits its results and is then exhausted. -/
theorem EmitsEach.frame {gs : List Gen} {xss : List (List (List Char))} (h : EmitsEach gs xss)
    {g : Gen} {xs : List (List Char)} (hg : g.Yields xs) (pre : List Char)
    (below : List (List Char × List Gen)) (tokens : List (List Char)) :
    ∃ g', g'.call.1 = none ∧ Closure.Emits ⟨(pre, g :: gs) :: below, tokens⟩
      (frameResults pre tokens (g :: gs) (xs :: xss)) ⟨(pre, g' :: gs) :: below, tokens⟩ := by
  induction hg with
  | done hnone => exact ⟨_, hnone, .refl⟩
  | @value g g₁ x xs hcall _ ih =>
    obtain ⟨g', hnone, hemits⟩ := ih
    have hstatic : g₁.holdsStaticGen = g.holdsStaticGen := by
      rw [← g.holdsStaticGen_call, hcall]
    refine ⟨g', hnone, ?_⟩
    rw [frameResults_cons, ← frameResults_congr hstatic]
    exact (h pre below tokens g g₁ x hcall).trans hemits

/-- A frame whose generator is exhausted is popped, with the token that was pushed for it. -/
theorem turn_exhausted {pre pre' x : List Char} {g g' : Gen} {gs gs' : List Gen}
    {below : List (List Char × List Gen)} {tokens : List (List Char)} (h : g'.call.1 = none) :
    Closure.turn ⟨(pre', g' :: gs') :: (pre, g :: gs) :: below, pushToken tokens g x⟩
      = .next ⟨(pre, g :: gs) :: below, tokens⟩ := by
  cases hcall : g'.call with
  | mk o g'' =>
    rw [hcall] at h
    cases h
    simp only [Closure.turn, hcall, popToken_pushToken]

/-- Generators that yield finite sequences emit the results of their choices. -/
theorem emitsEach_of_yields {gs : List Gen} {xss : List (List (List Char))}
    (h : List.Forall₂ Gen.Yields gs xss) : EmitsEach gs xss := by
  induction h with
  | nil =>
    intro pre below tokens g g' x hcall
    refine .result ?_ .refl
    have hstatic : g'.holdsStaticGen = g.holdsStaticGen := by
      rw [← g.holdsStaticGen_call, hcall]
    simp [Closure.turn, hcall, extend, choiceResult, choiceTokens, pushToken, hstatic]
  | @cons h ys hs yss hh _ ih =>
    intro pre below tokens g g' x hcall
    have hstatic : g'.holdsStaticGen = g.holdsStaticGen := by
      rw [← g.holdsStaticGen_call, hcall]
    have htoken : pushToken tokens g x = pushToken tokens g' x := by
      rw [pushToken, pushToken, hstatic]
    -- the frame pushed for `x` emits its results and is popped
    obtain ⟨h', hnone, hemits⟩ :=
      ih.frame hh (pre ++ x) ((pre, g' :: h :: hs) :: below) (pushToken tokens g' x)
    have hpush : Closure.turn ⟨(pre, g :: h :: hs) :: below, tokens⟩
        = .next ⟨(pre ++ x, h :: hs) :: (pre, g' :: h :: hs) :: below, pushToken tokens g' x⟩ := by
      simp [Closure.turn, hcall]
    have hpop : Closure.Emits
        ⟨(pre ++ x, h' :: hs) :: (pre, g' :: h :: hs) :: below, pushToken tokens g' x⟩ []
        ⟨(pre, g' :: h :: hs) :: below, tokens⟩ := .round (turn_exhausted hnone) .refl
    rw [htoken]
    simpa using Closure.Emits.round hpush (hemits.trans hpop)

/-! ## What the closure returns -/

/-- A turn that goes round belongs to the call in progress. -/
theorem Closure.Returns.round {c c' : Closure} {rs : List (Option GlobResult)}
    (hturn : c.turn = .next c') (h : c'.Returns rs) : c.Returns rs := by
  cases h with
  | nil => exact .nil
  | cons hcall hrest => exact .cons (exits_of_next hturn hcall) hrest

/-- The calls return what the closure emits and go on from there. -/
theorem Closure.Emits.returns {c c' : Closure} {rs : List GlobResult}
    {rest : List (Option GlobResult)} (h : c.Emits rs c') (hrest : c'.Returns rest) :
    c.Returns (rs.map some ++ rest) := by
  induction h with
  | refl => exact hrest
  | round hturn _ ih => exact (ih hrest).round hturn
  | result hturn _ ih => exact .cons (exits_of_exit hturn) (ih hrest)

/-- A closure whose stack is empty returns none on every call. -/
theorem returns_replicate_none (tokens : List (List Char)) (n : Nat) :
    Closure.Returns ⟨[], tokens⟩ (List.replicate n none) := by
  induction n with
  | zero => exact .nil
  | succ n ih => exact .cons (exits_of_exit rfl) ih

/-- The calls return the results of the choices in the order of `choices`, then none. -/
theorem returns_choices {gs : List Gen} {xss : List (List (List Char))} (hne : gs ≠ [])
    (h : List.Forall₂ Gen.Yields gs xss) (n : Nat) :
    (globClosure gs).Returns
      ((choices xss).map (some ∘ choiceResult gs) ++ List.replicate n none) := by
  cases h with
  | nil => exact absurd rfl hne
  | @cons g xs gs xss hg hgs =>
    obtain ⟨g', hnone, hemits⟩ := (emitsEach_of_yields hgs).frame hg [] [] []
    have hlast : Closure.turn ⟨[([], g' :: gs)], []⟩ = .next ⟨[], []⟩ := by
      cases hcall : g'.call with
      | mk o g'' =>
        rw [hcall] at hnone
        cases hnone
        simp [Closure.turn, hcall, popToken]
    have hreturns := hemits.returns ((returns_replicate_none [] n).round hlast)
    have hresults : frameResults [] [] (g :: gs) (xs :: xss)
        = (choices (xs :: xss)).map (choiceResult (g :: gs)) :=
      List.map_congr_left fun c _ => rfl
    rw [hresults, List.map_map] at hreturns
    exact hreturns

/-- The closure for components that each yield a finite sequence of texts returns, call by call, one
result for every choice of a value and its position in each component, in the lexicographic order of
the positions: the concatenation of the chosen values, with those of the components that are not
static as tokens. After them it returns none however often it is called. -/
theorem globClosure_returns (gs : List Gen) (xss : List (List (List Char))) (hne : gs ≠ [])
    (h : List.Forall₂ Gen.Yields gs xss) :
    ∃ cs : List (List (List Char × Nat)),
      cs.Pairwise (List.Lex fun p q => p.2 < q.2) ∧
      (∀ c, c ∈ cs ↔ List.Forall₂ (fun p xs => xs[p.2]? = some p.1) c xss) ∧
      ∀ n, (globClosure gs).Returns
        (cs.map (fun c => some (choiceResult gs (c.map (·.1)))) ++ List.replicate n none) := by
  refine ⟨choices (xss.map List.zipIdx), ?_, ?_, ?_⟩
  · apply pairwise_choices
    intro l hl
    obtain ⟨xs, -, rfl⟩ := List.mem_map.1 hl
    refine List.pairwise_map.1 ?_
    rw [List.zipIdx_map_snd]
    exact List.pairwise_lt_range'
  · intro c
    rw [mem_choices, List.forall₂_map_right_iff]
    simp only [List.mem_zipIdx_iff_getElem?]
  · intro n
    have hmap : choices xss = (choices (xss.map List.zipIdx)).map (List.map (·.1)) := by
      rw [← choices_map, List.map_map]
      simp [Function.comp_def, List.zipIdx_map_fst]
    have hreturns := returns_choices hne h n
    rw [hmap, List.map_map] at hreturns
    exact hreturns

/-- The components of the pattern `/{a,b}-[1-2]`. -/
def letterNumber : List Gen :=
  [makeStaticGen "/".toList, makeSetGen ["a".toList, "b".toList], makeStaticGen "-".toList,
    makeRangeGen 1 1 2 1]

/-- What the components of `letterNumber` yield. -/
def letterNumberValues : List (List (List Char)) :=
  [["/".toList], ["a".toList, "b".toList], ["-".toList], ["1".toList, "2".toList]]

theorem letterNumber_yields : List.Forall₂ Gen.Yields letterNumber letterNumberValues := by
  refine .cons ?_ (.cons ?_ (.cons ?_ (.cons ?_ .nil)))
  · exact .value rfl (.done rfl)
  · exact .value rfl (.value rfl (.done rfl))
  · exact .value rfl (.done rfl)
  · exact .value rfl (.value rfl (.done rfl))

/-- The pattern of a set and a range is enumerated to its end. -/
theorem letterNumber_returns :
    ∃ cs : List (List (List Char × Nat)),
      cs.Pairwise (List.Lex fun p q => p.2 < q.2) ∧
      (∀ c, c ∈ cs ↔ List.Forall₂ (fun p xs => xs[p.2]? = some p.1) c letterNumberValues) ∧
      ∀ n, (globClosure letterNumber).Returns
        (cs.map (fun c => some (choiceResult letterNumber (c.map (·.1)))) ++
          List.replicate n none) :=
  globClosure_returns letterNumber letterNumberValues (by decide) letterNumber_yields

example : runFuel Closure.turn 4 (globClosure letterNumber) = some (.ok
    (some ⟨"/a-1".toList, ["a".toList, "1".toList]⟩,
      ⟨[("/a-".toList, [.range 1 2 2 1]),
        ("/a".toList, [.static none, .range 1 1 2 1]),
        ("/".toList, [.set ["a".toList, "b".toList] 1, .static (some "-".toList), .range 1 1 2 1]),
        ([], .static none :: letterNumber.drop 1)], ["a".toList]⟩)) := by decide

end Beast2.Burl
