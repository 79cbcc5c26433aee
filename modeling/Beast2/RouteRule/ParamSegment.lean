import Beast2.RouteRule.Pattern

/-!
# What `param_segment_rule` reads

`param_segment_rule` reads a parameter in three parts that share one iterator: a name, a constraint
in parentheses, and a modifier. It succeeds exactly on the texts that start with a parameter
(`StartsParam`), takes the longest one, and what it returns prints as what it took; and it reads
every parameter back in front of a text that does not extend it (`paramSegmentRule_exact`).

Each part has two lemmas, one for what it reads and one for what it has read, and so has the whole
(`paramSegmentRule_append`, `exists_param_of_ok`).
-/

namespace Beast2.RouteRule

open Grammar

/-- A text starts with a parameter: a type character, a letter and all identifier characters after
it, and, if a parenthesis is next, a constraint that is not empty and is closed. -/
def StartsParam (it : List Char) : Prop :=
  ∃ c d ident rest, it = c :: d :: (ident ++ rest) ∧ (c = ':' ∨ c = '*') ∧ d.isAlpha = true ∧
    (∀ e ∈ ident, identChar e = true) ∧ StopsAt identChar rest ∧
    (rest.head? = some '(' → ∃ constraint tl, rest = '(' :: constraint ++ ')' :: tl ∧
      constraint ≠ [] ∧ ∀ e ∈ constraint, constraintChar e = true)

/-- The segment of a parameter. -/
def Param.seg (p : Param) : RouteSeg where
  name := p.name
  constraint := p.constraint
  ptype := some p.ptype
  modifier := p.modifier

/-- The segment of a parameter printed: type, name, constraint if there is one, modifier. -/
def RouteSeg.print (v : RouteSeg) : List Char :=
  v.ptype.toList ++ v.name ++ constraintText v.constraint ++ v.modifier.toList

theorem Param.print_seg (p : Param) : p.seg.print = p.text := by
  simp [RouteSeg.print, Param.seg, Param.text]

/-! ## The name -/

theorem paramNameRule_append {d : Char} {ident rest : List Char} (hd : d.isAlpha = true)
    (hident : ∀ e ∈ ident, identChar e = true) (hrest : StopsAt identChar rest) :
    paramNameRule (d :: (ident ++ rest)) = .ok (d :: ident, rest) := by
  rw [paramNameRule, if_pos hd, takeWhile_append_of_stopsAt hident hrest,
    dropWhile_append_of_stopsAt hident hrest]

/-- A name that is read is a letter and all identifier characters after it. -/
theorem paramNameRule_ok {it name rest : List Char} (h : paramNameRule it = .ok (name, rest)) :
    ∃ d ident, name = d :: ident ∧ it = name ++ rest ∧ d.isAlpha = true ∧
      (∀ e ∈ ident, identChar e = true) ∧ StopsAt identChar rest := by
  cases it with
  | nil => cases h
  | cons d tl =>
    rw [paramNameRule] at h
    split at h
    · next hd =>
      cases h
      refine ⟨d, tl.takeWhile identChar, rfl, ?_, hd, ?_, ?_⟩
      · rw [List.cons_append, List.takeWhile_append_dropWhile]
      · exact fun e he => List.mem_takeWhile_imp he
      · exact stopsAt_dropWhile tl
    · cases h

/-! ## The constraint -/

/-- Without a parenthesis there is no constraint. -/
theorem constraintRule_of_ne {it : List Char} (h : it.head? ≠ some '(') :
    constraintRule it = .ok ([], it) := by
  unfold constraintRule
  split
  · exact absurd rfl h
  · rfl

theorem constraintRule_append {constraint : List Char} (hne : constraint ≠ [])
    (hc : ∀ e ∈ constraint, constraintChar e = true) (rest : List Char) :
    constraintRule ('(' :: constraint ++ ')' :: rest) = .ok (constraint, rest) := by
  have hall : ∀ e ∈ '(' :: constraint, constraintChar e = true :=
    List.forall_mem_cons.2 ⟨by decide, hc⟩
  have hstop : StopsAt constraintChar (')' :: rest) := by
    intro _ heq
    cases heq
    decide
  have hlen : ¬ ('(' :: constraint).length ≤ 1 := by
    have := List.length_pos_iff.2 hne
    rw [List.length_cons]
    omega
  have htake := takeWhile_append_of_stopsAt hall hstop
  have hdrop := dropWhile_append_of_stopsAt hall hstop
  rw [List.cons_append] at htake hdrop ⊢
  simp only [constraintRule, htake, hdrop, if_neg hlen, if_true, List.tail_cons]

/-- A constraint that is read is closed and not empty, unless there is no parenthesis. -/
theorem constraintRule_ok {it constraint rest : List Char}
    (h : constraintRule it = .ok (constraint, rest)) :
    it = constraintText constraint ++ rest ∧ (∀ e ∈ constraint, constraintChar e = true) ∧
      (constraint = [] → rest.head? ≠ some '(') ∧ (it.head? = some '(' → constraint ≠ []) := by
  unfold constraintRule at h
  split at h
  · next tl =>
    have hsplit : ('(' :: tl).takeWhile constraintChar ++ ('(' :: tl).dropWhile constraintChar =
        '(' :: tl := List.takeWhile_append_dropWhile
    have hrun : ('(' :: tl).takeWhile constraintChar = '(' :: tl.takeWhile constraintChar := rfl
    simp only [hrun] at h hsplit
    split at h
    · cases h
    · next hlen =>
      split at h
      · cases h
      · next c r hdrop =>
        split at h
        · next hc =>
          cases h
          subst hc
          have hne : tl.takeWhile constraintChar ≠ [] := by
            intro hnil
            simp [hnil] at hlen
          rw [hdrop] at hsplit
          refine ⟨?_, fun e he => List.mem_takeWhile_imp he, fun hnil => absurd hnil hne,
            fun _ => hne⟩
          rw [List.tail_cons, constraintText, if_neg hne, ← hsplit]
          simp
        · cases h
  · next hne =>
    cases h
    have hhead : it.head? ≠ some '(' := by
      intro hhead
      obtain ⟨tl, rfl⟩ := List.head?_eq_some_iff.1 hhead
      exact hne tl rfl
    exact ⟨rfl, fun e he => absurd he List.not_mem_nil, fun _ => hhead,
      fun hparen => absurd hparen hhead⟩

/-! ## The modifier -/

/-- A modifier is no identifier character and no parenthesis. -/
theorem identChar_of_isModifier {m : Char} (h : isModifier m = true) :
    identChar m = false ∧ m ≠ '(' := by
  have hm : m = '?' ∨ m = '*' ∨ m = '+' := by simpa [isModifier, or_assoc] using h
  rcases hm with rfl | rfl | rfl <;> decide

/-- The modifier at the front of a text, and the text behind it. -/
def takeModifier : List Char → Option Char × List Char
  | [] => (none, [])
  | m :: tl => if isModifier m then (some m, tl) else (none, m :: tl)

theorem takeModifier_append {modifier : Option Char} {rest : List Char}
    (hmodifier : ∀ m ∈ modifier, isModifier m = true)
    (hrest : modifier = none → StopsAt isModifier rest) :
    takeModifier (modifier.toList ++ rest) = (modifier, rest) := by
  cases modifier with
  | some m =>
    show takeModifier (m :: rest) = _
    rw [takeModifier, if_pos (hmodifier m rfl)]
  | none =>
    cases rest with
    | nil => rfl
    | cons c rest =>
      show takeModifier (c :: rest) = _
      rw [takeModifier, if_neg (Bool.eq_false_iff.1 (hrest rfl c rfl))]

/-- A modifier that is there is taken. -/
theorem takeModifier_eq {it rest : List Char} {modifier : Option Char}
    (h : takeModifier it = (modifier, rest)) :
    it = modifier.toList ++ rest ∧ (∀ m ∈ modifier, isModifier m = true) ∧
      (modifier = none → StopsAt isModifier rest) := by
  cases it with
  | nil =>
    cases h
    refine ⟨rfl, ?_, ?_⟩
    · intro _ heq
      cases heq
    · intro _ _ heq
      cases heq
  | cons c tl =>
    rw [takeModifier] at h
    split at h
    · next hc =>
      cases h
      refine ⟨rfl, ?_, ?_⟩
      · intro _ heq
        cases heq
        exact hc
      · intro heq
        cases heq
    · next hc =>
      cases h
      refine ⟨rfl, ?_, ?_⟩
      · intro _ heq
        cases heq
      · intro _ _ heq
        cases heq
        exact Bool.eq_false_iff.2 hc

/-! ## The parameter -/

/-- The rule reads its three parts one after the other. -/
theorem paramSegmentRule_eq {c : Char} {it name it₁ constraint it₂ : List Char}
    (hc : c = ':' ∨ c = '*') (hname : paramNameRule it = .ok (name, it₁))
    (hconstraint : constraintRule it₁ = .ok (constraint, it₂)) :
    paramSegmentRule (c :: it) =
      .ok ({ ptype := some c, name, constraint, modifier := (takeModifier it₂).1 },
        (takeModifier it₂).2) := by
  have hptype : ¬ (c ≠ ':' ∧ c ≠ '*') := fun h => hc.elim h.1 h.2
  simp only [paramSegmentRule, if_neg hptype, hname]
  rw [hconstraint]
  cases it₂ with
  | nil => rfl
  | cons m tl =>
    simp only [takeModifier]
    split <;> rfl

/-- The three parts that the rule has read. -/
theorem paramSegmentRule_ok {it rest : List Char} {v : RouteSeg}
    (h : paramSegmentRule it = .ok (v, rest)) :
    ∃ c it₁ name it₂ constraint it₃ modifier, it = c :: it₁ ∧ (c = ':' ∨ c = '*') ∧
      paramNameRule it₁ = .ok (name, it₂) ∧ constraintRule it₂ = .ok (constraint, it₃) ∧
      takeModifier it₃ = (modifier, rest) ∧
      v = { ptype := some c, name, constraint, modifier } := by
  cases it with
  | nil => cases h
  | cons c it₁ =>
    by_cases hc : c = ':' ∨ c = '*'
    · have hptype : ¬ (c ≠ ':' ∧ c ≠ '*') := fun h => hc.elim h.1 h.2
      cases hname : paramNameRule it₁ with
      | error e =>
        simp only [paramSegmentRule, if_neg hptype, hname] at h
        cases h
      | ok r =>
        obtain ⟨name, it₂⟩ := r
        cases hconstraint : constraintRule it₂ with
        | error e =>
          simp only [paramSegmentRule, if_neg hptype, hname, hconstraint] at h
          cases h
        | ok r =>
          obtain ⟨constraint, it₃⟩ := r
          rw [paramSegmentRule_eq hc hname hconstraint] at h
          cases h
          exact ⟨c, it₁, name, it₂, constraint, it₃, _, rfl, hc, hname, hconstraint, rfl, rfl⟩
    · rw [paramSegmentRule, if_pos (not_or.1 hc)] at h
      cases h

/-- What does not extend a parameter does not extend its name. -/
theorem Param.stopsAt_identChar (p : Param) {rest : List Char}
    (hrest : ∀ c ∈ rest.head?, ¬ p.Extends c) :
    StopsAt identChar (constraintText p.constraint ++ (p.modifier.toList ++ rest)) := by
  intro c hc
  unfold constraintText at hc
  split at hc
  · next hnone =>
    cases hm : p.modifier with
    | some m =>
      rw [hm] at hc
      cases hc
      exact (identChar_of_isModifier (p.modifier_ok _ hm)).1
    | none =>
      rw [hm] at hc
      refine Bool.eq_false_iff.2 fun hident => hrest c hc ⟨hm, .inr ⟨hnone, .inr hident⟩⟩
  · cases hc
    decide

/-- The rule reads every parameter that what follows does not extend. -/
theorem paramSegmentRule_append (p : Param) {rest : List Char}
    (hrest : ∀ c ∈ rest.head?, ¬ p.Extends c) :
    paramSegmentRule (p.text ++ rest) = .ok (p.seg, rest) := by
  obtain ⟨d, ident, hname, hd, hident⟩ := p.name_ok
  have htext : p.text ++ rest = p.ptype :: (d :: (ident ++
      (constraintText p.constraint ++ (p.modifier.toList ++ rest)))) := by
    simp [Param.text, hname]
  have hconstraint : constraintRule (constraintText p.constraint ++ (p.modifier.toList ++ rest)) =
      .ok (p.constraint, p.modifier.toList ++ rest) := by
    by_cases hnone : p.constraint = []
    · rw [constraintText, if_pos hnone, List.nil_append, hnone]
      refine constraintRule_of_ne fun hparen => ?_
      cases hm : p.modifier with
      | some m =>
        rw [hm] at hparen
        cases hparen
        exact (identChar_of_isModifier (p.modifier_ok _ hm)).2 rfl
      | none =>
        rw [hm] at hparen
        exact hrest '(' hparen ⟨hm, .inr ⟨hnone, .inl rfl⟩⟩
    · have h := constraintRule_append hnone p.constraint_ok (p.modifier.toList ++ rest)
      rw [constraintText, if_neg hnone]
      simpa using h
  have hnext : p.modifier = none → StopsAt isModifier rest := fun hnone c hc =>
    Bool.eq_false_iff.2 fun hm => hrest c hc ⟨hnone, .inl hm⟩
  rw [htext, paramSegmentRule_eq p.ptype_ok
    (paramNameRule_append hd hident (p.stopsAt_identChar hrest)) hconstraint,
    takeModifier_append p.modifier_ok hnext, Param.seg, hname]

/-- What the rule reads is a parameter that what follows does not extend. -/
theorem exists_param_of_ok {it rest : List Char} {v : RouteSeg}
    (h : paramSegmentRule it = .ok (v, rest)) :
    ∃ p : Param, v = p.seg ∧ it = p.text ++ rest ∧ ∀ c ∈ rest.head?, ¬ p.Extends c := by
  obtain ⟨c, it₁, name, it₂, constraint, it₃, modifier, rfl, hc, hname, hconstraint, htake, rfl⟩ :=
    paramSegmentRule_ok h
  obtain ⟨d, ident, rfl, rfl, hd, hident, hstop⟩ := paramNameRule_ok hname
  obtain ⟨rfl, hchars, hparen, -⟩ := constraintRule_ok hconstraint
  obtain ⟨rfl, hmodifier, hnext⟩ := takeModifier_eq htake
  refine ⟨⟨c, d :: ident, constraint, modifier, hc, ⟨d, ident, rfl, hd, hident⟩, hchars,
    hmodifier⟩, rfl, by simp [Param.text], ?_⟩
  rintro e he ⟨hnone, hext⟩
  cases hnone
  rcases hext with hm | ⟨hempty, hext⟩
  · exact Bool.eq_false_iff.1 (hnext rfl e he) hm
  · cases hempty
    rcases hext with rfl | hident'
    · exact hparen rfl he
    · exact Bool.eq_false_iff.1 (hstop e he) hident'

/-! ## The rule -/

/-- The rule succeeds exactly on the texts that start with a parameter. -/
theorem startsParam_iff (it : List Char) :
    (∃ v rest, paramSegmentRule it = .ok (v, rest)) ↔ StartsParam it := by
  constructor
  · rintro ⟨v, rest, h⟩
    obtain ⟨c, it₁, name, it₂, constraint, it₃, modifier, rfl, hc, hname, hconstraint, -, -⟩ :=
      paramSegmentRule_ok h
    obtain ⟨d, ident, rfl, rfl, hd, hident, hstop⟩ := paramNameRule_ok hname
    obtain ⟨hit₂, hchars, -, hparen⟩ := constraintRule_ok hconstraint
    refine ⟨c, d, ident, it₂, rfl, hc, hd, hident, hstop, fun hhead => ?_⟩
    have hne := hparen hhead
    refine ⟨constraint, it₃, ?_, hne, hchars⟩
    rw [constraintText, if_neg hne] at hit₂
    simpa using hit₂
  · rintro ⟨c, d, ident, rest, rfl, hc, hd, hident, hstop, hparen⟩
    have hname := paramNameRule_append hd hident hstop
    by_cases hhead : rest.head? = some '('
    · obtain ⟨constraint, tl, rfl, hne, hchars⟩ := hparen hhead
      exact ⟨_, _, paramSegmentRule_eq hc hname (constraintRule_append hne hchars tl)⟩
    · exact ⟨_, _, paramSegmentRule_eq hc hname (constraintRule_of_ne hhead)⟩

/-- `param_segment_rule` is an exact longest-match parser. It succeeds exactly on the texts that
start with a parameter; what it returns is a parameter that prints as the text it took and that the
text left does not extend; and it reads back every parameter that what follows does not extend. -/
theorem paramSegmentRule_exact :
    (∀ it, (∃ v rest, paramSegmentRule it = .ok (v, rest)) ↔ StartsParam it) ∧
    (∀ it v rest, paramSegmentRule it = .ok (v, rest) → it = v.print ++ rest ∧
      ∃ p : Param, v = p.seg ∧ ∀ c ∈ rest.head?, ¬ p.Extends c) ∧
    ∀ (p : Param) (rest : List Char), (∀ c ∈ rest.head?, ¬ p.Extends c) →
      paramSegmentRule (p.seg.print ++ rest) = .ok (p.seg, rest) := by
  refine ⟨startsParam_iff, fun it v rest h => ?_, fun p rest hrest => ?_⟩
  · obtain ⟨p, rfl, hit, hrest⟩ := exists_param_of_ok h
    exact ⟨by rw [p.print_seg, hit], p, rfl, hrest⟩
  · rw [p.print_seg]
    exact paramSegmentRule_append p hrest

end Beast2.RouteRule
