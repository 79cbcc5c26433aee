import Beast2.RouteRule.Rules

/-!
# Which route patterns `path_rule` reads

A route pattern is a text `L₀ P₁ L₁ ... Pₙ Lₙ` of literals and parameters (`Pattern`), and reading
it back means one segment per parameter with the literal before it as its prefix, one segment for a
literal at the end, the iterator at the end of the pattern, and segments that print as the pattern
(`Pattern.ReadsBack`).

`path_rule_t::parse` reads a parameter with `grammar::parse` on the view `(it, end)`, which succeeds
only if the parameter is all that is left and does not advance `it`; the test for a second parameter
that follows therefore finds the type character of the parameter just read. So the rule fails at the
first `:` or `*` of any text (`pathLoop_param`), and reads back exactly the patterns without
parameters (`readsBack_iff`).
-/

namespace Beast2.RouteRule

open Grammar

/-- A parameter of a route pattern: its type, an identifier, a constraint, empty for none, and an
optional modifier. Reference: `param-segment` in the grammar of `route_rule.hpp:134-146`. -/
structure Param where
  ptype : Char
  name : List Char
  constraint : List Char := []
  modifier : Option Char := none
  ptype_ok : ptype = ':' ∨ ptype = '*'
  name_ok : ∃ c tl, name = c :: tl ∧ c.isAlpha = true ∧ ∀ d ∈ tl, identChar d = true
  constraint_ok : ∀ c ∈ constraint, constraintChar c = true
  modifier_ok : ∀ m ∈ modifier, isModifier m = true

/-- A constraint as it stands in a pattern. -/
def constraintText (constraint : List Char) : List Char :=
  if constraint = [] then [] else '(' :: constraint ++ [')']

/-- A parameter as it stands in a pattern. -/
def Param.text (p : Param) : List Char :=
  p.ptype :: (p.name ++ constraintText p.constraint ++ p.modifier.toList)

/-- The characters that would become part of the parameter if they followed it. -/
def Param.Extends (p : Param) (c : Char) : Prop :=
  p.modifier = none ∧
    (isModifier c = true ∨ p.constraint = [] ∧ (c = '(' ∨ identChar c = true))

/-- A literal: no character of it starts a parameter. -/
def Literal (l : List Char) : Prop := ∀ c ∈ l, ¬ (c = ':' ∨ c = '*')

/-- A route pattern `L₀ P₁ L₁ ... Pₙ Lₙ`. -/
structure Pattern where
  lead : List Char
  params : List (Param × List Char)
  lead_literal : Literal lead
  params_literal : ∀ q ∈ params, Literal q.2
  between : ∀ q ∈ params.dropLast, q.2 ≠ []
  apart : ∀ q ∈ params, ∀ c ∈ q.2.head?, ¬ q.1.Extends c

/-- The pattern's text. -/
def Pattern.text (p : Pattern) : List Char :=
  p.lead ++ p.params.flatMap fun q => q.1.text ++ q.2

/-- A segment with its prefix as text. -/
structure SegText where
  lit : List Char
  name : List Char := []
  constraint : List Char := []
  ptype : Option Char := none
  modifier : Option Char := none
deriving DecidableEq, Repr

/-- The texts of a segment of the pattern `s`. -/
def RouteSeg.read (s : List Char) (v : RouteSeg) : SegText :=
  ⟨v.prefixView.text s, v.name, v.constraint, v.ptype, v.modifier⟩

/-- A segment printed. Reference: `to_string` of `test/unit/server/route_rule.cpp:71`. -/
def SegText.print (v : SegText) : List Char :=
  v.lit ++ v.ptype.toList ++ v.name ++ constraintText v.constraint ++ v.modifier.toList

/-- The segments of the literal `l` followed by parameters: one per parameter, with the literal
before it, and one for a non-empty literal at the end. -/
def segsFrom : List Char → List (Param × List Char) → List SegText
  | l, [] => if l = [] then [] else [{ lit := l }]
  | l, (p, l') :: qs => ⟨l, p.name, p.constraint, some p.ptype, p.modifier⟩ :: segsFrom l' qs

/-- `path_rule` reads the pattern back. -/
def Pattern.ReadsBack (p : Pattern) : Prop :=
  ∃ segs, pathRule p.text 0 = (.ok segs, p.text.length) ∧
    segs.map (RouteSeg.read p.text) = segsFrom p.lead p.params ∧
    (segs.map (RouteSeg.read p.text)).flatMap SegText.print = p.text

/-! ## The loop -/

/-- The loop moves `it` over a literal. -/
theorem pathLoop_literal {l : List Char} (hl : Literal l) (rest : List Char) (it it1 : Nat)
    (segs : List RouteSeg) :
    pathLoop (l ++ rest) it it1 segs = pathLoop rest (it + l.length) it1 segs := by
  induction l generalizing it with
  | nil => rfl
  | cons c l ih =>
    obtain ⟨hc, hl⟩ := List.forall_mem_cons.1 hl
    rw [List.cons_append, pathLoop, if_neg hc, ih hl, List.length_cons, Nat.add_right_comm,
      Nat.add_assoc]

/-- The loop fails at the first character that starts a parameter, whatever follows it. -/
theorem pathLoop_param {c : Char} (hc : c = ':' ∨ c = '*') (tl : List Char) (it it1 : Nat)
    (segs : List RouteSeg) : ∃ e, pathLoop (c :: tl) it it1 segs = .error e := by
  rw [pathLoop, if_pos hc]
  split
  · exact ⟨_, rfl⟩
  · exact ⟨_, dif_pos hc⟩

/-- The view of a whole text shows it. -/
theorem StringView.text_whole (s : List Char) : (StringView.ofRange 0 s.length).text s = s := by
  simp [StringView.ofRange, StringView.text]

/-! ## Patterns -/

/-- `path_rule` on a pattern that is one literal. -/
theorem pathRule_literal {l : List Char} (hl : Literal l) :
    pathRule l 0
      = (.ok (if l = [] then [] else [{ prefixView := .ofRange 0 l.length }]), l.length) := by
  have h := pathLoop_literal hl [] 0 0 []
  rw [List.append_nil, Nat.zero_add] at h
  have hend : pathLoop [] l.length 0 [] = .ok (l.length, 0, []) := by rw [pathLoop]
  rw [pathRule, List.drop_zero, h, hend]
  by_cases hl : l = []
  · simp [hl]
  · have : (0 : Nat) ≠ l.length := fun h0 => hl (List.length_eq_zero_iff.1 h0.symm)
    simp [hl, this]

/-- `path_rule` on a pattern with a parameter. -/
theorem pathRule_param (p : Pattern) (q : Param × List Char) (qs : List (Param × List Char))
    (hp : p.params = q :: qs) : ∃ e, pathRule p.text 0 = (.error e, 0) := by
  obtain ⟨e, he⟩ := pathLoop_param q.1.ptype_ok
    (q.1.name ++ constraintText q.1.constraint ++ q.1.modifier.toList ++ q.2 ++
      qs.flatMap fun q => q.1.text ++ q.2) (0 + p.lead.length) 0 []
  refine ⟨e, ?_⟩
  rw [← pathLoop_literal p.lead_literal] at he
  have htext : p.text = p.lead ++ q.1.ptype :: (q.1.name ++ constraintText q.1.constraint ++
      q.1.modifier.toList ++ q.2 ++ qs.flatMap fun q => q.1.text ++ q.2) := by
    simp [Pattern.text, hp, Param.text]
  rw [pathRule, List.drop_zero, htext, he]

/-- `path_rule` reads back exactly the patterns without parameters. -/
theorem readsBack_iff (p : Pattern) : p.ReadsBack ↔ p.params = [] := by
  constructor
  · rintro ⟨segs, hparse, -, -⟩
    cases hp : p.params with
    | nil => rfl
    | cons q qs =>
      obtain ⟨e, he⟩ := pathRule_param p q qs hp
      rw [he] at hparse
      cases hparse
  · intro hp
    have htext : p.text = p.lead := by simp [Pattern.text, hp]
    refine ⟨_, htext ▸ pathRule_literal p.lead_literal, ?_⟩
    rw [hp, segsFrom]
    by_cases hl : p.text = []
    · simp [hl, ← htext]
    · simp [hl, ← htext, RouteSeg.read, StringView.text_whole, SegText.print, constraintText]

/-- The parameter `:id`. -/
def idParam : Param where
  ptype := ':'
  name := ['i', 'd']
  ptype_ok := .inl rfl
  name_ok := ⟨'i', ['d'], rfl, rfl, List.forall_mem_singleton.2 rfl⟩
  constraint_ok := by simp
  modifier_ok := by simp

/-- The pattern `/:id`. -/
def idPattern : Pattern where
  lead := ['/']
  params := [(idParam, [])]
  lead_literal := by simp [Literal]
  params_literal := by simp [Literal]
  between := by simp
  apart := by simp

/-- `path_rule` does not read `/:id`. -/
theorem idPattern_not_readsBack : idPattern.text = "/:id".toList ∧ ¬ idPattern.ReadsBack := by
  refine ⟨rfl, ?_⟩
  rintro ⟨segs, hparse, -, -⟩
  obtain ⟨e, he⟩ := pathRule_param idPattern _ [] rfl
  rw [he] at hparse
  cases hparse

end Beast2.RouteRule
