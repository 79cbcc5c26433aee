import Beast2.Lib.Grammar

/-!
# The route-pattern rules

`param_segment_rule` reads one parameter of a route pattern and `path_rule` a whole pattern
(`src/route_rule.hpp`). An iterator of a rule is the list of the characters from it to `end`
(`Grammar.Rule`). `path_rule_t::parse` computes with four of them, so there an iterator is its
offset into the pattern, and the views it builds from two iterators are kept as such
(`StringView`): a view whose ends are in the wrong order has the size that the conversion of their
difference to `std::size_t` gives it. `route_seg::term`, which nothing sets or reads, is left out.
-/

namespace Beast2.RouteRule

open Grammar

/-- A `core::string_view` into the pattern: the offset of its first character and its size. -/
structure StringView where
  data : Nat
  size : Nat
deriving DecidableEq, Repr

/-- `string_view(first, last)`: the difference of the two, a negative one converted to 64 bits. -/
def StringView.ofRange (first last : Nat) : StringView :=
  ⟨first, if first ≤ last then last - first else 0x10000000000000000 - (first - last)⟩

/-- The text a view into `s` shows. -/
def StringView.text (s : List Char) (v : StringView) : List Char := (s.drop v.data).take v.size

/-- `constraint_char`. Reference: `route_rule.hpp:164`. -/
def constraintChar (ch : Char) : Bool :=
  0x20 ≤ ch.toNat && ch.toNat ≤ 0x7E && ch != ')'

/-- `ident_char`. Reference: `route_rule.hpp:174`. -/
def identChar (ch : Char) : Bool :=
  ('a' ≤ ch && ch ≤ 'z') || ('0' ≤ ch && ch ≤ '9') || ('A' ≤ ch && ch ≤ 'Z') || ch == '_'

/-- `constraint_rule`, empty for no constraint. Reference: `route_rule.hpp:188`. -/
def constraintRule : Rule (List Char)
  | '(' :: tl =>
    -- the scan starts at the parenthesis, which is a constraint character itself
    let run := ('(' :: tl).takeWhile constraintChar
    if run.length ≤ 1 then .error .syntaxError
    else match ('(' :: tl).dropWhile constraintChar with
      | [] => .error .syntaxError
      | c :: rest => if c = ')' then .ok (run.tail, rest) else .error .syntaxError
  | it => .ok ([], it)

/-- `param_name_rule`. Reference: `route_rule.hpp:230`. -/
def paramNameRule : Rule (List Char)
  | [] => .error .syntaxError
  | c :: tl =>
    if c.isAlpha then .ok (c :: tl.takeWhile identChar, tl.dropWhile identChar)
    else .error .syntaxError

/-- `route_seg`, with its `prefix` as a view into the pattern; a `ptype` or a `modifier` of 0 is
`none`. Reference: `route_rule.hpp:257`. -/
structure RouteSeg where
  prefixView : StringView := ⟨0, 0⟩
  name : List Char := []
  constraint : List Char := []
  ptype : Option Char := none
  modifier : Option Char := none
deriving DecidableEq, Repr

/-- The characters that `param_segment_rule` takes for a modifier. -/
def isModifier (c : Char) : Bool := c == '?' || c == '*' || c == '+'

/-- `param_segment_rule_t::parse`. Reference: `route_rule.hpp:268`. -/
def paramSegmentRule : Rule RouteSeg
  | [] => .error .syntaxError
  | c :: it =>
    if c ≠ ':' ∧ c ≠ '*' then .error .mismatch
    else match paramNameRule it with
      | .error e => .error e
      | .ok (name, it) =>
        match constraintRule it with
        | .error e => .error e
        | .ok (constraint, it) =>
          match it with
          | [] => .ok ({ ptype := some c, name, constraint }, [])
          | m :: tl =>
            if isModifier m then .ok ({ ptype := some c, name, constraint, modifier := some m }, tl)
            else .ok ({ ptype := some c, name, constraint }, m :: tl)

/-- The `while(it != end)` loop of `path_rule_t::parse`, over the characters from `it` to `end`, the
iterators `it` and `it1` and the segments so far. It returns both iterators and the segments.
Reference: `route_rule.hpp:334-361`. -/
def pathLoop (rest : List Char) (it it1 : Nat) (segs : List RouteSeg) :
    Except Error (Nat × Nat × List RouteSeg) :=
  match rest with
  | [] => .ok (it, it1, segs)
  | c :: tl =>
    if c = ':' ∨ c = '*' then
      match paramSegmentRule.parseAll (c :: tl) with
      | .error e => .error e
      | .ok rs =>
        -- `it` has not moved, so the test for a second parameter reads the first one's type again
        if h : c = ':' ∨ c = '*' then .error .syntaxError
        else pathLoop (c :: tl) it it (segs ++ [{ rs with prefixView := .ofRange it it1 }])
    else pathLoop tl (it + 1) it1 segs
termination_by rest.length
decreasing_by
  · exact absurd ‹c = ':' ∨ c = '*'› h
  · simp

/-- `path_rule_t::parse` on the range `[it0, end)` of the pattern `s`: the result, and the iterator
it leaves. Reference: `route_rule.hpp:325`. -/
def pathRule (s : List Char) (it0 : Nat) : Except Error (List RouteSeg) × Nat :=
  match pathLoop (s.drop it0) it0 it0 [] with
  | .error e => (.error e, it0)
  | .ok (it, it1, segs) =>
    let segs := if it1 ≠ it then segs ++ [{ prefixView := .ofRange it1 s.length }] else segs
    (.ok segs, it0 + (it - it1))

end Beast2.RouteRule
