import Beast2.Lib.Loop
import Mathlib.Data.List.Basic

/-!
# Generators of URL patterns

A URL pattern is a list of components: static text, a range of numbers or of letters, or a set of
texts. Each component is a generator, a closure that returns its values one by one and then none
(`Gen`). The closure that `make_glob_generator` returns enumerates the whole pattern with a stack of
partly consumed copies of the generators and a second stack for the tokens (`Closure`). Its `while`
loop need not end, so a call of it is the relation `Closure.Call`. Taking `front()` or `pop_back()`
of an empty vector is undefined in C++ and a fault here.
-/

namespace Beast2.Burl

open Loop

/-- The text of a number, with zeros before it up to a width. Reference: `glob.cpp:36-38`. -/
def padded (width : BitVec 8) (n : BitVec 64) : List Char :=
  let rs := Nat.toDigits 10 n.toNat
  List.replicate (width.toNat - rs.length) '0' ++ rs

/-- The alternatives of `variant_t`, with what each closure has captured. `std::uint64_t`,
`std::uint8_t` and the signed `char` are bit vectors. Reference: `glob.cpp:78`. -/
inductive Gen where
  | range (width : BitVec 8) (low high step : BitVec 64)
  | char (low high step : BitVec 8)
  | set (items : List (List Char)) (i : Nat)
  | static (s : Option (List Char))
deriving DecidableEq, Repr

/-- `make_range_gen`. Reference: `glob.cpp:26`. -/
def makeRangeGen (width : BitVec 8) (low high step : BitVec 64) : Gen := .range width low high step

/-- `make_char_gen`. Reference: `glob.cpp:44`. -/
def makeCharGen (low high step : BitVec 8) : Gen := .char low high step

/-- `make_set_gen`. Reference: `glob.cpp:56`. -/
def makeSetGen (items : List (List Char)) : Gen := .set items 0

/-- `make_static_gen`. Reference: `glob.cpp:68`. -/
def makeStaticGen (s : List Char) : Gen := .static (some s)

/-- A call of a generator: what it returns, and the generator afterwards. Reference:
`glob.cpp:32-40, 46-52, 58-64, 70-73`. -/
def Gen.call : Gen → Option (List Char) × Gen
  | .range width low high step =>
    if high < low then (none, .range width low high step)
    else (some (padded width low), .range width (low + step) high step)
  | .char low high step =>
    if high.slt low then (none, .char low high step)
    else (some [Char.ofNat low.toNat], .char (low + step) high step)
  | .set items i =>
    if i = items.length then (none, .set items i) else (items[i]?, .set items (i + 1))
  | .static s => (s, .static none)

/-- `holds_static_gen`. Reference: `glob.cpp:85`. -/
def Gen.holdsStaticGen : Gen → Bool
  | .static _ => true
  | _ => false

/-- A call leaves a generator what it is. -/
@[simp] theorem Gen.holdsStaticGen_call (g : Gen) : g.call.2.holdsStaticGen = g.holdsStaticGen := by
  cases g with
  | range width low high step => simp only [call]; split <;> rfl
  | char low high step => simp only [call]; split <;> rfl
  | set items i => simp only [call]; split <;> rfl
  | static s => rfl

/-- `glob_result`. Reference: `glob.hpp:21`. -/
structure GlobResult where
  result : List Char
  tokens : List (List Char)
deriving DecidableEq, Repr

/-- What the closure of `make_glob_generator` has captured. The back of the C++ stack is the head of
the list. Reference: `glob.cpp:176-179`. -/
structure Closure where
  stack : List (List Char × List Gen)
  tokens : List (List Char)
deriving DecidableEq, Repr

/-- An operation on an empty vector that C++ leaves undefined. -/
inductive Fault where
  | front
  | popBack
deriving DecidableEq, Repr

/-- The tokens with that of a generator, if it is one that has tokens. Reference:
`glob.cpp:189-190, 195-196`. -/
def pushToken (tokens : List (List Char)) (g : Gen) (o : List Char) : List (List Char) :=
  if g.holdsStaticGen then tokens else tokens ++ [o]

/-- The closure whose stack was just popped. Reference: `glob.cpp:205-207`. -/
def popToken (stack : List (List Char × List Gen)) (tokens : List (List Char)) :
    Except Fault Closure :=
  match stack with
  | [] => .ok ⟨[], tokens⟩
  | (_, []) :: _ => .error .front
  | (pre, g :: gs) :: below =>
    if g.holdsStaticGen then .ok ⟨(pre, g :: gs) :: below, tokens⟩
    else if tokens.isEmpty then .error .popBack
    else .ok ⟨(pre, g :: gs) :: below, tokens.dropLast⟩

/-- One turn of the closure's loop. Reference: `glob.cpp:180-211`. -/
def Closure.turn (c : Closure) : Turn Closure (Except Fault (Option GlobResult × Closure)) :=
  match c.stack with
  | [] => .exit (.ok (none, c))
  | (_, []) :: _ => .exit (.error .front)
  | (pre, g :: gs) :: below =>
    match g.call with
    | (some o, g) =>
      if gs.length + 1 = 1 then
        .exit (.ok (some ⟨pre ++ o, pushToken c.tokens g o⟩, ⟨(pre, g :: gs) :: below, c.tokens⟩))
      else .next ⟨(pre ++ o, gs) :: (pre, g :: gs) :: below, pushToken c.tokens g o⟩
    | (none, _) =>
      match popToken below c.tokens with
      | .ok c => .next c
      | .error e => .exit (.error e)

/-- A call of the closure that ends without a fault: what it returns and the closure afterwards. -/
def Closure.Call (c : Closure) (r : Option GlobResult) (c' : Closure) : Prop :=
  Exits turn c (.ok (r, c'))

/-- The closure for the components of a pattern. Reference: `glob.cpp:178-179`. -/
def globClosure (gs : List Gen) : Closure := ⟨[([], gs)], []⟩

end Beast2.Burl
