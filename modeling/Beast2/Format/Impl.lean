import Mathlib.Data.List.Basic

/-!
# The scanner and the two loops of `format_to`

`format_to(dest, fs, args...)` runs `detail::format_impl`: `next` cuts the format string into
segments, `do_arg` writes the segments up to and including the next placeholder and then the
argument, and `operator()` does so for each argument and afterwards writes what is left
(`format.hpp:27-143`). The string overload sends everything through `appendstream`, whose buffer
appends to `dest` (`format.hpp:145-212`).

The two cursors `p0 ≤ p` into the format string are kept as the text between them and the text
from `p` to `end`, so a state with the cursors out of order cannot be built. A C++ string is the
list of its characters.
-/

namespace Beast2.Format

/-- A `std::invalid_argument` and its text, as `detail::throw_invalid_argument` throws it. -/
structure InvalidArgument where
  what : String
deriving DecidableEq, Repr

/-- `format.hpp:72` and `format.hpp:98`. -/
def unmatchedOpenError : InvalidArgument := ⟨"invalid format string, unmatched \x7b"⟩

/-- `format.hpp:84` and `format.hpp:101`. -/
def unmatchedCloseError : InvalidArgument := ⟨"invalid format string, unmatched \x7d"⟩

/-- `format.hpp:136`. -/
def tooFewError : InvalidArgument := ⟨"too few format arguments provided"⟩

/-- The members of `format_impl`: `os` is what the stream has received, `seg` the text from `p0`
to `p`, `rest` the text from `p` to `end`. Reference: `format.hpp:27`. -/
structure FormatImpl where
  os : List Char
  seg : List Char
  rest : List Char
  hasPlaceholder : Bool := false
deriving DecidableEq, Repr

/-- An exception leaving the call, with what the stream had received by then. -/
structure Thrown where
  error : InvalidArgument
  os : List Char
deriving DecidableEq, Repr

/-- `string_view(p0, (p - k) - p0)`, where `t` is the text from `p0` to `p`. -/
def upTo (t : List Char) (k : Nat) : List Char := t.take (t.length - k)

/-- The `while (p != end)` loop of `next`, over the text from `p0` to `p`, the text from `p` to
`end` and the two pending flags. It returns the segment, the text after the new `p` (which is also
the new `p0`) and `has_placeholder`. Reference: `format.hpp:53-107`. -/
def nextLoop : List Char → List Char → Bool → Bool →
    Except InvalidArgument (List Char × List Char × Bool)
  | seg, [], unmatchedOpen, unmatchedClose =>
    if unmatchedOpen then .error unmatchedOpenError
    else if unmatchedClose then .error unmatchedCloseError
    else .ok (seg, [], false)
  | seg, c :: rest, unmatchedOpen, unmatchedClose =>
    if unmatchedOpen then
      if c = '{' then .ok (upTo (seg ++ [c]) 1, rest, false)
      else if c = '}' then .ok (upTo (seg ++ [c]) 2, rest, true)
      else .error unmatchedOpenError
    else if unmatchedClose then
      if c = '}' then .ok (upTo (seg ++ [c]) 1, rest, false)
      else .error unmatchedCloseError
    else nextLoop (seg ++ [c]) rest (c == '{') (c == '}')

namespace FormatImpl

/-- The constructor: both cursors at the start of the format string. Reference: `format.hpp:36`. -/
def init (os fs : List Char) : FormatImpl := { os, seg := [], rest := fs }

/-- `os.write(seg.data(), seg.size())` and `os << arg`. -/
def write (s : FormatImpl) (t : List Char) : FormatImpl := { s with os := s.os ++ t }

/-- The characters from `p0` to `end`. -/
def size (s : FormatImpl) : Nat := s.seg.length + s.rest.length

/-- `format_impl::next`. Reference: `format.hpp:47`. -/
def next (s : FormatImpl) : Except InvalidArgument (List Char × FormatImpl) :=
  match nextLoop s.seg s.rest false false with
  | .error e => .error e
  | .ok (t, rest, hp) => .ok (t, { s with seg := [], rest := rest, hasPlaceholder := hp })

end FormatImpl

/-- What `nextLoop` leaves to scan is no longer than what it was given, and shorter when it returns
a segment. -/
theorem nextLoop_length : ∀ {seg rest : List Char} {o k : Bool} {t rest' : List Char} {hp : Bool},
    nextLoop seg rest o k = .ok (t, rest', hp) →
      rest'.length ≤ seg.length + rest.length ∧
        (t ≠ [] → rest'.length < seg.length + rest.length)
  | seg, [], o, k, t, rest', hp, h => by
    cases o <;> cases k <;> simp [nextLoop] at h
    obtain ⟨rfl, rfl, rfl⟩ := h
    refine ⟨by simp, ?_⟩
    intro ht
    simpa using List.length_pos_iff.2 ht
  | seg, c :: rest, o, k, t, rest', hp, h => by
    rw [nextLoop] at h
    split at h
    · split at h
      · cases h; simp; omega
      · split at h
        · cases h; simp; omega
        · cases h
    · split at h
      · split at h
        · cases h; simp; omega
        · cases h
      · have hlen := nextLoop_length h
        rw [List.length_append, List.length_singleton, Nat.add_right_comm] at hlen
        exact hlen

namespace FormatImpl

@[simp] theorem write_os (s : FormatImpl) (t : List Char) : (s.write t).os = s.os ++ t := rfl
@[simp] theorem write_seg (s : FormatImpl) (t : List Char) : (s.write t).seg = s.seg := rfl
@[simp] theorem write_rest (s : FormatImpl) (t : List Char) : (s.write t).rest = s.rest := rfl
@[simp] theorem write_hasPlaceholder (s : FormatImpl) (t : List Char) :
    (s.write t).hasPlaceholder = s.hasPlaceholder := rfl
@[simp] theorem write_size (s : FormatImpl) (t : List Char) : (s.write t).size = s.size := rfl

/-- `next` moves `p0` forward past every segment it returns. -/
theorem next_size {s s' : FormatImpl} {t : List Char} (h : s.next = .ok (t, s')) :
    s'.size ≤ s.size ∧ (t ≠ [] → s'.size < s.size) := by
  unfold next at h
  split at h
  · cases h
  · next hl =>
    cases h
    simpa [size] using nextLoop_length hl

end FormatImpl

/-- The `while(seg.size())` loop of `do_arg`. Reference: `format.hpp:114-120`. -/
def doArgLoop (seg : List Char) (s : FormatImpl) : Except Thrown FormatImpl :=
  if seg = [] then .ok s
  else
    if s.hasPlaceholder then .ok (s.write seg)
    else
      match _h : (s.write seg).next with
      | .error e => .error ⟨e, (s.write seg).os⟩
      | .ok (seg', s') => doArgLoop seg' s'
termination_by (s.size, if seg = [] then 0 else 1)
decreasing_by
  -- an empty segment leaves `p0` where it is but ends the loop
  have := FormatImpl.next_size _h
  simp only [FormatImpl.write_size] at this
  rw [Prod.lex_def]
  by_cases hs : seg' = []
  · simp_all; omega
  · exact .inl (this.2 hs)

/-- `format_impl::do_arg`. Reference: `format.hpp:110`. -/
def doArg (s : FormatImpl) (arg : List Char) : Except Thrown FormatImpl :=
  match s.next with
  | .error e => .error ⟨e, s.os⟩
  | .ok (seg, s) =>
    match doArgLoop seg s with
    | .error e => .error e
    | .ok s => .ok (if s.hasPlaceholder then s.write arg else s)

/-- The `do ... while(seg.size())` loop of `operator()`. Reference: `format.hpp:131-141`. -/
def tailLoop (s : FormatImpl) : Except Thrown FormatImpl :=
  match _h : s.next with
  | .error e => .error ⟨e, s.os⟩
  | .ok (seg, s') =>
    if s'.hasPlaceholder then .error ⟨tooFewError, s'.os⟩
    else if _hs : seg = [] then .ok s'
    else tailLoop (s'.write seg)
termination_by s.size
decreasing_by exact (FormatImpl.next_size _h).2 _hs

/-- `format_impl::operator()`, on the texts that the arguments' `operator<<` write. Reference:
`format.hpp:125`. -/
def call (s : FormatImpl) (args : List (List Char)) : Except Thrown FormatImpl :=
  match args.foldlM doArg s with
  | .error e => .error e
  | .ok s => tailLoop s

/-- `format_to(std::string& dest, fs, args...)`: the new content of `dest`, or the exception with
the content it leaves behind. Reference: `format.hpp:193-212`. -/
def formatTo (dest fs : List Char) (args : List (List Char)) : Except Thrown (List Char) :=
  (call (.init dest fs) args).map (·.os)

end Beast2.Format
