import Beast2.Burl.CookieOrder
import Beast2.Burl.Credentials

/-!
# Bad Set-Cookie fields

A server writes what it likes into its Set-Cookie fields, and `extract_cookies` is to take the
cookies it can and leave the rest. It calls `parse_cookie(sv).value()` on each field in turn, which
throws for a text that `parse_cookie` refuses; the exception leaves the loop and the transfer. And
`parse_cookie` adds any Max-Age that `std::stoll` reads to the clock, in ticks of 64 bits. So the
fields do no harm exactly if there is no jar, or none of them is refused and no Max-Age goes out of
the clock's range (`badFieldsSkipped_iff`).

The cookies of the model carry the exact sum of the clock and the Max-Age. `expiryTicks` is the sum
as the clock's type computes it.
-/

namespace Beast2.Burl

open Grammar Fields

/-! ## The expiry of a Max-Age -/

/-- A signed number of 64 bits, `none` for an overflow. -/
def int64 (x : Int) : Option Int :=
  if -0x8000000000000000 ≤ x ∧ x < 0x8000000000000000 then some x else none

/-- `system_clock::now() + seconds{ n }`: the seconds in ticks, then the sum. Reference:
`cookie.cpp:220-221`. -/
def expiryTicks (now n : Int) : Option Int := do
  let ticks ← int64 (n * second)
  int64 (now + ticks)

/-- The seconds of the Max-Age attributes of a Set-Cookie value. -/
def maxAges (sv : List Char) : List Int :=
  match cookieParser.parseAll sv with
  | .error _ => []
  | .ok (_, _, attrs) => attrs.filterMap fun a =>
    if attrKind a.1 = .maxAge then a.2.bind fun v => (stoll v).toOption else none

/-- A Max-Age that the clock's ticks can represent, and its sum with the clock as well. -/
def MaxAgeFits (now n : Int) : Prop :=
  -9223372036 ≤ n ∧ n ≤ 9223372036 ∧
    -0x8000000000000000 ≤ now + n * second ∧ now + n * second < 0x8000000000000000

/-- The expiry of a Max-Age that fits is computed without an overflow, and of no other. -/
theorem expiryTicks_eq_some_iff {now n : Int} :
    expiryTicks now n = some (now + n * second) ↔ MaxAgeFits now n := by
  have hticks : (-0x8000000000000000 ≤ n * second ∧ n * second < 0x8000000000000000) ↔
      -9223372036 ≤ n ∧ n ≤ 9223372036 := by
    unfold second
    omega
  unfold expiryTicks int64 MaxAgeFits
  by_cases hn : -0x8000000000000000 ≤ n * second ∧ n * second < 0x8000000000000000
  · obtain ⟨hlow, hhigh⟩ := hticks.1 hn
    rw [if_pos hn]
    show (if _ then some (now + n * second) else none) = _ ↔ _
    simp [hlow, hhigh]
  · rw [if_neg hn]
    constructor
    · intro h
      cases h
    · rintro ⟨hlow, hhigh, -⟩
      exact absurd (hticks.2 ⟨hlow, hhigh⟩) hn

/-! ## The loop over the fields -/

/-- The jar after the cookies of the values that `parse_cookie` accepts, from the `k`-th on. -/
def addAccepted {F : Type} (psl : Psl) (x : Exchange F) (url : Url) (jar : List Cookie) :
    Nat → List (List Char) → List Cookie
  | _, [] => jar
  | k, sv :: svs =>
    match parseCookie (x.clock k) sv with
    | .error _ => addAccepted psl x url jar (k + 1) svs
    | .ok c => addAccepted psl x url (add psl (x.addNow k) jar url c) (k + 1) svs

section

variable {F : Type} {psl : Psl} {x : Exchange F} {url : Url}

/-- Fields that are all accepted are all added. -/
theorem extractCookiesLoop_of_accepted {jar : List Cookie} {k : Nat} {svs : List (List Char)}
    (h : ∀ i sv, svs[i]? = some sv → ∃ c, parseCookie (x.clock (k + i)) sv = .ok c) :
    extractCookiesLoop psl x url jar k svs = (addAccepted psl x url jar k svs, true) := by
  induction svs generalizing jar k with
  | nil => rfl
  | cons sv svs ih =>
    obtain ⟨c, hc⟩ := h 0 sv rfl
    rw [Nat.add_zero] at hc
    rw [extractCookiesLoop, addAccepted, hc]
    refine ih fun i sv' hsv' => ?_
    rw [Nat.add_assoc, Nat.add_comm 1 i]
    exact h (i + 1) sv' hsv'

/-- The loop ends without an exception only if every field is accepted. -/
theorem accepted_of_extractCookiesLoop {jar : List Cookie} {k : Nat} {svs : List (List Char)}
    (h : (extractCookiesLoop psl x url jar k svs).2 = true) :
    ∀ i sv, svs[i]? = some sv → ∃ c, parseCookie (x.clock (k + i)) sv = .ok c := by
  induction svs generalizing jar k with
  | nil => nofun
  | cons sv svs ih =>
    rw [extractCookiesLoop] at h
    cases hparse : parseCookie (x.clock k) sv with
    | error e =>
      rw [hparse] at h
      cases h
    | ok c =>
      rw [hparse] at h
      intro i sv' hsv'
      cases i with
      | zero =>
        cases hsv'
        exact ⟨c, hparse⟩
      | succ i =>
        rw [← Nat.add_assoc, Nat.add_right_comm]
        exact ih h i sv' hsv'

end

section

variable {F : Type} [Container F] {psl : Psl} {x : Exchange F} {url : Url}
  {jar : Option (List Cookie)} {res : Response F}

/-- Bad Set-Cookie fields do no harm: `extract_cookies` ends without an exception, the jar has the
cookies of the values that are accepted, and every Max-Age of these gives its expiry. -/
structure BadFieldsSkipped (psl : Psl) (x : Exchange F) (url : Url) (jar : Option (List Cookie))
    (res : Response F) : Prop where
  ends : (extractCookies psl x url jar res).2 = true
  added : (extractCookies psl x url jar res).1 =
    jar.map (addAccepted psl x url · 0 (findAll res.fields Field.setCookie))
  expiry : jar.isSome → ∀ k sv, (findAll res.fields Field.setCookie)[k]? = some sv →
    ∀ c, parseCookie (x.clock k) sv = .ok c → ∀ n ∈ maxAges sv,
      expiryTicks (x.clock k).now n = some ((x.clock k).now + n * second)

/-- Bad Set-Cookie fields do no harm if and only if there is no jar, or there are none: every field
is accepted and its Max-Age, if it has one, fits the clock. -/
theorem badFieldsSkipped_iff :
    BadFieldsSkipped psl x url jar res ↔
      jar = none ∨ ∀ k sv, (findAll res.fields Field.setCookie)[k]? = some sv →
        (∃ c, parseCookie (x.clock k) sv = .ok c) ∧
          ∀ n ∈ maxAges sv, MaxAgeFits (x.clock k).now n := by
  cases jar with
  | none =>
    refine iff_of_true ⟨rfl, rfl, nofun⟩ (.inl rfl)
  | some jar =>
    rw [or_iff_right (Option.some_ne_none jar)]
    constructor
    · intro h k sv hsv
      obtain ⟨c, hc⟩ := accepted_of_extractCookiesLoop h.ends k sv hsv
      rw [Nat.zero_add] at hc
      refine ⟨⟨c, hc⟩, fun n hn => ?_⟩
      exact expiryTicks_eq_some_iff.1 (h.expiry rfl k sv hsv c hc n hn)
    · intro h
      have hloop : extractCookiesLoop psl x url jar 0 (findAll res.fields Field.setCookie) =
          (addAccepted psl x url jar 0 (findAll res.fields Field.setCookie), true) := by
        refine extractCookiesLoop_of_accepted fun i sv hsv => ?_
        rw [Nat.zero_add]
        exact (h i sv hsv).1
      refine ⟨?_, ?_, ?_⟩
      · rw [extractCookies, hloop]
      · rw [extractCookies, hloop]
        rfl
      · intro _ k sv hsv c hc n hn
        exact expiryTicks_eq_some_iff.2 ((h k sv hsv).2 n hn)

end

/-- A response whose first cookie has no name. -/
def namelessFirst : Response FieldList :=
  ⟨200, true, false, [(Field.setCookie, "=x".toList), (Field.setCookie, "a=1".toList)]⟩

/-- A response whose cookie is to live for more than 292 years. -/
def longLived : Response FieldList :=
  ⟨200, true, false, [(Field.setCookie, "a=1; Max-Age=9223372037".toList)]⟩

/-- A cookie without a name loses the one behind it and the transfer, and the expiry of a long
Max-Age overflows. -/
theorem badFields_not_skipped :
    extractCookies none (hop home) home (some []) namelessFirst = (some [], false) ∧
      ¬ BadFieldsSkipped none (hop home) home (some []) namelessFirst ∧
      ¬ BadFieldsSkipped none (hop home) home (some []) longLived := by
  refine ⟨by decide +kernel, ?_, ?_⟩
  · intro h
    have hends := h.ends
    revert hends
    decide +kernel
  · intro h
    have hexpiry := h.expiry rfl 0 "a=1; Max-Age=9223372037".toList (by decide +kernel) _
      (show parseCookie ((hop home).clock 0) "a=1; Max-Age=9223372037".toList = .ok
        { name := "a".toList, value := some "1".toList, expires := some 9223372037000000000 } by
          decide +kernel) 9223372037 (by decide +kernel)
    revert hexpiry
    decide +kernel

end Beast2.Burl
