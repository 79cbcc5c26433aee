import Beast2.Lib.Binary64
import Beast2.Lib.Grammar
import Beast2.Burl.AnyStream

/-!
# The rate of `--limit-rate`

`--limit-rate` is a number with an optional unit. `parse_human_readable_size` reads the number with
`std::stod`, multiplies it by the unit and casts the double to 64 bits (`options.cpp:158-207`). A
double that has no 64 bits makes the cast undefined, so what the machine then returns is a parameter
(`overflow`). `parse_args` takes the rate for both directions, and `connect_to` sets it on every new
stream.

A stream that is limited to a positive number of bytes a second offers something at every operation
on buffers that are not empty, and moves any number of bytes after so many waits; one that is
limited to nothing never offers a byte (`keepsMoving_iff`). So a rate of digits and a unit is as
good as its number is not zero and fits (`limitRate_keepsMoving_iff`).
-/

namespace Beast2.Burl

open Grammar Machine

/-! ## The text -/

/-- What `std::stod` throws. -/
inductive StodException where
  | invalidArgument
  | outOfRange
deriving DecidableEq, Repr

/-- `std::stod` of a text of digits and dots: the number in front, rounded to a double, unless it is
outside the range of the normal ones. -/
def stod (t : List Char) : Except StodException ℚ :=
  let whole := t.takeWhile Char.isDigit
  let fraction := match t.dropWhile Char.isDigit with
    | '.' :: t => t.takeWhile Char.isDigit
    | _ => []
  let r : ℚ := Nat.ofDigitChars 10 (whole ++ fraction) 0 / 10 ^ fraction.length
  if whole ++ fraction = [] then .error .invalidArgument
  else if 0 < r ∧ r < 2 ^ (-1022 : ℤ) then .error .outOfRange
  else if 2 ^ (1024 : ℤ) ≤ Binary64.round r then .error .outOfRange
  else .ok (Binary64.round r)

/-- `ci_delim_rule`. Reference: `options.cpp:161-184`. -/
def ciDelimRule (ch : Char) : Rule Char
  | [] => .error .needMore
  | c :: it => if c.toLower != ch.toLower then .error .mismatch else .ok (ch.toLower, it)

/-- The rule of `parse_human_readable_size`, with the index of the unit. Reference:
`options.cpp:186-195`. -/
def sizeRule : Rule (List Char × Option (Nat × Char)) := fun it => do
  let (size, it) ← tokenRule (fun c => c.isDigit || c == '.') it
  let (unit, it) ← optionalRule (variantsRule (['B', 'K', 'M', 'G', 'T', 'P'].map ciDelimRule)) it
  .ok ((size, unit), it)

/-- `static_cast<std::uint64_t>` of a double that is not negative. -/
def castUInt64 (overflow : ℚ → BitVec 64) (x : ℚ) : BitVec 64 :=
  if x < 2 ^ 64 then BitVec.ofNat 64 ⌊x⌋₊ else overflow x

/-- `parse_human_readable_size`. The product of a double and a power of two is exact, or too large
for the cast. Reference: `options.cpp:158`. -/
def parseHumanReadableSize (overflow : ℚ → BitVec 64) (sv : List Char) :
    Except StodException (Except Error (BitVec 64)) :=
  match sizeRule.parseAll sv with
  | .error e => .ok (.error e)
  | .ok (size, unit) => do
    let x ← stod size
    let index := (unit.map (·.1)).getD 0
    .ok (.ok (castUInt64 overflow (x * 2 ^ (10 * index))))

/-- What `parse_args` throws at `--limit-rate`. -/
inductive RateThrown where
  | runtimeError (what : String)
  | stod (e : StodException)
deriving DecidableEq, Repr

/-- The rates of `operation_config`. Reference: `options.hpp:42-43`. -/
structure RateConfig where
  recvpersecond : Option (BitVec 64) := none
  sendpersecond : Option (BitVec 64) := none
deriving DecidableEq, Repr

/-- `parse_args` of `--limit-rate`. Reference: `options.cpp:563-571`. -/
def parseLimitRate (overflow : ℚ → BitVec 64) (text : List Char) : Except RateThrown RateConfig :=
  match parseHumanReadableSize overflow text with
  | .error e => .error (.stod e)
  | .ok (.error _) => .error (.runtimeError "unsupported limit-rate unit")
  | .ok (.ok limit) => .ok { recvpersecond := some limit, sendpersecond := some limit }

/-- The limits that `connect_to` sets on a new stream. Reference: `main.cpp:451-455`. -/
def RateConfig.setLimits {β ε : Type} (oc : RateConfig) (stream : AnyStream β ε) :
    AnyStream β ε :=
  let stream := match oc.recvpersecond with
    | some limit => stream.readLimit limit
    | none => stream
  match oc.sendpersecond with
  | some limit => stream.writeLimit limit
  | none => stream

/-! ## Progress -/

/-- An event of a direction whose limit stands and whose callers have buffers that are not empty. -/
def HalfEvent.Feeds {β ε : Type} (capy : Capy β) : HalfEvent β ε → Prop
  | .limit _ => False
  | .start buffers => 0 < capy.size buffers
  | _ => True

/-- An event that gets on besides: the wait does not fail and the stream beneath transfers
something. -/
def HalfEvent.Moves {β ε : Type} (capy : Capy β) : HalfEvent β ε → Prop
  | .limit _ => False
  | .start buffers => 0 < capy.size buffers
  | .waited ec => ec = none
  | .transferred _ n => 0 < n.toNat

/-- With these limits every operation offers something, one that is outstanding can always get on,
and any amount is moved after three events and one wait for each of its bytes. -/
structure KeepsMoving (oc : RateConfig) : Prop where
  offers : ∀ {β ε : Type} (capy : Capy β) (d : Dir) (es : List (StreamEvent β ε))
    (s : AnyStream β ε), run (AnyStream.step capy) (oc.setLimits {}) es = some s →
    (∀ e ∈ part d es, e.Feeds capy) →
    ∀ offered, (s.half d).op = some (.transfer offered) → 0 < capy.size offered
  continues : ∀ {β ε : Type} (capy : Capy β) (d : Dir) (es : List (StreamEvent β ε))
    (s : AnyStream β ε), run (AnyStream.step capy) (oc.setLimits {}) es = some s →
    (∀ e ∈ part d es, e.Feeds capy) → (s.half d).op ≠ none →
    ∃ e, e.Moves capy ∧ (s.step capy (d, e)).isSome
  finishes : ∀ {β ε : Type} (capy : Capy β) (d : Dir) (es : List (StreamEvent β ε))
    (s : AnyStream β ε), run (AnyStream.step capy) (oc.setLimits {}) es = some s →
    (∀ e ∈ part d es, e.Moves capy) →
    waits d es ≤ bytes d es + 1 ∧
      ∀ amount, 3 * amount ≤ (part d es).length → amount ≤ bytes d es

/-- What holds of a direction with a limit whose callers have buffers that are not empty. -/
structure Half.Fed {β ε : Type} (capy : Capy β) (limit : BitVec 64) (h : Half β ε) : Prop where
  limit : h.limit = limit
  wait_pos : ∀ buffers, h.op = some (.wait buffers) → 0 < capy.size buffers
  offered_pos : ∀ offered, h.op = some (.transfer offered) → 0 < capy.size offered

section

variable {β ε : Type} {capy : Capy β} {limit : BitVec 64} {h h' : Half β ε}

theorem toNat_pos_of_ne_zero {n : BitVec 64} (h : n ≠ 0) : 0 < n.toNat :=
  Nat.pos_of_ne_zero fun hzero => h (BitVec.eq_of_toNat_eq hzero)

/-- A positive number of bytes that is left makes an offer. -/
theorem Half.Fed.transfer (hlimit : h.limit = limit) (hremain : h.remain ≠ 0) {buffers : β}
    (hbuffers : 0 < capy.size buffers) : (h.transfer capy buffers).Fed capy limit := by
  refine ⟨hlimit, fun b hb => ?_, fun offered hoffered => ?_⟩
  · cases hb
  · cases hoffered
    exact capy.size_front_pos buffers h.remain hbuffers (toNat_pos_of_ne_zero hremain)

/-- A direction without an operation. -/
theorem Half.Fed.of_idle (hlimit : h.limit = limit) (hop : h.op = none) : h.Fed capy limit :=
  ⟨hlimit, fun _ hb => absurd (hop.symm.trans hb) (Option.some_ne_none _).symm,
    fun _ hoffered => absurd (hop.symm.trans hoffered) (Option.some_ne_none _).symm⟩

/-- With a positive limit every step keeps the offers from being empty. -/
theorem Half.Fed.step (hfed : h.Fed capy limit) (hne : limit ≠ 0) {e : HalfEvent β ε}
    (he : e.Feeds capy) (hstep : h.step capy e = some h') : h'.Fed capy limit := by
  rcases Half.step_cases hstep with ⟨b, rfl, hop, rfl⟩ | ⟨buffers, rfl, hop, rfl⟩ |
    ⟨ec, buffers, rfl, hop, rfl⟩ | ⟨ec, n, offered, rfl, hop, hn, rfl⟩
  · exact he.elim
  · unfold Half.start
    split
    · refine ⟨hfed.limit, fun b hb => ?_, fun offered hoffered => ?_⟩
      · cases hb
        exact he
      · cases hoffered
    · next hremain =>
      exact .transfer hfed.limit (by simpa using hremain) he
  · cases ec with
    | some ec => exact .of_idle hfed.limit rfl
    | none =>
      refine .transfer (h := { h with remain := h.limit }) hfed.limit ?_ (hfed.wait_pos buffers hop)
      show h.limit ≠ 0
      rw [hfed.limit]
      exact hne
  · exact .of_idle hfed.limit rfl

/-- An operation that is outstanding can get on. -/
theorem Half.Fed.continues (hfed : h.Fed capy limit) (hop : h.op ≠ none) :
    ∃ e : HalfEvent β ε, e.Moves capy ∧ (h.step capy e).isSome := by
  cases hsome : h.op with
  | none => exact absurd hsome hop
  | some op =>
    cases op with
    | wait buffers =>
      refine ⟨.waited none, rfl, ?_⟩
      simp [Half.step, hsome]
    | transfer offered =>
      have hpos : 1 ≤ capy.size offered := hfed.offered_pos offered hsome
      refine ⟨.transferred none 1, Nat.one_pos, ?_⟩
      simp [Half.step, hsome, hpos]

/-- The events that an operation may still take before it transfers something. -/
def Half.pending (h : Half β ε) : Nat :=
  match h.op with
  | none => 2
  | some (.wait _) => 1
  | some (.transfer _) => 0

/-- The waits that it may still take. -/
def Half.pendingWaits (h : Half β ε) : Nat :=
  match h.op with
  | some (.transfer _) => 0
  | _ => 1

/-- An event that gets on takes from what is pending, unless it transfers something. -/
theorem Half.step_pending {e : HalfEvent β ε} (he : e.Moves capy)
    (hstep : h.step capy e = some h') :
    1 + h'.pending ≤ h.pending + 3 * e.bytes ∧
      e.waits + h'.pendingWaits ≤ h.pendingWaits + e.bytes := by
  rcases Half.step_cases hstep with ⟨b, rfl, hop, rfl⟩ | ⟨buffers, rfl, hop, rfl⟩ |
    ⟨ec, buffers, rfl, hop, rfl⟩ | ⟨ec, n, offered, rfl, hop, hn, rfl⟩
  · exact he.elim
  · unfold Half.start
    split
    · simp [Half.pending, Half.pendingWaits, hop, HalfEvent.bytes, HalfEvent.waits]
    · simp [Half.pending, Half.pendingWaits, hop, HalfEvent.bytes, HalfEvent.waits, Half.transfer]
  · cases he
    simp [Half.pending, Half.pendingWaits, hop, HalfEvent.bytes, HalfEvent.waits, Half.waited,
      Half.transfer]
  · have hpos : 0 < n.toNat := he
    simp only [Half.pending, Half.pendingWaits, hop, HalfEvent.bytes, HalfEvent.waits,
      Half.transferred, Half.complete]
    omega

/-- Both directions of a new stream that is limited. -/
theorem half_setLimits (limit : BitVec 64) (d : Dir) :
    (({ recvpersecond := some limit, sendpersecond := some limit } : RateConfig).setLimits
      ({} : AnyStream β ε)).half d = ({} : Half β ε).setLimit limit := by
  cases d with
  | read | write => rfl

/-- The steps of a run that gets on, and its waits, are bounded by the bytes it transfers. -/
theorem Half.run_pending {es : List (HalfEvent β ε)} (hop : h.op = none)
    (hes : ∀ e ∈ es, e.Moves capy) (hrun : run (Half.step capy) h es = some h') :
    es.length ≤ 3 * (es.map HalfEvent.bytes).sum + 2 ∧
      (es.map HalfEvent.waits).sum ≤ (es.map HalfEvent.bytes).sum + 1 := by
  have hpending : h.pending = 2 := by simp [Half.pending, hop]
  have hpendingWaits : h.pendingWaits = 1 := by simp [Half.pendingWaits, hop]
  have hsteps := run_le (P := fun _ => True) Half.pending (fun _ => 1) (fun e => 3 * e.bytes)
    (fun _ e _ _ he hstep => ⟨trivial, (Half.step_pending (hes e he) hstep).1⟩) trivial hrun
  have hwaits := run_le (P := fun _ => True) Half.pendingWaits HalfEvent.waits HalfEvent.bytes
    (fun _ e _ _ he hstep => ⟨trivial, (Half.step_pending (hes e he) hstep).2⟩) trivial hrun
  rw [List.sum_map_mul_left, List.map_const', List.sum_replicate_nat] at hsteps
  constructor
  · omega
  · omega

/-- Every state that a stream with a positive limit reaches has no empty offer. -/
theorem fed_of_run (hne : limit ≠ 0) {d : Dir} {es : List (StreamEvent β ε)} {s : AnyStream β ε}
    (hrun : run (AnyStream.step capy)
      (RateConfig.setLimits { recvpersecond := some limit, sendpersecond := some limit } {}) es =
        some s)
    (hes : ∀ e ∈ part d es, e.Feeds capy) : (s.half d).Fed capy limit := by
  have hhalf := AnyStream.run_half hrun d
  rw [half_setLimits] at hhalf
  exact run_inv (fun _ e _ hfed he hstep => Half.Fed.step hfed hne (hes e he) hstep)
    (Half.Fed.of_idle rfl rfl) hhalf

end

/-- A limit keeps both directions moving exactly if it is not zero. -/
theorem keepsMoving_iff (limit : BitVec 64) :
    KeepsMoving { recvpersecond := some limit, sendpersecond := some limit } ↔ limit ≠ 0 := by
  constructor
  · rintro hmoving rfl
    -- an operation on one byte waits and then offers nothing
    have hoffers := @KeepsMoving.offers _ hmoving _ Unit byteBuffers .read
      [(.read, .start [0]), (.read, .waited none)] _ rfl
    have hempty := hoffers (by simp [part, HalfEvent.Feeds, byteBuffers]) [] rfl
    exact Nat.lt_irrefl 0 hempty
  · intro hne
    refine ⟨fun capy d es s hrun hes => (fed_of_run hne hrun hes).offered_pos,
      fun capy d es s hrun hes hop => ?_, fun capy d es s hrun hes => ?_⟩
    · obtain ⟨e, he, hsome⟩ := (fed_of_run hne hrun hes).continues hop
      refine ⟨e, he, ?_⟩
      cases d with
      | read | write => simpa [AnyStream.step, AnyStream.half] using hsome
    · have hhalf := AnyStream.run_half hrun d
      rw [half_setLimits] at hhalf
      obtain ⟨hsteps, hwaits⟩ := Half.run_pending rfl hes hhalf
      refine ⟨hwaits, fun amount hamount => ?_⟩
      unfold bytes
      omega

/-! ## Digits and a unit -/

/-- The power of two that a unit stands for. -/
def unitExponent : Option Char → Option Nat
  | none => some 0
  | some c =>
    match c with
    | 'B' | 'b' => some 0
    | 'K' | 'k' => some 10
    | 'M' | 'm' => some 20
    | 'G' | 'g' => some 30
    | 'T' | 't' => some 40
    | 'P' | 'p' => some 50
    | _ => none

/-- A whole number is out of the range of doubles: it is at least half a unit in the last place
above the largest one, and `std::stod` throws. -/
def OutOfRange (n : Nat) : Prop := 2 ^ 1024 ≤ n + 2 ^ 970

instance (n : Nat) : Decidable (OutOfRange n) := Nat.decLe _ _

section

variable {digits : List Char} {unit : Option Char} {k : Nat}

/-- The unit is read as its exponent, and ends the number. -/
theorem unitRule_unit (hunit : unitExponent unit = some k) :
    ∃ o, optionalRule (variantsRule (['B', 'K', 'M', 'G', 'T', 'P'].map ciDelimRule)) unit.toList =
      .ok (o, []) ∧ 10 * (o.map (·.1)).getD 0 = k ∧
      StopsAt (fun c => c.isDigit || c == '.') unit.toList := by
  cases unit with
  | none =>
    cases hunit
    exact ⟨none, rfl, rfl, fun c hc => by cases hc⟩
  | some c =>
    have hstops : ∀ c : Char, (c.isDigit || c == '.') = false →
        StopsAt (fun c => c.isDigit || c == '.') [c] := by
      intro c hc x hx
      cases hx
      exact hc
    simp only [unitExponent] at hunit
    split at hunit
    case h_13 => cases hunit
    all_goals
      cases hunit
      exact ⟨_, rfl, rfl, hstops _ rfl⟩

/-- A text of digits and a unit is read as the digits and the exponent. -/
theorem parseAll_sizeRule (hne : digits ≠ []) (hdigits : ∀ c ∈ digits, c.isDigit = true)
    (hunit : unitExponent unit = some k) :
    ∃ o, sizeRule.parseAll (digits ++ unit.toList) = .ok (digits, o) ∧
      10 * (o.map (·.1)).getD 0 = k := by
  obtain ⟨o, hrule, hk, hstops⟩ := unitRule_unit hunit
  have htoken := tokenRule_append hne
    (fun c hc => by simp [hdigits c hc] : ∀ c ∈ digits, (c.isDigit || c == '.') = true) hstops
  refine ⟨o, ?_, hk⟩
  have hsize : sizeRule (digits ++ unit.toList) = .ok ((digits, o), []) := by
    simp only [sizeRule, bind, Except.bind, htoken, hrule]
  rw [Rule.parseAll, hsize]

theorem le_round_iff {n : Nat} : 2 ^ (1024 : ℤ) ≤ Binary64.round n ↔ OutOfRange n := by
  have hiff := @Binary64.round_natCast_mul_lt_iff n 0 1024 (by omega) (by omega)
  have hexp : 1024 - 54 = 970 := rfl
  rw [pow_zero, pow_zero, mul_one, mul_one, hexp] at hiff
  have hcast : (2 : ℚ) ^ (1024 : ℤ) = 2 ^ 1024 := zpow_natCast 2 1024
  rw [hcast, ← not_lt, hiff, not_lt, OutOfRange]

theorem not_outOfRange {n : Nat} (hn : n < 2 ^ 970) : ¬ OutOfRange n := by
  intro hrange
  have hle : 2 ^ 971 ≤ 2 ^ 1024 := pow_le_pow_right₀ one_le_two (by decide)
  have hdouble : 2 ^ 971 = 2 ^ 970 + 2 ^ 970 := by rw [pow_succ, Nat.mul_two]
  exact absurd (le_trans (hdouble ▸ hle) hrange) (Nat.not_le.2 (Nat.add_lt_add_right hn _))

/-- A unit multiplies by at most `2 ^ 50`. -/
theorem unitExponent_le (hunit : unitExponent unit = some k) : k ≤ 50 := by
  cases unit with
  | none =>
    cases hunit
    exact Nat.zero_le _
  | some c =>
    simp only [unitExponent] at hunit
    split at hunit
    case h_13 => cases hunit
    all_goals
      cases hunit
      decide

/-- Digits are read as their number, rounded to a double, if that is in range. -/
theorem stod_digits (hne : digits ≠ []) (hdigits : ∀ c ∈ digits, c.isDigit = true) :
    stod digits =
      if OutOfRange (Nat.ofDigitChars 10 digits 0) then .error .outOfRange
      else .ok (Binary64.round (Nat.ofDigitChars 10 digits 0)) := by
  have htake : digits.takeWhile Char.isDigit = digits := List.takeWhile_eq_self_iff.2 hdigits
  have hdrop : digits.dropWhile Char.isDigit = [] := List.dropWhile_eq_nil_iff.2 hdigits
  have hsmall : ¬ (0 < (Nat.ofDigitChars 10 digits 0 : ℚ) ∧
      (Nat.ofDigitChars 10 digits 0 : ℚ) < 2 ^ (-1022 : ℤ)) := by
    rintro ⟨hpos, hlt⟩
    have hone : (1 : ℚ) ≤ Nat.ofDigitChars 10 digits 0 := by exact_mod_cast hpos
    have hle : (2 : ℚ) ^ (-1022 : ℤ) ≤ 1 := zpow_le_one_of_nonpos₀ one_le_two (by decide)
    exact absurd (lt_of_lt_of_le hlt hle) (not_lt.2 hone)
  simp only [stod, htake, hdrop, List.append_nil, List.length_nil, pow_zero, div_one]
  rw [if_neg hne, if_neg hsmall]
  exact if_congr le_round_iff rfl rfl

/-- The rate of digits and a unit. -/
theorem parseLimitRate_digits (overflow : ℚ → BitVec 64) (hne : digits ≠ [])
    (hdigits : ∀ c ∈ digits, c.isDigit = true) (hunit : unitExponent unit = some k) :
    parseLimitRate overflow (digits ++ unit.toList) =
      if OutOfRange (Nat.ofDigitChars 10 digits 0) then .error (.stod .outOfRange)
      else
        let limit := castUInt64 overflow (Binary64.round (Nat.ofDigitChars 10 digits 0) * 2 ^ k)
        .ok { recvpersecond := some limit, sendpersecond := some limit } := by
  obtain ⟨o, hparse, rfl⟩ := parseAll_sizeRule hne hdigits hunit
  simp only [parseLimitRate, parseHumanReadableSize, hparse, stod_digits hne hdigits]
  by_cases hrange : OutOfRange (Nat.ofDigitChars 10 digits 0)
  · rw [if_pos hrange, if_pos hrange]
    rfl
  · rw [if_neg hrange, if_neg hrange]
    rfl

/-- A number from one on that fits is not cast to nothing. -/
theorem castUInt64_ne_zero (overflow : ℚ → BitVec 64) {n : Nat} (hn : n ≠ 0) (hk : k ≤ 50)
    (hfits : n * 2 ^ k + 2 ^ 10 < 2 ^ 64) :
    castUInt64 overflow (Binary64.round n * 2 ^ k) ≠ 0 := by
  have hlt : Binary64.round n * 2 ^ k < 2 ^ 64 :=
    (Binary64.round_natCast_mul_lt_iff (by omega) (by omega)).2 hfits
  have hround : 1 ≤ Binary64.round n := by
    have hcast : (1 : ℚ) ≤ n := by exact_mod_cast Nat.one_le_iff_ne_zero.2 hn
    have hpos : (0 : ℚ) < 2 ^ ((0 : ℤ) - 54) := zpow_pos two_pos _
    have hiff := Binary64.round_lt_two_zpow_iff (r := n) n.cast_nonneg (m := 0) (by decide)
    rw [zpow_zero] at hiff
    by_contra hsmall
    have hbelow := hiff.1 (not_le.1 hsmall)
    linarith
  have hone : 1 ≤ Binary64.round n * 2 ^ k :=
    one_le_mul_of_one_le_of_one_le hround (one_le_pow₀ one_le_two)
  have hfloor : 1 ≤ ⌊Binary64.round n * 2 ^ k⌋₊ := Nat.le_floor (by exact_mod_cast hone)
  have hfloor' : ⌊Binary64.round n * 2 ^ k⌋₊ < 2 ^ 64 :=
    (Nat.floor_lt (le_trans zero_le_one hone)).2 (by exact_mod_cast hlt)
  rw [castUInt64, if_pos hlt]
  intro hzero
  have hnat := congrArg BitVec.toNat hzero
  rw [BitVec.toNat_ofNat, Nat.mod_eq_of_lt hfloor'] at hnat
  exact absurd hnat (Nat.ne_of_gt hfloor)

/-- A rate that keeps every transfer moving, whatever the cast returns of a number that does not
fit, is not zero and fits. -/
theorem fits_of_keepsMoving (hne : digits ≠ []) (hdigits : ∀ c ∈ digits, c.isDigit = true)
    (hunit : unitExponent unit = some k) (hrange : ¬ OutOfRange (Nat.ofDigitChars 10 digits 0))
    (hmoving : ∀ overflow oc, parseLimitRate overflow (digits ++ unit.toList) = .ok oc →
      KeepsMoving oc) :
    Nat.ofDigitChars 10 digits 0 ≠ 0 ∧
      Nat.ofDigitChars 10 digits 0 * 2 ^ k + 2 ^ 10 < 2 ^ 64 := by
  have hk := unitExponent_le hunit
  have hcast : ∀ overflow,
      castUInt64 overflow (Binary64.round (Nat.ofDigitChars 10 digits 0) * 2 ^ k) ≠ 0 := by
    intro overflow
    have hparse := (parseLimitRate_digits overflow hne hdigits hunit).trans (if_neg hrange)
    exact (keepsMoving_iff _).1 (hmoving overflow _ hparse)
  constructor
  · intro hzero
    refine hcast (fun _ => 0) ?_
    rw [hzero, Nat.cast_zero, Binary64.round_zero, zero_mul]
    rfl
  · by_contra hfits
    refine hcast (fun _ => 0) ?_
    have hlarge : ¬ Binary64.round (Nat.ofDigitChars 10 digits 0) * 2 ^ k < 2 ^ 64 := fun hlt =>
      hfits ((Binary64.round_natCast_mul_lt_iff (by omega) (by omega)).1 hlt)
    rw [castUInt64, if_neg hlarge]

/-- A rate of digits and a unit keeps every transfer moving, whatever the cast returns of a number
that does not fit, exactly if the number is not zero and fits, or is so large that `std::stod`
throws. -/
theorem limitRate_keepsMoving_iff (hne : digits ≠ []) (hdigits : ∀ c ∈ digits, c.isDigit = true)
    (hunit : unitExponent unit = some k) :
    (∀ overflow oc, parseLimitRate overflow (digits ++ unit.toList) = .ok oc → KeepsMoving oc) ↔
      OutOfRange (Nat.ofDigitChars 10 digits 0) ∨
        Nat.ofDigitChars 10 digits 0 ≠ 0 ∧
          Nat.ofDigitChars 10 digits 0 * 2 ^ k + 2 ^ 10 < 2 ^ 64 := by
  constructor
  · intro hmoving
    by_cases hrange : OutOfRange (Nat.ofDigitChars 10 digits 0)
    · exact .inl hrange
    · exact .inr (fits_of_keepsMoving hne hdigits hunit hrange hmoving)
  · intro hcond overflow oc hoc
    rw [parseLimitRate_digits overflow hne hdigits hunit] at hoc
    split at hoc
    · cases hoc
    · next hrange =>
      obtain ⟨hzero, hfits⟩ := hcond.resolve_left hrange
      cases hoc
      exact (keepsMoving_iff _).2 (castUInt64_ne_zero overflow hzero (unitExponent_le hunit) hfits)

end

/-- Ten kilobytes a second. -/
theorem tenK_keepsMoving : unitExponent (some 'K') = some 10 ∧ ∀ overflow oc,
    parseLimitRate overflow ("10".toList ++ (some 'K').toList) = .ok oc → KeepsMoving oc :=
  ⟨rfl, (limitRate_keepsMoving_iff (by decide) (List.all_eq_true.1 rfl) rfl).2
    (.inr ⟨by decide, by decide⟩)⟩

/-- A rate of nothing is accepted and stops every transfer, and sixteen million terabytes are cast
to whatever the machine returns. -/
theorem zeroRate_not_keepsMoving :
    ¬ (∀ overflow oc, parseLimitRate overflow ("0".toList ++ (none : Option Char).toList) = .ok oc →
      KeepsMoving oc) ∧
    ¬ ∀ overflow oc, parseLimitRate overflow ("16777216".toList ++ (some 'T').toList) = .ok oc →
      KeepsMoving oc := by
  have hsmall : ∀ n, n < 2 ^ 64 → ¬ OutOfRange n := fun n hn =>
    not_outOfRange (lt_of_lt_of_le hn (pow_le_pow_right₀ one_le_two (by decide)))
  constructor
  · intro hmoving
    exact (fits_of_keepsMoving (k := 0) (by decide) (List.all_eq_true.1 rfl) rfl
      (hsmall _ (by decide)) hmoving).1 rfl
  · intro hmoving
    have hfits := (fits_of_keepsMoving (k := 40) (by decide) (List.all_eq_true.1 rfl) rfl
      (hsmall _ (by decide)) hmoving).2
    exact absurd hfits (by decide)

end Beast2.Burl
