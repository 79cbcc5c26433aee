import Beast2.Lib.Loop
import Mathlib.Data.List.Basic
import Mathlib.Tactic.IntervalCases

/-!
# Trying a request again

`retry` runs the task of a request until its outcome is not one to try again, and waits between the
attempts (`main.cpp:644-730`). Without `--retry-delay` the wait doubles from attempt to attempt, and
`next_delay` stops doubling it when it has reached ten minutes. It looks at the wait before it
doubles it, so that 512 seconds become 1024. What comes from outside is, for every attempt, the
outcome of the task, the clock's reading, whether `retry` was cancelled and whether the wait throws
(`Attempt`).

The loop ends for every sequence of attempts, since every turn takes one from the retries that are
left. The waits stay below the ten minutes exactly if one of the first ten attempts is not followed
by a wait, or `--retry-delay` is given (`retriesAsMeant_iff`).
-/

namespace Beast2.Burl

open Loop

/-- The error codes that `retry` tells apart. -/
inductive ErrorCode where
  | success
  | operationAborted
  | connectionRefused
  | binaryOutputToTty
  | other (value : Nat)
deriving DecidableEq, Repr

/-- How a task ends: with the status of the response, by a `system_error` or by another
exception. -/
inductive Outcome where
  | status (status : Nat)
  | systemError (code : ErrorCode)
  | exception
deriving DecidableEq, Repr

/-- The options of `operation_config` that `retry` depends on, times in ticks of the clock,
nanoseconds. Reference: `options.hpp:39-52`. -/
structure RetryConfig where
  retryDelay : Option Int := none
  retryMaxtime : Option Int := none
  reqRetry : BitVec 64 := 0
  retryConnrefused : Bool := false
  retryAllErrors : Bool := false
deriving DecidableEq, Repr

/-- What happens outside at one attempt: how the task ends, the clock's reading at `can_retry`,
whether the coroutine is cancelled after that, and whether the wait throws. -/
structure Attempt where
  outcome : Outcome
  now : Int
  cancelled : Bool
  waitThrows : Bool
deriving DecidableEq, Repr

/-- `is_transient_error`. Reference: `main.cpp:103`. -/
def isTransientError (status : Nat) : Bool :=
  match status with
  | 408 | 429 | 500 | 502 | 503 | 504 => true
  | _ => false

/-- The variables of the loop, the number of tasks run and the waits in seconds. Reference:
`main.cpp:650-657`. -/
structure RetryState where
  retries : BitVec 64
  backoff : Int := 1
  attempts : Nat := 0
  waits : List Int := []
deriving DecidableEq, Repr

/-- How `retry` ends: it returns, it rethrows what the task threw, or the wait throws. -/
inductive RetryEnding where
  | returned
  | rethrown
  | waitThrew
deriving DecidableEq, Repr

/-- `max_time`; `none` is `time_point::max()`. Reference: `main.cpp:652-654`. -/
def maxTime (oc : RetryConfig) (start : Int) : Option Int := oc.retryMaxtime.map (start + ·)

/-- `next_delay`: the wait in seconds and `backoff` after it. Reference: `main.cpp:656-663`. -/
def nextDelay (oc : RetryConfig) (backoff : Int) : Int × Int :=
  match oc.retryDelay with
  | some delay => (delay.tdiv 1000000000, backoff)
  | none =>
    let backoff := if backoff < 10 * 60 then backoff * 2 else backoff
    (backoff, backoff)

/-- `can_retry`. Reference: `main.cpp:665-683`. -/
def canRetry (oc : RetryConfig) (start : Int) (retries : BitVec 64) (now : Int) (ec : ErrorCode) :
    Bool :=
  if retries == 0 || (maxTime oc start).any (· < now) then false
  else if oc.retryAllErrors then true
  else if ec == .success then true
  else if ec == .operationAborted then true
  else if oc.retryConnrefused && ec == .connectionRefused then true
  else false

/-- The wait after an attempt. Reference: `main.cpp:720-728`. -/
def waitTurn (oc : RetryConfig) (a : Attempt) (s : RetryState) :
    Turn RetryState (RetryEnding × RetryState) :=
  if a.cancelled then .exit (.returned, s)
  else
    let (delay, backoff) := nextDelay oc s.backoff
    let s := { s with retries := s.retries - 1, backoff, waits := s.waits ++ [delay] }
    if a.waitThrows then .exit (.waitThrew, s) else .next s

/-- One turn of the loop. Reference: `main.cpp:685-729`. -/
def retryTurn (oc : RetryConfig) (start : Int) (attempts : Nat → Attempt) (s : RetryState) :
    Turn RetryState (RetryEnding × RetryState) :=
  let a := attempts s.attempts
  let s := { s with attempts := s.attempts + 1 }
  match a.outcome with
  | .status status =>
    if !isTransientError status || !canRetry oc start s.retries a.now .success then
      .exit (.returned, s)
    else waitTurn oc a s
  | .systemError code =>
    if code == .binaryOutputToTty then .exit (.returned, s)
    else if !canRetry oc start s.retries a.now code then .exit (.rethrown, s)
    else waitTurn oc a s
  | .exception => .exit (.rethrown, s)

/-! ## What a turn does -/

/-- The outcome of a task is one to try again, as long as retries are left: a transient status, or
an error that the options allow, before the end of the time for retries. -/
def Allowed (oc : RetryConfig) (start : Int) (a : Attempt) : Prop :=
  (∀ m, maxTime oc start = some m → a.now ≤ m) ∧
    match a.outcome with
    | .status status => isTransientError status = true
    | .systemError code => code ≠ .binaryOutputToTty ∧
        (oc.retryAllErrors = true ∨ code = .success ∨ code = .operationAborted ∨
          oc.retryConnrefused = true ∧ code = .connectionRefused)
    | .exception => False

/-- How an outcome that is not tried again ends the call. -/
def Outcome.ending : Outcome → RetryEnding
  | .status _ => .returned
  | .systemError .binaryOutputToTty => .returned
  | .systemError _ => .rethrown
  | .exception => .rethrown

/-- The loop's variables after a wait. -/
def RetryState.waited (oc : RetryConfig) (s : RetryState) : RetryState :=
  { retries := s.retries - 1
    backoff := (nextDelay oc s.backoff).2
    attempts := s.attempts + 1
    waits := s.waits ++ [(nextDelay oc s.backoff).1] }

section

variable {oc : RetryConfig} {start : Int} {attempts : Nat → Attempt} {s s' : RetryState}

/-- `can_retry` allows a retry if one is left, the time is not over and the options allow it. -/
theorem canRetry_iff {retries : BitVec 64} {now : Int} {ec : ErrorCode} :
    canRetry oc start retries now ec = true ↔
      retries ≠ 0 ∧ (∀ m, maxTime oc start = some m → now ≤ m) ∧
        (oc.retryAllErrors = true ∨ ec = .success ∨ ec = .operationAborted ∨
          oc.retryConnrefused = true ∧ ec = .connectionRefused) := by
  have htime : ((maxTime oc start).any (· < now)) = false ↔
      ∀ m, maxTime oc start = some m → now ≤ m := by
    cases maxTime oc start <;> simp
  rw [← htime]
  unfold canRetry
  split
  · next hno =>
    rw [Bool.or_eq_true, beq_iff_eq] at hno
    constructor
    · intro h
      cases h
    · rintro ⟨hretries, hbefore, -⟩
      rcases hno with hzero | hover
      · exact absurd hzero hretries
      · cases hbefore.symm.trans hover
  · next hyes =>
    rw [Bool.or_eq_true, beq_iff_eq, not_or, Bool.not_eq_true] at hyes
    rw [and_iff_right hyes.1, and_iff_right hyes.2]
    simp

/-- A wait keeps the loop going unless the call is cancelled or the wait throws. -/
theorem waitTurn_cases (a : Attempt) (s : RetryState) :
    waitTurn oc a { s with attempts := s.attempts + 1 } =
      if a.cancelled then .exit (.returned, { s with attempts := s.attempts + 1 })
      else if a.waitThrows then .exit (.waitThrew, s.waited oc) else .next (s.waited oc) := rfl

/-- A turn waits after an outcome that is tried again. -/
theorem retryTurn_of_allowed (hretries : s.retries ≠ 0)
    (h : Allowed oc start (attempts s.attempts)) :
    retryTurn oc start attempts s =
      waitTurn oc (attempts s.attempts) { s with attempts := s.attempts + 1 } := by
  unfold retryTurn Allowed at *
  obtain ⟨htime, h⟩ := h
  cases hout : (attempts s.attempts).outcome with
  | status status =>
    rw [hout] at h
    have hcan : canRetry oc start s.retries (attempts s.attempts).now .success = true :=
      canRetry_iff.2 ⟨hretries, htime, .inr (.inl rfl)⟩
    simp only [hout, h, hcan, Bool.not_true, Bool.or_self, Bool.false_eq_true, if_false]
  | systemError code =>
    rw [hout] at h
    have hcan : canRetry oc start s.retries (attempts s.attempts).now code = true :=
      canRetry_iff.2 ⟨hretries, htime, h.2⟩
    simp only [hout, h.1, hcan, beq_iff_eq, Bool.not_true, Bool.false_eq_true, if_false]
  | exception =>
    rw [hout] at h
    exact h.elim

/-- A turn ends the call at any other. -/
theorem retryTurn_of_not_allowed
    (h : ¬ (s.retries ≠ 0 ∧ Allowed oc start (attempts s.attempts))) :
    retryTurn oc start attempts s =
      .exit ((attempts s.attempts).outcome.ending, { s with attempts := s.attempts + 1 }) := by
  unfold retryTurn Allowed at *
  cases hout : (attempts s.attempts).outcome with
  | status status =>
    rw [hout] at h
    have hno : (!isTransientError status ||
        !canRetry oc start s.retries (attempts s.attempts).now .success) = true := by
      rw [← Bool.not_and, Bool.not_eq_true', Bool.and_eq_false_iff]
      by_contra hboth
      rw [not_or, Bool.not_eq_false, Bool.not_eq_false, canRetry_iff] at hboth
      exact h ⟨hboth.2.1, hboth.2.2.1, hboth.1⟩
    simp only [hout, hno, if_true, Outcome.ending]
  | systemError code =>
    rw [hout] at h
    by_cases htty : code = .binaryOutputToTty
    · subst htty
      simp only [hout, beq_self_eq_true, if_true, Outcome.ending]
    · have hno : (!canRetry oc start s.retries (attempts s.attempts).now code) = true := by
        rw [Bool.not_eq_true', ← Bool.not_eq_true, canRetry_iff]
        rintro ⟨hretries, htime, hoptions⟩
        exact h ⟨hretries, htime, htty, hoptions⟩
      have hending : (Outcome.systemError code).ending = .rethrown := by
        cases code with
        | binaryOutputToTty => exact absurd rfl htty
        | _ => rfl
      simp only [hout, beq_iff_eq, htty, hno, if_false, if_true, hending]
  | exception => simp only [hout, Outcome.ending]

/-- A turn that goes round has taken a retry. -/
theorem retryTurn_next (h : retryTurn oc start attempts s = .next s') :
    s.retries ≠ 0 ∧ Allowed oc start (attempts s.attempts) ∧
      (attempts s.attempts).cancelled = false ∧ (attempts s.attempts).waitThrows = false ∧
      s' = s.waited oc := by
  by_cases hallowed : s.retries ≠ 0 ∧ Allowed oc start (attempts s.attempts)
  · rw [retryTurn_of_allowed hallowed.1 hallowed.2, waitTurn_cases] at h
    refine ⟨hallowed.1, hallowed.2, ?_⟩
    split at h
    · cases h
    · next hcancelled =>
      split at h
      · cases h
      · next hthrows =>
        cases h
        exact ⟨Bool.not_eq_true _ ▸ hcancelled, Bool.not_eq_true _ ▸ hthrows, rfl⟩
  · rw [retryTurn_of_not_allowed hallowed] at h
    cases h

/-- The retries are taken one by one. -/
theorem toNat_waited (h : s.retries ≠ 0) : (s.waited oc).retries.toNat + 1 = s.retries.toNat := by
  have hpos : s.retries.toNat ≠ 0 := fun hzero => h (BitVec.eq_of_toNat_eq hzero)
  show (s.retries - 1).toNat + 1 = s.retries.toNat
  have hlt := s.retries.isLt
  have hone : (1 : BitVec 64).toNat = 1 := rfl
  rw [BitVec.toNat_sub, hone]
  omega

theorem retryTurn_lt (s s' : RetryState) (h : retryTurn oc start attempts s = .next s') :
    s'.retries.toNat < s.retries.toNat := by
  obtain ⟨hretries, -, -, -, rfl⟩ := retryTurn_next h
  rw [← @toNat_waited oc s hretries]
  exact Nat.lt_succ_self _

end

/-- `retry`, with the clock's reading at its start. Reference: `main.cpp:645`. -/
def retry (oc : RetryConfig) (start : Int) (attempts : Nat → Attempt) : RetryEnding × RetryState :=
  run (retryTurn oc start attempts) (·.retries.toNat) retryTurn_lt { retries := oc.reqRetry }

/-! ## Runs -/

/-- The `k`-th outcome is one to try again: it is allowed and a retry is left for it. -/
def Retryable (oc : RetryConfig) (start : Int) (attempts : Nat → Attempt) (k : Nat) : Prop :=
  k < oc.reqRetry.toNat ∧ Allowed oc start (attempts k)

/-- A wait follows the `k`-th attempt. -/
def Retried (oc : RetryConfig) (start : Int) (attempts : Nat → Attempt) (k : Nat) : Prop :=
  Retryable oc start attempts k ∧ (attempts k).cancelled = false

/-- Another attempt follows the `k`-th. -/
def Resumed (oc : RetryConfig) (start : Int) (attempts : Nat → Attempt) (k : Nat) : Prop :=
  Retried oc start attempts k ∧ (attempts k).waitThrows = false

/-- The wait after the `i`-th attempt without `--retry-delay`, in seconds: it doubles ten times. -/
def backoffAt (i : Nat) : Int := 2 ^ min (i + 1) 10

/-- What holds at the head of the loop. -/
structure RetryState.Inv (oc : RetryConfig) (start : Int) (attempts : Nat → Attempt)
    (s : RetryState) : Prop where
  retries : s.retries.toNat + s.attempts = oc.reqRetry.toNat
  resumed : ∀ k < s.attempts, Resumed oc start attempts k
  backoff : oc.retryDelay = none → s.backoff = 2 ^ min s.attempts 10
  waits : oc.retryDelay = none → s.waits = (List.range s.attempts).map backoffAt

/-- What holds when the loop is left after the `n`-th attempt. -/
structure EndsAt (oc : RetryConfig) (start : Int) (attempts : Nat → Attempt) (n : Nat)
    (r : RetryEnding × RetryState) : Prop where
  ran : r.2.attempts = n + 1
  bounded : n ≤ oc.reqRetry.toNat
  resumed : ∀ k < n, Resumed oc start attempts k
  stops : ¬ Resumed oc start attempts n
  ending : ¬ Retryable oc start attempts n → r.1 = (attempts n).outcome.ending
  waits : oc.retryDelay = none → ∃ m, r.2.waits = (List.range m).map backoffAt ∧
    (m = n ∧ ¬ Retried oc start attempts n ∨ m = n + 1 ∧ Retried oc start attempts n)

section

variable {oc : RetryConfig} {start : Int} {attempts : Nat → Attempt} {s s' : RetryState}

/-- Without `--retry-delay` the next wait is the next one of the doubled ones. -/
theorem nextDelay_backoff (hdelay : oc.retryDelay = none) (k : Nat) :
    nextDelay oc (2 ^ min k 10) = (backoffAt k, 2 ^ min (k + 1) 10) := by
  have hnext : (if (2 : Int) ^ min k 10 < 10 * 60 then (2 : Int) ^ min k 10 * 2
      else 2 ^ min k 10) = 2 ^ min (k + 1) 10 := by
    rcases Nat.lt_or_ge k 10 with hk | hk
    · rw [Nat.min_eq_left (Nat.le_of_lt hk), Nat.min_eq_left hk, pow_succ, if_pos]
      interval_cases k <;> decide
    · rw [Nat.min_eq_right hk, Nat.min_eq_right (Nat.le_succ_of_le hk)]
      rfl
  rw [nextDelay, hdelay]
  dsimp only
  rw [hnext, backoffAt]

/-- The waits with the next one. -/
theorem RetryState.Inv.waits_waited (h : s.Inv oc start attempts) (hdelay : oc.retryDelay = none) :
    (s.waited oc).waits = (List.range (s.attempts + 1)).map backoffAt := by
  show s.waits ++ [(nextDelay oc s.backoff).1] = _
  rw [h.waits hdelay, h.backoff hdelay, nextDelay_backoff hdelay, List.range_succ, List.map_append]
  rfl

/-- Retries are left exactly if the attempt is not the last one. -/
theorem RetryState.Inv.retries_ne_iff (h : s.Inv oc start attempts) :
    s.retries ≠ 0 ↔ s.attempts < oc.reqRetry.toNat := by
  have hcount := h.retries
  have hzero : s.retries = 0 ↔ s.retries.toNat = 0 := BitVec.toNat_eq
  rw [Ne, hzero]
  omega

/-- A turn that goes round keeps the invariant. -/
theorem RetryState.Inv.turn_next (h : s.Inv oc start attempts)
    (hturn : retryTurn oc start attempts s = .next s') : s'.Inv oc start attempts := by
  obtain ⟨hretries, hallowed, hcancelled, hthrows, rfl⟩ := retryTurn_next hturn
  have hcount := @toNat_waited oc s hretries
  have hresumed : Resumed oc start attempts s.attempts :=
    ⟨⟨⟨h.retries_ne_iff.1 hretries, hallowed⟩, hcancelled⟩, hthrows⟩
  refine ⟨?_, fun k hk => ?_, fun hdelay => ?_, h.waits_waited⟩
  · show (s.waited oc).retries.toNat + (s.attempts + 1) = _
    have hinv := h.retries
    omega
  · rcases Nat.lt_or_eq_of_le (Nat.le_of_lt_succ hk) with hlt | rfl
    · exact h.resumed k hlt
    · exact hresumed
  · show (nextDelay oc s.backoff).2 = _
    rw [h.backoff hdelay, nextDelay_backoff hdelay]
    rfl

/-- A turn that leaves the loop ends the call after this attempt. -/
theorem RetryState.Inv.turn_exit (h : s.Inv oc start attempts) {r : RetryEnding × RetryState}
    (hturn : retryTurn oc start attempts s = .exit r) : EndsAt oc start attempts s.attempts r := by
  have hbounded : s.attempts ≤ oc.reqRetry.toNat := by
    have hinv := h.retries
    omega
  by_cases hallowed : s.retries ≠ 0 ∧ Allowed oc start (attempts s.attempts)
  · have hretryable : Retryable oc start attempts s.attempts :=
      ⟨h.retries_ne_iff.1 hallowed.1, hallowed.2⟩
    rw [retryTurn_of_allowed hallowed.1 hallowed.2, waitTurn_cases] at hturn
    split at hturn
    · next hcancelled =>
      cases hturn
      have hno : ¬ Retried oc start attempts s.attempts := fun hretried =>
        Bool.false_ne_true (hretried.2.symm.trans hcancelled)
      exact ⟨rfl, hbounded, h.resumed, fun hresumed => hno hresumed.1, absurd hretryable,
        fun hdelay => ⟨s.attempts, h.waits hdelay, .inl ⟨rfl, hno⟩⟩⟩
    · next hcancelled =>
      split at hturn
      · next hthrows =>
        cases hturn
        have hretried : Retried oc start attempts s.attempts :=
          ⟨hretryable, Bool.not_eq_true _ ▸ hcancelled⟩
        exact ⟨rfl, hbounded, h.resumed, fun hresumed =>
          Bool.false_ne_true (hresumed.2.symm.trans hthrows), absurd hretryable,
          fun hdelay => ⟨s.attempts + 1, h.waits_waited hdelay, .inr ⟨rfl, hretried⟩⟩⟩
      · cases hturn
  · rw [retryTurn_of_not_allowed hallowed] at hturn
    cases hturn
    have hno : ¬ Retryable oc start attempts s.attempts := fun hretryable =>
      hallowed ⟨h.retries_ne_iff.2 hretryable.1, hretryable.2⟩
    exact ⟨rfl, hbounded, h.resumed, fun hresumed => hno hresumed.1.1, fun _ => rfl,
      fun hdelay => ⟨s.attempts, h.waits hdelay, .inl ⟨rfl, fun hretried => hno hretried.1⟩⟩⟩

/-- Every call ends after some attempt. -/
theorem exists_endsAt (oc : RetryConfig) (start : Int) (attempts : Nat → Attempt) :
    ∃ n, EndsAt oc start attempts n (retry oc start attempts) := by
  refine run_rec (P := fun (s : RetryState) (r : RetryEnding × RetryState) =>
      s.Inv oc start attempts → ∃ n, EndsAt oc start attempts n r)
    (fun s r hturn hs => ⟨s.attempts, hs.turn_exit hturn⟩)
    (fun s s' r hturn ih hs => ih (hs.turn_next hturn)) _ ?_
  exact ⟨rfl, fun k hk => absurd hk (Nat.not_lt_zero k), fun _ => rfl, fun _ => rfl⟩

end

/-! ## What retrying is for -/

/-- `retry` runs the task a bounded number of times, ends at the first outcome that is not one to
try again, and waits longer and longer, but never more than ten minutes. -/
structure RetriesAsMeant (oc : RetryConfig) (start : Int) (attempts : Nat → Attempt) : Prop where
  bounded : (retry oc start attempts).2.attempts ≤ oc.reqRetry.toNat + 1
  stops : ∀ k, ¬ Retryable oc start attempts k → k < (retry oc start attempts).2.attempts →
    (retry oc start attempts).2.attempts = k + 1 ∧
      (retry oc start attempts).1 = (attempts k).outcome.ending
  grows : oc.retryDelay = none → (retry oc start attempts).2.waits.Pairwise (· ≤ ·)
  capped : oc.retryDelay = none → ∀ w ∈ (retry oc start attempts).2.waits, w ≤ 10 * 60

/-- A wait follows each of the first ten attempts, the first nine of which end. -/
def WaitsTenTimes (oc : RetryConfig) (start : Int) (attempts : Nat → Attempt) : Prop :=
  (∀ k < 9, Resumed oc start attempts k) ∧ Retried oc start attempts 9

section

variable {oc : RetryConfig} {start : Int} {attempts : Nat → Attempt}
  {r : RetryEnding × RetryState} {n : Nat}

/-- The waits do not get shorter. -/
theorem backoffAt_mono {i j : Nat} (h : i ≤ j) : backoffAt i ≤ backoffAt j := by
  have hmin : min (i + 1) 10 ≤ min (j + 1) 10 := by omega
  exact pow_le_pow_right₀ (by decide) hmin

/-- The first nine waits are at most ten minutes, the tenth is longer. -/
theorem backoffAt_le_iff {i : Nat} : backoffAt i ≤ 10 * 60 ↔ i < 9 := by
  constructor
  · intro h
    by_contra hi
    have htenth : backoffAt 9 ≤ 10 * 60 := le_trans (backoffAt_mono (Nat.le_of_not_lt hi)) h
    exact absurd htenth (by decide)
  · intro hi
    exact le_trans (backoffAt_mono (Nat.le_of_lt_succ hi)) (by decide : backoffAt 8 ≤ 10 * 60)

/-- A call ends at its first outcome that is not one to try again. -/
theorem EndsAt.eq_of_not_retryable (h : EndsAt oc start attempts n r) {k : Nat}
    (hno : ¬ Retryable oc start attempts k) (hk : k < r.2.attempts) : k = n := by
  rw [h.ran] at hk
  rcases Nat.lt_or_eq_of_le (Nat.le_of_lt_succ hk) with hlt | heq
  · exact absurd (h.resumed k hlt).1.1 hno
  · exact heq

/-- More than nine waits are waited exactly if a wait follows each of the first ten attempts. -/
theorem EndsAt.lt_waits_iff (h : EndsAt oc start attempts n r) {m : Nat}
    (hm : m = n ∧ ¬ Retried oc start attempts n ∨ m = n + 1 ∧ Retried oc start attempts n) :
    9 < m ↔ WaitsTenTimes oc start attempts := by
  constructor
  · intro hlt
    have hresumed : ∀ k < 9, Resumed oc start attempts k := fun k hk =>
      h.resumed k (by omega)
    rcases Nat.lt_or_ge 9 n with hn | hn
    · exact ⟨hresumed, (h.resumed 9 hn).1⟩
    · rcases hm with ⟨rfl, -⟩ | ⟨rfl, hretried⟩
      · omega
      · have : n = 9 := by omega
        exact ⟨hresumed, this ▸ hretried⟩
  · rintro ⟨hresumed, hretried⟩
    have hn : 9 ≤ n := by
      by_contra hlt
      exact h.stops (hresumed n (Nat.lt_of_not_le hlt))
    rcases hm with ⟨rfl, hno⟩ | ⟨rfl, -⟩
    · have : m ≠ 9 := fun heq => hno (heq ▸ hretried)
      omega
    · omega

/-- No wait is longer than ten minutes exactly if fewer than ten are waited. -/
theorem EndsAt.capped_iff (h : EndsAt oc start attempts n r) (hdelay : oc.retryDelay = none) :
    (∀ w ∈ r.2.waits, w ≤ 10 * 60) ↔ ¬ WaitsTenTimes oc start attempts := by
  obtain ⟨m, hwaits, hm⟩ := h.waits hdelay
  rw [← h.lt_waits_iff hm, Nat.not_lt, hwaits]
  simp only [List.forall_mem_map, List.mem_range, backoffAt_le_iff]
  constructor
  · intro hall
    by_contra hlt
    exact Nat.lt_irrefl 9 (hall 9 (Nat.lt_of_not_le hlt))
  · exact fun hle i hi => Nat.lt_of_lt_of_le hi hle

/-- The waits of a call do not get shorter. -/
theorem EndsAt.waits_pairwise (h : EndsAt oc start attempts n r) (hdelay : oc.retryDelay = none) :
    r.2.waits.Pairwise (· ≤ ·) := by
  obtain ⟨m, hwaits, -⟩ := h.waits hdelay
  rw [hwaits, List.pairwise_map]
  exact List.pairwise_lt_range.imp fun hlt => backoffAt_mono (Nat.le_of_lt hlt)

/-- `retry` is bounded, ends at the first outcome that is not one to try again and waits longer and
longer, for all options and attempts. It keeps to the ten minutes exactly if the wait is given or
one of the first ten attempts is not followed by a wait: the tenth doubling is of 512 seconds. -/
theorem retriesAsMeant_iff (oc : RetryConfig) (start : Int) (attempts : Nat → Attempt) :
    RetriesAsMeant oc start attempts ↔
      oc.retryDelay.isSome ∨ ¬ WaitsTenTimes oc start attempts := by
  obtain ⟨n, h⟩ := exists_endsAt oc start attempts
  constructor
  · intro hmeant
    cases hdelay : oc.retryDelay with
    | some delay => exact .inl rfl
    | none => exact .inr ((h.capped_iff hdelay).1 (hmeant.capped hdelay))
  · intro hcond
    refine ⟨?_, fun k hno hk => ?_, h.waits_pairwise, fun hdelay => ?_⟩
    · rw [h.ran]
      exact Nat.succ_le_succ h.bounded
    · obtain rfl := h.eq_of_not_retryable hno hk
      exact ⟨h.ran, h.ending hno⟩
    · rw [hdelay] at hcond
      exact (h.capped_iff hdelay).2 (hcond.resolve_left Bool.false_ne_true)

/-- The server is busy at every attempt: the tenth wait of ten retries is 1024 seconds. -/
theorem busyServer_not_retriesAsMeant :
    ¬ RetriesAsMeant { reqRetry := 10 } 0
      (fun _ => { outcome := .status 503, now := 0, cancelled := false, waitThrows := false }) := by
  intro hmeant
  obtain ⟨n, h⟩ := exists_endsAt { reqRetry := 10 } 0
    (fun _ => { outcome := .status 503, now := 0, cancelled := false, waitThrows := false })
  have hallowed : Allowed { reqRetry := 10 } 0
      { outcome := .status 503, now := 0, cancelled := false, waitThrows := false } :=
    ⟨fun m hm => (Option.some_ne_none m hm.symm).elim, rfl⟩
  refine (h.capped_iff rfl).1 (hmeant.capped rfl)
    ⟨fun k hk => ⟨⟨⟨?_, hallowed⟩, rfl⟩, rfl⟩, ⟨by decide, hallowed⟩, rfl⟩
  exact Nat.lt_trans hk (by decide)

end

end Beast2.Burl
