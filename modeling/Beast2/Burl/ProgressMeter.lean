import Mathlib.Data.List.Induction
import Beast2.Lib.Window

/-!
# The window of the progress meter

`progress_meter` keeps what was transferred in the last second in a window of five slots of 250 ms
(`progress_meter.cpp:19-57`). `update` moves the window on by the slots that have passed since it
last moved, and drops the rest of the time; `cur_rate` reads the window without moving it. Clock
readings are in nanoseconds, counters are taken modulo 2^64.

The window loses nothing early: each reported byte is in one slot until it is shifted out, and that
is not before 1000 ms have passed (`window_conserves`). The invariant is that the age of what is in
a slot is known up to one slot: what is lost of the time when the window moves comes in addition.
-/

namespace Beast2.Burl

open Window

/-- `progress_meter`. Reference: `progress_meter.hpp:22`. -/
structure ProgressMeter where
  transfered : Nat := 0
  window : Fin 5 → Nat := fun _ => 0
  init : Int
  lastUpdate : Int

/-- `ch::milliseconds`, in nanoseconds. -/
def milliseconds (n : Int) : Int := n * 1000000

/-- The slots from a clock reading to another: `elapsed / 250`, cast to `std::size_t`. Reference:
`progress_meter.cpp:23-26, 46-49`. -/
def elapsedSlots (last now : Int) : Nat :=
  -- the cap is what keeps the slots within the window
  let elapsed := min ((now - last).tdiv (milliseconds 1)) 1250
  (elapsed.tdiv 250 % 2 ^ 64).toNat

/-- `std::move(window_.begin() + shift, window_.end(), window_.begin())`. -/
def moveDown (shift : Nat) (window : Fin 5 → Nat) (i : Fin 5) : Nat :=
  if h : i + shift < 5 then window ⟨i + shift, h⟩ else window i

/-- `std::fill(window_.end() - shift, window_.end(), 0)`. -/
def fillEnd (shift : Nat) (window : Fin 5 → Nat) (i : Fin 5) : Nat :=
  if 5 - shift ≤ i then 0 else window i

/-- The slots from `window_.begin() + first` up to `window_.begin() + last`. -/
def slots (first last : Nat) : List (Fin 5) := ((List.finRange 5).take last).drop first

/-- `std::accumulate(window_.begin() + first, window_.begin() + last, std::uint64_t{ 0 })`. -/
def accumulate (window : Fin 5 → Nat) (first last : Nat) : Nat :=
  (slots first last).foldl (fun sum i => (sum + window i) % 2 ^ 64) 0

namespace ProgressMeter

/-- The window moves on. Reference: `progress_meter.cpp:22-34`. -/
def moveOn (now : Int) (m : ProgressMeter) : ProgressMeter :=
  let shift := elapsedSlots m.lastUpdate now
  if shift ≠ 0 then
    { m with lastUpdate := now, window := fillEnd shift (moveDown shift m.window) }
  else m

theorem moveOn_transfered (now : Int) (m : ProgressMeter) :
    (m.moveOn now).transfered = m.transfered := by
  unfold moveOn
  dsimp only
  split
  · rfl
  · rfl

theorem moveOn_lastUpdate (now : Int) (m : ProgressMeter) :
    (m.moveOn now).lastUpdate = now ∨ (m.moveOn now).lastUpdate = m.lastUpdate := by
  unfold moveOn
  dsimp only
  split
  · exact .inl rfl
  · exact .inr rfl

/-- `update` at a clock reading. Reference: `progress_meter.cpp:20`. -/
def update (now : Int) (bytes : Nat) (m : ProgressMeter) : ProgressMeter :=
  let m := m.moveOn now
  { m with
    transfered := (m.transfered + bytes) % 2 ^ 64
    window := Function.update m.window 4 ((m.window 4 + bytes) % 2 ^ 64) }

/-- The first slot that `cur_rate` reads. Reference: `progress_meter.cpp:43-49`. -/
def offset (now : Int) (m : ProgressMeter) : Nat :=
  -- in the first second the slot at hand is taken for a full one
  let now := if now - m.init < milliseconds 1000 then m.lastUpdate + milliseconds 250 else now
  elapsedSlots m.lastUpdate now

/-- The end of the slots that `cur_rate` reads. Reference: `progress_meter.cpp:53`. -/
def stop (now : Int) (m : ProgressMeter) : Nat := if m.offset now ≠ 0 then 5 else 4

/-- `cur_rate` at a clock reading. Reference: `progress_meter.cpp:39`. -/
def curRate (now : Int) (m : ProgressMeter) : Nat :=
  accumulate m.window (m.offset now) (m.stop now)

end ProgressMeter

/-- A call of a meter, with the clock reading that it makes. -/
inductive MeterCall where
  | update (now : Int) (bytes : Nat)
  | curRate (now : Int)
deriving DecidableEq, Repr

def MeterCall.now : MeterCall → Int
  | update now _ => now
  | curRate now => now

/-- What a call reports. -/
def MeterCall.report : MeterCall → Option (Int × Nat)
  | update now bytes => some (now, bytes)
  | curRate _ => none

/-- The bytes that calls report. -/
def reported (calls : List MeterCall) : Nat := ((calls.filterMap MeterCall.report).map (·.2)).sum

/-! ## Reports and their slots -/

/-- The reports of a meter, and where they are. -/
abbrev Ledger := List (Entry 5 Nat Int)

/-- A call of a meter, with the ledger: a report is entered in the last slot, after the reports
before it have moved on with the window. -/
def trackCall (s : ProgressMeter × Ledger) : MeterCall → ProgressMeter × Ledger
  | .update now bytes =>
    (s.1.update now bytes, s.2.map (Entry.shift (elapsedSlots s.1.lastUpdate now) now) ++
      [⟨bytes, now, .slot 4⟩])
  | .curRate _ => s

/-- The calls of a meter, from the clock readings of its constructor on. -/
def trackCalls (init lastUpdate : Int) (calls : List MeterCall) : ProgressMeter × Ledger :=
  calls.foldl trackCall ({ init, lastUpdate }, [])

/-- What the window and the counter have to do with the reports: every report is in one slot or was
shifted out, and that not before 1000 ms have passed; a slot has the bytes of the reports in it. -/
structure Conserves (calls : List MeterCall) (m : ProgressMeter) (l : Ledger) : Prop where
  reports : l.map (fun e => (e.time, e.amount)) = calls.filterMap MeterCall.report
  window : m.window = held l
  transfered : m.transfered = reported calls
  out : ∀ e ∈ l, ∀ t, e.place = .out t → e.time + milliseconds 1000 ≤ t

/-- What the next call does with the window: its indices are within the five slots, and `cur_rate`
is the sum of at most four of them that stand next to each other. -/
structure Reads (now : Int) (m : ProgressMeter) : Prop where
  shift : elapsedSlots m.lastUpdate now ≤ 5
  offset : m.offset now ≤ m.stop now
  stop : m.stop now ≤ 5
  four : m.stop now ≤ m.offset now + 4
  rate : m.curRate now = ((slots (m.offset now) (m.stop now)).map m.window).sum
  rate_le : m.curRate now ≤ m.transfered

/-! ## One call -/

/-- The slots that have passed: never more than there are, and no more than the time. -/
theorem elapsedSlots_spec {last now : Int} (h : last ≤ now) :
    elapsedSlots last now ≤ 5 ∧ last + milliseconds 250 * elapsedSlots last now ≤ now ∧
      (elapsedSlots last now = 0 → now < last + milliseconds 250) := by
  have hsub : 0 ≤ now - last := by omega
  unfold elapsedSlots milliseconds
  dsimp only
  rw [Int.tdiv_eq_ediv_of_nonneg hsub, Int.tdiv_eq_ediv_of_nonneg (by omega)]
  omega

theorem elapsedSlots_one (last : Int) : elapsedSlots last (last + milliseconds 250) = 1 := by
  have hsub : last + milliseconds 250 - last = milliseconds 250 := by omega
  unfold elapsedSlots
  rw [hsub]
  decide

theorem fillEnd_moveDown (k : Nat) (w : Fin 5 → Nat) : fillEnd k (moveDown k w) = shift k w := by
  funext i
  unfold fillEnd moveDown shift
  split
  · next h => rw [dif_neg (by omega)]
  · next h =>
    have hi : i + k < 5 := by omega
    rw [dif_pos hi, dif_pos hi]

theorem accumulate_eq (w : Fin 5 → Nat) (first last : Nat) :
    accumulate w first last = ((slots first last).map w).sum % 2 ^ 64 := by
  have hfold : ∀ (l : List (Fin 5)) (a : Nat),
      l.foldl (fun sum i => (sum + w i) % 2 ^ 64) (a % 2 ^ 64) = (a + (l.map w).sum) % 2 ^ 64 := by
    intro l
    induction l with
    | nil => exact fun a => rfl
    | cons i l ih =>
      intro a
      rw [List.foldl_cons, Nat.mod_add_mod, ih, List.map_cons, List.sum_cons, Nat.add_assoc]
  exact (hfold _ 0).trans (by rw [Nat.zero_add])

/-- Some of the slots have no more than all of them. -/
theorem sum_slots_le (w : Fin 5 → Nat) (first last : Nat) :
    ((slots first last).map w).sum ≤ ∑ i, w i := by
  have hsublist : (slots first last).Sublist (List.finRange 5) :=
    (List.drop_sublist _ _).trans (List.take_sublist _ _)
  rw [Fin.sum_univ_def]
  exact (hsublist.map w).sum_le_sum fun _ _ => Nat.zero_le _

/-- What holds between the calls. -/
structure Tracks (calls : List MeterCall) (m : ProgressMeter) (l : Ledger) : Prop where
  reports : l.map (fun e => (e.time, e.amount)) = calls.filterMap MeterCall.report
  window : m.window = held l
  transfered : m.transfered = reported calls
  aged : Aged (milliseconds 250) m.lastUpdate l

section
variable {calls : List MeterCall} {m : ProgressMeter} {l : Ledger} {now : Int}

theorem Tracks.sum_amount (h : Tracks calls m l) : (l.map Entry.amount).sum = reported calls := by
  rw [reported, ← h.reports, List.map_map]
  rfl

/-- The window has no more than the counter. -/
theorem Tracks.sum_window_le (h : Tracks calls m l) : ∑ i, m.window i ≤ m.transfered := by
  rw [h.window, h.transfered, ← h.sum_amount]
  exact sum_held_le l

theorem reported_append (calls : List MeterCall) (now : Int) (bytes : Nat) :
    reported (calls ++ [.update now bytes]) = reported calls + bytes := by
  simp [reported, MeterCall.report]

/-- The window and the ledger move on together, and the window is then less than a slot behind. -/
theorem Tracks.moveOn (h : Tracks calls m l) (hnow : m.lastUpdate ≤ now) :
    (m.moveOn now).window = held (l.map (Entry.shift (elapsedSlots m.lastUpdate now) now)) ∧
      Aged (milliseconds 250) (m.moveOn now).lastUpdate
        (l.map (Entry.shift (elapsedSlots m.lastUpdate now) now)) ∧
      now < (m.moveOn now).lastUpdate + milliseconds 250 := by
  obtain ⟨-, hpast, hzero⟩ := elapsedSlots_spec hnow
  have haged := h.aged.shift (by decide) hpast
  unfold ProgressMeter.moveOn
  dsimp only
  split
  · refine ⟨?_, haged, Int.lt_add_of_pos_right now (by decide)⟩
    rw [held_shift, fillEnd_moveDown, h.window]
  · next hk =>
    -- `last_update_` stays behind, by less than a slot
    have hk : elapsedSlots m.lastUpdate now = 0 := not_not.1 hk
    rw [hk, List.map_id'' (Entry.shift_zero now)]
    exact ⟨h.window, h.aged, hzero hk⟩

/-- A report after the window has moved on. -/
theorem Tracks.update (h : Tracks calls m l) (hnow : m.lastUpdate ≤ now) {bytes : Nat}
    (hbytes : reported calls + bytes < 2 ^ 64) :
    Tracks (calls ++ [.update now bytes]) (m.update now bytes)
      (l.map (Entry.shift (elapsedSlots m.lastUpdate now) now) ++ [⟨bytes, now, .slot 4⟩]) := by
  obtain ⟨hwindow, haged, hclose⟩ := h.moveOn hnow
  have hamounts : ((l.map (Entry.shift (elapsedSlots m.lastUpdate now) now)).map Entry.amount).sum =
      reported calls := by
    rw [List.map_map, ← h.sum_amount]
    rfl
  have hlast : (m.moveOn now).window 4 ≤ reported calls := by
    rw [hwindow, ← hamounts]
    exact (Finset.single_le_sum (fun _ _ => Nat.zero_le _) (Finset.mem_univ 4)).trans
      (sum_held_le _)
  refine ⟨?_, ?_, ?_, fun e he => ?_⟩
  · rw [List.map_append, List.filterMap_append, List.map_map, ← h.reports]
    rfl
  · funext i
    show Function.update _ 4 _ i = _
    rw [held_append, ← hwindow, Nat.mod_eq_of_lt (by omega), Function.update_apply]
    split
    · next hi => rw [hi, if_pos rfl]
    · next hi => rw [if_neg (Ne.symm hi), Nat.add_zero]
  · show ((m.moveOn now).transfered + bytes) % 2 ^ 64 = _
    rw [reported_append, ProgressMeter.moveOn_transfered, h.transfered, Nat.mod_eq_of_lt hbytes]
  · rcases List.mem_append.1 he with he | he
    · exact haged e he
    · obtain rfl := List.mem_singleton.1 he
      refine ⟨?_, ?_⟩
      · intro _ heq
        cases heq
        show now + milliseconds 250 * (5 - 1 - 4) < (m.moveOn now).lastUpdate + milliseconds 250
        omega
      · intro _ heq
        cases heq

theorem filterMap_report_curRate (calls : List MeterCall) (now : Int) :
    (calls ++ [MeterCall.curRate now]).filterMap MeterCall.report =
      calls.filterMap MeterCall.report := by
  rw [List.filterMap_append]
  exact List.append_nil _

/-- `cur_rate` reports nothing and changes nothing. -/
theorem Tracks.curRate (h : Tracks calls m l) (now : Int) :
    Tracks (calls ++ [.curRate now]) m l := by
  refine ⟨?_, h.window, ?_, h.aged⟩
  · rw [filterMap_report_curRate]
    exact h.reports
  · rw [reported, filterMap_report_curRate]
    exact h.transfered

/-- What `cur_rate` reads. -/
theorem Tracks.reads (h : Tracks calls m l) (hnow : m.lastUpdate ≤ now)
    (hreported : reported calls < 2 ^ 64) : Reads now m := by
  obtain ⟨hshift, -⟩ := elapsedSlots_spec hnow
  have hoffset : m.offset now ≤ 5 := by
    unfold ProgressMeter.offset
    dsimp only
    split
    · rw [elapsedSlots_one]
      omega
    · exact hshift
  have hsum := (sum_slots_le m.window (m.offset now) (m.stop now)).trans h.sum_window_le
  have hrate : m.curRate now = ((slots (m.offset now) (m.stop now)).map m.window).sum := by
    rw [ProgressMeter.curRate, accumulate_eq, Nat.mod_eq_of_lt]
    exact hsum.trans_lt (h.transfered ▸ hreported)
  have hstop : m.offset now ≤ m.stop now ∧ m.stop now ≤ 5 ∧ m.stop now ≤ m.offset now + 4 := by
    unfold ProgressMeter.stop
    split
    · omega
    · omega
  exact ⟨hshift, hstop.1, hstop.2.1, hstop.2.2, hrate, hrate ▸ hsum⟩

/-! ## Any calls -/

/-- After any calls the window and the ledger go together, and the window was moved at one of the
clock readings. -/
theorem tracks_trackCalls (init lastUpdate : Int) {calls : List MeterCall}
    (hclock : (lastUpdate :: calls.map MeterCall.now).Pairwise (· ≤ ·))
    (hreported : reported calls < 2 ^ 64) :
    Tracks calls (trackCalls init lastUpdate calls).1 (trackCalls init lastUpdate calls).2 ∧
      (trackCalls init lastUpdate calls).1.lastUpdate ∈
        lastUpdate :: calls.map MeterCall.now := by
  induction calls using List.reverseRecOn with
  | nil =>
    refine ⟨⟨rfl, rfl, rfl, fun e he => ?_⟩, List.mem_cons_self⟩
    exact absurd he List.not_mem_nil
  | append_singleton calls c ih =>
    rw [List.map_append, List.map_singleton, ← List.cons_append, List.pairwise_append] at hclock
    obtain ⟨hclock, -, hlater⟩ := hclock
    have hrun : trackCalls init lastUpdate (calls ++ [c]) =
        trackCall (trackCalls init lastUpdate calls) c := List.foldl_append
    have hmem : ∀ t ∈ lastUpdate :: calls.map MeterCall.now,
        t ∈ lastUpdate :: (calls ++ [c]).map MeterCall.now := by
      intro t ht
      rw [List.map_append, ← List.cons_append]
      exact List.mem_append_left _ ht
    rw [hrun]
    cases c with
    | curRate now =>
      rw [reported, filterMap_report_curRate] at hreported
      obtain ⟨htracks, hlast⟩ := ih hclock hreported
      exact ⟨htracks.curRate now, hmem _ hlast⟩
    | update now bytes =>
      rw [reported_append] at hreported
      obtain ⟨htracks, hlast⟩ := ih hclock (by omega)
      have hnow := hlater _ hlast now List.mem_cons_self
      refine ⟨htracks.update hnow hreported, ?_⟩
      rcases ProgressMeter.moveOn_lastUpdate now (trackCalls init lastUpdate calls).1 with heq | heq
      · show (ProgressMeter.moveOn now _).lastUpdate ∈ _
        rw [heq]
        simp [MeterCall.now]
      · show (ProgressMeter.moveOn now _).lastUpdate ∈ _
        rw [heq]
        exact hmem _ hlast

end

/-- For all calls of a meter at clock readings that do not go back, with fewer than 2^64 bytes in
all: every report is in one slot of the window until it is shifted out, which is not before 1000 ms
have passed, and a slot has the bytes of the reports in it; the window has no more bytes than the
counter; the next call stays within the five slots, and `cur_rate` is the sum of at most four slots
in a row and no more than the counter. -/
theorem window_conserves (init lastUpdate : Int) (calls : List MeterCall) (now : Int)
    (hclock : (init :: lastUpdate :: (calls.map MeterCall.now ++ [now])).Pairwise (· ≤ ·))
    (hreported : reported calls < 2 ^ 64) :
    let s := trackCalls init lastUpdate calls
    Conserves calls s.1 s.2 ∧ ∑ i, s.1.window i ≤ s.1.transfered ∧ Reads now s.1 := by
  rw [List.pairwise_cons, ← List.cons_append, List.pairwise_append] at hclock
  obtain ⟨-, hclock, -, hlater⟩ := hclock
  obtain ⟨htracks, hlast⟩ := tracks_trackCalls init lastUpdate hclock hreported
  refine ⟨⟨htracks.reports, htracks.window, htracks.transfered, fun e he t ht => ?_⟩,
    htracks.sum_window_le, htracks.reads (hlater _ hlast now List.mem_cons_self) hreported⟩
  have hage := (htracks.aged e he).2 t ht
  unfold milliseconds at hage ⊢
  omega

/-- A report in the first slot, one a slot later, and one when the first is shifted out. -/
def someCalls : List MeterCall :=
  [.update (milliseconds 10) 100, .curRate (milliseconds 200), .update (milliseconds 300) 50,
    .update (milliseconds 1600) 7]

/-- The first two reports are shifted out, and the last one is what is left. -/
theorem someCalls_conserved :
    Conserves someCalls (trackCalls 0 0 someCalls).1 (trackCalls 0 0 someCalls).2 ∧
      (trackCalls 0 0 someCalls).2.map Entry.place =
        [.out (milliseconds 1600), .out (milliseconds 1600), .slot 4] ∧
      (trackCalls 0 0 someCalls).1.curRate (milliseconds 1700) = 0 := by
  refine ⟨(window_conserves 0 0 someCalls (milliseconds 1700) (by decide) (by decide)).1, ?_, ?_⟩
  · decide +kernel
  · decide +kernel

end Beast2.Burl
