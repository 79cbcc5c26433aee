import Beast2.Lib.Machine
import Mathlib.Data.BitVec

/-!
# The limited stream

`any_stream` wraps a stream and limits how many bytes it reads and writes in a second. Each
direction has two counters, `rd_remain_` and `rd_limit_` or `wr_remain_` and `wr_limit_`. An
operation whose direction has nothing left waits for a second and fills the counter up again; then
it offers the stream beneath at most what is left, and takes what was transferred from the counter.
It is a coroutine that is suspended at the wait and at the transfer, so other operations run in
between.

A direction with its operation is a `Half`, and what can happen to it next a `HalfEvent`: a call of
`read_limit` or `write_limit`, a call of the operation, or the completion that it is suspended at.
The buffers are those of `capy` (`Capy`); of `capy::prefix` it is used that it has at most as many
bytes as it is asked for, and some if it is asked for some and there are any.
-/

namespace Beast2.Burl

open Machine

/-- What `capy` has for a type of buffers: their size in bytes, and `prefix`, the first bytes of
them. -/
structure Capy (β : Type) where
  size : β → Nat
  front : β → BitVec 64 → β
  size_front_le : ∀ b k, size (front b k) ≤ k.toNat
  size_front_pos : ∀ b k, 0 < size b → 0 < k.toNat → 0 < size (front b k)

/-- Buffers that are a list of bytes. -/
def byteBuffers : Capy (List UInt8) where
  size := List.length
  front b k := b.take k.toNat
  size_front_le b k := List.length_take_le _ b
  size_front_pos b k hb hk := by
    rw [List.length_take]
    exact Nat.lt_min.2 ⟨hk, hb⟩

/-- Where the coroutine of an operation is suspended: at the wait, with the caller's buffers, or at
the transfer, with the buffers that it offered. -/
inductive Suspended (β : Type) where
  | wait (buffers : β)
  | transfer (offered : β)
deriving DecidableEq, Repr

/-- A direction: its counters, the operation that is outstanding and what the operations before it
completed with. Reference: `any_stream.hpp:246-249`. -/
structure Half (β ε : Type) where
  remain : BitVec 64 := BitVec.allOnes 64
  limit : BitVec 64 := BitVec.allOnes 64
  op : Option (Suspended β) := none
  done : List (Option ε × BitVec 64) := []
deriving DecidableEq, Repr

/-- The two directions. -/
inductive Dir where
  | read
  | write
deriving DecidableEq, Repr

/-- Reference: `any_stream.hpp:29`. -/
structure AnyStream (β ε : Type) where
  rd : Half β ε := {}
  wr : Half β ε := {}
deriving DecidableEq, Repr

section

variable {β ε : Type} (capy : Capy β)

/-- A limit in bytes per second. What is left is lowered to it, not raised. -/
def Half.setLimit (h : Half β ε) (bytesPerSecond : BitVec 64) : Half β ε :=
  { h with
    limit := bytesPerSecond
    remain := if h.remain > bytesPerSecond then bytesPerSecond else h.remain }

/-- `read_limit`. Reference: `any_stream.hpp:113`. -/
def AnyStream.readLimit (s : AnyStream β ε) (bytesPerSecond : BitVec 64) : AnyStream β ε :=
  { s with rd := s.rd.setLimit bytesPerSecond }

/-- `write_limit`. Reference: `any_stream.hpp:121`. -/
def AnyStream.writeLimit (s : AnyStream β ε) (bytesPerSecond : BitVec 64) : AnyStream β ε :=
  { s with wr := s.wr.setLimit bytesPerSecond }

/-- `self.complete(ec, n)`. -/
def Half.complete (h : Half β ε) (ec : Option ε) (n : BitVec 64) : Half β ε :=
  { h with op := none, done := h.done ++ [(ec, n)] }

/-- The coroutine offers the stream beneath what is left. Reference:
`any_stream.hpp:154-157, 192-195`. -/
def Half.transfer (h : Half β ε) (buffers : β) : Half β ε :=
  { h with op := some (.transfer (capy.front buffers h.remain)) }

/-- The coroutine from its start. Reference: `any_stream.hpp:143-149, 181-187`. -/
def Half.start (h : Half β ε) (buffers : β) : Half β ε :=
  if h.remain == 0 then { h with op := some (.wait buffers) } else h.transfer capy buffers

/-- The coroutine from the end of the wait, which does not set `n`. Reference:
`any_stream.hpp:150-157, 188-195`. -/
def Half.waited (h : Half β ε) (buffers : β) (ec : Option ε) : Half β ε :=
  match ec with
  | some _ => h.complete ec 0
  | none => { h with remain := h.limit }.transfer capy buffers

/-- The coroutine from the end of the transfer. Reference: `any_stream.hpp:158-159, 196-197`. -/
def Half.transferred (h : Half β ε) (ec : Option ε) (n : BitVec 64) : Half β ε :=
  { h with remain := h.remain - n }.complete ec n

/-- `async_read_some`, up to where it is suspended. Reference: `any_stream.hpp:170`. -/
def AnyStream.asyncReadSome (s : AnyStream β ε) (buffers : β) : AnyStream β ε :=
  { s with rd := s.rd.start capy buffers }

/-- `async_write_some`, up to where it is suspended. Reference: `any_stream.hpp:132`. -/
def AnyStream.asyncWriteSome (s : AnyStream β ε) (buffers : β) : AnyStream β ε :=
  { s with wr := s.wr.start capy buffers }

end

/-! ## Runs -/

/-- What can happen to a direction. -/
inductive HalfEvent (β ε : Type) where
  | limit (bytesPerSecond : BitVec 64)
  | start (buffers : β)
  | waited (ec : Option ε)
  | transferred (ec : Option ε) (n : BitVec 64)
deriving DecidableEq, Repr

/-- What can happen to a stream. -/
abbrev StreamEvent (β ε : Type) := Dir × HalfEvent β ε

section

variable {β ε : Type} (capy : Capy β)

/-- An event of a direction. A limit is set and an operation started only while none is outstanding
in the direction, and the stream beneath transfers at most what it is offered. -/
def Half.step (h : Half β ε) : HalfEvent β ε → Option (Half β ε)
  | .limit bytesPerSecond =>
    match h.op with
    | none => some (h.setLimit bytesPerSecond)
    | some _ => none
  | .start buffers =>
    match h.op with
    | none => some (h.start capy buffers)
    | some _ => none
  | .waited ec =>
    match h.op with
    | some (.wait buffers) => some (h.waited capy buffers ec)
    | _ => none
  | .transferred ec n =>
    match h.op with
    | some (.transfer offered) =>
      if n.toNat ≤ capy.size offered then some (h.transferred ec n) else none
    | _ => none

/-- A direction of a stream. -/
def AnyStream.half (s : AnyStream β ε) : Dir → Half β ε
  | .read => s.rd
  | .write => s.wr

/-- An event of a stream: a direction takes it, the other one stays as it is. -/
def AnyStream.step (s : AnyStream β ε) : StreamEvent β ε → Option (AnyStream β ε)
  | (.read, e) => (s.rd.step capy e).map fun rd => { s with rd }
  | (.write, e) => (s.wr.step capy e).map fun wr => { s with wr }

/-- The bytes that an event transfers. -/
def HalfEvent.bytes : HalfEvent β ε → Nat
  | .transferred _ n => n.toNat
  | _ => 0

/-- The one-second waits that an event completes. -/
def HalfEvent.waits : HalfEvent β ε → Nat
  | .waited none => 1
  | _ => 0

/-- An event sets the limit. -/
def HalfEvent.IsLimit : HalfEvent β ε → Prop
  | .limit _ => True
  | _ => False

/-- The bytes transferred in a direction. -/
def bytes (d : Dir) (es : List (StreamEvent β ε)) : Nat := ((part d es).map HalfEvent.bytes).sum

/-- The one-second waits completed in a direction. -/
def waits (d : Dir) (es : List (StreamEvent β ε)) : Nat := ((part d es).map HalfEvent.waits).sum

end

/-! ## What a step does -/

/-- What holds of a direction at every time: no more is left than the limit, and no more is offered
than is left. -/
structure Half.Inv {β ε : Type} (capy : Capy β) (h : Half β ε) : Prop where
  remain_le : h.remain.toNat ≤ h.limit.toNat
  offered_le : ∀ offered, h.op = some (.transfer offered) → capy.size offered ≤ h.remain.toNat

section

variable {β ε : Type} {capy : Capy β} {h h' : Half β ε} {s s' : AnyStream β ε}

/-- All that a step can do. -/
theorem Half.step_cases {e : HalfEvent β ε} (hstep : h.step capy e = some h') :
    (∃ bytesPerSecond, e = .limit bytesPerSecond ∧ h.op = none ∧ h' = h.setLimit bytesPerSecond) ∨
    (∃ buffers, e = .start buffers ∧ h.op = none ∧ h' = h.start capy buffers) ∨
    (∃ ec buffers, e = .waited ec ∧ h.op = some (.wait buffers) ∧ h' = h.waited capy buffers ec) ∨
    (∃ ec n offered, e = .transferred ec n ∧ h.op = some (.transfer offered) ∧
      n.toNat ≤ capy.size offered ∧ h' = h.transferred ec n) := by
  cases e with
  | limit bytesPerSecond =>
    simp only [Half.step] at hstep
    split at hstep
    · next hop => exact .inl ⟨bytesPerSecond, rfl, hop, (Option.some.inj hstep).symm⟩
    · cases hstep
  | start buffers =>
    simp only [Half.step] at hstep
    split at hstep
    · next hop => exact .inr (.inl ⟨buffers, rfl, hop, (Option.some.inj hstep).symm⟩)
    · cases hstep
  | waited ec =>
    simp only [Half.step] at hstep
    split at hstep
    · next buffers hop =>
      exact .inr (.inr (.inl ⟨ec, buffers, rfl, hop, (Option.some.inj hstep).symm⟩))
    · cases hstep
  | transferred ec n =>
    simp only [Half.step] at hstep
    split at hstep
    · next offered hop =>
      split at hstep
      · next hn =>
        exact .inr (.inr (.inr ⟨ec, n, offered, rfl, hop, hn, (Option.some.inj hstep).symm⟩))
      · cases hstep
    · cases hstep

/-- A new direction has both counters at the largest number. -/
theorem Half.Inv.init : Half.Inv capy ({} : Half β ε) := by
  refine ⟨Nat.le_refl _, fun offered hop => ?_⟩
  cases hop

/-- What is offered is at most what is left. -/
theorem Half.Inv.transfer (hle : h.remain.toNat ≤ h.limit.toNat) (buffers : β) :
    Half.Inv capy (h.transfer capy buffers) := by
  refine ⟨hle, fun offered hop => ?_⟩
  cases hop
  exact capy.size_front_le buffers h.remain

/-- A direction without an operation has nothing offered. -/
theorem Half.Inv.of_idle (hle : h.remain.toNat ≤ h.limit.toNat) (hop : h.op = none) :
    Half.Inv capy h :=
  ⟨hle, fun _ hoffered => absurd (hop.symm.trans hoffered) (Option.some_ne_none _).symm⟩

/-- A limit lowers what is left to it. -/
theorem Half.setLimit_remain_le (bytesPerSecond : BitVec 64) :
    (h.setLimit bytesPerSecond).remain.toNat ≤ bytesPerSecond.toNat := by
  show (if h.remain > bytesPerSecond then bytesPerSecond else h.remain).toNat ≤ _
  split
  · exact Nat.le_refl _
  · next hle => exact BitVec.le_def.1 (BitVec.not_lt.1 hle)

/-- A transfer takes what was transferred from what is left, without a wrap. -/
theorem Half.Inv.toNat_sub (hinv : h.Inv capy) {offered : β} (hop : h.op = some (.transfer offered))
    {n : BitVec 64} (hn : n.toNat ≤ capy.size offered) :
    (h.remain - n).toNat + n.toNat = h.remain.toNat := by
  have hle : n.toNat ≤ h.remain.toNat := le_trans hn (hinv.offered_le offered hop)
  rw [BitVec.toNat_sub_of_le (BitVec.le_def.2 hle)]
  exact Nat.sub_add_cancel hle

/-- Every step keeps the invariant. -/
theorem Half.Inv.step (hinv : h.Inv capy) {e : HalfEvent β ε} (hstep : h.step capy e = some h') :
    h'.Inv capy := by
  rcases Half.step_cases hstep with ⟨b, rfl, hop, rfl⟩ | ⟨buffers, rfl, hop, rfl⟩ |
    ⟨ec, buffers, rfl, hop, rfl⟩ | ⟨ec, n, offered, rfl, hop, hn, rfl⟩
  · exact .of_idle (Half.setLimit_remain_le b) hop
  · unfold Half.start
    split
    · refine ⟨hinv.remain_le, fun offered hoffered => ?_⟩
      cases hoffered
    · exact .transfer hinv.remain_le buffers
  · cases ec with
    | some ec => exact .of_idle hinv.remain_le rfl
    | none => exact .transfer (h := { h with remain := h.limit }) (Nat.le_refl _) buffers
  · refine .of_idle ?_ rfl
    show (h.remain - n).toNat ≤ h.limit.toNat
    have hsub := hinv.toNat_sub hop hn
    have hle := hinv.remain_le
    omega

/-- A step that sets no limit transfers no more than it takes from the counter, which only a wait
fills up. -/
theorem Half.Inv.bytes_le (hinv : h.Inv capy) {e : HalfEvent β ε} (he : ¬ e.IsLimit)
    (hstep : h.step capy e = some h') :
    h'.limit = h.limit ∧ e.bytes + h'.remain.toNat ≤ h.remain.toNat + h.limit.toNat * e.waits := by
  rcases Half.step_cases hstep with ⟨b, rfl, hop, rfl⟩ | ⟨buffers, rfl, hop, rfl⟩ |
    ⟨ec, buffers, rfl, hop, rfl⟩ | ⟨ec, n, offered, rfl, hop, hn, rfl⟩
  · exact absurd trivial he
  · have hsame : (h.start capy buffers).limit = h.limit ∧
        (h.start capy buffers).remain = h.remain := by
      unfold Half.start
      split
      · exact ⟨rfl, rfl⟩
      · exact ⟨rfl, rfl⟩
    rw [hsame.2]
    exact ⟨hsame.1, by simp [HalfEvent.bytes]⟩
  · cases ec with
    | some ec => exact ⟨rfl, by simp [HalfEvent.bytes, Half.waited, Half.complete]⟩
    | none => exact ⟨rfl, by simp [HalfEvent.bytes, HalfEvent.waits, Half.waited, Half.transfer]⟩
  · refine ⟨rfl, ?_⟩
    show n.toNat + (h.remain - n).toNat ≤ _
    rw [Nat.add_comm, hinv.toNat_sub hop hn]
    exact Nat.le_add_right _ _

/-- What a step tells the caller adds up to what it transfers. -/
theorem Half.step_done {e : HalfEvent β ε} (hstep : h.step capy e = some h') :
    (h'.done.map (·.2.toNat)).sum = (h.done.map (·.2.toNat)).sum + e.bytes := by
  rcases Half.step_cases hstep with ⟨b, rfl, hop, rfl⟩ | ⟨buffers, rfl, hop, rfl⟩ |
    ⟨ec, buffers, rfl, hop, rfl⟩ | ⟨ec, n, offered, rfl, hop, hn, rfl⟩
  · rfl
  · unfold Half.start
    split
    · rfl
    · rfl
  · cases ec with
    | some ec => simp [Half.waited, Half.complete, HalfEvent.bytes]
    | none => rfl
  · simp [Half.transferred, Half.complete, HalfEvent.bytes]

/-! ## What a run does -/

/-- A limit, an operation and the events of a stream. -/
theorem AnyStream.step_calls (b : BitVec 64) (buffers : β) :
    (s.rd.op = none → s.step capy (.read, .limit b) = some (s.readLimit b) ∧
      s.step capy (.read, .start buffers) = some (s.asyncReadSome capy buffers)) ∧
    (s.wr.op = none → s.step capy (.write, .limit b) = some (s.writeLimit b) ∧
      s.step capy (.write, .start buffers) = some (s.asyncWriteSome capy buffers)) := by
  constructor
  · intro hop
    simp [AnyStream.step, Half.step, hop, AnyStream.readLimit, AnyStream.asyncReadSome]
  · intro hop
    simp [AnyStream.step, Half.step, hop, AnyStream.writeLimit, AnyStream.asyncWriteSome]

/-- A step of a stream is a step of the event's direction. -/
theorem AnyStream.step_own {d : Dir} {e : HalfEvent β ε} (hstep : s.step capy (d, e) = some s') :
    (s.half d).step capy e = some (s'.half d) := by
  cases d with
  | read | write =>
    obtain ⟨x, hx, rfl⟩ := Option.map_eq_some_iff.1 hstep
    exact hx

/-- It leaves the other direction alone. -/
theorem AnyStream.step_other {d d' : Dir} {e : HalfEvent β ε}
    (hstep : s.step capy (d, e) = some s') (hne : d ≠ d') : s'.half d' = s.half d' := by
  cases d with
  | read =>
    obtain ⟨x, -, rfl⟩ := Option.map_eq_some_iff.1 hstep
    cases d' with
    | read => exact absurd rfl hne
    | write => rfl
  | write =>
    obtain ⟨x, -, rfl⟩ := Option.map_eq_some_iff.1 hstep
    cases d' with
    | read => rfl
    | write => exact absurd rfl hne

/-- A run of a stream is a run of each direction on its own events. -/
theorem AnyStream.run_half {es : List (StreamEvent β ε)}
    (hrun : run (AnyStream.step capy) s es = some s') (d : Dir) :
    run (Half.step capy) (s.half d) (part d es) = some (s'.half d) :=
  run_part AnyStream.half (Half.step capy) (fun _ _ _ _ => AnyStream.step_own)
    (fun _ _ _ _ _ => AnyStream.step_other) hrun d

/-- The invariant holds of both directions in every state that a new stream reaches. -/
theorem AnyStream.run_inv {es : List (StreamEvent β ε)}
    (hrun : run (AnyStream.step capy) {} es = some s) (d : Dir) : (s.half d).Inv capy := by
  have hinit : ((({} : AnyStream β ε).half d)).Inv capy := by
    cases d with
    | read | write => exact .init
  exact Machine.run_inv (P := Half.Inv capy) (fun _ _ _ hinv _ hstep => hinv.step hstep) hinit
    (AnyStream.run_half hrun d)

/-- The callers are told what was transferred. -/
theorem AnyStream.run_done {es : List (StreamEvent β ε)}
    (hrun : run (AnyStream.step capy) {} es = some s) (d : Dir) :
    ((s.half d).done.map (·.2.toNat)).sum = bytes d es := by
  have hinit : ((({} : AnyStream β ε).half d).done.map (·.2.toNat)).sum = 0 := by
    cases d with
    | read | write => rfl
  have hsum := run_sum (fun h : Half β ε => (h.done.map (·.2.toNat)).sum) HalfEvent.bytes
    (fun _ _ _ => Half.step_done) (AnyStream.run_half hrun d)
  rw [hsum, hinit, Nat.zero_add, bytes]

/-- While a limit stands, a direction transfers at most what is left and the limit for every
wait. -/
theorem Half.Inv.run_bytes_le (hinv : h.Inv capy) {es : List (HalfEvent β ε)}
    (hes : ∀ e ∈ es, ¬ e.IsLimit) (hrun : run (Half.step capy) h es = some h') :
    (es.map HalfEvent.bytes).sum ≤
      h.remain.toNat + h.limit.toNat * (es.map HalfEvent.waits).sum := by
  have hle := run_le (P := fun x => Half.Inv capy x ∧ x.limit = h.limit) (·.remain.toNat)
    HalfEvent.bytes (fun e => h.limit.toNat * e.waits) ?_ ⟨hinv, rfl⟩ hrun
  · rw [List.sum_map_mul_left] at hle
    exact le_trans (Nat.le_add_right _ _) hle
  · rintro x e x' ⟨hx, hlimit⟩ he hstep
    obtain ⟨hsame, hbytes⟩ := hx.bytes_le (hes e he) hstep
    rw [hlimit] at hsame hbytes
    exact ⟨⟨hx.step hstep, hsame⟩, hbytes⟩

/-- After a limit is set, a direction transfers at most the limit and once more the limit for every
wait. -/
theorem Half.Inv.run_limit_bytes_le (hinv : h.Inv capy) {limit : BitVec 64}
    {es : List (HalfEvent β ε)} (hes : ∀ e ∈ es, ¬ e.IsLimit)
    (hrun : run (Half.step capy) h (.limit limit :: es) = some h') :
    (es.map HalfEvent.bytes).sum ≤ limit.toNat * (1 + (es.map HalfEvent.waits).sum) := by
  obtain ⟨m, hm, hrun⟩ := run_cons_iff.1 hrun
  have hset : m = h.setLimit limit := by
    rcases Half.step_cases hm with ⟨b, hb, -, rfl⟩ | ⟨_, he, -⟩ | ⟨_, _, he, -⟩ | ⟨_, _, _, he, -⟩
    · cases hb
      rfl
    all_goals cases he
  have hle := (hinv.step hm).run_bytes_le hes hrun
  have hremain := hset ▸ Half.setLimit_remain_le limit (h := h)
  have hlimit : m.limit = limit := hset ▸ rfl
  rw [hlimit] at hle
  rw [Nat.mul_add, Nat.mul_one]
  exact le_trans hle (Nat.add_le_add_right hremain _)

/-- The limits of a stream are never overdrawn, whatever its callers and the stream beneath do: no
more is left than the limit, a transfer takes from the counter without a wrap, and after a limit is
set no more is transferred than the limit and once more the limit for every wait of a second. Each
direction has counters that its own events alone decide. -/
theorem limits_not_overdrawn {β ε : Type} (capy : Capy β) (es : List (StreamEvent β ε))
    (s : AnyStream β ε) (hrun : run (AnyStream.step capy) {} es = some s) :
    (s.rd.remain ≤ s.rd.limit ∧ s.wr.remain ≤ s.wr.limit) ∧
    (∀ d ec n s', s.step capy (d, .transferred ec n) = some s' →
      (s'.half d).remain.toNat + n.toNat = (s.half d).remain.toNat) ∧
    (∀ d limit es₁ es₂, es = es₁ ++ (d, .limit limit) :: es₂ → (∀ b, (d, .limit b) ∉ es₂) →
      bytes d es₂ ≤ limit.toNat * (1 + waits d es₂)) ∧
    ∀ d, run (Half.step capy) {} (part d es) = some (s.half d) := by
  refine ⟨⟨BitVec.le_def.2 (AnyStream.run_inv hrun .read).remain_le,
    BitVec.le_def.2 (AnyStream.run_inv hrun .write).remain_le⟩, ?_, ?_, fun d => ?_⟩
  · intro d ec n s' hstep
    have hown := AnyStream.step_own hstep
    rcases Half.step_cases hown with ⟨_, he, -⟩ | ⟨_, he, -⟩ | ⟨_, _, he, -⟩ |
      ⟨_, _, offered, he, hop, hn, hs'⟩
    case inr.inr.inr =>
      cases he
      rw [hs']
      exact (AnyStream.run_inv hrun d).toNat_sub hop hn
    all_goals cases he
  · rintro d limit es₁ es₂ rfl hes
    obtain ⟨m, hm, hrun⟩ := run_append_iff.1 hrun
    have hpart : part d ((d, HalfEvent.limit limit) :: es₂) = .limit limit :: part d es₂ := by
      rw [part_cons, if_pos rfl]
    refine (AnyStream.run_inv hm d).run_limit_bytes_le ?_ (hpart ▸ AnyStream.run_half hrun d)
    intro e he hlimit
    cases e with
    | limit b => exact hes b (mem_part.1 he)
    | start | waited | transferred => exact hlimit
  · have hhalf := AnyStream.run_half hrun d
    cases d with
    | read | write => exact hhalf

/-- Three bytes are written two a second, and one is read meanwhile. -/
def twoPerSecond : List (StreamEvent (List UInt8) Unit) :=
  [(.write, .limit 2), (.write, .start [1, 2, 3]), (.read, .start [0]),
    (.write, .transferred none 2), (.write, .start [3]), (.write, .waited none),
    (.read, .transferred none 1), (.write, .transferred none 1)]

theorem twoPerSecond_not_overdrawn :
    ∃ s, run (AnyStream.step byteBuffers) {} twoPerSecond = some s ∧ s.wr.remain = 1 ∧
      s.wr.remain ≤ s.wr.limit ∧ bytes .write twoPerSecond.tail = 3 ∧
      bytes .write twoPerSecond.tail ≤ 2 * (1 + waits .write twoPerSecond.tail) := by
  have hrun : run (AnyStream.step byteBuffers) {} twoPerSecond = some
      { rd := { remain := BitVec.allOnes 64 - 1, done := [(none, 1)] }
        wr := { remain := 1, limit := 2, done := [(none, 2), (none, 1)] } } := rfl
  obtain ⟨hremain, -, hbytes, -⟩ := limits_not_overdrawn byteBuffers twoPerSecond _ hrun
  refine ⟨_, hrun, rfl, hremain.2, rfl, ?_⟩
  exact hbytes .write 2 [] twoPerSecond.tail rfl (by simp [twoPerSecond])

end

end Beast2.Burl
