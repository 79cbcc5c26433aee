import Mathlib.Data.List.Induction
import Beast2.Lib.Log
import Beast2.Burl.AsyncRequest

/-!
# Expect: 100-continue

After a header that stopped with `expect_100_continue`, a timer and a read race. Whatever the order
in which the handlers run: the body's write is started at most once, and not after a response other
than 100 or an error was read; it is started if a 100 is read or if the timer's handler runs first;
and the operation completes once, after both chains, with the write's error or else the read's
(`expect100_protocol`). A wait that was over before the read's handler could cancel it is the case
to get right: its handler is queued, and it looks at the shared state when it runs.

The invariant ties the shared state, and where the two chains are, to the log (`Exp100.Logged`). No
run is longer than six handlers (`Exp100.rank`) and no operation is stuck before it has completed.
-/

namespace Beast2.Burl

open Log

section
variable {E F : Type}

/-- The result of a read is a response 100. -/
def Is100 (r : Except E (Response F)) : Prop := ∃ res, r = .ok res ∧ res.status = 100

/-- An event of an operation is in order after a log. The timer's handler runs once, starts the
body's write only if no response but 100 and no error was read before, and starts it if nothing was
read before. A chain comes to its end once, the first one after the timer's handler and without an
error if that started nothing. The operation completes once, after both chains, with the error of
the write or else that of the read. -/
def ExpectOrder (log : List (RequestEvent E F)) : RequestEvent E F → Prop
  | .timer started => (∀ b, .timer b ∉ log) ∧ (started = true → ∀ r, .header r ∈ log → Is100 r) ∧
      ((∀ r, .header r ∉ log) → started = true)
  | .header _ => ∀ r, .header r ∉ log
  | .bodyDone ec => (∀ ec', .bodyDone ec' ∉ log) ∧
      (.timer true ∈ log ∨ .timer false ∈ log ∧ ec = none)
  | .readDone _ => ∀ ec, .readDone ec ∉ log
  | .completed ec => (∀ ec', .completed ec' ∉ log) ∧
      ∃ ec1 ec2, .bodyDone ec1 ∈ log ∧ .readDone ec2 ∈ log ∧ ec = (ec1 <|> ec2)

/-! ## The invariant -/

/-- The shared state says what was read so far. -/
def Exp100.StateLogged (g : Exp100 E) (log : List (RequestEvent E F)) : Prop :=
  match g.state with
  | .awaiting => g.read = .first ∧ ∀ r, .header r ∉ log
  | .received => g.read ≠ .first ∧ ∀ r, .header r ∈ log → Is100 r
  | .cancelled => g.read ≠ .first ∧ (∃ r, .header r ∈ log) ∧ ∀ r, .header r ∈ log → ¬ Is100 r

/-- Where the first chain is, and what is logged of it. -/
def Exp100.BodyLogged (g : Exp100 E) (log : List (RequestEvent E F)) : Prop :=
  match g.body with
  | .waiting => g.timer ≠ .done ∧ (∀ b, .timer b ∉ log) ∧ ∀ ec, .bodyDone ec ∉ log
  | .writing => g.timer = .done ∧ .timer true ∈ log ∧ ∀ ec, .bodyDone ec ∉ log
  | .done ec => g.timer = .done ∧ .bodyDone ec ∈ log ∧ (.timer true ∈ log ∨ g.state = .cancelled)

/-- Where the second chain is, and what is logged of it. -/
def Exp100.ReadLogged (g : Exp100 E) (log : List (RequestEvent E F)) : Prop :=
  match g.read with
  | .done ec => .readDone ec ∈ log
  | _ => ∀ ec, .readDone ec ∉ log

/-- The two chains and the log, while both run. -/
structure Exp100.Logged (g : Exp100 E) (log : List (RequestEvent E F)) : Prop where
  order : Along ExpectOrder log
  state : g.StateLogged log
  body : g.BodyLogged log
  read : g.ReadLogged log
  open_ : ∀ ec, .completed ec ∉ log

/-- The log of an operation that has completed. -/
structure CompletedLog (log : List (RequestEvent E F)) : Prop where
  order : Along ExpectOrder log
  completed : ∃ ec, .completed ec ∈ log
  started : (∃ r, .header r ∈ log ∧ Is100 r) → .timer true ∈ log

/-- What holds of an operation from the start of the two chains on. -/
def RequestOp.Expecting (o : RequestOp E F) : Prop :=
  match o.phase with
  | .group g => g.Logged o.log
  | .completed => CompletedLog o.log
  | _ => False

variable {o o' : RequestOp E F} {g g' : Exp100 E} {log log' : List (RequestEvent E F)}

/-- Both chains run, or the operation has completed. -/
theorem RequestOp.Expecting.phase_cases (h : o.Expecting) :
    (∃ g, o.phase = .group g ∧ g.Logged o.log) ∨ o.phase = .completed ∧ CompletedLog o.log := by
  cases hphase : o.phase with
  | writing => simp [Expecting, hphase] at h
  | reading => simp [Expecting, hphase] at h
  | group g =>
    rw [Expecting, hphase] at h
    exact .inl ⟨g, rfl, h⟩
  | completed =>
    rw [Expecting, hphase] at h
    exact .inr ⟨rfl, h⟩

/-! ## What leaves a part of the invariant alone -/

theorem Exp100.StateLogged.congr (h : g.StateLogged log) (hstate : g'.state = g.state)
    (hread : g'.read = .first ↔ g.read = .first)
    (hlog : ∀ r, .header r ∈ log' ↔ .header r ∈ log) : g'.StateLogged log' := by
  simp only [StateLogged, hstate, ne_eq, hread, hlog] at h ⊢
  exact h

theorem Exp100.BodyLogged.congr (h : g.BodyLogged log) (hbody : g'.body = g.body)
    (htimer : g'.timer = .done ↔ g.timer = .done)
    (hstate : g.state = .cancelled → g'.state = .cancelled)
    (hlog : ∀ b, .timer b ∈ log' ↔ .timer b ∈ log)
    (hdone : ∀ ec, .bodyDone ec ∈ log' ↔ .bodyDone ec ∈ log) : g'.BodyLogged log' := by
  simp only [BodyLogged, hbody, ne_eq, htimer, hlog, hdone] at h ⊢
  cases hg : g.body with
  | waiting => simpa [hg] using h
  | writing => simpa [hg] using h
  | done ec =>
    simp only [hg] at h ⊢
    exact ⟨h.1, h.2.1, h.2.2.imp_right hstate⟩

theorem Exp100.ReadLogged.congr (h : g.ReadLogged log) (hread : g'.read = g.read)
    (hlog : ∀ ec, .readDone ec ∈ log' ↔ .readDone ec ∈ log) : g'.ReadLogged log' := by
  simp only [ReadLogged, hread, hlog] at h ⊢
  exact h

theorem TimerWait.cancel_eq_done {w : TimerWait} : w.cancel = .done ↔ w = .done := by
  cases w <;> simp [cancel]

/-! ## The first chain -/

/-- Before the timer's handler the body waits, and nothing is logged of the first chain. -/
theorem Exp100.Logged.waiting (h : g.Logged log) (htimer : g.timer = .queued) :
    g.body = .waiting ∧ (∀ b, .timer b ∉ log) ∧ ∀ ec, .bodyDone ec ∉ log := by
  have hbody := h.body
  cases hg : g.body with
  | waiting =>
    rw [BodyLogged, hg] at hbody
    exact ⟨rfl, hbody.2⟩
  | writing => simp [BodyLogged, hg, htimer] at hbody
  | done ec => simp [BodyLogged, hg, htimer] at hbody

/-- The timer's handler, as long as nothing but a 100 was read, starts the body's write. -/
theorem Exp100.Logged.start (h : g.Logged log) (htimer : g.timer = .queued)
    (hstate : g.state ≠ .cancelled) :
    Exp100.Logged { g with timer := .done, body := .writing } (log ++ [.timer true]) := by
  obtain ⟨-, hnone, hdone⟩ := h.waiting htimer
  have hheaders : ∀ r, .header r ∈ log → Is100 r := by
    have hlogged := h.state
    cases hs : g.state with
    | awaiting => simp_all [StateLogged]
    | received => simp_all [StateLogged]
    | cancelled => exact absurd hs hstate
  refine ⟨along_append_singleton.2 ⟨h.order, hnone, fun _ => hheaders, fun _ => rfl⟩, ?_, ?_, ?_,
    ?_⟩
  · exact h.state.congr rfl Iff.rfl (by simp)
  · simp [BodyLogged, hdone]
  · exact h.read.congr rfl (by simp)
  · simpa using h.open_

/-- The timer's handler, after another response or an error was read, leaves the body. -/
theorem Exp100.Logged.skip (h : g.Logged log) (htimer : g.timer = .queued)
    (hstate : g.state = .cancelled) :
    Exp100.Logged { g with timer := .done, body := .done none }
      (log ++ [.timer false, .bodyDone none]) := by
  obtain ⟨-, hnone, hdone⟩ := h.waiting htimer
  have hread : ∃ r, .header r ∈ log := by
    have hlogged := h.state
    rw [StateLogged, hstate] at hlogged
    exact hlogged.2.1
  refine ⟨along_append_pair.2 ⟨h.order, ⟨hnone, nofun, fun hno => ?_⟩, ?_, ?_⟩, ?_, ?_, ?_, ?_⟩
  · obtain ⟨r, hr⟩ := hread
    exact absurd hr (hno r)
  · simpa using hdone
  · exact .inr ⟨by simp, rfl⟩
  · exact h.state.congr rfl Iff.rfl (by simp)
  · simp [BodyLogged, hstate]
  · exact h.read.congr rfl (by simp)
  · simpa using h.open_

/-- The body's write completes. -/
theorem Exp100.Logged.written (h : g.Logged log) (hbody : g.body = .writing) (ec : Option E) :
    Exp100.Logged { g with body := .done ec } (log ++ [.bodyDone ec]) := by
  obtain ⟨htimer, hstarted, hdone⟩ : g.timer = .done ∧ .timer true ∈ log ∧
      ∀ ec, .bodyDone ec ∉ log := by
    have hlogged := h.body
    rw [BodyLogged, hbody] at hlogged
    exact hlogged
  refine ⟨along_append_singleton.2 ⟨h.order, hdone, .inl hstarted⟩, ?_, ?_, ?_, ?_⟩
  · exact h.state.congr rfl Iff.rfl (by simp)
  · simp [BodyLogged, htimer, hstarted]
  · exact h.read.congr rfl (by simp)
  · simpa using h.open_

/-! ## The second chain -/

/-- Before the first header is read nothing is logged of the second chain, and the state is
`awaiting`. -/
theorem Exp100.Logged.first (h : g.Logged log) (hread : g.read = .first) :
    g.state = .awaiting ∧ (∀ r, .header r ∉ log) ∧ ∀ ec, .readDone ec ∉ log := by
  have hdone := h.read
  rw [ReadLogged, hread] at hdone
  have hlogged := h.state
  cases hs : g.state with
  | awaiting =>
    rw [StateLogged, hs] at hlogged
    exact ⟨rfl, hlogged.2, hdone⟩
  | received => simp [StateLogged, hs, hread] at hlogged
  | cancelled => simp [StateLogged, hs, hread] at hlogged

/-- Another response than 100, or an error, ends the second chain and cancels the timer. -/
theorem Exp100.Logged.cancel (h : g.Logged log) (hread : g.read = .first)
    {r : Except E (Response F)} (hr : ¬ Is100 r) (ec : Option E) :
    Exp100.Logged { g with state := .cancelled, timer := g.timer.cancel, read := .done ec }
      (log ++ [.header r, .readDone ec]) := by
  obtain ⟨hstate, hnone, hdone⟩ := h.first hread
  refine ⟨along_append_pair.2 ⟨h.order, hnone, ?_⟩, ?_, ?_, ?_, ?_⟩
  · simpa [ExpectOrder] using hdone
  · simp [StateLogged, hnone, hr]
  · exact h.body.congr rfl TimerWait.cancel_eq_done (fun _ => rfl) (by simp) (by simp)
  · simp [ReadLogged]
  · simpa using h.open_

/-- A 100 cancels the timer, and the next header is read. -/
theorem Exp100.Logged.continued (h : g.Logged log) (hread : g.read = .first)
    {r : Except E (Response F)} (hr : Is100 r) :
    Exp100.Logged { g with state := .received, timer := g.timer.cancel, read := .second }
      (log ++ [.header r]) := by
  obtain ⟨hstate, hnone, hdone⟩ := h.first hread
  refine ⟨along_append_singleton.2 ⟨h.order, hnone⟩, ?_, ?_, ?_, ?_⟩
  · simp [StateLogged, hnone, hr]
  · exact h.body.congr rfl TimerWait.cancel_eq_done (fun hc => absurd (hstate.symm.trans hc) nofun)
      (by simp) (by simp)
  · simpa [ReadLogged] using hdone
  · simpa using h.open_

/-- The read after a 100 completes. -/
theorem Exp100.Logged.readDone (h : g.Logged log) (hread : g.read = .second) (ec : Option E) :
    Exp100.Logged { g with read := .done ec } (log ++ [.readDone ec]) := by
  have hdone : ∀ ec, .readDone ec ∉ log := by
    have hlogged := h.read
    rw [ReadLogged, hread] at hlogged
    exact hlogged
  refine ⟨along_append_singleton.2 ⟨h.order, hdone⟩, ?_, ?_, ?_, ?_⟩
  · exact h.state.congr rfl (by simp [hread]) (by simp)
  · exact h.body.congr rfl Iff.rfl id (by simp) (by simp)
  · simp [ReadLogged]
  · simpa using h.open_

/-! ## Completion -/

/-- Both chains are at their end and the operation completes. -/
theorem Exp100.Logged.completed (h : g.Logged log) {ec1 ec2 : Option E} (hbody : g.body = .done ec1)
    (hread : g.read = .done ec2) : CompletedLog (log ++ [.completed (ec1 <|> ec2)]) := by
  have hbodyDone := h.body
  rw [BodyLogged, hbody] at hbodyDone
  have hreadDone := h.read
  rw [ReadLogged, hread] at hreadDone
  refine ⟨along_append_singleton.2 ⟨h.order, h.open_, ec1, ec2, hbodyDone.2.1, hreadDone, rfl⟩,
    ⟨ec1 <|> ec2, by simp⟩, ?_⟩
  rintro ⟨r, hr, h100⟩
  have hr : .header r ∈ log := by simpa using hr
  rcases hbodyDone.2.2 with hstarted | hcancelled
  · exact List.mem_append_left _ hstarted
  · -- a cancelled operation has read no 100
    have hlogged := h.state
    rw [StateLogged, hcancelled] at hlogged
    exact absurd h100 (hlogged.2.2 r hr)

/-- Every move of the two chains keeps the invariant. -/
theorem Exp100.Logged.moves (h : g.Logged o.log) (hmove : o.GroupMoves g o') : o'.Expecting := by
  cases hmove with
  | expire htimer =>
    refine ⟨h.order, h.state.congr rfl Iff.rfl fun _ => Iff.rfl, ?_, h.read, h.open_⟩
    exact h.body.congr rfl (by simp [htimer]) id (fun _ => Iff.rfl) fun _ => Iff.rfl
  | start htimer hstate => exact h.start htimer hstate
  | skip htimer hstate => exact h.skip htimer hstate
  | written ec hbody => exact h.written hbody ec
  | failed ec hread =>
    refine h.cancel hread ?_ (some ec)
    rintro ⟨res, hres, -⟩
    cases hres
  | answered res responses hread hres hstatus =>
    refine h.cancel hread ?_ none
    rintro ⟨_, ⟨⟩, h100⟩
    exact hstatus h100
  | continued res responses hread hres hstatus => exact h.continued hread ⟨res, rfl, hstatus⟩
  | readFailed ec hread => exact h.readDone hread (some ec)
  | read res responses hread hres => exact h.readDone hread none
  | completed ec1 ec2 hbody hread => exact h.completed hbody hread

/-! ## Runs -/

/-- A bound on the handlers that can still run for a wait. -/
def TimerWait.rank : TimerWait → Nat
  | .pending => 2
  | .queued => 1
  | .done => 0

/-- A bound on the handlers that can still run for the body's write. -/
def BodyChain.rank : BodyChain E → Nat
  | .done _ => 0
  | _ => 1

/-- A bound on the handlers that can still run for the reads. -/
def ReadChain.rank : ReadChain E → Nat
  | .first => 2
  | .second => 1
  | .done _ => 0

/-- A bound on the handlers that can still run while both chains run. -/
def RequestOp.rank (o : RequestOp E F) : Nat :=
  match o.phase with
  | .group g => g.timer.rank + g.body.rank + g.read.rank + 1
  | _ => 0

theorem TimerWait.rank_cancel (w : TimerWait) : w.cancel.rank ≤ w.rank := by
  cases w <;> decide

/-- Every move lowers the bound. -/
theorem Exp100.Logged.rank_lt (h : g.Logged o.log) (hphase : o.phase = .group g)
    (hmove : o.GroupMoves g o') : o'.rank < o.rank := by
  have hrank : o.rank = g.timer.rank + g.body.rank + g.read.rank + 1 := by
    rw [RequestOp.rank, hphase]
  have hcancel := g.timer.rank_cancel
  rw [hrank]
  cases hmove with
  | expire htimer =>
    simp only [RequestOp.rank, htimer, TimerWait.rank]
    omega
  | start htimer hstate =>
    obtain ⟨hbody, -⟩ := h.waiting htimer
    simp only [RequestOp.rank, htimer, hbody, TimerWait.rank, BodyChain.rank]
    omega
  | skip htimer hstate =>
    simp only [RequestOp.rank, htimer, TimerWait.rank, BodyChain.rank]
    omega
  | written ec hbody =>
    simp only [RequestOp.rank, hbody, BodyChain.rank]
    omega
  | failed ec hread | answered res responses hread hres hstatus =>
    simp only [RequestOp.rank, hread, ReadChain.rank]
    omega
  | continued res responses hread hres hstatus =>
    simp only [RequestOp.rank, hread, ReadChain.rank]
    omega
  | readFailed ec hread | read res responses hread hres =>
    simp only [RequestOp.rank, hread, ReadChain.rank]
    omega
  | completed ec1 ec2 hbody hread =>
    show 0 < _
    omega

variable [DecidableEq E] {expect100 : E}

/-- No handler can run any more. -/
def RequestOp.Stuck (expect100 : E) (o : RequestOp E F) : Prop := ∀ c, o.step expect100 c = none

/-- A handler that runs leaves the invariant, with a lower bound. -/
theorem RequestOp.Expecting.step (h : o.Expecting) {c : Completion E}
    (hstep : o.step expect100 c = some o') : o'.Expecting ∧ o'.rank < o.rank := by
  rcases h.phase_cases with ⟨g, hphase, hlogged⟩ | ⟨hphase, -⟩
  · have hmove := RequestOp.step_moves hphase hstep
    exact ⟨hlogged.moves hmove, hlogged.rank_lt hphase hmove⟩
  · rw [RequestOp.step_completed hphase] at hstep
    cases hstep

/-- While both chains run, some handler can run. -/
theorem Exp100.Logged.not_stuck (h : g.Logged o.log) (hphase : o.phase = .group g) :
    ¬ o.Stuck expect100 := by
  intro hstuck
  have hexpire := hstuck .expire
  have htimer := hstuck .timer
  have hwrite := hstuck (.write none)
  have hread := hstuck (.read (some expect100))
  have hgroup := hstuck .group
  simp only [RequestOp.step, hphase, ite_eq_right_iff, reduceCtorEq, imp_false]
    at hexpire htimer hwrite
  simp only [RequestOp.step, hphase, RequestOp.readHandler] at hread
  simp only [RequestOp.step, hphase] at hgroup
  -- the timer's handler has run, so the body waits no more
  have hbody := h.body
  cases hg : g.body with
  | waiting =>
    rw [BodyLogged, hg] at hbody
    cases ht : g.timer with
    | pending => exact hexpire ht
    | queued => exact htimer ht
    | done => exact hbody.1 ht
  | writing => exact hwrite hg
  | done ec =>
    cases hr : g.read with
    | first => simp [hr] at hread
    | second => simp [hr] at hread
    | done ec2 => simp [hg, hr] at hgroup

/-- The runs of an operation whose header stopped with `expect_100_continue`. -/
theorem RequestOp.expecting_run {responses : List (Response F)} {cs : List (Completion E)}
    (h : run expect100 responses (.write (some expect100) :: cs) = some o) :
    o.Expecting ∧ cs.length + o.rank ≤ 6 := by
  induction cs using List.reverseRecOn generalizing o with
  | nil =>
    rw [run_expect] at h
    cases h
    refine ⟨⟨along_nil, ?_, ?_, ?_, ?_⟩, Nat.le_refl 6⟩
    · simp [Exp100.StateLogged]
    · simp [Exp100.BodyLogged]
    · simp [Exp100.ReadLogged]
    · simp
  | append_singleton cs c ih =>
    rw [← List.cons_append, run_append] at h
    obtain ⟨o₁, h₁, hstep⟩ := Option.bind_eq_some_iff.1 h
    obtain ⟨hexp, hle⟩ := ih h₁
    obtain ⟨hexp', hlt⟩ := hexp.step hstep
    refine ⟨hexp', ?_⟩
    rw [List.length_append, List.length_singleton]
    omega

/-- After a header that stopped with `expect_100_continue`, whatever handlers run in whatever order:
their events are in order; at most six run; and when no more can run, the operation has completed,
and the body's write was started if a 100 was read. -/
theorem expect100_protocol (expect100 : E) (responses : List (Response F))
    (cs : List (Completion E)) (o : RequestOp E F)
    (h : RequestOp.run expect100 responses (.write (some expect100) :: cs) = some o) :
    Along ExpectOrder o.log ∧ cs.length ≤ 6 ∧
      (o.Stuck expect100 → (∃ ec, .completed ec ∈ o.log) ∧
        ((∃ r, .header r ∈ o.log ∧ Is100 r) → .timer true ∈ o.log)) := by
  obtain ⟨hexp, hle⟩ := RequestOp.expecting_run h
  rcases hexp.phase_cases with ⟨g, hphase, hlogged⟩ | ⟨-, hcompleted⟩
  · exact ⟨hlogged.order, by omega, fun hstuck => absurd hstuck (hlogged.not_stuck hphase)⟩
  · exact ⟨hcompleted.order, by omega, fun _ => ⟨hcompleted.completed, hcompleted.started⟩⟩

end

/-- A response without fields. -/
def plainResponse (status : Nat) : Response Unit := ⟨status, true, false, ()⟩

/-- The timer's handler starts the body's write, then a 100 and the final response are read. -/
theorem timerFirst_protocol :
    let cs : List (Completion Unit) :=
      [.expire, .timer, .read none, .write none, .read none, .group]
    ∃ o, RequestOp.run () [plainResponse 100, plainResponse 200] (.write (some ()) :: cs) = some o ∧
      o.log = [.timer true, .header (.ok (plainResponse 100)), .bodyDone none, .readDone none,
        .completed none] ∧
      Along ExpectOrder o.log ∧ cs.length ≤ 6 ∧ (o.Stuck () → (∃ ec, .completed ec ∈ o.log) ∧
        ((∃ r, .header r ∈ o.log ∧ Is100 r) → .timer true ∈ o.log)) :=
  ⟨_, rfl, rfl, expect100_protocol () [plainResponse 100, plainResponse 200] _ _ rfl⟩

end Beast2.Burl
