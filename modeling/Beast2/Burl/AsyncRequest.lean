import Beast2.Burl.Perform

/-!
# The operation that sends a request

`async_request_op` writes a request and reads the header of the response (`request.hpp`). If the
serializer stops after the header because of `Expect: 100-continue`, two chains of operations run
side by side: one waits for a timer and then writes the body, the other reads a header, and after a
100 reads another one. They share the state `exp100`, and the operation completes when both are at
their end.

The operation is a state machine that moves when a handler runs (`Completion`). The stream, the
serializer and the timer are outside: their operations complete in any order and with any error
code. The responses that the server sends are a list, and a header that is read is the next of
them. A timer's wait that is over is queued first, and its handler runs later; `timer.cancel()` ends
a wait that is still pending and does nothing to one that is queued.
-/

namespace Beast2.Burl

/-- `exp100::state`. Reference: `request.hpp:42`. -/
inductive Exp100State where
  | awaiting
  | received
  | cancelled
deriving DecidableEq, Repr

/-- The wait of the timer: not over, over with its handler queued, or its handler has run. -/
inductive TimerWait where
  | pending
  | queued
  | done
deriving DecidableEq, Repr

/-- `timer.cancel()`. -/
def TimerWait.cancel : TimerWait → TimerWait
  | .pending => .queued
  | w => w

/-- The first chain after the timer: the body is not written yet, it is being written, or the chain
is at its end with an error code. -/
inductive BodyChain (E : Type) where
  | waiting
  | writing
  | done (ec : Option E)
deriving DecidableEq, Repr

/-- The second chain: a header is being read, one after a 100 is, or the chain is at its end with an
error code. -/
inductive ReadChain (E : Type) where
  | first
  | second
  | done (ec : Option E)
deriving DecidableEq, Repr

/-- The two chains and what they share. Reference: `request.hpp:40, 95-134`. -/
structure Exp100 (E : Type) where
  state : Exp100State := .awaiting
  timer : TimerWait := .pending
  body : BodyChain E := .waiting
  read : ReadChain E := .first
deriving DecidableEq, Repr

/-- Where the coroutine is. -/
inductive RequestPhase (E : Type) where
  | writing
  | reading
  | group (g : Exp100 E)
  | completed
deriving DecidableEq, Repr

/-- What an operation logs: the timer's handler ran and started the body's write or not, the first
header was read, a chain came to its end, the operation completed. -/
inductive RequestEvent (E F : Type) where
  | timer (started : Bool)
  | header (r : Except E (Response F))
  | bodyDone (ec : Option E)
  | readDone (ec : Option E)
  | completed (ec : Option E)

/-- `async_request_op`: where it is, the header in the parser, the responses still to come, and the
log. Reference: `request.hpp:32`. -/
structure RequestOp (E F : Type) where
  phase : RequestPhase E := .writing
  parser : Option (Response F) := none
  responses : List (Response F)
  log : List (RequestEvent E F) := []

/-- A handler that runs: that of a write, of a read, of the timer's wait or of the parallel group.
Before the timer's handler, the wait is over: the timer has expired, or the operation was
cancelled. -/
inductive Completion (E : Type) where
  | write (ec : Option E)
  | read (ec : Option E)
  | expire
  | timer
  | group
deriving DecidableEq, Repr

section
variable {E F : Type} [DecidableEq E]

/-- `self.complete(ec)`. -/
def RequestOp.complete (o : RequestOp E F) (ec : Option E) : RequestOp E F :=
  { o with
    phase := .completed
    log := o.log ++ [.completed ec] }

/-- The handler of the timer's wait. Its error code is not looked at. Reference:
`request.hpp:99-108`. -/
def RequestOp.timerHandler (o : RequestOp E F) (g : Exp100 E) : RequestOp E F :=
  if g.state ≠ .cancelled then
    { o with
      phase := .group { g with timer := .done, body := .writing }
      log := o.log ++ [.timer true] }
  else
    { o with
      phase := .group { g with timer := .done, body := .done none }
      log := o.log ++ [.timer false, .bodyDone none] }

/-- The handlers of the reads of the second chain, `none` if there is nothing to read. Reference:
`request.hpp:111-132`. -/
def RequestOp.readHandler (o : RequestOp E F) (g : Exp100 E) (ec : Option E) :
    Option (RequestOp E F) :=
  match g.read, ec, o.responses with
  | .first, some ec, _ =>
    some { o with
      phase := .group { g with
        state := .cancelled
        timer := g.timer.cancel
        read := .done (some ec) }
      log := o.log ++ [.header (.error ec), .readDone (some ec)] }
  | .first, none, res :: responses =>
    if res.status ≠ 100 then
      some { o with
        phase := .group { g with
          state := .cancelled
          timer := g.timer.cancel
          read := .done none }
        parser := some res
        responses
        log := o.log ++ [.header (.ok res), .readDone none] }
    else
      -- `parser.start()` drops the header of the 100
      some { o with
        phase := .group { g with
          state := .received
          timer := g.timer.cancel
          read := .second }
        parser := none
        responses
        log := o.log ++ [.header (.ok res)] }
  | .second, some ec, _ =>
    some { o with
      phase := .group { g with read := .done (some ec) }
      log := o.log ++ [.readDone (some ec)] }
  | .second, none, res :: responses =>
    some { o with
      phase := .group { g with read := .done none }
      parser := some res
      responses
      log := o.log ++ [.readDone none] }
  | _, _, _ => none

/-- One handler of the operation, `none` where it cannot run. `expect100` is the error code
`http::error::expect_100_continue`. Reference: `request.hpp:65-149`. -/
def RequestOp.step (expect100 : E) (o : RequestOp E F) : Completion E → Option (RequestOp E F)
  | .write ec =>
    match o.phase, ec with
    | .writing, none => some { o with phase := .reading }
    | .writing, some ec =>
      if ec ≠ expect100 then some (o.complete (some ec)) else some { o with phase := .group {} }
    | .group g, ec =>
      if g.body = .writing then
        some { o with
          phase := .group { g with body := .done ec }
          log := o.log ++ [.bodyDone ec] }
      else none
    | _, _ => none
  | .read ec =>
    match o.phase, ec, o.responses with
    | .reading, some ec, _ => some (o.complete (some ec))
    | .reading, none, res :: responses =>
      some ({ o with parser := some res, responses }.complete none)
    | .group g, ec, _ => o.readHandler g ec
    | _, _, _ => none
  | .expire =>
    match o.phase with
    | .group g =>
      if g.timer = .pending then some { o with phase := .group { g with timer := .queued } }
      else none
    | _ => none
  | .timer =>
    match o.phase with
    | .group g => if g.timer = .queued then some (o.timerHandler g) else none
    | _ => none
  | .group =>
    match o.phase with
    | .group g =>
      match g.body, g.read with
      | .done ec1, .done ec2 => some (o.complete (ec1 <|> ec2))
      | _, _ => none
    | _ => none

/-- The operation after a sequence of handlers, for a server that sends these responses. -/
def RequestOp.run (expect100 : E) (responses : List (Response F)) (cs : List (Completion E)) :
    Option (RequestOp E F) :=
  cs.foldlM (RequestOp.step expect100) { responses }

theorem RequestOp.run_append (expect100 : E) (responses : List (Response F))
    (cs : List (Completion E)) (c : Completion E) :
    run expect100 responses (cs ++ [c]) =
      (run expect100 responses cs).bind (step expect100 · c) := by
  simp [run, List.foldlM_append]

/-- A header that stopped with `expect_100_continue` starts the two chains. -/
theorem RequestOp.run_expect (expect100 : E) (responses : List (Response F))
    (cs : List (Completion E)) :
    run expect100 responses (.write (some expect100) :: cs) =
      cs.foldlM (step expect100) { phase := .group {}, responses } := by
  simp only [run, List.foldlM_cons, step, ne_eq, not_true_eq_false, if_false, Option.bind_eq_bind,
    Option.bind_some]

/-! ## What a handler does while both chains run -/

/-- Everything that can happen to an operation whose two chains run. -/
inductive RequestOp.GroupMoves (o : RequestOp E F) (g : Exp100 E) : RequestOp E F → Prop
  | expire (htimer : g.timer = .pending) :
      GroupMoves o g { o with phase := .group { g with timer := .queued } }
  | start (htimer : g.timer = .queued) (hstate : g.state ≠ .cancelled) :
      GroupMoves o g { o with
        phase := .group { g with timer := .done, body := .writing }
        log := o.log ++ [.timer true] }
  | skip (htimer : g.timer = .queued) (hstate : g.state = .cancelled) :
      GroupMoves o g { o with
        phase := .group { g with timer := .done, body := .done none }
        log := o.log ++ [.timer false, .bodyDone none] }
  | written (ec : Option E) (hbody : g.body = .writing) :
      GroupMoves o g { o with
        phase := .group { g with body := .done ec }
        log := o.log ++ [.bodyDone ec] }
  | failed (ec : E) (hread : g.read = .first) :
      GroupMoves o g { o with
        phase := .group { g with
          state := .cancelled
          timer := g.timer.cancel
          read := .done (some ec) }
        log := o.log ++ [.header (.error ec), .readDone (some ec)] }
  | answered (res : Response F) (responses : List (Response F)) (hread : g.read = .first)
      (hres : o.responses = res :: responses) (hstatus : res.status ≠ 100) :
      GroupMoves o g { o with
        phase := .group { g with
          state := .cancelled
          timer := g.timer.cancel
          read := .done none }
        parser := some res
        responses
        log := o.log ++ [.header (.ok res), .readDone none] }
  | continued (res : Response F) (responses : List (Response F)) (hread : g.read = .first)
      (hres : o.responses = res :: responses) (hstatus : res.status = 100) :
      GroupMoves o g { o with
        phase := .group { g with
          state := .received
          timer := g.timer.cancel
          read := .second }
        parser := none
        responses
        log := o.log ++ [.header (.ok res)] }
  | readFailed (ec : E) (hread : g.read = .second) :
      GroupMoves o g { o with
        phase := .group { g with read := .done (some ec) }
        log := o.log ++ [.readDone (some ec)] }
  | read (res : Response F) (responses : List (Response F)) (hread : g.read = .second)
      (hres : o.responses = res :: responses) :
      GroupMoves o g { o with
        phase := .group { g with read := .done none }
        parser := some res
        responses
        log := o.log ++ [.readDone none] }
  | completed (ec1 ec2 : Option E) (hbody : g.body = .done ec1) (hread : g.read = .done ec2) :
      GroupMoves o g (o.complete (ec1 <|> ec2))

variable {o o' : RequestOp E F} {g : Exp100 E} {expect100 : E} {c : Completion E}

omit [DecidableEq E] in
/-- The handlers of the reads. -/
theorem RequestOp.readHandler_moves {ec : Option E} (h : o.readHandler g ec = some o') :
    o.GroupMoves g o' := by
  unfold readHandler at h
  split at h
  · next hread =>
    cases h
    exact .failed _ hread
  · next hread hres =>
    split at h
    · next hstatus =>
      cases h
      exact .answered _ _ hread hres hstatus
    · next hstatus =>
      cases h
      exact .continued _ _ hread hres (not_not.1 hstatus)
  · next hread =>
    cases h
    exact .readFailed _ hread
  · next hread hres =>
    cases h
    exact .read _ _ hread hres
  · cases h

/-- No handler runs after the operation has completed. -/
theorem RequestOp.step_completed (hphase : o.phase = .completed) : o.step expect100 c = none := by
  cases c <;> simp [step, hphase]

/-- A handler that runs while both chains run. -/
theorem RequestOp.step_moves (hphase : o.phase = .group g) (h : o.step expect100 c = some o') :
    o.GroupMoves g o' := by
  cases c with
  | write ec =>
    simp only [step, hphase] at h
    split at h
    · next hbody =>
      cases h
      exact .written ec hbody
    · cases h
  | read ec =>
    simp only [step, hphase] at h
    exact readHandler_moves h
  | expire =>
    simp only [step, hphase] at h
    split at h
    · next htimer =>
      cases h
      exact .expire htimer
    · cases h
  | timer =>
    simp only [step, hphase] at h
    split at h
    · next htimer =>
      cases h
      unfold timerHandler
      split
      · next hstate => exact .start htimer hstate
      · next hstate => exact .skip htimer (not_not.1 hstate)
    · cases h
  | group =>
    simp only [step, hphase] at h
    split at h
    · next ec1 ec2 hbody hread =>
      cases h
      exact .completed ec1 ec2 hbody hread
    · cases h

end

end Beast2.Burl
