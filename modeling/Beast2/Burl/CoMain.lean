import Beast2.Lib.Machine
import Beast2.Burl.Retry
import Beast2.Burl.TaskGroupSlots
import Beast2.Burl.TaskGroupWake

/-!
# The requests of a command line

`co_main` takes the requests from `ropt_gen` one by one, waits for a slot of the task group, and
spawns `retry` with the completion handler that `async_adapt` has made. When there is no request
left, or something was thrown, it waits in `async_join` for the tasks and writes the cookie jar
(`main.cpp:732-854`). With `--fail-early` a task that throws closes the group.

A state is `co_main` at a `co_await`, the group, the tasks and the jar that they share. An event is
what the executor runs next: `co_main` goes on, a task stores a cookie or ends, a queued handler of
the group runs, or somebody moves or destroys a remover; or the process is interrupted. A remover
with its `tg_` is part of a completion handler, and is destroyed only after the handler has run, or
when `co_await` has thrown (`CoMain.released`).
-/

namespace Beast2.Burl

open TaskGroup Machine

/-- What a call of `ropt_gen` does before it yields nothing: it yields the options of a request, or
throws. -/
inductive Yield (R : Type) where
  | request (ropt : R)
  | throws
deriving DecidableEq, Repr

/-- The options of `operation_config` that `co_main` depends on itself. Reference:
`options.hpp:53, 77, 82`. -/
structure CoMainConfig where
  parallelMax : Nat := 1
  failearly : Bool := false
  cookiejar : Bool := false
deriving DecidableEq, Repr

/-- A task: the request it was spawned for, the `async_adapt` that admitted it, and whether it runs
still. -/
structure Task (R : Type) where
  ropt : R
  op : Nat
  running : Bool
deriving DecidableEq, Repr

/-- The `co_await` that `co_main` is at, with the operation it waits for, or its end. -/
inductive Await (R : Type) where
  | adapt (ropt : R) (op : Nat)
  | join (op : Nat)
  | returned
deriving DecidableEq, Repr

/-- What `ep` holds: what `ropt_gen` threw, or a `system_error` that is not of the task group. -/
inductive Ep where
  | generator
  | systemError
deriving DecidableEq, Repr

/-- `co_main`. `gen` is what `ropt_gen` has still to do, `dropped` the operations whose `co_await`
threw, and `saved` what was written to the file of `--cookie-jar`. -/
structure CoMain (R J : Type) where
  oc : CoMainConfig
  group : Group
  gen : List (Yield R)
  tasks : List (Task R)
  dropped : List Nat
  await : Await R
  cancelled : Bool
  ep : Option Ep
  jar : J
  saved : Option J

section
variable {R J : Type}

/-- What follows the loop: `emit` if `co_main` was cancelled, and `async_join`. Reference:
`main.cpp:841-847`. -/
def CoMain.leave (s : CoMain R J) : CoMain R J :=
  let s := if s.cancelled then { s with group := s.group.step .emit, cancelled := false } else s
  { s with group := s.group.step .asyncJoin, await := .join s.group.ops.length }

/-- The head of the loop. A `co_await` in a coroutine that was cancelled throws. Reference:
`main.cpp:803-820`. -/
def CoMain.next (s : CoMain R J) : CoMain R J :=
  match s.gen with
  | [] => s.leave
  | .throws :: gen => { s with gen, ep := some .generator }.leave
  | .request ropt :: gen =>
    if s.cancelled then { s with gen, ep := some .systemError }.leave
    else { s with
      gen
      group := s.group.step .asyncAdapt
      await := .adapt ropt s.group.ops.length }

/-- `co_main` up to its first `co_await`. Reference: `main.cpp:741-803`. -/
def CoMain.start (oc : CoMainConfig) (gen : List (Yield R)) (jar : J) : CoMain R J :=
  CoMain.next ⟨oc, .init oc.parallelMax, gen, [], [], .returned, false, none, jar, none⟩

/-- The phase of an operation. -/
def CoMain.phase (s : CoMain R J) (op : Nat) : Option Phase := s.group.ops[op]?.map (·.phase)

/-- `co_main` goes on from its `co_await`, if the operation is complete. Reference:
`main.cpp:817-853`. -/
def CoMain.resume (s : CoMain R J) : Option (CoMain R J) :=
  match s.await with
  | .adapt ropt op =>
    match s.phase op with
    | some (.done .success) =>
      let task : Task R := ⟨ropt, op, true⟩
      some { s with tasks := s.tasks ++ [task] }.next
    | some (.done ec) =>
      -- the exception is kept unless it is one of the task group
      let ep := if ec = .cancelled ∨ ec = .closed then s.ep else some .systemError
      some { s with dropped := op :: s.dropped, ep }.leave
    | _ => none
  | .join op =>
    match s.phase op with
    | some (.done .success) =>
      some { s with saved := if s.oc.cookiejar then some s.jar else none, await := .returned }
    | _ => none
  | .returned => none

/-- A task ends and its completion handler runs. Reference: `main.cpp:820-828`. -/
def CoMain.endTask (s : CoMain R J) (t : Nat) (ending : RetryEnding) : Option (CoMain R J) :=
  match s.tasks[t]? with
  | some task =>
    if task.running then
      let s := { s with tasks := s.tasks.set t { task with running := false } }
      if ending ≠ .returned ∧ s.oc.failearly then
        some { s with group := (s.group.step .close).step .emit }
      else some s
    else none
  | none => none

/-- The completion handler made by an operation has run, or was never used. -/
def CoMain.released (s : CoMain R J) (op : Nat) : Bool :=
  s.dropped.contains op || s.tasks.any fun t => t.op == op && !t.running

/-- What can happen next. -/
inductive CoMainEvent (J : Type) where
  | resume
  | endTask (t : Nat) (ending : RetryEnding)
  | store (t : Nat) (f : J → J)
  | handler (i : Nat)
  | moveRemover (k : Nat)
  | destroyRemover (k : Nat)
  | interrupt

/-- The next state, or nothing if the event cannot happen. -/
def CoMain.step (s : CoMain R J) : CoMainEvent J → Option (CoMain R J)
  | .resume => s.resume
  | .endTask t ending => s.endTask t ending
  | .store t f =>
    if s.tasks[t]?.any (·.running) then some { s with jar := f s.jar } else none
  | .handler i =>
    match s.phase i with
    | some (.queued _) => some { s with group := s.group.step (.run i) }
    | _ => none
  | .moveRemover k =>
    match s.group.removers[k]?, s.await with
    | none, _ | _, .returned => none
    | some _, _ => some { s with group := s.group.step (.moveRemover k) }
  | .destroyRemover k =>
    match s.group.removers[k]? with
    | some r =>
      if !r.tg || s.released r.entry.op then
        some { s with group := s.group.step (.destroyRemover k) }
      else none
    | none => none
  | .interrupt =>
    match s.await with
    | .adapt _ op | .join op =>
      some { s with cancelled := true, group := s.group.step (.cancel op) }
    | .returned => none

end

end Beast2.Burl
