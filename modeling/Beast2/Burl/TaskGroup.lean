import Mathlib.Data.List.Basic

/-!
# The task group

`basic_task_group` limits how many tasks run at once. `async_adapt` waits for a free slot and hands
its caller the task's completion token with a `remover` consigned to it; when the completion handler
made of the token is destroyed, so is the remover, which frees the slot. `async_join` waits until
there is no slot. Both are handlers that run again whenever `cv_` wakes them: a timer that never
expires, on which `cancel()` queues a completion for every wait that is pending.

The handlers run one at a time, so a state between two of them is a `Group`, and what can happen
next is an `Action`: a call of one of the member functions, a queued handler that runs, a
cancellation of one operation, or a remover that is moved or destroyed by whoever owns it. An action
that is not possible in a state leaves it as it is. `made` and `erased` record the entries of `css_`
that were ever emplaced and erased. `runAdapt_cases` and `runJoin_cases` say all that a run of a
handler can do; the invariants are derived from them.
-/

namespace Beast2.Burl.TaskGroup

/-- The error codes of an operation: `operation_aborted` is what a cancelled wait completes with,
the last two are `task_group_errc`. Reference: `task_group.hpp:24`. -/
inductive Ec where
  | success
  | operationAborted
  | cancelled
  | closed
deriving DecidableEq, Repr

/-- The two composed operations. -/
inductive Kind where
  | adapt
  | join
deriving DecidableEq, Repr

/-- Where an operation is between two runs of its handler: queued to run with an error code, by
`async_immediate` or by a wait that completed; waiting on `cv_`; or completed. -/
inductive Phase where
  | queued (ec : Ec)
  | parked
  | done (ec : Ec)
deriving DecidableEq, Repr

/-- An operation: the captured `scheduled`, and whether its cancellation state is set. Reference:
`task_group.hpp:180, 218`. -/
structure Op where
  kind : Kind
  scheduled : Bool
  cancelled : Bool
  phase : Phase
deriving DecidableEq, Repr

/-- A node of `css_`, with the operation whose `adaptor` emplaced it. -/
structure Entry where
  node : Nat
  op : Nat
deriving DecidableEq, Repr

/-- A `remover` object: whether its `tg_` is set, and the entry of its `cs_` with the operation that
made it. Reference: `task_group.hpp:142`. -/
structure Remover where
  tg : Bool
  entry : Entry
deriving DecidableEq, Repr

/-- `basic_task_group` with the operations started on it and the removers that exist. Reference:
`task_group.hpp:31`. -/
structure Group where
  max : Nat
  css : List Entry
  ops : List Op
  removers : List Remover
  signalled : List Nat
  made : List Entry
  erased : List Entry
deriving DecidableEq, Repr

/-- The constructor. Reference: `task_group.hpp:113`. -/
def Group.init (max : Nat) : Group := ⟨max, [], [], [], [], [], []⟩

/-- An operation whose wait completes, if it has one pending. -/
def Op.wake (op : Op) : Op :=
  if op.phase = .parked then { op with phase := .queued .operationAborted } else op

/-- `cv_.cancel()`. -/
def Group.cvCancel (g : Group) : Group := { g with ops := g.ops.map Op.wake }

/-- `close`. Reference: `task_group.hpp:121`. -/
def Group.close (g : Group) : Group := { g with max := 0 }.cvCancel

/-- `emit`: the signal of every entry reaches the task that has its slot. Reference:
`task_group.hpp:129`. -/
def Group.emit (g : Group) : Group := { g with signalled := g.signalled ++ g.css.map (·.node) }

/-- The operation of an index replaced. -/
def Group.setOp (g : Group) (i : Nat) (op : Op) : Group := { g with ops := g.ops.set i op }

/-- `adaptor`: a new entry at the end of `css_`, and a remover for it. Reference:
`task_group.hpp:170`. -/
def Group.adaptor (g : Group) (i : Nat) : Group :=
  let cs : Entry := ⟨g.made.length, i⟩
  { g with
    css := g.css ++ [cs]
    removers := g.removers ++ [⟨true, cs⟩]
    made := g.made ++ [cs] }

/-- `reset_cancellation_state` at the first run of a handler. Reference:
`task_group.hpp:183, 220`. -/
def Op.reset (op : Op) : Op := if op.scheduled then op else { op with cancelled := false }

/-- The error code that a run of the handler of `async_adapt` goes on with. Reference:
`task_group.hpp:187-194`. -/
def adaptEc (max : Nat) (cancelled : Bool) (ec : Ec) : Ec :=
  let ec := if ec = .operationAborted then .success else ec
  let ec := if cancelled then .cancelled else ec
  if max = 0 then .closed else ec

/-- The handler of `async_adapt`. Reference: `task_group.hpp:180-207`. -/
def Group.runAdapt (g : Group) (i : Nat) (op : Op) (ec : Ec) : Group :=
  let op := op.reset
  let ec := adaptEc g.max op.cancelled ec
  if g.max ≤ g.css.length ∧ ec = .success then
    g.setOp i { op with scheduled := true, phase := .parked }
  else if !op.scheduled then
    g.setOp i { op with scheduled := true, phase := .queued .success }
  else (g.adaptor i).setOp i { op with phase := .done ec }

/-- The handler of `async_join`. Reference: `task_group.hpp:218-241`. -/
def Group.runJoin (g : Group) (i : Nat) (op : Op) : Group :=
  let op := op.reset
  let g := if op.cancelled then g.emit else g
  let op := { op with cancelled := false }
  if !g.css.isEmpty then g.setOp i { op with scheduled := true, phase := .parked }
  else if !op.scheduled then
    g.setOp i { op with scheduled := true, phase := .queued .success }
  else g.setOp i { op with phase := .done .success }

/-- The destructor of a remover. Reference: `task_group.hpp:160`. -/
def Group.destroy (g : Group) (r : Remover) : Group :=
  if r.tg then
    { g with
      css := g.css.filter fun e => e.node ≠ r.entry.node
      erased := g.erased ++ [r.entry] }.cvCancel
  else g

/-- What can happen next. -/
inductive Action where
  | asyncAdapt
  | asyncJoin
  | run (i : Nat)
  | cancel (i : Nat)
  | moveRemover (k : Nat)
  | destroyRemover (k : Nat)
  | close
  | emit
deriving DecidableEq, Repr

/-- An operation that is started, and whose handler is about to run for the first time. -/
def Group.start (g : Group) (kind : Kind) : Group :=
  { g with ops := g.ops ++ [⟨kind, false, false, .queued .success⟩] }

/-- The handler of the operation of an index runs, if it is queued. -/
def Group.runOp (g : Group) (i : Nat) : Group :=
  match g.ops[i]? with
  | some ⟨.adapt, scheduled, cancelled, .queued ec⟩ =>
    g.runAdapt i ⟨.adapt, scheduled, cancelled, .queued ec⟩ ec
  | some ⟨.join, scheduled, cancelled, .queued ec⟩ =>
    g.runJoin i ⟨.join, scheduled, cancelled, .queued ec⟩
  | _ => g

/-- The next state. The initiating functions run the handler at once; a moved remover leaves its
`tg_` null (`task_group.hpp:154`). -/
def Group.step (g : Group) : Action → Group
  | .asyncAdapt => (g.start .adapt).runOp g.ops.length
  | .asyncJoin => (g.start .join).runOp g.ops.length
  | .run i => g.runOp i
  | .cancel i =>
    match g.ops[i]? with
    | some op =>
      match op.phase with
      | .done _ => g
      | _ => g.setOp i { op with cancelled := true }.wake
    | none => g
  | .moveRemover k =>
    match g.removers[k]? with
    | some r => { g with removers := g.removers.set k { r with tg := false } ++ [r] }
    | none => g
  | .destroyRemover k =>
    match g.removers[k]? with
    | some r => { g with removers := g.removers.eraseIdx k }.destroy r
    | none => g
  | .close => g.close
  | .emit => g.emit

/-- A sequence of actions. -/
def Group.run (g : Group) (actions : List Action) : Group := actions.foldl Group.step g

/-! ## Admitted tasks -/

/-- The operation of an index is of a kind and completed without an error. -/
def Group.completed (g : Group) (kind : Kind) (i : Nat) : Bool :=
  g.ops[i]?.any fun op => op.kind = kind && op.phase = .done .success

/-- The `async_adapt` of an index completed without an error. -/
def Group.admitted (g : Group) (i : Nat) : Bool := g.completed .adapt i

/-- The `async_join` of an index completed. -/
def Group.joined (g : Group) (i : Nat) : Bool := g.completed .join i

/-- The completion handler of the task of an operation exists: somebody owns a remover of it. -/
def Group.alive (g : Group) (i : Nat) : Bool :=
  g.removers.any fun r => r.tg && r.entry.op == i

/-- The admitted tasks whose completion handlers exist. -/
def Group.admittedAlive (g : Group) : List Nat :=
  (List.range g.ops.length).filter fun i => g.admitted i && g.alive i

/-! ## What the handlers do -/

@[simp] theorem Op.kind_reset (op : Op) : op.reset.kind = op.kind := by
  unfold Op.reset
  split <;> rfl

/-- Only an open group has no error. -/
theorem pos_of_adaptEc {max : Nat} {cancelled : Bool} {ec : Ec}
    (h : adaptEc max cancelled ec = .success) : 0 < max := by
  by_contra hmax
  simp [adaptEc, Nat.eq_zero_of_not_pos hmax] at h

/-- A run of the handler of `async_adapt` parks it on a full group, queues it, or completes it; it
completes without an error only if the group is not full. -/
theorem runAdapt_cases (g : Group) (i : Nat) (op : Op) (ec : Ec) :
    (∃ op', g.runAdapt i op ec = g.setOp i op' ∧ op'.kind = op.kind ∧ op'.phase = .parked ∧
      0 < g.max ∧ g.max ≤ g.css.length) ∨
    (∃ op', g.runAdapt i op ec = g.setOp i op' ∧ op'.kind = op.kind ∧
      op'.phase = .queued .success) ∨
    (∃ op' ec', g.runAdapt i op ec = (g.adaptor i).setOp i op' ∧ op'.kind = op.kind ∧
      op'.phase = .done ec' ∧ (ec' = .success → g.css.length < g.max)) := by
  simp only [Group.runAdapt]
  split
  · next hfull =>
    exact .inl ⟨_, rfl, op.kind_reset, rfl, pos_of_adaptEc hfull.2, hfull.1⟩
  · next hfull =>
    split
    · exact .inr (.inl ⟨_, rfl, op.kind_reset, rfl⟩)
    · refine .inr (.inr ⟨_, _, rfl, op.kind_reset, rfl, ?_⟩)
      intro hec
      by_contra hlt
      exact hfull ⟨Nat.le_of_not_lt hlt, hec⟩

/-- A run of the handler of `async_join` parks it on a group that is not empty, queues it, or
completes it on an empty one, after a signal to the tasks perhaps. -/
theorem runJoin_cases (g : Group) (i : Nat) (op : Op) :
    ∃ g' op', (g' = g ∨ g' = g.emit) ∧ g.runJoin i op = g'.setOp i op' ∧ op'.kind = op.kind ∧
      (op'.phase = .parked ∧ g.css ≠ [] ∨ op'.phase = .queued .success ∨
        op'.phase = .done .success ∧ g.css = []) := by
  have hg : ∃ g', (g' = g ∨ g' = g.emit) ∧ (if op.reset.cancelled then g.emit else g) = g' ∧
      g'.css = g.css := by
    split
    · exact ⟨_, .inr rfl, rfl, rfl⟩
    · exact ⟨_, .inl rfl, rfl, rfl⟩
  obtain ⟨g', hg', heq, hcss⟩ := hg
  simp only [Group.runJoin, heq, hcss]
  split
  · next hne => exact ⟨g', _, hg', rfl, op.kind_reset, .inl ⟨rfl, by simpa using hne⟩⟩
  · next hempty =>
    split
    · exact ⟨g', _, hg', rfl, op.kind_reset, .inr (.inl rfl)⟩
    · exact ⟨g', _, hg', rfl, op.kind_reset, .inr (.inr ⟨rfl, by simpa using hempty⟩)⟩

/-- A run of the handler of an index: the operation is queued, or nothing happens. -/
theorem runOp_cases (g : Group) (i : Nat) :
    g.runOp i = g ∨ ∃ op ec, g.ops[i]? = some op ∧ op.phase = .queued ec ∧
      (op.kind = .adapt ∧ g.runOp i = g.runAdapt i op ec ∨
        op.kind = .join ∧ g.runOp i = g.runJoin i op) := by
  unfold Group.runOp
  split
  · next h => exact .inr ⟨_, _, h, rfl, .inl ⟨rfl, rfl⟩⟩
  · next h => exact .inr ⟨_, _, h, rfl, .inr ⟨rfl, rfl⟩⟩
  · exact .inl rfl

/-- A rule for all sequences of actions: what every action keeps. -/
theorem run_inv {P : Group → Prop} (hstep : ∀ g a, P g → P (g.step a)) {g : Group} (h : P g)
    (actions : List Action) : P (g.run actions) := by
  induction actions generalizing g with
  | nil => exact h
  | cons a actions ih => exact ih (hstep g a h)

end Beast2.Burl.TaskGroup
