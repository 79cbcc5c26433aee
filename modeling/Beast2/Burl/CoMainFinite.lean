import Mathlib.Algebra.BigOperators.Ring.List
import Mathlib.Algebra.Order.BigOperators.Group.Finset
import Mathlib.Tactic.Ring
import Beast2.Burl.CoMainEnds

/-!
# `co_main` comes to an end

Everything that `co_main`, the tasks and the group do uses up something: requests that are left, the
operation that is waited for, completion handlers, or tasks that run (`CoMain.weight`). Only a
cookie that a task stores, a remover that is moved and an interruption use up nothing. No request
has more than one completion handler (`CoMain.Started`), so if Asio moves each of them a limited
number of times, the number of events is bounded by the number of requests and of what comes from
outside (`events_bounded`).
-/

namespace Beast2.Burl

open TaskGroup Machine

/-- What an operation that is waited for can do still. -/
def TaskGroup.Op.weight (op : Op) : Nat :=
  (match op.phase with
    | .queued _ => 4
    | .parked => 3
    | .done _ => 1) + if op.scheduled then 0 else 1

/-- What the removers can do still. -/
def TaskGroup.Group.removersWeight (g : Group) : Nat :=
  (g.removers.map fun r => if r.tg then 2 else 1).sum

/-- The weight of an operation of a group. -/
def TaskGroup.Group.opWeight (g : Group) (i : Nat) : Nat := (g.ops[i]?.map Op.weight).getD 0

section
variable {g : Group} {i : Nat} {op op' : Op}

theorem opWeight_of_get (hop : g.ops[i]? = some op) : g.opWeight i = op.weight := by
  rw [Group.opWeight, hop, Option.map_some, Option.getD_some]

theorem opWeight_setOp (hop : g.ops[i]? = some op) : (g.setOp i op').opWeight i = op'.weight :=
  opWeight_of_get (List.getElem?_set_self (List.getElem?_eq_some_iff.1 hop).1)

/-- An operation set in a group whose removers weigh little more than before. -/
theorem weight_setOp_lt {g₀ : Group} (hop : g.ops[i]? = some op)
    (hw : op'.weight + g.removersWeight < g₀.opWeight i + g₀.removersWeight) :
    (g.setOp i op').opWeight i + (g.setOp i op').removersWeight <
      g₀.opWeight i + g₀.removersWeight := by
  rw [opWeight_setOp hop]
  exact hw

theorem scheduled_reset (op : Op) : op.reset.scheduled = op.scheduled := by
  unfold Op.reset
  split <;> rfl

theorem removersWeight_adaptor (g : Group) (i : Nat) :
    (g.adaptor i).removersWeight = g.removersWeight + 2 := by
  simp [Group.removersWeight, Group.adaptor]

/-- A handler that is queued uses up something when it runs. -/
theorem weight_runOp {ec : Ec} (hop : g.ops[i]? = some op) (hq : op.phase = .queued ec) :
    (g.runOp i).opWeight i + (g.runOp i).removersWeight < g.opWeight i + g.removersWeight := by
  have hweight : g.opWeight i = 4 + if op.scheduled then 0 else 1 := by
    rw [opWeight_of_get hop, Op.weight, hq]
  have hreset := scheduled_reset op
  obtain ⟨kind, scheduled, cancelled, phase⟩ := op
  cases hq
  cases kind with
  | adapt =>
    simp only [Group.runOp, hop, Group.runAdapt]
    split
    · refine weight_setOp_lt hop ?_
      simp only [Op.weight, hweight, if_true]
      omega
    · split
      · next hscheduled =>
        refine weight_setOp_lt hop ?_
        simp only [hreset, Bool.not_eq_true'] at hscheduled
        simp [Op.weight, hweight, hscheduled]
      · next hscheduled =>
        refine weight_setOp_lt (g := g.adaptor i) hop ?_
        simp only [hreset, Bool.not_eq_true', Bool.not_eq_false] at hscheduled
        subst hscheduled
        simp only [Op.weight, hweight, hreset, removersWeight_adaptor, if_true]
        omega
  | join =>
    simp only [Group.runOp, hop, Group.runJoin]
    have hemit : ∃ g',
        (if (Op.reset ⟨.join, scheduled, cancelled, .queued ec⟩).cancelled then g.emit else g) =
          g' ∧ g'.ops[i]? = g.ops[i]? ∧ g'.removersWeight = g.removersWeight ∧
          g'.css = g.css := by
      split
      · exact ⟨_, rfl, rfl, rfl, rfl⟩
      · exact ⟨_, rfl, rfl, rfl, rfl⟩
    obtain ⟨g', heq, hops, hremovers, hcss⟩ := hemit
    rw [heq]
    rw [← hops] at hop
    split
    · refine weight_setOp_lt hop ?_
      simp only [Op.weight, hweight, hremovers, if_true]
      omega
    · split
      · next hscheduled =>
        refine weight_setOp_lt hop ?_
        simp only [hreset, Bool.not_eq_true'] at hscheduled
        simp [Op.weight, hweight, hscheduled, hremovers]
      · refine weight_setOp_lt hop ?_
        simp only [Op.weight, hweight, hreset, hremovers]
        omega

/-- An operation that is started and whose handler has run. -/
theorem weight_start (g : Group) (kind : Kind) :
    ((g.start kind).runOp g.ops.length).opWeight g.ops.length +
      ((g.start kind).runOp g.ops.length).removersWeight ≤ 4 + g.removersWeight := by
  have hop : (g.start kind).ops[g.ops.length]? = some ⟨kind, false, false, .queued .success⟩ := by
    simp [Group.start]
  have hlt := weight_runOp hop rfl
  rw [opWeight_of_get hop] at hlt
  exact Nat.le_of_lt_succ (Nat.lt_of_lt_of_le hlt (Nat.le_of_eq (Nat.add_right_comm 4 1 _)))

/-- A wake-up adds no more than one. -/
theorem opWeight_cvCancel (g : Group) (i : Nat) : g.cvCancel.opWeight i ≤ g.opWeight i + 1 := by
  rw [Group.opWeight, Group.cvCancel, List.getElem?_map, Group.opWeight]
  cases g.ops[i]? with
  | none => exact Nat.zero_le _
  | some op =>
    show op.wake.weight ≤ op.weight + 1
    unfold Op.wake
    split
    · next hp =>
      simp only [Op.weight, hp]
      omega
    · exact Nat.le_succ _

/-- A completion handler that is destroyed uses up something. -/
theorem weight_destroyRemover {k : Nat} {r : Remover} (hr : g.removers[k]? = some r) (i : Nat) :
    (g.step (.destroyRemover k)).opWeight i + (g.step (.destroyRemover k)).removersWeight <
      g.opWeight i + g.removersWeight := by
  obtain ⟨hk, hget⟩ := List.getElem?_eq_some_iff.1 hr
  have hsum : g.removersWeight = (if r.tg then 2 else 1) +
      ((g.removers.eraseIdx k).map fun r => if r.tg then 2 else 1).sum := by
    have hperm := (List.getElem_cons_eraseIdx_perm hk).map fun r : Remover => if r.tg then 2 else 1
    rw [Group.removersWeight, ← hperm.sum_eq, hget]
    rfl
  simp only [Group.step, hr, Group.destroy]
  cases htg : r.tg with
  | true =>
    simp only [if_true]
    rw [htg, if_pos rfl] at hsum
    refine Nat.lt_of_le_of_lt (Nat.add_le_add_right (opWeight_cvCancel _ i) _) ?_
    show g.opWeight i + 1 + ((g.removers.eraseIdx k).map fun r => if r.tg then 2 else 1).sum < _
    omega
  | false =>
    simp only [Bool.false_eq_true, if_false]
    rw [htg, if_neg Bool.false_ne_true] at hsum
    show g.opWeight i + ((g.removers.eraseIdx k).map fun r => if r.tg then 2 else 1).sum < _
    omega

/-- A remover that is moved adds one. -/
theorem weight_moveRemover (k i : Nat) :
    (g.step (.moveRemover k)).opWeight i + (g.step (.moveRemover k)).removersWeight ≤
      g.opWeight i + g.removersWeight + 1 := by
  simp only [Group.step]
  split
  · next r hr =>
    obtain ⟨hk, hget⟩ := List.getElem?_eq_some_iff.1 hr
    have hset := (List.set_perm_cons_eraseIdx hk ({ r with tg := false } : Remover)).map
      fun r : Remover => if r.tg then 2 else 1
    have hperm := (List.getElem_cons_eraseIdx_perm hk).map fun r : Remover => if r.tg then 2 else 1
    have h₁ := hset.sum_eq
    have h₂ := hperm.sum_eq
    show g.opWeight i + ((g.removers.set k { r with tg := false } ++ [r]).map
      fun r => if r.tg then 2 else 1).sum ≤ _
    rw [Group.removersWeight, ← h₂, List.map_append, List.sum_append, h₁, hget]
    simp only [List.map_cons, List.map_nil, List.sum_cons, List.sum_nil, Bool.false_eq_true,
      if_false]
    omega
  · exact Nat.le_succ _

/-- A cancellation adds no more than one. -/
theorem weight_cancel (j i : Nat) :
    (g.step (.cancel j)).opWeight i + (g.step (.cancel j)).removersWeight ≤
      g.opWeight i + g.removersWeight + 1 := by
  simp only [Group.step]
  split
  · next op hop =>
    split
    · exact Nat.le_succ _
    · show (g.setOp j _).opWeight i + g.removersWeight ≤ _
      by_cases hij : j = i
      · subst hij
        rw [opWeight_setOp hop, opWeight_of_get hop]
        unfold Op.wake
        split
        · next hp =>
          dsimp only at hp
          simp only [Op.weight, hp]
          omega
        · simp only [Op.weight]
          omega
      · rw [Group.opWeight, Group.setOp, List.getElem?_set_ne hij]
        exact Nat.le_succ _
  · exact Nat.le_succ _

end

/-! ## The weight of `co_main` -/

/-- The operation that `co_main` waits for. -/
def Await.op {R : Type} : Await R → Option Nat
  | .adapt _ op | .join op => some op
  | .returned => none

section
variable {R J : Type} {s s' : CoMain R J}

/-- What `co_main` has still to wait for. -/
def CoMain.awaitWeight (s : CoMain R J) : Nat :=
  match s.await with
  | .adapt _ op => 6 + s.group.opWeight op
  | .join op => s.group.opWeight op
  | .returned => 0

/-- What can still happen. -/
def CoMain.weight (s : CoMain R J) : Nat :=
  6 * s.gen.length + s.awaitWeight + s.group.removersWeight +
    2 * (s.tasks.filter (·.running)).length

/-- Every operation but the one that `co_main` waits for is done. -/
def CoMain.Settled (s : CoMain R J) : Prop :=
  ∀ (i : Nat) (op : Op), s.group.ops[i]? = some op → (∀ ec, op.phase ≠ .done ec) →
    s.await.op = some i

/-- An action that starts nothing leaves every operation done that was done. -/
theorem CoMain.Settled.group (h : s.Settled) (hok : s.Ok) {a : Action} (hstarts : a.starts = [])
    (hdestroy : ∀ k r, a = .destroyRemover k → s.group.removers[k]? = some r → r.tg = true →
      s.released r.entry.op = true) (i : Nat) (op : Op)
    (hop : (s.group.step a).ops[i]? = some op) (hne : ∀ ec, op.phase ≠ .done ec) :
    s.await.op = some i := by
  have hlen : (s.group.step a).ops.length = s.group.ops.length := by
    rw [← length_kinds, ← length_kinds, kinds_step, hstarts, List.append_nil]
  have hi : i < s.group.ops.length := hlen ▸ (List.getElem?_eq_some_iff.1 hop).1
  refine h i s.group.ops[i] (List.getElem?_eq_getElem hi) fun ec hec => ?_
  have hkeep := (hok.core.group hdestroy).done i _ ec (List.getElem?_eq_getElem hi) hec
  cases hkeep.symm.trans hop
  exact hne ec hec

/-- When `co_main` goes on from an operation that is done, every operation is. -/
theorem CoMain.Settled.done (h : s.Settled) {op : Nat} {ec : Ec} (hawait : s.await.op = some op)
    (hphase : s.phase op = some (.done ec)) (i : Nat) (op' : Op)
    (hop : s.group.ops[i]? = some op') : ∃ ec, op'.phase = .done ec := by
  by_contra hne
  have hi := h i op' hop fun ec hec => hne ⟨ec, hec⟩
  cases hawait.symm.trans hi
  rw [CoMain.phase, hop] at hphase
  exact hne ⟨ec, Option.some.inj hphase⟩

/-- A group all of whose operations are done, after one more was started. -/
theorem settled_start {g : Group} {kind : Kind}
    (h : ∀ (i : Nat) (op : Op), g.ops[i]? = some op → ∃ ec, op.phase = .done ec) (i : Nat) (op : Op)
    (hop : ((g.start kind).runOp g.ops.length).ops[i]? = some op)
    (hne : ∀ ec, op.phase ≠ .done ec) : i = g.ops.length := by
  have hlen : ((g.start kind).runOp g.ops.length).ops.length = g.ops.length + 1 := by
    rw [← length_kinds, kinds_runOp, kinds_start, List.length_append, length_kinds]
    rfl
  have hi := (List.getElem?_eq_some_iff.1 hop).1
  rw [hlen] at hi
  by_contra hij
  have hlt : i < g.ops.length := by omega
  obtain ⟨ec, hec⟩ := h i g.ops[i] (List.getElem?_eq_getElem hlt)
  have hget : (g.start kind).ops[i]? = some g.ops[i] := by
    rw [Group.start, List.getElem?_append_left hlt, List.getElem?_eq_getElem hlt]
  -- the run of the handler of another operation leaves this one as it is
  have hkeep : Retained (fun _ => True) (g.start kind) ((g.start kind).runOp g.ops.length) :=
    (keptByActions_retained _ _).toKeptByRuns.runOp
      ⟨fun _ _ _ hop _ => hop, fun _ _ _ _ _ _ hR => absurd trivial hR⟩ _
  cases (hkeep.done i _ ec hget hec).symm.trans hop
  exact hne ec hec

/-- `co_main` waits for its tasks with no more than the weight of one operation. -/
theorem CoMain.weight_leave (h : ∀ (i : Nat) (op : Op), s.group.ops[i]? = some op →
    ∃ ec, op.phase = .done ec) : s.leave.Settled ∧
      s.leave.weight ≤ 6 * s.gen.length + 4 + s.group.removersWeight +
        2 * (s.tasks.filter (·.running)).length := by
  have hemit : ∃ s', (if s.cancelled then
      { s with group := s.group.step .emit, cancelled := false } else s) = s' ∧
      s'.group.ops = s.group.ops ∧ s'.group.removersWeight = s.group.removersWeight ∧
      s'.gen = s.gen ∧ s'.tasks = s.tasks := by
    split
    · exact ⟨_, rfl, rfl, rfl, rfl, rfl⟩
    · exact ⟨_, rfl, rfl, rfl, rfl, rfl⟩
  obtain ⟨s', heq, hops, hremovers, hgen, htasks⟩ := hemit
  unfold CoMain.leave
  rw [heq]
  rw [← hops] at h
  refine ⟨fun i op hop hne => ?_, ?_⟩
  · exact congrArg some (settled_start h i op hop hne).symm
  · have hstart := weight_start s'.group .join
    simp only [CoMain.weight, CoMain.awaitWeight]
    rw [hgen, htasks]
    rw [hremovers] at hstart
    show _ + ((s'.group.start .join).runOp s'.group.ops.length).opWeight s'.group.ops.length +
      ((s'.group.start .join).runOp s'.group.ops.length).removersWeight + _ ≤ _
    omega

/-- At the head of the loop `co_main` takes what it waits for from the requests. -/
theorem CoMain.weight_next (h : ∀ (i : Nat) (op : Op), s.group.ops[i]? = some op →
    ∃ ec, op.phase = .done ec) : s.next.Settled ∧
      s.next.weight ≤ 6 * s.gen.length + 4 + s.group.removersWeight +
        2 * (s.tasks.filter (·.running)).length := by
  unfold CoMain.next
  split
  · exact CoMain.weight_leave h
  · next gen hgen =>
    have hleave := CoMain.weight_leave (s := { s with gen, ep := some .generator }) h
    refine ⟨hleave.1, Nat.le_trans hleave.2 ?_⟩
    simp only [hgen, List.length_cons]
    omega
  · next ropt gen hgen =>
    split
    · have hleave := CoMain.weight_leave (s := { s with gen, ep := some .systemError }) h
      refine ⟨hleave.1, Nat.le_trans hleave.2 ?_⟩
      simp only [hgen, List.length_cons]
      omega
    · refine ⟨fun i op hop hne => ?_, ?_⟩
      · exact congrArg some (settled_start h i op hop hne).symm
      · have hstart := weight_start s.group .adapt
        simp only [CoMain.weight, CoMain.awaitWeight, hgen, List.length_cons]
        show _ + (6 + ((s.group.start .adapt).runOp s.group.ops.length).opWeight
          s.group.ops.length) + ((s.group.start .adapt).runOp s.group.ops.length).removersWeight +
          _ ≤ _
        omega

/-- The events that use up nothing, by what they add and the event itself. -/
def CoMainEvent.adds : CoMainEvent J → Nat
  | .store _ _ => 1
  | .moveRemover _ => 2
  | .interrupt => 2
  | _ => 0

/-- The weight after an action, from the weight of the operation that is waited for and of the
removers. -/
theorem CoMain.weight_group {g : Group} {c d : Nat} (cancelled : Bool)
    (h : ∀ i, (∀ j, s.await.op = some j → j = i) → g.opWeight i + g.removersWeight + d ≤
      s.group.opWeight i + s.group.removersWeight + c) :
    CoMain.weight { s with group := g, cancelled } + d ≤ s.weight + c := by
  simp only [CoMain.weight, CoMain.awaitWeight]
  cases hawait : s.await with
  | adapt ropt op =>
    have hop := h op fun j hj => by
      rw [hawait] at hj
      exact (Option.some.inj hj).symm
    dsimp only
    omega
  | join op =>
    have hop := h op fun j hj => by
      rw [hawait] at hj
      exact (Option.some.inj hj).symm
    dsimp only
    omega
  | returned =>
    have hop := h s.group.ops.length fun j hj => by
      rw [hawait] at hj
      cases hj
    have hzero : s.group.opWeight s.group.ops.length = 0 := by simp [Group.opWeight]
    dsimp only
    omega

theorem CoMain.weight_resume (h : s.Settled) (hs : s.resume = some s') :
    s'.Settled ∧ 1 + s'.weight ≤ s.weight := by
  have hpos {op : Nat} {phase : Phase} (hphase : s.phase op = some phase) :
      0 < s.group.opWeight op := by
    obtain ⟨op', hop, -⟩ := Option.map_eq_some_iff.1 hphase
    rw [opWeight_of_get hop, Op.weight]
    split
    all_goals omega
  rcases CoMain.resume_cases hs with ⟨ropt, op, hawait, hphase, rfl⟩ |
    ⟨ropt, op, ec, ep, hawait, hphase, -, rfl⟩ | ⟨op, hawait, hphase, rfl⟩
  · obtain ⟨hsettled, hle⟩ := CoMain.weight_next
      (s := { s with tasks := s.tasks ++ [⟨ropt, op, true⟩] }) (h.done (by rw [hawait]; rfl) hphase)
    refine ⟨hsettled, ?_⟩
    have hop := hpos hphase
    simp only [List.filter_append, List.filter_cons, List.filter_nil, if_true, List.length_append,
      List.length_singleton] at hle
    simp only [CoMain.weight, CoMain.awaitWeight, hawait] at hle ⊢
    omega
  · obtain ⟨hsettled, hle⟩ := CoMain.weight_leave
      (s := { s with dropped := op :: s.dropped, ep }) (h.done (by rw [hawait]; rfl) hphase)
    refine ⟨hsettled, ?_⟩
    have hop := hpos hphase
    simp only [CoMain.weight, CoMain.awaitWeight, hawait] at hle ⊢
    omega
  · refine ⟨fun i op' hop hne => ?_, ?_⟩
    · obtain ⟨ec, hec⟩ := h.done (by rw [hawait]; rfl) hphase i op' hop
      exact absurd hec (hne ec)
    · have hop := hpos hphase
      simp only [CoMain.weight, CoMain.awaitWeight, hawait]
      omega

/-- One task less runs. -/
theorem length_running_set {tasks : List (Task R)} {t : Nat} {task : Task R}
    (htask : tasks[t]? = some task) (hrun : task.running = true) :
    ((tasks.set t { task with running := false }).filter (·.running)).length + 1 =
      (tasks.filter (·.running)).length := by
  obtain ⟨ht, hget⟩ := List.getElem?_eq_some_iff.1 htask
  have hset := (List.set_perm_cons_eraseIdx ht ({ task with running := false } : Task R)).filter
    (·.running)
  have hold := (List.getElem_cons_eraseIdx_perm ht).filter (·.running)
  rw [List.filter_cons_of_neg (by simp)] at hset
  rw [hget, List.filter_cons_of_pos hrun] at hold
  rw [hset.length_eq, ← hold.length_eq, List.length_cons]

theorem CoMain.weight_endTask (hok : s.Ok) (h : s.Settled) {t : Nat} {ending : RetryEnding}
    (hs : s.endTask t ending = some s') : s'.Settled ∧ 1 + s'.weight ≤ s.weight := by
  unfold CoMain.endTask at hs
  split at hs
  · next task htask =>
    split at hs
    · next hrun =>
      have hlen := length_running_set htask hrun
      dsimp only at hs
      split at hs
      · cases hs
        refine ⟨fun i op hop hne => ?_, ?_⟩
        · exact h.group hok (a := .close) rfl (fun k r hk => by cases hk) i op hop hne
        · generalize s.tasks.set t { task with running := false } = tasks at hlen ⊢
          have hle := CoMain.weight_group (s := { s with tasks }) (c := 1) (d := 0)
            (g := (s.group.step .close).step .emit) s.cancelled fun i _ => by
              have hop := opWeight_cvCancel { s.group with max := 0 } i
              show Group.opWeight (Group.cvCancel { s.group with max := 0 }) i +
                s.group.removersWeight + 0 ≤ _
              exact Nat.le_trans (Nat.add_le_add_right hop _)
                (Nat.le_of_eq (Nat.add_right_comm _ _ _))
          refine Nat.le_trans (Nat.add_le_add_left hle 1) ?_
          simp only [CoMain.weight, CoMain.awaitWeight]
          omega
      · cases hs
        refine ⟨h, ?_⟩
        simp only [CoMain.weight, CoMain.awaitWeight]
        omega
    · cases hs
  · cases hs

/-- An event uses up something or adds no more than it is said to. -/
theorem CoMain.weight_step (hok : s.Ok) (h : s.Settled) {e : CoMainEvent J}
    (hs : s.step e = some s') : s'.Settled ∧ 1 + s'.weight ≤ s.weight + e.adds := by
  cases e with
  | resume => exact CoMain.weight_resume h hs
  | endTask t ending => exact CoMain.weight_endTask hok h hs
  | store t f =>
    simp only [CoMain.step] at hs
    split at hs
    · cases hs
      exact ⟨h, Nat.le_of_eq (Nat.add_comm 1 _)⟩
    · cases hs
  | handler i =>
    simp only [CoMain.step] at hs
    split at hs
    · next ec hphase =>
      cases hs
      refine ⟨h.group hok (a := .run i) rfl (fun k r hk => by cases hk), ?_⟩
      obtain ⟨op, hop, hq⟩ := Option.map_eq_some_iff.1 hphase
      have hawait := h i op hop fun ec hec => by cases hq.symm.trans hec
      rw [Nat.add_comm]
      refine CoMain.weight_group (c := 0) s.cancelled fun j hj => ?_
      cases hj i hawait
      exact weight_runOp hop hq
    · cases hs
  | moveRemover k =>
    obtain ⟨-, rfl⟩ := CoMain.moveRemover_cases hs
    refine ⟨h.group hok (a := .moveRemover k) rfl (fun k r hk => by cases hk), ?_⟩
    rw [Nat.add_comm]
    refine CoMain.weight_group s.cancelled fun j _ => ?_
    exact Nat.succ_le_succ (weight_moveRemover k j)
  | destroyRemover k =>
    simp only [CoMain.step] at hs
    split at hs
    · next r hr =>
      split at hs
      · next hrel =>
        cases hs
        refine ⟨h.group hok rfl fun k' r' hk hr' htg => ?_, ?_⟩
        · cases hk
          cases hr.symm.trans hr'
          simpa [htg] using hrel
        · rw [Nat.add_comm]
          exact CoMain.weight_group (c := 0) s.cancelled fun j _ => weight_destroyRemover hr j
      · cases hs
    · cases hs
  | interrupt =>
    have hcancel (op : Nat) : CoMain.Settled
        { s with cancelled := true, group := s.group.step (.cancel op) } ∧
        1 + CoMain.weight { s with cancelled := true, group := s.group.step (.cancel op) } ≤
          s.weight + 2 := by
      refine ⟨h.group hok (a := .cancel op) rfl (fun k r hk => by cases hk), ?_⟩
      rw [Nat.add_comm]
      exact CoMain.weight_group true fun j _ => Nat.succ_le_succ (weight_cancel op j)
    simp only [CoMain.step] at hs
    split at hs
    · cases hs
      exact hcancel _
    · cases hs
      exact hcancel _
    · cases hs

/-! ## Completion handlers -/

/-- Every `async_adapt` was started for a request. -/
def CoMain.Started (gen : List (Yield R)) (s : CoMain R J) : Prop :=
  s.group.kinds.count .adapt + s.gen.length ≤ gen.length

theorem CoMain.kinds_leave (s : CoMain R J) : s.leave.group.kinds = s.group.kinds ++ [.join] := by
  unfold CoMain.leave
  split
  · exact (kinds_step _ .asyncJoin).trans (congrArg (· ++ _) ((kinds_step _ .emit).trans
      (List.append_nil _)))
  · exact kinds_step _ .asyncJoin

theorem CoMain.Started.leave {gen : List (Yield R)} (h : s.Started gen) : s.leave.Started gen := by
  rw [CoMain.Started, CoMain.kinds_leave, List.count_append, CoMain.gen_leave]
  exact h

theorem CoMain.Started.next {gen : List (Yield R)} (h : s.Started gen) : s.next.Started gen := by
  unfold CoMain.next
  split
  · exact h.leave
  · next gen' hgen =>
    rw [CoMain.Started, hgen, List.length_cons] at h
    exact CoMain.Started.leave (s := { s with gen := gen', ep := some .generator })
      (Nat.le_of_succ_le h)
  · next ropt gen' hgen =>
    rw [CoMain.Started, hgen, List.length_cons] at h
    split
    · exact CoMain.Started.leave (s := { s with gen := gen', ep := some .systemError })
        (Nat.le_of_succ_le h)
    · show (s.group.step .asyncAdapt).kinds.count .adapt + gen'.length ≤ gen.length
      have hcount : [Kind.adapt].count .adapt = 1 := rfl
      rw [kinds_step, List.count_append, Action.starts, hcount]
      omega

theorem CoMain.Started.step {gen : List (Yield R)} (h : s.Started gen) {e : CoMainEvent J}
    (hs : s.step e = some s') : s'.Started gen := by
  by_cases hne : e = .resume
  · subst hne
    rcases CoMain.resume_cases hs with ⟨ropt, op, -, -, rfl⟩ | ⟨ropt, op, ec, ep, -, -, -, rfl⟩ |
      ⟨op, -, -, rfl⟩
    · exact CoMain.Started.next (s := { s with tasks := s.tasks ++ [⟨ropt, op, true⟩] }) h
    · exact CoMain.Started.leave (s := { s with dropped := op :: s.dropped, ep }) h
    · exact h
  · have hkinds : s'.group.kinds = s.group.kinds := by
      rcases CoMain.group_cases hs hne with ⟨-, heq⟩ | ⟨a, heq, hstarts, -⟩ |
        ⟨t, ending, -, -, -, heq⟩
      · rw [heq]
      · rw [heq, kinds_step, hstarts, List.append_nil]
      · rw [heq, kinds_step, kinds_step]
        exact (List.append_nil _).trans (List.append_nil _)
    rw [CoMain.Started, hkinds, (CoMain.sameProgram hs hne).gen]
    exact h

/-- The completion handler that an event moves, by the entry of its remover. -/
def CoMain.moves (s : CoMain R J) : CoMainEvent J → List Nat
  | .moveRemover k => (s.group.removers[k]?.map (·.entry.node)).toList
  | _ => []

/-- An event moves a completion handler. -/
def CoMainEvent.moves : CoMainEvent J → Nat
  | .moveRemover _ => 1
  | _ => 0

/-- An event comes from outside; an interruption may wake an operation. -/
def CoMainEvent.outside : CoMainEvent J → Nat
  | .store _ _ => 1
  | .interrupt => 2
  | _ => 0

theorem CoMainEvent.adds_eq (e : CoMainEvent J) : e.adds = e.outside + 2 * e.moves := by
  cases e <;> rfl

theorem CoMain.length_moves {e : CoMainEvent J} (hs : s.step e = some s') :
    (s.moves e).length = e.moves := by
  cases e with
  | moveRemover k =>
    obtain ⟨⟨r, hr⟩, -⟩ := CoMain.moveRemover_cases hs
    rw [CoMain.moves, hr]
    rfl
  | resume | endTask | store | handler | destroyRemover | interrupt => rfl

/-- The completion handlers that a run moves, one for each move. -/
def CoMain.movesAlong : CoMain R J → List (CoMainEvent J) → List Nat :=
  outputs CoMain.step CoMain.moves

/-- The nodes that were emplaced are numbered. -/
theorem node_lt {g : Group} {m : Nat} (h : Slots m g) {e : Entry} (he : e ∈ g.made) :
    e.node < g.made.length := by
  rw [← List.mem_range, ← h.nodes]
  exact List.mem_map_of_mem he

/-- All completion handlers that were moved are of requests. -/
theorem CoMain.movesAlong_lt {oc : CoMainConfig} {gen : List (Yield R)} {jar : J}
    {es : List (CoMainEvent J)} (h : run CoMain.step (.start oc gen jar) es = some s) :
    ∀ node ∈ CoMain.movesAlong (.start oc gen jar) es, node < gen.length := by
  have hstart : Entered (CoMain.start oc gen jar).group ∧
      (CoMain.start oc gen jar).Started gen := by
    refine ⟨CoMain.group_next Entered.step ⟨rfl, ?_⟩, CoMain.Started.next (Nat.le_of_eq ?_)⟩
    · intro r hr
      cases hr
    · exact Nat.zero_add _
  have hrun := run_outputs CoMain.moves []
    (P := fun os s => s.Ok ∧ Entered s.group ∧ s.Started gen ∧
      ∀ node ∈ os, node < s.group.made.length)
    (fun os s₁ e s₂ hP hs => ?_)
    ⟨CoMain.ok_start oc gen jar, hstart.1, hstart.2, fun node hnode => (by cases hnode)⟩ h
  · obtain ⟨-, hentered, hstarted, hlt⟩ := hrun
    intro node hnode
    have hle := Nat.le_trans hentered.le (Nat.le_trans (Nat.le_add_right _ _) hstarted)
    exact Nat.lt_of_lt_of_le (hlt node hnode) hle
  · obtain ⟨hok, hentered, hstarted, hlt⟩ := hP
    refine ⟨hok.step hs, CoMain.group_step Entered.step hentered hs, hstarted.step hs, ?_⟩
    have hmade : s₁.group.made.length ≤ s₂.group.made.length :=
      CoMain.group_step (P := fun g => s₁.group.made.length ≤ g.made.length)
        (fun g a hle => Nat.le_trans hle (length_made_step g a)) (Nat.le_refl _) hs
    intro node hnode
    refine Nat.lt_of_lt_of_le ?_ hmade
    rcases List.mem_append.1 hnode with hnode | hnode
    · exact hlt node hnode
    · cases e with
      | moveRemover k =>
        obtain ⟨r, hr, rfl⟩ := Option.map_eq_some_iff.1 (Option.mem_toList.1 hnode)
        exact node_lt hok.core.slots (hentered.removers r (List.mem_of_getElem? hr))
      | resume | endTask | store | handler | destroyRemover | interrupt => cases hnode

/-- Of so many numbers, each so many times. -/
theorem length_le_mul {l : List Nat} {n m : Nat} (hlt : ∀ i ∈ l, i < n)
    (hcount : ∀ i, l.count i ≤ m) : l.length ≤ n * m := by
  have hsub : l.toFinset ⊆ Finset.range n := fun i hi =>
    Finset.mem_range.2 (hlt i (List.mem_toFinset.1 hi))
  calc l.length = ∑ i ∈ l.toFinset, l.count i := (l.sum_toFinset_count_eq_length).symm
    _ ≤ l.toFinset.card * m := Finset.sum_le_card_nsmul _ _ _ fun i _ => hcount i
    _ ≤ n * m := Nat.mul_le_mul_right m ((Finset.card_le_card hsub).trans_eq (Finset.card_range n))

/-- If every completion handler is moved at most so many times, a run has a limited number of events
for every request, one more for every cookie that a task stores and two more for every interruption.
A run that the executor cannot go on with has returned, once its tasks have ended. -/
theorem events_bounded (oc : CoMainConfig) (gen : List (Yield R)) (jar : J)
    (es : List (CoMainEvent J)) (m : Nat) (h : run CoMain.step (.start oc gen jar) es = some s)
    (hmoves : ∀ node, (CoMain.movesAlong (.start oc gen jar) es).count node ≤ m) :
    es.length ≤ (6 + 2 * m) * gen.length + 4 + (es.map CoMainEvent.outside).sum ∧
      ((∀ t ∈ s.tasks, t.running = false) → (∀ e, e.Internal → s.step e = none) →
        s.await = .returned) := by
  refine ⟨?_, fun hended hnone => ?_⟩
  · have hstart := CoMain.weight_next (s := (⟨oc, .init oc.parallelMax, gen, [], [], .returned,
      false, none, jar, none⟩ : CoMain R J)) fun i op hop => by cases hop
    have hrun := run_le (P := fun s : CoMain R J => s.Ok ∧ s.Settled) CoMain.weight (fun _ => 1)
      CoMainEvent.adds (fun s e s' hs _ hstep => ?_) ⟨CoMain.ok_start oc gen jar, hstart.1⟩ h
    · have hle : (CoMain.start oc gen jar).weight ≤ 6 * gen.length + 4 := hstart.2
      have hsum : (es.map fun _ => 1).sum = es.length := by simp
      have hadds : (es.map CoMainEvent.adds).sum =
          (es.map CoMainEvent.outside).sum + 2 * (es.map CoMainEvent.moves).sum := by
        rw [← List.sum_map_mul_left, ← List.sum_map_add]
        exact congrArg (fun f => (es.map f).sum) (funext CoMainEvent.adds_eq)
      have hlength : (CoMain.movesAlong (.start oc gen jar) es).length =
          (es.map CoMainEvent.moves).sum :=
        length_outputs CoMainEvent.moves (fun _ _ _ hs => CoMain.length_moves hs) h
      have hbound := length_le_mul (CoMain.movesAlong_lt h) hmoves
      have hmul : (6 + 2 * m) * gen.length = 6 * gen.length + 2 * (gen.length * m) := by ring
      omega
    · obtain ⟨hsettled, hle⟩ := CoMain.weight_step hs.1 hs.2 hstep
      exact ⟨⟨hs.1.step hstep, hsettled⟩, hle⟩
  · by_contra hret
    rcases (CoMain.ok_run h).goesOn hret with ⟨t, ht, hrun⟩ | ⟨e, s', hinternal, hs⟩
    · rw [hended t ht] at hrun
      cases hrun
    · cases (hnone e hinternal).symm.trans hs

/-- One request, whose completion handler is moved once. -/
def oneRequest : List (CoMainEvent Nat) :=
  [.handler 0, .resume, .moveRemover 0, .endTask 0 .returned, .destroyRemover 1, .destroyRemover 0,
    .handler 1, .resume]

/-- Eight events for one request. -/
theorem events_bounded_oneRequest :
    ∃ s : CoMain Nat Nat, run CoMain.step (.start {} [.request 1] 0) oneRequest = some s ∧
      8 ≤ (6 + 2 * 1) * 1 + 4 + 0 ∧
      ((∀ t ∈ s.tasks, t.running = false) → (∀ e, e.Internal → s.step e = none) →
        s.await = .returned) := by
  have hrun : (run CoMain.step (.start {} [.request 1] 0) oneRequest).isSome = true := by
    decide +kernel
  have hmoved : CoMain.movesAlong (.start {} [.request 1] 0) oneRequest = [0] := by
    decide +kernel
  obtain ⟨s, hs⟩ := Option.isSome_iff_exists.1 hrun
  refine ⟨s, hs, events_bounded {} [.request 1] 0 oneRequest 1 hs fun node => ?_⟩
  rw [hmoved]
  exact List.count_le_length

end

end Beast2.Burl
