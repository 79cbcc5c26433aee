import Beast2.Burl.CoMain
import Beast2.Burl.TaskGroupKept

/-!
# Runs of `co_main`

`CoMain.Ok` holds between any two events, whatever their order: at most `parallel_max` tasks run,
each of them in a slot of its own; `async_join` completes only when none runs any more, and so the
jar that is written is the one that all tasks have left. The tasks are the requests of `ropt_gen` in
their order.
-/

namespace Beast2.Burl

open TaskGroup Machine

/-! ## What `co_main` keeps -/

/-- The `async_adapt` that `co_main` waits for. -/
def Await.adapts {R : Type} : Await R → List Nat
  | .adapt _ op => [op]
  | _ => []

/-- The group and the tasks, with the operations whose result `co_main` has not seen yet: every
`async_adapt` was for one task, was dropped, or is one of these; those of the tasks were admitted,
and a completion handler that has not run has its remover. -/
structure CoMain.Core {R J : Type} (pending : List Nat) (s : CoMain R J) : Prop where
  slots : Slots s.oc.parallelMax s.group
  waiting : Waiting s.group
  kinds : Kinds s.group
  owned : ∀ (i : Nat) (op : Op) (ec : Ec), s.group.ops[i]? = some op → op.kind = .adapt →
    op.phase = .done ec → ¬ s.released i = true → s.group.alive i = true
  admitted : ∀ t ∈ s.tasks, s.group.admitted t.op = true
  nodup : (s.tasks.map (·.op) ++ pending ++ s.dropped).Nodup
  known : ∀ i : Nat, i ∈ s.tasks.map (·.op) ++ pending ++ s.dropped ↔
    s.group.kinds[i]? = some .adapt

section
variable {R J : Type} {s s' : CoMain R J} {pending : List Nat}

/-- The group of a state goes on. -/
theorem CoMain.Core.group (h : s.Core pending) {a : Action}
    (hdestroy : ∀ k r, a = .destroyRemover k → s.group.removers[k]? = some r → r.tg = true →
      s.released r.entry.op = true) :
    Retained (s.released · = true) s.group (s.group.step a) := by
  have hrefl : Retained (s.released · = true) s.group s.group := ⟨fun _ _ _ hop _ => hop, h.owned⟩
  by_cases hk : ∃ k, a = .destroyRemover k
  · obtain ⟨k, rfl⟩ := hk
    cases hr : s.group.removers[k]? with
    | none =>
      simp only [Group.step, hr]
      exact hrefl
    | some r => exact hrefl.destroyRemover hr fun htg => hdestroy k r rfl hr htg
  · exact (keptByActions_retained _ _).step hrefl a fun k hak => hk ⟨k, hak⟩

theorem admitted_iff {g : Group} {i : Nat} : g.admitted i = true ↔
    ∃ op, g.ops[i]? = some op ∧ op.kind = .adapt ∧ op.phase = .done .success := by
  cases hop : g.ops[i]? <;> simp [Group.admitted, Group.completed, hop]

/-- An action of the group keeps the core if it starts no `async_adapt` that is not pending. -/
theorem CoMain.Core.step (h : s.Core pending) {a : Action}
    (hdestroy : ∀ k r, a = .destroyRemover k → s.group.removers[k]? = some r → r.tg = true →
      s.released r.entry.op = true) {pending' : List Nat}
    (hnodup : (s.tasks.map (·.op) ++ pending' ++ s.dropped).Nodup)
    (hknown : ∀ i : Nat, i ∈ s.tasks.map (·.op) ++ pending' ++ s.dropped ↔
      (s.group.step a).kinds[i]? = some .adapt) :
    CoMain.Core pending' { s with group := s.group.step a } := by
  have hkept := h.group hdestroy
  refine ⟨h.slots.step _ a, h.waiting.step _ a, h.kinds.step a, hkept.owned, ?_, hnodup, hknown⟩
  intro t ht
  obtain ⟨op, hop, hk, hec⟩ := admitted_iff.1 (h.admitted t ht)
  exact admitted_iff.2 ⟨op, hkept.done _ _ _ hop hec, hk, hec⟩

/-- An action of the group that starts no operation keeps the core. -/
theorem CoMain.Core.step_same (h : s.Core pending) {a : Action} (hstarts : a.starts = [])
    (hdestroy : ∀ k r, a = .destroyRemover k → s.group.removers[k]? = some r → r.tg = true →
      s.released r.entry.op = true) :
    CoMain.Core pending { s with group := s.group.step a } := by
  refine h.step hdestroy h.nodup ?_
  rw [kinds_step, hstarts, List.append_nil]
  exact h.known

/-- The completion handler of a task that runs has not run. -/
theorem CoMain.Core.not_released (h : s.Core pending) {t : Task R} (ht : t ∈ s.tasks)
    (hrun : t.running = true) : s.released t.op = false := by
  have hnodup := h.nodup
  rw [List.append_assoc, List.nodup_append'] at hnodup
  obtain ⟨hops, -, hdisj⟩ := hnodup
  have hdropped : t.op ∉ s.dropped := fun hd =>
    hdisj (List.mem_map_of_mem ht) (List.mem_append_right _ hd)
  refine Bool.eq_false_iff.2 fun hrel => ?_
  rcases Bool.or_eq_true_iff.1 hrel with hd | hany
  · exact hdropped (List.contains_iff_mem.1 hd)
  · obtain ⟨t', ht', heq⟩ := List.any_eq_true.1 hany
    obtain ⟨hop, hend⟩ := Bool.and_eq_true_iff.1 heq
    cases List.inj_on_of_nodup_map hops ht' ht (beq_iff_eq.1 hop)
    rw [hrun] at hend
    cases hend

/-- A task that runs has its slot. -/
theorem CoMain.Core.alive (h : s.Core pending) {t : Task R} (ht : t ∈ s.tasks)
    (hrun : t.running = true) : s.group.alive t.op = true := by
  obtain ⟨op, hop, hk, hec⟩ := admitted_iff.1 (h.admitted t ht)
  refine h.owned t.op op _ hop hk hec ?_
  rw [h.not_released ht hrun]
  exact Bool.false_ne_true

/-- No task runs if the group is empty. -/
theorem CoMain.Core.ended (h : s.Core pending) (hcss : s.group.css = []) :
    ∀ t ∈ s.tasks, t.running = false := by
  intro t ht
  refine Bool.eq_false_iff.2 fun hrun => ?_
  obtain ⟨r, hr, htg, -⟩ := alive_iff.1 (h.alive ht hrun)
  have hmem := h.slots.mem_css hr htg
  rw [hcss] at hmem
  exact List.not_mem_nil hmem

/-- At most as many tasks run as the limit says. -/
theorem CoMain.Core.running_le (h : s.Core pending) :
    (s.tasks.filter (·.running)).length ≤ s.oc.parallelMax := by
  have hsub : (s.tasks.filter (·.running)).map (·.op) ⊆ s.group.admittedAlive := by
    intro i hi
    obtain ⟨t, ht, rfl⟩ := List.mem_map.1 hi
    obtain ⟨ht, hrun⟩ := List.mem_filter.1 ht
    have hadm := h.admitted t ht
    obtain ⟨op, hop, -⟩ := admitted_iff.1 hadm
    refine List.mem_filter.2 ⟨List.mem_range.2 (List.getElem?_eq_some_iff.1 hop).1, ?_⟩
    rw [hadm, h.alive ht hrun]
    rfl
  have hnodup : ((s.tasks.filter (·.running)).map (·.op)).Nodup := by
    refine List.Nodup.sublist (List.filter_sublist.map _) ?_
    exact (List.nodup_append'.1 (List.nodup_append'.1 h.nodup).1).1
  have hle := (hnodup.subperm hsub).length_le
  rw [List.length_map] at hle
  exact Nat.le_trans hle h.slots.admittedAlive_le

/-- A state of `co_main` between two events: the core; the operation at hand is of its kind; when
`async_join` has completed no task runs; and what was saved is the jar. -/
structure CoMain.Ok (s : CoMain R J) : Prop where
  core : s.Core s.await.adapts
  join : ∀ op, s.await = .join op → s.group.kinds[op]? = some .join
  joined : (s.await = .returned ∨ ∃ op, s.await = .join op ∧ s.group.joined op = true) →
    ∀ t ∈ s.tasks, t.running = false
  saved : s.await ≠ .returned → s.saved = none
  jar : s.await = .returned → s.saved = if s.oc.cookiejar then some s.jar else none

theorem length_kinds (g : Group) : g.kinds.length = g.ops.length := List.length_map _

/-- The kinds after one more operation. -/
theorem getElem?_concat_eq_some {ks : List Kind} {k kind : Kind} {i : Nat} :
    (ks ++ [k])[i]? = some kind ↔ ks[i]? = some kind ∨ i = ks.length ∧ k = kind := by
  rcases Nat.lt_trichotomy i ks.length with hi | hi | hi
  · rw [List.getElem?_append_left hi]
    exact ⟨.inl, fun h => h.elim id fun h => absurd h.1 (Nat.ne_of_lt hi)⟩
  · subst hi
    simp
  · rw [List.getElem?_append_right (Nat.le_of_lt hi), List.getElem?_eq_none (Nat.le_of_lt hi),
      List.getElem?_eq_none (by simp; omega)]
    simp [Nat.ne_of_gt hi]

/-- Running tasks stay ended when the group goes on: `async_join` completes on an empty group. -/
theorem CoMain.Core.joined (h : CoMain.Core pending { s with group := s.group.step a })
    (hjoined : s.group.joined op = true → ∀ t ∈ s.tasks, t.running = false)
    (hnow : (s.group.step a).joined op = true) : ∀ t ∈ s.tasks, t.running = false := by
  rcases completed_step hnow with hold | ⟨hk, -⟩ | ⟨-, hcss⟩
  · exact hjoined hold
  · cases hk
  · exact h.ended hcss

/-- `co_main` waits for its tasks. -/
theorem CoMain.Core.leave (h : s.Core []) (hsaved : s.saved = none) : s.leave.Ok := by
  have hemit : CoMain.Core [] (if s.cancelled then
      { s with group := s.group.step .emit, cancelled := false } else s) := by
    split
    · have hstep := h.step_same (a := .emit) rfl fun k r hk => by cases hk
      exact ⟨hstep.slots, hstep.waiting, hstep.kinds, hstep.owned, hstep.admitted, hstep.nodup,
        hstep.known⟩
    · exact h
  have hsaved' : (if s.cancelled then
      { s with group := s.group.step .emit, cancelled := false } else s).saved = none := by
    split <;> exact hsaved
  unfold CoMain.leave
  generalize (if s.cancelled then
      { s with group := s.group.step .emit, cancelled := false } else s) = s' at hemit hsaved'
  have hcore : CoMain.Core [] { s' with group := s'.group.step .asyncJoin } := by
    refine hemit.step (a := .asyncJoin) (fun k r hk => by cases hk) hemit.nodup ?_
    intro i
    rw [kinds_step, hemit.known i, Action.starts, getElem?_concat_eq_some]
    simp
  refine ⟨⟨hcore.slots, hcore.waiting, hcore.kinds, hcore.owned, hcore.admitted, hcore.nodup,
    hcore.known⟩, ?_, ?_, ?_, ?_⟩
  · intro op hop
    cases hop
    show (s'.group.step .asyncJoin).kinds[s'.group.ops.length]? = _
    rw [kinds_step, Action.starts, getElem?_concat_eq_some, length_kinds]
    exact .inr ⟨rfl, rfl⟩
  · rintro (hret | ⟨op, hop, hjoined⟩)
    · cases hret
    · cases hop
      refine hcore.joined ?_ hjoined
      intro hold
      simp [Group.joined, Group.completed] at hold
  · exact fun _ => hsaved'
  · intro hret
    cases hret

/-- `co_main` at the head of its loop takes the next request or waits for its tasks. -/
theorem CoMain.Core.next (h : s.Core []) (hsaved : s.saved = none) : s.next.Ok := by
  have hsame {s' : CoMain R J} (hoc : s'.oc = s.oc) (hgroup : s'.group = s.group)
      (htasks : s'.tasks = s.tasks) (hdropped : s'.dropped = s.dropped) : s'.Core [] := by
    cases s'
    cases hoc
    cases hgroup
    cases htasks
    cases hdropped
    exact ⟨h.slots, h.waiting, h.kinds, h.owned, h.admitted, h.nodup, h.known⟩
  unfold CoMain.next
  split
  · exact h.leave hsaved
  · exact CoMain.Core.leave (hsame rfl rfl rfl rfl) hsaved
  · next ropt gen _ =>
    split
    · exact CoMain.Core.leave (hsame rfl rfl rfl rfl) hsaved
    · have hfresh : s.group.kinds[s.group.ops.length]? = none := by
        rw [List.getElem?_eq_none_iff, length_kinds]
      have hcore : CoMain.Core [s.group.ops.length]
          { s with group := s.group.step .asyncAdapt } := by
        refine h.step (a := .asyncAdapt) (fun k r hk => by cases hk) ?_ ?_
        · have hnot : s.group.ops.length ∉ s.tasks.map (·.op) ++ [] ++ s.dropped := fun hmem => by
            rw [h.known, hfresh] at hmem
            cases hmem
          have hnodup := h.nodup
          simp only [List.append_nil] at hnot hnodup
          rw [List.append_assoc, List.singleton_append]
          exact List.nodup_middle.2 (List.nodup_cons.2 ⟨hnot, hnodup⟩)
        · intro i
          have hknown := h.known i
          rw [kinds_step, Action.starts, getElem?_concat_eq_some, ← hknown, length_kinds]
          simp only [List.mem_append, List.mem_singleton, List.not_mem_nil, or_false, and_true]
          tauto
      refine ⟨⟨hcore.slots, hcore.waiting, hcore.kinds, hcore.owned, hcore.admitted, hcore.nodup,
        hcore.known⟩, ?_, ?_, fun _ => hsaved, ?_⟩
      · intro op hop
        cases hop
      · rintro (hret | ⟨op, hop, -⟩)
        · cases hret
        · cases hop
      · intro hret
        cases hret

/-- A task more, for the operation that was at hand. -/
theorem CoMain.Core.spawn {ropt : R} {op : Nat} (h : s.Core [op])
    (hphase : s.phase op = some (.done .success)) :
    CoMain.Core [] { s with tasks := s.tasks ++ [⟨ropt, op, true⟩] } := by
  have hreleased (i : Nat) : CoMain.released { s with tasks := s.tasks ++ [⟨ropt, op, true⟩] } i =
      s.released i := by
    simp [CoMain.released]
  refine ⟨h.slots, h.waiting, h.kinds, ?_, ?_, ?_, ?_⟩
  · intro i op' ec hop hk hec hrel
    rw [hreleased] at hrel
    exact h.owned i op' ec hop hk hec hrel
  · intro t ht
    rcases List.mem_append.1 ht with ht | ht
    · exact h.admitted t ht
    · cases List.mem_singleton.1 ht
      have hkind := (h.known op).1 (by simp)
      obtain ⟨op', hop, hp⟩ := Option.map_eq_some_iff.1 hphase
      rw [Group.kinds, List.getElem?_map, hop] at hkind
      exact admitted_iff.2 ⟨op', hop, Option.some.inj hkind, hp⟩
  · simpa using h.nodup
  · simpa using h.known

/-- The operation at hand is dropped. -/
theorem CoMain.Core.drop {op : Nat} {ep : Option Ep} (h : s.Core [op]) :
    CoMain.Core [] { s with dropped := op :: s.dropped, ep } := by
  refine ⟨h.slots, h.waiting, h.kinds, ?_, h.admitted, ?_, ?_⟩
  · intro i op' ec hop hk hec hrel
    refine h.owned i op' ec hop hk hec fun hold => hrel ?_
    simp only [CoMain.released, Bool.or_eq_true, List.contains_cons] at hold ⊢
    exact hold.imp_left .inr
  · simpa using h.nodup
  · simpa using h.known

/-- A task that has ended. -/
theorem CoMain.Core.endTask (h : s.Core pending) {t : Nat} {task : Task R}
    (htask : s.tasks[t]? = some task) :
    CoMain.Core pending { s with tasks := s.tasks.set t { task with running := false } } := by
  obtain ⟨ht, hget⟩ := List.getElem?_eq_some_iff.1 htask
  have hops : (s.tasks.set t { task with running := false }).map (·.op) = s.tasks.map (·.op) := by
    rw [List.map_set]
    refine List.ext_getElem? fun j => ?_
    rw [List.getElem?_set]
    split
    · next htj =>
      subst htj
      rw [if_pos (by simpa using ht), List.getElem?_map, htask, Option.map_some]
    · rfl
  refine ⟨h.slots, h.waiting, h.kinds, ?_, ?_, ?_, ?_⟩
  · intro i op ec hop hk hec hrel
    refine h.owned i op ec hop hk hec fun hold => hrel ?_
    simp only [CoMain.released, Bool.or_eq_true, List.any_eq_true] at hold ⊢
    refine hold.imp_right ?_
    rintro ⟨t', ht', heq⟩
    obtain ⟨j, hj, rfl⟩ := List.getElem_of_mem ht'
    have hset : j < (s.tasks.set t { task with running := false }).length := by simpa using hj
    refine ⟨(s.tasks.set t { task with running := false })[j], List.getElem_mem _, ?_⟩
    rw [List.getElem_set]
    split
    · next htj =>
      subst htj
      rw [hget] at heq
      simpa using (Bool.and_eq_true_iff.1 heq).1
    · exact heq
  · intro t' ht'
    rcases List.mem_or_eq_of_mem_set ht' with ht' | rfl
    · exact h.admitted t' ht'
    · exact h.admitted task (hget ▸ List.getElem_mem ht)
  · show ((s.tasks.set t _).map (·.op) ++ pending ++ s.dropped).Nodup
    rw [hops]
    exact h.nodup
  · intro i
    show i ∈ (s.tasks.set t _).map (·.op) ++ pending ++ s.dropped ↔ _
    rw [hops]
    exact h.known i

/-- The group of a state goes on by an action that starts nothing. -/
theorem CoMain.Ok.group (h : s.Ok) {a : Action} (hstarts : a.starts = [])
    (hdestroy : ∀ k r, a = .destroyRemover k → s.group.removers[k]? = some r → r.tg = true →
      s.released r.entry.op = true) (cancelled : Bool) :
    CoMain.Ok { s with group := s.group.step a, cancelled } := by
  have hcore := h.core.step_same hstarts hdestroy
  refine ⟨⟨hcore.slots, hcore.waiting, hcore.kinds, hcore.owned, hcore.admitted, hcore.nodup,
    hcore.known⟩, ?_, ?_, h.saved, h.jar⟩
  · intro op hop
    show (s.group.step a).kinds[op]? = _
    rw [kinds_step, hstarts, List.append_nil]
    exact h.join op hop
  · rintro (hret | ⟨op, hop, hjoined⟩)
    · exact h.joined (.inl hret)
    · exact hcore.joined (fun hold => h.joined (.inr ⟨op, hop, hold⟩)) hjoined

/-- `co_main` goes on with a task more, without one if the operation has an error, or to its end
when the tasks are joined. -/
theorem CoMain.resume_cases (hs : s.resume = some s') :
    (∃ ropt op, s.await = .adapt ropt op ∧ s.phase op = some (.done .success) ∧
      s' = CoMain.next { s with tasks := s.tasks ++ [⟨ropt, op, true⟩] }) ∨
    (∃ ropt op ec ep, s.await = .adapt ropt op ∧ s.phase op = some (.done ec) ∧ ec ≠ .success ∧
      s' = CoMain.leave { s with dropped := op :: s.dropped, ep }) ∨
    ∃ op, s.await = .join op ∧ s.phase op = some (.done .success) ∧
      s' = { s with saved := if s.oc.cookiejar then some s.jar else none, await := .returned } := by
  unfold CoMain.resume at hs
  split at hs
  · next ropt op hawait =>
    split at hs
    · next hphase => exact .inl ⟨ropt, op, hawait, hphase, (Option.some.inj hs).symm⟩
    · next ec hne hphase =>
      refine .inr (.inl ⟨ropt, op, ec, _, hawait, hphase, ?_, (Option.some.inj hs).symm⟩)
      rintro rfl
      exact hne rfl
    · cases hs
  · next op hawait =>
    split at hs
    · next hphase => exact .inr (.inr ⟨op, hawait, hphase, (Option.some.inj hs).symm⟩)
    · cases hs
  · cases hs

/-- `co_main` goes on. -/
theorem CoMain.Ok.resume (h : s.Ok) (hs : s.resume = some s') : s'.Ok := by
  have hcore := h.core
  have hsaved := h.saved
  rcases CoMain.resume_cases hs with ⟨ropt, op, hawait, hphase, rfl⟩ |
    ⟨ropt, op, ec, ep, hawait, -, -, rfl⟩ | ⟨op, hawait, hphase, rfl⟩
  · rw [hawait] at hcore hsaved
    exact (hcore.spawn hphase).next (hsaved (by intro hret; cases hret))
  · rw [hawait] at hcore hsaved
    exact hcore.drop.leave (hsaved (by intro hret; cases hret))
  · have hjoined : s.group.joined op = true := by
      have hkind := h.join op hawait
      obtain ⟨op', hop, hp⟩ := Option.map_eq_some_iff.1 hphase
      rw [Group.kinds, List.getElem?_map, hop] at hkind
      simp only [Group.joined, Group.completed, hop, Option.any_some, hp,
        Option.some.inj hkind, decide_true, Bool.and_self]
    rw [hawait] at hcore
    refine ⟨⟨hcore.slots, hcore.waiting, hcore.kinds, hcore.owned, hcore.admitted, hcore.nodup,
      hcore.known⟩, ?_, fun _ => h.joined (.inr ⟨op, hawait, hjoined⟩), ?_, fun _ => rfl⟩
    · intro op hop
      cases hop
    · intro hret
      exact absurd rfl hret

/-- A task ends. -/
theorem CoMain.Ok.endTask (h : s.Ok) {t : Nat} {ending : RetryEnding}
    (hs : s.endTask t ending = some s') : s'.Ok := by
  unfold CoMain.endTask at hs
  split at hs
  · next task htask =>
    split at hs
    · next hrun =>
      have hcore := h.core.endTask htask
      have hended : CoMain.Ok { s with tasks := s.tasks.set t { task with running := false } } := by
        refine ⟨hcore, h.join, ?_, h.saved, h.jar⟩
        intro hjoined t' ht'
        rcases List.mem_or_eq_of_mem_set ht' with ht' | rfl
        · exact h.joined hjoined t' ht'
        · rfl
      dsimp only at hs
      split at hs
      · cases hs
        have hclose := hended.group (a := .close) rfl (fun k r hk => by cases hk) s.cancelled
        exact hclose.group (a := .emit) rfl (fun k r hk => by cases hk) s.cancelled
      · cases hs
        exact hended
    · cases hs
  · cases hs

/-- What a remover that is moved does. -/
theorem CoMain.moveRemover_cases {k : Nat} (hs : s.step (.moveRemover k) = some s') :
    (∃ r, s.group.removers[k]? = some r) ∧
      s' = { s with group := s.group.step (.moveRemover k) } := by
  simp only [CoMain.step] at hs
  split at hs
  · cases hs
  · cases hs
  · next r hr _ =>
    cases hs
    exact ⟨⟨r, hr⟩, rfl⟩

/-- Every event keeps what holds between two events. -/
theorem CoMain.Ok.step (h : s.Ok) {e : CoMainEvent J} (hs : s.step e = some s') : s'.Ok := by
  cases e with
  | resume => exact h.resume hs
  | endTask t ending => exact h.endTask hs
  | store t f =>
    simp only [CoMain.step] at hs
    split at hs
    · next hrun =>
      cases hs
      have hcore := h.core
      refine ⟨⟨hcore.slots, hcore.waiting, hcore.kinds, hcore.owned, hcore.admitted, hcore.nodup,
        hcore.known⟩, h.join, h.joined, h.saved, fun hret => ?_⟩
      -- no task is left that could store anything
      cases htask : s.tasks[t]? with
      | none =>
        rw [htask] at hrun
        cases hrun
      | some task =>
        rw [htask] at hrun
        have hended := h.joined (.inl hret) task (List.mem_of_getElem? htask)
        exact absurd (hended.symm.trans hrun) Bool.false_ne_true
    · cases hs
  | handler i =>
    simp only [CoMain.step] at hs
    split at hs
    · cases hs
      exact h.group (a := .run i) rfl (fun k r hk => by cases hk) s.cancelled
    · cases hs
  | moveRemover k =>
    obtain ⟨-, rfl⟩ := CoMain.moveRemover_cases hs
    exact h.group (a := .moveRemover k) rfl (fun k r hk => by cases hk) s.cancelled
  | destroyRemover k =>
    simp only [CoMain.step] at hs
    split at hs
    · next r hr =>
      split at hs
      · next hrel =>
        cases hs
        refine h.group rfl (fun k' r' hk hr' htg => ?_) s.cancelled
        cases hk
        cases hr.symm.trans hr'
        simpa [htg] using hrel
      · cases hs
    · cases hs
  | interrupt =>
    simp only [CoMain.step] at hs
    split at hs
    · cases hs
      exact h.group (a := .cancel _) rfl (fun k r hk => by cases hk) true
    · cases hs
      exact h.group (a := .cancel _) rfl (fun k r hk => by cases hk) true
    · cases hs

theorem CoMain.ok_start (oc : CoMainConfig) (gen : List (Yield R)) (jar : J) :
    (CoMain.start oc gen jar).Ok := by
  refine CoMain.Core.next ⟨.init _, .init _, ⟨?_, ?_⟩, ?_, ?_, .nil, ?_⟩ rfl
  · intro e he
    cases he
  · intro op hop
    cases hop
  · intro i op ec hop
    cases hop
  · intro t ht
    cases ht
  · intro i
    exact ⟨fun hi => absurd hi List.not_mem_nil, fun hk => by cases hk⟩

/-- What holds between two events holds after every run. -/
theorem CoMain.ok_run {oc : CoMainConfig} {gen : List (Yield R)} {jar : J}
    {es : List (CoMainEvent J)} (h : run CoMain.step (.start oc gen jar) es = some s) : s.Ok :=
  run_inv (fun _ _ _ hok _ hs => hok.step hs) (CoMain.ok_start oc gen jar) h

/-! ## The order of the requests -/

/-- What only `co_main` itself changes. -/
structure CoMain.SameProgram (s s' : CoMain R J) : Prop where
  oc : s'.oc = s.oc
  gen : s'.gen = s.gen
  await : s'.await = s.await
  ropts : s'.tasks.map (·.ropt) = s.tasks.map (·.ropt)
  dropped : s'.dropped = s.dropped
  ep : s'.ep = s.ep

/-- An event that is not a step of `co_main` itself leaves alone what only that changes. -/
theorem CoMain.sameProgram {e : CoMainEvent J} (hs : s.step e = some s') (hne : e ≠ .resume) :
    s.SameProgram s' := by
  cases e with
  | resume => exact absurd rfl hne
  | endTask t ending =>
    simp only [CoMain.step, CoMain.endTask] at hs
    split at hs
    · next task htask =>
      obtain ⟨ht, hget⟩ := List.getElem?_eq_some_iff.1 htask
      have hropts : (s.tasks.set t { task with running := false }).map (·.ropt) =
          s.tasks.map (·.ropt) := by
        have hlt : t < (s.tasks.map (·.ropt)).length := by simpa using ht
        have hself : task.ropt = (s.tasks.map (·.ropt))[t] := by rw [List.getElem_map, hget]
        rw [List.map_set, hself]
        exact List.set_getElem_self hlt
      split at hs
      · split at hs
        · cases hs
          exact ⟨rfl, rfl, rfl, hropts, rfl, rfl⟩
        · cases hs
          exact ⟨rfl, rfl, rfl, hropts, rfl, rfl⟩
      · cases hs
    · cases hs
  | store t f =>
    simp only [CoMain.step] at hs
    split at hs
    · cases hs
      exact ⟨rfl, rfl, rfl, rfl, rfl, rfl⟩
    · cases hs
  | handler i =>
    simp only [CoMain.step] at hs
    split at hs
    · cases hs
      exact ⟨rfl, rfl, rfl, rfl, rfl, rfl⟩
    · cases hs
  | moveRemover k =>
    obtain ⟨-, rfl⟩ := CoMain.moveRemover_cases hs
    exact ⟨rfl, rfl, rfl, rfl, rfl, rfl⟩
  | destroyRemover k =>
    simp only [CoMain.step] at hs
    split at hs
    · split at hs
      · cases hs
        exact ⟨rfl, rfl, rfl, rfl, rfl, rfl⟩
      · cases hs
    · cases hs
  | interrupt =>
    simp only [CoMain.step] at hs
    split at hs
    · cases hs
      exact ⟨rfl, rfl, rfl, rfl, rfl, rfl⟩
    · cases hs
      exact ⟨rfl, rfl, rfl, rfl, rfl, rfl⟩
    · cases hs

/-- What an event that is not a step of `co_main` does with the group: one action, or, if it is a
task that fails under `--fail-early`, `close` and `emit`. -/
theorem CoMain.group_cases {e : CoMainEvent J} (hs : s.step e = some s') (hne : e ≠ .resume) :
    s'.cancelled = s.cancelled ∧ s'.group = s.group ∨
    (∃ a, s'.group = s.group.step a ∧ a.starts = [] ∧
      (e = .interrupt ∨ a.disturbs = false ∧ s'.cancelled = s.cancelled)) ∨
    ∃ t ending, e = .endTask t ending ∧ ending ≠ .returned ∧ s.oc.failearly = true ∧
      s'.group = (s.group.step .close).step .emit := by
  cases e with
  | resume => exact absurd rfl hne
  | endTask t ending =>
    simp only [CoMain.step, CoMain.endTask] at hs
    split at hs
    · split at hs
      · split at hs
        · next hfail =>
          cases hs
          exact .inr (.inr ⟨t, ending, rfl, hfail.1, hfail.2, rfl⟩)
        · cases hs
          exact .inl ⟨rfl, rfl⟩
      · cases hs
    · cases hs
  | store t f =>
    simp only [CoMain.step] at hs
    split at hs
    · cases hs
      exact .inl ⟨rfl, rfl⟩
    · cases hs
  | handler i =>
    simp only [CoMain.step] at hs
    split at hs
    · cases hs
      exact .inr (.inl ⟨.run i, rfl, rfl, .inr ⟨rfl, rfl⟩⟩)
    · cases hs
  | moveRemover k =>
    obtain ⟨-, rfl⟩ := CoMain.moveRemover_cases hs
    exact .inr (.inl ⟨.moveRemover k, rfl, rfl, .inr ⟨rfl, rfl⟩⟩)
  | destroyRemover k =>
    simp only [CoMain.step] at hs
    split at hs
    · split at hs
      · cases hs
        exact .inr (.inl ⟨.destroyRemover k, rfl, rfl, .inr ⟨rfl, rfl⟩⟩)
      · cases hs
    · cases hs
  | interrupt =>
    simp only [CoMain.step] at hs
    split at hs
    · next op _ =>
      cases hs
      exact .inr (.inl ⟨.cancel op, rfl, rfl, .inl rfl⟩)
    · next op _ =>
      cases hs
      exact .inr (.inl ⟨.cancel op, rfl, rfl, .inl rfl⟩)
    · cases hs

/-! ## What the group keeps -/

section
variable {P : Group → Prop} (hP : ∀ g a, P g → P (g.step a))
include hP

theorem CoMain.group_leave (h : P s.group) : P s.leave.group := by
  unfold CoMain.leave
  split
  · exact hP _ .asyncJoin (hP _ .emit h)
  · exact hP _ .asyncJoin h

theorem CoMain.group_next (h : P s.group) : P s.next.group := by
  unfold CoMain.next
  split
  · exact CoMain.group_leave hP h
  · exact CoMain.group_leave hP h
  · split
    · exact CoMain.group_leave hP h
    · exact hP _ .asyncAdapt h

/-- What every action of a group keeps, every event keeps. -/
theorem CoMain.group_step {e : CoMainEvent J} (h : P s.group) (hs : s.step e = some s') :
    P s'.group := by
  by_cases hne : e = .resume
  · subst hne
    rcases CoMain.resume_cases hs with ⟨ropt, op, -, -, rfl⟩ | ⟨ropt, op, ec, ep, -, -, -, rfl⟩ |
      ⟨op, -, -, rfl⟩
    · exact CoMain.group_next hP h
    · exact CoMain.group_leave hP h
    · exact h
  · rcases CoMain.group_cases hs hne with ⟨-, heq⟩ | ⟨a, heq, -⟩ | ⟨t, ending, -, -, -, heq⟩
    · exact heq ▸ h
    · exact heq ▸ hP _ a h
    · exact heq ▸ hP _ .emit (hP _ .close h)

end

/-! ## The order of the requests -/

/-- The requests of the tasks come first among those of `ropt_gen`; then the one at hand. -/
structure CoMain.InOrder (gen : List (Yield R)) (s : CoMain R J) : Prop where
  tasks : s.tasks.map (fun t => Yield.request t.ropt) <+: gen
  atHand : ∀ ropt op, s.await = .adapt ropt op →
    gen = s.tasks.map (fun t => Yield.request t.ropt) ++ .request ropt :: s.gen

@[simp] theorem CoMain.tasks_leave (s : CoMain R J) : s.leave.tasks = s.tasks := by
  unfold CoMain.leave
  split <;> rfl

@[simp] theorem CoMain.gen_leave (s : CoMain R J) : s.leave.gen = s.gen := by
  unfold CoMain.leave
  split <;> rfl

@[simp] theorem CoMain.oc_leave (s : CoMain R J) : s.leave.oc = s.oc := by
  unfold CoMain.leave
  split <;> rfl

@[simp] theorem CoMain.oc_next (s : CoMain R J) : s.next.oc = s.oc := by
  unfold CoMain.next
  split
  · exact s.oc_leave
  · exact CoMain.oc_leave _
  · split
    · exact CoMain.oc_leave _
    · rfl

theorem CoMain.oc_step {e : CoMainEvent J} (hs : s.step e = some s') : s'.oc = s.oc := by
  by_cases hne : e = .resume
  · subst hne
    rcases CoMain.resume_cases hs with ⟨ropt, op, -, -, rfl⟩ | ⟨ropt, op, ec, ep, -, -, -, rfl⟩ |
      ⟨op, -, -, rfl⟩
    · exact CoMain.oc_next _
    · exact CoMain.oc_leave _
    · rfl
  · exact (CoMain.sameProgram hs hne).oc

/-- The options do not change. -/
theorem CoMain.oc_run {oc : CoMainConfig} {gen : List (Yield R)} {jar : J}
    {es : List (CoMainEvent J)} (h : run CoMain.step (.start oc gen jar) es = some s) :
    s.oc = oc :=
  Machine.run_inv (P := fun s => s.oc = oc)
    (fun _ _ _ hs _ hstep => (CoMain.oc_step hstep).trans hs) (CoMain.oc_next _) h

/-- At the head of the loop the requests left are those that were not taken. -/
theorem CoMain.InOrder.next {gen : List (Yield R)}
    (h : gen = s.tasks.map (fun t => Yield.request t.ropt) ++ s.gen) : s.next.InOrder gen := by
  unfold CoMain.next
  split
  · refine ⟨?_, fun ropt op hawait => ?_⟩
    · rw [CoMain.tasks_leave]
      exact ⟨_, h.symm⟩
    · cases hawait
  · refine ⟨?_, fun ropt op hawait => ?_⟩
    · rw [CoMain.tasks_leave]
      exact ⟨_, h.symm⟩
    · cases hawait
  · next ropt gen' hgen =>
    split
    · refine ⟨?_, fun ropt op hawait => ?_⟩
      · rw [CoMain.tasks_leave]
        exact ⟨_, h.symm⟩
      · cases hawait
    · refine ⟨⟨_, h.symm⟩, fun ropt' op hawait => ?_⟩
      cases hawait
      rw [h, hgen]

theorem CoMain.InOrder.step {gen : List (Yield R)} (h : s.InOrder gen) {e : CoMainEvent J}
    (hs : s.step e = some s') : s'.InOrder gen := by
  by_cases hne : e = .resume
  · subst hne
    rcases CoMain.resume_cases hs with ⟨ropt, op, hawait, -, rfl⟩ |
      ⟨ropt, op, ec, ep, -, -, -, rfl⟩ | ⟨op, -, -, rfl⟩
    · refine CoMain.InOrder.next ?_
      rw [h.atHand ropt op hawait]
      simp
    · refine ⟨?_, fun ropt op hawait => ?_⟩
      · rw [CoMain.tasks_leave]
        exact h.tasks
      · cases hawait
    · refine ⟨h.tasks, fun ropt op hawait => ?_⟩
      cases hawait
  · have hsame := CoMain.sameProgram hs hne
    have htasks : s'.tasks.map (fun t => Yield.request t.ropt) =
        s.tasks.map (fun t => Yield.request t.ropt) := by
      have hropts := congrArg (List.map Yield.request) hsame.ropts
      simpa [Function.comp_def] using hropts
    refine ⟨htasks ▸ h.tasks, fun ropt op hawait => ?_⟩
    rw [htasks, hsame.gen]
    exact h.atHand ropt op (hsame.await ▸ hawait)

/-- In every run the tasks are for the first requests, in their order. -/
theorem CoMain.inOrder_run {oc : CoMainConfig} {gen : List (Yield R)} {jar : J}
    {es : List (CoMainEvent J)} (h : run CoMain.step (.start oc gen jar) es = some s) :
    s.InOrder gen :=
  Machine.run_inv (fun _ _ _ h _ hs => CoMain.InOrder.step h hs) (CoMain.InOrder.next rfl) h

end

end Beast2.Burl
