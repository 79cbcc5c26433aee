import Beast2.Burl.TaskGroup

/-!
# Wake-ups of the task group

The timer `cv_` is used as a condition variable without memory: `cancel()` wakes the operations that
are parked at that moment. `Waiting` says that an operation parked on `cv_` has reason to wait. It
holds after every sequence of actions, since every change that could take the reason away, a smaller
`css_` or a closed group, is followed by `cancel()`, after which nothing is parked.
-/

namespace Beast2.Burl.TaskGroup

/-- Every operation parked on `cv_` has reason to wait. -/
structure Waiting (g : Group) : Prop where
  adapt : ∀ op ∈ g.ops, op.kind = .adapt → op.phase = .parked → 0 < g.max ∧ g.max ≤ g.css.length
  join : ∀ op ∈ g.ops, op.kind = .join → op.phase = .parked → g.css ≠ []

/-- An operation that was woken is not parked. -/
theorem Op.phase_wake_ne (op : Op) : op.wake.phase ≠ .parked := by
  unfold Op.wake
  split
  · exact nofun
  · next hp => exact hp

/-- After `cv_.cancel()` nothing is parked. -/
theorem not_parked_cvCancel {g : Group} {op : Op} (h : op ∈ g.cvCancel.ops) :
    op.phase ≠ .parked := by
  obtain ⟨op, -, rfl⟩ := List.mem_map.1 h
  exact op.phase_wake_ne

theorem Waiting.init (max : Nat) : Waiting (Group.init max) :=
  ⟨fun _ hop => absurd hop List.not_mem_nil, fun _ hop => absurd hop List.not_mem_nil⟩

theorem Waiting.cvCancel (g : Group) : Waiting g.cvCancel where
  adapt _ hop _ hp := absurd hp (not_parked_cvCancel hop)
  join _ hop _ hp := absurd hp (not_parked_cvCancel hop)

theorem Waiting.setOp {g : Group} (h : Waiting g) {i : Nat} {op' : Op}
    (ha : op'.kind = .adapt → op'.phase = .parked → 0 < g.max ∧ g.max ≤ g.css.length)
    (hj : op'.kind = .join → op'.phase = .parked → g.css ≠ []) : Waiting (g.setOp i op') := by
  constructor
  · intro op hop hk hp
    rcases List.mem_or_eq_of_mem_set hop with hop | rfl
    · exact h.adapt op hop hk hp
    · exact ha hk hp
  · intro op hop hk hp
    rcases List.mem_or_eq_of_mem_set hop with hop | rfl
    · exact h.join op hop hk hp
    · exact hj hk hp

/-- An operation that is not parked leaves nothing to show. -/
theorem Waiting.setOp_of_ne {g : Group} (h : Waiting g) {i : Nat} {op' : Op}
    (hp : op'.phase ≠ .parked) : Waiting (g.setOp i op') :=
  h.setOp (fun _ h' => absurd h' hp) (fun _ h' => absurd h' hp)

theorem Waiting.start {g : Group} (h : Waiting g) (kind : Kind) : Waiting (g.start kind) := by
  constructor
  · intro op hop hk hp
    rcases List.mem_append.1 hop with hop | hop
    · exact h.adapt op hop hk hp
    · cases List.mem_singleton.1 hop
      cases hp
  · intro op hop hk hp
    rcases List.mem_append.1 hop with hop | hop
    · exact h.join op hop hk hp
    · cases List.mem_singleton.1 hop
      cases hp

theorem Waiting.adaptor {g : Group} (h : Waiting g) (i : Nat) : Waiting (g.adaptor i) := by
  constructor
  · intro op hop hk hp
    obtain ⟨hpos, hle⟩ := h.adapt op hop hk hp
    exact ⟨hpos, by simpa [Group.adaptor] using Nat.le_succ_of_le hle⟩
  · intro op hop hk hp
    simp [Group.adaptor]

theorem Waiting.runOp {g : Group} (h : Waiting g) (i : Nat) : Waiting (g.runOp i) := by
  rcases runOp_cases g i with heq | ⟨op, ec, -, -, ⟨hk, heq⟩ | ⟨hk, heq⟩⟩
  · rw [heq]
    exact h
  · rw [heq]
    rcases runAdapt_cases g i op ec with
      ⟨op', heq, hk', -, hpos, hle⟩ | ⟨op', heq, -, hp⟩ | ⟨op', ec', heq, -, hp, -⟩
    · rw [heq]
      refine h.setOp (fun _ _ => ⟨hpos, hle⟩) ?_
      intro hj
      rw [hk', hk] at hj
      cases hj
    · rw [heq]
      exact h.setOp_of_ne (by rw [hp]; exact nofun)
    · rw [heq]
      exact (h.adaptor i).setOp_of_ne (by rw [hp]; exact nofun)
  · rw [heq]
    obtain ⟨g', op', hg', heq, hk', hcases⟩ := runJoin_cases g i op
    have hw : Waiting g' := by
      rcases hg' with rfl | rfl
      · exact h
      · exact ⟨h.adapt, h.join⟩
    have hcss : g'.css = g.css := by
      rcases hg' with rfl | rfl
      · rfl
      · rfl
    rw [heq]
    rcases hcases with ⟨-, hne⟩ | hp | ⟨hp, -⟩
    · refine hw.setOp ?_ ?_
      · intro ha
        rw [hk', hk] at ha
        cases ha
      · intro _ _
        rw [hcss]
        exact hne
    · exact hw.setOp_of_ne (by rw [hp]; exact nofun)
    · exact hw.setOp_of_ne (by rw [hp]; exact nofun)

/-- Every action keeps `Waiting`. -/
theorem Waiting.step (g : Group) (a : Action) (h : Waiting g) : Waiting (g.step a) := by
  cases a with
  | asyncAdapt => exact (h.start .adapt).runOp _
  | asyncJoin => exact (h.start .join).runOp _
  | run i => exact h.runOp i
  | cancel i =>
    simp only [Group.step]
    split
    · split
      · exact h
      · exact h.setOp_of_ne (Op.phase_wake_ne _)
    · exact h
  | moveRemover k =>
    simp only [Group.step]
    split
    · exact ⟨h.adapt, h.join⟩
    · exact h
  | destroyRemover k =>
    simp only [Group.step, Group.destroy]
    split
    · split
      · exact .cvCancel _
      · exact ⟨h.adapt, h.join⟩
    · exact h
  | close => exact .cvCancel _
  | emit => exact ⟨h.adapt, h.join⟩

/-- Whatever has happened, an `async_adapt` that is parked on `cv_` with no wake-up queued finds the
group open and full, and an `async_join` finds it not empty. -/
theorem parked_has_reason (max : Nat) (actions : List Action) (i : Nat) (op : Op)
    (hop : ((Group.init max).run actions).ops[i]? = some op) (hp : op.phase = .parked) :
    (op.kind = .adapt → 0 < ((Group.init max).run actions).max ∧
      ((Group.init max).run actions).max ≤ ((Group.init max).run actions).css.length) ∧
    (op.kind = .join → ((Group.init max).run actions).css ≠ []) := by
  have h : Waiting ((Group.init max).run actions) :=
    run_inv Waiting.step (.init max) actions
  have hmem := List.mem_of_getElem? hop
  exact ⟨fun hk => h.adapt op hmem hk hp, fun hk => h.join op hmem hk hp⟩

/-- A second task waits for the first in a group of one, and so does the join. -/
theorem waiting_two_has_reason :
    let g := (Group.init 1).run [.asyncAdapt, .run 0, .asyncAdapt, .asyncJoin]
    g.ops[1]? = some ⟨.adapt, true, false, .parked⟩ ∧
      g.ops[2]? = some ⟨.join, true, false, .parked⟩ ∧
      (0 < g.max ∧ g.max ≤ g.css.length) ∧ g.css ≠ [] :=
  ⟨rfl, rfl,
    (parked_has_reason 1 [.asyncAdapt, .run 0, .asyncAdapt, .asyncJoin] 1 _ rfl rfl).1 rfl,
    (parked_has_reason 1 [.asyncAdapt, .run 0, .asyncAdapt, .asyncJoin] 2 _ rfl rfl).2 rfl⟩

end Beast2.Burl.TaskGroup
