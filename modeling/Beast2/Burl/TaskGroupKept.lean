import Beast2.Burl.TaskGroupSlots

/-!
# What the task group keeps

Whoever uses a `basic_task_group` relies on more than its limit: an operation that is done stays
done, every `async_adapt` that is done has a remover until that is destroyed (`Retained`) and has
emplaced one entry (`Entered`), and a group that nobody closes or cancels admits every task
(`Undisturbed`). `KeptByActions` is the rule for such properties: what the parts of the actions
keep, every action keeps but the destruction of a remover.
-/

namespace Beast2.Burl.TaskGroup

/-! ## What the actions keep -/

/-- The kinds of the operations of a group. -/
def Group.kinds (g : Group) : List Kind := g.ops.map (·.kind)

/-- A property that a run of a handler keeps: it sets its operation, which was not done, and
emplaces an entry if the operation is an `async_adapt` that completes. An `async_join` completes
without an error. -/
structure KeptByRuns (P : Group → Prop) : Prop where
  setOp : ∀ (g : Group) (i : Nat) (op op' : Op), g.ops[i]? = some op →
    (∀ ec, op.phase ≠ .done ec) → op'.kind = op.kind →
    (∀ ec, op'.phase = .done ec → op.kind = .join ∧ ec = .success) → P g → P (g.setOp i op')
  complete : ∀ (g : Group) (i : Nat) (op op' : Op), g.ops[i]? = some op →
    (∀ ec, op.phase ≠ .done ec) → op.kind = .adapt → op'.kind = op.kind →
    (∃ ec, op'.phase = .done ec) → P g → P ((g.adaptor i).setOp i op')
  emit : ∀ g, P g → P g.emit

/-- A property that all actions keep but the destruction of a remover. -/
structure KeptByActions (P : Group → Prop) : Prop extends KeptByRuns P where
  start : ∀ g kind, P g → P (g.start kind)
  cvCancel : ∀ g, P g → P g.cvCancel
  closed : ∀ g, P g → P { g with max := 0 }
  moveRemover : ∀ (g : Group) (k : Nat) (r : Remover), g.removers[k]? = some r → P g →
    P { g with removers := g.removers.set k { r with tg := false } ++ [r] }

variable {P : Group → Prop} {g : Group}

theorem KeptByRuns.runOp (hP : KeptByRuns P) (h : P g) (i : Nat) : P (g.runOp i) := by
  rcases runOp_cases g i with heq | ⟨op, ec, hop, hq, hrun⟩
  · rw [heq]
    exact h
  have hne : ∀ ec, op.phase ≠ .done ec := fun ec => by rw [hq]; intro h; cases h
  rcases hrun with ⟨hadapt, heq⟩ | ⟨hjoin, heq⟩
  · rw [heq]
    rcases runAdapt_cases g i op ec with
      ⟨op', heq, hk, hp, -⟩ | ⟨op', heq, hk, hp⟩ | ⟨op', ec', heq, hk, hp, -⟩
    · rw [heq]
      exact hP.setOp g i op op' hop hne hk (fun ec hec => by cases hp.symm.trans hec) h
    · rw [heq]
      exact hP.setOp g i op op' hop hne hk (fun ec hec => by cases hp.symm.trans hec) h
    · rw [heq]
      exact hP.complete g i op op' hop hne hadapt hk ⟨ec', hp⟩ h
  · rw [heq]
    obtain ⟨g', op', hg', heq', hk, hcases⟩ := runJoin_cases g i op
    rw [heq']
    have hdone : ∀ ec, op'.phase = .done ec → op.kind = .join ∧ ec = .success := by
      intro ec hec
      refine ⟨hjoin, ?_⟩
      rcases hcases with ⟨hp, -⟩ | hp | ⟨hp, -⟩
      · cases hp.symm.trans hec
      · cases hp.symm.trans hec
      · cases hp.symm.trans hec
        rfl
    rcases hg' with rfl | rfl
    · exact hP.setOp _ i op op' hop hne hk hdone h
    · exact hP.setOp _ i op op' hop hne hk hdone (hP.emit g h)

theorem KeptByActions.step (hP : KeptByActions P) (h : P g) (a : Action)
    (hdestroy : ∀ k, a ≠ .destroyRemover k) : P (g.step a) := by
  cases a with
  | asyncAdapt => exact hP.toKeptByRuns.runOp (hP.start g .adapt h) _
  | asyncJoin => exact hP.toKeptByRuns.runOp (hP.start g .join h) _
  | run i => exact hP.toKeptByRuns.runOp h i
  | cancel i =>
    simp only [Group.step]
    split
    · next op hop =>
      split
      · exact h
      · next hne =>
        have hwake : ({ op with cancelled := true } : Op).wake.kind = op.kind ∧
            ∀ ec, ({ op with cancelled := true } : Op).wake.phase ≠ .done ec := by
          unfold Op.wake
          split
          · exact ⟨rfl, fun ec h => (by cases h)⟩
          · exact ⟨rfl, hne⟩
        exact hP.setOp g i op _ hop hne hwake.1 (fun ec hec => absurd hec (hwake.2 ec)) h
    · exact h
  | moveRemover k =>
    simp only [Group.step]
    split
    · next r hr => exact hP.moveRemover g k r hr h
    · exact h
  | destroyRemover k => exact absurd rfl (hdestroy k)
  | close => exact hP.cvCancel _ (hP.closed g h)
  | emit => exact hP.emit g h

/-- A property that does not depend on what the destruction of a remover changes either. -/
theorem KeptByActions.step_all (hP : KeptByActions P)
    (hdestroy : ∀ (g : Group) (k : Nat) (css erased : List Entry), P g →
      P { g with removers := g.removers.eraseIdx k, css, erased }) (h : P g) (a : Action) :
    P (g.step a) := by
  by_cases hk : ∃ k, a = .destroyRemover k
  · obtain ⟨k, rfl⟩ := hk
    simp only [Group.step, Group.destroy]
    split
    · split
      · exact hP.cvCancel _ (hdestroy g k _ _ h)
      · exact hdestroy g k _ _ h
    · exact h
  · exact hP.step h a fun k hak => hk ⟨k, hak⟩

/-! ## Kinds -/

theorem kinds_setOp {i : Nat} {op op' : Op} (hop : g.ops[i]? = some op) (hk : op'.kind = op.kind) :
    (g.setOp i op').kinds = g.kinds := by
  have hget : g.kinds[i]? = some op'.kind := by
    rw [Group.kinds, List.getElem?_map, hop, Option.map_some, hk]
  obtain ⟨hi, hget⟩ := List.getElem?_eq_some_iff.1 hget
  rw [Group.kinds, Group.setOp, List.map_set, ← hget]
  exact List.set_getElem_self hi

theorem kinds_runOp (g : Group) (i : Nat) : (g.runOp i).kinds = g.kinds := by
  refine KeptByRuns.runOp (P := fun g' => g'.kinds = g.kinds) ⟨?_, ?_, fun _ h => h⟩ rfl i
  · intro g' i op op' hop _ hk _ h
    exact (kinds_setOp hop hk).trans h
  · intro g' i op op' hop _ _ hk _ h
    exact (kinds_setOp (g := g'.adaptor i) hop hk).trans h

theorem kinds_start (g : Group) (kind : Kind) : (g.start kind).kinds = g.kinds ++ [kind] :=
  List.map_append

/-- The operation that an action starts. -/
def Action.starts : Action → List Kind
  | .asyncAdapt => [.adapt]
  | .asyncJoin => [.join]
  | _ => []

theorem kinds_cvCancel (g : Group) : g.cvCancel.kinds = g.kinds := by
  simp only [Group.kinds, Group.cvCancel, List.map_map]
  refine List.map_congr_left fun op _ => ?_
  simp only [Function.comp, Op.wake]
  split <;> rfl

/-- An action leaves the kinds of the operations as they are, but for the one that it starts. -/
theorem kinds_step (g : Group) (a : Action) : (g.step a).kinds = g.kinds ++ a.starts := by
  cases a with
  | asyncAdapt => exact (kinds_runOp _ _).trans (kinds_start g .adapt)
  | asyncJoin => exact (kinds_runOp _ _).trans (kinds_start g .join)
  | run i => exact (kinds_runOp g i).trans (List.append_nil _).symm
  | cancel i =>
    refine .trans ?_ (List.append_nil _).symm
    simp only [Group.step]
    split
    · next op hop =>
      split
      · rfl
      · refine kinds_setOp hop ?_
        simp only [Op.wake]
        split <;> rfl
    · rfl
  | moveRemover k =>
    refine .trans ?_ (List.append_nil _).symm
    simp only [Group.step]
    split <;> rfl
  | destroyRemover k =>
    refine .trans ?_ (List.append_nil _).symm
    simp only [Group.step, Group.destroy]
    split
    · split
      · exact kinds_cvCancel _
      · rfl
    · rfl
  | close => exact (kinds_cvCancel _).trans (List.append_nil _).symm
  | emit => exact (List.append_nil _).symm

/-! ## Owners -/

/-- What `g` keeps of `g₀`: operations that are done, and a remover with its `tg_` for every
`async_adapt` that is done and not in `R`. -/
structure Retained (R : Nat → Prop) (g₀ g : Group) : Prop where
  done : ∀ (i : Nat) (op : Op) (ec : Ec), g₀.ops[i]? = some op → op.phase = .done ec →
    g.ops[i]? = some op
  owned : ∀ (i : Nat) (op : Op) (ec : Ec), g.ops[i]? = some op → op.kind = .adapt →
    op.phase = .done ec → ¬ R i → g.alive i = true

variable {R : Nat → Prop} {g₀ : Group}

theorem alive_iff {i : Nat} :
    g.alive i = true ↔ ∃ r ∈ g.removers, r.tg = true ∧ r.entry.op = i := by
  simp [Group.alive]

theorem Retained.setOp {i : Nat} {op op' : Op} (h : Retained R g₀ g) (hop : g.ops[i]? = some op)
    (hne : ∀ ec, op.phase ≠ .done ec) (hnew : op'.kind = .adapt → ∀ ec, op'.phase = .done ec →
      ¬ R i → g.alive i = true) : Retained R g₀ (g.setOp i op') := by
  constructor
  · intro j opj ec hj hec
    have hij : i ≠ j := by
      rintro rfl
      have := h.done i opj ec hj hec
      cases hop.symm.trans this
      exact hne ec hec
    rw [Group.setOp, List.getElem?_set_ne hij]
    exact h.done j opj ec hj hec
  · intro j opj ec hj hk hec hR
    rw [Group.setOp, List.getElem?_set] at hj
    split at hj
    · next hij =>
      subst hij
      split at hj
      · cases hj
        exact hnew hk ec hec hR
      · cases hj
    · exact h.owned j opj ec hj hk hec hR

/-- Operations that are done, and their removers, are kept. -/
theorem keptByActions_retained (R : Nat → Prop) (g₀ : Group) : KeptByActions (Retained R g₀) where
  setOp g i op op' hop hne hk hdone h := by
    refine h.setOp hop hne fun hadapt ec hec => ?_
    cases (hk.symm.trans hadapt).symm.trans (hdone ec hec).1
  complete g i op op' hop hne _ _ _ h := by
    have hg : Retained R g₀ (g.adaptor i) := by
      refine ⟨h.done, ?_⟩
      intro j opj ec hj hk hec hR
      obtain ⟨r, hr, hrj⟩ := alive_iff.1 (h.owned j opj ec hj hk hec hR)
      exact alive_iff.2 ⟨r, List.mem_append_left _ hr, hrj⟩
    refine hg.setOp hop hne fun _ _ _ _ => ?_
    exact alive_iff.2 ⟨⟨true, ⟨g.made.length, i⟩⟩, by simp [Group.adaptor], rfl, rfl⟩
  emit g h := ⟨h.done, h.owned⟩
  start g kind h := by
    constructor
    · intro i op ec hop hec
      have hi := h.done i op ec hop hec
      rw [Group.start, List.getElem?_append_left (List.getElem?_eq_some_iff.1 hi).1]
      exact hi
    · intro i op ec hop hk hec hR
      rcases Nat.lt_or_ge i g.ops.length with hi | hi
      · rw [Group.start, List.getElem?_append_left hi] at hop
        exact h.owned i op ec hop hk hec hR
      · rw [Group.start, List.getElem?_append_right hi] at hop
        cases hj : i - g.ops.length with
        | zero =>
          rw [hj] at hop
          cases hop
          cases hec
        | succ j =>
          rw [hj] at hop
          cases hop
  cvCancel g h := by
    constructor
    · intro i op ec hop hec
      rw [Group.cvCancel, List.getElem?_map, h.done i op ec hop hec, Option.map_some, Op.wake,
        if_neg (by rw [hec]; intro h; cases h)]
    · intro i op ec hop hk hec hR
      rw [Group.cvCancel, List.getElem?_map] at hop
      obtain ⟨op₀, hop₀, rfl⟩ := Option.map_eq_some_iff.1 hop
      unfold Op.wake at hk hec
      split at hec
      · cases hec
      · next hp =>
        rw [if_neg hp] at hk
        exact h.owned i op₀ ec hop₀ hk hec hR
  closed g h := ⟨h.done, h.owned⟩
  moveRemover g k r hr h := by
    refine ⟨h.done, ?_⟩
    intro i op ec hop hk hec hR
    obtain ⟨r', hr', htg, hi⟩ := alive_iff.1 (h.owned i op ec hop hk hec hR)
    obtain ⟨j, hj, hget⟩ := List.getElem_of_mem hr'
    by_cases hjk : j = k
    · -- the remover that was moved is the new one
      subst hjk
      rw [List.getElem?_eq_getElem hj, hget] at hr
      cases hr
      exact alive_iff.2 ⟨_, List.mem_append_right _ List.mem_cons_self, htg, hi⟩
    · refine alive_iff.2 ⟨r', List.mem_append_left _ ?_, htg, hi⟩
      refine List.mem_of_getElem? (i := j) ?_
      rw [List.getElem?_set_ne (Ne.symm hjk), List.getElem?_eq_getElem hj, hget]

/-- A remover may be destroyed if it was moved from or its operation is in `R`. -/
theorem Retained.destroyRemover {k : Nat} {r : Remover} (h : Retained R g₀ g)
    (hr : g.removers[k]? = some r) (hR : r.tg = true → R r.entry.op) :
    Retained R g₀ (g.step (.destroyRemover k)) := by
  have herase : Retained R g₀ { g with removers := g.removers.eraseIdx k } := by
    refine ⟨h.done, ?_⟩
    intro i op ec hop hk hec hi
    obtain ⟨r', hr', htg, hri⟩ := alive_iff.1 (h.owned i op ec hop hk hec hi)
    obtain ⟨j, hj, hget⟩ := List.getElem_of_mem hr'
    have hjk : j ≠ k := by
      rintro rfl
      rw [List.getElem?_eq_getElem hj, hget] at hr
      cases hr
      exact hi (hri ▸ hR htg)
    refine alive_iff.2 ⟨r', ?_, htg, hri⟩
    refine List.mem_eraseIdx_iff_getElem?.2 ⟨j, hjk, ?_⟩
    rw [List.getElem?_eq_getElem hj, hget]
  simp only [Group.step, hr, Group.destroy]
  split
  · exact (keptByActions_retained R g₀).cvCancel _ ⟨herase.done, herase.owned⟩
  · exact herase

/-- The entries of `css_` are those of `async_adapt`s, and an `async_join` has no error. -/
structure Kinds (g : Group) : Prop where
  adapt : ∀ e ∈ g.made, g.kinds[e.op]? = some .adapt
  join : ∀ op ∈ g.ops, op.kind = .join → ∀ ec, op.phase = .done ec → ec = .success

theorem keptByActions_kinds : KeptByActions Kinds where
  setOp g i op op' hop _ hk hdone h := by
    refine ⟨fun e he => ?_, fun opj hmem hjoin ec hec => ?_⟩
    · rw [kinds_setOp hop hk]
      exact h.adapt e he
    · rcases List.mem_or_eq_of_mem_set hmem with hmem | rfl
      · exact h.join opj hmem hjoin ec hec
      · exact (hdone ec hec).2
  complete g i op op' hop _ hadapt hk _ h := by
    have hkind : g.kinds[i]? = some .adapt := by
      rw [Group.kinds, List.getElem?_map, hop, Option.map_some, hadapt]
    refine ⟨fun e he => ?_, fun opj hmem hjoin ec hec => ?_⟩
    · rw [kinds_setOp (g := g.adaptor i) hop hk]
      rcases List.mem_append.1 he with he | he
      · exact h.adapt e he
      · cases List.mem_singleton.1 he
        exact hkind
    · rcases List.mem_or_eq_of_mem_set hmem with hmem | rfl
      · exact h.join opj hmem hjoin ec hec
      · cases (hk.trans hadapt).symm.trans hjoin
  emit g h := ⟨h.adapt, h.join⟩
  start g kind h := by
    refine ⟨fun e he => ?_, fun op hmem hjoin ec hec => ?_⟩
    · have hkind := h.adapt e he
      rw [kinds_start, List.getElem?_append_left (List.getElem?_eq_some_iff.1 hkind).1]
      exact hkind
    · rcases List.mem_append.1 hmem with hmem | hmem
      · exact h.join op hmem hjoin ec hec
      · cases List.mem_singleton.1 hmem
        cases hec
  cvCancel g h := by
    refine ⟨fun e he => ?_, fun op hmem hjoin ec hec => ?_⟩
    · rw [kinds_cvCancel]
      exact h.adapt e he
    · obtain ⟨op, hop, rfl⟩ := List.mem_map.1 hmem
      unfold Op.wake at hjoin hec
      split at hec
      · cases hec
      · next hp =>
        rw [if_neg hp] at hjoin
        exact h.join op hop hjoin ec hec
  closed g h := ⟨h.adapt, h.join⟩
  moveRemover g k r hr h := ⟨h.adapt, h.join⟩

theorem Kinds.step (h : Kinds g) (a : Action) : Kinds (g.step a) :=
  keptByActions_kinds.step_all (fun _ _ _ _ h => ⟨h.adapt, h.join⟩) h a

/-! ## Entries -/

/-- An `async_adapt` that is done. -/
def Op.adapted (op : Op) : Bool :=
  match op.kind, op.phase with
  | .adapt, .done _ => true
  | _, _ => false

/-- Every `async_adapt` that is done has emplaced one entry, and all removers are of these. -/
structure Entered (g : Group) : Prop where
  made : g.made.length = g.ops.countP Op.adapted
  removers : ∀ r ∈ g.removers, r.entry ∈ g.made

theorem Op.adapted_eq_false {op : Op} (h : ∀ ec, op.phase = .done ec → op.kind = .join) :
    op.adapted = false := by
  obtain ⟨kind, scheduled, cancelled, phase⟩ := op
  cases kind with
  | join => rfl
  | adapt =>
    cases phase with
    | queued | parked => rfl
    | done ec => cases h ec rfl

theorem Op.adapted_wake (op : Op) : op.wake.adapted = op.adapted := by
  unfold Op.wake
  split
  · next hp =>
    rw [Op.adapted_eq_false, Op.adapted_eq_false]
    · intro ec hec
      cases hp.symm.trans hec
    · intro ec hec
      cases hec
  · rfl

/-- The operations that are done after one that was not is set. -/
theorem countP_adapted_setOp {i : Nat} {op op' : Op} (hop : g.ops[i]? = some op)
    (hne : ∀ ec, op.phase ≠ .done ec) :
    (g.setOp i op').ops.countP Op.adapted =
      g.ops.countP Op.adapted + if op'.adapted then 1 else 0 := by
  obtain ⟨hi, hget⟩ := List.getElem?_eq_some_iff.1 hop
  have hnot : op.adapted = false := Op.adapted_eq_false fun ec hec => absurd hec (hne ec)
  rw [Group.setOp, List.countP_set hi, hget, hnot, if_neg Bool.false_ne_true, Nat.sub_zero]

theorem keptByActions_entered : KeptByActions Entered where
  setOp g i op op' hop hne hk hdone h := by
    have hnot : op'.adapted = false := Op.adapted_eq_false fun ec hec => hk.trans (hdone ec hec).1
    refine ⟨?_, h.removers⟩
    rw [countP_adapted_setOp hop hne, hnot]
    exact h.made
  complete g i op op' hop hne hadapt hk hdone h := by
    obtain ⟨ec, hec⟩ := hdone
    have hyes : op'.adapted = true := by rw [Op.adapted, hk.trans hadapt, hec]
    refine ⟨?_, fun r hr => ?_⟩
    · rw [countP_adapted_setOp (g := g.adaptor i) hop hne, hyes, if_pos rfl]
      show (g.made ++ [_]).length = _
      rw [List.length_append, h.made]
      rfl
    · rcases List.mem_append.1 hr with hr | hr
      · exact List.mem_append_left _ (h.removers r hr)
      · cases List.mem_singleton.1 hr
        exact List.mem_append_right _ List.mem_cons_self
  emit g h := ⟨h.made, h.removers⟩
  start g kind h := by
    refine ⟨?_, h.removers⟩
    rw [Group.start, List.countP_append, List.countP_singleton, Op.adapted_eq_false]
    · exact h.made
    · intro ec hec
      cases hec
  cvCancel g h := by
    refine ⟨?_, h.removers⟩
    rw [Group.cvCancel, List.countP_map]
    exact h.made.trans (List.countP_congr fun op _ => by rw [Function.comp_apply, Op.adapted_wake])
  closed g h := ⟨h.made, h.removers⟩
  moveRemover g k r hr h := by
    refine ⟨h.made, fun r' hr' => ?_⟩
    have hold := h.removers r (List.mem_of_getElem? hr)
    rcases List.mem_append.1 hr' with hr' | hr'
    · rcases List.mem_or_eq_of_mem_set hr' with hr' | rfl
      · exact h.removers r' hr'
      · exact hold
    · cases List.mem_singleton.1 hr'
      exact hold

theorem Entered.step (g : Group) (a : Action) (h : Entered g) : Entered (g.step a) :=
  keptByActions_entered.step_all
    (fun _ _ _ _ h => ⟨h.made, fun r hr => h.removers r (List.mem_of_mem_eraseIdx hr)⟩) h a

/-- There are no more entries than `async_adapt`s. -/
theorem Entered.le (h : Entered g) : g.made.length ≤ g.kinds.count .adapt := by
  rw [h.made, Group.kinds, List.count, List.countP_map]
  refine List.countP_mono_left fun op _ hop => ?_
  unfold Op.adapted at hop
  split at hop
  · next hk _ => exact beq_iff_eq.2 hk
  · cases hop

/-- Entries that were emplaced are never forgotten. -/
theorem length_made_step (g : Group) (a : Action) : g.made.length ≤ (g.step a).made.length := by
  have hkept : KeptByActions fun g' => g.made.length ≤ g'.made.length :=
    { setOp := fun _ _ _ _ _ _ _ _ h => h
      complete := fun g' i _ _ _ _ _ _ _ h => by
        show g.made.length ≤ (g'.made ++ [_]).length
        rw [List.length_append]
        exact Nat.le_add_right_of_le h
      emit := fun _ h => h
      start := fun _ _ h => h
      cvCancel := fun _ h => h
      closed := fun _ h => h
      moveRemover := fun _ _ _ _ h => h }
  exact hkept.step_all (fun _ _ _ _ h => h) (Nat.le_refl _) a

/-! ## Undisturbed groups -/

/-- An operation that was not cancelled and has no error. -/
structure Op.Fine (op : Op) : Prop where
  cancelled : op.cancelled = false
  queued : ∀ ec, op.phase = .queued ec → ec = .success ∨ ec = .operationAborted
  done : ∀ ec, op.phase = .done ec → ec = .success

theorem Op.fine_of {kind : Kind} {scheduled : Bool} {phase : Phase}
    (hp : phase = .parked ∨ phase = .queued .success ∨ phase = .done .success) :
    Op.Fine ⟨kind, scheduled, false, phase⟩ := by
  rcases hp with rfl | rfl | rfl
  · refine ⟨rfl, fun ec hec => ?_, fun ec hec => ?_⟩
    · cases hec
    · cases hec
  · refine ⟨rfl, fun ec hec => ?_, fun ec hec => ?_⟩
    · cases hec
      exact .inl rfl
    · cases hec
  · refine ⟨rfl, fun ec hec => ?_, fun ec hec => ?_⟩
    · cases hec
    · cases hec
      rfl

/-- A group of a limit that was not closed, and no operation of which was cancelled. -/
structure Undisturbed (m : Nat) (g : Group) : Prop where
  max : g.max = m
  fine : ∀ op ∈ g.ops, op.Fine

variable {m : Nat}

theorem Undisturbed.setOp (h : Undisturbed m g) {op' : Op} (hop : op'.Fine) (i : Nat) :
    Undisturbed m (g.setOp i op') := by
  refine ⟨h.max, fun op hmem => ?_⟩
  rcases List.mem_or_eq_of_mem_set hmem with hmem | rfl
  · exact h.fine op hmem
  · exact hop

theorem Undisturbed.cvCancel (h : Undisturbed m g) : Undisturbed m g.cvCancel := by
  refine ⟨h.max, fun op hmem => ?_⟩
  obtain ⟨op, hop, rfl⟩ := List.mem_map.1 hmem
  have hfine := h.fine op hop
  unfold Op.wake
  split
  · refine ⟨hfine.cancelled, fun ec hec => ?_, fun ec hec => ?_⟩
    · cases hec
      exact .inr rfl
    · cases hec
  · exact hfine

theorem Undisturbed.start (h : Undisturbed m g) (kind : Kind) : Undisturbed m (g.start kind) := by
  refine ⟨h.max, fun op hmem => ?_⟩
  rcases List.mem_append.1 hmem with hmem | hmem
  · exact h.fine op hmem
  · cases List.mem_singleton.1 hmem
    exact Op.fine_of (.inr (.inl rfl))

theorem Op.Fine.reset {op : Op} (h : op.Fine) : op.reset.cancelled = false := by
  unfold Op.reset
  split
  · exact h.cancelled
  · rfl

/-- A handler of an undisturbed group goes on without an error. -/
theorem adaptEc_fine {ec : Ec} (hm : 0 < m) (hec : ec = .success ∨ ec = .operationAborted) :
    adaptEc m false ec = .success := by
  rcases hec with rfl | rfl
  · simp [adaptEc, Nat.ne_of_gt hm]
  · simp [adaptEc, Nat.ne_of_gt hm]

theorem Undisturbed.runOp (h : Undisturbed m g) (hm : 0 < m) (i : Nat) :
    Undisturbed m (g.runOp i) := by
  rcases runOp_cases g i with heq | ⟨op, ec, hop, hq, ⟨-, heq⟩ | ⟨-, heq⟩⟩
  · rw [heq]
    exact h
  · have hopf := h.fine op (List.mem_of_getElem? hop)
    have hec := adaptEc_fine (m := g.max) (h.max ▸ hm) (hopf.queued ec hq)
    rw [heq]
    simp only [Group.runAdapt, hopf.reset, hec]
    split
    · exact h.setOp (Op.fine_of (.inl rfl)) i
    · split
      · exact h.setOp (Op.fine_of (.inr (.inl rfl))) i
      · exact Undisturbed.setOp (g := g.adaptor i) ⟨h.max, h.fine⟩
          (Op.fine_of (.inr (.inr rfl))) i
  · have hopf := h.fine op (List.mem_of_getElem? hop)
    rw [heq]
    simp only [Group.runJoin, hopf.reset, Bool.false_eq_true, if_false]
    split
    · exact h.setOp (Op.fine_of (.inl rfl)) i
    · split
      · exact h.setOp (Op.fine_of (.inr (.inl rfl))) i
      · exact h.setOp (Op.fine_of (.inr (.inr rfl))) i

/-- An action that disturbs a group. -/
def Action.disturbs : Action → Bool
  | .cancel _ | .close => true
  | _ => false

/-- Only a cancellation and `close` disturb a group. -/
theorem Undisturbed.step (h : Undisturbed m g) (hm : 0 < m) {a : Action}
    (ha : a.disturbs = false) : Undisturbed m (g.step a) := by
  cases a with
  | asyncAdapt => exact (h.start .adapt).runOp hm _
  | asyncJoin => exact (h.start .join).runOp hm _
  | run i => exact h.runOp hm i
  | cancel i => cases ha
  | moveRemover k =>
    simp only [Group.step]
    split
    · exact ⟨h.max, h.fine⟩
    · exact h
  | destroyRemover k =>
    simp only [Group.step, Group.destroy]
    split
    · split
      · exact Undisturbed.cvCancel ⟨h.max, h.fine⟩
      · exact ⟨h.max, h.fine⟩
    · exact h
  | close => cases ha
  | emit => exact ⟨h.max, h.fine⟩

end Beast2.Burl.TaskGroup
