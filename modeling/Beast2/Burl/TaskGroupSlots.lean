import Beast2.Burl.TaskGroup
import Mathlib.Data.List.Nodup
import Mathlib.Data.List.Perm.Subperm

/-!
# Slots of the task group

`Slots` says that the removers whose `tg_` is set are those of the entries of `css_`, one each, and
that the entries of admitted tasks never exceed the limit. It holds after every sequence of actions:
an `async_adapt` completes without an error only in the run of its handler that found `css_` smaller
than `max_`, and the same run emplaces its entry. A failed `async_adapt` emplaces an entry too,
however full the group is, so `css_` itself may exceed the limit.
-/

namespace Beast2.Burl.TaskGroup

/-- The entries and removers of a group of limit `m`. -/
structure Slots (m : Nat) (g : Group) : Prop where
  max_le : g.max ≤ m
  live : ((g.removers.filter (·.tg)).map (·.entry)).Perm g.css
  made : g.made.Perm (g.css ++ g.erased)
  nodes : g.made.map (·.node) = List.range g.made.length
  owners : ∀ e ∈ g.made, ∃ op ec, g.ops[e.op]? = some op ∧ op.phase = .done ec
  admitted : (g.css.filter fun e => g.admitted e.op).length ≤ m

section
variable {m : Nat} {g : Group}

theorem Slots.init (m : Nat) : Slots m (Group.init m) where
  max_le := Nat.le_refl m
  live := .refl _
  made := .refl _
  nodes := rfl
  owners _ he := absurd he List.not_mem_nil
  admitted := Nat.zero_le m

theorem Slots.mem_made (h : Slots m g) {e : Entry} (he : e ∈ g.css) : e ∈ g.made :=
  h.made.mem_iff.2 (List.mem_append_left _ he)

/-- No two entries that were ever emplaced are the same node. -/
theorem Slots.nodup_made (h : Slots m g) : ((g.css ++ g.erased).map (·.node)).Nodup := by
  refine (h.made.map _).nodup_iff.1 ?_
  rw [h.nodes]
  exact List.nodup_range

/-- An entry is in `css_` as long as a remover of it has its `tg_`. -/
theorem Slots.mem_css (h : Slots m g) {r : Remover} (hr : r ∈ g.removers) (htg : r.tg = true) :
    r.entry ∈ g.css :=
  h.live.mem_iff.1 (List.mem_map_of_mem (List.mem_filter.2 ⟨hr, htg⟩))

/-! ## What keeps `Slots` -/

/-- Operations may change as long as those that are done stay. -/
theorem Slots.ops (h : Slots m g) {ops : List Op}
    (hdone : ∀ (i : Nat) (op : Op) (ec : Ec), g.ops[i]? = some op → op.phase = .done ec →
      ops[i]? = some op) :
    Slots m { g with ops := ops } := by
  refine ⟨h.max_le, h.live, h.made, h.nodes, ?_, ?_⟩
  · intro e he
    obtain ⟨op, ec, hop, hec⟩ := h.owners e he
    exact ⟨op, ec, hdone _ _ _ hop hec, hec⟩
  · refine Nat.le_trans (Nat.le_of_eq (congrArg List.length (List.filter_congr ?_))) h.admitted
    intro e he
    obtain ⟨op, ec, hop, hec⟩ := h.owners e (h.mem_made he)
    simp only [Group.admitted, Group.completed, hop, hdone _ _ _ hop hec]

theorem Slots.cvCancel (h : Slots m g) : Slots m g.cvCancel := by
  apply h.ops
  intro i op ec hop hec
  rw [List.getElem?_map, hop, Option.map_some, Op.wake, if_neg (by rw [hec]; exact nofun)]

theorem Slots.setOp (h : Slots m g) {i : Nat} {op : Op} (hop : g.ops[i]? = some op)
    (hne : ∀ ec, op.phase ≠ .done ec) (op' : Op) : Slots m (g.setOp i op') := by
  apply h.ops
  intro j opj ec hj hec
  have hij : i ≠ j := by
    rintro rfl
    cases hop.symm.trans hj
    exact hne ec hec
  rw [List.getElem?_set_ne hij, hj]

theorem Slots.emit (h : Slots m g) : Slots m g.emit :=
  ⟨h.max_le, h.live, h.made, h.nodes, h.owners, h.admitted⟩

theorem Slots.start (h : Slots m g) (kind : Kind) : Slots m (g.start kind) := by
  apply h.ops
  intro i op ec hop _
  rw [List.getElem?_append_left (List.getElem?_eq_some_iff.1 hop).1, hop]

/-- Only the removers change, and those with a `tg_` are the same. -/
theorem Slots.removers (h : Slots m g) {removers : List Remover}
    (hperm : (removers.filter (·.tg)).Perm (g.removers.filter (·.tg))) :
    Slots m { g with removers := removers } :=
  ⟨h.max_le, (hperm.map _).trans h.live, h.made, h.nodes, h.owners, h.admitted⟩

/-- An operation that completes emplaces its entry; without an error it does so only in a group that
is not full. -/
theorem Slots.complete (h : Slots m g) {i : Nat} {op op' : Op} {ec : Ec}
    (hop : g.ops[i]? = some op) (hne : ∀ ec, op.phase ≠ .done ec) (hec : op'.phase = .done ec)
    (hfree : ec = .success → g.css.length < g.max) : Slots m ((g.adaptor i).setOp i op') := by
  have hi : i < g.ops.length := (List.getElem?_eq_some_iff.1 hop).1
  have hset := h.setOp hop hne op'
  refine ⟨h.max_le, ?_, ?_, ?_, ?_, ?_⟩
  · simpa [Group.adaptor, Group.setOp] using h.live.append_right _
  · have hmade := h.made.append_right [(⟨g.made.length, i⟩ : Entry)]
    refine hmade.trans ?_
    simp only [Group.adaptor, Group.setOp, List.append_assoc]
    exact List.perm_append_comm.append_left _
  · simp [Group.adaptor, Group.setOp, h.nodes, List.range_succ]
  · intro e he
    rcases List.mem_append.1 he with he | he
    · exact hset.owners e he
    · cases List.mem_singleton.1 he
      exact ⟨op', ec, List.getElem?_set_self hi, hec⟩
  · have hfilter : (((g.adaptor i).setOp i op').css.filter
        fun e => ((g.adaptor i).setOp i op').admitted e.op) =
        (g.css.filter fun e => (g.setOp i op').admitted e.op) ++
          [(⟨g.made.length, i⟩ : Entry)].filter fun e => (g.setOp i op').admitted e.op :=
      List.filter_append _ _
    rw [hfilter, List.length_append]
    by_cases hs : ec = .success
    · have hcss : (g.css.filter fun e => (g.setOp i op').admitted e.op).length ≤ g.css.length :=
        List.length_filter_le _ _
      have hnew : ([(⟨g.made.length, i⟩ : Entry)].filter
          fun e => (g.setOp i op').admitted e.op).length ≤ 1 := List.length_filter_le _ _
      have hlen := hfree hs
      have hmax := h.max_le
      omega
    · have hnot : (g.setOp i op').admitted i = false := by
        simp [Group.admitted, Group.completed, Group.setOp, List.getElem?_set_self hi, hec, hs]
      simp only [List.filter_cons, hnot]
      exact hset.admitted

/-- The removers with a `tg_`, one of them apart. -/
theorem filter_removers_perm {k : Nat} {r : Remover} (hr : g.removers[k]? = some r) :
    (g.removers.filter (·.tg)).Perm
      ((if r.tg then [r] else []) ++ (g.removers.eraseIdx k).filter (·.tg)) := by
  obtain ⟨hk, hget⟩ := List.getElem?_eq_some_iff.1 hr
  have hperm := (List.getElem_cons_eraseIdx_perm hk).filter (·.tg)
  rw [hget, List.filter_cons] at hperm
  cases htg : r.tg <;> simpa [htg] using hperm.symm

/-- A moved remover has its `tg_` in its place. -/
theorem Slots.moveRemover (h : Slots m g) {k : Nat} {r : Remover} (hr : g.removers[k]? = some r) :
    Slots m { g with removers := g.removers.set k { r with tg := false } ++ [r] } := by
  refine h.removers (.trans ?_ (filter_removers_perm hr).symm)
  have hk := (List.getElem?_eq_some_iff.1 hr).1
  have hset := (List.set_perm_cons_eraseIdx hk { r with tg := false }).filter (·.tg)
  rw [List.filter_cons_of_neg (by simp)] at hset
  rw [List.filter_append]
  refine (hset.append_right _).trans (List.perm_append_comm.trans ?_)
  cases htg : r.tg <;> simp [htg]

/-- A remover with a `tg_` takes its entry off `css_`, and no other. -/
theorem Slots.destroyRemover (h : Slots m g) {k : Nat} {r : Remover}
    (hr : g.removers[k]? = some r) :
    Slots m ({ g with removers := g.removers.eraseIdx k }.destroy r) := by
  have hperm := filter_removers_perm hr
  cases htg : r.tg with
  | false =>
    simp only [Group.destroy, htg, Bool.false_eq_true, if_false]
    rw [htg] at hperm
    exact h.removers hperm.symm
  | true =>
    simp only [Group.destroy, htg, if_true]
    rw [htg] at hperm
    -- `css_` is the entry of `r` and those of the other removers, all of them different nodes
    have hcss : g.css.Perm (r.entry :: ((g.removers.eraseIdx k).filter (·.tg)).map (·.entry)) :=
      (h.live.symm.trans (hperm.map _))
    have hnodup := (hcss.map (·.node)).nodup_iff.1
      (List.Nodup.of_append_left (by simpa using h.nodup_made))
    rw [List.map_cons, List.nodup_cons] at hnodup
    have hrest : (g.css.filter fun e => e.node ≠ r.entry.node).Perm
        (((g.removers.eraseIdx k).filter (·.tg)).map (·.entry)) := by
      refine (hcss.filter _).trans ?_
      rw [List.filter_cons_of_neg (by simp), List.filter_eq_self.2]
      intro e he
      have hmem := List.mem_map_of_mem (f := (·.node)) he
      have hne : e.node ≠ r.entry.node := fun heq => hnodup.1 (heq ▸ hmem)
      simpa using hne
    refine Slots.cvCancel ⟨h.max_le, hrest.symm, ?_, h.nodes, h.owners, ?_⟩
    · refine h.made.trans ((hcss.append_right _).trans ?_)
      refine .trans ?_ ((hrest.symm.append_right _))
      rw [← List.append_assoc]
      exact (List.perm_append_singleton _ _).symm
    · refine Nat.le_trans (List.Sublist.length_le ?_) h.admitted
      exact List.filter_sublist.filter _

theorem Slots.runOp (h : Slots m g) (i : Nat) : Slots m (g.runOp i) := by
  rcases runOp_cases g i with heq | ⟨op, ec, hop, hq, hrun⟩
  · rw [heq]
    exact h
  have hne : ∀ ec, op.phase ≠ .done ec := fun ec => by rw [hq]; exact nofun
  rcases hrun with ⟨-, heq⟩ | ⟨-, heq⟩
  · rw [heq]
    rcases runAdapt_cases g i op ec with
      ⟨op', heq, -⟩ | ⟨op', heq, -⟩ | ⟨op', ec', heq, -, hec, hfree⟩
    · rw [heq]
      exact h.setOp hop hne op'
    · rw [heq]
      exact h.setOp hop hne op'
    · rw [heq]
      exact h.complete hop hne hec hfree
  · rw [heq]
    obtain ⟨g', op', hg', heq, -⟩ := runJoin_cases g i op
    rw [heq]
    rcases hg' with rfl | rfl
    · exact h.setOp hop hne op'
    · exact h.emit.setOp hop hne op'

/-- Every action keeps `Slots`. -/
theorem Slots.step (g : Group) (a : Action) (h : Slots m g) : Slots m (g.step a) := by
  cases a with
  | asyncAdapt => exact (h.start .adapt).runOp _
  | asyncJoin => exact (h.start .join).runOp _
  | run i => exact h.runOp i
  | cancel i =>
    simp only [Group.step]
    split
    · next op hop =>
      split
      · exact h
      · next hne => exact h.setOp hop hne _
    · exact h
  | moveRemover k =>
    simp only [Group.step]
    split
    · next r hr => exact h.moveRemover hr
    · exact h
  | destroyRemover k =>
    simp only [Group.step]
    split
    · next r hr => exact h.destroyRemover hr
    · exact h
  | close => exact Slots.cvCancel ⟨Nat.zero_le m, h.live, h.made, h.nodes, h.owners, h.admitted⟩
  | emit => exact h.emit

/-- The admitted tasks that are alive have an entry each. -/
theorem Slots.admittedAlive_le (h : Slots m g) : g.admittedAlive.length ≤ m := by
  have hsub : g.admittedAlive ⊆ (g.css.filter fun e => g.admitted e.op).map (·.op) := by
    intro i hi
    obtain ⟨-, hi⟩ := List.mem_filter.1 hi
    obtain ⟨hadm, halive⟩ := Bool.and_eq_true_iff.1 hi
    obtain ⟨r, hr, hri⟩ := List.any_eq_true.1 halive
    obtain ⟨htg, hop⟩ := Bool.and_eq_true_iff.1 hri
    cases beq_iff_eq.1 hop
    exact List.mem_map_of_mem (List.mem_filter.2 ⟨h.mem_css hr htg, hadm⟩)
  have hle := ((List.nodup_range.filter _).subperm hsub).length_le
  rw [List.length_map] at hle
  exact Nat.le_trans hle h.admitted

/-- An empty `css_` has no task alive. -/
theorem Slots.admittedAlive_eq_nil (h : Slots m g) (hcss : g.css = []) : g.admittedAlive = [] := by
  apply List.filter_eq_nil_iff.2
  intro i _ hi
  obtain ⟨-, halive⟩ := Bool.and_eq_true_iff.1 hi
  obtain ⟨r, hr, hri⟩ := List.any_eq_true.1 halive
  have hmem := h.mem_css hr (Bool.and_eq_true_iff.1 hri).1
  rw [hcss] at hmem
  exact List.not_mem_nil hmem

/-! ## When operations complete -/

theorem completed_setOp {i j : Nat} {op' : Op} {kind : Kind}
    (h : (g.setOp i op').completed kind j = true) :
    g.completed kind j = true ∨ op'.kind = kind ∧ op'.phase = .done .success := by
  unfold Group.completed Group.setOp at h
  rw [List.getElem?_set] at h
  split at h
  · split at h
    · exact .inr (by simpa using h)
    · cases h
  · exact .inl h

theorem completed_cvCancel {i : Nat} {kind : Kind} (h : g.cvCancel.completed kind i = true) :
    g.completed kind i = true := by
  unfold Group.completed Group.cvCancel at h
  rw [List.getElem?_map] at h
  unfold Group.completed
  cases hop : g.ops[i]? with
  | none => rw [hop] at h; cases h
  | some op =>
    rw [hop] at h
    by_cases hp : op.phase = .parked
    · simp [Op.wake, hp] at h
    · simpa [Op.wake, hp] using h

theorem completed_start {i : Nat} {kind kind' : Kind}
    (h : (g.start kind').completed kind i = true) : g.completed kind i = true := by
  unfold Group.completed Group.start at h
  unfold Group.completed
  rcases Nat.lt_or_ge i g.ops.length with hi | hi
  · rwa [List.getElem?_append_left hi] at h
  · rw [List.getElem?_append_right hi] at h
    cases hj : i - g.ops.length with
    | zero => simp [hj] at h
    | succ j => simp [hj] at h

/-- An `async_adapt` completes without an error only on a group that is not full, an `async_join`
only on an empty one. -/
theorem completed_runOp {i j : Nat} {kind : Kind} (h : (g.runOp j).completed kind i = true) :
    g.completed kind i = true ∨ kind = .adapt ∧ g.css.length < g.max ∨
      kind = .join ∧ (g.runOp j).css = [] := by
  rcases runOp_cases g j with heq | ⟨op, ec, -, -, ⟨hk, heq⟩ | ⟨hk, heq⟩⟩
  · rw [heq] at h
    exact .inl h
  · rw [heq] at h
    rcases runAdapt_cases g j op ec with
      ⟨op', heq, -, hp, -⟩ | ⟨op', heq, -, hp⟩ | ⟨op', ec', heq, hk', hp, hfree⟩
    · rw [heq] at h
      rcases completed_setOp h with h | ⟨-, hdone⟩
      · exact .inl h
      · cases hp.symm.trans hdone
    · rw [heq] at h
      rcases completed_setOp h with h | ⟨-, hdone⟩
      · exact .inl h
      · cases hp.symm.trans hdone
    · rw [heq] at h
      rcases completed_setOp h with h | ⟨hkind, hdone⟩
      · exact .inl h
      · cases hp.symm.trans hdone
        exact .inr (.inl ⟨hkind.symm.trans (hk'.trans hk), hfree rfl⟩)
  · obtain ⟨g', op', hg', heq', hk', hcases⟩ := runJoin_cases g j op
    have hg : g'.completed kind i = g.completed kind i ∧ g'.css = g.css := by
      rcases hg' with rfl | rfl <;> exact ⟨rfl, rfl⟩
    rw [heq, heq'] at h ⊢
    rcases completed_setOp h with h | ⟨hkind, hdone⟩
    · exact .inl (hg.1 ▸ h)
    · rcases hcases with ⟨hp, -⟩ | hp | ⟨-, hcss⟩
      · cases hp.symm.trans hdone
      · cases hp.symm.trans hdone
      · exact .inr (.inr ⟨hkind.symm.trans (hk'.trans hk), hg.2.trans hcss⟩)

/-- An action completes an `async_adapt` without an error only on a group that is not full, and an
`async_join` only on an empty one. -/
theorem completed_step {i : Nat} {kind : Kind} {a : Action}
    (h : (g.step a).completed kind i = true) :
    g.completed kind i = true ∨ kind = .adapt ∧ g.css.length < g.max ∨
      kind = .join ∧ (g.step a).css = [] := by
  cases a with
  | asyncAdapt => exact (completed_runOp h).imp_left completed_start
  | asyncJoin => exact (completed_runOp h).imp_left completed_start
  | run j => exact completed_runOp h
  | cancel j =>
    simp only [Group.step] at h
    split at h
    · split at h
      · exact .inl h
      · next hne =>
        rcases completed_setOp h with h | ⟨-, hdone⟩
        · exact .inl h
        · unfold Op.wake at hdone
          split at hdone
          · cases hdone
          · exact absurd hdone (hne _)
    · exact .inl h
  | moveRemover k =>
    simp only [Group.step] at h
    split at h <;> exact .inl h
  | destroyRemover k =>
    simp only [Group.step, Group.destroy] at h
    split at h
    · split at h
      · exact .inl (completed_cvCancel h)
      · exact .inl h
    · exact .inl h
  | close => exact .inl (completed_cvCancel h)
  | emit => exact .inl h

theorem max_runOp (g : Group) (i : Nat) : (g.runOp i).max = g.max := by
  rcases runOp_cases g i with heq | ⟨op, ec, -, -, ⟨-, heq⟩ | ⟨-, heq⟩⟩
  · rw [heq]
  · rw [heq]
    rcases runAdapt_cases g i op ec with ⟨op', heq, -⟩ | ⟨op', heq, -⟩ | ⟨op', ec', heq, -⟩
    · rw [heq]; rfl
    · rw [heq]; rfl
    · rw [heq]; rfl
  · obtain ⟨g', op', hg', heq', -⟩ := runJoin_cases g i op
    rw [heq, heq']
    rcases hg' with rfl | rfl
    · rfl
    · rfl

/-- A closed group stays closed. -/
theorem max_step (g : Group) (a : Action) (h : g.max = 0) : (g.step a).max = 0 := by
  cases a with
  | asyncAdapt => exact (max_runOp _ _).trans h
  | asyncJoin => exact (max_runOp _ _).trans h
  | run i => exact (max_runOp g i).trans h
  | cancel i =>
    simp only [Group.step]
    split
    · split <;> exact h
    · exact h
  | moveRemover k =>
    simp only [Group.step]
    split <;> exact h
  | destroyRemover k =>
    simp only [Group.step, Group.destroy]
    split
    · split <;> exact h
    · exact h
  | close => rfl
  | emit => exact h

/-- On a closed group no `async_adapt` completes without an error. -/
theorem admitted_of_closed {g₀ : Group} (hmax : g₀.max = 0) (actions : List Action) (i : Nat)
    (h : (g₀.run actions).admitted i = true) : g₀.admitted i = true := by
  have hinv : (g₀.run actions).max = 0 ∧
      ∀ i, (g₀.run actions).admitted i = true → g₀.admitted i = true := by
    refine run_inv (P := fun g => g.max = 0 ∧ ∀ i, g.admitted i = true → g₀.admitted i = true)
      ?_ ⟨hmax, fun _ hi => hi⟩ actions
    intro g a hg
    refine ⟨max_step g a hg.1, ?_⟩
    intro i hi
    rcases completed_step hi with hi | ⟨-, hlt⟩ | ⟨hk, -⟩
    · exact hg.2 i hi
    · rw [hg.1] at hlt
      exact absurd hlt (Nat.not_lt_zero _)
    · cases hk
  exact hinv.2 i h

end

/-- Whatever has happened to a group of limit `m`: at most `m` admitted tasks are alive; once it is
closed, no further `async_adapt` completes without an error; an `async_join` completes only when no
admitted task is alive; no entry is erased twice; each was erased by a remover of the operation it
was made for, and the entry of a remover that would erase it is there. -/
theorem admission_control (m : Nat) (actions : List Action) :
    let g := (Group.init m).run actions
    g.admittedAlive.length ≤ m ∧
    (∀ later i, ((g.step .close).run later).admitted i = true → g.admitted i = true) ∧
    (∀ a i, g.joined i = false → (g.step a).joined i = true → (g.step a).admittedAlive = []) ∧
    (g.erased.map (·.node)).Nodup ∧ (g.made.map (·.node)).Nodup ∧ g.erased ⊆ g.made ∧
    ∀ r ∈ g.removers, r.tg = true → r.entry ∈ g.css := by
  intro g
  have h : Slots m g := run_inv Slots.step (.init m) actions
  have hnodup := h.nodup_made
  rw [List.map_append] at hnodup
  refine ⟨h.admittedAlive_le, ?_, ?_, hnodup.of_append_right, ?_, ?_, ?_⟩
  · intro later i hi
    have hclosed : (g.step .close).admitted i = true := admitted_of_closed rfl later i hi
    exact completed_cvCancel (g := { g with max := 0 }) hclosed
  · intro a i hold hnew
    rcases completed_step hnew with hi | ⟨hk, -⟩ | ⟨-, hcss⟩
    · exact absurd (hold.symm.trans hi) (by decide)
    · cases hk
    · exact (h.step g a).admittedAlive_eq_nil hcss
  · rw [h.nodes]
    exact List.nodup_range
  · intro e he
    exact h.made.mem_iff.2 (List.mem_append_right _ he)
  · intro r hr htg
    exact h.mem_css hr htg

end Beast2.Burl.TaskGroup
