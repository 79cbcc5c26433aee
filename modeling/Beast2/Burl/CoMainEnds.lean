import Beast2.Burl.CoMainRuns

/-!
# How `co_main` ends

A run that nothing disturbs, neither an interruption nor a failed task under `--fail-early`, ends
with a task for every request, in order (`all_requests_started`). When a task fails under
`--fail-early`, every task that runs is signalled, and no task is started but one whose slot was
granted before (`failearly_stops`).

No order of events is a dead end: unless `co_main` has returned, a task runs, or `co_main`, a queued
handler of the group or the destruction of a completion handler is next (`never_stuck`).
-/

namespace Beast2.Burl

open TaskGroup Machine

section
variable {R J : Type} {s s' : CoMain R J}

/-- Whatever happens, at most `parallel_max` tasks run at once, the tasks are the first requests of
`ropt_gen` in their order, and when `co_main` has returned no task runs and the jar was written as
all tasks have left it, if it was to be written. -/
theorem tasks_joined (oc : CoMainConfig) (gen : List (Yield R)) (jar : J)
    (es : List (CoMainEvent J)) (h : run CoMain.step (.start oc gen jar) es = some s) :
    (s.tasks.filter (·.running)).length ≤ oc.parallelMax ∧
    s.tasks.map (fun t => Yield.request t.ropt) <+: gen ∧
    (s.await = .returned → (∀ t ∈ s.tasks, t.running = false) ∧
      s.saved = if oc.cookiejar then some s.jar else none) := by
  have hok := CoMain.ok_run h
  obtain rfl := CoMain.oc_run h
  have horder := CoMain.inOrder_run h
  exact ⟨hok.core.running_le, horder.tasks, fun hret => ⟨hok.joined (.inl hret), hok.jar hret⟩⟩

/-- Two requests one after the other: the second one waits for the slot of the first. -/
def twoRequests : List (CoMainEvent Nat) :=
  [.handler 0, .resume, .store 0 (· + 1), .endTask 0 .returned, .moveRemover 0, .destroyRemover 1,
    .handler 1, .resume, .store 1 (· + 2), .endTask 1 .returned, .destroyRemover 1, .handler 2,
    .resume]

/-- The jar is written when both tasks have ended. -/
theorem tasks_joined_twoRequests :
    ∃ s, run CoMain.step (.start { cookiejar := true } [.request 1, .request 2] 0) twoRequests
        = some s ∧ (s.tasks.filter (·.running)).length ≤ 1 ∧
      s.tasks.map (fun t => Yield.request t.ropt) <+: [.request 1, .request 2] ∧
      (∀ t ∈ s.tasks, t.running = false) ∧ s.saved = some s.jar := by
  have hret : (run CoMain.step (.start { cookiejar := true } [.request 1, .request 2] 0)
      twoRequests).map (·.await) = some .returned := by decide +kernel
  obtain ⟨s, hs, hret⟩ := Option.map_eq_some_iff.1 hret
  have h := tasks_joined { cookiejar := true } [.request 1, .request 2] 0 twoRequests hs
  exact ⟨s, hs, h.1, h.2.1, h.2.2 hret⟩

/-! ## Undisturbed runs -/

/-- An event that disturbs nothing. -/
def CoMainEvent.quiet (oc : CoMainConfig) : CoMainEvent J → Bool
  | .endTask _ ending => ending = .returned || !oc.failearly
  | .interrupt => false
  | _ => true

/-- Nothing was disturbed: the group is open, nothing was thrown or dropped, and `co_main` waits for
its tasks only when there is no request left. -/
structure CoMain.Quiet (gen : List (Yield R)) (oc : CoMainConfig) (s : CoMain R J) : Prop where
  config : s.oc = oc
  group : Undisturbed oc.parallelMax s.group
  cancelled : s.cancelled = false
  ep : s.ep = none
  dropped : s.dropped = []
  atHand : ∀ ropt op, s.await = .adapt ropt op →
    gen = s.tasks.map (fun t => Yield.request t.ropt) ++ .request ropt :: s.gen
  taken : (∀ ropt op, s.await ≠ .adapt ropt op) →
    gen = s.tasks.map (fun t => Yield.request t.ropt)

variable {gen : List (Yield R)} {oc : CoMainConfig}

theorem CoMain.Quiet.next (hm : 0 < oc.parallelMax) (hgen : ∀ y ∈ gen, y ≠ .throws)
    (hoc : s.oc = oc) (hgroup : Undisturbed oc.parallelMax s.group)
    (hcancelled : s.cancelled = false) (hep : s.ep = none) (hdropped : s.dropped = [])
    (h : gen = s.tasks.map (fun t => Yield.request t.ropt) ++ s.gen) : s.next.Quiet gen oc := by
  unfold CoMain.next
  split
  · next hnil =>
    unfold CoMain.leave
    simp only [hcancelled, Bool.false_eq_true, if_false]
    refine ⟨hoc, hgroup.step (a := .asyncJoin) hm rfl, rfl, hep, hdropped,
      fun ropt op hawait => ?_, fun _ => ?_⟩
    · cases hawait
    · rw [h, hnil, List.append_nil]
  · next gen' hthrows =>
    refine absurd rfl (hgen .throws ?_)
    rw [h, hthrows]
    simp
  · next ropt gen' hrequest =>
    simp only [hcancelled, Bool.false_eq_true, if_false]
    refine ⟨hoc, hgroup.step (a := .asyncAdapt) hm rfl, rfl, hep, hdropped,
      fun ropt' op hawait => ?_, fun hne => absurd rfl (hne _ _)⟩
    cases hawait
    rw [h, hrequest]

theorem CoMain.Quiet.step (hm : 0 < oc.parallelMax) (hgen : ∀ y ∈ gen, y ≠ .throws)
    (h : s.Quiet gen oc) {e : CoMainEvent J} (he : e.quiet oc = true) (hs : s.step e = some s') :
    s'.Quiet gen oc := by
  by_cases hne : e = .resume
  · subst hne
    rcases CoMain.resume_cases hs with ⟨ropt, op, hawait, -, rfl⟩ |
      ⟨ropt, op, ec, ep, hawait, hphase, herror, rfl⟩ | ⟨op, hawait, -, rfl⟩
    · refine CoMain.Quiet.next hm hgen h.config h.group h.cancelled h.ep h.dropped ?_
      rw [h.atHand ropt op hawait]
      simp
    · obtain ⟨op', hop, hp⟩ := Option.map_eq_some_iff.1 hphase
      exact absurd ((h.group.fine op' (List.mem_of_getElem? hop)).done ec hp) herror
    · refine ⟨h.config, h.group, h.cancelled, h.ep, h.dropped, fun ropt op hawait => ?_,
        fun _ => ?_⟩
      · cases hawait
      · refine h.taken fun ropt op' hadapt => ?_
        cases hawait.symm.trans hadapt
  · have hsame := CoMain.sameProgram hs hne
    have htasks : s'.tasks.map (fun t => Yield.request t.ropt) =
        s.tasks.map (fun t => Yield.request t.ropt) := by
      have hropts := congrArg (List.map Yield.request) hsame.ropts
      simpa [Function.comp_def] using hropts
    have hgroup : Undisturbed oc.parallelMax s'.group ∧ s'.cancelled = false := by
      rcases CoMain.group_cases hs hne with ⟨hcancelled, heq⟩ | ⟨a, heq, -, hevent⟩ |
        ⟨t, ending, rfl, hthrew, hearly, -⟩
      · exact ⟨heq ▸ h.group, hcancelled.trans h.cancelled⟩
      · rcases hevent with rfl | ⟨ha, hcancelled⟩
        · cases he
        · exact ⟨heq ▸ h.group.step hm ha, hcancelled.trans h.cancelled⟩
      · rw [h.config] at hearly
        simp [CoMainEvent.quiet, hthrew, hearly] at he
    refine ⟨hsame.oc.trans h.config, hgroup.1, hgroup.2, hsame.ep.trans h.ep,
      hsame.dropped.trans h.dropped, fun ropt op hawait => ?_, fun hnone => ?_⟩
    · rw [htasks, hsame.gen]
      exact h.atHand ropt op (hsame.await ▸ hawait)
    · rw [htasks]
      exact h.taken fun ropt op hawait => hnone ropt op (hsame.await ▸ hawait)

/-- When a run that nothing disturbs has returned, there is a task for every request. -/
theorem CoMain.started_of_quiet {ropts : List R} {jar : J} {es : List (CoMainEvent J)}
    (hm : 0 < oc.parallelMax) (hquiet : ∀ e ∈ es, e.quiet oc = true)
    (h : run CoMain.step (.start oc (ropts.map .request) jar) es = some s)
    (hret : s.await = .returned) :
    s.tasks.map (·.ropt) = ropts ∧ (∀ t ∈ s.tasks, t.running = false) ∧ s.ep = none := by
  have hgen : ∀ y ∈ ropts.map Yield.request, y ≠ .throws := by
    intro y hy
    obtain ⟨ropt, -, rfl⟩ := List.mem_map.1 hy
    intro heq
    cases heq
  have hinv : s.Quiet (ropts.map .request) oc := by
    refine run_inv (fun _ e _ hs he hstep => CoMain.Quiet.step hm hgen hs (hquiet e he) hstep) ?_ h
    exact CoMain.Quiet.next hm hgen rfl ⟨rfl, fun op hop => by cases hop⟩ rfl rfl rfl rfl
  refine ⟨?_, (CoMain.ok_run h).joined (.inl hret), hinv.ep⟩
  have htaken := hinv.taken fun ropt op hawait => by cases hret.symm.trans hawait
  have hmap : (s.tasks.map (·.ropt)).map Yield.request = ropts.map Yield.request := by
    simpa [Function.comp_def] using htaken.symm
  exact List.map_injective_iff.2 (fun a b hab => by cases hab; rfl) hmap

/-- In a run that nothing disturbs `co_main` returns only after it has spawned a task for every
request of `ropt_gen`, in their order, and all of them have ended; and it throws nothing. -/
theorem all_requests_started (oc : CoMainConfig) (ropts : List R) (jar : J)
    (es : List (CoMainEvent J)) (hm : 0 < oc.parallelMax) (hquiet : ∀ e ∈ es, e.quiet oc = true)
    (h : run CoMain.step (.start oc (ropts.map .request) jar) es = some s)
    (hret : s.await = .returned) :
    s.tasks.map (·.ropt) = ropts ∧ (∀ t ∈ s.tasks, t.running = false) ∧ s.ep = none :=
  CoMain.started_of_quiet hm hquiet h hret

/-- Both of two requests are started. -/
theorem all_requests_started_twoRequests :
    ∃ s, run CoMain.step (.start {} ([1, 2].map .request) 0) twoRequests = some s ∧
      s.tasks.map (·.ropt) = [1, 2] ∧ (∀ t ∈ s.tasks, t.running = false) ∧ s.ep = none := by
  have hret : (run CoMain.step (.start {} ([1, 2].map .request) 0) twoRequests).map (·.await) =
      some .returned := by decide +kernel
  obtain ⟨s, hs, hret⟩ := Option.map_eq_some_iff.1 hret
  have hquiet : ∀ e ∈ twoRequests, e.quiet {} = true := List.all_eq_true.1 rfl
  exact ⟨s, hs, all_requests_started {} [1, 2] 0 twoRequests (by decide) hquiet hs hret⟩

/-! ## Failed tasks under `--fail-early` -/

/-- A slot that was granted and whose task `co_main` has not spawned yet. -/
def CoMain.granted (s : CoMain R J) : Nat :=
  match s.await with
  | .adapt _ op => if s.group.admitted op then 1 else 0
  | _ => 0

/-- On a closed group nothing more is admitted. -/
theorem admitted_step_closed {g : Group} (hmax : g.max = 0) {a : Action} {i : Nat}
    (h : (g.step a).admitted i = true) : g.admitted i = true := by
  rcases completed_step h with hold | ⟨-, hlt⟩ | ⟨hk, -⟩
  · exact hold
  · rw [hmax] at hlt
    exact absurd hlt (Nat.not_lt_zero _)
  · cases hk

theorem CoMain.granted_le_one (s : CoMain R J) : s.granted ≤ 1 := by
  unfold CoMain.granted
  split
  · split
    · exact Nat.le_refl 1
    · exact Nat.zero_le 1
  · exact Nat.zero_le 1

/-- At the head of its loop `co_main` has no slot granted on a closed group. -/
theorem CoMain.granted_next (hmax : s.group.max = 0) :
    s.next.group.max = 0 ∧ s.next.tasks = s.tasks ∧ s.next.granted = 0 := by
  refine ⟨CoMain.group_next (P := fun g => g.max = 0) max_step hmax, ?_⟩
  unfold CoMain.next
  split
  · exact ⟨CoMain.tasks_leave _, rfl⟩
  · exact ⟨CoMain.tasks_leave _, rfl⟩
  · split
    · exact ⟨CoMain.tasks_leave _, rfl⟩
    · refine ⟨rfl, ?_⟩
      unfold CoMain.granted
      dsimp only
      rw [if_neg]
      intro hadm
      have hold := admitted_step_closed hmax hadm
      obtain ⟨op, hop, -⟩ := admitted_iff.1 hold
      exact absurd (List.getElem?_eq_some_iff.1 hop).1 (Nat.lt_irrefl _)

/-- On a closed group a task is spawned only for the slot that was granted. -/
theorem CoMain.step_closed (hok : s.Ok) (hmax : s.group.max = 0) {e : CoMainEvent J}
    (hs : s.step e = some s') :
    s'.group.max = 0 ∧ s'.tasks.length + s'.granted ≤ s.tasks.length + s.granted := by
  have hgroup := CoMain.group_step
    (P := fun g => g.max = 0 ∧ ∀ i, g.admitted i = true → s.group.admitted i = true)
    (fun g a h => ⟨max_step _ a h.1, fun i hi => h.2 i (admitted_step_closed h.1 hi)⟩)
    ⟨hmax, fun _ hi => hi⟩ hs
  refine ⟨hgroup.1, ?_⟩
  by_cases hne : e = .resume
  · subst hne
    rcases CoMain.resume_cases hs with ⟨ropt, op, hawait, hphase, rfl⟩ |
      ⟨ropt, op, ec, ep, -, -, -, rfl⟩ | ⟨op, -, -, rfl⟩
    · obtain ⟨-, htasks, hgranted⟩ := CoMain.granted_next
        (s := { s with tasks := s.tasks ++ [⟨ropt, op, true⟩] }) hmax
      have hadm : s.group.admitted op = true := by
        have hkind := (hok.core.known op).1 (by simp [hawait, Await.adapts])
        obtain ⟨op', hop, hp⟩ := Option.map_eq_some_iff.1 hphase
        rw [Group.kinds, List.getElem?_map, hop] at hkind
        exact admitted_iff.2 ⟨op', hop, Option.some.inj hkind, hp⟩
      rw [htasks, hgranted]
      simp [CoMain.granted, hawait, hadm]
    · rw [CoMain.tasks_leave]
      exact Nat.le_add_right _ _
    · exact Nat.le_add_right _ _
  · have hsame := CoMain.sameProgram hs hne
    have hlen : s'.tasks.length = s.tasks.length := by
      simpa using congrArg List.length hsame.ropts
    rw [hlen]
    refine Nat.add_le_add_left ?_ _
    unfold CoMain.granted
    rw [hsame.await]
    split
    · next ropt op _ =>
      by_cases hadm : s'.group.admitted op = true
      · rw [if_pos hadm, if_pos (hgroup.2 op hadm)]
      · rw [if_neg hadm]
        exact Nat.zero_le _
    · exact Nat.le_refl 0

/-- When a task fails under `--fail-early`, every task that runs is signalled, and from then on no
task is spawned but the one, if any, whose slot was granted before. -/
theorem failearly_stops (oc : CoMainConfig) (gen : List (Yield R)) (jar : J)
    (es es' : List (CoMainEvent J)) (t : Nat) (ending : RetryEnding) {s'' : CoMain R J}
    (hthrew : ending ≠ .returned) (h : run CoMain.step (.start oc gen jar) es = some s)
    (hearly : oc.failearly = true) (hs : s.step (.endTask t ending) = some s')
    (h' : run CoMain.step s' es' = some s'') :
    (∀ t' ∈ s'.tasks, t'.running = true →
      ∃ e ∈ s'.group.css, e.op = t'.op ∧ e.node ∈ s'.group.signalled) ∧
    s''.tasks.length ≤ s.tasks.length + s.granted := by
  have hok := CoMain.ok_run h
  have hok' := hok.step hs
  rw [← CoMain.oc_run h] at hearly
  have hgroup : s'.group = (s.group.step .close).step .emit ∧ s'.tasks.length = s.tasks.length ∧
      s'.await = s.await := by
    have hsame := CoMain.sameProgram hs (by intro heq; cases heq)
    refine ⟨?_, by simpa using congrArg List.length hsame.ropts, hsame.await⟩
    simp only [CoMain.step, CoMain.endTask, hearly, hthrew, ne_eq, not_false_eq_true, and_self,
      if_true] at hs
    split at hs
    · split at hs
      · cases hs
        rfl
      · cases hs
    · cases hs
  obtain ⟨heq, hlen, hawait⟩ := hgroup
  refine ⟨fun t' ht' hrun => ?_, ?_⟩
  · obtain ⟨r, hr, htg, hop⟩ := alive_iff.1 (hok'.core.alive ht' hrun)
    have hmem := hok'.core.slots.mem_css hr htg
    refine ⟨r.entry, hmem, hop, ?_⟩
    rw [heq] at hmem ⊢
    exact List.mem_append_right _ (List.mem_map_of_mem hmem)
  · have hmax : s'.group.max = 0 := by
      rw [heq]
      rfl
    have hinv : s''.Ok ∧ s''.group.max = 0 ∧
        s''.tasks.length + s''.granted ≤ s'.tasks.length + s'.granted := by
      refine run_inv (P := fun x => x.Ok ∧ x.group.max = 0 ∧
        x.tasks.length + x.granted ≤ s'.tasks.length + s'.granted) ?_
        ⟨hok', hmax, Nat.le_refl _⟩ h'
      rintro x e y ⟨hx, hxmax, hle⟩ - hxy
      obtain ⟨hymax, hyle⟩ := CoMain.step_closed hx hxmax hxy
      exact ⟨hx.step hxy, hymax, Nat.le_trans hyle hle⟩
    have hgranted : s'.granted ≤ s.granted := by
      unfold CoMain.granted
      rw [hawait]
      split
      · next ropt op _ =>
        by_cases hadm : s'.group.admitted op = true
        · have hold : s.group.admitted op = true := by
            rw [heq] at hadm
            exact completed_cvCancel (g := { s.group with max := 0 }) hadm
          rw [if_pos hadm, if_pos hold]
        · rw [if_neg hadm]
          exact Nat.zero_le _
      · exact Nat.le_refl 0
    omega

/-- The first of two tasks fails while a third request waits for a slot. -/
theorem failearly_stops_threeRequests :
    ∃ s s' s'', run CoMain.step (.start { parallelMax := 2, failearly := true }
          [.request 1, .request 2, .request 3] 0) [.handler 0, .resume, .handler 1, .resume]
        = some s ∧ s.step (.endTask 0 .rethrown) = some s' ∧
      run CoMain.step s' [.destroyRemover 0, .handler 2, .resume] = some s'' ∧
      (∀ t ∈ s'.tasks, t.running = true →
        ∃ e ∈ s'.group.css, e.op = t.op ∧ e.node ∈ s'.group.signalled) ∧
      s''.tasks.length ≤ s.tasks.length + s.granted := by
  have hrun : ((run CoMain.step (.start { parallelMax := 2, failearly := true }
      [.request 1, .request 2, .request 3] 0) [.handler 0, .resume, .handler 1, .resume]).bind
      fun s => (s.step (.endTask 0 .rethrown)).bind fun s' =>
        run CoMain.step s' [.destroyRemover 0, .handler 2, .resume]).isSome = true := by
    decide +kernel
  obtain ⟨s'', h⟩ := Option.isSome_iff_exists.1 hrun
  obtain ⟨s, hs, h⟩ := Option.bind_eq_some_iff.1 h
  obtain ⟨s', hs', hs''⟩ := Option.bind_eq_some_iff.1 h
  exact ⟨s, s', s'', hs, hs', hs'', failearly_stops { parallelMax := 2, failearly := true }
    [.request 1, .request 2, .request 3] 0 [.handler 0, .resume, .handler 1, .resume]
    [.destroyRemover 0, .handler 2, .resume] 0 .rethrown (by decide) hs rfl hs' hs''⟩

/-! ## Progress -/

/-- An event that the executor runs by itself. -/
inductive CoMainEvent.Internal : CoMainEvent J → Prop where
  | resume : CoMainEvent.Internal .resume
  | handler (i : Nat) : CoMainEvent.Internal (.handler i)
  | destroyRemover (k : Nat) : CoMainEvent.Internal (.destroyRemover k)

/-- An operation that is parked on a group with an entry waits for a completion handler that has run
or for a task that runs. -/
theorem CoMain.Ok.destroyRemover (hok : s.Ok) (hcss : s.group.css ≠ [])
    (hended : ∀ t ∈ s.tasks, t.running = false)
    (hpending : ∀ i ∈ s.await.adapts, s.phase i = some .parked) :
    ∃ k s', s.step (.destroyRemover k) = some s' := by
  obtain ⟨e, he⟩ := List.exists_mem_of_ne_nil _ hcss
  obtain ⟨r, hr, rfl⟩ := List.mem_map.1 (hok.core.slots.live.mem_iff.2 he)
  obtain ⟨hr, htg⟩ := List.mem_filter.1 hr
  have hmade := hok.core.slots.mem_made he
  obtain ⟨op, ec, hop, hec⟩ := hok.core.slots.owners _ hmade
  have hknown := (hok.core.known _).2 (hok.core.kinds.adapt _ hmade)
  have hreleased : s.released r.entry.op = true := by
    rw [List.mem_append, List.mem_append] at hknown
    rcases hknown with (htask | hawait) | hdropped
    · obtain ⟨t, ht, heq⟩ := List.mem_map.1 htask
      refine Bool.or_eq_true_iff.2 (.inr (List.any_eq_true.2 ⟨t, ht, ?_⟩))
      rw [hended t ht, heq]
      simp
    · have hparked := hpending _ hawait
      rw [CoMain.phase, hop, Option.map_some, hec] at hparked
      cases hparked
    · exact Bool.or_eq_true_iff.2 (.inl (List.contains_iff_mem.2 hdropped))
  obtain ⟨k, hk, hget⟩ := List.getElem_of_mem hr
  refine ⟨k, { s with group := s.group.step (.destroyRemover k) }, ?_⟩
  simp only [CoMain.step, List.getElem?_eq_getElem hk, hget, hreleased, Bool.or_true, if_true]

/-- Between two events, unless `co_main` has returned, a task runs or there is something left that
the executor runs by itself. -/
theorem CoMain.Ok.goesOn (hok : s.Ok) (hret : s.await ≠ .returned) :
    (∃ t ∈ s.tasks, t.running = true) ∨ ∃ e s', e.Internal ∧ s.step e = some s' := by
  by_cases hrun : ∃ t ∈ s.tasks, t.running = true
  · exact .inl hrun
  have hended : ∀ t ∈ s.tasks, t.running = false := fun t ht =>
    Bool.eq_false_iff.2 fun hr => hrun ⟨t, ht, hr⟩
  right
  have hops {i : Nat} {kind : Kind} (hk : s.group.kinds[i]? = some kind) :
      ∃ op, s.group.ops[i]? = some op ∧ op.kind = kind := by
    rw [Group.kinds, List.getElem?_map] at hk
    exact Option.map_eq_some_iff.1 hk
  cases hawait : s.await with
  | adapt ropt i =>
    obtain ⟨op, hop, hkind⟩ := hops ((hok.core.known i).1 (by simp [hawait, Await.adapts]))
    cases hp : op.phase with
    | queued ec =>
      refine ⟨.handler i, { s with group := s.group.step (.run i) }, .handler i, ?_⟩
      simp only [CoMain.step, CoMain.phase, hop, hp, Option.map_some]
    | parked =>
      have hfull := hok.core.waiting.adapt op (List.mem_of_getElem? hop) hkind hp
      have hcss : s.group.css ≠ [] := List.length_pos_iff.1 (Nat.lt_of_lt_of_le hfull.1 hfull.2)
      obtain ⟨k, s', hs⟩ := hok.destroyRemover hcss hended fun j hj => by
        simp only [hawait, Await.adapts, List.mem_singleton] at hj
        rw [hj, CoMain.phase, hop, Option.map_some, hp]
      exact ⟨_, s', .destroyRemover k, hs⟩
    | done ec =>
      refine ⟨.resume, ?_⟩
      simp only [CoMain.step, CoMain.resume, hawait, CoMain.phase, hop, hp, Option.map_some]
      split
      · exact ⟨_, .resume, rfl⟩
      · exact ⟨_, .resume, rfl⟩
      · next _ hne => exact (hne ec rfl).elim
  | join i =>
    obtain ⟨op, hop, hkind⟩ := hops (hok.join i hawait)
    cases hp : op.phase with
    | queued ec =>
      refine ⟨.handler i, { s with group := s.group.step (.run i) }, .handler i, ?_⟩
      simp only [CoMain.step, CoMain.phase, hop, hp, Option.map_some]
    | parked =>
      have hcss := hok.core.waiting.join op (List.mem_of_getElem? hop) hkind hp
      obtain ⟨k, s', hs⟩ := hok.destroyRemover hcss hended fun j hj => by
        simp only [hawait, Await.adapts, List.not_mem_nil] at hj
      exact ⟨_, s', .destroyRemover k, hs⟩
    | done ec =>
      cases hok.core.kinds.join op (List.mem_of_getElem? hop) hkind ec hp
      refine ⟨.resume, ?_⟩
      simp only [CoMain.step, CoMain.resume, hawait, CoMain.phase, hop, hp, Option.map_some]
      exact ⟨_, .resume, rfl⟩
  | returned => exact absurd hawait hret

/-- No order of events is a dead end: unless `co_main` has returned, a task runs or there is
something left that the executor runs by itself. -/
theorem never_stuck (oc : CoMainConfig) (gen : List (Yield R)) (jar : J)
    (es : List (CoMainEvent J)) (h : run CoMain.step (.start oc gen jar) es = some s)
    (hret : s.await ≠ .returned) :
    (∃ t ∈ s.tasks, t.running = true) ∨ ∃ e s', e.Internal ∧ s.step e = some s' :=
  (CoMain.ok_run h).goesOn hret

/-- When the task of the first of two requests has ended, its completion handler is destroyed. -/
theorem never_stuck_twoRequests :
    ∃ s, run CoMain.step (.start {} [.request 1, .request 2] 0)
        [.handler 0, .resume, .endTask 0 .returned] = some s ∧
      ((∃ t ∈ s.tasks, t.running = true) ∨
        ∃ (e : CoMainEvent Nat) (s' : CoMain Nat Nat), e.Internal ∧ s.step e = some s') := by
  have hawait : (run CoMain.step (.start {} [.request 1, .request 2] 0)
      ([.handler 0, .resume, .endTask 0 .returned] : List (CoMainEvent Nat))).map (·.await) =
        some (.adapt 2 1) := by decide +kernel
  obtain ⟨s, hs, hawait⟩ := Option.map_eq_some_iff.1 hawait
  refine ⟨s, hs, never_stuck {} [.request 1, .request 2] 0 _ hs ?_⟩
  rw [hawait]
  intro heq
  cases heq

end

end Beast2.Burl
