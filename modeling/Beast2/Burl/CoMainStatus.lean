import Beast2.Burl.CoMainEnds

/-!
# The exit status

`main` returns `EXIT_FAILURE` for an exception of `co_main`, which is the one that `ep` holds after
the loop (`main.cpp:830-853, 862-884`). Failed tasks set nothing there, and the errors of the task
group are left out of it. So whatever the transfers do, with or without `--fail-early`, `co_main`
throws exactly if the generator threw behind the requests of the tasks, or, after an interruption
only, if a `co_await` threw for it at the head of the loop (`exit_status`).
-/

namespace Beast2.Burl

open TaskGroup Machine

namespace TaskGroup

variable {g : Group}

/-- No operation completed with the code of a cancelled wait. -/
def NoneAborted (g : Group) : Prop := ∀ op ∈ g.ops, op.phase ≠ .done .operationAborted

theorem adaptEc_ne_aborted (max : Nat) (cancelled : Bool) (ec : Ec) :
    adaptEc max cancelled ec ≠ .operationAborted := by
  unfold adaptEc
  dsimp only
  split
  · decide
  · split
    · decide
    · split
      · decide
      · assumption

theorem NoneAborted.setOp (h : NoneAborted g) {op' : Op}
    (hop : op'.phase ≠ .done .operationAborted) (i : Nat) : NoneAborted (g.setOp i op') := by
  intro op hmem
  rcases List.mem_or_eq_of_mem_set hmem with hmem | rfl
  · exact h op hmem
  · exact hop

theorem Op.wake_ne_aborted {op : Op} (h : op.phase ≠ .done .operationAborted) :
    op.wake.phase ≠ .done .operationAborted := by
  unfold Op.wake
  split
  · intro heq
    cases heq
  · exact h

theorem NoneAborted.cvCancel (h : NoneAborted g) : NoneAborted g.cvCancel := by
  intro op hmem
  obtain ⟨op, hop, rfl⟩ := List.mem_map.1 hmem
  exact Op.wake_ne_aborted (h op hop)

theorem NoneAborted.start (h : NoneAborted g) (kind : Kind) : NoneAborted (g.start kind) := by
  intro op hmem
  rcases List.mem_append.1 hmem with hmem | hmem
  · exact h op hmem
  · cases List.mem_singleton.1 hmem
    intro heq
    cases heq

/-- The handler of `async_adapt` turns the code of a cancelled wait into success. -/
theorem NoneAborted.runOp (h : NoneAborted g) (i : Nat) : NoneAborted (g.runOp i) := by
  have hparked : Phase.parked ≠ .done .operationAborted := by decide
  have hqueued : Phase.queued .success ≠ .done .operationAborted := by decide
  rcases runOp_cases g i with heq | ⟨op, ec, hop, hq, ⟨-, heq⟩ | ⟨-, heq⟩⟩
  · rw [heq]
    exact h
  · rw [heq]
    simp only [Group.runAdapt]
    split
    · exact h.setOp hparked i
    · split
      · exact h.setOp hqueued i
      · refine NoneAborted.setOp (g := g.adaptor i) h ?_ i
        intro hdone
        exact adaptEc_ne_aborted _ _ _ (Phase.done.inj hdone)
  · rw [heq]
    obtain ⟨g', op', hg', heq', -, hphase⟩ := runJoin_cases g i op
    rw [heq']
    have hg : NoneAborted g' := by
      rcases hg' with rfl | rfl
      · exact h
      · exact h
    refine hg.setOp ?_ i
    rcases hphase with ⟨hp, -⟩ | hp | ⟨hp, -⟩
    · rw [hp]
      exact hparked
    · rw [hp]
      exact hqueued
    · rw [hp]
      decide

theorem NoneAborted.step (h : NoneAborted g) (a : Action) : NoneAborted (g.step a) := by
  cases a with
  | asyncAdapt => exact (h.start .adapt).runOp _
  | asyncJoin => exact (h.start .join).runOp _
  | run i => exact h.runOp i
  | cancel i =>
    simp only [Group.step]
    split
    · next op hop =>
      split
      · exact h
      · refine h.setOp (Op.wake_ne_aborted ?_) i
        exact h op (List.mem_of_getElem? hop)
    · exact h
  | moveRemover k =>
    simp only [Group.step]
    split
    · exact h
    · exact h
  | destroyRemover k =>
    simp only [Group.step, Group.destroy]
    split
    · split
      · exact NoneAborted.cvCancel h
      · exact h
    · exact h
  | close => exact NoneAborted.cvCancel h
  | emit => exact h

end TaskGroup

section
variable {R J : Type} {gen : List (Yield R)} {es : List (CoMainEvent J)} {s s' : CoMain R J}

/-- The requests that were spawned. -/
def CoMain.spawned (s : CoMain R J) : List (Yield R) := s.tasks.map fun t => .request t.ropt

/-- How the loop was left: the generator was done, or threw, or the request at hand was dropped. -/
inductive CoMain.Left (gen : List (Yield R)) (es : List (CoMainEvent J)) (s : CoMain R J) : Prop
  | finished (hep : s.ep = none) (hgen : gen = s.spawned)
  | threw (rest : List (Yield R)) (hep : s.ep = some .generator)
      (hgen : gen = s.spawned ++ .throws :: rest)
  | dropped (ropt : R) (rest : List (Yield R))
      (hep : s.ep = none ∨ s.ep = some .systemError ∧ CoMainEvent.interrupt ∈ es)
      (hgen : gen = s.spawned ++ .request ropt :: rest)

/-- What `ep` holds after some events. -/
structure CoMain.Status (gen : List (Yield R)) (es : List (CoMainEvent J)) (s : CoMain R J) :
    Prop where
  codes : NoneAborted s.group
  cancelled : s.cancelled = true → CoMainEvent.interrupt ∈ es
  atHand : ∀ ropt op, s.await = .adapt ropt op →
    s.ep = none ∧ gen = s.spawned ++ .request ropt :: s.gen
  left : (∀ ropt op, s.await ≠ .adapt ropt op) → s.Left gen es

theorem CoMain.Left.of_same (h : s.Left gen es) (hep : s'.ep = s.ep)
    (htasks : s'.spawned = s.spawned) {es' : List (CoMainEvent J)} (hes : es ⊆ es') :
    s'.Left gen es' := by
  cases h with
  | finished hnone hgen => exact .finished (hep.trans hnone) (htasks ▸ hgen)
  | threw rest hthrew hgen => exact .threw rest (hep.trans hthrew) (htasks ▸ hgen)
  | dropped ropt rest hsystem hgen =>
    refine .dropped ropt rest ?_ (htasks ▸ hgen)
    rcases hsystem with hnone | ⟨herror, hinterrupt⟩
    · exact .inl (hep.trans hnone)
    · exact .inr ⟨hep.trans herror, hes hinterrupt⟩

theorem CoMain.Status.leave (hcodes : NoneAborted s.group)
    (h : s.Left gen es) (hcancelled : s.cancelled = true → CoMainEvent.interrupt ∈ es) :
    s.leave.Status gen es := by
  unfold CoMain.leave
  dsimp only
  split
  · refine ⟨(hcodes.step .emit).step .asyncJoin, fun hc => ?_, fun ropt op hawait => ?_,
      fun _ => ?_⟩
    · cases hc
    · cases hawait
    · exact h.of_same (by rfl) (by rfl) (List.Subset.refl es)
  · refine ⟨hcodes.step .asyncJoin, hcancelled, fun ropt op hawait => ?_, fun _ => ?_⟩
    · cases hawait
    · exact h.of_same (by rfl) (by rfl) (List.Subset.refl es)

/-- At the head of the loop nothing was thrown. -/
theorem CoMain.Status.next (hcodes : NoneAborted s.group) (hep : s.ep = none)
    (hcancelled : s.cancelled = true → CoMainEvent.interrupt ∈ es)
    (hgen : gen = s.spawned ++ s.gen) : s.next.Status gen es := by
  unfold CoMain.next
  split
  · next hnil =>
    refine .leave hcodes (.finished hep ?_) hcancelled
    rw [hgen, hnil, List.append_nil]
  · next gen' hthrows =>
    refine .leave (s := { s with gen := gen', ep := some .generator }) hcodes
      (.threw gen' rfl ?_) hcancelled
    rw [hgen, hthrows]
    rfl
  · next ropt gen' hrequest =>
    rw [hrequest] at hgen
    split
    · next hc =>
      exact .leave (s := { s with gen := gen', ep := some .systemError }) hcodes
        (.dropped ropt gen' (.inr ⟨rfl, hcancelled hc⟩) hgen) hcancelled
    · refine ⟨hcodes.step .asyncAdapt, hcancelled, fun ropt' op hawait => ?_, fun hne => ?_⟩
      · cases hawait
        exact ⟨hep, hgen⟩
      · exact absurd rfl (hne _ _)

/-- `co_main` goes on: an operation that failed has an error of the task group. -/
theorem CoMain.Status.resume (h : s.Status gen es) (hs : s.resume = some s') :
    s'.Status gen es := by
  unfold CoMain.resume at hs
  cases hawait : s.await with
  | adapt ropt op =>
    obtain ⟨hep, hgen⟩ := h.atHand ropt op hawait
    rw [hawait] at hs
    cases hphase : s.phase op with
    | none =>
      simp [hphase] at hs
    | some p =>
      cases p with
      | queued ec => simp [hphase] at hs
      | parked => simp [hphase] at hs
      | done ec =>
        obtain ⟨o, ho, hdone⟩ := Option.map_eq_some_iff.1 hphase
        have hnot : ec ≠ .operationAborted := by
          rintro rfl
          exact h.codes o (List.mem_of_getElem? ho) hdone
        cases ec with
        | success =>
          simp only [hphase, Option.some.injEq] at hs
          rw [← hs]
          refine CoMain.Status.next h.codes hep h.cancelled ?_
          rw [hgen]
          simp [CoMain.spawned]
        | operationAborted => exact absurd rfl hnot
        | cancelled =>
          simp only [hphase, true_or, if_true, Option.some.injEq] at hs
          rw [← hs]
          exact CoMain.Status.leave h.codes (.dropped ropt s.gen (.inl hep) hgen) h.cancelled
        | closed =>
          simp only [hphase, or_true, if_true, Option.some.injEq] at hs
          rw [← hs]
          exact CoMain.Status.leave h.codes (.dropped ropt s.gen (.inl hep) hgen) h.cancelled
  | join op =>
    have hleft : s.Left gen es := by
      refine h.left fun ropt op' hadapt => ?_
      cases hawait.symm.trans hadapt
    rw [hawait] at hs
    cases hphase : s.phase op with
    | none => simp [hphase] at hs
    | some p =>
      cases p with
      | queued ec => simp [hphase] at hs
      | parked => simp [hphase] at hs
      | done ec =>
        cases ec with
        | success =>
          simp only [hphase, Option.some.injEq] at hs
          rw [← hs]
          refine ⟨h.codes, h.cancelled, fun ropt op' hadapt => ?_, fun _ => ?_⟩
          · cases hadapt
          · exact hleft.of_same (by rfl) (by rfl) (List.Subset.refl es)
        | operationAborted => simp [hphase] at hs
        | cancelled => simp [hphase] at hs
        | closed => simp [hphase] at hs
  | returned =>
    rw [hawait] at hs
    cases hs

/-- Only an interruption cancels `co_main`. -/
theorem CoMain.cancelled_step {e : CoMainEvent J} (hs : s.step e = some s') (hne : e ≠ .resume)
    (h : s'.cancelled = true) : s.cancelled = true ∨ e = .interrupt := by
  cases e with
  | resume => exact absurd rfl hne
  | interrupt => exact .inr rfl
  | endTask t ending =>
    simp only [CoMain.step, CoMain.endTask] at hs
    split at hs
    · split at hs
      · split at hs
        · cases hs
          exact .inl h
        · cases hs
          exact .inl h
      · cases hs
    · cases hs
  | store t f =>
    simp only [CoMain.step] at hs
    split at hs
    · cases hs
      exact .inl h
    · cases hs
  | handler i =>
    simp only [CoMain.step] at hs
    split at hs
    · cases hs
      exact .inl h
    · cases hs
  | moveRemover k =>
    obtain ⟨-, rfl⟩ := CoMain.moveRemover_cases hs
    exact .inl h
  | destroyRemover k =>
    simp only [CoMain.step] at hs
    split at hs
    · split at hs
      · cases hs
        exact .inl h
      · cases hs
    · cases hs

theorem CoMain.Status.step (h : s.Status gen es) {e : CoMainEvent J} (hs : s.step e = some s') :
    s'.Status gen (es ++ [e]) := by
  have hmore : es ⊆ es ++ [e] := List.subset_append_left es [e]
  by_cases hne : e = .resume
  · subst hne
    have hresume := h.resume hs
    refine ⟨hresume.codes, fun hc => hmore (hresume.cancelled hc), hresume.atHand, fun hleft => ?_⟩
    exact (hresume.left hleft).of_same rfl rfl hmore
  have hsame := CoMain.sameProgram hs hne
  have hspawned : s'.spawned = s.spawned := by
    have hropts := congrArg (List.map Yield.request) hsame.ropts
    simpa [CoMain.spawned, Function.comp_def] using hropts
  refine ⟨?_, fun hc => ?_, fun ropt op hawait => ?_, fun hleft => ?_⟩
  · exact CoMain.group_step (fun _ a hcodes => NoneAborted.step hcodes a) h.codes hs
  · rcases CoMain.cancelled_step hs hne hc with hc | rfl
    · exact hmore (h.cancelled hc)
    · exact List.mem_append_right _ (.head _)
  · rw [hsame.ep, hsame.gen, hspawned]
    exact h.atHand ropt op (hsame.await ▸ hawait)
  · refine (h.left fun ropt op hawait => ?_).of_same hsame.ep hspawned hmore
    exact hleft ropt op (hsame.await.trans hawait)

/-- Whatever the transfers do and however they end, with or without `--fail-early`: when `co_main`
has returned, it throws what the generator threw exactly if that threw behind the requests of the
tasks, and it throws anything else only if it was interrupted. -/
theorem exit_status (oc : CoMainConfig) (gen : List (Yield R)) (jar : J)
    (es : List (CoMainEvent J)) (h : run CoMain.step (.start oc gen jar) es = some s)
    (hret : s.await = .returned) :
    (s.ep = some .generator ↔ ∃ rest, gen = s.spawned ++ .throws :: rest) ∧
      (s.ep = some .systemError → CoMainEvent.interrupt ∈ es) := by
  have hstart : (CoMain.start oc gen jar).Status gen ([] : List (CoMainEvent J)) := by
    refine CoMain.Status.next ?_ rfl (fun hc => ?_) rfl
    · intro op hop
      cases hop
    · cases hc
  have hstatus : s.Status gen es :=
    Machine.run_history (fun _ _ _ _ _ hP hs => hP.step hs) hstart h
  have hleft : s.Left gen es := by
    refine hstatus.left fun ropt op hawait => ?_
    cases hret.symm.trans hawait
  cases hleft with
  | finished hep hgen =>
    refine ⟨⟨fun hthrew => ?_, fun ⟨rest, hrest⟩ => ?_⟩, fun herror => ?_⟩
    · cases hep.symm.trans hthrew
    · have hlength := congrArg List.length (hgen.symm.trans hrest)
      simp at hlength
    · cases hep.symm.trans herror
  | threw rest hep hgen =>
    refine ⟨iff_of_true hep ⟨rest, hgen⟩, fun herror => ?_⟩
    cases hep.symm.trans herror
  | dropped ropt rest hep hgen =>
    have hnot : ¬ ∃ rest', gen = s.spawned ++ .throws :: rest' := by
      rintro ⟨rest', hrest⟩
      have heq := List.append_cancel_left (hgen.symm.trans hrest)
      cases heq
    rcases hep with hnone | ⟨herror, hinterrupt⟩
    · refine ⟨iff_of_false (fun hthrew => ?_) hnot, fun herror => ?_⟩
      · cases hnone.symm.trans hthrew
      · cases hnone.symm.trans herror
    · refine ⟨iff_of_false (fun hthrew => ?_) hnot, fun _ => hinterrupt⟩
      cases herror.symm.trans hthrew

/-- The transfer of the first request fails, and the generator throws at the second one. -/
theorem exit_status_throws :
    ∃ s, run CoMain.step (.start {} [.request 1, .throws] 0)
        ([.handler 0, .resume, .endTask 0 .rethrown, .destroyRemover 0, .handler 1, .resume] :
          List (CoMainEvent Nat)) = some s ∧
      (s.ep = some .generator ↔ ∃ rest, [.request 1, .throws] = s.spawned ++ .throws :: rest) ∧
      (s.ep = some .systemError → CoMainEvent.interrupt ∈
        ([.handler 0, .resume, .endTask 0 .rethrown, .destroyRemover 0, .handler 1, .resume] :
          List (CoMainEvent Nat))) := by
  have hawait : (run CoMain.step (.start {} [.request 1, .throws] 0)
      ([.handler 0, .resume, .endTask 0 .rethrown, .destroyRemover 0, .handler 1, .resume] :
        List (CoMainEvent Nat))).map (·.await) = some .returned := by decide +kernel
  obtain ⟨s, hs, hret⟩ := Option.map_eq_some_iff.1 hawait
  exact ⟨s, hs, exit_status {} [.request 1, .throws] 0 _ hs hret⟩

end

end Beast2.Burl
