import Beast2.Burl.Expect100

/-!
# Interim responses

A server may send any number of interim responses (1xx, but not 101) before the final one. An
operation that completes without an error should leave the header of the final response in the
parser, since `perform_request` takes that header for the answer.

`async_request_op` reads one header if it sent the body at once, and one more after a 100 if it
waited for that; any other interim response is left in the parser as the answer. So the final
response is the one it leaves exactly if the server sent no interim response, or, on the path with
`Expect: 100-continue`, none or a single 100 (`completesFinal_iff`).
-/

namespace Beast2.Burl

section
variable {E F : Type}

/-- What a server sends to answer a request: interim responses and a final one. -/
structure ServerAnswer (F : Type) where
  interim : List (Response F)
  final : Response F
  interim_status : ∀ res ∈ interim, 100 ≤ res.status ∧ res.status ≤ 199 ∧ res.status ≠ 101
  final_status : 200 ≤ final.status

/-- The responses in the order in which they are sent. -/
def ServerAnswer.responses (a : ServerAnswer F) : List (Response F) := a.interim ++ [a.final]

/-- The two paths of an operation: the body is sent at once, or after a 100. -/
inductive RequestPath where
  | direct
  | expect
deriving DecidableEq, Repr

/-- How the first write completes on a path. -/
def RequestPath.firstWrite (expect100 : E) : RequestPath → Option E
  | .direct => none
  | .expect => some expect100

/-- The header that a path leaves in the parser: that of the first response, on the path with a 100
that of the second if the first is a 100. -/
def RequestPath.leaves : RequestPath → List (Response F) → Option (Response F)
  | .direct, responses => responses.head?
  | .expect, responses =>
    if responses.head?.map (·.status) = some 100 then responses.tail.head? else responses.head?

/-- Every run on a path that completes without an error leaves the header of the final response. -/
def CompletesFinal [DecidableEq E] (expect100 : E) (path : RequestPath) (a : ServerAnswer F) :
    Prop :=
  ∀ cs o, RequestOp.run expect100 a.responses (.write (path.firstWrite expect100) :: cs) = some o →
    .completed none ∈ o.log → o.parser = some a.final

/-! ## What a run leaves in the parser -/

/-- What was read so far, while both chains run and after that. -/
def RequestOp.Reads (responses : List (Response F)) (o : RequestOp E F) : Prop :=
  match o.phase with
  | .group g =>
    match g.read with
    | .first => o.responses = responses
    | .second => ∃ res, responses = res :: o.responses ∧ res.status = 100
    | .done none => o.parser = RequestPath.expect.leaves responses
    | .done (some _) => True
  | .completed => .completed none ∈ o.log → o.parser = RequestPath.expect.leaves responses
  | _ => False

variable {o o' : RequestOp E F} {g : Exp100 E} {responses : List (Response F)}

theorem RequestOp.Reads.moves (h : o.Reads responses) (hphase : o.phase = .group g)
    (hopen : ∀ ec, .completed ec ∉ o.log) (hmove : o.GroupMoves g o') : o'.Reads responses := by
  simp only [Reads, hphase] at h
  cases hmove with
  | expire htimer => exact h
  | start htimer hstate => exact h
  | skip htimer hstate => exact h
  | written ec hbody => exact h
  | failed ec hread => trivial
  | answered res rest hread hres hstatus =>
    simp only [hread] at h
    show some res = _
    rw [← h, hres]
    simp [RequestPath.leaves, hstatus]
  | continued res rest hread hres hstatus =>
    simp only [hread] at h
    exact ⟨res, h.symm.trans hres, hstatus⟩
  | readFailed ec hread => trivial
  | read res rest hread hres =>
    simp only [hread] at h
    obtain ⟨res₁, hall, h100⟩ := h
    show some res = _
    rw [hall, hres]
    simp [RequestPath.leaves, h100]
  | completed ec1 ec2 hbody hread =>
    simp only [hread] at h
    intro hcompleted
    have hmem : RequestEvent.completed none ∈ o.log ++ [.completed (ec1 <|> ec2)] := hcompleted
    rcases List.mem_append.1 hmem with hmem | hmem
    · exact absurd hmem (hopen none)
    · -- no error of the write and none of the read
      have hnone := RequestEvent.completed.inj (List.mem_singleton.1 hmem)
      cases ec1 with
      | some ec => cases hnone
      | none =>
        cases ec2 with
        | some ec => cases hnone
        | none => exact h

variable [DecidableEq E] {expect100 : E}

/-- A run with `Expect: 100-continue` reads what it leaves. -/
theorem RequestOp.reads_run {cs : List (Completion E)}
    (h : run expect100 responses (.write (some expect100) :: cs) = some o) :
    o.Reads responses := by
  induction cs using List.reverseRecOn generalizing o with
  | nil =>
    rw [run_expect] at h
    cases h
    rfl
  | append_singleton cs c ih =>
    rw [← List.cons_append, run_append] at h
    obtain ⟨o₁, h₁, hstep⟩ := Option.bind_eq_some_iff.1 h
    have hreads := ih h₁
    obtain ⟨hexp, -⟩ := expecting_run h₁
    rcases hexp.phase_cases with ⟨g, hphase, hlogged⟩ | ⟨hphase, -⟩
    · exact hreads.moves hphase hlogged.open_ (step_moves hphase hstep)
    · rw [step_completed hphase] at hstep
      cases hstep

/-- A run that sends the body at once reads one header. -/
theorem RequestOp.direct_run {cs : List (Completion E)}
    (h : run expect100 responses (.write none :: cs) = some o) :
    o.phase = .reading ∧ o.responses = responses ∧ o.log = [] ∨
      o.phase = .completed ∧ (.completed none ∈ o.log → o.parser = responses.head?) := by
  induction cs using List.reverseRecOn generalizing o with
  | nil =>
    cases h
    exact .inl ⟨rfl, rfl, rfl⟩
  | append_singleton cs c ih =>
    rw [← List.cons_append, run_append] at h
    obtain ⟨o₁, h₁, hstep⟩ := Option.bind_eq_some_iff.1 h
    rcases ih h₁ with ⟨hphase, hres, hlog⟩ | ⟨hphase, -⟩
    · right
      cases c with
      | read ec =>
        cases ec with
        | some ec =>
          simp only [RequestOp.step, hphase] at hstep
          cases hstep
          exact ⟨rfl, fun hmem => absurd hmem (by simp [complete, hlog])⟩
        | none =>
          simp only [RequestOp.step, hphase] at hstep
          cases hall : o₁.responses with
          | nil => simp [hall] at hstep
          | cons res rest =>
            simp only [hall] at hstep
            cases hstep
            refine ⟨rfl, fun _ => ?_⟩
            rw [← hres, hall]
            rfl
      | write ec => simp [RequestOp.step, hphase] at hstep
      | expire => simp [RequestOp.step, hphase] at hstep
      | timer => simp [RequestOp.step, hphase] at hstep
      | group => simp [RequestOp.step, hphase] at hstep
    · rw [step_completed hphase] at hstep
      cases hstep

/-- A run that completes without an error leaves what its path leaves. -/
theorem RequestOp.parser_eq_leaves (path : RequestPath) {cs : List (Completion E)}
    (h : run expect100 responses (.write (path.firstWrite expect100) :: cs) = some o)
    (hcompleted : .completed none ∈ o.log) : o.parser = path.leaves responses := by
  cases path with
  | direct =>
    rcases direct_run h with ⟨-, -, hlog⟩ | ⟨-, hparser⟩
    · rw [hlog] at hcompleted
      cases hcompleted
    · exact hparser hcompleted
  | expect =>
    have hreads := reads_run h
    obtain ⟨hexp, -⟩ := expecting_run h
    rcases hexp.phase_cases with ⟨g, -, hlogged⟩ | ⟨hphase, -⟩
    · exact absurd hcompleted (hlogged.open_ none)
    · simp only [Reads, hphase] at hreads
      exact hreads hcompleted

/-- If a path leaves a response, a run completes without an error. -/
theorem RequestOp.exists_run (expect100 : E) (path : RequestPath)
    (h : (path.leaves responses).isSome) :
    ∃ cs o, run expect100 responses (.write (path.firstWrite expect100) :: cs) = some o ∧
      .completed none ∈ o.log := by
  cases responses with
  | nil => cases path <;> cases h
  | cons res rest =>
    cases path with
    | direct =>
      exact ⟨[.read none], _, rfl, by simp [complete]⟩
    | expect =>
      by_cases h100 : res.status = 100
      · cases rest with
        | nil => simp [RequestPath.leaves, h100] at h
        | cons res' rest =>
          -- with the status a literal, the run is evaluated
          obtain ⟨status, http11, close, fields⟩ := res
          obtain rfl : status = 100 := h100
          exact ⟨[.read none, .timer, .write none, .read none, .group], _, run_expect _ _ _,
            by simp [complete]⟩
      · refine ⟨[.read none, .timer, .group], ?_⟩
        simp [run, RequestPath.firstWrite, RequestOp.step, readHandler, h100, TimerWait.cancel,
          timerHandler, complete]

/-- A path leaves some response of a server's answer. -/
theorem RequestPath.isSome_leaves (path : RequestPath) (a : ServerAnswer F) :
    (path.leaves a.responses).isSome := by
  obtain ⟨interim, final, -, hfinal⟩ := a
  have h200 : final.status ≠ 100 := by omega
  cases interim with
  | nil => cases path <;> simp [leaves, ServerAnswer.responses, h200]
  | cons res rest =>
    cases path with
    | direct => rfl
    | expect =>
      by_cases h100 : res.status = 100
      · cases rest <;> simp [leaves, ServerAnswer.responses, h100]
      · simp [leaves, ServerAnswer.responses, h100]

/-- A path leaves the final response exactly if the server sends no interim response, or a single
100 on the path that waits for it. -/
theorem RequestPath.leaves_eq_final_iff (path : RequestPath) (a : ServerAnswer F) :
    path.leaves a.responses = some a.final ↔
      a.interim = [] ∨ path = .expect ∧ ∃ res, a.interim = [res] ∧ res.status = 100 := by
  obtain ⟨interim, final, hinterim, hfinal⟩ := a
  -- an interim response is not the final one
  have hne : ∀ res ∈ interim, res ≠ final := by
    rintro res hres rfl
    have hstatus := hinterim res hres
    omega
  have h200 : final.status ≠ 100 := by omega
  cases interim with
  | nil => cases path <;> simp [leaves, ServerAnswer.responses, h200]
  | cons res rest =>
    have hres := hne res List.mem_cons_self
    cases path with
    | direct => simp [leaves, ServerAnswer.responses, hres]
    | expect =>
      by_cases h100 : res.status = 100
      · cases rest with
        | nil => simp [leaves, ServerAnswer.responses, h100]
        | cons res' rest =>
          have hres' := hne res' (List.mem_cons_of_mem _ List.mem_cons_self)
          simp [leaves, ServerAnswer.responses, h100, hres']
      · simp [leaves, ServerAnswer.responses, h100, hres]

/-- The operation completes with the final response only, on a path, exactly if the server sends no
interim response, or a single 100 on the path that waits for it. -/
theorem completesFinal_iff (expect100 : E) (path : RequestPath) (a : ServerAnswer F) :
    CompletesFinal expect100 path a ↔
      a.interim = [] ∨ path = .expect ∧ ∃ res, a.interim = [res] ∧ res.status = 100 := by
  rw [← path.leaves_eq_final_iff]
  refine ⟨fun h => ?_, fun h cs o hrun hcompleted => ?_⟩
  · obtain ⟨cs, o, hrun, hcompleted⟩ := RequestOp.exists_run expect100 path (path.isSome_leaves a)
    exact (RequestOp.parser_eq_leaves path hrun hcompleted).symm.trans (h cs o hrun hcompleted)
  · exact (RequestOp.parser_eq_leaves path hrun hcompleted).trans h

end

/-- A server that sends 103 before 200. -/
def earlyHints : ServerAnswer Unit where
  interim := [plainResponse 103]
  final := plainResponse 200
  interim_status := by
    intro res hres
    cases List.mem_singleton.1 hres
    decide
  final_status := by decide

/-- The operation completes with the 103 in the parser, on both paths. -/
theorem earlyHints_not_completesFinal :
    (∃ o, RequestOp.run () earlyHints.responses [.write none, .read none] = some o ∧
      o.log = [.completed none] ∧ o.parser = some (plainResponse 103)) ∧
    ¬ CompletesFinal () .direct earlyHints ∧ ¬ CompletesFinal () .expect earlyHints := by
  refine ⟨⟨_, rfl, rfl, rfl⟩, fun h => ?_, fun h => ?_⟩
  · have hfinal := h [.read none] _ rfl List.mem_cons_self
    cases hfinal
  · have hfinal := h [.read none, .timer, .group] _ rfl (by simp [RequestOp.complete])
    cases hfinal

end Beast2.Burl
