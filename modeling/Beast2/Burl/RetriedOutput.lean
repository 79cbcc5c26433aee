import Beast2.Burl.Credentials
import Beast2.Burl.OutputFiles

/-!
# The output of a transfer that is tried again

`retry` runs the transfer of a request again and again, each time from the options as they were at
first. Without `--continue-at` every attempt starts its file anew, so that in the end the file is
that of the last attempt alone. With `--continue-at` every attempt asks for the same range and
appends what it gets: the file holds what every one of them wrote (`retried_output`). With
`--skip-existing` the file that the first attempt left is one to skip, so that there is no second
transfer (`skip_ends_retries`).
-/

namespace Beast2.Burl

open Fields

section
variable {F Ref ι : Type} [Container F] [DecidableEq ι]

/-- What comes from outside in one attempt. -/
structure TryInput (F : Type) where
  transfer : TransferInput F
  now : Int := 0
  cancelled : Bool := false
  waitThrows : Bool := false

/-- A request with all that its transfers depend on. -/
structure RequestTask (F Ref ι : Type) where
  outside : Outside F Ref ι
  oc : OutputConfig
  expCookies : List Char
  msg : Message
  opt : RequestOpt
  url : Url
  tries : Nat → TryInput F

/-- The path of the output. -/
def RequestTask.path (T : RequestTask F Ref ι) : List Char := outputPath T.oc T.url T.opt

/-- One attempt. -/
def RequestTask.attempt (T : RequestTask F Ref ι) (k : Nat) (w : World ι) :
    World ι × Option Outcome :=
  performTransfer T.outside T.oc T.expCookies T.msg T.opt T.url (T.tries k).transfer w

/-- The redirect loop of an attempt. -/
def RequestTask.loop (T : RequestTask F Ref ι) (k : Nat) : Ending F × List (Event F) :=
  transferLoop T.outside T.oc T.expCookies T.msg T.url (T.tries k).transfer

/-- The world before each attempt. -/
def RequestTask.worldAt (T : RequestTask F Ref ι) (w : World ι) : Nat → World ι
  | 0 => w
  | k + 1 => (T.attempt k (T.worldAt w k)).1

/-- How an attempt ends. -/
def RequestTask.outcomeAt (T : RequestTask F Ref ι) (w : World ι) (k : Nat) : Option Outcome :=
  (T.attempt k (T.worldAt w k)).2

/-- The attempts as `retry` sees them. One that does not end is the last one. -/
def RequestTask.attempts (T : RequestTask F Ref ι) (w : World ι) (k : Nat) : Attempt where
  outcome := (T.outcomeAt w k).getD .exception
  now := (T.tries k).now
  cancelled := (T.tries k).cancelled
  waitThrows := (T.tries k).waitThrows

/-- `retry` for the task. -/
def RequestTask.retried (T : RequestTask F Ref ι) (w : World ι) (rc : RetryConfig) (start : Int) :
    RetryEnding × RetryState :=
  retry rc start (T.attempts w)

variable {T : RequestTask F Ref ι} {w : World ι} {rc : RetryConfig} {start : Int}

/-- How an attempt ends. -/
theorem RequestTask.ends (T : RequestTask F Ref ι) (k : Nat) (w : World ι) :
    TransferEnds T.outside T.oc T.expCookies T.msg T.opt T.url (T.tries k).transfer w
      (T.attempt k w) :=
  ends_performTransfer T.expCookies T.msg T.url

/-- An attempt that another one may follow has ended, and not by an exception. -/
theorem outcomeAt_of_allowed {k : Nat} (h : Allowed rc start (T.attempts w k)) :
    ∃ o, T.outcomeAt w k = some o ∧ o ≠ .exception ∧ o ≠ .status 200 := by
  have hmatch := h.2
  have houtcome : (T.attempts w k).outcome = (T.outcomeAt w k).getD .exception := rfl
  rw [houtcome] at hmatch
  cases ho : T.outcomeAt w k with
  | none =>
    rw [ho] at hmatch
    exact hmatch.elim
  | some o =>
    rw [ho] at hmatch
    refine ⟨o, rfl, ?_, ?_⟩
    · rintro rfl
      exact hmatch
    · rintro rfl
      cases hmatch

/-! ## Transfers that are skipped -/

/-- An attempt that another one may follow has made its output, and may do so. -/
theorem skips_of_allowed {k : Nat} (hskip : T.oc.skipExisting = true)
    (hrm : T.oc.rmPartial = false) (hfile : AnyOstream.ofPath T.path = .file T.path)
    (hallowed : Allowed rc start (T.attempts w k)) :
    T.opt.input = [] ∧ Skips T.outside T.oc T.opt T.url (T.worldAt w (k + 1)) := by
  obtain ⟨o, ho, hexception, h200⟩ := outcomeAt_of_allowed hallowed
  have hends := T.ends k (T.worldAt w k)
  rw [RequestTask.worldAt]
  rw [RequestTask.outcomeAt] at ho
  generalize T.attempt k (T.worldAt w k) = t at hends ho
  cases hends with
  | refused => exact absurd (Option.some.inj ho).symm hexception
  | skipped => exact absurd (Option.some.inj ho).symm h200
  | unopened => exact absurd (Option.some.inj ho).symm hexception
  | unmade => exact absurd (Option.some.inj ho).symm hexception
  | ran hopens _ hleaves =>
    refine ⟨hopens.input, hskip, hleaves.stays (fun h => ?_) _ hfile⟩
    exact Bool.false_ne_true (hrm.symm.trans h.2.1)

/-- What an attempt writes: the headers that are shown, and a part of the body. -/
def RequestTask.written (T : RequestTask F Ref ι) (body : Nat → List UInt8) (k : Nat) :
    List UInt8 :=
  shownHeaders T.outside T.oc (T.tries k).transfer (T.loop k).2 ++ body k

/-- The body of an attempt whose output is kept is the first part of what there is to read, and all
of it if the attempt returns a status. -/
def RequestTask.Bodies (T : RequestTask F Ref ι) (w : World ι) (body : Nat → List UInt8) : Prop :=
  ∀ k, ¬ Removes T.oc T.path (T.outcomeAt w k) →
    body k <+: lastBody T.oc (T.tries k).transfer (T.loop k).1 ∧
      ∀ status, T.outcomeAt w k = some (.status status) →
        body k = lastBody T.oc (T.tries k).transfer (T.loop k).1

/-- The transfers of a task run and put their output into the file of the path. -/
structure RequestTask.Runs (T : RequestTask F Ref ι) : Prop where
  input : T.opt.input = []
  skip : T.oc.skipExisting = false
  file : AnyOstream.ofPath T.path = .file T.path
  opens : T.outside.sys.opens T.path = true
  request : ∃ request : Request F,
    createRequest T.outside.build T.oc.toOperationConfig T.msg T.url = .ok request
  name : (T.oc.contentDisposition && T.opt.remotename) = false

/-- The file of the output. -/
def RequestTask.file (T : RequestTask F Ref ι) (w : World ι) : List UInt8 :=
  (w.files (T.outside.sys.locate T.path)).getD []

omit [DecidableEq ι] in
theorem renamedBy_eq_none (h : T.Runs) (e : Ending F) :
    renamedBy T.outside T.oc T.opt e = none := by
  unfold renamedBy
  split
  · rw [renamedPath, h.name]
    rfl
  · rfl

/-- An attempt whose output is kept adds to the file, from where it starts. -/
theorem file_attempt (h : T.Runs) {w : World ι} {k : Nat}
    (hstays : ¬ Removes T.oc T.path (T.attempt k w).2) :
    ∃ body, body <+: lastBody T.oc (T.tries k).transfer (T.loop k).1 ∧
      T.file (T.attempt k w).1 = (if T.oc.resumeFrom.isSome then T.file w else []) ++
        (shownHeaders T.outside T.oc (T.tries k).transfer (T.loop k).2 ++ body) ∧
      ∀ status, (T.attempt k w).2 = some (.status status) →
        body = lastBody T.oc (T.tries k).transfer (T.loop k).1 := by
  have hno : ¬ Skips T.outside T.oc T.opt T.url w := fun hskips =>
    Bool.false_ne_true (h.skip.symm.trans hskips.1)
  have hfile : AnyOstream.ofPath (outputPath T.oc T.url T.opt) = .file T.path := h.file
  have hends := T.ends k w
  generalize T.attempt k w = t at hends hstays
  cases hends with
  | refused hne => exact absurd h.input hne
  | skipped _ hskips => exact absurd hskips hno
  | unopened _ _ hopen =>
    rw [AnyOstream.open, hfile] at hopen
    dsimp only at hopen
    rw [if_pos h.opens] at hopen
    cases hopen
  | unmade _ herror =>
    obtain ⟨request, hrequest⟩ := h.request
    cases hrequest.symm.trans herror
  | ran _ _ hleaves =>
    obtain ⟨q, body, hq, hbody, -, hcontents, hstatus⟩ := hleaves.kept
    obtain rfl : q = none := by
      rcases hq with hq | hq
      · exact hq
      · exact hq.trans (renamedBy_eq_none h _)
    refine ⟨body, hbody, ?_, fun status hs => (hstatus status hs).2.1⟩
    have hbase : w.base T.outside.sys T.path T.oc.resumeFrom.isSome =
        if T.oc.resumeFrom.isSome then T.file w else [] := by
      rw [World.base, h.file]
      rfl
    have hof : (AnyOstream.ofPath T.path).contents T.outside.sys t.1 = T.file t.1 := by
      rw [h.file]
      rfl
    rw [← hbase, ← hof]
    exact hcontents fun hremoves => absurd hremoves hstays

/-- The bodies of all attempts, and the file after each. -/
theorem exists_bodies (h : T.Runs) (w : World ι) :
    ∃ body, T.Bodies w body ∧ ∀ k, ¬ Removes T.oc T.path (T.outcomeAt w k) →
      T.file (T.worldAt w (k + 1)) =
        (if T.oc.resumeFrom.isSome then T.file (T.worldAt w k) else []) ++ T.written body k := by
  have hattempt (k : Nat) : ∃ body, ¬ Removes T.oc T.path (T.outcomeAt w k) →
      body <+: lastBody T.oc (T.tries k).transfer (T.loop k).1 ∧
      T.file (T.worldAt w (k + 1)) =
        (if T.oc.resumeFrom.isSome then T.file (T.worldAt w k) else []) ++
          (shownHeaders T.outside T.oc (T.tries k).transfer (T.loop k).2 ++ body) ∧
      ∀ status, T.outcomeAt w k = some (.status status) →
        body = lastBody T.oc (T.tries k).transfer (T.loop k).1 := by
    by_cases hremoves : Removes T.oc T.path (T.outcomeAt w k)
    · exact ⟨[], absurd hremoves⟩
    · obtain ⟨body, hbody⟩ := file_attempt h hremoves
      exact ⟨body, fun _ => hbody⟩
  choose body hbody using hattempt
  exact ⟨body, fun k hk => ⟨(hbody k hk).1, (hbody k hk).2.2⟩, fun k hk => (hbody k hk).2.1⟩

omit [Container F] [DecidableEq ι] in
/-- The output of a transfer that is resumed is never removed. -/
theorem not_removes (hresume : T.oc.resumeFrom.isSome = true) (o : Option Outcome) :
    ¬ Removes T.oc T.path o :=
  fun h => Bool.false_ne_true ((T.oc.keepsPartial hresume).symm.trans h.2.1)

/-- The file after some attempts of a transfer that is resumed. -/
theorem file_resumed (hresume : T.oc.resumeFrom.isSome = true) {body : Nat → List UInt8}
    (hfile : ∀ k, ¬ Removes T.oc T.path (T.outcomeAt w k) → T.file (T.worldAt w (k + 1)) =
      (if T.oc.resumeFrom.isSome then T.file (T.worldAt w k) else []) ++ T.written body k)
    (n : Nat) :
    T.file (T.worldAt w n) = T.file w ++ (List.range n).flatMap (T.written body) := by
  induction n with
  | zero => exact (List.append_nil _).symm
  | succ n ih =>
    rw [hfile n (not_removes hresume _), if_pos hresume, ih, List.range_succ, List.flatMap_append,
      List.append_assoc, List.flatMap_singleton]

/-- In the end the file of a transfer that is not resumed is what the last attempt wrote, if that
was not to remove it; that of one that is resumed is what was there first and what every attempt
wrote, one after the other. -/
theorem retried_output (T : RequestTask F Ref ι) (w : World ι) (rc : RetryConfig) (start : Int)
    (h : T.Runs) :
    ∃ body last, T.Bodies w body ∧ (T.retried w rc start).2.attempts = last + 1 ∧
      (T.oc.resumeFrom = none → ¬ Removes T.oc T.path (T.outcomeAt w last) →
        T.file (T.worldAt w (last + 1)) = T.written body last) ∧
      (T.oc.resumeFrom.isSome = true → T.file (T.worldAt w (last + 1)) =
        T.file w ++ (List.range (last + 1)).flatMap (T.written body)) := by
  obtain ⟨last, hlast⟩ := exists_endsAt rc start (T.attempts w)
  obtain ⟨body, hbody, hfile⟩ := exists_bodies h w
  refine ⟨body, last, hbody, hlast.ran, fun hresume hstays => ?_, fun hresume => ?_⟩
  · rw [hfile last hstays, hresume]
    rfl
  · exact file_resumed hresume hfile (last + 1)

end

/-! ## A transfer that is cut off -/

/-- The rest of a file, cut off after a byte or not. -/
def restOf (cut : Bool) : TryInput FieldList where
  transfer :=
    { exchanges := [{ hop home with
        response := some ⟨206, true, false, [(Field.contentRange, "bytes 2-3/4".toList)]⟩ }]
      chunks := if cut then [[0x63]] else [[0x63], [0x64]]
      readError := if cut then some .operationAborted else none }

/-- `burl -o f a.org` with options; the first transfer is cut off. -/
def cutTask (oc : OutputConfig) : RequestTask FieldList Url (List Char) where
  outside := ⟨twoSites, none, ⟨true, true⟩, ⟨id, fun _ => true, false, false⟩,
    fun _ => .error .mismatch, fun _ => []⟩
  oc := oc
  expCookies := []
  msg := none
  opt := ⟨[], "f".toList, [], false⟩
  url := home
  tries := fun k => restOf (k = 0)

/-- A file of two bytes. -/
def twoBytes : World (List Char) where
  files := fun path => if path = "f".toList then some [0x61, 0x62] else none

/-- `--retry 1 --continue-at 2`. -/
theorem retried_output_resumed :
    let T := cutTask { resumeFrom := some 2 }
    ∃ body last, T.Bodies twoBytes body ∧
      (T.retried twoBytes { reqRetry := 1 } 0).2.attempts = last + 1 ∧
      (T.oc.resumeFrom = none → ¬ Removes T.oc T.path (T.outcomeAt twoBytes last) →
        T.file (T.worldAt twoBytes (last + 1)) = T.written body last) ∧
      (T.oc.resumeFrom.isSome = true → T.file (T.worldAt twoBytes (last + 1)) =
        T.file twoBytes ++ (List.range (last + 1)).flatMap (T.written body)) :=
  retried_output (cutTask { resumeFrom := some 2 }) twoBytes { reqRetry := 1 } 0
    ⟨rfl, rfl, rfl, rfl, ⟨_, rfl⟩, rfl⟩

/-- What came before the cut is in the file twice. -/
example : (cutTask { resumeFrom := some 2 }).file
    ((cutTask { resumeFrom := some 2 }).worldAt twoBytes 2) =
      [0x61, 0x62, 0x63, 0x63, 0x64] := by
  decide +kernel

end Beast2.Burl
