import Beast2.Burl.Output

/-!
# What a transfer leaves behind

A transfer that does not open its output changes nothing, and one that cannot make its request
leaves the output as it was opened. Every other changes no file but its output's and the one that a
Content-Disposition field names, which is in the output directory. If it returns, its output holds
what was there before, where it resumes a transfer, the headers that are shown and the whole body;
if it throws, it holds a part of that, or is gone if it is to be removed (`transfer_leaves`).

All of that follows from where the bytes of one transfer go: to its output from when it was opened,
or, after the name was changed, to the other one, and then there are none before (`Delivery`).
-/

namespace Beast2.Burl

open Fields Grammar

section
variable {ι : Type} [DecidableEq ι] {sys : System ι} {w w' : World ι} {s : AnyOstream}
  {path : List Char} {append : Bool} {a b : List UInt8}

/-! ## Streams -/

/-- What has been written to a stream. -/
def AnyOstream.contents (sys : System ι) (s : AnyOstream) (w : World ι) : List UInt8 :=
  match s with
  | .file path => (w.files (sys.locate path)).getD []
  | .cout => w.cout
  | .cerr => w.cerr

/-- The file of a stream. -/
def AnyOstream.isFile (sys : System ι) (s : AnyOstream) (i : ι) : Prop :=
  ∃ path, s = .file path ∧ i = sys.locate path

/-- The world after an output was opened. -/
def World.opened (sys : System ι) (path : List Char) (append : Bool) (w : World ι) : World ι :=
  match AnyOstream.ofPath path with
  | .file path => w.setFile (sys.locate path)
      (some (if append then (w.files (sys.locate path)).getD [] else []))
  | _ => w

@[simp] theorem World.setFile_self (i : ι) (c : Option (List UInt8)) :
    (w.setFile i c).files i = c := if_pos rfl

theorem World.setFile_ne {i j : ι} (h : j ≠ i) (c : Option (List UInt8)) :
    (w.setFile i c).files j = w.files j := if_neg h

theorem World.setFile_setFile (i : ι) (c c' : Option (List UInt8)) :
    (w.setFile i c).setFile i c' = w.setFile i c' := by
  unfold World.setFile
  simp only [World.mk.injEq, and_true]
  funext j
  split <;> rfl

/-- What an output that could be opened is, and the world then. -/
theorem open_eq (h : AnyOstream.open sys path append w = some (s, w')) :
    s = AnyOstream.ofPath path ∧ w' = w.opened sys path append := by
  rw [AnyOstream.open] at h
  rw [World.opened]
  cases hs : AnyOstream.ofPath path with
  | file p =>
    rw [hs] at h
    dsimp only at h
    split at h
    · cases h
      exact ⟨rfl, rfl⟩
    · cases h
  | cout =>
    rw [hs] at h
    cases h
    exact ⟨rfl, rfl⟩
  | cerr =>
    rw [hs] at h
    cases h
    exact ⟨rfl, rfl⟩

theorem write_write :
    s.write sys b (s.write sys a w) = s.write sys (a ++ b) w := by
  cases s with
  | file path =>
    simp only [AnyOstream.write, World.setFile_self, World.setFile_setFile, Option.getD_some,
      List.append_assoc]
  | cout => simp only [AnyOstream.write, List.append_assoc]
  | cerr => simp only [AnyOstream.write, List.append_assoc]

/-- Nothing is written to an output that was opened. -/
theorem write_nil_opened :
    (AnyOstream.ofPath path).write sys [] (w.opened sys path append) =
      w.opened sys path append := by
  unfold World.opened
  cases AnyOstream.ofPath path with
  | file p => simp only [AnyOstream.write, World.setFile_self, World.setFile_setFile,
      Option.getD_some, List.append_nil]
  | cout => simp only [AnyOstream.write, List.append_nil]
  | cerr => simp only [AnyOstream.write, List.append_nil]

theorem contents_write : s.contents sys (s.write sys a w) = s.contents sys w ++ a := by
  cases s with
  | file path => simp only [AnyOstream.write, AnyOstream.contents, World.setFile_self,
      Option.getD_some]
  | cout => rfl
  | cerr => rfl

theorem files_write {i : ι} (h : ¬ s.isFile sys i) : (s.write sys a w).files i = w.files i := by
  cases s with
  | file path => exact World.setFile_ne (fun hi => h ⟨path, rfl, hi⟩) _
  | cout => rfl
  | cerr => rfl

/-- Another file is not what a stream has been written to. -/
theorem contents_setFile {i : ι} (h : ¬ s.isFile sys i) (c : Option (List UInt8)) :
    s.contents sys (w.setFile i c) = s.contents sys w := by
  cases s with
  | file path =>
    have hne : sys.locate path ≠ i := fun heq => h ⟨path, rfl, heq.symm⟩
    exact congrArg (·.getD []) (World.setFile_ne hne c)
  | cout => rfl
  | cerr => rfl

theorem files_opened {i : ι} (h : ¬ (AnyOstream.ofPath path).isFile sys i) :
    (w.opened sys path append).files i = w.files i := by
  unfold World.opened
  split
  · next p hp => exact World.setFile_ne (fun hi => h ⟨p, hp, hi⟩) _
  · rfl

/-- What an output starts from: the old contents of a file that it appends to, or what the standard
stream was given before. -/
def World.base (sys : System ι) (path : List Char) (append : Bool) (w : World ι) : List UInt8 :=
  match AnyOstream.ofPath path with
  | .file path => if append then (w.files (sys.locate path)).getD [] else []
  | .cout => w.cout
  | .cerr => w.cerr

theorem contents_opened :
    (AnyOstream.ofPath path).contents sys (w.opened sys path append) = w.base sys path append := by
  unfold World.opened World.base
  cases AnyOstream.ofPath path with
  | file p => simp only [AnyOstream.contents, World.setFile_self, Option.getD_some]
  | cout => rfl
  | cerr => rfl

/-- Opening another file does not change what an output starts from if it empties the file. -/
theorem base_opened (q : List Char) :
    (w.opened sys path append).base sys q false = w.base sys q false := by
  have hstd : (w.opened sys path append).cout = w.cout ∧
      (w.opened sys path append).cerr = w.cerr := by
    unfold World.opened
    cases AnyOstream.ofPath path with
    | file p => exact ⟨rfl, rfl⟩
    | cout => exact ⟨rfl, rfl⟩
    | cerr => exact ⟨rfl, rfl⟩
  unfold World.base
  cases AnyOstream.ofPath q with
  | file p => rfl
  | cout => exact hstd.1
  | cerr => exact hstd.2

/-- The chunks that a sink takes are the first ones, and all of them unless one of them is binary
and the output is a terminal; none that it takes is. -/
theorem sinkWrites_eq (sys : System ι) (s : AnyOstream) (w : World ι) (ok : Bool)
    (chunks : List (List UInt8)) (a : List UInt8) :
    ∃ taken, taken <+: chunks ∧
      (sinkWrites sys ok s chunks (s.write sys a w)).1 = s.write sys (a ++ taken.flatten) w ∧
      ((sinkWrites sys ok s chunks (s.write sys a w)).2 = true → taken = chunks) ∧
      (ok = false → s.isTty sys = true → 0 ∉ taken.flatten) := by
  induction chunks generalizing a with
  | nil =>
    refine ⟨[], List.nil_prefix, ?_, fun _ => rfl, fun _ _ => List.not_mem_nil⟩
    rw [List.flatten_nil, List.append_nil]
    rfl
  | cons chunk chunks ih =>
    rw [sinkWrites]
    split
    · refine ⟨[], List.nil_prefix, ?_, fun h => (by cases h), fun _ _ => List.not_mem_nil⟩
      rw [List.flatten_nil, List.append_nil]
    · next hplain =>
      rw [write_write]
      obtain ⟨taken, hprefix, hworld, hall, hbinary⟩ := ih (a ++ chunk)
      refine ⟨chunk :: taken, List.cons_prefix_cons.2 ⟨rfl, hprefix⟩, ?_, fun h => ?_, ?_⟩
      · rw [hworld, List.flatten_cons, List.append_assoc]
      · rw [hall h]
      · intro hok htty hzero
        rw [List.flatten_cons, List.mem_append] at hzero
        rcases hzero with hzero | hzero
        · refine hplain ?_
          simp [hok, htty, hzero]
        · exact hbinary hok htty hzero

/-! ## Deliveries -/

/-- The world after an output was opened, another one in its place if there is one, and bytes were
written to the last one. -/
def World.deliver (sys : System ι) (path : List Char) (append : Bool) (w : World ι) :
    Option (List Char) → List UInt8 → World ι
  | none, bytes => (AnyOstream.ofPath path).write sys bytes (w.opened sys path append)
  | some q, bytes =>
    (AnyOstream.ofPath q).write sys bytes ((w.opened sys path append).opened sys q false)

/-- The contents of the output after a delivery. -/
theorem contents_deliver (q : Option (List Char)) (written : List UInt8) :
    (AnyOstream.ofPath (q.getD path)).contents sys (w.deliver sys path append q written) =
      w.base sys (q.getD path) (q.isNone && append) ++ written := by
  cases q with
  | none => exact contents_write.trans (congrArg (· ++ written) contents_opened)
  | some q =>
    refine contents_write.trans (congrArg (· ++ written) ?_)
    exact contents_opened.trans (base_opened q)

/-- A delivery changes no other files. -/
theorem files_deliver {i : ι} {q : Option (List Char)} {written : List UInt8}
    (hpath : i ≠ sys.locate path) (hq : ∀ p, q = some p → i ≠ sys.locate p) :
    (w.deliver sys path append q written).files i = w.files i := by
  have hnot (p : List Char) (hp : i ≠ sys.locate p) :
      ¬ (AnyOstream.ofPath p).isFile sys i := by
    rintro ⟨p', hfile, hi⟩
    unfold AnyOstream.ofPath at hfile
    split at hfile
    · cases hfile
    · split at hfile
      · cases hfile
      · cases hfile
        exact hp hi
  cases q with
  | none => exact (files_write (hnot path hpath)).trans (files_opened (hnot path hpath))
  | some p =>
    have hp := hnot p (hq p rfl)
    exact ((files_write hp).trans (files_opened hp)).trans (files_opened (hnot path hpath))

/-- Files that are there stay there. -/
theorem exists_write {i : ι} (h : (w.files i).isSome = true) :
    ((s.write sys a w).files i).isSome = true := by
  cases s with
  | file p =>
    show (if i = sys.locate p then _ else w.files i).isSome = true
    split
    · rfl
    · exact h
  | cout => exact h
  | cerr => exact h

theorem exists_opened_of {i : ι} (h : (w.files i).isSome = true) :
    ((w.opened sys path append).files i).isSome = true := by
  unfold World.opened
  cases AnyOstream.ofPath path with
  | file p =>
    show (if i = sys.locate p then _ else w.files i).isSome = true
    split
    · rfl
    · exact h
  | cout => exact h
  | cerr => exact h

/-- The output is there after a delivery. -/
theorem exists_deliver {q : Option (List Char)} {written : List UInt8}
    {p : List Char} (hp : AnyOstream.ofPath path = .file p) :
    (w.deliver sys path append q written).exists sys p = true := by
  have hopened : (w.opened sys path append).exists sys p = true := by
    rw [World.exists, World.opened, hp]
    dsimp only
    rw [World.setFile_self]
    rfl
  cases q with
  | none => exact exists_write hopened
  | some q => exact exists_write (exists_opened_of hopened)

end

/-! ## Names -/

/-- The name of a path has no directory in it. -/
theorem slash_not_mem_pathFilename (p : List Char) : '/' ∉ pathFilename p := by
  intro h
  unfold pathFilename at h
  have hne := List.mem_takeWhile_imp (List.mem_reverse.1 h)
  exact absurd hne (by decide)

section
variable {F Ref ι : Type} [Container F] {E : Outside F Ref ι} {oc : OutputConfig}
  {opt : RequestOpt} {res : Response F}

/-- The other file is in the output directory, and no headers are shown before it is opened. -/
theorem renamedPath_eq {q : List Char} (h : renamedPath E oc opt res = some q) :
    oc.showHeaders = false ∧ ∃ name, name ≠ [] ∧ '/' ∉ name ∧ q = pathAppend oc.outputDir name := by
  unfold renamedPath at h
  split at h
  · next hoptions =>
    rw [Bool.and_eq_true] at hoptions
    refine ⟨?_, ?_⟩
    · by_contra hshow
      rw [Bool.not_eq_false] at hshow
      rw [oc.keepsName hshow] at hoptions
      exact Bool.false_ne_true hoptions.1
    · obtain ⟨sv, -, hsv⟩ := List.exists_of_findSome?_eq_some h
      obtain ⟨filepath, -, hname⟩ := Option.bind_eq_some_iff.1 hsv
      dsimp only at hname
      split at hname
      · cases hname
      · next hne =>
        cases hname
        exact ⟨_, hne, slash_not_mem_pathFilename filepath, rfl⟩
  · cases h

end

/-! ## Where a transfer writes -/

section
variable {F Ref ι : Type} [Container F] [DecidableEq ι]

/-- The bytes of a body that are written. -/
def bodyBytes (oc : OutputConfig) (x : TransferInput F) (res : Response F) : List UInt8 :=
  if shouldIgnoreBody oc res then [] else x.chunks.flatten

/-- The bytes of the body of the last response, if there was one. -/
def lastBody (oc : OutputConfig) (x : TransferInput F) : Ending F → List UInt8
  | .response res => bodyBytes oc x res
  | _ => []

/-- The other path, if there was a last response. -/
def renamedBy (E : Outside F Ref ι) (oc : OutputConfig) (opt : RequestOpt) :
    Ending F → Option (List Char)
  | .response res => renamedPath E oc opt res
  | _ => none

variable {E : Outside F Ref ι} {oc : OutputConfig} {opt : RequestOpt} {x : TransferInput F}
  {res : Response F} {w : World ι} {path : List Char}

/-- A terminal gets no binary bytes of a body, unless that is asked for. -/
def Guarded (E : Outside F Ref ι) (oc : OutputConfig) (opt : RequestOpt) (s : AnyOstream)
    (body : List UInt8) : Prop :=
  binaryOk oc opt = false → s.isTty E.sys = true → 0 ∉ body

/-- A body goes to the output, from what is there on. -/
theorem readBody_eq (E : Outside F Ref ι) (oc : OutputConfig) (opt : RequestOpt)
    (x : TransferInput F) (res : Response F) (w : World ι) (s : AnyOstream) (a : List UInt8) :
    ∃ body, body <+: bodyBytes oc x res ∧ Guarded E oc opt s body ∧
      (readBody E oc opt x res s (s.write E.sys a w)).1 = s.write E.sys (a ++ body) w ∧
      ∀ status, (readBody E oc opt x res s (s.write E.sys a w)).2 = .status status →
        body = bodyBytes oc x res ∧ status = res.status := by
  have hnone : Guarded E oc opt s [] := fun _ _ => List.not_mem_nil
  unfold readBody
  split
  · refine ⟨[], List.nil_prefix, hnone, ?_, fun status h => (by cases h)⟩
    rw [List.append_nil]
  · cases hignore : shouldIgnoreBody oc res with
    | true =>
      rw [bodyBytes, if_pos hignore, if_pos rfl]
      refine ⟨[], List.prefix_refl [], hnone, ?_, fun status h => ?_⟩
      · rw [List.append_nil]
        dsimp only
        split <;> rfl
      · dsimp only at h
        split at h
        · cases h
        · cases h
          exact ⟨rfl, rfl⟩
    | false =>
      rw [bodyBytes, hignore, if_neg Bool.false_ne_true, if_neg Bool.false_ne_true]
      obtain ⟨taken, ⟨rest, hrest⟩, hworld, hall, hbinary⟩ :=
        sinkWrites_eq E.sys s w (binaryOk oc opt) x.chunks a
      refine ⟨taken.flatten, ?_, hbinary, ?_, fun status h => ?_⟩
      · rw [← hrest, List.flatten_append]
        exact List.prefix_append _ _
      · dsimp only
        split
        · exact hworld
        · split <;> exact hworld
      · dsimp only at h
        split at h
        · cases h
        · next hnone =>
          split at h
          · cases h
          · cases h
            refine ⟨?_, rfl⟩
            split at hnone
            · next hok => rw [hall hok]
            · cases hnone

/-- From the last response on, the bytes go to the output or to the other one. -/
theorem finishTransfer_eq (E : Outside F Ref ι) (opt : RequestOpt) (x : TransferInput F)
    (res : Response F) (w : World ι) (path : List Char) (append : Bool) {a : List UInt8}
    (hshown : oc.showHeaders = false → a = []) :
    let t := finishTransfer E oc opt x res (AnyOstream.ofPath path)
      (w.deliver E.sys path append none a)
    ∃ q body, (q = none ∨ q = renamedPath E oc opt res) ∧ body <+: bodyBytes oc x res ∧
      Guarded E oc opt (AnyOstream.ofPath (q.getD path)) body ∧
      t.1 = w.deliver E.sys path append q (a ++ body) ∧
      ∀ status, t.2 = .status status →
        q = renamedPath E oc opt res ∧ body = bodyBytes oc x res ∧ status = res.status := by
  have hnone (s : AnyOstream) : Guarded E oc opt s [] := fun _ _ => List.not_mem_nil
  dsimp only
  unfold finishTransfer
  split
  · refine ⟨none, [], .inl rfl, List.nil_prefix, hnone _, ?_, fun status h => (by cases h)⟩
    rw [List.append_nil]
  · cases hq : renamedPath E oc opt res with
    | none =>
      have hsame : renameOutput E oc opt res (AnyOstream.ofPath path)
          (w.deliver E.sys path append none a) =
          some (AnyOstream.ofPath path, w.deliver E.sys path append none a) := by
        rw [renameOutput, hq]
      rw [hsame]
      obtain ⟨body, hprefix, hguard, hworld, hstatus⟩ :=
        readBody_eq E oc opt x res (w.opened E.sys path append) (AnyOstream.ofPath path) a
      exact ⟨none, body, .inl rfl, hprefix, hguard, hworld,
        fun status h => ⟨rfl, hstatus status h⟩⟩
    | some q =>
      obtain rfl := hshown (renamedPath_eq hq).1
      have hother : renameOutput E oc opt res (AnyOstream.ofPath path)
          (w.deliver E.sys path append none []) =
          AnyOstream.open E.sys q false (w.opened E.sys path append) := by
        rw [renameOutput, hq, World.deliver, write_nil_opened]
      rw [hother]
      cases hopen : AnyOstream.open E.sys q false (w.opened E.sys path append) with
      | none =>
        exact ⟨none, [], .inl rfl, List.nil_prefix, hnone _, rfl, fun status h => (by cases h)⟩
      | some r =>
        obtain ⟨s, w'⟩ := r
        obtain ⟨rfl, rfl⟩ := open_eq hopen
        obtain ⟨body, hprefix, hguard, hworld, hstatus⟩ := readBody_eq E oc opt x res
          ((w.opened E.sys path append).opened E.sys q false) (AnyOstream.ofPath q) []
        rw [write_nil_opened] at hworld hstatus
        exact ⟨some q, body, .inr rfl, hprefix, hguard, hworld,
          fun status h => ⟨rfl, hstatus status h⟩⟩

omit [DecidableEq ι] in
theorem shownHeaders_eq_nil (h : oc.showHeaders = false) (log : List (Event F)) :
    shownHeaders E oc x log = [] := by
  rw [shownHeaders, h]
  rfl

/-- From the connection on, the headers that are shown and a part of the last body go to the output,
or that part goes to the other one. -/
theorem runTransfer_eq (E : Outside F Ref ι) (oc : OutputConfig) (opt : RequestOpt)
    (x : TransferInput F) (w : World ι) (path : List Char) (r : Ending F × List (Event F))
    (append : Bool) :
    let t := runTransfer E oc opt x r (AnyOstream.ofPath path) (w.opened E.sys path append)
    ∃ q body, (q = none ∨ q = renamedBy E oc opt r.1) ∧ body <+: lastBody oc x r.1 ∧
      Guarded E oc opt (AnyOstream.ofPath (q.getD path)) body ∧
      t.1 = w.deliver E.sys path append q (shownHeaders E oc x r.2 ++ body) ∧
      ∀ status, t.2 = some (.status status) → q = renamedBy E oc opt r.1 ∧
        body = lastBody oc x r.1 ∧ ∃ res, r.1 = .response res ∧ status = res.status := by
  obtain ⟨ending, log⟩ := r
  have hnone : Guarded E oc opt (AnyOstream.ofPath path) [] := fun _ _ => List.not_mem_nil
  have hworld : (AnyOstream.ofPath path).write E.sys (shownHeaders E oc x log)
      (w.opened E.sys path append) =
      w.deliver E.sys path append none (shownHeaders E oc x log ++ []) := by
    rw [List.append_nil]
    rfl
  cases ending with
  | waiting =>
    exact ⟨none, [], .inl rfl, List.nil_prefix, hnone, hworld, fun status h => (by cases h)⟩
  | thrown what =>
    exact ⟨none, [], .inl rfl, List.nil_prefix, hnone, hworld, fun status h => (by cases h)⟩
  | callThrew =>
    refine ⟨none, [], .inl rfl, List.nil_prefix, hnone, hworld, fun status h => ?_⟩
    have hthrows := x.throws
    rw [Option.some.inj h] at hthrows
    cases hthrows
  | response res =>
    obtain ⟨q, body, hq, hprefix, hguard, hworld, hstatus⟩ :=
      finishTransfer_eq E opt x res w path append fun h =>
        shownHeaders_eq_nil (E := E) (x := x) h log
    refine ⟨q, body, hq, hprefix, hguard, hworld, fun status h => ?_⟩
    obtain ⟨hq, hall, rfl⟩ := hstatus status (Option.some.inj h)
    exact ⟨hq, hall, res, rfl, rfl⟩

/-! ## Files -/

/-- `scope_fail` removes the output. -/
def Removes (oc : OutputConfig) (path : List Char) (o : Option Outcome) : Prop :=
  o.any Outcome.threw = true ∧ oc.rmPartial = true ∧ path ≠ "-".toList

/-- What a transfer that made its request leaves behind, in terms of the redirect loop `r`. -/
structure Leaves (E : Outside F Ref ι) (oc : OutputConfig) (opt : RequestOpt)
    (x : TransferInput F) (path : List Char) (r : Ending F × List (Event F)) (w : World ι)
    (t : World ι × Option Outcome) : Prop where
  frame : ∀ i, i ≠ E.sys.locate path →
    (∀ q, renamedBy E oc opt r.1 = some q → i ≠ E.sys.locate q) → t.1.files i = w.files i
  confined : ∀ q, renamedBy E oc opt r.1 = some q →
    ∃ name, name ≠ [] ∧ '/' ∉ name ∧ q = pathAppend oc.outputDir name
  removed : Removes oc path t.2 → t.1.files (E.sys.locate path) = none
  stays : ¬ Removes oc path t.2 → ∀ p, AnyOstream.ofPath path = .file p →
    t.1.exists E.sys p = true
  kept : ∃ q body, (q = none ∨ q = renamedBy E oc opt r.1) ∧
    body <+: lastBody oc x r.1 ∧ Guarded E oc opt (AnyOstream.ofPath (q.getD path)) body ∧
    ((Removes oc path t.2 →
        ¬ (AnyOstream.ofPath (q.getD path)).isFile E.sys (E.sys.locate path)) →
      (AnyOstream.ofPath (q.getD path)).contents E.sys t.1 =
        w.base E.sys (q.getD path) (q.isNone && oc.resumeFrom.isSome) ++
          (shownHeaders E oc x r.2 ++ body)) ∧
    ∀ status, t.2 = some (.status status) → q = renamedBy E oc opt r.1 ∧
      body = lastBody oc x r.1 ∧ ∃ res, r.1 = .response res ∧ status = res.status

/-- What is left after the output was opened. -/
theorem leaves_runTransfer (r : Ending F × List (Event F)) :
    let t := runTransfer E oc opt x r (AnyOstream.ofPath path)
      (w.opened E.sys path oc.resumeFrom.isSome)
    Leaves E oc opt x path r w (removePartial E oc path t.2 t.1, t.2) := by
  intro t
  obtain ⟨q, body, hq, hbody, hguard, hworld, hstatus⟩ :=
    runTransfer_eq E oc opt x w path r oc.resumeFrom.isSome
  have hremoves : (t.2.any Outcome.threw && oc.rmPartial && path != "-".toList) = true ↔
      Removes oc path t.2 := by
    simp [Removes, and_assoc]
  refine ⟨fun i hpath hrenamed => ?_, fun q hq => ?_, fun h => ?_, fun h p hp => ?_, ?_⟩
  · have hfiles : t.1.files i = w.files i := by
      rw [hworld]
      refine files_deliver hpath ?_
      rintro p rfl
      rcases hq with hq | hq
      · cases hq
      · exact hrenamed p hq.symm
    unfold removePartial
    split
    · exact (World.setFile_ne hpath none).trans hfiles
    · exact hfiles
  · unfold renamedBy at hq
    split at hq
    · exact (renamedPath_eq hq).2
    · cases hq
  · show (removePartial E oc path t.2 t.1).files _ = none
    rw [removePartial, if_pos (hremoves.2 h), World.setFile_self]
  · show (removePartial E oc path t.2 t.1).exists E.sys p = true
    rw [removePartial, if_neg (mt hremoves.1 h), hworld]
    exact exists_deliver hp
  · refine ⟨q, body, hq, hbody, hguard, fun hother => ?_, hstatus⟩
    have hcontents : (AnyOstream.ofPath (q.getD path)).contents E.sys t.1 =
        w.base E.sys (q.getD path) (q.isNone && oc.resumeFrom.isSome) ++
          (shownHeaders E oc x r.2 ++ body) := by
      rw [hworld, contents_deliver]
    show (AnyOstream.ofPath (q.getD path)).contents E.sys (removePartial E oc path t.2 t.1) = _
    unfold removePartial
    split
    · next h => exact (contents_setFile (hother (hremoves.1 h)) none).trans hcontents
    · exact hcontents

/-- The output exists, and existing outputs are skipped. -/
def Skips (E : Outside F Ref ι) (oc : OutputConfig) (opt : RequestOpt) (url : Url) (w : World ι) :
    Prop :=
  oc.skipExisting = true ∧ w.exists E.sys (outputPath oc url opt) = true

/-- The transfer opens its output: it is not to upload a file, the output is not to be skipped, and
it can be opened. -/
structure Opens (E : Outside F Ref ι) (oc : OutputConfig) (opt : RequestOpt) (url : Url)
    (w : World ι) : Prop where
  input : opt.input = []
  noSkip : ¬ Skips E oc opt url w
  opened : (AnyOstream.open E.sys (outputPath oc url opt) oc.resumeFrom.isSome w).isSome = true

/-- How a transfer ends, and what it leaves behind: it does nothing if it is to upload a file, if
its output exists and is to be skipped, or if its output cannot be opened; it leaves an output that
is only opened if no request can be made; or it runs. -/
inductive TransferEnds (E : Outside F Ref ι) (oc : OutputConfig) (expCookies : List Char)
    (msg : Message) (opt : RequestOpt) (url : Url) (x : TransferInput F) (w : World ι) :
    World ι × Option Outcome → Prop where
  | refused (hinput : opt.input ≠ []) : TransferEnds E oc expCookies msg opt url x w
      (w, some .exception)
  | skipped (hinput : opt.input = []) (hskip : Skips E oc opt url w) :
      TransferEnds E oc expCookies msg opt url x w (w, some (.status 200))
  | unopened (hinput : opt.input = []) (hskip : ¬ Skips E oc opt url w)
      (hopen : AnyOstream.open E.sys (outputPath oc url opt) oc.resumeFrom.isSome w = none) :
      TransferEnds E oc expCookies msg opt url x w (w, some .exception)
  | unmade (hopens : Opens E oc opt url w) {what : String}
      (hrequest : createRequest E.build oc.toOperationConfig msg url =
        .error (α := Request F) what) :
      TransferEnds E oc expCookies msg opt url x w
        (w.opened E.sys (outputPath oc url opt) oc.resumeFrom.isSome, some .exception)
  | ran (hopens : Opens E oc opt url w) {request : Request F}
      (hrequest : createRequest E.build oc.toOperationConfig msg url = .ok request)
      {t : World ι × Option Outcome}
      (h : Leaves E oc opt x (outputPath oc url opt) (transferLoop E oc expCookies msg url x) w t) :
      TransferEnds E oc expCookies msg opt url x w t

theorem ends_performTransfer (expCookies : List Char) (msg : Message) (url : Url) :
    TransferEnds E oc expCookies msg opt url x w
      (performTransfer E oc expCookies msg opt url x w) := by
  unfold performTransfer
  split
  · next hinput => exact .refused (by simpa using hinput)
  · next hinput =>
    have hnil : opt.input = [] := by simpa using hinput
    dsimp only
    split
    · next hskip => exact .skipped hnil ((Bool.and_eq_true _ _).mp hskip)
    · next hskip =>
      have hno : ¬ Skips E oc opt url w := fun h => hskip ((Bool.and_eq_true _ _).mpr h)
      split
      · next hopen => exact .unopened hnil hno hopen
      · next s w' hopen =>
        have hopens : Opens E oc opt url w := ⟨hnil, hno, by rw [hopen]; rfl⟩
        obtain ⟨rfl, rfl⟩ := open_eq hopen
        split
        · next what hrequest => exact .unmade hopens hrequest
        · next request hrequest => exact .ran hopens hrequest (leaves_runTransfer _)

end

end Beast2.Burl
