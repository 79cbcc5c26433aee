import Beast2.Burl.ContentDisposition
import Beast2.Burl.Perform
import Beast2.Burl.RequestOpts
import Beast2.Burl.Retry

/-!
# The output of a transfer

`perform_request` opens its output before it sends anything, writes the headers of the responses to
it if it is to show them, may change to another file for the name in Content-Disposition, and gives
the last body to a `sink`. If it throws after the request was made, it may remove the file it opened
first (`main.cpp:340-641`).

A path leads to a file by the parameter `System.locate`, and a file is its contents once its streams
are closed. A write appends: there is never more than one stream that was written to. That a write
fails, the file of `--dump-header`, the progress meter, `--create-dirs` and `--continue-at -` are
left out; the last two read the output's path before it has a value.
-/

namespace Beast2.Burl

open Fields Grammar

/-! ## Paths -/

/-- `fs::path::operator/=` for POSIX. -/
def pathAppend (p q : List Char) : List Char :=
  if q.head? = some '/' then q
  else if p = [] ∨ p.getLast? = some '/' then p ++ q
  else p ++ '/' :: q

/-- `fs::path::filename`. -/
def pathFilename (p : List Char) : List Char := (p.reverse.takeWhile (· != '/')).reverse

/-! ## Streams -/

/-- `any_ostream`: a file, or a standard stream. Reference: `any_iostream.hpp`. -/
inductive AnyOstream where
  | file (path : List Char)
  | cout
  | cerr
deriving DecidableEq, Repr

/-- What is outside the program: the contents of the files, and what was written to the standard
streams. -/
structure World (ι : Type) where
  files : ι → Option (List UInt8)
  cout : List UInt8 := []
  cerr : List UInt8 := []

/-- The file that a path leads to, whether it can be opened for writing, and whether the standard
streams are terminals. -/
structure System (ι : Type) where
  locate : List Char → ι
  opens : List Char → Bool
  coutTty : Bool := false
  cerrTty : Bool := false

/-- The stream for a path. Reference: `any_iostream.cpp:41-51`. -/
def AnyOstream.ofPath (path : List Char) : AnyOstream :=
  if path = "-".toList then .cout else if path = "%".toList then .cerr else .file path

section
variable {ι : Type} [DecidableEq ι]

/-- The world with other contents of a file. -/
def World.setFile (w : World ι) (i : ι) (contents : Option (List UInt8)) : World ι :=
  { w with files := fun j => if j = i then contents else w.files j }

/-- `fs::exists`. -/
def World.exists (sys : System ι) (w : World ι) (path : List Char) : Bool :=
  (w.files (sys.locate path)).isSome

/-- The constructor of `any_ostream`, which empties a file that it does not append to; `none` if it
throws. Reference: `any_iostream.cpp:39-62`. -/
def AnyOstream.open (sys : System ι) (path : List Char) (append : Bool) (w : World ι) :
    Option (AnyOstream × World ι) :=
  match AnyOstream.ofPath path with
  | .file path =>
    if sys.opens path then
      let old := if append then (w.files (sys.locate path)).getD [] else []
      some (.file path, w.setFile (sys.locate path) (some old))
    else none
  | s => some (s, w)

/-- `is_tty`. -/
def AnyOstream.isTty (sys : System ι) : AnyOstream → Bool
  | .file _ => false
  | .cout => sys.coutTty
  | .cerr => sys.cerrTty

/-- `operator<<`. -/
def AnyOstream.write (sys : System ι) (s : AnyOstream) (bytes : List UInt8) (w : World ι) :
    World ι :=
  match s with
  | .file path =>
    w.setFile (sys.locate path) (some ((w.files (sys.locate path)).getD [] ++ bytes))
  | .cout => { w with cout := w.cout ++ bytes }
  | .cerr => { w with cerr := w.cerr ++ bytes }

/-- `sink::on_write` for the chunks of a body: the world after them, and whether the last one was
refused. Reference: `main.cpp:327-339`. -/
def sinkWrites (sys : System ι) (terminalBinaryOk : Bool) (s : AnyOstream) :
    List (List UInt8) → World ι → World ι × Bool
  | [], w => (w, true)
  | chunk :: chunks, w =>
    if !terminalBinaryOk && s.isTty sys && chunk.contains 0 then (w, false)
    else sinkWrites sys terminalBinaryOk s chunks (s.write sys chunk w)

end

/-! ## The transfer -/

namespace Field

def contentDisposition : List Char := "Content-Disposition".toList
def contentRange : List Char := "Content-Range".toList

end Field

/-- The options of `operation_config` that the output depends on. `parse_args` refuses
`--continue-at` with `--remove-on-error` and headers with `--remote-header-name`. Reference:
`options.hpp:32, options.cpp:540, 619`. -/
structure OutputConfig extends OperationConfig where
  outputDir : List Char := []
  skipExisting : Bool := false
  rmPartial : Bool := false
  failonerror : Bool := false
  failwithbody : Bool := false
  showHeaders : Bool := false
  contentDisposition : Bool := false
  terminalBinaryOk : Bool := false
  keepsPartial : resumeFrom.isSome = true → rmPartial = false := by simp
  keepsName : showHeaders = true → contentDisposition = false := by simp

/-- What a transfer depends on that is the same for all transfers. `buffer` is the text of the
header of a response, `beyond` what is read behind a field value. -/
structure Outside (F Ref ι : Type) where
  urls : Urls Ref
  psl : Psl
  build : Build
  sys : System ι
  beyond : Rule (List Char)
  buffer : Response F → List UInt8

/-- The task ended by an exception. -/
def Outcome.threw : Outcome → Bool
  | .status _ => false
  | _ => true

/-- What comes from outside in one transfer: the jar, whether the first connection succeeds, the
exchanges, the chunks of the last body and how reading it ends if not well, and what a call throws
that does. -/
structure TransferInput (F : Type) where
  jar : Option (List Cookie) := none
  connected : Bool := true
  exchanges : List (Exchange F)
  chunks : List (List UInt8) := []
  readError : Option ErrorCode := none
  callError : Outcome := .exception
  throws : callError.threw = true := by rfl

/-- `output_path`. Reference: `main.cpp:381-421`. -/
def outputPath (oc : OutputConfig) (url : Url) (opt : RequestOpt) : List Char :=
  if opt.remotename then
    match url.encodedSegments.getLast? with
    | none | some [] => pathAppend oc.outputDir "burl_response".toList
    | some seg => pathAppend oc.outputDir seg
  else if opt.output = "-".toList ∨ opt.output = [] then "-".toList
  else pathAppend oc.outputDir opt.output

/-- `oc.terminal_binary_ok` after that. Reference: `main.cpp:395`. -/
def binaryOk (oc : OutputConfig) (opt : RequestOpt) : Bool :=
  oc.terminalBinaryOk || (!opt.remotename && opt.output == "-".toList)

section
variable {F Ref ι : Type} [Container F] [DecidableEq ι]

/-- The path for the name in Content-Disposition, the first one that is a name. Reference:
`main.cpp:582-599`. -/
def renamedPath (E : Outside F Ref ι) (oc : OutputConfig) (opt : RequestOpt) (res : Response F) :
    Option (List Char) :=
  if oc.contentDisposition && opt.remotename then
    (findAll res.fields Field.contentDisposition).findSome? fun sv => do
      let filepath ← extractFilenameFormContentDisposition E.beyond sv
      let filename := pathFilename filepath
      if filename = [] then none else some (pathAppend oc.outputDir filename)
  else none

/-- The output for the body. Reference: `main.cpp:580-599`. -/
def renameOutput (E : Outside F Ref ι) (oc : OutputConfig) (opt : RequestOpt) (res : Response F)
    (output : AnyOstream) (w : World ι) : Option (AnyOstream × World ι) :=
  match renamedPath E oc opt res with
  | none => some (output, w)
  | some path => AnyOstream.open E.sys path false w

/-- `should_ignore_body`. Reference: `main.cpp:138`. -/
def shouldIgnoreBody (oc : OutputConfig) (res : Response F) : Bool :=
  oc.resumeFrom.isSome && (findAll res.fields Field.contentRange).isEmpty

/-- The headers that `stream_headers` writes for a request that was sent: none without a response,
or if `extract_cookies` throws before. Reference: `main.cpp:457, 509-510`. -/
def shownHeader (E : Outside F Ref ι) (s : Sent F) (x : Exchange F) : List UInt8 :=
  match s.response with
  | none => []
  | some res => if (extractCookies E.psl x s.url s.jar res).2 then E.buffer res else []

/-- All headers that are written. -/
def shownHeaders (E : Outside F Ref ι) (oc : OutputConfig) (x : TransferInput F)
    (log : List (Event F)) : List UInt8 :=
  if oc.showHeaders then (List.zipWith (shownHeader E) (sends log) x.exchanges).flatten else []

/-- The body of the last response. Reference: `main.cpp:601-641`. -/
def readBody (E : Outside F Ref ι) (oc : OutputConfig) (opt : RequestOpt) (x : TransferInput F)
    (res : Response F) (output : AnyOstream) (w : World ι) : World ι × Outcome :=
  if oc.resumeFrom.isSome && res.status != 416 &&
      (findAll res.fields Field.contentRange).isEmpty then (w, .exception)
  else
    let (w, error) := if shouldIgnoreBody oc res then (w, none)
      else
        let (w, ok) := sinkWrites E.sys (binaryOk oc opt) output x.chunks w
        (w, if ok then x.readError else some .binaryOutputToTty)
    match error with
    | some ec => (w, .systemError ec)
    | none =>
      if oc.failwithbody && 400 ≤ res.status then (w, .exception)
      else (w, .status res.status)

/-- From the last response on. Reference: `main.cpp:576-641`. -/
def finishTransfer (E : Outside F Ref ι) (oc : OutputConfig) (opt : RequestOpt)
    (x : TransferInput F) (res : Response F) (output : AnyOstream) (w : World ι) :
    World ι × Outcome :=
  if oc.failonerror && 400 ≤ res.status then (w, .exception)
  else
    match renameOutput E oc opt res output w with
    | none => (w, .exception)
    | some (output, w) => readBody E oc opt x res output w

/-- From the connection on, for the end and the log of the redirect loop: the world, and how the
transfer ends, if it does. -/
def runTransfer (E : Outside F Ref ι) (oc : OutputConfig) (opt : RequestOpt) (x : TransferInput F)
    (r : Ending F × List (Event F)) (output : AnyOstream) (w : World ι) :
    World ι × Option Outcome :=
  let w := output.write E.sys (shownHeaders E oc x r.2) w
  match r.1 with
  | .waiting => (w, none)
  | .thrown _ => (w, some .exception)
  | .callThrew => (w, some x.callError)
  | .response res =>
    let (w, o) := finishTransfer E oc opt x res output w
    (w, some o)

/-- The redirect loop of the transfer. -/
def transferLoop (E : Outside F Ref ι) (oc : OutputConfig) (expCookies : List Char) (msg : Message)
    (url : Url) (x : TransferInput F) : Ending F × List (Event F) :=
  performRequest E.urls E.psl E.build oc.toOperationConfig expCookies msg url x.jar x.connected
    x.exchanges

/-- What `scope_fail` does. Reference: `main.cpp:428-436`. -/
def removePartial (E : Outside F Ref ι) (oc : OutputConfig) (path : List Char) (o : Option Outcome)
    (w : World ι) : World ι :=
  if o.any Outcome.threw && oc.rmPartial && path != "-".toList then
    w.setFile (E.sys.locate path) none
  else w

/-- `perform_request`, from its URL on. Reference: `main.cpp:376-641`. -/
def performTransfer (E : Outside F Ref ι) (oc : OutputConfig) (expCookies : List Char)
    (msg : Message) (opt : RequestOpt) (url : Url) (x : TransferInput F) (w : World ι) :
    World ι × Option Outcome :=
  if !opt.input.isEmpty then (w, some .exception)
  else
    let path := outputPath oc url opt
    if oc.skipExisting && w.exists E.sys path then (w, some (.status 200))
    else
      match AnyOstream.open E.sys path oc.resumeFrom.isSome w with
      | none => (w, some .exception)
      | some (output, w) =>
        match (createRequest E.build oc.toOperationConfig msg url : Except String (Request F)) with
        | .error _ => (w, some .exception)
        | .ok _ =>
          let r := transferLoop E oc expCookies msg url x
          let (w, o) := runTransfer E oc opt x r output w
          (removePartial E oc path o w, o)

end

end Beast2.Burl
