import Beast2.Burl.GlobPattern

/-!
# The requests of a command line

`parse_args` makes one entry for each URL of the command line, with a generator of the URLs that its
pattern stands for, goes through the options to give the entries their output files and through the
uploads to give them their input files, and returns a closure that takes the entries from the back
of the reversed vector (`options.cpp:766-841`). The generators are stateful and need not end. The
closure returns the requests of the URLs in the order of the command line, each URL with all results
of its generator and with the files that are its own, and none ever after (`requestOptGen_returns`).
-/

namespace Beast2.Burl

open Loop Choices

/-! ## The entries -/

/-- `url_gen`: a literal URL that is returned once, or the closure of a pattern. -/
inductive UrlGen where
  | oneshot (url : Option (List Char))
  | glob (c : Closure)
deriving DecidableEq, Repr

/-- One turn of a generator. The closure of a literal URL has no loop. Reference:
`options.cpp:781-788`. -/
def UrlGen.turn : UrlGen → Turn UrlGen (Except Fault (Option GlobResult × UrlGen))
  | .oneshot url => .exit (.ok (url.map (⟨·, []⟩), .oneshot none))
  | .glob c =>
    match c.turn with
    | .next c => .next (.glob c)
    | .exit (.ok (r, c)) => .exit (.ok (r, .glob c))
    | .exit (.error e) => .exit (.error e)

/-- `request_info`. Reference: `options.cpp:766`. -/
structure RequestInfo where
  urlGen : UrlGen
  output : List Char := []
  input : List Char := []
  remotename : Bool := false
deriving DecidableEq, Repr

/-- `request_opt`. Reference: `options.hpp:104`. -/
structure RequestOpt where
  url : List Char
  output : List Char
  input : List Char
  remotename : Bool
deriving DecidableEq, Repr

/-- An option of the command line, as far as the requests go: `output` with its value,
`remote-name`, or another. -/
inductive CliOption where
  | output (file : List Char)
  | remoteName
  | other
deriving DecidableEq, Repr

/-- The command line: the URLs and the uploads in their order, all options in theirs, and two
switches. -/
structure CommandLine where
  urls : List (List Char)
  options : List CliOption := []
  uploads : List (List Char) := []
  globoff : Bool := false
  remoteNameAll : Bool := false

/-- The entry of a URL. Reference: `options.cpp:776-795`. -/
def makeRequestInfo (args : CommandLine) (url : List Char) : Except Thrown RequestInfo := do
  let urlGen ←
    if args.globoff then .ok (.oneshot (some url))
    else do .ok (.glob (globClosure (← makeGlobGenerator url)))
  .ok { urlGen, remotename := args.remoteNameAll }

/-- The loop over the options: the entries from `it` on. Reference: `options.cpp:799-808`. -/
def assignOutputs : List RequestInfo → List CliOption → List RequestInfo
  | [], _ => []
  | infos, [] => infos
  | info :: infos, .output file :: options =>
    { info with output := file } :: assignOutputs infos options
  | info :: infos, .remoteName :: options =>
    { info with remotename := true } :: assignOutputs infos options
  | info :: infos, .other :: options => assignOutputs (info :: infos) options

/-- The loop over the uploads: the entries from `it` on. Reference: `options.cpp:812-819`. -/
def assignInputs : List RequestInfo → List (List Char) → List RequestInfo
  | [], _ => []
  | infos, [] => infos
  | info :: infos, s :: uploads => { info with input := s } :: assignInputs infos uploads

/-- The entries that `request_opt_gen` captures, reversed. Reference: `options.cpp:774-823`. -/
def requestInfos (args : CommandLine) : Except Thrown (List RequestInfo) := do
  let requests ← args.urls.mapM (makeRequestInfo args)
  let requests := assignOutputs requests args.options
  let requests := assignInputs requests args.uploads
  .ok requests.reverse

/-! ## The closure -/

/-- How a call of `request_opt_gen` fails. -/
inductive RequestFailure where
  | fault (e : Fault)
  | interpolate (e : InterpolateThrown)
deriving DecidableEq, Repr

/-- One turn of the loop of `request_opt_gen`, or of the loop of the generator that it calls. The
back of the vector is the end of the list. Reference: `options.cpp:823-841`. -/
def requestOptGenTurn (requests : List RequestInfo) :
    Turn (List RequestInfo) (Except RequestFailure (Option RequestOpt × List RequestInfo)) :=
  match requests.getLast? with
  | none => .exit (.ok (none, requests))
  | some info =>
    match info.urlGen.turn with
    | .next urlGen => .next (requests.dropLast ++ [{ info with urlGen }])
    | .exit (.error e) => .exit (.error (.fault e))
    | .exit (.ok (none, _)) => .next requests.dropLast
    | .exit (.ok (some o, urlGen)) =>
      match interpolate o.tokens info.output with
      | .error e => .exit (.error (.interpolate e))
      | .ok output =>
        .exit (.ok (some ⟨o.result, output, info.input, info.remotename⟩,
          requests.dropLast ++ [{ info with urlGen }]))

/-- A call of `request_opt_gen` that returns: what it returns and what is captured afterwards. -/
def RequestCall (requests : List RequestInfo) (r : Option RequestOpt)
    (requests' : List RequestInfo) : Prop :=
  Exits requestOptGenTurn requests (.ok (r, requests'))

/-- Consecutive calls of `request_opt_gen` return these requests. -/
inductive RequestReturns : List RequestInfo → List (Option RequestOpt) → Prop
  | nil {requests : List RequestInfo} : RequestReturns requests []
  | cons {requests requests' : List RequestInfo} {r : Option RequestOpt}
      {rs : List (Option RequestOpt)} : RequestCall requests r requests' →
      RequestReturns requests' rs → RequestReturns requests (r :: rs)

/-! ## What a generator lists -/

/-- A call of a generator that returns. -/
def UrlGen.Call (g : UrlGen) (r : Option GlobResult) (g' : UrlGen) : Prop :=
  Exits turn g (.ok (r, g'))

/-- A generator returns these results, and then none. -/
inductive UrlGen.Lists : UrlGen → List GlobResult → Prop
  | done {g g' : UrlGen} : g.Call none g' → g.Lists []
  | result {g g' : UrlGen} {r : GlobResult} {rs : List GlobResult} : g.Call (some r) g' →
      g'.Lists rs → g.Lists (r :: rs)

/-- A literal URL is returned once. -/
theorem UrlGen.lists_oneshot (url : List Char) : (oneshot (some url)).Lists [⟨url, []⟩] :=
  .result (exits_of_exit rfl) (.done (exits_of_exit rfl))

/-- A call of the closure of a pattern is one of its generator. -/
theorem UrlGen.call_glob {c c' : Closure} {r : Option GlobResult} (h : c.Call r c') :
    (glob c).Call r (.glob c') := by
  refine exits_of_follows ?_ ?_ h
  · intro s s' hs
    rw [turn, hs]
  · intro s hs
    refine exits_of_exit ?_
    rw [turn, hs]

theorem UrlGen.lists_glob {c : Closure} {rs : List GlobResult}
    (h : c.Returns (rs.map some ++ [none])) : (glob c).Lists rs := by
  induction rs generalizing c with
  | nil =>
    cases h with
    | cons hcall _ => exact .done (UrlGen.call_glob hcall)
  | cons r rs ih =>
    cases h with
    | cons hcall hrest => exact .result (UrlGen.call_glob hcall) (ih hrest)

/-! ## What the closure returns -/

section

variable {below requests : List RequestInfo} {info : RequestInfo} {g g' : UrlGen}

/-- While the generator at the back is running, so is the closure. -/
theorem requestOptGenTurn_next (h : g.turn = .next g') :
    requestOptGenTurn (below ++ [{ info with urlGen := g }]) =
      .next (below ++ [{ info with urlGen := g' }]) := by
  simp [requestOptGenTurn, h]

/-- A result of the generator at the back is a request. -/
theorem requestCall_some {o : GlobResult} (h : g.Call (some o) g') (hfit : HashesFit info.output) :
    RequestCall (below ++ [{ info with urlGen := g }])
      (some ⟨o.result, expand o.tokens none info.output, info.input, info.remotename⟩)
      (below ++ [{ info with urlGen := g' }]) := by
  refine exits_of_follows (f := fun g => below ++ [{ info with urlGen := g }]) ?_ ?_ h
  · exact fun s s' hs => requestOptGenTurn_next hs
  · intro s hs
    refine exits_of_exit ?_
    simp [requestOptGenTurn, hs, interpolate_eq o.tokens hfit]

/-- A generator at the back that is done is taken off. -/
theorem requestCall_none {r : Option RequestOpt} (h : g.Call none g')
    (hbelow : RequestCall below r requests) :
    RequestCall (below ++ [{ info with urlGen := g }]) r requests := by
  refine exits_of_follows (f := fun g => below ++ [{ info with urlGen := g }]) ?_ ?_ h
  · exact fun s s' hs => requestOptGenTurn_next hs
  · intro s hs
    refine exits_of_next ?_ hbelow
    simp [requestOptGenTurn, hs]

/-- The closure returns the results of the generator at the back, and goes on with what is below. -/
theorem requestReturns_concat {rs : List GlobResult} {rest : List (Option RequestOpt)}
    (h : g.Lists rs) (hfit : HashesFit info.output) (hbelow : RequestReturns below rest) :
    RequestReturns (below ++ [{ info with urlGen := g }])
      (rs.map (fun o => some ⟨o.result, expand o.tokens none info.output, info.input,
        info.remotename⟩) ++ rest) := by
  induction h with
  | done hcall =>
    cases hbelow with
    | nil => exact .nil
    | cons hnext hrest => exact .cons (requestCall_none hcall hnext) hrest
  | result hcall _ ih => exact .cons (requestCall_some hcall hfit) ih

theorem requestReturns_nil (n : Nat) : RequestReturns [] (List.replicate n none) := by
  induction n with
  | zero => exact .nil
  | succ n ih => exact .cons (exits_of_exit rfl) ih

end

/-! ## Which files a URL gets -/

/-- The `i`-th of the options that are `output` or `remote-name`. -/
def CommandLine.outputOption (args : CommandLine) (i : Nat) : Option CliOption :=
  (args.options.filter (· ≠ .other))[i]?

/-- The output name of the `i`-th URL. -/
def CommandLine.outputName (args : CommandLine) (i : Nat) : List Char :=
  match args.outputOption i with
  | some (.output file) => file
  | _ => []

/-- The entry of the `i`-th URL: the `i`-th of the output options and the `i`-th upload are its
own. -/
def CommandLine.entry (args : CommandLine) (i : Nat) (urlGen : UrlGen) : RequestInfo where
  urlGen := urlGen
  output := args.outputName i
  input := args.uploads[i]?.getD []
  remotename := args.remoteNameAll || args.outputOption i == some .remoteName

/-- The request of a result of the `i`-th URL: the tokens of the result replace the numbers in the
output name. -/
def CommandLine.requestOpt (args : CommandLine) (i : Nat) (r : GlobResult) : RequestOpt where
  url := r.result
  output := expand r.tokens none (args.outputName i)
  input := args.uploads[i]?.getD []
  remotename := args.remoteNameAll || args.outputOption i == some .remoteName

/-- An entry after the option that is its own. -/
def withOption (o : Option CliOption) (info : RequestInfo) : RequestInfo :=
  match o with
  | some (.output file) => { info with output := file }
  | some .remoteName => { info with remotename := true }
  | _ => info

/-- The loop over the options gives each entry the option that is its own. -/
theorem getElem?_assignOutputs (infos : List RequestInfo) (options : List CliOption) (i : Nat) :
    (assignOutputs infos options)[i]? =
      infos[i]?.map (withOption (options.filter (· ≠ .other))[i]?) := by
  fun_induction assignOutputs infos options generalizing i with
  | case1 options => simp
  | case2 infos hne =>
    have hid : withOption none = id := rfl
    simp [hid]
  | case3 info infos file options ih =>
    cases i with
    | zero => simp [withOption]
    | succ i => simpa using ih i
  | case4 info infos options ih =>
    cases i with
    | zero => simp [withOption]
    | succ i => simpa using ih i
  | case5 info infos options ih => simpa using ih i

/-- The loop over the uploads gives each entry the upload that is its own. -/
theorem getElem?_assignInputs (infos : List RequestInfo) (uploads : List (List Char)) (i : Nat) :
    (assignInputs infos uploads)[i]? =
      infos[i]?.map fun info => { info with input := uploads[i]?.getD info.input } := by
  fun_induction assignInputs infos uploads generalizing i with
  | case1 uploads => simp
  | case2 infos hne => simp
  | case3 info infos s uploads ih =>
    cases i with
    | zero => simp
    | succ i => simpa using ih i

/-- The `i`-th entry after both loops. -/
theorem withOption_eq_entry (args : CommandLine) (i : Nat) (urlGen : UrlGen) :
    { withOption (args.outputOption i) { urlGen, remotename := args.remoteNameAll } with
      input := args.uploads[i]?.getD [] } = args.entry i urlGen := by
  unfold CommandLine.entry CommandLine.outputName withOption
  cases args.outputOption i with
  | none => simp
  | some o => cases o <;> simp

/-- The entries before they are reversed. -/
theorem assigned_eq (args : CommandLine) (gens : List UrlGen) :
    assignInputs (assignOutputs (gens.map fun urlGen =>
      { urlGen, remotename := args.remoteNameAll }) args.options) args.uploads =
      gens.zipIdx.map fun p => args.entry p.2 p.1 := by
  refine List.ext_getElem? fun i => ?_
  rw [getElem?_assignInputs, getElem?_assignOutputs]
  rw [List.getElem?_map, List.getElem?_map, List.getElem?_zipIdx]
  cases gens[i]? with
  | none => rfl
  | some g =>
    have hinput : (withOption (args.options.filter (· ≠ .other))[i]?
        { urlGen := g, remotename := args.remoteNameAll }).input = [] := by
      unfold withOption
      split <;> rfl
    simp only [Option.map_some, Nat.zero_add, hinput]
    exact congrArg some (withOption_eq_entry args i g)

/-! ## The requests of the command line -/

/-- The results of a URL: itself with `--globoff`, else what the closure of its pattern returns
until it returns none. -/
def Expands (globoff : Bool) (url : List Char) (rs : List GlobResult) : Prop :=
  if globoff then rs = [⟨url, []⟩]
  else ∃ gs, makeGlobGenerator url = .ok gs ∧ (UrlGen.glob (globClosure gs)).Lists rs

/-- The results of a pattern with finite components are its choices. -/
theorem expands_of_yields {url : List Char} {gs : List Gen} {xss : List (List (List Char))}
    (hne : url ≠ []) (hgs : makeGlobGenerator url = .ok gs)
    (hyields : List.Forall₂ Gen.Yields gs xss) :
    Expands false url ((choices xss).map (choiceResult gs)) := by
  have hreturns := returns_choices (ne_nil_of_makeGlobGenerator hne hgs) hyields 1
  rw [← List.map_map] at hreturns
  exact ⟨gs, hgs, UrlGen.lists_glob hreturns⟩

section

variable {args : CommandLine}

/-- The entry of such a URL has a generator that lists its results. -/
theorem Expands.makeRequestInfo {url : List Char} {rs : List GlobResult}
    (h : Expands args.globoff url rs) :
    ∃ urlGen, Burl.makeRequestInfo args url = .ok { urlGen, remotename := args.remoteNameAll } ∧
      urlGen.Lists rs := by
  unfold Expands at h
  unfold Burl.makeRequestInfo
  cases hoff : args.globoff with
  | true =>
    rw [hoff, if_pos rfl] at h
    subst h
    exact ⟨.oneshot (some url), rfl, UrlGen.lists_oneshot url⟩
  | false =>
    rw [hoff, if_neg Bool.false_ne_true] at h
    obtain ⟨gs, hgs, hlists⟩ := h
    refine ⟨.glob (globClosure gs), ?_, hlists⟩
    rw [hgs]
    rfl

/-- The entries of such URLs have generators that list their results. -/
theorem mapM_makeRequestInfo {urls : List (List Char)} {rss : List (List GlobResult)}
    (h : List.Forall₂ (Expands args.globoff) urls rss) :
    ∃ gens, urls.mapM (Burl.makeRequestInfo args) =
        .ok (gens.map fun urlGen => { urlGen, remotename := args.remoteNameAll }) ∧
      List.Forall₂ UrlGen.Lists gens rss := by
  induction h with
  | nil => exact ⟨[], rfl, .nil⟩
  | cons hurl _ ih =>
    obtain ⟨g, hinfo, hg⟩ := hurl.makeRequestInfo
    obtain ⟨gens, hinfos, hgens⟩ := ih
    refine ⟨g :: gens, ?_, .cons hg hgens⟩
    rw [List.mapM_cons, hinfo, hinfos]
    rfl

theorem hashesFit_outputName (hfit : ∀ file, .output file ∈ args.options → HashesFit file)
    (i : Nat) : HashesFit (args.outputName i) := by
  unfold CommandLine.outputName CommandLine.outputOption
  split
  · next file hfile =>
    have hmem := List.mem_of_getElem? hfile
    exact hfit file (List.mem_of_mem_filter hmem)
  · intro pre ds t heq
    simp at heq

/-- The entries from the `k`-th on, reversed, return the requests of their results. -/
theorem requestReturns_entries (hfit : ∀ i, HashesFit (args.outputName i)) {gens : List UrlGen}
    {rss : List (List GlobResult)} (h : List.Forall₂ UrlGen.Lists gens rss) (k n : Nat) :
    RequestReturns ((gens.zipIdx k).map fun p => args.entry p.2 p.1).reverse
      (((rss.zipIdx k).flatMap fun p => p.1.map fun r => some (args.requestOpt p.2 r)) ++
        List.replicate n none) := by
  induction h generalizing k with
  | nil => exact requestReturns_nil n
  | @cons g rs gens rss hg _ ih =>
    rw [List.zipIdx_cons, List.zipIdx_cons, List.map_cons, List.reverse_cons, List.flatMap_cons,
      List.append_assoc]
    have hrest := ih (k + 1)
    exact @requestReturns_concat _ (args.entry k g) g rs _ hg (hfit k) hrest

/-- For every command line whose URLs are patterns with finitely many results, or with `--globoff`
any texts, and whose output names have numbers that fit in an `unsigned long`, `request_opt_gen`
returns, call by call, the requests of all results of the first URL, then those of the second and so
on. A request carries the output name, with the tokens of its own result, the input and the
remote-name flag of its URL. After them it returns none however often it is called. -/
theorem requestOptGen_returns (args : CommandLine) (rss : List (List GlobResult))
    (hurls : List.Forall₂ (Expands args.globoff) args.urls rss)
    (hfit : ∀ file, .output file ∈ args.options → HashesFit file) :
    ∃ requests, requestInfos args = .ok requests ∧ ∀ n, RequestReturns requests
      ((rss.zipIdx.flatMap fun p => p.1.map fun r => some (args.requestOpt p.2 r)) ++
        List.replicate n none) := by
  obtain ⟨gens, hinfos, hgens⟩ := mapM_makeRequestInfo hurls
  refine ⟨(gens.zipIdx.map fun p => args.entry p.2 p.1).reverse, ?_, ?_⟩
  · rw [requestInfos, hinfos, ← assigned_eq]
    rfl
  · exact fun n => requestReturns_entries (hashesFit_outputName hfit) hgens 0 n

end

/-- `burl {} /{a,b} -o x -o f#1`. -/
def emptyFirst : CommandLine where
  urls := ["\x7b\x7d".toList, "/\x7ba,b\x7d".toList]
  options := [.other, .output ['x'], .other, .output ['f', '#', '1']]

theorem emptyFirst_expands : List.Forall₂ (Expands emptyFirst.globoff) emptyFirst.urls
    [[], [⟨['/', 'a'], [['a']]⟩, ⟨['/', 'b'], [['b']]⟩]] := by
  have hempty : List.Forall₂ Gen.Yields [makeSetGen []] [[]] := .cons (.done rfl) .nil
  have hpair : List.Forall₂ Gen.Yields [makeStaticGen ['/'], makeSetGen [['a'], ['b']]]
      [[['/']], [['a'], ['b']]] :=
    .cons (.value rfl (.done rfl)) (.cons (.value rfl (.value rfl (.done rfl))) .nil)
  exact .cons (expands_of_yields (by decide) (by decide +kernel) hempty)
    (.cons (expands_of_yields (by decide) (by decide +kernel) hpair) .nil)

theorem emptyFirst_fits : ∀ file, .output file ∈ emptyFirst.options → HashesFit file := by
  intro file hfile pre ds t heq hds hstop
  have hfile' : file = ['x'] ∨ file = ['f', '#', '1'] := by simpa [emptyFirst] using hfile
  rcases hfile' with rfl | rfl
  · rcases pre with _ | ⟨a, pre⟩ <;> simp at heq
  · rcases pre with _ | ⟨a, _ | ⟨b, _ | ⟨c, pre⟩⟩⟩ <;> simp at heq
    obtain ⟨-, heq⟩ := heq
    rcases ds with _ | ⟨d, ds⟩
    · decide
    · obtain ⟨rfl, hds, -⟩ : d = '1' ∧ ds = [] ∧ t = [] := by simpa [eq_comm] using heq
      subst hds
      decide

/-- The pattern that expands to nothing takes its output file with it and shifts nothing. -/
theorem emptyFirst_returns :
    ∃ requests, requestInfos emptyFirst = .ok requests ∧ ∀ n, RequestReturns requests
      ([some ⟨['/', 'a'], ['f', 'a'], [], false⟩, some ⟨['/', 'b'], ['f', 'b'], [], false⟩] ++
        List.replicate n none) :=
  requestOptGen_returns emptyFirst _ emptyFirst_expands emptyFirst_fits

end Beast2.Burl
