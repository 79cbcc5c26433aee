import Beast2.Burl.CoMainEnds
import Beast2.Burl.RequestOpts

/-!
# From the command line to the tasks

`parse_args` returns `request_opt_gen`, and the loop of `co_main` calls it for one request after the
other (`main.cpp:803`). `Feeds` is what these calls do, so that a run of `co_main` on a command line
is one whose requests its closure feeds. The closure of a command line whose patterns are finite
feeds the results of all its URLs (`feeds_transfers`); whatever happens in a run, the tasks are for
the first of these in the order of the command line, and a run that nothing disturbs returns only
after it has spawned a task for every result, once, with the files of its own URL
(`command_line_tasks`).
-/

namespace Beast2.Burl

open Loop Machine

/-- What the calls of `request_opt_gen` do up to the one that ends the loop of `co_main`. -/
inductive Feeds : List RequestInfo → List (Yield RequestOpt) → Prop
  | none {requests requests' : List RequestInfo} : RequestCall requests none requests' →
      Feeds requests []
  | request {requests requests' : List RequestInfo} {o : RequestOpt}
      {ys : List (Yield RequestOpt)} : RequestCall requests (some o) requests' →
      Feeds requests' ys → Feeds requests (.request o :: ys)
  | throws {requests : List RequestInfo} {e : RequestFailure} :
      Exits requestOptGenTurn requests (.error e) → Feeds requests [.throws]

/-- The requests of a command line whose URLs have these results. -/
def CommandLine.transfers (args : CommandLine) (rss : List (List GlobResult)) : List RequestOpt :=
  rss.zipIdx.flatMap fun p => p.1.map (args.requestOpt p.2)

section
variable {requests : List RequestInfo} {os : List RequestOpt}

/-- The requests that a closure returns before it returns none are fed. -/
theorem feeds_of_returns (h : RequestReturns requests (os.map some ++ [none])) :
    Feeds requests (os.map .request) := by
  induction os generalizing requests with
  | nil =>
    cases h with
    | cons hcall _ => exact .none hcall
  | cons o os ih =>
    cases h with
    | cons hcall hrest => exact .request hcall (ih hrest)

/-- A closure that returns these requests feeds nothing else. -/
theorem feeds_unique (h : RequestReturns requests (os.map some ++ [none]))
    {ys : List (Yield RequestOpt)} (hys : Feeds requests ys) : ys = os.map .request := by
  induction os generalizing requests ys with
  | nil =>
    cases h with
    | cons hcall _ =>
      cases hys with
      | none _ => rfl
      | request hcall' _ => cases exits_unique hcall hcall'
      | throws hthrows => cases exits_unique hcall hthrows
  | cons o os ih =>
    cases h with
    | cons hcall hrest =>
      cases hys with
      | none hcall' => cases exits_unique hcall hcall'
      | request hcall' hfeeds =>
        cases exits_unique hcall hcall'
        rw [ih hrest hfeeds]
        rfl
      | throws hthrows => cases exits_unique hcall hthrows

end

/-- The closure of a command line returns its requests, and then none. -/
theorem exists_returns_transfers {args : CommandLine} {rss : List (List GlobResult)}
    (hurls : List.Forall₂ (Expands args.globoff) args.urls rss)
    (hfit : ∀ file, .output file ∈ args.options → HashesFit file) :
    ∃ requests, requestInfos args = .ok requests ∧
      RequestReturns requests ((args.transfers rss).map some ++ [none]) := by
  obtain ⟨gens, hinfos, hgens⟩ := mapM_makeRequestInfo hurls
  refine ⟨(gens.zipIdx.map fun p => args.entry p.2 p.1).reverse, ?_, ?_⟩
  · rw [requestInfos, hinfos, ← assigned_eq]
    rfl
  · have hreturns := requestReturns_entries (hashesFit_outputName hfit) hgens 0 1
    have hmap : (args.transfers rss).map some =
        rss.zipIdx.flatMap fun p => p.1.map fun r => some (args.requestOpt p.2 r) := by
      simp only [CommandLine.transfers, List.map_flatMap, List.map_map, Function.comp_def]
    rw [hmap]
    exact hreturns

/-- For every command line whose URLs are patterns with finitely many results, or with `--globoff`
any texts, and whose output names have numbers that fit in an `unsigned long`, the closure feeds the
results of all URLs. Whatever happens in a run of `co_main` that it feeds, the tasks are for the
first of these, in their order. A run that no signal and no failure under `--fail-early` disturbs
returns only after all of them have been started, each once, and have ended, and throws nothing. -/
theorem command_line_tasks {J : Type} (args : CommandLine) (rss : List (List GlobResult))
    (hurls : List.Forall₂ (Expands args.globoff) args.urls rss)
    (hfit : ∀ file, .output file ∈ args.options → HashesFit file) :
    ∃ requests, requestInfos args = .ok requests ∧ (∃ gen, Feeds requests gen) ∧
      ∀ (oc : CoMainConfig) (jar : J) (gen : List (Yield RequestOpt)) (es : List (CoMainEvent J))
        (s : CoMain RequestOpt J), Feeds requests gen →
        run CoMain.step (.start oc gen jar) es = some s →
        s.tasks.map (·.ropt) <+: args.transfers rss ∧
        (0 < oc.parallelMax → (∀ e ∈ es, e.quiet oc = true) → s.await = .returned →
          s.tasks.map (·.ropt) = args.transfers rss ∧ (∀ t ∈ s.tasks, t.running = false) ∧
            s.ep = none) := by
  obtain ⟨requests, hinfos, hreturns⟩ := exists_returns_transfers hurls hfit
  refine ⟨requests, hinfos, ⟨_, feeds_of_returns hreturns⟩, fun oc jar gen es s hfeeds h => ?_⟩
  obtain rfl := feeds_unique hreturns hfeeds
  refine ⟨?_, fun hm hquiet hret => CoMain.started_of_quiet hm hquiet h hret⟩
  have hprefix := (CoMain.inOrder_run h).tasks
  have hmap : s.tasks.map (fun t => Yield.request t.ropt) =
      (s.tasks.map (·.ropt)).map Yield.request := by
    rw [List.map_map]
    rfl
  rw [hmap] at hprefix
  exact (List.prefix_map_iff_of_injective fun a b hab => by cases hab; rfl).1 hprefix

/-- The two requests of the command line `burl {} /{a,b} -o x -o f#1`. -/
def emptyFirstTransfers : List RequestOpt :=
  [⟨['/', 'a'], ['f', 'a'], [], false⟩, ⟨['/', 'b'], ['f', 'b'], [], false⟩]

/-- Both are transferred, each to the file that its token names. -/
theorem emptyFirst_tasks :
    ∃ s, run CoMain.step (.start {} (emptyFirstTransfers.map .request) 0) twoRequests = some s ∧
      s.tasks.map (·.ropt) = emptyFirstTransfers ∧ (∀ t ∈ s.tasks, t.running = false) ∧
      s.ep = none := by
  have hret : (run CoMain.step (.start {} (emptyFirstTransfers.map .request) 0) twoRequests).map
      (·.await) = some .returned := by decide +kernel
  obtain ⟨s, hs, hret⟩ := Option.map_eq_some_iff.1 hret
  have hquiet : ∀ e ∈ twoRequests, e.quiet {} = true := List.all_eq_true.1 rfl
  obtain ⟨requests, hinfos, -, hruns⟩ :=
    command_line_tasks (J := Nat) emptyFirst _ emptyFirst_expands emptyFirst_fits
  obtain ⟨requests', hinfos', hreturns⟩ :=
    exists_returns_transfers emptyFirst_expands emptyFirst_fits
  cases hinfos.symm.trans hinfos'
  have hrun := hruns {} 0 (emptyFirstTransfers.map .request) twoRequests s
    (feeds_of_returns hreturns) hs
  exact ⟨s, hs, hrun.2 (by decide) hquiet hret⟩

end Beast2.Burl
