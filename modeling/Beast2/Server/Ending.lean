import Beast2.Server.Wire

/-!
# How a session ends

A session should end because `read_header` failed, because `dispatch` failed or because the response
is not keep-alive; a request whose target is no URI reference should be answered with a 400 and not
dispatched; and `do_session` should then shut the socket down (`EndsAsIntended`).

For such a target the code sets the status of the response and goes on to `rv.value()`, which
throws. No response is written, and the exception passes both `do_session`s before their `shutdown`.
So the session ends as intended exactly if every header it receives has a target that parses
(`endsAsIntended_iff`).
-/

namespace Beast2.Server

open Loop Fields

variable {Req Url F D App : Type} [Container F] {b : Boost Req Url F}
  {router : Router Req Url F D App} {w w' : Worker Req Url F D App}

/-- The session of a worker ends as intended. -/
structure EndsAsIntended (b : Boost Req Url F) (router : Router Req Url F D App)
    (w : Worker Req Url F D App) : Prop where
  stops : (doHttpSession b router w).1 = .readHeader ∨ (doHttpSession b router w).1 = .dispatch ∨
    (doHttpSession b router w).1 = .notKeepAlive
  badTarget : ∀ req, .received req ∈ (doHttpSession b router w).2.log →
    b.parseUriReference (b.target req) = none →
      (∃ res, .responded res ∈ (doHttpSession b router w).2.log ∧ res.status = 400) ∧
        .dispatched req ∉ (doHttpSession b router w).2.log
  httpShutdown : (httpDoSession b router w).thrown = false ∧
    (httpDoSession b router w).shutdown = true
  httpsShutdown : ∀ handshakeError, (httpsDoSession b router handshakeError w).thrown = false ∧
    (httpsDoSession b router handshakeError w).shutdown = true

/-- A header with a bad target ends the session with an exception. -/
theorem Worker.turn_badTarget (router : Router Req Url F D App) {req : Req}
    (hrec : (w.receive b).1 = some req) (hurl : b.parseUriReference (b.target req) = none) :
    ∃ w', w.turn b router = .exit (.exception, w') := by
  unfold Worker.turn
  rcases hr : w.receive b with ⟨_ | req', p, s⟩
  · rw [hr] at hrec; cases hrec
  · rw [hr] at hrec; cases hrec
    simp only [hurl]
    exact ⟨_, rfl⟩

/-- The headers that a turn logs as received, if it dispatched a request. -/
theorem Worker.Serves.received_mem {req req' : Req} {p : RequestParser Req} {s : Stream}
    (h : w.Serves b router w' req' p s) (hmem : .received req ∈ w'.log) :
    .received req ∈ w.log ∨ (w.receive b).1 = some req := by
  obtain ⟨rs, hlog⟩ := h.log
  rw [hlog] at hmem
  simp only [List.mem_append, List.mem_cons, List.mem_map, reduceCtorEq, and_false, exists_false,
    or_false, false_or, Event.received.injEq] at hmem
  exact hmem.imp_right fun heq => by rw [h.received, heq]

/-- The headers that a session logs as received are those its turns received. -/
theorem Worker.received_mem (w : Worker Req Url F D App) {req : Req} :
    .received req ∈ (w.loop b router).2.log →
      .received req ∈ w.log ∨
        ∃ x, Heads (Worker.turn b router) w x ∧ (x.receive b).1 = some req := by
  refine run_rec (P := fun w (q : Exit × Worker Req Url F D App) => .received req ∈ q.2.log →
    .received req ∈ w.log ∨
      ∃ x, Heads (Worker.turn b router) w x ∧ (x.receive b).1 = some req) ?_ ?_ w
  · rintro w ⟨e, w'⟩ h hmem
    rcases Worker.turn_exit h with
      ⟨-, -, hlog⟩ | ⟨req', hrec, -, -, hlog⟩ | ⟨req', p, s, hserves, -⟩
    · exact .inl (by simpa [hlog] using hmem)
    · simp only [hlog, List.mem_append, List.mem_cons, List.not_mem_nil, reduceCtorEq, or_false,
        false_or, Event.received.injEq] at hmem
      rcases hmem with hmem | rfl
      · exact .inl hmem
      · exact .inr ⟨w, .refl, hrec⟩
    · exact (hserves.received_mem hmem).imp_right fun hrec => ⟨w, .refl, hrec⟩
  · rintro w w' q h ih hmem
    obtain ⟨req', p, s, hserves, -⟩ := Worker.turn_next h
    rcases ih hmem with hmem' | ⟨x, hx, hrec⟩
    · exact (hserves.received_mem hmem').imp_right fun hrec => ⟨w, .refl, hrec⟩
    · exact .inr ⟨x, .head h hx, hrec⟩

/-- A session that receives no bad target does not end with an exception. -/
theorem Worker.loop_ne_exception (w : Worker Req Url F D App)
    (hgood : ∀ x, Heads (Worker.turn b router) w x → ∀ req, (x.receive b).1 = some req →
      (b.parseUriReference (b.target req)).isSome) :
    (w.loop b router).1 ≠ .exception := by
  intro hexc
  obtain ⟨x, hx, hexit⟩ :=
    @exists_last _ _ (Worker.turn b router) _ (fun _ _ => Worker.turn_reads) w
  have hexit' : x.turn b router = .exit (.exception, (w.loop b router).2) := hexc ▸ hexit
  rcases Worker.turn_exit hexit' with ⟨-, h, -⟩ | ⟨req, hrec, hurl, -⟩ | ⟨req, p, s, -, h⟩
  · cases h
  · simpa [hurl] using hgood x hx req hrec
  · rcases h with h | ⟨h, -⟩ <;> cases h

/-- The session of any worker on any connection ends as intended exactly if every request whose
header it receives has a target that parses. -/
theorem endsAsIntended_iff (b : Boost Req Url F) (router : Router Req Url F D App)
    (w : Worker Req Url F D App) (reads : List (List Char)) :
    EndsAsIntended b router (w.connect reads) ↔
      ∀ x, Heads (Worker.turn b router) (w.connect reads) x → ∀ req, (x.receive b).1 = some req →
        (b.parseUriReference (b.target req)).isSome := by
  constructor
  · intro hends x hx req hrec
    by_contra hbad
    obtain ⟨w', hexit⟩ := Worker.turn_badTarget router hrec (by simpa using hbad)
    have hloop : (w.connect reads).loop b router = (.exception, w') := run_of_heads hx hexit
    have hstops := hends.stops
    simp only [doHttpSession, hloop] at hstops
    rcases hstops with h | h | h <;> cases h
  · intro hgood
    have hexc : (doHttpSession b router (w.connect reads)).1 ≠ .exception :=
      Worker.loop_ne_exception _ hgood
    rcases hsess : doHttpSession b router (w.connect reads) with ⟨e, w'⟩
    rw [hsess] at hexc
    refine ⟨?_, ?_, ?_, ?_⟩
    · rw [hsess]
      cases e with
      | exception => exact absurd rfl hexc
      | readHeader => exact .inl rfl
      | dispatch => exact .inr (.inl rfl)
      | notKeepAlive => exact .inr (.inr rfl)
    · intro req hmem hnone
      rcases Worker.received_mem _ hmem with hmem | ⟨x, hx, hrec⟩
      · cases hmem
      · simpa [hnone] using hgood x hx req hrec
    · cases e <;> simp_all [httpDoSession]
    · intro hs
      cases hs <;> cases e <;> simp_all [httpsDoSession]

/-- A request whose target has a percent sign without hexadecimal digits after it. -/
def badHead : List Char := "GET /%zz HTTP/1.1\r\n\r\n".toList

/-- The session that receives it ends with an exception and without a response, and the socket is
not shut down. -/
theorem badHead_not_endsAsIntended :
    (doHttpSession plain answer (idle.connect [badHead])).2.log
        = [.readHeader 0, .received badHead] ∧
      (httpDoSession plain answer (idle.connect [badHead])).shutdown = false ∧
      ¬ EndsAsIntended plain answer (idle.connect [badHead]) := by
  have h : (idle.connect [badHead]).turn plain answer
      = .exit (.exception, ⟨⟨badHead, [], [], [], ⟨400, .http11, []⟩⟩,
          ⟨[], .body badHead 0⟩, ⟨[], 21⟩, (), [.readHeader 0, .received badHead]⟩) := rfl
  have hsess : doHttpSession plain answer (idle.connect [badHead])
      = (.exception, ⟨⟨badHead, [], [], [], ⟨400, .http11, []⟩⟩,
          ⟨[], .header⟩, ⟨[], 21⟩, (), [.readHeader 0, .received badHead]⟩) := by
    rw [doHttpSession, Worker.loop, run_exit h]
    rfl
  refine ⟨by rw [hsess], by rw [httpDoSession, hsess], ?_⟩
  intro hends
  have hstops := hends.stops
  rw [hsess] at hstops
  rcases hstops with h | h | h <;> cases h

end Beast2.Server
