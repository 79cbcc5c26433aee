import Beast2.Server.Wire

/-!
# The framing of the requests of a session

The octets of a connection are the requests `r₁ ... rₙ` one after the other, cut into reads in any
way. The session is framed if every `read_header` starts where a request starts, the next one each
time, and the requests dispatched are a prefix of `r₁ ... rₙ` (`Framed`).

A turn that goes round calls `parser.reset()`, which discards what the parser holds. That loses the
octets of the next request if the last read went past the end of this one, and it leaves the rest of
the body on the socket if the handler has not read up to the end. So a session is framed exactly if
at each such call the parser holds the octets of the message it is in, all of them and nothing more
(`framed_iff`).
-/

namespace Beast2.Server

open Loop Fields

/-! ## Logs -/

section
variable {Req F : Type}

/-- Where the `read_header`s of a session start in the stream. -/
def starts (log : List (Event Req F)) : List Nat :=
  log.filterMap fun | .readHeader pos => some pos | _ => none

/-- The requests a session passes to the router. -/
def dispatches (log : List (Event Req F)) : List Req :=
  log.filterMap fun | .dispatched req => some req | _ => none

variable (l l' : List (Event Req F)) (rs : List (Response F)) (pos : Nat) (req : Req)

@[simp] theorem starts_append : starts (l ++ l') = starts l ++ starts l' :=
  List.filterMap_append ..
@[simp] theorem starts_readHeader : starts (.readHeader pos :: l) = pos :: starts l := rfl
@[simp] theorem starts_received : starts (.received req :: l) = starts l := rfl
@[simp] theorem starts_dispatched : starts (.dispatched req :: l) = starts l := rfl
@[simp] theorem starts_responses :
    starts (rs.map .responded : List (Event Req F)) = [] := by simp [starts]

@[simp] theorem dispatches_append : dispatches (l ++ l') = dispatches l ++ dispatches l' :=
  List.filterMap_append ..
@[simp] theorem dispatches_readHeader : dispatches (.readHeader pos :: l) = dispatches l := rfl
@[simp] theorem dispatches_received : dispatches (.received req :: l) = dispatches l := rfl
@[simp] theorem dispatches_dispatched : dispatches (.dispatched req :: l) = req :: dispatches l :=
  rfl
@[simp] theorem dispatches_responses :
    dispatches (rs.map .responded : List (Event Req F)) = [] := by simp [dispatches]

end

/-! ## Framed sessions -/

variable {Req Url F D App : Type} [Container F] {b : Boost Req Url F}

/-- Where the requests start in a stream, the first at `pos`, and where the last one ends. -/
def boundaries : Nat → List (WireRequest b) → List Nat
  | pos, [] => [pos]
  | pos, r :: rs => pos :: boundaries (pos + r.octets.length) rs

/-- The log follows the requests `rs` from the position `pos` on. -/
def FollowsLog (pos : Nat) (rs : List (WireRequest b)) (log : List (Event Req F)) : Prop :=
  dispatches log <+: rs.map (·.req) ∧ starts log <+: boundaries pos rs

/-- The session on a connection that brings the requests `rs` follows them. -/
def Framed (b : Boost Req Url F) (router : Router Req Url F D App) (w : Worker Req Url F D App)
    (rs : List (WireRequest b)) : Prop :=
  FollowsLog 0 rs (doHttpSession b router w).2.log

/-- The parser holds the octets of the message it is in, all of them and nothing more. -/
def RequestParser.atMessageEnd (b : Boost Req Url F) (p : RequestParser Req) : Bool :=
  match p.stage with
  | .body req _ => b.bodyEnd req p.buf == some p.buf.length
  | _ => false

/-- The boundaries of a stream begin at its position. -/
theorem boundaries_head (pos : Nat) (rs : List (WireRequest b)) :
    ∃ tl, boundaries pos rs = pos :: tl := by
  cases rs with
  | nil => exact ⟨[], rfl⟩
  | cons r rs => exact ⟨_, rfl⟩

/-! ## Reading -/

/-- What a handler's reads do: the parser stays in the body of `req` and has taken more octets off
the socket. -/
structure Took (req : Req) (p : RequestParser Req) (s : Stream) (p' : RequestParser Req)
    (s' : Stream) : Prop where
  stage : ∃ given, p'.stage = .body req given
  octets : p'.buf ++ s'.reads.flatten = p.buf ++ s.reads.flatten
  pos : s'.pos + p.buf.length = s.pos + p'.buf.length

theorem Took.trans {req : Req} {p p' p'' : RequestParser Req} {s s' s'' : Stream}
    (h : Took req p s p' s') (h' : Took req p' s' p'' s'') : Took req p s p'' s'' where
  stage := h'.stage
  octets := h'.octets.trans h.octets
  pos := by have := h.pos; have := h'.pos; omega

/-- One read of the body. -/
theorem RequestParser.readBody_took {req : Req} {p : RequestParser Req} {given : Nat}
    (hp : p.stage = .body req given) (s : Stream) :
    Took req p s (p.readBody b s).2.1 (p.readBody b s).2.2 := by
  unfold RequestParser.readBody
  rw [hp]
  dsimp only
  split
  · exact ⟨⟨_, rfl⟩, rfl, rfl⟩
  · split
    · exact ⟨⟨_, hp⟩, rfl, rfl⟩
    · split
      · exact ⟨⟨_, hp⟩, rfl, rfl⟩
      · next r reads hr =>
        refine ⟨⟨_, rfl⟩, by simp [hr], ?_⟩
        simp only [List.length_append]
        omega

/-- What the reads of a handler do. -/
theorem Handler.run_took {A : Type} {req : Req} (h : Handler F A) {p : RequestParser Req}
    {given : Nat} (hp : p.stage = .body req given) (s : Stream) (log : List (Event Req F)) :
    Took req p s (h.run b p s log).2.1 (h.run b p s log).2.2.1 := by
  induction h generalizing p given s log with
  | done a => exact ⟨⟨_, hp⟩, rfl, rfl⟩
  | respond res k ih => exact ih hp s _
  | readBody k ih =>
    have htook := RequestParser.readBody_took (b := b) hp s
    obtain ⟨given', hp'⟩ := htook.stage
    exact htook.trans (ih _ hp' _ log)

/-- `read_header` on a stream without octets. -/
theorem RequestParser.readHeader_empty (reads : List (List Char)) (hr : reads.flatten = [])
    (pos : Nat) : (RequestParser.readHeader b [] reads pos).1 = none := by
  induction reads generalizing pos with
  | nil => rw [readHeader, b.header_nil]
  | cons r reads ih =>
    rw [List.flatten_cons, List.append_eq_nil_iff] at hr
    rw [readHeader, b.header_nil, hr.1]
    exact ih hr.2 _

/-- `read_header` on a stream that goes on with a request, of whose header it may hold a part. -/
theorem RequestParser.readHeader_request (r : WireRequest b) (x : List Char) :
    ∀ (reads : List (List Char)) (buf : List Char) (pos : Nat),
      buf ++ reads.flatten = r.head ++ x →
      ∃ buf' s, RequestParser.readHeader b buf reads pos
          = (some r.req, ⟨buf', .body r.req 0⟩, s) ∧
        buf' ++ s.reads.flatten = x ∧ s.pos + buf.length = pos + r.head.length + buf'.length
  | reads, buf, pos, hoct => by
    by_cases hb : r.head <+: buf
    · obtain ⟨t, rfl⟩ := hb
      refine ⟨t, ⟨reads, pos⟩, ?_, ?_, ?_⟩
      · unfold RequestParser.readHeader
        simp [r.head_done]
      · simpa using hoct
      · simp only [List.length_append]; omega
    · have hpre : buf <+: r.head :=
        (List.prefix_or_prefix_of_prefix (List.prefix_append buf reads.flatten)
          (hoct ▸ List.prefix_append r.head x)).resolve_right hb
      have hmore := r.head_more buf hpre fun h => hb (h ▸ List.prefix_rfl)
      cases reads with
      | nil =>
        rw [List.flatten_nil, List.append_nil] at hoct
        exact absurd ⟨x, hoct.symm⟩ hb
      | cons c reads =>
        obtain ⟨buf', s, hrun, hrest, hpos⟩ := readHeader_request r x reads (buf ++ c)
          (pos + c.length) (by simpa using hoct)
        refine ⟨buf', s, ?_, hrest, ?_⟩
        · rw [RequestParser.readHeader, hmore]
          exact hrun
        · rw [List.length_append] at hpos; omega

/-- The parser is at the end of a message exactly when it has taken all of the message's octets and
no more. -/
theorem atMessageEnd_iff (r : WireRequest b) {p : RequestParser Req} {given : Nat}
    (hp : p.stage = .body r.req given) {x y : List Char} (hoct : p.buf ++ x = r.body ++ y) :
    p.atMessageEnd b = true ↔ p.buf.length = r.body.length := by
  simp only [RequestParser.atMessageEnd, hp, beq_iff_eq]
  rcases List.prefix_or_prefix_of_prefix (List.prefix_append p.buf x)
    (hoct ▸ List.prefix_append r.body y) with hpre | ⟨t, ht⟩
  · by_cases heq : p.buf = r.body
    · have hdone := r.body_done []
      rw [List.append_nil] at hdone
      simp [heq, hdone]
    · rw [r.body_more _ hpre heq]
      exact ⟨nofun, fun hlen => absurd (hpre.eq_of_length hlen) heq⟩
  · rw [← ht, r.body_done, Option.some_inj]
    exact eq_comm

/-! ## One turn -/

variable {router : Router Req Url F D App} {w w' : Worker Req Url F D App}

/-- A turn on a stream that goes on with a request receives it. -/
theorem Worker.receive_request {r : WireRequest b} {rs : List (WireRequest b)}
    (hreads : w.stream.reads.flatten = WireRequest.stream (r :: rs)) :
    ∃ buf s, w.receive b = (some r.req, ⟨buf, .body r.req 0⟩, s) ∧
      buf ++ s.reads.flatten = r.body ++ WireRequest.stream rs ∧
      s.pos = w.stream.pos + r.head.length + buf.length := by
  obtain ⟨buf, s, hrun, hrest, hpos⟩ := RequestParser.readHeader_request r
    (r.body ++ WireRequest.stream rs) w.stream.reads [] w.stream.pos
    (by simpa [WireRequest.octets] using hreads)
  exact ⟨buf, s, hrun, hrest, by simpa using hpos⟩

/-- A turn that leaves the loop logs where it started to read, and at most one dispatch, of the
request received. -/
theorem Worker.turn_exit_log {e : Exit} (h : w.turn b router = .exit (e, w')) :
    ∃ l, w'.log = w.log ++ .readHeader w.stream.pos :: l ∧ starts l = [] ∧
      dispatches l <+: (w.receive b).1.toList := by
  rcases Worker.turn_exit h with ⟨-, -, hlog⟩ | ⟨req, -, -, -, hlog⟩ | ⟨req, p, s, hserves, -⟩
  · exact ⟨[], hlog, rfl, List.nil_prefix⟩
  · exact ⟨[.received req], hlog, rfl, List.nil_prefix⟩
  · obtain ⟨rs, hlog⟩ := hserves.log
    exact ⟨_, hlog, by simp, by simp [hserves.received]⟩

/-- A turn that goes round logs where it started to read and the dispatch of the request
received. -/
theorem Worker.turn_next_log (h : w.turn b router = .next w') :
    ∃ l, w'.log = w.log ++ .readHeader w.stream.pos :: l ∧ starts l = [] ∧
      dispatches l = (w.receive b).1.toList := by
  obtain ⟨req, p, s, hserves, -⟩ := Worker.turn_next h
  obtain ⟨rs, hlog⟩ := hserves.log
  exact ⟨_, hlog, by simp, by simp [hserves.received]⟩

/-- A turn on a stream that goes on with a request and goes round: the octets it has taken off the
socket are the header's and those the parser holds. -/
theorem Worker.turn_next_took {r : WireRequest b} {rs : List (WireRequest b)}
    (hreads : w.stream.reads.flatten = WireRequest.stream (r :: rs))
    (h : w.turn b router = .next w') :
    (∃ given, w'.parser.stage = .body r.req given) ∧
      w'.parser.buf ++ w'.stream.reads.flatten = r.body ++ WireRequest.stream rs ∧
      w'.stream.pos = w.stream.pos + r.head.length + w'.parser.buf.length := by
  obtain ⟨buf, s, hrec, hrest, hpos⟩ := Worker.receive_request hreads
  obtain ⟨req, p, s', hserves, -⟩ := Worker.turn_next h
  obtain ⟨url, d, -, hrun, -⟩ := hserves.ran
  cases hrec.symm.trans hserves.received
  have htook := Handler.run_took (b := b)
    (router w.app r.req url { w.setUp b r.req with url }) (p := ⟨buf, .body r.req 0⟩) rfl s
    (w.log ++ [.readHeader w.stream.pos] ++ [.received r.req] ++ [.dispatched r.req])
  rw [hrun] at htook
  refine ⟨htook.stage, htook.octets.trans hrest, ?_⟩
  have hmore : w'.stream.pos + buf.length = s.pos + w'.parser.buf.length := htook.pos
  omega

/-! ## The session -/

/-- A log that starts to read elsewhere does not follow the requests. -/
theorem not_followsLog_of_pos {pos pos' : Nat} {rs : List (WireRequest b)}
    {l : List (Event Req F)} (hpos : pos ≠ pos') :
    ¬ FollowsLog pos rs (.readHeader pos' :: l) := by
  rintro ⟨-, hs⟩
  obtain ⟨tl, htl⟩ := boundaries_head pos rs
  rw [htl, starts_readHeader, List.cons_prefix_cons] at hs
  exact hpos hs.1.symm

/-- A log that starts with the turn of the first request follows the requests exactly if the rest
of it follows the other requests. -/
theorem followsLog_cons_iff {pos : Nat} {r : WireRequest b} {rs : List (WireRequest b)}
    {l l' : List (Event Req F)} (hs : starts l = []) (hd : dispatches l = [r.req]) :
    FollowsLog pos (r :: rs) (.readHeader pos :: l ++ l') ↔
      FollowsLog (pos + r.octets.length) rs l' := by
  simp [FollowsLog, hs, hd, boundaries, List.cons_prefix_cons]

/-- What the log of a session from `w` on is to be: it begins with the start of a `read_header`, and
on a stream of requests it follows them exactly if the parser is at the end of its message whenever
the loop goes round. -/
def Logs (router : Router Req Url F D App) (w : Worker Req Url F D App)
    (log : List (Event Req F)) : Prop :=
  ∃ l, log = w.log ++ .readHeader w.stream.pos :: l ∧
    ∀ rs : List (WireRequest b), w.stream.reads.flatten = WireRequest.stream rs →
      (FollowsLog w.stream.pos rs (.readHeader w.stream.pos :: l) ↔
        ∀ x, LaterHeads (Worker.turn b router) w x → x.parser.atMessageEnd b = true)

/-- A turn that leaves the loop. -/
theorem Worker.turn_exit_logs {e : Exit} (h : w.turn b router = .exit (e, w')) :
    Logs (b := b) router w w'.log := by
  obtain ⟨l, hlog, hs, hd⟩ := Worker.turn_exit_log h
  refine ⟨l, hlog, fun rs hreads => iff_of_true ⟨?_, ?_⟩ (forall_later_exit h)⟩
  · refine List.IsPrefix.trans hd ?_
    cases rs with
    | nil =>
      have hnone : (w.receive b).1 = none := RequestParser.readHeader_empty _ hreads _
      simp [hnone]
    | cons r rs =>
      obtain ⟨buf, s, hrec, -, -⟩ := Worker.receive_request hreads
      simp [hrec, List.cons_prefix_cons]
  · obtain ⟨tl, htl⟩ := boundaries_head w.stream.pos rs
    simp [htl, hs, List.cons_prefix_cons]

/-- A turn that goes round leaves the next one either at the next request or elsewhere in the
stream. -/
theorem Worker.turn_next_logs {log : List (Event Req F)} (h : w.turn b router = .next w')
    (ih : Logs (b := b) router w' log) : Logs (b := b) router w log := by
  obtain ⟨l, hlog, hs, hd⟩ := Worker.turn_next_log h
  obtain ⟨l', hlog', hrest⟩ := ih
  refine ⟨l ++ .readHeader w'.stream.pos :: l', by simp [hlog', hlog], ?_⟩
  intro rs hreads
  cases rs with
  | nil =>
    have hnone : (w.receive b).1 = none := RequestParser.readHeader_empty _ hreads _
    obtain ⟨req, p, s, hserves, -⟩ := Worker.turn_next h
    rw [hserves.received] at hnone
    cases hnone
  | cons r rs =>
    obtain ⟨buf, s, hrec, -, -⟩ := Worker.receive_request hreads
    obtain ⟨⟨given, hstage⟩, hoct, hpos⟩ := Worker.turn_next_took hreads h
    have hend := atMessageEnd_iff r hstage hoct
    rw [hrec] at hd
    rw [forall_later_next h, ← List.cons_append, followsLog_cons_iff hs hd, hend]
    by_cases hlen : w'.parser.buf.length = r.body.length
    · have hsplit := List.append_inj hoct hlen
      have hpos' : w.stream.pos + r.octets.length = w'.stream.pos := by
        rw [hpos, hlen, WireRequest.octets, List.length_append, Nat.add_assoc]
      rw [hpos', hrest rs hsplit.2]
      exact (and_iff_right hlen).symm
    · refine iff_of_false (not_followsLog_of_pos ?_) fun h => hlen h.1
      rw [hpos, WireRequest.octets, List.length_append, Nat.add_assoc]
      omega

/-- A session on a connection that brings the requests `rs`, cut into reads in any way, is framed
exactly if the parser is at the end of its message whenever the loop goes round. -/
theorem framed_iff (b : Boost Req Url F) (router : Router Req Url F D App)
    (w : Worker Req Url F D App) (rs : List (WireRequest b)) (reads : List (List Char))
    (hreads : reads.flatten = WireRequest.stream rs) :
    Framed b router (w.connect reads) rs ↔
      ∀ x, LaterHeads (Worker.turn b router) (w.connect reads) x →
        x.parser.atMessageEnd b = true := by
  obtain ⟨l, hlog, hfollows⟩ := run_rec
    (P := fun w (q : Exit × Worker Req Url F D App) => Logs (b := b) router w q.2.log)
    (fun _ _ => Worker.turn_exit_logs) (fun _ _ _ => Worker.turn_next_logs) (w.connect reads)
  have hl : (doHttpSession b router (w.connect reads)).2.log = .readHeader 0 :: l := hlog
  rw [Framed, hl]
  exact hfollows rs hreads

/-! ## Three requests without a body -/

/-- The GET requests for `/1`, `/2` and `/3`. -/
def threeGets : List (WireRequest plain) :=
  [plainWire (getHead '1') [] (by decide) (by decide),
    plainWire (getHead '2') [] (by decide) (by decide),
    plainWire (getHead '3') [] (by decide) (by decide)]

/-- The log of a turn that answers a GET request. -/
def getLog (pos : Nat) (n : Char) : List (Event (List Char) FieldList) :=
  [.readHeader pos, .received (getHead n), .dispatched (getHead n),
    .responded ⟨200, .http11, []⟩]

/-- The worker at the end of such a turn. -/
def answered (n : Char) (buf : List Char) (stream : Stream)
    (log : List (Event (List Char) FieldList)) :
    Worker (List Char) (List Char) FieldList Unit Unit :=
  ⟨⟨getHead n, ['/', n], [], [], ⟨200, .http11, []⟩⟩, ⟨buf, .body (getHead n) 0⟩, stream, (), log⟩

/-- One read per request: the session is framed. -/
theorem threeGets_framed :
    Framed plain answer (idle.connect [getHead '1', getHead '2', getHead '3']) threeGets := by
  have h1 : (idle.connect [getHead '1', getHead '2', getHead '3']).turn plain answer
      = .next (answered '1' [] ⟨[getHead '2', getHead '3'], 19⟩ (getLog 0 '1')) := rfl
  have h2 : (answered '1' [] ⟨[getHead '2', getHead '3'], 19⟩ (getLog 0 '1')).turn plain answer
      = .next (answered '2' [] ⟨[getHead '3'], 38⟩ (getLog 0 '1' ++ getLog 19 '2')) := rfl
  have h3 : (answered '2' [] ⟨[getHead '3'], 38⟩ (getLog 0 '1' ++ getLog 19 '2')).turn plain answer
      = .next (answered '3' [] ⟨[], 57⟩ (getLog 0 '1' ++ getLog 19 '2' ++ getLog 38 '3')) := rfl
  refine (framed_iff plain answer idle threeGets [getHead '1', getHead '2', getHead '3'] rfl).2 ?_
  exact (forall_later_next h1).2 ⟨rfl, (forall_later_next h2).2 ⟨rfl, (forall_later_next h3).2
    ⟨rfl, forall_later_exit (r := (.readHeader, _)) rfl⟩⟩⟩

/-- The first two requests in one read: the second is lost, and the third dispatched in its
place. -/
theorem pipelined_not_framed :
    [getHead '1' ++ getHead '2', getHead '3'].flatten = WireRequest.stream threeGets ∧
      ¬ Framed plain answer (idle.connect [getHead '1' ++ getHead '2', getHead '3']) threeGets := by
  have h1 : (idle.connect [getHead '1' ++ getHead '2', getHead '3']).turn plain answer
      = .next (answered '1' (getHead '2') ⟨[getHead '3'], 38⟩ (getLog 0 '1')) := rfl
  have h2 : (answered '1' (getHead '2') ⟨[getHead '3'], 38⟩ (getLog 0 '1')).turn plain answer
      = .next (answered '3' [] ⟨[], 57⟩ (getLog 0 '1' ++ getLog 38 '3')) := rfl
  have h3 : (answered '3' [] ⟨[], 57⟩ (getLog 0 '1' ++ getLog 38 '3')).turn plain answer
      = .exit (.readHeader, { answered '3' [] ⟨[], 57⟩ (getLog 0 '1' ++ getLog 38 '3' ++
          [.readHeader 57]) with parser := ⟨[], .header⟩ }) := rfl
  have hlog : (doHttpSession plain answer
      (idle.connect [getHead '1' ++ getHead '2', getHead '3'])).2.log
        = getLog 0 '1' ++ getLog 38 '3' ++ [.readHeader 57] := by
    rw [doHttpSession, Worker.loop, run_next h1, run_next h2, run_exit h3]
    rfl
  refine ⟨rfl, ?_⟩
  rintro ⟨hd, -⟩
  rw [hlog] at hd
  revert hd
  decide

end Beast2.Server
