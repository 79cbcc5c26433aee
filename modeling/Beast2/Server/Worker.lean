import Beast2.Lib.Loop
import Beast2.Lib.Fields

/-!
# The HTTP session of a server worker

`http_worker::do_http_session` (`src/http_worker.cpp:30`) reads a request header, sets up the route
parameters, parses the target, hands the request to the router and goes round while the response is
keep-alive. `http_server::worker::do_session` and `https_server::worker::do_session` run it between
the set-up and the shutdown of a connection.

What the code takes from Boost.HTTP and Boost.URL is the parameter `Boost`: which octets are a
header, where a body ends, what a request says, what `set_keep_alive` makes of a response and which
targets are URI references. The request parser is its buffer and its stage: `reset` discards the
buffer, `start` keeps what follows a completed message, and both the header and the body are read in
the pieces the socket delivers. A handler is a tree of what it does (`Handler`): it reads from
`rp.req_body`, writes responses to `rp.res_body`, and ends with the route parameters it leaves and
whether `dispatch` failed. The serializer's own state is left out: `serializer.reset()` edits no
message, and a response is logged when a handler writes it.

The log of a session is what the properties speak of: where each `read_header` starts in the stream,
which headers are received, what is dispatched and which responses are written.
-/

namespace Beast2.Server

open Loop Fields

/-- The HTTP version of a message. -/
inductive Version where
  | http10
  | http11
deriving DecidableEq, Repr

/-- `http::response`: its start line and its fields. -/
structure Response (F : Type) where
  status : Nat
  version : Version
  fields : F
deriving DecidableEq, Repr

/-- `response::set_start_line`. -/
def Response.setStartLine {F : Type} (r : Response F) (status : Nat) (version : Version) :
    Response F := { r with status, version }

/-- The name of the Connection field. -/
def connection : List Char := "Connection".toList

/-- What the octets received so far are to `read_header`. -/
inductive HeaderStatus (Req : Type) where
  | more
  | bad
  | done (req : Req) (size : Nat)
deriving DecidableEq, Repr

/-- Boost.HTTP and Boost.URL as the session uses them. `header` looks for a request header at the
front of the octets, `bodyEnd` for the end of the body of a request, in the octets after its header.
`set_keep_alive` touches only the Connection field. -/
structure Boost (Req Url F : Type) [Container F] where
  header : List Char → HeaderStatus Req
  header_nil : header [] = .more
  bodyEnd : Req → List Char → Option Nat
  target : Req → List Char
  version : Req → Version
  keepAlive : Req → Bool
  parseUriReference : List Char → Option Url
  responseKeepAlive : Response F → Bool
  setKeepAlive : Response F → Bool → Response F
  setKeepAlive_status (r : Response F) (b : Bool) : (setKeepAlive r b).status = r.status
  setKeepAlive_version (r : Response F) (b : Bool) : (setKeepAlive r b).version = r.version
  setKeepAlive_fields (r : Response F) (b : Bool) (n : List Char) (h : canon n ≠ canon connection) :
    findAll (setKeepAlive r b).fields n = findAll r.fields n

/-- `http::route_params`, with the data stores as the lists of their entries. The body source and
sink are part of what a handler does. -/
structure RouteParams (Req Url F D : Type) where
  req : Req
  url : Url
  routeData : List D
  sessionData : List D
  res : Response F
deriving DecidableEq, Repr

/-- What a handler does, up to the value it ends with. `readBody` is one read of `rp.req_body`,
`respond` one response written to `rp.res_body`. -/
inductive Handler (F A : Type) where
  | readBody (k : List Char → Handler F A)
  | respond (res : Response F) (k : Handler F A)
  | done (a : A)

/-- How a dispatch ends: the application's own state, the route parameters it leaves and whether it
failed. -/
structure Dispatched (Req Url F D App : Type) where
  app : App
  rp : RouteParams Req Url F D
  failed : Bool

/-- `flat_router::dispatch`. -/
abbrev Router (Req Url F D App : Type) :=
  App → Req → Url → RouteParams Req Url F D → Handler F (Dispatched Req Url F D App)

/-- The stage of the request parser: `reset` called, `start` called, or in the body of a request, of
which `given` octets have been handed out. -/
inductive Stage (Req : Type) where
  | reset
  | header
  | body (req : Req) (given : Nat)
deriving DecidableEq, Repr

/-- `http::request_parser`: the octets it holds, from the start of the header or, in the body stage,
from the end of the header. -/
structure RequestParser (Req : Type) where
  buf : List Char
  stage : Stage Req
deriving DecidableEq, Repr

/-- The socket: what its reads will still return, and how many octets they have returned. -/
structure Stream where
  reads : List (List Char)
  pos : Nat
deriving DecidableEq, Repr

/-- What a session does that can be seen. -/
inductive Event (Req F : Type) where
  | readHeader (pos : Nat)
  | received (req : Req)
  | dispatched (req : Req)
  | responded (res : Response F)
deriving DecidableEq, Repr

/-- `http_worker`: the route parameters, the parser, the stream, and with them the application's
state and the log of the session. -/
structure Worker (Req Url F D App : Type) where
  rp : RouteParams Req Url F D
  parser : RequestParser Req
  stream : Stream
  app : App
  log : List (Event Req F)
deriving DecidableEq, Repr

section
variable {Req Url F D App : Type} [Container F]

/-! ## The parser -/

namespace RequestParser

/-- `request_parser::reset`. -/
def reset (_ : RequestParser Req) : RequestParser Req := ⟨[], .reset⟩

/-- `request_parser::start`: what follows a completed message is kept. -/
def start (b : Boost Req Url F) (p : RequestParser Req) : RequestParser Req :=
  match p.stage with
  | .reset | .header => ⟨p.buf, .header⟩
  | .body req _ => ⟨p.buf.drop ((b.bodyEnd req p.buf).getD 0), .header⟩

/-- The octets of the body that have arrived. -/
def available (b : Boost Req Url F) (req : Req) (buf : List Char) : Nat :=
  (b.bodyEnd req buf).getD buf.length

/-- `request_parser::read_header`, on the octets held: it reads until they hold a header. `none` is
the error code of a malformed header or of a stream that ends before one. -/
def readHeader (b : Boost Req Url F) (buf : List Char) :
    (reads : List (List Char)) → (pos : Nat) → Option Req × RequestParser Req × Stream
  | reads, pos =>
    match b.header buf with
    | .bad => (none, ⟨buf, .header⟩, ⟨reads, pos⟩)
    | .done req n => (some req, ⟨buf.drop n, .body req 0⟩, ⟨reads, pos⟩)
    | .more =>
      match reads with
      | [] => (none, ⟨buf, .header⟩, ⟨[], pos⟩)
      | r :: reads => readHeader b (buf ++ r) reads (pos + r.length)

/-- One read of the body source: what has arrived of the body, and if all of that has been handed
out and the body is not complete, one read of the socket first. -/
def readBody (b : Boost Req Url F) (p : RequestParser Req) (s : Stream) :
    List Char × RequestParser Req × Stream :=
  match p.stage with
  | .reset | .header => ([], p, s)
  | .body req given =>
    if given < available b req p.buf then
      ((p.buf.take (available b req p.buf)).drop given,
        ⟨p.buf, .body req (available b req p.buf)⟩, s)
    else if (b.bodyEnd req p.buf).isSome then ([], p, s)
    else match s.reads with
      | [] => ([], p, s)
      | r :: reads =>
        (((p.buf ++ r).take (available b req (p.buf ++ r))).drop given,
          ⟨p.buf ++ r, .body req (available b req (p.buf ++ r))⟩, ⟨reads, s.pos + r.length⟩)

end RequestParser

/-- A handler run: the value it ends with, the parser and the stream after its reads, and the log
with its responses. -/
def Handler.run {A : Type} (b : Boost Req Url F) :
    Handler F A → RequestParser Req → Stream → List (Event Req F) →
      A × RequestParser Req × Stream × List (Event Req F)
  | .done a, p, s, log => (a, p, s, log)
  | .respond res k, p, s, log => k.run b p s (log ++ [.responded res])
  | .readBody k, p, s, log =>
    let (octets, p, s) := p.readBody b s
    (k octets).run b p s log

/-! ## The session -/

/-- Why a session ended: a `break` of its loop, or the exception that `rv.value()` throws for a
target that is no URI reference. -/
inductive Exit where
  | readHeader
  | dispatch
  | notKeepAlive
  | exception
deriving DecidableEq, Repr

namespace Worker

/-- The start of a turn: `parser.reset()`, `parser.start()` and the cleared session data, which is
also what the guard does when the session ends. Reference: `http_worker.cpp:45-47, 56-58`. -/
def clear (b : Boost Req Url F) (w : Worker Req Url F D App) : Worker Req Url F D App :=
  { w with parser := w.parser.reset.start b, rp := { w.rp with sessionData := [] } }

/-- `read_header` at the start of a turn. Reference: `http_worker.cpp:61`. -/
def receive (b : Boost Req Url F) (w : Worker Req Url F D App) :
    Option Req × RequestParser Req × Stream :=
  RequestParser.readHeader b (w.clear b).parser.buf w.stream.reads w.stream.pos

/-- The route parameters set up for a request. Reference: `http_worker.cpp:70-74`. -/
def setUp (b : Boost Req Url F) (w : Worker Req Url F D App) (req : Req) :
    RouteParams Req Url F D :=
  { (w.clear b).rp with
    req := req
    routeData := []
    res := b.setKeepAlive (w.rp.res.setStartLine 200 (b.version req)) (b.keepAlive req) }

/-- One turn of the loop. Reference: `http_worker.cpp:54-98`. -/
def turn (b : Boost Req Url F) (router : Router Req Url F D App) (w : Worker Req Url F D App) :
    Turn (Worker Req Url F D App) (Exit × Worker Req Url F D App) :=
  let log := w.log ++ [.readHeader w.stream.pos]
  match w.receive b with
  | (none, parser, stream) => .exit (.readHeader, { w.clear b with parser, stream, log })
  | (some req, parser, stream) =>
    let rp := w.setUp b req
    let log := log ++ [.received req]
    match b.parseUriReference (b.target req) with
    | none =>
      -- the status is set, and then `rv.value()` throws
      let rp := { rp with res := { rp.res with status := 400 } }
      .exit (.exception, { w with rp, parser, stream, log })
    | some url =>
      let rp := { rp with url }
      let (d, parser, stream, log) :=
        (router w.app req url rp).run b parser stream (log ++ [.dispatched req])
      let w : Worker Req Url F D App := ⟨d.rp, parser, stream, d.app, log⟩
      if d.failed then .exit (.dispatch, w)
      else if b.responseKeepAlive d.rp.res then .next w
      else .exit (.notKeepAlive, w)

/-- The route parameters a turn hands to the router, if it gets that far. -/
def handed (b : Boost Req Url F) (w : Worker Req Url F D App) : Option (RouteParams Req Url F D) :=
  (w.receive b).1.bind fun req =>
    (b.parseUriReference (b.target req)).map fun url => { w.setUp b req with url }

end Worker

/-! ## What a turn can do -/

section
variable {b : Boost Req Url F} {router : Router Req Url F D App} {w w' : Worker Req Url F D App}

/-- `read_header` takes no read back. -/
theorem RequestParser.readHeader_reads (buf : List Char) (reads : List (List Char)) (pos : Nat) :
    (RequestParser.readHeader b buf reads pos).2.2.reads.length ≤ reads.length := by
  induction reads generalizing buf pos with
  | nil => rw [readHeader]; split <;> exact Nat.le_refl _
  | cons r reads ih =>
    rw [readHeader]
    split
    · exact Nat.le_refl _
    · exact Nat.le_refl _
    · exact Nat.le_succ_of_le (ih _ _)

/-- A read of the body takes no read back. -/
theorem RequestParser.readBody_reads (p : RequestParser Req) (s : Stream) :
    (p.readBody b s).2.2.reads.length ≤ s.reads.length := by
  unfold RequestParser.readBody
  split
  · exact Nat.le_refl _
  · exact Nat.le_refl _
  · split
    · exact Nat.le_refl _
    · split
      · exact Nat.le_refl _
      · split
        · exact Nat.le_refl _
        · next h => rw [h]; exact Nat.le_succ _

/-- A handler takes no read back. -/
theorem Handler.run_reads {A : Type} (h : Handler F A) (p : RequestParser Req) (s : Stream)
    (log : List (Event Req F)) : (h.run b p s log).2.2.1.reads.length ≤ s.reads.length := by
  induction h generalizing p s log with
  | done a => exact Nat.le_refl _
  | respond res k ih => exact ih _ _ _
  | readBody k ih => exact Nat.le_trans (ih _ _ _ _) (RequestParser.readBody_reads p s)

/-- A handler logs the responses it writes and nothing else. -/
theorem Handler.run_log {A : Type} (h : Handler F A) (p : RequestParser Req) (s : Stream)
    (log : List (Event Req F)) :
    ∃ rs : List (Response F), (h.run b p s log).2.2.2 = log ++ rs.map .responded := by
  induction h generalizing p s log with
  | done a => exact ⟨[], by simp [Handler.run]⟩
  | respond res k ih =>
    obtain ⟨rs, hrs⟩ := ih p s (log ++ [.responded res])
    exact ⟨res :: rs, by simpa [Handler.run] using hrs⟩
  | readBody k ih => exact ih _ _ _ _

/-- A header is never received without a read: `parser.reset()` has emptied the buffer. -/
theorem Worker.receive_reads {req : Req} {p : RequestParser Req} {s : Stream}
    (h : w.receive b = (some req, p, s)) : s.reads.length < w.stream.reads.length := by
  have hbuf : (w.clear b).parser.buf = [] := rfl
  rw [receive, hbuf] at h
  cases hr : w.stream.reads with
  | nil =>
    rw [hr, RequestParser.readHeader, b.header_nil] at h
    cases h
  | cons r reads =>
    have hle := RequestParser.readHeader_reads (b := b) ([] ++ r) reads (w.stream.pos + r.length)
    rw [hr, RequestParser.readHeader, b.header_nil] at h
    simp only at h
    rw [h] at hle
    exact Nat.lt_succ_of_le hle

/-- `w'` is the worker after a turn from `w` that received `req` and dispatched it. -/
structure Worker.Serves (b : Boost Req Url F) (router : Router Req Url F D App)
    (w w' : Worker Req Url F D App) (req : Req) (p : RequestParser Req) (s : Stream) : Prop where
  received : w.receive b = (some req, p, s)
  ran : ∃ url d, b.parseUriReference (b.target req) = some url ∧
    (router w.app req url { w.setUp b req with url }).run b p s
      (w.log ++ [.readHeader w.stream.pos] ++ [.received req] ++ [.dispatched req])
        = (d, w'.parser, w'.stream, w'.log) ∧ w'.rp = d.rp ∧ w'.app = d.app

/-- The log of a turn that dispatched a request. -/
theorem Worker.Serves.log {req : Req} {p : RequestParser Req} {s : Stream}
    (h : w.Serves b router w' req p s) :
    ∃ rs : List (Response F), w'.log = w.log ++ .readHeader w.stream.pos :: .received req ::
      .dispatched req :: rs.map .responded := by
  obtain ⟨url, d, -, hrun, -⟩ := h.ran
  obtain ⟨rs, hlog⟩ := Handler.run_log (b := b)
    (router w.app req url { w.setUp b req with url }) p s
    (w.log ++ [.readHeader w.stream.pos] ++ [.received req] ++ [.dispatched req])
  rw [hrun] at hlog
  exact ⟨rs, by simpa using hlog⟩

/-- A turn that goes round dispatched a request and was left a keep-alive response. -/
theorem Worker.turn_next (h : w.turn b router = .next w') :
    ∃ req p s, w.Serves b router w' req p s ∧ b.responseKeepAlive w'.rp.res = true := by
  unfold Worker.turn at h
  dsimp only at h
  split at h
  · cases h
  · next req p s hrec =>
    split at h
    · cases h
    · next url hurl =>
      split at h
      · cases h
      · split at h
        · next hk => cases h; exact ⟨req, p, s, ⟨hrec, url, _, hurl, rfl, rfl, rfl⟩, hk⟩
        · cases h

/-- A turn that leaves the loop received no header, received one with a bad target, or dispatched a
request and then failed or was left a response that is not keep-alive. -/
theorem Worker.turn_exit {e : Exit} (h : w.turn b router = .exit (e, w')) :
    ((w.receive b).1 = none ∧ e = .readHeader ∧ w'.log = w.log ++ [.readHeader w.stream.pos]) ∨
    (∃ req, (w.receive b).1 = some req ∧ b.parseUriReference (b.target req) = none ∧
      e = .exception ∧ w'.log = w.log ++ [.readHeader w.stream.pos, .received req]) ∨
    (∃ req p s, w.Serves b router w' req p s ∧
      (e = .dispatch ∨ e = .notKeepAlive ∧ b.responseKeepAlive w'.rp.res = false)) := by
  unfold Worker.turn at h
  dsimp only at h
  split at h
  · next hrec => cases h; exact .inl ⟨by rw [hrec], rfl, rfl⟩
  · next req p s hrec =>
    split at h
    · next hurl => cases h; exact .inr (.inl ⟨req, by rw [hrec], hurl, rfl, by simp⟩)
    · next url hurl =>
      split at h
      · cases h
        exact .inr (.inr ⟨req, p, s, ⟨hrec, url, _, hurl, rfl, rfl, rfl⟩, .inl rfl⟩)
      · split at h
        · cases h
        · next hk =>
          cases h
          exact .inr (.inr ⟨req, p, s, ⟨hrec, url, _, hurl, rfl, rfl, rfl⟩,
            .inr ⟨rfl, Bool.eq_false_iff.2 hk⟩⟩)

/-- Every turn that goes round has read from the socket. -/
theorem Worker.turn_reads (h : w.turn b router = .next w') :
    w'.stream.reads.length < w.stream.reads.length := by
  obtain ⟨req, p, s, hserves, -⟩ := Worker.turn_next h
  obtain ⟨url, d, -, hrun, -⟩ := hserves.ran
  have hle := Handler.run_reads (b := b) (router w.app req url { w.setUp b req with url }) p s
    (w.log ++ [.readHeader w.stream.pos] ++ [.received req] ++ [.dispatched req])
  rw [hrun] at hle
  exact Nat.lt_of_le_of_lt hle (Worker.receive_reads hserves.received)

end

/-! ## The sessions -/

/-- The loop of `do_http_session`, from a worker at its head. -/
def Worker.loop (b : Boost Req Url F) (router : Router Req Url F D App) :
    Worker Req Url F D App → Exit × Worker Req Url F D App :=
  Loop.run (Worker.turn b router) (fun w => w.stream.reads.length) fun _ _ => Worker.turn_reads

/-- `http_worker::do_http_session`: why it ends, and the worker after the guard has run. Reference:
`http_worker.cpp:30-99`. -/
def doHttpSession (b : Boost Req Url F) (router : Router Req Url F D App)
    (w : Worker Req Url F D App) : Exit × Worker Req Url F D App :=
  ((w.loop b router).1, (w.loop b router).2.clear b)

/-- A worker with a new connection. -/
def Worker.connect (w : Worker Req Url F D App) (reads : List (List Char)) :
    Worker Req Url F D App := { w with stream := ⟨reads, 0⟩, log := [] }

/-- What a `do_session` leaves: the worker, whether an exception left it, whether the socket was
shut down and whether the TLS stream is still there. -/
structure SessionEnd (Req Url F D App : Type) where
  worker : Worker Req Url F D App
  thrown : Bool
  shutdown : Bool
  tls : Bool

/-- `http_server::worker::do_session`. Reference: `http_server.cpp:83`. -/
def httpDoSession (b : Boost Req Url F) (router : Router Req Url F D App)
    (w : Worker Req Url F D App) : SessionEnd Req Url F D App :=
  match doHttpSession b router w with
  | (.exception, w) => ⟨w, true, false, false⟩
  | (_, w) => ⟨w, false, true, false⟩

/-- `https_server::worker::do_session`, with the outcome of the handshake. Reference:
`https_server.cpp:86`. -/
def httpsDoSession (b : Boost Req Url F) (router : Router Req Url F D App) (handshakeError : Bool)
    (w : Worker Req Url F D App) : SessionEnd Req Url F D App :=
  if handshakeError then ⟨w, false, true, false⟩
  else match doHttpSession b router w with
    | (.exception, w) => ⟨w, true, false, true⟩
    | (_, w) => ⟨w, false, true, false⟩

end

end Beast2.Server
