import Mathlib.Data.List.Induction
import Beast2.Lib.Log
import Beast2.Lib.Machine
import Beast2.Burl.Request

/-!
# The layers of the `get` client

The session of the `get` client is a chain of callbacks: each starts one operation and names the
callback for its completion (`get/main.cpp:34-419`). The stream is a TLS layer over a socket. Every
operation on it has to be started on the TLS layer if the connection has completed a handshake, and
on the socket otherwise, and the callbacks test `secure_` for that one by one.

`secure_` always tells which of the two a connection is. But the read that discards the body of a
redirect, so that the connection can be used again, is started on the TLS layer without the test: in
any run, all operations are on the right layer exactly if no redirect over a plain connection lets
the connection be used again (`layers_iff`).

What the resolver, the connections, the servers and Boost.URL do is any list of completions and any
functions.
-/

namespace Beast2.Get

open Fields Log

/-! ## The data of a session -/

/-- A URL, with `port()` and `has_port()`. -/
structure Url extends Burl.Url where
  port : Option (List Char)
deriving DecidableEq, Repr

/-- `system::error_code`: no error, the two that the session knows, or another. -/
inductive ErrorCode where
  | success
  | streamTruncated
  | notConnected
  | other (value : Int)
deriving DecidableEq, Repr

/-- `error_code::failed`. -/
def ErrorCode.failed (ec : ErrorCode) : Bool := ec != .success

/-- Boost.URL as the session uses it. -/
structure Urls (Ref : Type) where
  parseUriReference : List Char → Except ErrorCode Ref
  resolve : Url → Ref → Url

/-- The response that `pr_.get()` returns. -/
structure Response where
  status : Nat
  http11 : Bool
  close : Bool
  fields : FieldList
deriving DecidableEq, Repr

/-- `stream_`: not connected, connected, connected with TLS being set up, and with the handshake
completed. -/
inductive Stream where
  | closed
  | plain
  | handshaking
  | tls
deriving DecidableEq, Repr

/-- `stream_` or `stream_.next_layer()`. -/
inductive Layer where
  | tls
  | socket
deriving DecidableEq, Repr

/-- What is started on a connection. -/
inductive Kind where
  | write
  | readHeader
  | read
  | shutdown
deriving DecidableEq, Repr

/-- An operation: the layer that it is started on, and the stream at that time. -/
structure Op where
  kind : Kind
  layer : Layer
  stream : Stream
deriving DecidableEq, Repr

/-- The operation whose completion the session waits for. -/
inductive Pending where
  | resolve
  | connect
  | handshake
  | write
  | readHeader
  | drain
  | read
  | reopen
  | close
deriving DecidableEq, Repr

/-- What is written to standard error. Reference: `get/main.cpp:350-362`. -/
inductive Failure where
  | failed (ec : ErrorCode) (operation : String)
  | what (text : String)
deriving DecidableEq, Repr

/-- The members of a session, with the operation under way, the operations that were started and the
failures. Reference: `get/main.cpp:36-46`. -/
structure Session where
  stream : Stream := .closed
  req : Burl.Request FieldList := ⟨Burl.methodGet, "/".toList, .http11, []⟩
  url : Url
  host : List Char := []
  port : List Char := []
  maxRedirects : Nat := 50
  secure : Bool := false
  pending : Option Pending := none
  started : List Op := []
  failures : List Failure := []

/-! ## The callbacks -/

namespace Session

/-- `fail`. -/
def fail (f : Failure) (s : Session) : Session :=
  { s with pending := none, failures := s.failures ++ [f] }

/-- An operation on a layer of the stream. -/
def record (kind : Kind) (layer : Layer) (s : Session) : Session :=
  { s with started := s.started ++ [⟨kind, layer, s.stream⟩] }

/-- An asynchronous operation on a layer of the stream. -/
def start (kind : Kind) (layer : Layer) (pending : Pending) (s : Session) : Session :=
  { s.record kind layer with pending := some pending }

/-- An asynchronous operation on the layer that `secure_` tells. -/
def startSecure (kind : Kind) (pending : Pending) (s : Session) : Session :=
  if s.secure then s.start kind .tls pending else s.start kind .socket pending

/-- `do_resolve`. Reference: `get/main.cpp:87`. -/
def doResolve (s : Session) : Session :=
  -- the old connection is gone with the old stream
  let s := { s with stream := .closed, secure := s.url.schemeId == Burl.Scheme.https }
  let port := match s.url.port with
    | some port => some port
    | none =>
      if s.url.schemeId = Burl.Scheme.https then some "443".toList
      else if s.url.schemeId = Burl.Scheme.http then some "80".toList
      else none
  match port with
  | some port => { s with port, host := s.url.host, pending := some .resolve }
  | none => s.fail (.what "Unsupported URL scheme")

/-- `on_resolve`. Reference: `get/main.cpp:116`. -/
def onResolve (ec : ErrorCode) (s : Session) : Session :=
  if ec.failed then s.fail (.failed ec "resolve")
  else { s with pending := some .connect }

/-- `do_write`. Reference: `get/main.cpp:172`. -/
def doWrite (s : Session) : Session := s.startSecure .write .write

/-- `on_connect`, with the error of `SSL_set_tlsext_host_name`. Reference: `get/main.cpp:131`. -/
def onConnect (ec sni : ErrorCode) (s : Session) : Session :=
  if ec.failed then s.fail (.failed ec "connect")
  else if s.secure then
    let s := { s with stream := .handshaking }
    if sni.failed then s.fail (.failed sni "SSL_set_tlsext_host_name")
    else { s with pending := some .handshake }
  else doWrite { s with stream := .plain }

/-- `on_ssl_handshake`. Reference: `get/main.cpp:163`. -/
def onSslHandshake (ec : ErrorCode) (s : Session) : Session :=
  if ec.failed then s.fail (.failed ec "handshake")
  else doWrite { s with stream := .tls }

/-- `on_write`. Reference: `get/main.cpp:191`. -/
def onWrite (ec : ErrorCode) (s : Session) : Session :=
  if ec.failed then s.fail (.failed ec "write")
  else s.startSecure .readHeader .readHeader

/-- `is_redirect`. Reference: `get/main.cpp:364`. -/
def isRedirect (status : Nat) : Bool :=
  match status with
  | 301 | 302 | 303 | 307 | 308 => true
  | _ => false

/-- `can_reuse_connection`. Reference: `get/main.cpp:386`. -/
def canReuseConnection (res : Response) (a b : Url) : Bool :=
  if a.encodedOrigin ≠ b.encodedOrigin then false
  else if !res.http11 then false
  else if res.close then false
  else true

variable {Ref : Type}

/-- `on_redirect_response`: the read that discards the body is on the TLS layer in any case.
Reference: `get/main.cpp:248`. -/
def onRedirectResponse (urls : Urls Ref) (res : Response) (s : Session) : Session :=
  if s.maxRedirects = 0 then s.fail (.what "Maximum redirects followed")
  else
    let s := { s with maxRedirects := s.maxRedirects - 1 }
    match (findAll res.fields Burl.Field.location).head? with
    | none => s.fail (.what "Bad redirect response")
    | some value =>
      match urls.parseUriReference value with
      | .error ec => s.fail (.failed ec "Bad redirect URL")
      | .ok ref =>
        let redirect := urls.resolve s.url ref
        let req := { s.req with target := redirect.encodedTarget }
        let req := req.set Burl.Field.referer s.url.buffer
        let req := req.set Burl.Field.host redirect.hostAndPort
        let reuseConn := canReuseConnection res s.url redirect
        let s := { s with req, url := redirect }
        -- `secure_` is not looked at here
        if reuseConn then s.start .read .tls .drain
        else if s.secure then s.start .shutdown .tls .reopen
        else (s.record .shutdown .socket).doResolve

/-- `on_read_header`. Reference: `get/main.cpp:218`. -/
def onReadHeader (urls : Urls Ref) (ec : ErrorCode) (res : Response) (s : Session) : Session :=
  if ec.failed then s.fail (.failed ec "read_header")
  else if isRedirect res.status then s.onRedirectResponse urls res
  else s.startSecure .read .read

/-- The completion of the read that discards a body. Reference: `get/main.cpp:287-298`. -/
def onDrain (ec : ErrorCode) (s : Session) : Session :=
  if ec.failed then s.doResolve else s.doWrite

/-- `on_read`, with the error of `shutdown`. Reference: `get/main.cpp:320`. -/
def onRead (ec shutdown : ErrorCode) (s : Session) : Session :=
  if ec.failed then s.fail (.failed ec "read")
  else if s.secure then s.start .shutdown .tls .close
  else
    let s := s.record .shutdown .socket
    if shutdown.failed && shutdown != .notConnected then s.fail (.failed shutdown "shutdown")
    else { s with pending := none }

/-- The completion of the last shutdown. Reference: `get/main.cpp:331-336`. -/
def onClose (ec : ErrorCode) (s : Session) : Session :=
  if ec.failed && ec != .streamTruncated then s.fail (.failed ec "shutdown")
  else { s with pending := none }

/-- `req_.append`. -/
def append (req : Burl.Request FieldList) (name value : List Char) : Burl.Request FieldList :=
  { req with fields := req.fields ++ [(name, value)] }

/-- `run`. Reference: `get/main.cpp:58`. -/
def run (build : Burl.Build) (url : Url) : Session :=
  let s : Session := { url }
  let req := if url.encodedTarget.isEmpty then s.req else { s.req with target := url.encodedTarget }
  let req := req.set Burl.Field.userAgent "Boost.Http.Io".toList
  let req := req.set Burl.Field.host url.hostAndPort
  let req := if build.hasBrotli then append req Burl.Field.acceptEncoding "br".toList else req
  let req := if build.hasZlib then append req Burl.Field.acceptEncoding "deflate, gzip".toList
    else req
  doResolve { s with req }

end Session

/-! ## Runs -/

/-- The completion of an operation. -/
inductive Event where
  | resolve (ec : ErrorCode)
  | connect (ec sni : ErrorCode)
  | handshake (ec : ErrorCode)
  | write (ec : ErrorCode)
  | readHeader (ec : ErrorCode) (res : Response)
  | drain (ec : ErrorCode)
  | read (ec shutdown : ErrorCode)
  | reopen (ec : ErrorCode)
  | close (ec : ErrorCode)

/-- The callback for a completion: nothing but the operation under way can complete. -/
def step {Ref : Type} (urls : Urls Ref) (s : Session) (e : Event) : Option Session :=
  match s.pending, e with
  | some .resolve, .resolve ec => some (s.onResolve ec)
  | some .connect, .connect ec sni => some (s.onConnect ec sni)
  | some .handshake, .handshake ec => some (s.onSslHandshake ec)
  | some .write, .write ec => some (s.onWrite ec)
  | some .readHeader, .readHeader ec res => some (s.onReadHeader urls ec res)
  | some .drain, .drain ec => some (s.onDrain ec)
  | some .read, .read ec shutdown => some (s.onRead ec shutdown)
  | some .reopen, .reopen _ => some s.doResolve
  | some .close, .close ec => some (s.onClose ec)
  | _, _ => none

/-! ## The layers -/

/-- An operation is on the TLS layer if the handshake is completed, and on the socket otherwise. -/
def Op.RightLayer (op : Op) : Prop := op.layer = .tls ↔ op.stream = .tls

instance (op : Op) : Decidable op.RightLayer := inferInstanceAs (Decidable (_ ↔ _))

/-- All operations of a session are on the right layer. -/
def Session.RightLayers (s : Session) : Prop := ∀ op ∈ s.started, op.RightLayer

/-- `secure_` tells what the connection is: with TLS, or plain. -/
structure Session.SecureTells (s : Session) : Prop where
  tls : s.stream = .tls → s.secure = true
  plain : s.stream = .plain → s.secure = false
  handshaking : s.stream = .handshaking → s.secure = true

/-- A response lets the connection be used again for its redirect. -/
def Session.Reuses {Ref : Type} (urls : Urls Ref) (res : Response) (s : Session) : Prop :=
  isRedirect res.status = true ∧ s.maxRedirects ≠ 0 ∧
    ∃ value ref, (findAll res.fields Burl.Field.location).head? = some value ∧
      urls.parseUriReference value = .ok ref ∧
      canReuseConnection res s.url (urls.resolve s.url ref) = true

/-- Over a plain connection, a response comes in that lets it be used again for its redirect. -/
def ReusesPlain {Ref : Type} (urls : Urls Ref) (s : Session) (e : Event) : Prop :=
  s.stream = .plain ∧ ∃ res, e = .readHeader .success res ∧ s.Reuses urls res

/-- The connection can be used. -/
def Stream.InUse (stream : Stream) : Prop := stream = .plain ∨ stream = .tls

/-- The stream that an operation under way needs. -/
def Pending.Needs (stream : Stream) : Pending → Prop
  | .resolve | .connect => stream = .closed
  | .handshake => stream = .handshaking
  | _ => stream.InUse

/-- What holds between two callbacks. -/
structure Session.Inv (s : Session) : Prop extends s.SecureTells where
  pending : ∀ p, s.pending = some p → p.Needs s.stream

/-- What a callback does: it keeps what holds between callbacks, and what it starts is on the right
layer if and only if a condition holds. -/
structure Session.Takes (right : Prop) (s s' : Session) : Prop where
  inv : s'.Inv
  layers : s'.RightLayers ↔ s.RightLayers ∧ right

namespace Session

variable {s s' s'' : Session} {right : Prop}

theorem Takes.of_same (hinv : s'.Inv) (h : s'.started = s.started) : s.Takes True s' := by
  refine ⟨hinv, ?_⟩
  rw [RightLayers, RightLayers, h, and_true]

/-- A callback that first does something else. -/
theorem Takes.before (h : s'.Takes right s'') (hlayers : s'.RightLayers ↔ s.RightLayers) :
    s.Takes right s'' :=
  ⟨h.inv, h.layers.trans (and_congr_left fun _ => hlayers)⟩

theorem takes_fail (h : s.SecureTells) (f : Failure) : s.Takes True (s.fail f) := by
  refine .of_same ⟨⟨h.tls, h.plain, h.handshaking⟩, ?_⟩ rfl
  intro p heq
  cases heq

/-- A new connection is begun with a new stream. -/
theorem takes_doResolve (s : Session) : s.Takes True s.doResolve := by
  have hclosed : ∀ (s' : Session), s'.stream = .closed → s'.SecureTells := by
    intro s' h
    refine ⟨fun htls => ?_, fun hplain => ?_, fun hshaking => ?_⟩
    · cases h.symm.trans htls
    · cases h.symm.trans hplain
    · cases h.symm.trans hshaking
  unfold doResolve
  dsimp only
  split
  · refine .of_same ⟨hclosed _ rfl, ?_⟩ rfl
    intro p heq
    cases heq
    exact rfl
  · exact ⟨(takes_fail (hclosed _ rfl) _).inv, (takes_fail (hclosed _ rfl) _).layers⟩

/-- An operation on a layer. -/
theorem rightLayers_record (kind : Kind) (layer : Layer) (s : Session) :
    (s.record kind layer).RightLayers ↔
      s.RightLayers ∧ (⟨kind, layer, s.stream⟩ : Op).RightLayer := by
  simp only [RightLayers, record, List.mem_append, List.mem_singleton]
  refine ⟨fun h => ⟨fun op hop => h op (.inl hop), h _ (.inr rfl)⟩, ?_⟩
  rintro ⟨h, hnew⟩ op (hop | rfl)
  · exact h op hop
  · exact hnew

theorem takes_start (h : s.SecureTells) (kind : Kind) (layer : Layer) (p : Pending)
    (hp : p.Needs s.stream) :
    s.Takes (⟨kind, layer, s.stream⟩ : Op).RightLayer (s.start kind layer p) := by
  refine ⟨⟨⟨h.tls, h.plain, h.handshaking⟩, ?_⟩, rightLayers_record kind layer s⟩
  intro _ heq
  cases heq
  exact hp

theorem SecureTells.rightLayer_tls (h : s.SecureTells) (hin : s.stream.InUse)
    (hsecure : s.secure = true) (kind : Kind) : (⟨kind, .tls, s.stream⟩ : Op).RightLayer := by
  rcases hin with hplain | htls
  · cases hsecure.symm.trans (h.plain hplain)
  · exact iff_of_true rfl htls

theorem SecureTells.rightLayer_socket (h : s.SecureTells) (hsecure : s.secure ≠ true)
    (kind : Kind) : (⟨kind, .socket, s.stream⟩ : Op).RightLayer := by
  refine iff_of_false ?_ (mt h.tls hsecure)
  intro heq
  cases heq

/-- An operation on the socket of a plain connection is on the right layer. -/
theorem SecureTells.rightLayers_record_socket (h : s.SecureTells) (hsecure : s.secure ≠ true)
    (kind : Kind) : (s.record kind .socket).RightLayers ↔ s.RightLayers :=
  (rightLayers_record kind .socket s).trans (and_iff_left (h.rightLayer_socket hsecure kind))

/-- The read that discards a body is on the right layer if the connection is not a plain one. -/
theorem rightLayer_tls_iff (hin : s.stream.InUse) (kind : Kind) :
    (⟨kind, .tls, s.stream⟩ : Op).RightLayer ↔ ¬ s.stream = .plain := by
  rcases hin with hstream | hstream
  · exact iff_of_false (fun h => by cases (hstream.symm.trans (h.1 rfl))) (fun h => h hstream)
  · exact iff_of_true (iff_of_true rfl hstream) (fun h => by cases hstream.symm.trans h)

theorem Takes.of_right (h : s.Takes right s') (hright : right) : s.Takes True s' :=
  ⟨h.inv, h.layers.trans (and_congr_right fun _ => iff_of_true hright trivial)⟩

/-- A callback whose operations are on the right layer where nothing goes wrong. -/
theorem Takes.congr {wrong : Prop} (h : s.Takes True s') (hwrong : ¬ wrong) :
    s.Takes (¬ wrong) s' :=
  ⟨h.inv, h.layers.trans (and_congr_right fun _ => iff_of_true trivial hwrong)⟩

/-- With the test of `secure_` an operation is on the right layer. -/
theorem takes_startSecure (h : s.SecureTells) (hin : s.stream.InUse) (kind : Kind) (p : Pending)
    (hp : p.Needs s.stream) : s.Takes True (s.startSecure kind p) := by
  unfold startSecure
  split
  · next hsecure =>
    exact (takes_start h kind .tls p hp).of_right (h.rightLayer_tls hin hsecure kind)
  · next hsecure =>
    exact (takes_start h kind .socket p hp).of_right (h.rightLayer_socket hsecure kind)

theorem takes_doWrite (h : s.SecureTells) (hin : s.stream.InUse) : s.Takes True s.doWrite :=
  takes_startSecure h hin .write .write hin

/-! ## One callback -/

theorem takes_onResolve (h : s.SecureTells) (hclosed : s.stream = .closed) (ec : ErrorCode) :
    s.Takes True (s.onResolve ec) := by
  unfold onResolve
  split
  · exact takes_fail h _
  · refine .of_same ⟨⟨h.tls, h.plain, h.handshaking⟩, ?_⟩ rfl
    intro p heq
    cases heq
    exact hclosed

theorem takes_onConnect (h : s.SecureTells) (ec sni : ErrorCode) :
    s.Takes True (s.onConnect ec sni) := by
  unfold onConnect
  split
  · exact takes_fail h _
  split
  · next hsecure =>
    have htells : SecureTells { s with stream := .handshaking } := by
      refine ⟨?_, ?_, fun _ => hsecure⟩
      · intro heq
        cases heq
      · intro heq
        cases heq
    dsimp only
    split
    · exact (takes_fail htells _).before Iff.rfl
    · refine .of_same ⟨⟨htells.tls, htells.plain, htells.handshaking⟩, ?_⟩ rfl
      intro p heq
      cases heq
      exact rfl
  · next hsecure =>
    have htells : SecureTells { s with stream := .plain } := by
      refine ⟨?_, fun _ => Bool.eq_false_iff.2 hsecure, ?_⟩
      · intro heq
        cases heq
      · intro heq
        cases heq
    exact (takes_doWrite htells (.inl rfl)).before Iff.rfl

theorem takes_onSslHandshake (h : s.SecureTells) (hstream : s.stream = .handshaking)
    (ec : ErrorCode) : s.Takes True (s.onSslHandshake ec) := by
  have hsecure := h.handshaking hstream
  unfold onSslHandshake
  split
  · exact takes_fail h _
  · have htells : SecureTells { s with stream := .tls } := by
      refine ⟨fun _ => hsecure, ?_, ?_⟩
      · intro heq
        cases heq
      · intro heq
        cases heq
    exact (takes_doWrite htells (.inr rfl)).before Iff.rfl

theorem takes_onWrite (h : s.SecureTells) (hin : s.stream.InUse) (ec : ErrorCode) :
    s.Takes True (s.onWrite ec) := by
  unfold onWrite
  split
  · exact takes_fail h _
  · exact takes_startSecure h hin .readHeader .readHeader hin

/-- A redirect is followed on the right layer exactly if it does not reuse a plain connection. -/
theorem takes_onRedirectResponse (h : s.SecureTells) (hin : s.stream.InUse) (urls : Urls Ref)
    {res : Response} (hredirect : isRedirect res.status = true) :
    s.Takes (¬ (s.stream = .plain ∧ s.Reuses urls res)) (s.onRedirectResponse urls res) := by
  unfold onRedirectResponse
  split
  · next hmax => exact (takes_fail h _).congr fun hreuses => hreuses.2.2.1 hmax
  have htells : SecureTells { s with maxRedirects := s.maxRedirects - 1 } :=
    ⟨h.tls, h.plain, h.handshaking⟩
  next hmax =>
  dsimp only
  split
  · next hnone =>
    refine ((takes_fail htells _).before (s := s) Iff.rfl).congr fun hreuses => ?_
    obtain ⟨value, ref, hvalue, -⟩ := hreuses.2.2.2
    cases hnone.symm.trans hvalue
  next value hvalue =>
  split
  · next ec herror =>
    refine ((takes_fail htells _).before (s := s) Iff.rfl).congr fun hreuses => ?_
    obtain ⟨value', ref, hvalue', hok, -⟩ := hreuses.2.2.2
    cases hvalue.symm.trans hvalue'
    cases herror.symm.trans hok
  next ref hok =>
  generalize Burl.Request.set (F := FieldList) _ Burl.Field.host _ = req
  generalize hurl : urls.resolve s.url ref = redirect
  have htells' : SecureTells { s with maxRedirects := s.maxRedirects - 1, req, url := redirect } :=
    ⟨h.tls, h.plain, h.handshaking⟩
  split
  · next hreuse =>
    -- the only operation without the test
    have hreuses : s.Reuses urls res := ⟨hredirect, hmax, value, ref, hvalue, hok, hurl ▸ hreuse⟩
    have hstart := (takes_start htells' .read .tls .drain hin).before (s := s) Iff.rfl
    refine ⟨hstart.inv, hstart.layers.trans (and_congr_right fun _ => ?_)⟩
    rw [rightLayer_tls_iff hin, and_iff_left hreuses]
  · next hreuse =>
    have hnot : ¬ (s.stream = .plain ∧ s.Reuses urls res) := by
      rintro ⟨-, -, -, value', ref', hvalue', hok', hreuse'⟩
      cases hvalue.symm.trans hvalue'
      cases hok.symm.trans hok'
      exact hreuse (hurl ▸ hreuse')
    refine Takes.congr ?_ hnot
    split
    · next hsecure =>
      exact ((takes_start htells' .shutdown .tls .reopen hin).of_right
        (htells'.rightLayer_tls hin hsecure _)).before Iff.rfl
    · next hsecure =>
      exact (takes_doResolve _).before (htells'.rightLayers_record_socket hsecure .shutdown)

theorem takes_onReadHeader (h : s.SecureTells) (hin : s.stream.InUse) (urls : Urls Ref)
    (ec : ErrorCode) (res : Response) :
    s.Takes (¬ ReusesPlain urls s (.readHeader ec res)) (s.onReadHeader urls ec res) := by
  unfold onReadHeader
  split
  · next hfailed =>
    refine (takes_fail h _).congr ?_
    rintro ⟨-, res', ⟨⟩, -⟩
    cases hfailed
  next hfailed =>
  obtain rfl : ec = .success := by simpa [ErrorCode.failed] using hfailed
  split
  · next hredirect =>
    have hfollow := takes_onRedirectResponse h hin urls hredirect
    refine ⟨hfollow.inv, hfollow.layers.trans (and_congr_right fun _ => not_congr ?_)⟩
    refine and_congr_right fun _ => ⟨fun hreuses => ⟨res, rfl, hreuses⟩, ?_⟩
    rintro ⟨res', ⟨⟩, hreuses⟩
    exact hreuses
  · next hredirect =>
    refine (takes_startSecure h hin .read .read hin).congr ?_
    rintro ⟨-, res', ⟨⟩, hreuses⟩
    exact hredirect hreuses.1

theorem takes_onDrain (h : s.SecureTells) (hin : s.stream.InUse) (ec : ErrorCode) :
    s.Takes True (s.onDrain ec) := by
  unfold onDrain
  split
  · exact takes_doResolve s
  · exact takes_doWrite h hin

theorem takes_onRead (h : s.SecureTells) (hin : s.stream.InUse) (ec shutdown : ErrorCode) :
    s.Takes True (s.onRead ec shutdown) := by
  unfold onRead
  split
  · exact takes_fail h _
  split
  · next hsecure =>
    exact (takes_start h .shutdown .tls .close hin).of_right (h.rightLayer_tls hin hsecure _)
  · next hsecure =>
    have hrecord := h.rightLayers_record_socket hsecure .shutdown
    have htells : (s.record .shutdown .socket).SecureTells := ⟨h.tls, h.plain, h.handshaking⟩
    dsimp only
    split
    · exact (takes_fail htells _).before hrecord
    · refine Takes.before (.of_same ⟨⟨h.tls, h.plain, h.handshaking⟩, ?_⟩ rfl) hrecord
      intro p heq
      cases heq

theorem takes_onClose (h : s.SecureTells) (ec : ErrorCode) : s.Takes True (s.onClose ec) := by
  unfold onClose
  split
  · exact takes_fail h _
  · refine .of_same ⟨⟨h.tls, h.plain, h.handshaking⟩, ?_⟩ rfl
    intro p heq
    cases heq

end Session

/-- A callback starts its operations on the right layer exactly if it does not reuse a plain
connection. -/
theorem takes_step {Ref : Type} {urls : Urls Ref} {s s' : Session} {e : Event} (hs : s.Inv)
    (h : step urls s e = some s') : s.Takes (¬ ReusesPlain urls s e) s' := by
  have htells := hs.toSecureTells
  have hneeds := hs.pending
  -- only the header of a response can let a connection be used again
  have hother : s.Takes True s' → (∀ res, e ≠ .readHeader .success res) →
      s.Takes (¬ ReusesPlain urls s e) s' := by
    intro htakes hne
    refine htakes.congr ?_
    rintro ⟨-, res, rfl, -⟩
    exact hne res rfl
  unfold step at h
  split at h
  · next hpending =>
    cases h
    refine hother (Session.takes_onResolve htells (hneeds _ hpending) _) fun res hres => ?_
    cases hres
  · next hpending =>
    cases h
    refine hother (Session.takes_onConnect htells _ _) fun res hres => ?_
    cases hres
  · next hpending =>
    cases h
    refine hother (Session.takes_onSslHandshake htells (hneeds _ hpending) _) fun res hres => ?_
    cases hres
  · next hpending =>
    cases h
    refine hother (Session.takes_onWrite htells (hneeds _ hpending) _) fun res hres => ?_
    cases hres
  · next hpending =>
    cases h
    exact Session.takes_onReadHeader htells (hneeds _ hpending) urls _ _
  · next hpending =>
    cases h
    refine hother (Session.takes_onDrain htells (hneeds _ hpending) _) fun res hres => ?_
    cases hres
  · next hpending =>
    cases h
    refine hother (Session.takes_onRead htells (hneeds _ hpending) _ _) fun res hres => ?_
    cases hres
  · cases h
    refine hother (Session.takes_doResolve s) fun res hres => ?_
    cases hres
  · cases h
    refine hother (Session.takes_onClose htells _) fun res hres => ?_
    cases hres
  · cases h

/-- What holds between callbacks holds after a run, and all operations of a run are on the right
layer exactly if no callback of it reuses a plain connection. -/
theorem run_layers {Ref : Type} (urls : Urls Ref) {s₀ s : Session} (h₀ : s₀.Inv) {es : List Event}
    (h : Machine.run (step urls) s₀ es = some s) :
    s.Inv ∧ (s.RightLayers ↔ s₀.RightLayers ∧ Along (fun es₁ e =>
      ∀ s₁, Machine.run (step urls) s₀ es₁ = some s₁ → ¬ ReusesPlain urls s₁ e) es) := by
  induction es using List.reverseRecOn generalizing s with
  | nil =>
    cases h
    exact ⟨h₀, (and_iff_left along_nil).symm⟩
  | append_singleton es e ih =>
    -- the condition on the last event is the one of the callback for it
    obtain ⟨m, hm, h⟩ := Machine.run_append_iff.1 h
    obtain ⟨m', hstep, h⟩ := Machine.run_cons_iff.1 h
    cases h
    obtain ⟨hinv, hlayers⟩ := ih hm
    have htakes := takes_step hinv hstep
    refine ⟨htakes.inv, htakes.layers.trans ?_⟩
    rw [hlayers, along_append_singleton, and_assoc]
    refine and_congr_right fun _ => and_congr_right fun _ => ⟨fun hnot s₁ hs₁ => ?_, fun hnot => ?_⟩
    · cases hm.symm.trans hs₁
      exact hnot
    · exact hnot m hm

/-- In any run of a session, whatever the URLs, the redirects and the outcomes are, `secure_` tells
what the connection is, and every operation is on the TLS layer if the handshake is completed and on
the socket otherwise exactly if no response over a plain connection lets it be used again. -/
theorem layers_iff {Ref : Type} (urls : Urls Ref) (build : Burl.Build) (url : Url) (es : List Event)
    (s : Session) (h : Machine.run (step urls) (Session.run build url) es = some s) :
    s.SecureTells ∧ (s.RightLayers ↔ Along (fun es₁ e => ∀ s₁,
      Machine.run (step urls) (Session.run build url) es₁ = some s₁ → ¬ ReusesPlain urls s₁ e)
        es) := by
  have hrun : ∀ req, (Session.doResolve { url, req }).Inv ∧
      (Session.doResolve { url, req }).RightLayers := by
    intro req
    have htakes := Session.takes_doResolve { url, req }
    exact ⟨htakes.inv, htakes.layers.2 ⟨fun op hop => absurd hop List.not_mem_nil, trivial⟩⟩
  obtain ⟨hinv, hlayers⟩ := run_layers urls (hrun _).1 h
  exact ⟨hinv.toSecureTells, hlayers.trans (and_iff_right (hrun _).2)⟩

/-- The URL `http://a.org/` and a path below it, and `https://a.org/`. -/
def plainUrl (path : String) : Url where
  schemeId := .http
  userinfo := none
  host := "a.org".toList
  hostAndPort := "a.org".toList
  encodedOrigin := "http://a.org".toList
  encodedPath := path.toList
  encodedSegments := []
  encodedTarget := path.toList
  buffer := "http://a.org".toList ++ path.toList
  port := none

def secureUrl : Url := { Burl.httpsRoot "a.org".toList with port := none }

/-- Boost.URL on an absolute URL and on a path. -/
def someUrls : Urls Url where
  parseUriReference text :=
    if text = secureUrl.buffer then .ok secureUrl
    else if text = "/x".toList then .ok (plainUrl "/x")
    else .error (.other 1)
  resolve _ url := url

/-- A response to a request, of a status and with a Location. -/
def answer (status : Nat) (location : List Char) : Event :=
  .readHeader .success ⟨status, true, false, [(Burl.Field.location, location)]⟩

/-- From `http` to `https`, and to the end. -/
def toSecure : List Event :=
  [.resolve .success, .connect .success .success, .write .success, answer 301 secureUrl.buffer,
    .resolve .success, .connect .success .success, .handshake .success, .write .success,
    answer 200 [], .read .success .success, .close .success]

/-- From a page of a site to another one. -/
def toPath : List Event :=
  [.resolve .success, .connect .success .success, .write .success, answer 301 "/x".toList]

/-- The operations on the way to `https` are on the right layers. -/
theorem toSecure_layers :
    ∃ s, Machine.run (step someUrls) (Session.run ⟨true, true⟩ (plainUrl "/")) toSecure = some s ∧
      s.SecureTells ∧
      s.started.map Op.layer = [.socket, .socket, .socket, .tls, .tls, .tls, .tls] := by
  obtain ⟨s, h, hlayers⟩ : ∃ s,
      Machine.run (step someUrls) (Session.run ⟨true, true⟩ (plainUrl "/")) toSecure = some s ∧
        s.started.map Op.layer = [.socket, .socket, .socket, .tls, .tls, .tls, .tls] :=
    ⟨_, rfl, rfl⟩
  exact ⟨s, h, (layers_iff someUrls ⟨true, true⟩ (plainUrl "/") toSecure s h).1, hlayers⟩

/-- The read that discards the body of a redirect is on the TLS layer of a plain connection. -/
theorem toPath_wrong_layer :
    ¬ ∀ s, Machine.run (step someUrls) (Session.run ⟨true, true⟩ (plainUrl "/")) toPath = some s →
      s.RightLayers := by
  intro h
  have hop : (⟨.read, .tls, .plain⟩ : Op).RightLayer := h _ rfl _ (by decide +kernel)
  exact absurd hop (by decide)

end Beast2.Get
