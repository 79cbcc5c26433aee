import Beast2.Get.Session

/-!
# The visits of the `get` client

A session goes from visit to visit: a visit is one request and its response, and a redirect leads to
the next one. `Next` is the diagram of a visit, with the operations in their order and the two ways
into the next visit; every callback takes an edge of it with the same URL and request, or follows a
redirect, or reports a failure (`moves_step`).

The diagram has no cycle but through a redirect, and `max_redirects_` counts these down, so that a
session comes to its end after a bounded number of completions, with at most one failure, and
without one only after the body of a response that is no redirect was read and its connection closed
(`session_ends`). Every request is made for the URL that the redirects led to, and goes over a
connection that was resolved for that URL, with TLS exactly if it is an `https` one
(`request_for_url`).
-/

namespace Beast2.Get

open Fields

/-! ## The diagram of a visit -/

/-- From the operation under way to the next one, by its completion. -/
inductive Next : Pending → Event → Option Pending → Prop
  | resolved : Next .resolve (.resolve .success) (some .connect)
  | connected (sni : ErrorCode) : Next .connect (.connect .success sni) (some .write)
  | connectedTls : Next .connect (.connect .success .success) (some .handshake)
  | handshaken : Next .handshake (.handshake .success) (some .write)
  | written : Next .write (.write .success) (some .readHeader)
  | header (res : Response) (h : Session.isRedirect res.status = false) :
      Next .readHeader (.readHeader .success res) (some .read)
  | readTls (shutdown : ErrorCode) : Next .read (.read .success shutdown) (some .close)
  | readPlain (shutdown : ErrorCode) : Next .read (.read .success shutdown) none
  | closed (ec : ErrorCode) : Next .close (.close ec) none
  | drained : Next .drain (.drain .success) (some .write)
  | drainFailed (ec : ErrorCode) : Next .drain (.drain ec) (some .resolve)
  | reopened (ec : ErrorCode) : Next .reopen (.reopen ec) (some .resolve)

/-- How many edges may be before the end of a visit. -/
def stage : Option Pending → Nat
  | none => 0
  | some .close => 1
  | some .read => 2
  | some .readHeader => 3
  | some .write => 4
  | some .handshake => 5
  | some .connect => 6
  | some .resolve => 7
  | some .drain => 8
  | some .reopen => 8

theorem Next.stage_lt {p : Pending} {e : Event} {q : Option Pending} (h : Next p e q) :
    stage q < stage (some p) := by
  cases h with
  | resolved | connected | connectedTls | handshaken | written | header | readTls | readPlain
  | closed | drained | drainFailed | reopened => decide

/-- A request is sent on the edges into `write` only, and these are from above it. -/
theorem Next.sent_le {p : Pending} {e : Event} {q : Option Pending} (h : Next p e q) :
    (if q = some .write then 1 else 0) + (if 4 < stage q then 1 else 0) ≤
      if 4 < stage (some p) then 1 else 0 := by
  cases h with
  | resolved | connected | connectedTls | handshaken | written | header | readTls | readPlain
  | closed | drained | drainFailed | reopened => decide

/-- The port that `do_resolve` sets. -/
def Url.effectivePort (url : Url) : Option (List Char) :=
  match url.port with
  | some port => some port
  | none =>
    if url.schemeId = Burl.Scheme.https then some "443".toList
    else if url.schemeId = Burl.Scheme.http then some "80".toList
    else none

namespace Session

/-- How many requests a session has begun to send. -/
def requests (s : Session) : Nat := s.started.countP (·.kind == .write)

/-- The last connection was resolved for the URL. -/
structure Resolved (s : Session) : Prop where
  host : s.host = s.url.host
  port : s.url.effectivePort = some s.port
  secure : s.secure = (s.url.schemeId == Burl.Scheme.https)

/-- The same connection. -/
structure SameConnection (s s' : Session) : Prop where
  host : s'.host = s.host
  port : s'.port = s.port
  secure : s'.secure = s.secure

/-- The request for a redirect. Reference: `get/main.cpp:268-273`. -/
def redirectRequest (s : Session) (redirect : Url) : Burl.Request FieldList :=
  let req := { s.req with target := redirect.encodedTarget }
  let req := req.set Burl.Field.referer s.url.buffer
  req.set Burl.Field.host redirect.hostAndPort

/-- A callback within a visit, or from the end of a redirect's response into the next visit. -/
structure GoesOn (s : Session) (e : Event) (s' : Session) : Prop where
  next : ∃ p, s.pending = some p ∧ Next p e s'.pending
  url : s'.url = s.url
  req : s'.req = s.req
  maxRedirects : s'.maxRedirects = s.maxRedirects
  failures : s'.failures = s.failures
  requests : s'.requests = s.requests + if s'.pending = some .write then 1 else 0
  connection : s'.Resolved ∨ s.pending ≠ some .reopen ∧ s.SameConnection s'

/-- A redirect with a Location that leads to a URL. -/
def LedTo {Ref : Type} (urls : Urls Ref) (s : Session) (e : Event) (redirect : Url) : Prop :=
  ∃ res value ref, e = .readHeader .success res ∧ isRedirect res.status = true ∧
    (findAll res.fields Burl.Field.location).head? = some value ∧
    urls.parseUriReference value = .ok ref ∧ redirect = urls.resolve s.url ref

/-- A callback that follows a redirect: the connection is used again for the same origin, or it is
closed for a new one. -/
structure Redirects {Ref : Type} (urls : Urls Ref) (s : Session) (e : Event) (s' : Session) :
    Prop where
  under : s.pending = some .readHeader
  led : s.LedTo urls e s'.url
  req : s'.req = s.redirectRequest s'.url
  maxRedirects : s.maxRedirects = s'.maxRedirects + 1
  failures : s'.failures = s.failures
  requests : s'.requests = s.requests
  connection :
    s'.pending = some .drain ∧ s.url.encodedOrigin = s'.url.encodedOrigin ∧ s.SameConnection s' ∨
      s'.pending = some .reopen ∨ s'.pending = some .resolve ∧ s'.Resolved

/-- A callback that reports a failure. -/
structure Fails (s s' : Session) : Prop where
  pending : s'.pending = none
  failures : ∃ f, s'.failures = s.failures ++ [f]
  maxRedirects : s'.maxRedirects ≤ s.maxRedirects
  requests : s'.requests = s.requests

/-- What a callback does. -/
inductive Moves {Ref : Type} (urls : Urls Ref) (s : Session) (e : Event) (s' : Session) : Prop
  | goesOn (h : s.GoesOn e s')
  | redirects (h : s.Redirects urls e s')
  | fails (h : s.Fails s')

variable {s s' : Session} {e : Event}

theorem fails_fail (f : Failure) : s.Fails (s.fail f) :=
  ⟨rfl, ⟨f, rfl⟩, Nat.le_refl _, rfl⟩

/-- A new connection is resolved for the URL, if its port is known. -/
theorem doResolve_cases (s : Session) :
    (∃ port, s.url.effectivePort = some port ∧
      s.doResolve = { s with
        stream := .closed, secure := s.url.schemeId == Burl.Scheme.https, port,
        host := s.url.host, pending := some .resolve }) ∨
    s.doResolve = fail (.what "Unsupported URL scheme")
      { s with stream := .closed, secure := s.url.schemeId == Burl.Scheme.https } := by
  have hdef : s.doResolve = match s.url.effectivePort with
      | some port => { s with
        stream := .closed, secure := s.url.schemeId == Burl.Scheme.https, port,
        host := s.url.host, pending := some .resolve }
      | none => fail (.what "Unsupported URL scheme")
        { s with stream := .closed, secure := s.url.schemeId == Burl.Scheme.https } := rfl
  rw [hdef]
  cases hport : s.url.effectivePort with
  | some port => exact .inl ⟨port, rfl, rfl⟩
  | none => exact .inr rfl

/-- The end of an operation that leads to a new connection. -/
theorem moves_doResolve {Ref : Type} {urls : Urls Ref} {p : Pending} (hp : s.pending = some p)
    (h : Next p e (some .resolve)) : s.Moves urls e s.doResolve := by
  rcases s.doResolve_cases with ⟨port, hport, heq⟩ | heq
  · rw [heq]
    exact .goesOn ⟨⟨p, hp, h⟩, rfl, rfl, rfl, rfl, rfl, .inl ⟨rfl, hport, rfl⟩⟩
  · rw [heq]
    exact .fails ⟨rfl, ⟨_, rfl⟩, Nat.le_refl _, rfl⟩

theorem requests_start (s : Session) (kind : Kind) (layer : Layer) (p : Pending) :
    (s.start kind layer p).requests = s.requests + if kind == .write then 1 else 0 := by
  simp only [requests, start, record, List.countP_append, List.countP_singleton]

/-- The start of the next operation. -/
theorem goesOn_startSecure {p q : Pending} {kind : Kind} (hp : s.pending = some p)
    (h : Next p e (some q)) (hkind : kind = .write ↔ q = .write) (hopen : p ≠ .reopen) :
    s.GoesOn e (s.startSecure kind q) := by
  have hstart : ∀ layer, s.GoesOn e (s.start kind layer q) := by
    intro layer
    refine ⟨⟨p, hp, h⟩, rfl, rfl, rfl, rfl, ?_, .inr ⟨?_, rfl, rfl, rfl⟩⟩
    · rw [requests_start]
      have hpending : (s.start kind layer q).pending = some q := rfl
      simp only [hpending, beq_iff_eq, Option.some.injEq, hkind]
    · rw [hp]
      exact fun heq => hopen (Option.some.inj heq)
  unfold startSecure
  split
  · exact hstart .tls
  · exact hstart .socket

end Session

/-! ## What the callbacks do -/

namespace Session

variable {Ref : Type} {urls : Urls Ref} {s s' : Session} {e : Event}

theorem GoesOn.of_before {s₁ : Session} (h : s₁.GoesOn e s') (hpending : s₁.pending = s.pending)
    (hurl : s₁.url = s.url) (hreq : s₁.req = s.req) (hmax : s₁.maxRedirects = s.maxRedirects)
    (hfailures : s₁.failures = s.failures) (hrequests : s₁.requests = s.requests)
    (hsame : s.SameConnection s₁) : s.GoesOn e s' where
  next := hpending ▸ h.next
  url := h.url.trans hurl
  req := h.req.trans hreq
  maxRedirects := h.maxRedirects.trans hmax
  failures := h.failures.trans hfailures
  requests := by rw [h.requests, hrequests]
  connection := by
    rcases h.connection with hresolved | ⟨hopen, hsame'⟩
    · exact .inl hresolved
    · exact .inr ⟨hpending ▸ hopen, hsame'.host.trans hsame.host, hsame'.port.trans hsame.port,
        hsame'.secure.trans hsame.secure⟩

/-- The request of a visit is sent. -/
theorem goesOn_doWrite {p : Pending} (stream : Stream) (hp : s.pending = some p)
    (h : Next p e (some .write)) : s.GoesOn e (doWrite { s with stream }) := by
  have hopen : p ≠ .reopen := by
    rintro rfl
    cases h
  exact (goesOn_startSecure (s := { s with stream }) hp h (iff_of_true rfl rfl) hopen).of_before
    rfl rfl rfl rfl rfl rfl ⟨rfl, rfl, rfl⟩

/-- An operation that is not on an open connection, or the end of the session. -/
theorem goesOn_pending {p : Pending} {q : Option Pending} (stream : Stream)
    (started : List Op) (hp : s.pending = some p) (h : Next p e q)
    (hrequests : started.countP (·.kind == .write) = s.requests)
    (hwrite : q ≠ some .write) (hopen : p ≠ .reopen) :
    s.GoesOn e { s with stream, started, pending := q } := by
  refine ⟨⟨p, hp, h⟩, rfl, rfl, rfl, rfl, ?_, .inr ⟨?_, rfl, rfl, rfl⟩⟩
  · rw [if_neg hwrite, Nat.add_zero]
    exact hrequests
  · rw [hp]
    exact fun heq => hopen (Option.some.inj heq)

theorem requests_record_shutdown (layer : Layer) :
    (s.record .shutdown layer).requests = s.requests := by
  simp [requests, record]

theorem moves_onResolve (hp : s.pending = some .resolve) (ec : ErrorCode) :
    s.Moves urls (.resolve ec) (s.onResolve ec) := by
  unfold onResolve
  split
  · exact .fails (fails_fail _)
  next hec =>
  obtain rfl : ec = .success := by simpa [ErrorCode.failed] using hec
  exact .goesOn (goesOn_pending s.stream s.started hp .resolved rfl (by decide) (by decide))

theorem moves_onConnect (hp : s.pending = some .connect) (ec sni : ErrorCode) :
    s.Moves urls (.connect ec sni) (s.onConnect ec sni) := by
  unfold onConnect
  split
  · exact .fails (fails_fail _)
  next hec =>
  obtain rfl : ec = .success := by simpa [ErrorCode.failed] using hec
  split
  · dsimp only
    split
    · exact .fails ⟨rfl, ⟨_, rfl⟩, Nat.le_refl _, rfl⟩
    next hsni =>
    obtain rfl : sni = .success := by simpa [ErrorCode.failed] using hsni
    exact .goesOn (goesOn_pending .handshaking s.started hp .connectedTls rfl (by decide)
      (by decide))
  · exact .goesOn (goesOn_doWrite .plain hp (.connected sni))

theorem moves_onSslHandshake (hp : s.pending = some .handshake) (ec : ErrorCode) :
    s.Moves urls (.handshake ec) (s.onSslHandshake ec) := by
  unfold onSslHandshake
  split
  · exact .fails (fails_fail _)
  next hec =>
  obtain rfl : ec = .success := by simpa [ErrorCode.failed] using hec
  exact .goesOn (goesOn_doWrite .tls hp .handshaken)

theorem moves_onWrite (hp : s.pending = some .write) (ec : ErrorCode) :
    s.Moves urls (.write ec) (s.onWrite ec) := by
  unfold onWrite
  split
  · exact .fails (fails_fail _)
  next hec =>
  obtain rfl : ec = .success := by simpa [ErrorCode.failed] using hec
  exact .goesOn (goesOn_startSecure hp .written (by decide) (by decide))

theorem moves_onRedirectResponse (hp : s.pending = some .readHeader) {res : Response}
    (hredirect : isRedirect res.status = true) :
    s.Moves urls (.readHeader .success res) (s.onRedirectResponse urls res) := by
  unfold onRedirectResponse
  split
  · exact .fails (fails_fail _)
  next hmax =>
  have hcount : s.maxRedirects = s.maxRedirects - 1 + 1 := by omega
  dsimp only
  split
  · exact .fails ⟨rfl, ⟨_, rfl⟩, Nat.sub_le _ _, rfl⟩
  next value hvalue =>
  split
  · exact .fails ⟨rfl, ⟨_, rfl⟩, Nat.sub_le _ _, rfl⟩
  next ref hok =>
  have hled : s.LedTo urls (.readHeader .success res) (urls.resolve s.url ref) :=
    ⟨res, value, ref, rfl, hredirect, hvalue, hok, rfl⟩
  split
  · next hreuse =>
    have horigin : s.url.encodedOrigin = (urls.resolve s.url ref).encodedOrigin := by
      unfold canReuseConnection at hreuse
      by_contra hne
      rw [if_pos hne] at hreuse
      cases hreuse
    refine .redirects ⟨hp, hled, rfl, hcount, rfl, ?_, .inl ⟨rfl, horigin, rfl, rfl, rfl⟩⟩
    simp [requests, start, record]
  split
  · refine .redirects ⟨hp, hled, rfl, hcount, rfl, ?_, .inr (.inl rfl)⟩
    simp [requests, start, record]
  -- a plain connection is closed at once
  · set s₁ := record .shutdown .socket { s with
        maxRedirects := s.maxRedirects - 1
        req := s.redirectRequest (urls.resolve s.url ref)
        url := urls.resolve s.url ref } with hs₁
    have hrequests : s₁.requests = s.requests := by
      simp [requests, record, hs₁]
    change s.Moves urls _ s₁.doResolve
    rcases s₁.doResolve_cases with ⟨port, hport, heq⟩ | heq
    · rw [heq]
      exact .redirects ⟨hp, hled, rfl, hcount, rfl, hrequests,
        .inr (.inr ⟨rfl, rfl, hport, rfl⟩)⟩
    · rw [heq]
      exact .fails ⟨rfl, ⟨_, rfl⟩, Nat.sub_le _ _, hrequests⟩

theorem moves_onReadHeader (hp : s.pending = some .readHeader) (ec : ErrorCode) (res : Response) :
    s.Moves urls (.readHeader ec res) (s.onReadHeader urls ec res) := by
  unfold onReadHeader
  split
  · exact .fails (fails_fail _)
  next hec =>
  obtain rfl : ec = .success := by simpa [ErrorCode.failed] using hec
  split
  · next hredirect => exact moves_onRedirectResponse hp hredirect
  · next hredirect =>
    exact .goesOn (goesOn_startSecure hp (.header res (Bool.eq_false_iff.2 hredirect)) (by decide)
      (by decide))

theorem moves_onDrain (hp : s.pending = some .drain) (ec : ErrorCode) :
    s.Moves urls (.drain ec) (s.onDrain ec) := by
  unfold onDrain
  split
  · exact moves_doResolve hp (.drainFailed ec)
  next hec =>
  obtain rfl : ec = .success := by simpa [ErrorCode.failed] using hec
  exact .goesOn (goesOn_doWrite s.stream hp .drained)

theorem moves_onRead (hp : s.pending = some .read) (ec shutdown : ErrorCode) :
    s.Moves urls (.read ec shutdown) (s.onRead ec shutdown) := by
  unfold onRead
  split
  · exact .fails (fails_fail _)
  next hec =>
  obtain rfl : ec = .success := by simpa [ErrorCode.failed] using hec
  have hrequests : ∀ layer, (s.record .shutdown layer).started.countP (·.kind == .write) =
      s.requests := requests_record_shutdown
  split
  · exact .goesOn (goesOn_pending s.stream _ hp (.readTls shutdown) (hrequests .tls) (by decide)
      (by decide))
  dsimp only
  split
  · exact .fails ⟨rfl, ⟨_, rfl⟩, Nat.le_refl _, hrequests .socket⟩
  · exact .goesOn (goesOn_pending s.stream _ hp (.readPlain shutdown) (hrequests .socket)
      (by decide) (by decide))

theorem moves_onClose (hp : s.pending = some .close) (ec : ErrorCode) :
    s.Moves urls (.close ec) (s.onClose ec) := by
  unfold onClose
  split
  · exact .fails (fails_fail _)
  · exact .goesOn (goesOn_pending s.stream s.started hp (.closed ec) rfl (by decide) (by decide))

end Session

/-- Every callback takes an edge of the diagram, follows a redirect or reports a failure. -/
theorem moves_step {Ref : Type} {urls : Urls Ref} {s s' : Session} {e : Event}
    (h : step urls s e = some s') : s.Moves urls e s' := by
  unfold step at h
  split at h
  · next hp => cases h; exact Session.moves_onResolve hp _
  · next hp => cases h; exact Session.moves_onConnect hp _ _
  · next hp => cases h; exact Session.moves_onSslHandshake hp _
  · next hp => cases h; exact Session.moves_onWrite hp _
  · next hp => cases h; exact Session.moves_onReadHeader hp _ _
  · next hp => cases h; exact Session.moves_onDrain hp _
  · next hp => cases h; exact Session.moves_onRead hp _ _
  · next ec hp => cases h; exact Session.moves_doResolve hp (.reopened ec)
  · next hp => cases h; exact Session.moves_onClose hp _
  · cases h

/-! ## Every session ends -/

/-- A callback is for an operation under way. -/
theorem pending_of_step {Ref : Type} {urls : Urls Ref} {s s' : Session} {e : Event}
    (h : step urls s e = some s') : s.pending ≠ none := by
  intro hnone
  simp [step, hnone] at h

/-- How many completions there may be before the end. -/
def Session.left (s : Session) : Nat := 6 * s.maxRedirects + stage s.pending

/-- Every completion brings the end nearer. -/
theorem left_lt {Ref : Type} {urls : Urls Ref} {s s' : Session} {e : Event}
    (h : step urls s e = some s') : s'.left < s.left := by
  unfold Session.left
  cases moves_step h with
  | goesOn h =>
    obtain ⟨p, hp, hnext⟩ := h.next
    have hlt := hnext.stage_lt
    rw [h.maxRedirects, hp]
    omega
  | redirects h =>
    have hstage : stage s'.pending ≤ 8 := by
      rcases h.connection with ⟨hp, -⟩ | hp | ⟨hp, -⟩
      · exact hp ▸ Nat.le_refl _
      · exact hp ▸ Nat.le_refl _
      · exact hp ▸ Nat.le_succ _
    have hunder : stage s.pending = 3 := h.under ▸ rfl
    have hmax := h.maxRedirects
    omega
  | fails h =>
    have hmax := h.maxRedirects
    have hpositive : 0 < stage s.pending := by
      have hp := pending_of_step ‹_›
      cases hpending : s.pending with
      | none => exact absurd hpending hp
      | some p => cases p <;> decide
    rw [h.pending]
    have hnone : stage none = 0 := rfl
    omega

/-- A request is still to be sent in this visit. -/
def Session.toSend (s : Session) : Nat := if 4 < stage s.pending then 1 else 0

/-- The requests sent, those for the redirects that may follow, and the one to be sent. -/
theorem requests_le {Ref : Type} {urls : Urls Ref} {s s' : Session} {e : Event}
    (h : step urls s e = some s') :
    s'.requests + s'.maxRedirects + s'.toSend ≤ s.requests + s.maxRedirects + s.toSend := by
  unfold Session.toSend
  cases moves_step h with
  | goesOn h =>
    obtain ⟨p, hp, hnext⟩ := h.next
    rw [h.requests, h.maxRedirects, hp]
    have hsent := hnext.sent_le
    omega
  | redirects h =>
    have hunder : stage s.pending = 3 := h.under ▸ rfl
    have hmax := h.maxRedirects
    rw [h.requests, hunder]
    split
    · simp only [show ¬ 4 < 3 by decide, if_false]
      omega
    · omega
  | fails h =>
    have hmax := h.maxRedirects
    rw [h.requests, h.pending, if_neg (by decide)]
    omega

/-- The last operation that was started is a shutdown on a layer of the connection. -/
structure Session.ShutDown (s : Session) (stream : Stream) (layer : Layer) : Prop where
  connection : s.stream = stream
  last : s.started.getLast? = some ⟨.shutdown, layer, stream⟩

/-- The connection is closed after a body: over TLS a shutdown completes, perhaps because the server
has closed the connection first; a plain one is shut down at once, if it is connected still. -/
inductive Session.Closes (s : Session) (shutdown : ErrorCode) : List Event → Prop
  | tls (ec : ErrorCode) (hs : s.ShutDown .tls .tls)
      (hec : ec = .success ∨ ec = .streamTruncated) : s.Closes shutdown [.close ec]
  | plain (hs : s.ShutDown .plain .socket)
      (hshutdown : shutdown = .success ∨ shutdown = .notConnected) : s.Closes shutdown []

/-- The body of a response that is no redirect was read and the connection closed, and nothing came
after it. -/
def ReadsBody (es : List Event) (s : Session) : Prop :=
  ∃ es₁ res shutdown es₂,
    es = es₁ ++ .readHeader .success res :: .read .success shutdown :: es₂ ∧
    Session.isRedirect res.status = false ∧ s.Closes shutdown es₂

/-- A body was read over TLS. -/
theorem onRead_tls {s : Session} (hin : s.stream.InUse) (htells : s.SecureTells)
    (shutdown : ErrorCode) (h : (s.onRead .success shutdown).pending = some .close) :
    (s.onRead .success shutdown).ShutDown .tls .tls := by
  have hec : ErrorCode.success.failed = false := rfl
  rw [Session.onRead, hec, if_neg Bool.false_ne_true] at h ⊢
  split at h
  · next hsecure =>
    rw [if_pos hsecure]
    have htls : s.stream = .tls := by
      rcases hin with hplain | htls
      · cases hsecure.symm.trans (htells.plain hplain)
      · exact htls
    refine ⟨htls, ?_⟩
    simp [Session.start, Session.record, htls]
  · dsimp only at h
    split at h
    · cases h
    · cases h

/-- A body was read over a plain connection. -/
theorem onRead_plain {s : Session} (hin : s.stream.InUse) (htells : s.SecureTells)
    (shutdown : ErrorCode) (h : (s.onRead .success shutdown).pending = none)
    (hnil : (s.onRead .success shutdown).failures = []) :
    (s.onRead .success shutdown).Closes shutdown [] := by
  have hec : ErrorCode.success.failed = false := rfl
  rw [Session.onRead, hec, if_neg Bool.false_ne_true] at h hnil ⊢
  split at h
  · cases h
  · next hsecure =>
    have hplain : s.stream = .plain := by
      rcases hin with hplain | htls
      · exact hplain
      · exact absurd (htells.tls htls) hsecure
    rw [if_neg hsecure] at hnil ⊢
    dsimp only at hnil ⊢
    split at hnil
    · simp [Session.fail] at hnil
    · next hshutdown =>
      rw [if_neg hshutdown]
      refine .plain ⟨hplain, ?_⟩ ?_
      · simp [Session.record, hplain]
      · by_contra hne
        rw [not_or] at hne
        exact hshutdown (by simp [ErrorCode.failed, hne.1, hne.2])

/-- The shutdown of a TLS connection has completed. -/
theorem onClose_tls {s : Session} (hs : s.ShutDown .tls .tls) (shutdown ec : ErrorCode)
    (hnil : (s.onClose ec).failures = []) : (s.onClose ec).Closes shutdown [.close ec] := by
  unfold Session.onClose at hnil ⊢
  split at hnil
  · simp [Session.fail] at hnil
  · next hec =>
    rw [if_neg hec]
    refine .tls ec ⟨hs.connection, hs.last⟩ ?_
    by_contra hne
    rw [not_or] at hne
    exact hec (by simp [ErrorCode.failed, hne.1, hne.2])

/-- What the completions so far tell of the operation under way. -/
structure Traced (es : List Event) (s : Session) : Prop where
  failures : s.failures = [] ∨ s.pending = none ∧ ∃ f, s.failures = [f]
  reading : s.pending = some .read → ∃ es₁ res,
    es = es₁ ++ [.readHeader .success res] ∧ Session.isRedirect res.status = false
  closing : s.pending = some .close → s.ShutDown .tls .tls ∧ ∃ es₁ res shutdown,
    es = es₁ ++ [.readHeader .success res, .read .success shutdown] ∧
      Session.isRedirect res.status = false
  ended : s.pending = none → s.failures = [] → ReadsBody es s

theorem Traced.failures_nil {es : List Event} {s : Session} (h : Traced es s)
    (hpending : s.pending ≠ none) : s.failures = [] := by
  rcases h.failures with hnil | ⟨hnone, -⟩
  · exact hnil
  · exact absurd hnone hpending

/-- The trace goes on along an edge of the diagram. -/
theorem Traced.goesOn {Ref : Type} {urls : Urls Ref} {es : List Event} {s s' : Session} {e : Event}
    (h : Traced es s) (hinv : s.Inv) (hs : step urls s e = some s') (hnil : s.failures = [])
    (hmoves : s.GoesOn e s') : Traced (es ++ [e]) s' := by
  obtain ⟨p, hp, hnext⟩ := hmoves.next
  have hnil' : s'.failures = [] := hmoves.failures.trans hnil
  have hreading := h.reading
  have hclosing := h.closing
  have hneeds := hinv.pending p hp
  rw [hp] at hreading hclosing
  refine ⟨.inl hnil', fun hread => ?_, fun hclose => ?_, fun hnone _ => ?_⟩
  · rw [hread] at hnext
    cases hnext with
    | header res hres => exact ⟨es, res, rfl, hres⟩
  · rw [hclose] at hnext
    cases hnext with
    | readTls shutdown =>
      obtain ⟨es₁, res, rfl, hres⟩ := hreading rfl
      have heq : s.onRead .success shutdown = s' := by simpa [step, hp] using hs
      subst heq
      exact ⟨onRead_tls hneeds hinv.toSecureTells shutdown hclose, es₁, res, shutdown, by simp,
        hres⟩
  · rw [hnone] at hnext
    cases hnext with
    | readPlain shutdown =>
      obtain ⟨es₁, res, rfl, hres⟩ := hreading rfl
      have heq : s.onRead .success shutdown = s' := by simpa [step, hp] using hs
      subst heq
      exact ⟨es₁, res, shutdown, [], by simp, hres,
        onRead_plain hneeds hinv.toSecureTells shutdown hnone hnil'⟩
    | closed ec =>
      obtain ⟨hshut, es₁, res, shutdown, rfl, hres⟩ := hclosing rfl
      have heq : s.onClose ec = s' := by simpa [step, hp] using hs
      subst heq
      exact ⟨es₁, res, shutdown, [.close ec], by simp, hres,
        onClose_tls hshut shutdown ec hnil'⟩

theorem Traced.step {Ref : Type} {urls : Urls Ref} {es : List Event} {s s' : Session} {e : Event}
    (h : Traced es s) (hinv : s.Inv) (hs : step urls s e = some s') : Traced (es ++ [e]) s' := by
  have hnil := h.failures_nil (pending_of_step hs)
  cases moves_step hs with
  | goesOn hmoves => exact h.goesOn hinv hs hnil hmoves
  | redirects hmoves =>
    refine ⟨.inl (hmoves.failures.trans hnil), fun hread => ?_, fun hclose => ?_, fun hnone => ?_⟩
    all_goals rcases hmoves.connection with ⟨hp, -⟩ | hp | ⟨hp, -⟩
    · cases hp.symm.trans hread
    · cases hp.symm.trans hread
    · cases hp.symm.trans hread
    · cases hp.symm.trans hclose
    · cases hp.symm.trans hclose
    · cases hp.symm.trans hclose
    · cases hp.symm.trans hnone
    · cases hp.symm.trans hnone
    · cases hp.symm.trans hnone
  | fails hmoves =>
    obtain ⟨f, hf⟩ := hmoves.failures
    rw [hnil, List.nil_append] at hf
    have hp := hmoves.pending
    refine ⟨.inr ⟨hp, f, hf⟩, fun hread => ?_, fun hclose => ?_, fun _ hnil' => ?_⟩
    · cases hp.symm.trans hread
    · cases hp.symm.trans hclose
    · cases hf.symm.trans hnil'

theorem traced_doResolve (url : Url) (req : Burl.Request FieldList) :
    Traced [] (Session.doResolve { url, req }) := by
  rcases Session.doResolve_cases { url, req } with ⟨port, -, heq⟩ | heq
  · rw [heq]
    refine ⟨.inl rfl, fun hread => ?_, fun hclose => ?_, fun hnone => ?_⟩
    · cases hread
    · cases hclose
    · cases hnone
  · rw [heq]
    refine ⟨.inr ⟨rfl, _, rfl⟩, fun hread => ?_, fun hclose => ?_, fun _ hnil => ?_⟩
    · cases hread
    · cases hclose
    · cases hnil

/-- At the start, there are fifty redirects to follow. -/
theorem bounds_doResolve (url : Url) (req : Burl.Request FieldList) :
    (Session.doResolve { url, req }).left ≤ 307 ∧
      (Session.doResolve { url, req }).requests + (Session.doResolve { url, req }).maxRedirects +
        (Session.doResolve { url, req }).toSend ≤ 51 := by
  rcases Session.doResolve_cases { url, req } with ⟨port, -, heq⟩ | heq
  · rw [heq]
    exact ⟨Nat.le_refl _, Nat.le_refl _⟩
  · rw [heq]
    have hleft : 300 ≤ 307 := by decide
    have hrequests : 50 ≤ 51 := by decide
    exact ⟨hleft, hrequests⟩

/-- The request of a session before any redirect, for a target and a host. -/
def firstRequest (build : Burl.Build) (url : Url) : Burl.Request FieldList :=
  let req : Burl.Request FieldList := ⟨Burl.methodGet, "/".toList, .http11, []⟩
  let req := if url.encodedTarget.isEmpty then req else { req with target := url.encodedTarget }
  let req := req.set Burl.Field.userAgent "Boost.Http.Io".toList
  let req := req.set Burl.Field.host url.hostAndPort
  let req := if build.hasBrotli then Session.append req Burl.Field.acceptEncoding "br".toList
    else req
  if build.hasZlib then Session.append req Burl.Field.acceptEncoding "deflate, gzip".toList
  else req

theorem run_eq (build : Burl.Build) (url : Url) :
    Session.run build url = Session.doResolve { url, req := firstRequest build url } := rfl

/-- Whatever the servers answer, a session comes to its end after at most 307 completions and sends
at most 51 requests. While an operation is under way no failure was reported; when none is, either
one failure was reported, or the body of a response that is no redirect was read and the connection
closed after it, over TLS by a shutdown that has completed. -/
theorem session_ends {Ref : Type} (urls : Urls Ref) (build : Burl.Build) (url : Url)
    (es : List Event) (s : Session)
    (h : Machine.run (step urls) (Session.run build url) es = some s) :
    es.length ≤ 307 ∧ s.requests ≤ 51 ∧ (s.pending ≠ none → s.failures = []) ∧
      (s.pending = none → (∃ f, s.failures = [f]) ∨ s.failures = [] ∧ ReadsBody es s) := by
  rw [run_eq] at h
  obtain ⟨hleft, hsend⟩ := bounds_doResolve url (firstRequest build url)
  have hlength := Machine.run_le (P := fun _ => True) Session.left (fun _ => 1) (fun _ => 0)
    (fun s₁ e s₂ _ _ hs => ⟨trivial, by have := left_lt hs; omega⟩) trivial h
  have hrequests := Machine.run_inv (P := fun s => s.requests + s.maxRedirects + s.toSend ≤ 51)
    (fun _ _ _ hle _ hs => (requests_le hs).trans hle) hsend h
  have hstart := (Session.takes_doResolve { url, req := firstRequest build url }).inv
  have hlast : Traced es s := Machine.run_history
    (fun _ _ _ _ hrun htraced hs => htraced.step (run_layers urls hstart hrun).1 hs)
    (traced_doResolve url (firstRequest build url)) h
  refine ⟨?_, by omega, hlast.failures_nil, fun hnone => ?_⟩
  · simp only [List.map_const', List.sum_replicate_nat, Nat.mul_one, Nat.mul_zero] at hlength
    omega
  · rcases hlast.failures with hnil | ⟨-, hf⟩
    · exact .inr ⟨hnil, hlast.ended hnone hnil⟩
    · exact .inl hf

/-- The way to `https` ends with the body that was read. -/
theorem toSecure_ends :
    ∃ s, Machine.run (step someUrls) (Session.run ⟨true, true⟩ (plainUrl "/")) toSecure = some s ∧
      s.requests = 2 ∧ s.pending = none ∧ s.failures = [] ∧ ReadsBody toSecure s := by
  obtain ⟨s, h, hrequests, hpending, hfailures⟩ : ∃ s,
      Machine.run (step someUrls) (Session.run ⟨true, true⟩ (plainUrl "/")) toSecure = some s ∧
        s.requests = 2 ∧ s.pending = none ∧ s.failures = [] :=
    ⟨_, rfl, rfl, rfl, rfl⟩
  obtain ⟨-, -, -, hended⟩ := session_ends someUrls ⟨true, true⟩ (plainUrl "/") toSecure s h
  rcases hended hpending with ⟨f, hf⟩ | ⟨-, hread⟩
  · cases hf.symm.trans hfailures
  · exact ⟨s, h, hrequests, hpending, hfailures, hread⟩

/-! ## Every request is for the URL that the redirects led to -/

/-- What Boost.URL is relied on for: the origin of a URL is its text up to the end of its authority,
and nothing if it has none, so that two URLs of one origin have the same scheme, host and port. -/
structure Urls.Lawful {Ref : Type} (urls : Urls Ref) (known : Url → Prop) : Prop where
  resolve : ∀ url value ref, known url → urls.parseUriReference value = .ok ref →
    known (urls.resolve url ref)
  origin : ∀ a b, known a → known b → a.encodedOrigin = b.encodedOrigin → a.encodedOrigin ≠ [] →
    a.schemeId = b.schemeId ∧ a.host = b.host ∧ a.port = b.port

/-- A response that is a redirect. -/
def IsRedirect (e : Event) : Prop :=
  ∃ res, e = .readHeader .success res ∧ Session.isRedirect res.status = true

theorem Next.not_isRedirect {p : Pending} {e : Event} {q : Option Pending} (h : Next p e q) :
    ¬ IsRedirect e := by
  rintro ⟨res, rfl, hredirect⟩
  cases h with
  | header _ h => exact absurd hredirect (Bool.eq_false_iff.1 h)

/-- The fields of a request that redirects leave alone. -/
structure AsBuilt (build : Burl.Build) (req : Burl.Request FieldList) : Prop where
  method : req.method = Burl.methodGet
  userAgent : findAll req.fields Burl.Field.userAgent = ["Boost.Http.Io".toList]
  acceptEncoding : findAll req.fields Burl.Field.acceptEncoding =
    (if build.hasBrotli then ["br".toList] else []) ++
      if build.hasZlib then ["deflate, gzip".toList] else []

/-- A request with its target, host and referer. -/
structure RequestFor (req : Burl.Request FieldList) (target host : List Char)
    (referer : List (List Char)) : Prop where
  target : req.target = target
  host : findAll req.fields Burl.Field.host = [host]
  referer : findAll req.fields Burl.Field.referer = referer

/-- How a session came to its URL and its request: these are from the start, or the last redirect
led to the URL, and the request has the URL before it as its referer. -/
inductive CameTo {Ref : Type} (urls : Urls Ref) (s₀ : Session) (es : List Event) (s : Session) :
    Prop
  | start (hes : ∀ e ∈ es, ¬ IsRedirect e) (hurl : s.url = s₀.url)
      (hreq : RequestFor s.req
        (if s₀.url.encodedTarget.isEmpty then "/".toList else s₀.url.encodedTarget)
        s₀.url.hostAndPort [])
  | redirect (es₁ : List Event) (e : Event) (es₂ : List Event) (s₁ : Session)
      (hes : es = es₁ ++ e :: es₂) (hrun : Machine.run (step urls) s₀ es₁ = some s₁)
      (hled : s₁.LedTo urls e s.url) (hlast : ∀ e ∈ es₂, ¬ IsRedirect e)
      (hreq : RequestFor s.req s.url.encodedTarget s.url.hostAndPort [s₁.url.buffer])

/-- A field that is appended or not. -/
theorem findAll_append (b : Bool) (req : Burl.Request FieldList) (name value m : List Char) :
    findAll (if b then Session.append req name value else req).fields m =
      findAll req.fields m ++
        if canon name = canon m then (if b then [value] else []) else [] := by
  have happend : findAll (Session.append req name value).fields m =
      findAll req.fields m ++ if canon name = canon m then [value] else [] := by
    change FieldList.values (req.fields ++ [(name, value)]) m = FieldList.values req.fields m ++ _
    simp only [FieldList.values, List.filter_append, List.map_append]
    by_cases h : canon name = canon m
    · simp [h]
    · simp [h]
  cases b with
  | true => exact happend
  | false =>
    have hnone : (if canon name = canon m then [] else []) = ([] : List (List Char)) := ite_self _
    exact (hnone ▸ List.append_nil _).symm

theorem append_eq (b : Bool) (req : Burl.Request FieldList) (name value : List Char) :
    (if b then Session.append req name value else req).method = req.method ∧
      (if b then Session.append req name value else req).target = req.target := by
  cases b with
  | true => exact ⟨rfl, rfl⟩
  | false => exact ⟨rfl, rfl⟩

theorem findAll_set (req : Burl.Request FieldList) (name value m : List Char) :
    findAll (req.set name value).fields m =
      if canon m = canon name then [value] else findAll req.fields m :=
  Container.findAll_set req.fields name value m

/-- The fields of the first request, those for the decoders last. -/
theorem findAll_firstRequest (build : Burl.Build) (url : Url) (m : List Char) :
    findAll (firstRequest build url).fields m =
      (if canon m = canon Burl.Field.host then [url.hostAndPort]
        else if canon m = canon Burl.Field.userAgent then ["Boost.Http.Io".toList] else []) ++
      (if canon Burl.Field.acceptEncoding = canon m then
        (if build.hasBrotli then ["br".toList] else []) else []) ++
      if canon Burl.Field.acceptEncoding = canon m then
        (if build.hasZlib then ["deflate, gzip".toList] else []) else [] := by
  unfold firstRequest
  dsimp only
  rw [findAll_append, findAll_append, findAll_set, findAll_set]
  cases url.encodedTarget.isEmpty with
  | true => rfl
  | false => rfl

theorem firstRequest_eq (build : Burl.Build) (url : Url) :
    (firstRequest build url).method = Burl.methodGet ∧
      (firstRequest build url).target =
        if url.encodedTarget.isEmpty then "/".toList else url.encodedTarget := by
  unfold firstRequest
  dsimp only
  rw [(append_eq _ _ _ _).1, (append_eq _ _ _ _).1, (append_eq _ _ _ _).2, (append_eq _ _ _ _).2]
  split
  · exact ⟨rfl, rfl⟩
  · exact ⟨rfl, rfl⟩

theorem asBuilt_firstRequest (build : Burl.Build) (url : Url) :
    AsBuilt build (firstRequest build url) where
  method := (firstRequest_eq build url).1
  userAgent := by
    rw [findAll_firstRequest, if_neg (by decide), if_pos (by decide), if_neg (by decide),
      if_neg (by decide)]
    rfl
  acceptEncoding := by
    rw [findAll_firstRequest, if_neg (by decide), if_neg (by decide), if_pos rfl, if_pos rfl]
    rfl

theorem requestFor_firstRequest (build : Burl.Build) (url : Url) :
    RequestFor (firstRequest build url)
      (if url.encodedTarget.isEmpty then "/".toList else url.encodedTarget) url.hostAndPort [] where
  target := (firstRequest_eq build url).2
  host := by
    rw [findAll_firstRequest, if_pos rfl, if_neg (by decide), if_neg (by decide)]
    rfl
  referer := by
    rw [findAll_firstRequest, if_neg (by decide), if_neg (by decide), if_neg (by decide),
      if_neg (by decide)]
    rfl

theorem requestFor_redirectRequest (s : Session) (redirect : Url) :
    RequestFor (s.redirectRequest redirect) redirect.encodedTarget redirect.hostAndPort
      [s.url.buffer] where
  target := rfl
  host := by rw [Session.redirectRequest, findAll_set, if_pos (by decide)]
  referer := by
    rw [Session.redirectRequest, findAll_set, if_neg (by decide), findAll_set, if_pos (by decide)]

/-- A redirect changes only its own two fields. -/
theorem AsBuilt.redirectRequest {build : Burl.Build} {s : Session} (h : AsBuilt build s.req)
    (redirect : Url) : AsBuilt build (s.redirectRequest redirect) where
  method := h.method
  userAgent := by
    rw [Session.redirectRequest, findAll_set, if_neg (by decide), findAll_set, if_neg (by decide)]
    exact h.userAgent
  acceptEncoding := by
    rw [Session.redirectRequest, findAll_set, if_neg (by decide), findAll_set, if_neg (by decide)]
    exact h.acceptEncoding

section
variable {Ref : Type} {urls : Urls Ref} {s₀ s s' : Session} {es : List Event} {e : Event}

/-- Within a visit, the URL and the request stay. -/
theorem CameTo.goesOn (h : CameTo urls s₀ es s) (hmoves : s.GoesOn e s') :
    CameTo urls s₀ (es ++ [e]) s' := by
  obtain ⟨p, -, hnext⟩ := hmoves.next
  have hnot := hnext.not_isRedirect
  cases h with
  | start hes hurl hreq =>
    refine .start (fun x hx => ?_) (hmoves.url.trans hurl) (hmoves.req ▸ hreq)
    rcases List.mem_append.1 hx with hx | hx
    · exact hes x hx
    · exact List.mem_singleton.1 hx ▸ hnot
  | redirect es₁ x es₂ s₁ hes hrun hled hlast hreq =>
    refine .redirect es₁ x (es₂ ++ [e]) s₁ ?_ hrun (hmoves.url ▸ hled) (fun y hy => ?_) ?_
    · rw [hes, List.append_assoc, List.cons_append]
    · rcases List.mem_append.1 hy with hy | hy
      · exact hlast y hy
      · exact List.mem_singleton.1 hy ▸ hnot
    · rw [hmoves.req, hmoves.url]
      exact hreq

/-- While an operation is under way, it is known how the session came to its request. -/
theorem cameTo_step {build : Burl.Build} (hrun : Machine.run (step urls) s₀ es = some s)
    (h : s.pending ≠ none → CameTo urls s₀ es s ∧ AsBuilt build s.req)
    (hs : step urls s e = some s') :
    s'.pending ≠ none → CameTo urls s₀ (es ++ [e]) s' ∧ AsBuilt build s'.req := by
  obtain ⟨hcame, hbuilt⟩ := h (pending_of_step hs)
  intro hpending
  cases moves_step hs with
  | goesOn hmoves => exact ⟨hcame.goesOn hmoves, hmoves.req ▸ hbuilt⟩
  | redirects hmoves =>
    rw [hmoves.req]
    refine ⟨.redirect es e [] s rfl hrun hmoves.led ?_ ?_, hbuilt.redirectRequest _⟩
    · intro x hx
      cases hx
    · rw [hmoves.req]
      exact requestFor_redirectRequest s s'.url
  | fails hmoves => exact absurd hmoves.pending hpending

/-- The URL is known, and the connection is for it if it has an authority. Between a redirect and
the end of the shutdown, the old connection is still there. -/
def Session.Reaches (known : Url → Prop) (s : Session) : Prop :=
  s.pending ≠ none →
    known s.url ∧ (s.pending ≠ some .reopen → s.url.encodedOrigin ≠ [] → s.Resolved)

/-- A connection that is used again is for the new URL as it was for the old one. -/
theorem Session.Resolved.of_origin {known : Url → Prop} (hurls : urls.Lawful known)
    (h : s.Resolved) (hknown : known s.url) (hknown' : known s'.url)
    (horigin : s.url.encodedOrigin = s'.url.encodedOrigin) (hne : s.url.encodedOrigin ≠ [])
    (hsame : s.SameConnection s') : s'.Resolved := by
  obtain ⟨hscheme, hhost, hport⟩ := hurls.origin s.url s'.url hknown hknown' horigin hne
  refine ⟨?_, ?_, ?_⟩
  · rw [hsame.host, h.host, hhost]
  · rw [hsame.port, ← h.port, Url.effectivePort, Url.effectivePort, hscheme, hport]
  · rw [hsame.secure, h.secure, hscheme]

theorem Session.SameConnection.resolved (h : s.SameConnection s') (hurl : s'.url = s.url)
    (hresolved : s.Resolved) : s'.Resolved := by
  refine ⟨?_, ?_, ?_⟩
  · rw [h.host, hurl, hresolved.host]
  · rw [h.port, hurl, hresolved.port]
  · rw [h.secure, hurl, hresolved.secure]

theorem reaches_step {known : Url → Prop} (hurls : urls.Lawful known) (h : s.Reaches known)
    (hs : step urls s e = some s') : s'.Reaches known := by
  obtain ⟨hknown, hconn⟩ := h (pending_of_step hs)
  intro hpending
  cases moves_step hs with
  | goesOn hmoves =>
    rw [hmoves.url]
    refine ⟨hknown, fun _ hne => ?_⟩
    rcases hmoves.connection with hresolved | ⟨hopen, hsame⟩
    · exact hresolved
    · exact hsame.resolved hmoves.url (hconn hopen hne)
  | redirects hmoves =>
    obtain ⟨res, value, ref, -, -, -, hok, hurl⟩ := hmoves.led
    have hknown' : known s'.url := hurl ▸ hurls.resolve s.url value ref hknown hok
    refine ⟨hknown', fun hopen hne => ?_⟩
    rcases hmoves.connection with ⟨-, horigin, hsame⟩ | hreopen | ⟨-, hresolved⟩
    · rw [← horigin] at hne
      have hunder : s.pending ≠ some .reopen := by
        rw [hmoves.under]
        decide
      exact (hconn hunder hne).of_origin hurls hknown hknown' horigin hne hsame
    · exact absurd hreopen hopen
    · exact hresolved
  | fails hmoves => exact absurd hmoves.pending hpending

end

theorem reaches_doResolve {known : Url → Prop} {url : Url} (hurl : known url)
    (req : Burl.Request FieldList) : (Session.doResolve { url, req }).Reaches known := by
  intro hpending
  rcases Session.doResolve_cases { url, req } with ⟨port, hport, heq⟩ | heq
  · rw [heq]
    exact ⟨hurl, fun _ _ => ⟨rfl, hport, rfl⟩⟩
  · rw [heq] at hpending
    exact absurd rfl hpending

theorem cameTo_doResolve {Ref : Type} (urls : Urls Ref) (build : Burl.Build) (url : Url) :
    CameTo urls (Session.run build url) [] (Session.run build url) ∧
      AsBuilt build (Session.run build url).req := by
  have hdata : (Session.run build url).url = url ∧
      (Session.run build url).req = firstRequest build url := by
    rw [run_eq]
    rcases Session.doResolve_cases { url, req := firstRequest build url } with ⟨port, -, heq⟩ | heq
    · rw [heq]
      exact ⟨rfl, rfl⟩
    · rw [heq]
      exact ⟨rfl, rfl⟩
  obtain ⟨hurl, hreq⟩ := hdata
  rw [hreq]
  refine ⟨.start (fun e he => ?_) rfl ?_, asBuilt_firstRequest build url⟩
  · cases he
  · rw [hreq, hurl]
    exact requestFor_firstRequest build url

/-- Whenever a request is sent, its target and its `Host` are those of the URL that the last
redirect led to from the URL before it, which is the only `Referer`, or of the first URL; the other
fields are as they were built. The connection that it is sent over was resolved for the host and the
port of a URL with an authority, and has completed a handshake exactly if that is an `https` one. -/
theorem request_for_url {Ref : Type} (urls : Urls Ref) (known : Url → Prop)
    (hurls : urls.Lawful known) (build : Burl.Build) (url : Url) (hurl : known url)
    (es : List Event) (s : Session)
    (h : Machine.run (step urls) (Session.run build url) es = some s)
    (hwrite : s.pending = some .write) :
    CameTo urls (Session.run build url) es s ∧ AsBuilt build s.req ∧
      (s.url.encodedOrigin ≠ [] →
        s.Resolved ∧ (s.stream = .tls ↔ s.url.schemeId = Burl.Scheme.https)) := by
  have hpending : s.pending ≠ none := by
    rw [hwrite]
    decide
  have hcame := Machine.run_history
    (P := fun es s => s.pending ≠ none →
      CameTo urls (Session.run build url) es s ∧ AsBuilt build s.req)
    (fun _ _ _ _ hrun hP hs => cameTo_step hrun hP hs)
    (fun _ => cameTo_doResolve urls build url) h hpending
  refine ⟨hcame.1, hcame.2, fun hne => ?_⟩
  have hreaches : s.Reaches known :=
    Machine.run_inv (fun _ _ _ hP _ hs => reaches_step hurls hP hs)
      (reaches_doResolve hurl (firstRequest build url)) h
  have hresolved : s.Resolved := by
    refine (hreaches hpending).2 ?_ hne
    rw [hwrite]
    decide
  have hinv : s.Inv :=
    (run_layers urls (Session.takes_doResolve { url, req := firstRequest build url }).inv h).1
  refine ⟨hresolved, fun htls => ?_, fun hscheme => ?_⟩
  · have hsecure := hinv.tls htls
    rw [hresolved.secure] at hsecure
    exact eq_of_beq hsecure
  · have hsecure : s.secure = true := by
      rw [hresolved.secure, hscheme]
      rfl
    rcases hinv.pending _ hwrite with hplain | htls
    · cases hsecure.symm.trans (hinv.plain hplain)
    · exact htls

/-- The URLs of one site. -/
def OfSite (url : Url) : Prop := url = secureUrl ∨ ∃ path, url = plainUrl path

theorem someUrls_lawful : someUrls.Lawful OfSite where
  resolve url value ref _ hok := by
    change (if value = secureUrl.buffer then Except.ok secureUrl
      else if value = "/x".toList then .ok (plainUrl "/x")
      else .error (ErrorCode.other 1)) = .ok ref at hok
    split at hok
    · cases hok
      exact .inl rfl
    split at hok
    · cases hok
      exact .inr ⟨_, rfl⟩
    · cases hok
  origin := by
    have hne : secureUrl.encodedOrigin ≠ (plainUrl "/").encodedOrigin := by decide
    rintro a b (rfl | ⟨p, rfl⟩) (rfl | ⟨q, rfl⟩) horigin -
    · exact ⟨rfl, rfl, rfl⟩
    · exact absurd horigin hne
    · exact absurd horigin.symm hne
    · exact ⟨rfl, rfl, rfl⟩

/-- From a page of a site to another one, over a new connection. -/
def toOtherPath : List Event :=
  toPath ++ [.drain (.other 1), .resolve .success, .connect .success .success]

/-- The request for the other page has the first page as its referer. -/
theorem toOtherPath_request :
    ∃ s, Machine.run (step someUrls) (Session.run ⟨true, true⟩ (plainUrl "/")) toOtherPath =
        some s ∧
      s.req.target = "/x".toList ∧
      findAll s.req.fields Burl.Field.referer = ["http://a.org/".toList] ∧
      AsBuilt ⟨true, true⟩ s.req ∧ s.Resolved ∧ s.stream ≠ .tls := by
  obtain ⟨s, h, hwrite, hne, htarget, hreferer, hscheme⟩ : ∃ s,
      Machine.run (step someUrls) (Session.run ⟨true, true⟩ (plainUrl "/")) toOtherPath = some s ∧
        s.pending = some .write ∧ s.url.encodedOrigin ≠ [] ∧ s.req.target = "/x".toList ∧
        findAll s.req.fields Burl.Field.referer = ["http://a.org/".toList] ∧
        s.url.schemeId ≠ Burl.Scheme.https :=
    ⟨_, rfl, rfl, by decide, rfl, by decide +kernel, by decide⟩
  obtain ⟨-, hbuilt, hconn⟩ := request_for_url someUrls OfSite someUrls_lawful ⟨true, true⟩
    (plainUrl "/") (.inr ⟨_, rfl⟩) toOtherPath s h hwrite
  obtain ⟨hresolved, htls⟩ := hconn hne
  exact ⟨s, h, htarget, hreferer, hbuilt, hresolved, fun heq => hscheme (htls.1 heq)⟩

end Beast2.Get
