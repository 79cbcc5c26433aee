import Beast2.Lib.Loop
import Beast2.Burl.Cookie
import Beast2.Burl.Request

/-!
# The redirect loop of `perform_request`

`perform_request` connects, sends the request, and while the response is a redirect that it is to
follow, edits the request in place and sends it again, over the same connection if it may
(`main.cpp:438-574`). What it takes from outside is the parameter `Urls`, which makes URLs from
others, and one `Exchange` for every request it sends: the clock, the response, what draining the
redirect's body and a new connection come to, and what other transfers do to the shared jar. A
transfer logs the connections it opens and the requests it sends.

What comes before the loop, the file that the output goes to, and what comes after it, the body of
the last response, are built around it by `performTransfer`. How the URL of the request is made from
its text is left out.
-/

namespace Beast2.Burl

open Loop Fields

/-- The response that `parser.get()` returns: its status, whether its version is 1.1, whether its
Connection field says close, and its fields. -/
structure Response (F : Type) where
  status : Nat
  http11 : Bool
  close : Bool
  fields : F
deriving DecidableEq, Repr

/-- `is_redirect_result`. Reference: `main.cpp:75`. -/
structure IsRedirectResult where
  isRedirect : Bool
  needMethodChange : Bool
deriving DecidableEq, Repr

/-- `is_redirect`. Reference: `main.cpp:82`. -/
def isRedirect (oc : OperationConfig) (status : Nat) : IsRedirectResult :=
  match status with
  | 301 => ⟨true, !oc.post301⟩
  | 302 => ⟨true, !oc.post302⟩
  | 303 => ⟨true, !oc.post303⟩
  | 307 | 308 => ⟨true, false⟩
  | _ => ⟨false, false⟩

/-- `can_reuse_connection`. Reference: `main.cpp:120`. -/
def canReuseConnection {F : Type} (res : Response F) (a b : Url) : Bool :=
  if a.encodedOrigin ≠ b.encodedOrigin then false
  else if !res.http11 then false
  else if res.close then false
  else true

/-- Boost.URL as the transfer uses it: `parse_uri_reference`, `resolve` and `remove_userinfo`. -/
structure Urls (Ref : Type) where
  parseUriReference : List Char → Option Ref
  resolve : Url → Ref → Url
  removeUserinfo : Url → Url

/-- What happens outside from one request to the next: the clock's readings at `make_field`, and at
`parse_cookie` and `add` for each Set-Cookie field; the response, or `none` if `async_request`
throws; whether the body of a redirect is drained without an error and whether a new connection
succeeds; and what other transfers do to the jar before the response arrives and after that. -/
structure Exchange (F : Type) where
  now : Int
  clock : Nat → Clock
  addNow : Nat → Int
  response : Option (Response F)
  drained : Bool
  connected : Bool
  jarBefore : List Cookie → List Cookie
  jarAfter : List Cookie → List Cookie

/-- A request as it was sent, with the message whose body was given to the serializer, the URL it
was for, the jar and the clock when its Cookie field was made, whether the parser was started with
`start_head_response`, and the response to it. -/
structure Sent (F : Type) where
  url : Url
  request : Request F
  msg : Message
  jar : Option (List Cookie)
  now : Int
  headResponse : Bool
  response : Option (Response F)

/-- What a transfer does that can be seen. -/
inductive Event (F : Type) where
  | connect (url : Url)
  | send (s : Sent F)

/-- The variables of the loop, what outside has still to come, and the log. Reference:
`main.cpp:490-496`. -/
structure Transfer (F : Type) where
  request : Request F
  msg : Message
  url : Url
  referer : Url
  trusted : Bool
  maxredirs : Nat
  jar : Option (List Cookie)
  exchanges : List (Exchange F)
  log : List (Event F)

/-- How the loop ends: with the response to go on with, by an exception of its own, by one from a
call it makes, or not yet. -/
inductive Ending (F : Type) where
  | response (res : Response F)
  | thrown (what : String)
  | callThrew
  | waiting

/-! ## Logs -/

/-- The requests of a log. -/
def sends {F : Type} (log : List (Event F)) : List (Sent F) :=
  log.filterMap fun
    | .connect _ => none
    | .send s => some s

@[simp] theorem sends_append {F : Type} (l l' : List (Event F)) :
    sends (l ++ l') = sends l ++ sends l' :=
  List.filterMap_append

@[simp] theorem sends_connect {F : Type} (url : Url) : sends [(.connect url : Event F)] = [] := rfl

@[simp] theorem sends_send {F : Type} (s : Sent F) : sends [.send s] = [s] := rfl

/-! ## The loop -/

section
variable {F Ref : Type} [Container F]

/-- `redirect_url`. An error of `resolve` is not looked at. Reference: `main.cpp:157`. -/
def redirectUrl (urls : Urls Ref) (res : Response F) (referer : Url) : Option Url := do
  let value ← (findAll res.fields Field.location).head?
  let ref ← urls.parseUriReference value
  some (urls.resolve referer ref)

/-- `cookie_jar->make_field(url)`, with the jar after it: nothing without a jar. Reference:
`main.cpp:469`. -/
def jarField (now : Int) (jar : Option (List Cookie)) (url : Url) :
    Option (List Char × Option (List Cookie)) :=
  match jar with
  | none => some ([], none)
  | some jar => (makeField now jar url).map fun (cookie, jar) => (cookie, some jar)

/-- The Cookie field of a request: none for an empty text. Reference: `main.cpp:474-477`. -/
def setCookieField (r : Request F) (cookie : List Char) : Request F :=
  let r := r.erase Field.cookie
  if cookie.isEmpty then r else r.set Field.cookie cookie

/-- `set_cookies`: the request and the jar after it. Reference: `main.cpp:467`. -/
def setCookies (expCookies : List Char) (t : Transfer F) (now : Int) :
    Option (Request F × Option (List Cookie)) := do
  let (cookie, jar) ← jarField now t.jar t.url
  let cookie := if t.trusted then cookie ++ expCookies else cookie
  some (setCookieField t.request cookie, jar)

/-- The loop of `extract_cookies` from the `k`-th Set-Cookie field on: the jar after it, and whether
it ended without an exception. Reference: `main.cpp:485-487`. -/
def extractCookiesLoop (psl : Psl) (x : Exchange F) (url : Url) (jar : List Cookie) :
    Nat → List (List Char) → List Cookie × Bool
  | _, [] => (jar, true)
  | k, sv :: svs =>
    match parseCookie (x.clock k) sv with
    | .error _ => (jar, false)
    | .ok c => extractCookiesLoop psl x url (add psl (x.addNow k) jar url c) (k + 1) svs

/-- `extract_cookies`. Reference: `main.cpp:480`. -/
def extractCookies (psl : Psl) (x : Exchange F) (url : Url) (jar : Option (List Cookie))
    (res : Response F) : Option (List Cookie) × Bool :=
  match jar with
  | none => (none, true)
  | some jar =>
    let (jar, ok) := extractCookiesLoop psl x url jar 0 (findAll res.fields Field.setCookie)
    (some jar, ok)

/-- The request after a redirect that changes the method: a GET without a body. Reference:
`main.cpp:546-554`. -/
def changeMethod (r : Request F) : Request F :=
  let r := { r with method := methodGet }
  let r := r.erase Field.contentLength
  let r := r.erase Field.contentEncoding
  let r := r.erase Field.contentType
  r.erase Field.expect

/-- The request and the message for the next URL. Reference: `main.cpp:546-572`. -/
def followRedirect (urls : Urls Ref) (oc : OperationConfig) (orgUrl : Url) (needMethodChange : Bool)
    (t : Transfer F) (url : Url) : Transfer F :=
  let change := needMethodChange && t.request.method != methodHead
  let r := if change then changeMethod t.request else t.request
  let msg := if change then none else t.msg
  let r := setTarget oc r url
  let trusted := orgUrl.encodedOrigin == url.encodedOrigin || oc.unrestrictedAuth
  let r := if trusted then r else r.erase Field.authorization
  let r := if oc.autoreferer then
      r.set Field.referer (urls.removeUserinfo t.referer).buffer
    else r
  let r := r.set Field.host url.hostAndPort
  { t with request := r, msg, url, referer := url, trusted }

/-- What the loop does with a response: it leaves the loop, or goes round with the next request.
Reference: `main.cpp:511-573`. -/
def Transfer.respond (urls : Urls Ref) (psl : Psl) (oc : OperationConfig) (orgUrl : Url)
    (x : Exchange F) (res : Response F) (t : Transfer F) :
    Turn (Transfer F) (Ending F × Transfer F) :=
  let (jar, ok) := extractCookies psl x t.url (t.jar.map x.jarBefore) res
  let t := { t with jar := jar.map x.jarAfter }
  let redirect := isRedirect oc res.status
  if !ok then .exit (.callThrew, t)
  else if !redirect.isRedirect || !oc.followlocation then .exit (.response res, t)
  else if t.maxredirs = 0 then .exit (.thrown "Maximum redirects followed", t)
  else match redirectUrl urls res t.referer with
    | none => .exit (.thrown "Bad redirect response", t)
    | some url =>
      if !oc.protoRedir.contains url.schemeId then
        .exit (.thrown "Protocol not supported or disabled", t)
      else
        let reuse := canReuseConnection res t.referer url && x.drained
        if !reuse && !x.connected then .exit (.callThrew, t)
        else
          let log := if reuse then t.log else t.log ++ [.connect url]
          .next (followRedirect urls oc orgUrl redirect.needMethodChange
            { t with maxredirs := t.maxredirs - 1, log } url)

/-- One turn of the loop. Reference: `main.cpp:497-574`. -/
def Transfer.turn (urls : Urls Ref) (psl : Psl) (oc : OperationConfig) (expCookies : List Char)
    (orgUrl : Url) (t : Transfer F) : Turn (Transfer F) (Ending F × Transfer F) :=
  match t.exchanges with
  | [] => .exit (.waiting, t)
  | x :: exchanges =>
    match setCookies expCookies t x.now with
    | none => .exit (.callThrew, { t with exchanges })
    | some (request, jar) =>
      let headResponse := request.method == methodHead
      let log := t.log ++ [.send ⟨t.url, request, t.msg, t.jar, x.now, headResponse, x.response⟩]
      let t := { t with request, jar, exchanges, log }
      match x.response with
      | none => .exit (.callThrew, t)
      | some res => t.respond urls psl oc orgUrl x res

/-! ## What a turn does -/

/-- The request that a turn sends. -/
def Transfer.sent (expCookies : List Char) (t : Transfer F) : Option (Sent F) := do
  let x ← t.exchanges.head?
  let (request, _) ← setCookies expCookies t x.now
  some ⟨t.url, request, t.msg, t.jar, x.now, request.method == methodHead, x.response⟩

variable {urls : Urls Ref} {psl : Psl} {oc : OperationConfig} {expCookies : List Char}
  {orgUrl : Url} {t t' : Transfer F}

/-- A turn sends a request: the transfer before it and the one that waits for the response. -/
structure Transfer.Sends (expCookies : List Char) (t : Transfer F) (s : Sent F) (t₀ : Transfer F) :
    Prop where
  sent : t.sent expCookies = some s
  request : t₀.request = s.request
  msg : t₀.msg = s.msg
  referer : t₀.referer = t.referer
  maxredirs : t₀.maxredirs = t.maxredirs
  log : t₀.log = t.log ++ [.send s]
  exchanges : t₀.exchanges.length < t.exchanges.length

/-- What holds when the loop follows a redirect to a URL, between the transfer that got the response
and the one whose request is edited for the URL: the redirect was counted, the scheme of the URL
checked, and the connection is a new one or is to the origin of the URL. -/
structure Transfer.Follows (oc : OperationConfig) (t t₁ : Transfer F) (url : Url) : Prop where
  request : t₁.request = t.request
  msg : t₁.msg = t.msg
  exchanges : t₁.exchanges = t.exchanges
  maxredirs : t.maxredirs = t₁.maxredirs + 1
  scheme : url.schemeId ∈ oc.protoRedir
  log : t₁.log = t.log ∧ t.referer.encodedOrigin = url.encodedOrigin ∨
    t₁.log = t.log ++ [.connect url]

omit [Container F] in
/-- The connection is reused for the same origin only. -/
theorem canReuseConnection_origin {res : Response F} {a b : Url}
    (h : canReuseConnection res a b = true) : a.encodedOrigin = b.encodedOrigin := by
  unfold canReuseConnection at h
  split at h
  · cases h
  · next hne => exact not_not.1 hne

/-- The exception for too many redirects. Reference: `main.cpp:519`. -/
def tooManyRedirects : Ending F := .thrown "Maximum redirects followed"

/-- A response ends the loop and leaves the log as it is, by `tooManyRedirects` only if no redirect
is left, or it is followed. -/
theorem Transfer.respond_cases (x : Exchange F) (res : Response F) :
    (∃ e t', t.respond urls psl oc orgUrl x res = .exit (e, t') ∧ t'.log = t.log ∧
      (e = tooManyRedirects → t.maxredirs = 0)) ∨
    ∃ t₁ url, t.respond urls psl oc orgUrl x res
        = .next (followRedirect urls oc orgUrl (isRedirect oc res.status).needMethodChange t₁ url) ∧
      t.Follows oc t₁ url := by
  simp only [Transfer.respond]
  split
  · exact .inl ⟨_, _, rfl, rfl, nofun⟩
  split
  · exact .inl ⟨_, _, rfl, rfl, nofun⟩
  split
  · next hmax => exact .inl ⟨_, _, rfl, rfl, fun _ => hmax⟩
  next hmax =>
  split
  · exact .inl ⟨_, _, rfl, rfl, fun h => absurd h (by simp [tooManyRedirects])⟩
  next url _ =>
  split
  · exact .inl ⟨_, _, rfl, rfl, fun h => absurd h (by simp [tooManyRedirects])⟩
  next hscheme =>
  split
  · exact .inl ⟨_, _, rfl, rfl, nofun⟩
  · refine .inr ⟨_, url, rfl, rfl, rfl, rfl, ?_, by simpa using hscheme, ?_⟩
    · show t.maxredirs = t.maxredirs - 1 + 1
      exact (Nat.succ_pred_eq_of_ne_zero hmax).symm
    · dsimp only
      split
      · next hreuse =>
        rw [Bool.and_eq_true] at hreuse
        exact .inl ⟨rfl, canReuseConnection_origin hreuse.1⟩
      · exact .inr rfl

/-- A turn that sends its request goes on with the response, if there is one. -/
theorem Transfer.turn_of_sent {x : Exchange F} {s : Sent F} (hx : t.exchanges.head? = some x)
    (hsent : t.sent expCookies = some s) :
    ∃ t₀, t.Sends expCookies s t₀ ∧ s.response = x.response ∧
      t.turn urls psl oc expCookies orgUrl =
        match x.response with
        | none => .exit (.callThrew, t₀)
        | some res => t₀.respond urls psl oc orgUrl x res := by
  obtain ⟨rest, hexchanges⟩ : ∃ rest, t.exchanges = x :: rest := List.head?_eq_some_iff.1 hx
  cases hset : setCookies expCookies t x.now with
  | none => simp [Transfer.sent, hx, hset] at hsent
  | some rj =>
    have hs : ⟨t.url, rj.1, t.msg, t.jar, x.now, rj.1.method == methodHead, x.response⟩ = s := by
      simpa [Transfer.sent, hx, hset] using hsent
    refine ⟨{ t with request := rj.1, jar := rj.2, exchanges := rest, log := t.log ++ [.send s] },
      ⟨hsent, ?_, ?_, rfl, rfl, rfl, ?_⟩, ?_, ?_⟩
    · rw [← hs]
    · rw [← hs]
    · rw [hexchanges]
      exact Nat.lt_succ_self _
    · rw [← hs]
    · simp only [Transfer.turn, hexchanges, hset, hs]

/-- A turn sends its request and leaves the loop, by `tooManyRedirects` only if no redirect is left,
or follows the response to the request that it has sent. -/
theorem Transfer.turn_cases :
    (∃ e t', t.turn urls psl oc expCookies orgUrl = .exit (e, t') ∧
      t'.log = t.log ++ ((t.sent expCookies).map Event.send).toList ∧
      (e = tooManyRedirects → t.maxredirs = 0 ∧ (t.sent expCookies).isSome)) ∨
    ∃ s res t₀ t₁ url, t.turn urls psl oc expCookies orgUrl
        = .next (followRedirect urls oc orgUrl (isRedirect oc res.status).needMethodChange t₁ url) ∧
      t.Sends expCookies s t₀ ∧ s.response = some res ∧ t₀.Follows oc t₁ url := by
  cases hx : t.exchanges with
  | nil =>
    refine .inl ⟨.waiting, t, by simp only [Transfer.turn, hx], by simp [Transfer.sent, hx], ?_⟩
    intro heq
    cases heq
  | cons x exchanges =>
    cases hsent : t.sent expCookies with
    | none =>
      have hset : setCookies expCookies t x.now = none := by
        cases hset : setCookies expCookies t x.now with
        | none => rfl
        | some rj => simp [Transfer.sent, hx, hset] at hsent
      refine .inl ⟨.callThrew, { t with exchanges }, by simp only [Transfer.turn, hx, hset],
        by simp, ?_⟩
      intro heq
      cases heq
    | some s =>
      obtain ⟨t₀, hsends, hresponse, hturn⟩ :=
        @Transfer.turn_of_sent F Ref _ urls psl oc expCookies orgUrl t x s (by rw [hx]; rfl) hsent
      rw [hturn]
      cases hres : x.response with
      | none =>
        refine .inl ⟨_, _, rfl, hsends.log, ?_⟩
        intro heq
        cases heq
      | some res =>
        rcases Transfer.respond_cases x res with ⟨e, t', heq, hlog, hmax⟩ | ⟨t₁, url, heq, hfollows⟩
        · refine .inl ⟨e, t', heq, hlog.trans hsends.log, fun he => ⟨?_, rfl⟩⟩
          exact hsends.maxredirs.symm.trans (hmax he)
        · exact .inr ⟨s, res, t₀, t₁, url, heq, hsends, hresponse.trans hres, hfollows⟩

/-! ## What the edits do to the fields -/

/-- `set_cookies` leaves every field but Cookie alone. -/
theorem findAll_setCookieField_ne {n : List Char} (hne : canon n ≠ canon Field.cookie)
    (r : Request F) (cookie : List Char) :
    findAll (setCookieField r cookie).fields n = findAll r.fields n := by
  unfold setCookieField Request.erase Request.set
  simp only
  split
  · exact findAll_erase_ne hne
  · exact (findAll_set_ne hne).trans (findAll_erase_ne hne)

/-- Following a redirect leaves every field alone but those that the change of the method takes out,
and Authorization, Referer and Host. -/
theorem findAll_followRedirect_ne {n : List Char} (hauth : canon n ≠ canon Field.authorization)
    (href : canon n ≠ canon Field.referer) (hhost : canon n ≠ canon Field.host) (urls : Urls Ref)
    (oc : OperationConfig) (orgUrl : Url) (need : Bool) (t : Transfer F) (url : Url) :
    findAll (followRedirect urls oc orgUrl need t url).request.fields n =
      findAll (if need && t.request.method != methodHead then changeMethod t.request
        else t.request).fields n := by
  unfold followRedirect
  simp only [Request.set, Request.erase, setTarget]
  rw [findAll_set_ne hhost]
  have hreferer : ∀ (r : Request F) (v : List Char),
      findAll (if oc.autoreferer then { r with fields := Container.set r.fields Field.referer v }
        else r).fields n = findAll r.fields n := by
    intro r v
    split
    · exact findAll_set_ne href
    · rfl
  rw [hreferer]
  split
  · rfl
  · exact findAll_erase_ne hauth

/-- The requests of the log after a turn that follows a redirect. -/
theorem Transfer.sends_followRedirect (urls : Urls Ref) (orgUrl : Url) (need : Bool) {s : Sent F}
    {t₀ t₁ : Transfer F} {url : Url} (hsends : t.Sends expCookies s t₀)
    (hfollows : t₀.Follows oc t₁ url) :
    sends (followRedirect urls oc orgUrl need t₁ url).log = sends t.log ++ [s] := by
  show sends t₁.log = sends t.log ++ [s]
  rcases hfollows.log with ⟨hlog, -⟩ | hlog
  · rw [hlog, hsends.log, sends_append, sends_send]
  · rw [hlog, hsends.log, sends_append, sends_append, sends_send, sends_connect, List.append_nil]

/-- The requests of the log after a turn that leaves the loop. -/
theorem Transfer.sends_sent (t : Transfer F) (expCookies : List Char) :
    sends (t.log ++ ((t.sent expCookies).map Event.send).toList)
      = sends t.log ++ (t.sent expCookies).toList := by
  cases t.sent expCookies with
  | none => simp
  | some s => simp

/-- A turn that goes round uses up an exchange. -/
theorem Transfer.turn_lt (t t' : Transfer F)
    (h : t.turn urls psl oc expCookies orgUrl = .next t') :
    t'.exchanges.length < t.exchanges.length := by
  rcases @Transfer.turn_cases F Ref _ urls psl oc expCookies orgUrl t with
    ⟨e, t', heq, -⟩ | ⟨s, res, t₀, t₁, url, heq, hsends, -, hfollows⟩
  · cases h.symm.trans heq
  · cases h.symm.trans heq
    exact hfollows.exchanges ▸ hsends.exchanges

end

/-- The loop of `perform_request`. Reference: `main.cpp:497-574`. -/
def Transfer.loop {F Ref : Type} [Container F] (urls : Urls Ref) (psl : Psl) (oc : OperationConfig)
    (expCookies : List Char) (orgUrl : Url) : Transfer F → Ending F × Transfer F :=
  run (Transfer.turn urls psl oc expCookies orgUrl) (·.exchanges.length) Transfer.turn_lt

/-- `perform_request` from its initial URL on: how it ends and its log. `connected` is whether the
first connection succeeds. Reference: `main.cpp:427, 490-574`. -/
def performRequest {F Ref : Type} [Container F] (urls : Urls Ref) (psl : Psl) (build : Build)
    (oc : OperationConfig) (expCookies : List Char) (msg : Message) (url : Url)
    (jar : Option (List Cookie)) (connected : Bool) (exchanges : List (Exchange F)) :
    Ending F × List (Event F) :=
  match createRequest build oc msg url with
  | .error what => (.thrown what, [])
  | .ok request =>
    if connected then
      let r := Transfer.loop urls psl oc expCookies url
        ⟨request, msg, url, url, true, oc.maxredirs, jar, exchanges, [.connect url]⟩
      (r.1, r.2.log)
    else (.callThrew, [])

section
variable {F Ref : Type} [Container F] {urls : Urls Ref} {psl : Psl} {build : Build}
  {oc : OperationConfig} {expCookies : List Char} {msg : Message} {url : Url}
  {jar : Option (List Cookie)} {connected : Bool} {exchanges : List (Exchange F)}

/-- What holds if there is no loop and is established by the loop holds of `perform_request`. -/
theorem performRequest_rec {P : Ending F → List (Event F) → Prop}
    (hthrown : ∀ what, createRequest build oc msg url = .error (α := Request F) what →
      P (.thrown what) [])
    (hcall : P .callThrew [])
    (hloop : ∀ request r, createRequest build oc msg url = .ok request →
      r = Transfer.loop urls psl oc expCookies url ⟨request, msg, url, url, true, oc.maxredirs, jar,
        exchanges, [.connect url]⟩ → P r.1 r.2.log) :
    P (performRequest urls psl build oc expCookies msg url jar connected exchanges).1
      (performRequest urls psl build oc expCookies msg url jar connected exchanges).2 := by
  unfold performRequest
  cases hrequest : createRequest (F := F) build oc msg url with
  | error what => exact hthrown what hrequest
  | ok request =>
    cases connected with
    | false => exact hcall
    | true => exact hloop request _ hrequest rfl

/-- What holds of an empty log and is established by the loop holds of the log of
`perform_request`. -/
theorem performRequest_log {P : List (Event F) → Prop} (hnil : P [])
    (hloop : ∀ request, createRequest build oc msg url = .ok request →
      P (Transfer.loop urls psl oc expCookies url ⟨request, msg, url, url, true, oc.maxredirs, jar,
        exchanges, [.connect url]⟩).2.log) :
    P (performRequest urls psl build oc expCookies msg url jar connected exchanges).2 := by
  refine performRequest_rec (P := fun _ log => P log) (fun _ _ => hnil) hnil ?_
  rintro request _ hrequest rfl
  exact hloop request hrequest

end

end Beast2.Burl
