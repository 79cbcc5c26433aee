import Beast2.Server.Wire

/-!
# What one request leaves for the next

A worker is reused for every request of every connection. A history is any sequence of earlier
requests and connections of a worker (`History`), with handlers that do what they like with the
route parameters. The next request is isolated from two histories if the router is handed the same
after both: request, URL, data stores, start line and fields of the response (`SameHanded`).

Each turn replaces the request, the URL, both data stores and the start line, and `set_keep_alive`
brings the Connection field in line with the request. The other fields of `rp.res` are those the
last handler left, so the next request is isolated exactly if the two histories left the same of
them (`sameHanded_iff`).
-/

namespace Beast2.Server

open Loop Fields

variable {Req Url F D App App' : Type} [Container F]

/-- The workers at the head of the session loop that a worker can become: on its first connection,
after a turn, and on a new connection after a session that ended in any way. -/
inductive Reached (b : Boost Req Url F) (router : Router Req Url F D App)
    (w₀ : Worker Req Url F D App) : Worker Req Url F D App → Prop
  | first (reads : List (List Char)) : Reached b router w₀ (w₀.connect reads)
  | round {w w' : Worker Req Url F D App} : Reached b router w₀ w →
      w.turn b router = .next w' → Reached b router w₀ w'
  | again {w w' : Worker Req Url F D App} {e : Exit} (reads : List (List Char)) :
      Reached b router w₀ w → w.turn b router = .exit (e, w') →
      Reached b router w₀ ((w'.clear b).connect reads)

/-- A history of the worker whose route parameters are `rp₀`: the application, and the worker that
the history ends with. -/
structure History (b : Boost Req Url F) (rp₀ : RouteParams Req Url F D) where
  App : Type
  app : App
  router : Router Req Url F D App
  worker : Worker Req Url F D App
  reached : Reached b router ⟨rp₀, ⟨[], .header⟩, ⟨[], 0⟩, app, []⟩ worker

/-- The router is handed the same. -/
structure SameHanded (rp rp' : RouteParams Req Url F D) : Prop where
  req : rp.req = rp'.req
  url : rp.url = rp'.url
  routeData : rp.routeData = rp'.routeData
  sessionData : rp.sessionData = rp'.sessionData
  status : rp.res.status = rp'.res.status
  version : rp.res.version = rp'.res.version
  fields : ∀ n, findAll rp.res.fields n = findAll rp'.res.fields n

/-- Two responses have the same fields, Connection apart, and `set_keep_alive` makes the same of
their Connection fields for a request. -/
def LeftAlike (b : Boost Req Url F) (req : Req) (r r' : Response F) : Prop :=
  (∀ n, canon n ≠ canon connection → findAll r.fields n = findAll r'.fields n) ∧
    findAll (b.setKeepAlive (r.setStartLine 200 (b.version req))
        (b.keepAlive req)).fields connection
      = findAll (b.setKeepAlive (r'.setStartLine 200 (b.version req))
          (b.keepAlive req)).fields connection

variable {b : Boost Req Url F}

/-- A turn hands on what it sets up for the header it received. -/
theorem Worker.handed_eq {w : Worker Req Url F D App} {rp : RouteParams Req Url F D}
    (h : w.handed b = some rp) :
    ∃ req url, (w.receive b).1 = some req ∧ b.parseUriReference (b.target req) = some url ∧
      rp = ⟨req, url, [], [],
        b.setKeepAlive (w.rp.res.setStartLine 200 (b.version req)) (b.keepAlive req)⟩ := by
  obtain ⟨req, hrec, h⟩ := Option.bind_eq_some_iff.1 h
  obtain ⟨url, hurl, rfl⟩ := Option.map_eq_some_iff.1 h
  exact ⟨req, url, hrec, hurl, rfl⟩

/-- `set_keep_alive` on responses left alike. -/
theorem leftAlike_iff {req : Req} {r r' : Response F} :
    LeftAlike b req r r' ↔ ∀ n,
      findAll (b.setKeepAlive (r.setStartLine 200 (b.version req)) (b.keepAlive req)).fields n
        = findAll (b.setKeepAlive (r'.setStartLine 200 (b.version req))
            (b.keepAlive req)).fields n := by
  constructor
  · rintro ⟨hother, hconn⟩ n
    by_cases hn : canon n = canon connection
    · rw [Container.findAll_congr _ hn, Container.findAll_congr _ hn, hconn]
    · rw [b.setKeepAlive_fields _ _ _ hn, b.setKeepAlive_fields _ _ _ hn]
      exact hother n hn
  · intro h
    refine ⟨?_, h connection⟩
    intro n hn
    have hboth := h n
    rw [b.setKeepAlive_fields _ _ _ hn, b.setKeepAlive_fields _ _ _ hn] at hboth
    exact hboth

/-- After any two histories of a worker and on the same next header, the router is handed the same
exactly if the histories left the same fields in the response. -/
theorem sameHanded_iff (b : Boost Req Url F) (rp₀ : RouteParams Req Url F D)
    (h h' : History b rp₀) (req : Req) (hrec : (h.worker.receive b).1 = some req)
    (hrec' : (h'.worker.receive b).1 = some req) (rp rp' : RouteParams Req Url F D)
    (hrp : h.worker.handed b = some rp) (hrp' : h'.worker.handed b = some rp') :
    SameHanded rp rp' ↔ LeftAlike b req h.worker.rp.res h'.worker.rp.res := by
  obtain ⟨req₁, url₁, hr₁, hu₁, rfl⟩ := Worker.handed_eq hrp
  obtain ⟨req₂, url₂, hr₂, hu₂, rfl⟩ := Worker.handed_eq hrp'
  cases hrec.symm.trans hr₁
  cases hrec'.symm.trans hr₂
  cases hu₁.symm.trans hu₂
  rw [leftAlike_iff]
  constructor
  · exact fun hsame => hsame.fields
  · refine fun hfields => ⟨rfl, rfl, rfl, rfl, ?_, ?_, hfields⟩
    · rw [b.setKeepAlive_status, b.setKeepAlive_status]; rfl
    · rw [b.setKeepAlive_version, b.setKeepAlive_version]; rfl

/-! ## A handler that sets a cookie -/

/-- The Set-Cookie field. -/
def setCookie : List Char := "Set-Cookie".toList

/-- A router whose handler sets a cookie in every response. -/
def login : Router (List Char) (List Char) FieldList Unit Unit :=
  fun app _ _ rp =>
    .done ⟨app, { rp with res := { rp.res with
      fields := Container.set rp.res.fields setCookie "id=1".toList } }, false⟩

/-- A worker at its first request, which is for `/2`. -/
def freshHistory : History plain idle.rp where
  App := Unit
  app := ()
  router := answer
  worker := idle.connect [getHead '2']
  reached := .first _

/-- The worker after one request for `/1`, with a response with the given fields left. -/
def afterFirst (log : List (Event (List Char) FieldList)) (fields : FieldList) :
    Worker (List Char) (List Char) FieldList Unit Unit :=
  ⟨⟨getHead '1', "/1".toList, [], [], ⟨200, .http11, fields⟩⟩, ⟨[], .body (getHead '1') 0⟩,
    ⟨[getHead '2'], 19⟩, (), log⟩

/-- A worker at its second request, which is for `/2`, after one that was just answered. -/
def answerHistory : History plain idle.rp where
  App := Unit
  app := ()
  router := answer
  worker := afterFirst [.readHeader 0, .received (getHead '1'), .dispatched (getHead '1'),
    .responded ⟨200, .http11, []⟩] []
  reached := .round (.first [getHead '1', getHead '2']) rfl

/-- A worker at its second request, which is for `/2`, after one whose handler set a cookie. -/
def loginHistory : History plain idle.rp where
  App := Unit
  app := ()
  router := login
  worker := afterFirst [.readHeader 0, .received (getHead '1'), .dispatched (getHead '1')]
    [(setCookie, "id=1".toList)]
  reached := .round (.first [getHead '1', getHead '2']) rfl

/-- What the router is handed for `/2`, with the given response fields. -/
def handedSecond (fields : FieldList) : RouteParams (List Char) (List Char) FieldList Unit :=
  ⟨getHead '2', "/2".toList, [], [], ⟨200, .http11, fields⟩⟩

/-- A handler that leaves the fields alone leaves nothing for the next request. -/
theorem answerHistory_sameHanded :
    freshHistory.worker.handed plain = some (handedSecond []) ∧
      answerHistory.worker.handed plain = some (handedSecond []) ∧
      SameHanded (handedSecond []) (handedSecond []) :=
  ⟨rfl, rfl, (sameHanded_iff plain idle.rp freshHistory answerHistory (getHead '2') rfl rfl
    (handedSecond []) (handedSecond []) rfl rfl).2 ⟨fun _ _ => rfl, rfl⟩⟩

/-- The cookie that one response set is in the response of the next request too. -/
theorem loginHistory_not_sameHanded :
    (freshHistory.worker.receive plain).1 = some (getHead '2') ∧
      (loginHistory.worker.receive plain).1 = some (getHead '2') ∧
      freshHistory.worker.handed plain = some (handedSecond []) ∧
      loginHistory.worker.handed plain = some (handedSecond [(setCookie, "id=1".toList)]) ∧
      ¬ SameHanded (handedSecond []) (handedSecond [(setCookie, "id=1".toList)]) := by
  refine ⟨rfl, rfl, rfl, rfl, ?_⟩
  intro hsame
  have hfields := hsame.fields setCookie
  revert hfields
  decide

end Beast2.Server
