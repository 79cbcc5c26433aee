import Beast2.Burl.CookieJar
import Beast2.Burl.SharedJar

/-!
# The cookies of parallel transfers

What one transfer gets in a Set-Cookie field, another may send. Before the transfers, `co_main`
reads the files of `--cookie` and drops the session cookies for `--junk-session-cookies`
(`main.cpp:780-798`). After that only the halves of turns change the jar. So whatever the order in
which the transfers take turns, the jar's part of a Cookie field has the cookies that the jar has at
that moment for the URL of the request, and each of them is on a line of a file or was set by a
response that some transfer had got before; `make_field` never throws (`parallel_cookies`).
-/

namespace Beast2.Burl

open Machine Fields

/-! ## The jar at the start -/

/-- The files of `--cookie`, by their contents, one after the other: none if a reader throws.
Reference: `main.cpp:791-798`. -/
def loadCookies (cookiesession : Bool) (files : List (List Char)) : Option (List Cookie) := do
  let jar ← files.foldlM (fun jar text =>
    match readJar jar text with
    | (jar, none) => some jar
    | (_, some _) => none) []
  some (if cookiesession then clearSessionCookies jar else jar)

/-- A cookie is on a line of a file. -/
def OnLine (files : List (List Char)) (c : Cookie) : Prop :=
  ∃ text ∈ files, ∃ line ∈ getlines text, skipped line = false ∧ parseNetscapeCookie line = .ok c

theorem onLine_of_foldlM {files : List (List Char)} {jar jar' : List Cookie}
    (h : files.foldlM (fun jar text =>
      match readJar jar text with
      | (jar, none) => some jar
      | (_, some _) => none) jar = some jar') : ∀ c ∈ jar', c ∈ jar ∨ OnLine files c := by
  induction files generalizing jar with
  | nil =>
    cases h
    exact fun c hc => .inl hc
  | cons text files ih =>
    rw [List.foldlM_cons] at h
    obtain ⟨jar₁, hread, h⟩ := Option.bind_eq_some_iff.1 h
    intro c hc
    rcases ih h c hc with hc | ⟨t, ht, hline⟩
    · have hc' : c ∈ (readJar jar text).1 := by
        split at hread
        · next heq =>
          cases hread
          rw [heq]
          exact hc
        · cases hread
      rcases mem_readLoop hc' with hc' | hline
      · exact .inl hc'
      · exact .inr ⟨text, List.mem_cons_self, hline⟩
    · exact .inr ⟨t, List.mem_cons_of_mem _ ht, hline⟩

/-- A cookie is from a file: it is on a line of one, and with `--junk-session-cookies` it is no
session cookie. -/
structure FromFile (cookiesession : Bool) (files : List (List Char)) (c : Cookie) : Prop where
  line : OnLine files c
  session : cookiesession = true → c.expires.isSome = true

/-- At the start every cookie is from a file. -/
theorem fromFile_of_loadCookies {cookiesession : Bool} {files : List (List Char)}
    {jar : List Cookie} (h : loadCookies cookiesession files = some jar) :
    ∀ c ∈ jar, FromFile cookiesession files c := by
  obtain ⟨jar₁, hfiles, h⟩ := Option.bind_eq_some_iff.1 h
  have hline : ∀ c ∈ jar₁, OnLine files c := by
    intro c hc
    rcases onLine_of_foldlM hfiles c hc with hc | hc
    · exact absurd hc List.not_mem_nil
    · exact hc
  cases h
  intro c hc
  cases cookiesession with
  | false => exact ⟨hline c hc, fun h => by cases h⟩
  | true =>
    have hkept : c ∈ jar₁ ∧ c.expires.isSome = true := List.mem_filter.1 hc
    exact ⟨hline c hkept.1, fun _ => hkept.2⟩

/-! ## What responses set -/

section
variable {F Ref : Type} [Container F]

/-- The requests of a transfer whose responses it has got. -/
def Running.received (r : Running F) : List (Sent F) :=
  match r.stage with
  | .waiting _ => (sends r.transfer.log).dropLast
  | _ => sends r.transfer.log

/-- The response to a request sets a cookie, and it is the one that `add` stores. -/
def Sent.Sets (psl : Psl) (q : Sent F) (c : Cookie) : Prop :=
  ∃ res, q.response = some res ∧ ∃ sv ∈ findAll res.fields Field.setCookie, ∃ clock c₀,
    parseCookie clock sv = .ok c₀ ∧ toStore psl q.url c₀ = some c

/-- A transfer has got a cookie. -/
def Running.Got (psl : Psl) (r : Running F) (c : Cookie) : Prop := ∃ q ∈ r.received, q.Sets psl c

/-- Where a cookie of the jar is from: it was there at the start, or a transfer has got it. -/
def Shared.Source (psl : Psl) (start : Cookie → Prop) (s : Shared F) (c : Cookie) : Prop :=
  start c ∨ ∃ r ∈ s.running, r.Got psl c

/-- What is true of a transfer besides: its request is a trusted one for the origin of its first
URL, or for any with `--location-trusted`; and while it waits, its last request is the one it waits
for. -/
structure Running.Placed (r : Running F) : Prop where
  trusted : r.stage = .head →
    r.transfer.trusted = (r.orgUrl.encodedOrigin == r.transfer.url.encodedOrigin ||
      r.oc.unrestrictedAuth)
  waiting : ∀ x, r.stage = .waiting x → ∃ q, sends r.transfer.log = r.received ++ [q] ∧
    q.url = r.transfer.url ∧ q.response = x.response

/-- The states of a run, as far as cookies go. -/
structure Shared.Cookies (psl : Psl) (start : Cookie → Prop) (s : Shared F) : Prop where
  jar : ∃ jar, s.jar = some jar ∧ ∀ c ∈ jar, Complete c ∧ s.Source psl start c
  running : ∀ r ∈ s.running, r.Placed

variable {urls : Urls Ref} {psl : Psl} {build : Build} {expCookies : List Char}
  {start : Cookie → Prop} {x : Exchange F} {t : Transfer F} {r r' : Running F}
  {s s' : Shared F} {c : Cookie}

omit [Container F] in
/-- A cookie after `extract_cookies` was in the jar or is one of a field. -/
theorem mem_extractCookiesLoop {url : Url} {svs : List (List Char)} {jar : List Cookie} {k : Nat}
    (h : c ∈ (extractCookiesLoop psl x url jar k svs).1) :
    c ∈ jar ∨ ∃ sv ∈ svs, ∃ clock c₀, parseCookie clock sv = .ok c₀ ∧
      toStore psl url c₀ = some c := by
  induction svs generalizing jar k with
  | nil => exact .inl h
  | cons sv svs ih =>
    rw [extractCookiesLoop] at h
    split at h
    · exact .inl h
    · next c₀ hparse =>
      rcases ih h with hc | ⟨sv', hsv', hset⟩
      · rcases mem_add hc with hc | ⟨hstore, -⟩
        · exact .inl hc
        · exact .inr ⟨sv, List.mem_cons_self, x.clock k, c₀, hparse, hstore⟩
      · exact .inr ⟨sv', List.mem_cons_of_mem _ hsv', hset⟩

/-- A cookie after the second half of a turn was in the jar or is one of the response. -/
theorem mem_extract {q : Sent F} (hresponse : q.response = x.response) {jar jar' : List Cookie}
    (hjar' : x.extract psl q.url (some jar) = some jar') (hc : c ∈ jar') :
    c ∈ jar ∨ q.Sets psl c := by
  unfold Exchange.extract at hjar'
  cases hres : x.response with
  | none =>
    rw [hres] at hjar'
    cases hjar'
    exact .inl hc
  | some res =>
    rw [hres] at hjar'
    cases hjar'
    rcases mem_extractCookiesLoop hc with hc | ⟨sv, hsv, clock, c₀, hparse, hstore⟩
    · exact .inl hc
    · exact .inr ⟨res, hresponse.trans hres, sv, hsv, clock, c₀, hparse, hstore⟩

theorem Sent.Sets.complete {q : Sent F} (h : q.Sets psl c) : Complete c := by
  obtain ⟨_, _, _, _, _, _, _, hstore⟩ := h
  exact complete_of_toStore hstore

/-! ## What a half of a turn keeps -/

/-- The first half of a turn on a jar of cookies that have a domain and a path: the request is sent
with the cookies that the jar has for its URL. -/
theorem Transfer.send_complete {jar : List Cookie} (hjar : t.jar = some jar)
    (hcomplete : ∀ c ∈ jar, Complete c) :
    ∃ q, t.send expCookies x = (.waiting x, { t with
        request := q.request
        jar := some (jar.filter fun c => !expired x.now c)
        log := t.log ++ [.send q] }) ∧
      q.url = t.url ∧ q.now = x.now ∧ q.response = x.response ∧
      findAll q.request.fields Field.cookie =
        cookieValues ((emitted t.url x.now jar).flatMap cookiePair ++
          if t.trusted then expCookies else []) := by
  have hset : setCookies expCookies t x.now = some (setCookieField t.request
      (if t.trusted then (emitted t.url x.now jar).flatMap cookiePair ++ expCookies
        else (emitted t.url x.now jar).flatMap cookiePair),
      some (jar.filter fun c => !expired x.now c)) := by
    simp [setCookies, jarField, hjar, makeField_eq hcomplete]
  rcases Transfer.send_cases expCookies x t with ⟨request, jar', hsome, hsend⟩ | ⟨hnone, -⟩
  · obtain ⟨hrequest, hfiltered⟩ := Prod.mk.inj (Option.some.inj (hset.symm.trans hsome))
    rw [← hfiltered] at hsend
    refine ⟨⟨t.url, request, t.msg, t.jar, x.now, _, x.response⟩, hsend, rfl, rfl, rfl, ?_⟩
    show findAll request.fields Field.cookie = _
    rw [← hrequest, findAll_cookie_setCookieField]
    cases t.trusted with
    | false => exact congrArg cookieValues (List.append_nil _).symm
    | true => rfl
  · cases hset.symm.trans hnone

theorem Running.Got.mono (h : r.Got psl c) (hr : r.received ⊆ r'.received) : r'.Got psl c := by
  obtain ⟨q, hq, hsets⟩ := h
  exact ⟨q, hr hq, hsets⟩

omit [Container F] in
/-- A member of a list stays, or is the one that is replaced. -/
theorem eq_or_mem_set {l : List (Running F)} {i : Nat} {r r₁ : Running F} (hr : l[i]? = some r)
    (h : r₁ ∈ l) (r' : Running F) : r₁ = r ∨ r₁ ∈ l.set i r' := by
  obtain ⟨j, hj, rfl⟩ := List.getElem_of_mem h
  by_cases hij : i = j
  · subst hij
    left
    rw [List.getElem?_eq_getElem hj] at hr
    exact Option.some.inj hr
  · right
    refine List.mem_of_getElem? (i := j) ?_
    rw [List.getElem?_set_ne hij, List.getElem?_eq_getElem hj]

/-- A cookie has its source still when one transfer has done a half of a turn. -/
theorem Shared.Source.set (h : s.Source psl start c) {i : Nat} (hr : s.running[i]? = some r)
    (hreceived : r.received ⊆ r'.received) (jar : Option (List Cookie)) :
    Shared.Source psl start ⟨jar, s.running.set i r'⟩ c := by
  rcases h with hstart | ⟨r₁, hr₁, hgot⟩
  · exact .inl hstart
  · rcases eq_or_mem_set hr hr₁ r' with rfl | hmem
    · refine .inr ⟨r', ?_, hgot.mono hreceived⟩
      exact List.mem_set (List.getElem?_eq_some_iff.1 hr).1 r'
    · exact .inr ⟨r₁, hmem, hgot⟩

/-- A transfer that comes back to the head of its loop follows a redirect. -/
theorem Transfer.receive_head {oc : OperationConfig} {orgUrl : Url}
    (h : (t.receive urls psl oc orgUrl x).1 = .head) :
    ∃ need t₁ url,
      (t.receive urls psl oc orgUrl x).2 = followRedirect urls oc orgUrl need t₁ url := by
  cases hres : x.response with
  | none =>
    rw [receive_none hres] at h
    cases h
  | some res =>
    rcases @Transfer.respond_cases F Ref _ urls psl oc orgUrl t x.alone res with
      ⟨e, u, heq, -⟩ | ⟨t₁, url, heq, -⟩
    · rw [receive_exit hres heq] at h
      cases h
    · rw [receive_next hres heq]
      exact ⟨_, t₁, url, rfl⟩

/-- The first request is for the origin of the first URL. -/
theorem Running.placed_start {oc : OperationConfig} {msg : Message} {url : Url}
    {jar : Option (List Cookie)} {xs : List (Exchange F)}
    (h : Running.start build oc msg url jar xs = some r) : r.Placed := by
  unfold Running.start at h
  cases hrequest : createRequest (F := F) build oc msg url with
  | error what => simp [hrequest] at h
  | ok request =>
    simp only [hrequest, Option.some.injEq] at h
    rw [← h]
    refine ⟨fun _ => ?_, fun x hx => (by cases hx)⟩
    simp

/-! ## Runs -/

/-- The first half of a turn. -/
theorem Shared.Cookies.send (h : s.Cookies psl start) {i : Nat} (hr : s.running[i]? = some r)
    (hs : r.half urls psl expCookies s.jar .send = some r') :
    Shared.Cookies psl start ⟨r'.transfer.jar, s.running.set i r'⟩ := by
  obtain ⟨hstage, x, exchanges, -, rfl⟩ := Running.half_send hs
  obtain ⟨jar, hjar, hcookies⟩ := h.jar
  have hplaced := h.running r (List.mem_of_getElem? hr)
  obtain ⟨q, hsend, hurl, -, hresponse, -⟩ :=
    Transfer.send_complete (x := x) (t := { r.transfer with jar := s.jar, exchanges }) hjar
      fun c hc => (hcookies c hc).1
  rw [hsend]
  have hreceived : r.received = sends r.transfer.log := by
    rw [Running.received, hstage]
  refine ⟨⟨_, rfl, fun c hc => ?_⟩, fun r₁ hr₁ => ?_⟩
  · obtain ⟨hcomplete, hsource⟩ := hcookies c (List.mem_of_mem_filter hc)
    refine ⟨hcomplete, hsource.set hr ?_ _⟩
    rw [hreceived]
    simp [Running.received]
  · rcases List.mem_or_eq_of_mem_set hr₁ with hr₁ | rfl
    · exact h.running r₁ hr₁
    · refine ⟨fun hhead => (by cases hhead), fun x' hx' => ?_⟩
      cases hx'
      exact ⟨q, by simp [Running.received], hurl, hresponse⟩

/-- The second half of a turn. -/
theorem Shared.Cookies.receive (h : s.Cookies psl start) {i : Nat} (hr : s.running[i]? = some r)
    (hs : r.half urls psl expCookies s.jar .receive = some r') :
    Shared.Cookies psl start ⟨r'.transfer.jar, s.running.set i r'⟩ := by
  obtain ⟨x, hstage, hr'⟩ := Running.half_receive hs
  obtain ⟨jar, hjar, hcookies⟩ := h.jar
  have hplaced := h.running r (List.mem_of_getElem? hr)
  obtain ⟨q, hlog, hurl, hresponse⟩ := hplaced.waiting x hstage
  obtain ⟨hextract, hsends, -, hwaits⟩ :=
    @Transfer.receive_keeps F Ref _ urls psl r.oc r.orgUrl x { r.transfer with jar := s.jar }
  have hnot : ∀ x', r'.stage ≠ .waiting x' := hr' ▸ hwaits
  have hreceived : r'.received = r.received ++ [q] := by
    have hall : r'.received = sends r'.transfer.log := by
      unfold Running.received
      split
      · next x' hx' => exact absurd hx' (hnot x')
      · rfl
    rw [hall, ← hlog, hr']
    exact hsends
  have hnew : r'.transfer.jar = x.extract psl q.url (some jar) := by
    rw [hr', hurl, ← hjar]
    exact hextract
  obtain ⟨jar', hjar'⟩ : ∃ jar', r'.transfer.jar = some jar' := by
    refine Option.isSome_iff_exists.1 ?_
    rw [hnew, Exchange.isSome_extract]
    rfl
  refine ⟨⟨jar', hjar', fun c hc => ?_⟩, fun r₁ hr₁ => ?_⟩
  · rcases mem_extract hresponse (hnew.symm.trans hjar') hc with hc | hsets
    · obtain ⟨hcomplete, hsource⟩ := hcookies c hc
      refine ⟨hcomplete, hsource.set hr ?_ _⟩
      rw [hreceived]
      exact List.subset_append_left _ _
    · refine ⟨hsets.complete, .inr ⟨r', ?_, q, ?_, hsets⟩⟩
      · exact List.mem_set (List.getElem?_eq_some_iff.1 hr).1 r'
      · rw [hreceived]
        exact List.mem_append_right _ List.mem_cons_self
  · rcases List.mem_or_eq_of_mem_set hr₁ with hr₁ | rfl
    · exact h.running r₁ hr₁
    · refine ⟨fun hhead => ?_, fun x' hx' => absurd hx' (hnot x')⟩
      rw [hr'] at hhead ⊢
      obtain ⟨need, t, url, heq⟩ := Transfer.receive_head hhead
      rw [heq]
      rfl

theorem Shared.Cookies.step (h : s.Cookies psl start) {e : SharedEvent F}
    (hs : s.step urls psl build expCookies e = some s') : s'.Cookies psl start := by
  cases e with
  | start oc msg url xs =>
    obtain ⟨r, hr, hs⟩ := Option.bind_eq_some_iff.1 hs
    cases hs
    obtain ⟨jar, hjar, hcookies⟩ := h.jar
    refine ⟨⟨jar, hjar, fun c hc => ?_⟩, fun r' hr' => ?_⟩
    · obtain ⟨hcomplete, hsource⟩ := hcookies c hc
      refine ⟨hcomplete, hsource.imp_right ?_⟩
      rintro ⟨r', hr', hgot⟩
      exact ⟨r', List.mem_append_left _ hr', hgot⟩
    · rcases List.mem_append.1 hr' with hr' | hr'
      · exact h.running r' hr'
      · cases List.mem_singleton.1 hr'
        exact Running.placed_start hr
  | half i half =>
    obtain ⟨r, hr, hs⟩ := Option.bind_eq_some_iff.1 hs
    obtain ⟨r', hhalf, hs⟩ := Option.bind_eq_some_iff.1 hs
    cases hs
    cases half with
    | send => exact h.send hr hhalf
    | receive => exact h.receive hr hhalf

/-- A cookie fits a request: its domain and path match, it is not expired, and it is not a Secure
one for an insecure URL. -/
structure Cookie.Fits (c : Cookie) (u : Url) (now : Int) : Prop where
  domain : ∃ d, c.domain = some d ∧ domainMatch u.host d c.tailmatch = true
  path : ∃ p, c.path = some p ∧ pathMatch u.encodedPath p = true
  secure : c.secure = true → u.schemeId = .https
  fresh : expired now c = false

/-- The response to another request has set a cookie: without a Domain attribute it was for the same
host, and a Secure one came over `https`. -/
structure Sent.SetsFor (psl : Psl) (q : Sent F) (u : Url) (c : Cookie) : Prop where
  sets : q.Sets psl c
  host : c.tailmatch = false → u.host = q.url.host
  secure : c.secure = true → q.url.schemeId = .https

omit [Container F] in
/-- The cookies that a jar has for a URL fit. -/
theorem fits_of_emitted {u : Url} {now : Int} {jar : List Cookie}
    (hjar : ∀ c ∈ jar, Complete c) (hc : c ∈ emitted u now jar) : c ∈ jar ∧ c.Fits u now := by
  have hmem := List.mem_of_mem_filter hc
  have hfilter := List.of_mem_filter hc
  obtain ⟨hd, hp⟩ := hjar c hmem
  obtain ⟨d, hd⟩ := Option.isSome_iff_exists.1 hd
  obtain ⟨p, hp⟩ := Option.isSome_iff_exists.1 hp
  simp only [hd, hp, Option.getD_some, Bool.and_eq_true, Bool.not_eq_true', Bool.or_eq_true,
    beq_iff_eq] at hfilter
  obtain ⟨⟨⟨hfresh, hdomain⟩, hpath⟩, hsecure⟩ := hfilter
  refine ⟨hmem, ⟨d, hd, hdomain⟩, ⟨p, hp, hpath⟩, fun hc => ?_, hfresh⟩
  rcases hsecure with hnot | hhttps
  · cases hc.symm.trans hnot
  · exact hhttps

/-- What a cookie that fits a request was set for. -/
theorem Sent.Sets.setsFor {q : Sent F} {u : Url} {now : Int} (h : q.Sets psl c)
    (hfits : c.Fits u now) : q.SetsFor psl u c := by
  obtain ⟨res, hres, sv, hsv, clock, c₀, hparse, hstore⟩ := h
  obtain ⟨-, hsecure, rfl⟩ := toStore_eq_some_iff.1 hstore
  refine ⟨⟨res, hres, sv, hsv, clock, c₀, hparse, hstore⟩, fun htail => ?_, hsecure⟩
  have hnone : c₀.domain = none := by
    cases hd : c₀.domain with
    | none => rfl
    | some d => simp [stored, hd] at htail
  obtain ⟨d, hd, hmatch⟩ := hfits.domain
  rw [htail] at hmatch
  simp only [stored, hnone, Option.getD_none, Option.some.injEq] at hd
  rw [hd]
  simpa [domainMatch] using hmatch

/-- The states of a run that begins with the cookies of the files. -/
theorem Shared.cookies_run {cookiesession : Bool} {files : List (List Char)} {jar₀ : List Cookie}
    (hload : loadCookies cookiesession files = some jar₀) {es : List (SharedEvent F)}
    (h : Machine.run (Shared.step urls psl build expCookies) ⟨some jar₀, []⟩ es = some s) :
    s.Cookies psl (FromFile cookiesession files) := by
  have hloaded := fromFile_of_loadCookies hload
  have hstart : Shared.Cookies psl (FromFile cookiesession files) (⟨some jar₀, []⟩ : Shared F) := by
    refine ⟨⟨jar₀, rfl, fun c hc => ⟨?_, .inl (hloaded c hc)⟩⟩, fun r hr => ?_⟩
    · obtain ⟨_, -, _, -, -, hparse⟩ := (hloaded c hc).line
      exact complete_of_parseNetscapeCookie hparse
    · cases hr
  exact run_inv (fun _ _ _ hP _ hs => Shared.Cookies.step hP hs) hstart h

/-- In a run, a step that sends a request: it is sent on the jar of that moment. -/
theorem Shared.Cookies.sends (hkept : s.Cookies psl start) {i : Nat}
    (hs : s.step urls psl build expCookies (.half i .send) = some s') :
    ∃ r r' q jar, s.running[i]? = some r ∧ s'.running[i]? = some r' ∧
      r'.transfer.log = r.transfer.log ++ [.send q] ∧ s.jar = some jar ∧
      findAll q.request.fields Field.cookie =
        cookieValues ((emitted q.url q.now jar).flatMap cookiePair ++
          if r'.orgUrl.encodedOrigin = q.url.encodedOrigin ∨ r'.oc.unrestrictedAuth = true
          then expCookies else []) := by
  obtain ⟨r, hr, hs⟩ := Option.bind_eq_some_iff.1 hs
  obtain ⟨r', hhalf, hs⟩ := Option.bind_eq_some_iff.1 hs
  obtain ⟨hstage, x, exchanges, -, rfl⟩ := Running.half_send hhalf
  obtain ⟨jar, hjar, hcookies⟩ := hkept.jar
  have hcomplete : ∀ c ∈ jar, Complete c := fun c hc => (hcookies c hc).1
  obtain ⟨q, hsend, hurl, hnow, -, hfield⟩ :=
    Transfer.send_complete (x := x) (t := { r.transfer with jar := s.jar, exchanges }) hjar
      hcomplete
  rw [hsend] at hs
  cases hs
  have htrusted := (hkept.running r (List.mem_of_getElem? hr)).trusted hstage
  refine ⟨r, _, q, jar, hr, List.getElem?_set_self (List.getElem?_eq_some_iff.1 hr).1, rfl, hjar,
    ?_⟩
  rw [hfield, hurl, hnow]
  simp [htrusted]

/-- However transfers that share a jar take turns: when one sends a request, its Cookie field has
the cookies that the jar has at that moment for the URL, and the ones of the command line if the URL
is of the origin of its first URL or `--location-trusted` is given. Each cookie of the jar that is
sent fits the request, and is from a file, or was set by the response to an earlier request of some
transfer, to the same host if the cookie has no domain, and over `https` if it is Secure. -/
theorem parallel_cookies (urls : Urls Ref) (psl : Psl) (build : Build) (expCookies : List Char)
    (cookiesession : Bool) (files : List (List Char)) (jar₀ : List Cookie)
    (hload : loadCookies cookiesession files = some jar₀) (es : List (SharedEvent F))
    (h : Machine.run (Shared.step urls psl build expCookies) ⟨some jar₀, []⟩ es = some s) (i : Nat)
    (hs : s.step urls psl build expCookies (.half i .send) = some s') :
    ∃ r r' q jar, s.running[i]? = some r ∧ s'.running[i]? = some r' ∧
      r'.transfer.log = r.transfer.log ++ [.send q] ∧ s.jar = some jar ∧
      findAll q.request.fields Field.cookie =
        cookieValues ((emitted q.url q.now jar).flatMap cookiePair ++
          if r'.orgUrl.encodedOrigin = q.url.encodedOrigin ∨ r'.oc.unrestrictedAuth = true
          then expCookies else []) ∧
      ∀ c ∈ emitted q.url q.now jar, c.Fits q.url q.now ∧
        (FromFile cookiesession files c ∨
          ∃ r₁ ∈ s.running, ∃ q₁ ∈ r₁.received, q₁.SetsFor psl q.url c) := by
  have hkept := Shared.cookies_run hload h
  obtain ⟨r, r', q, jar, hr, hr', hlog, hjar, hfield⟩ := hkept.sends hs
  obtain ⟨jar', hjar', hcookies⟩ := hkept.jar
  cases hjar.symm.trans hjar'
  refine ⟨r, r', q, jar, hr, hr', hlog, hjar, hfield, fun c hc => ?_⟩
  obtain ⟨hmem, hfits⟩ := fits_of_emitted (fun c hc => (hcookies c hc).1) hc
  refine ⟨hfits, ?_⟩
  rcases (hcookies c hmem).2 with hfile | ⟨r₁, hr₁, q₁, hq₁, hsets⟩
  · exact .inl hfile
  · exact .inr ⟨r₁, hr₁, q₁, hq₁, hsets.setsFor hfits⟩

end

/-- Before the second transfer sends its last request: the first one has got a cookie there. -/
theorem twoTransfers_cookies :
    ∃ s s', Machine.run (Shared.step twoSites none ⟨true, true⟩ "id=1".toList) ⟨some [], []⟩
        twoTransfers.dropLast = some s ∧
      s.step twoSites none ⟨true, true⟩ "id=1".toList (.half 1 .send) = some s' ∧
      ∃ r r' q jar, s.running[1]? = some r ∧ s'.running[1]? = some r' ∧
        r'.transfer.log = r.transfer.log ++ [.send q] ∧ s.jar = some jar ∧
        findAll q.request.fields Field.cookie =
          cookieValues ((emitted q.url q.now jar).flatMap cookiePair ++
            if r'.orgUrl.encodedOrigin = q.url.encodedOrigin ∨ r'.oc.unrestrictedAuth = true
            then "id=1".toList else []) ∧
        ∀ c ∈ emitted q.url q.now jar, c.Fits q.url q.now ∧
          (FromFile false [] c ∨
            ∃ r₁ ∈ s.running, ∃ q₁ ∈ r₁.received, q₁.SetsFor none q.url c) := by
  have hrun : ((Machine.run (Shared.step twoSites none ⟨true, true⟩ "id=1".toList) ⟨some [], []⟩
      twoTransfers.dropLast).bind fun s =>
        s.step twoSites none ⟨true, true⟩ "id=1".toList (.half 1 .send)).isSome = true := by
    decide +kernel
  obtain ⟨s', hs'⟩ := Option.isSome_iff_exists.1 hrun
  obtain ⟨s, hs, hsend⟩ := Option.bind_eq_some_iff.1 hs'
  exact ⟨s, s', hs, hsend, parallel_cookies twoSites none ⟨true, true⟩ "id=1".toList false [] [] rfl
    twoTransfers.dropLast hs 1 hsend⟩

end Beast2.Burl
