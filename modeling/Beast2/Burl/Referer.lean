import Beast2.Lib.Uri
import Beast2.Burl.Credentials

/-!
# The Referer of a redirect

With `--referer ';auto'` every request that follows a redirect names in its Referer field the URL
that redirected it. `perform_request` takes it from the variable `referer`, which is also the URL
that a Location is resolved against and whose origin decides whether the connection is kept
(`main.cpp:521-573`); it takes the userinfo out of that variable and then overwrites it.

So the userinfo is never sent and the other uses of the variable see the URL as it was requested.
But the fragment is not taken out: the Referer is the URL without its userinfo and its fragment
exactly if there was no fragment (`referer_iff`).
-/

namespace Beast2.Burl

open Loop Fields

/-! ## What a Referer should be -/

/-- A text is that of a URL without its userinfo and its fragment. -/
structure IsReferer (value : List Char) (url : Url) : Prop where
  text : value = (Uri.split url.buffer).withoutUserinfo.withoutFragment.text
  parts : Uri.split value = (Uri.split url.buffer).withoutUserinfo.withoutFragment

/-- `remove_userinfo`: the userinfo is taken out of the text of a URL. -/
def RemovesUserinfo {Ref : Type} (urls : Urls Ref) : Prop :=
  ∀ url, (urls.removeUserinfo url).buffer = (Uri.split url.buffer).withoutUserinfo.text

section
variable {Ref : Type} {urls : Urls Ref}

/-- The other parts are left as they are. -/
theorem RemovesUserinfo.split_buffer (h : RemovesUserinfo urls) (url : Url) :
    Uri.split (urls.removeUserinfo url).buffer = (Uri.split url.buffer).withoutUserinfo := by
  rw [h url, Uri.split_text_withoutUserinfo]

/-- A URL without its userinfo is its Referer exactly if it has no fragment. -/
theorem RemovesUserinfo.isReferer_iff (h : RemovesUserinfo urls) (url : Url) :
    IsReferer (urls.removeUserinfo url).buffer url ↔ (Uri.split url.buffer).fragment = none := by
  refine ⟨fun hreferer => ?_, fun hnone => ?_⟩
  · have hfragment := congrArg Uri.Parts.fragment hreferer.parts
    rw [h.split_buffer url] at hfragment
    exact hfragment
  · have hsame : (Uri.split url.buffer).withoutUserinfo.withoutFragment =
        (Uri.split url.buffer).withoutUserinfo := by
      rw [Uri.Parts.withoutFragment, ← hnone]
      rfl
    refine ⟨?_, ?_⟩
    · rw [h url, hsame]
    · rw [h.split_buffer url, hsame]

end

/-! ## The redirects of a transfer -/

section
variable {F Ref : Type} [Container F]

/-- The transfer at the first head of the loop. Reference: `main.cpp:490-496`. -/
def Transfer.start (oc : OperationConfig) (msg : Message) (url : Url) (jar : Option (List Cookie))
    (exchanges : List (Exchange F)) (request : Request F) : Transfer F :=
  ⟨request, msg, url, url, true, oc.maxredirs, jar, exchanges, [.connect url]⟩

/-- A transfer follows a redirect: at some head of the loop of `perform_request` a request is sent,
the response to it is a redirect, and the loop goes round to the next head. -/
def Redirects (urls : Urls Ref) (psl : Psl) (build : Build) (oc : OperationConfig)
    (expCookies : List Char) (msg : Message) (url : Url) (jar : Option (List Cookie))
    (exchanges : List (Exchange F)) (x : Exchange F) (s : Sent F) (t' : Transfer F) : Prop :=
  ∃ request t, createRequest build oc msg url = .ok request ∧
    Heads (Transfer.turn urls psl oc expCookies url) (.start oc msg url jar exchanges request) t ∧
    t.exchanges.head? = some x ∧ t.sent expCookies = some s ∧
    t.turn urls psl oc expCookies url = .next t'

variable {urls : Urls Ref} {psl : Psl} {oc : OperationConfig} {expCookies : List Char}
  {orgUrl : Url} {t t' : Transfer F} {x : Exchange F} {s : Sent F}

/-- What a response leads to: the Location is resolved against `referer`, the connection is kept by
its origin, and the request is edited for the new URL. -/
theorem Transfer.respond_next {res : Response F}
    (h : t.respond urls psl oc orgUrl x res = .next t') :
    ∃ t₁ url need, redirectUrl urls res t.referer = some url ∧
      t' = followRedirect urls oc orgUrl need t₁ url ∧ t₁.referer = t.referer ∧
      t₁.log = t.log ++
        (if canReuseConnection res t.referer url && x.drained then [] else [.connect url]) := by
  simp only [Transfer.respond] at h
  split at h
  · cases h
  split at h
  · cases h
  split at h
  · cases h
  split at h
  · cases h
  next url hurl =>
  split at h
  · cases h
  split at h
  · cases h
  cases h
  refine ⟨_, url, _, hurl, rfl, rfl, ?_⟩
  dsimp only
  split
  · rw [List.append_nil]
  · rfl

/-- What a turn that goes round does. -/
theorem Transfer.turn_next_cases (hx : t.exchanges.head? = some x)
    (hsent : t.sent expCookies = some s) (h : t.turn urls psl oc expCookies orgUrl = .next t') :
    ∃ res t₁ url need, x.response = some res ∧ redirectUrl urls res t.referer = some url ∧
      t' = followRedirect urls oc orgUrl need t₁ url ∧ t₁.referer = t.referer ∧
      t₁.log = t.log ++ [.send s] ++
        (if canReuseConnection res t.referer url && x.drained then [] else [.connect url]) := by
  obtain ⟨t₀, hsends, -, hturn⟩ :=
    @Transfer.turn_of_sent F Ref _ urls psl oc expCookies orgUrl t x s hx hsent
  rw [hturn] at h
  cases hres : x.response with
  | none =>
    rw [hres] at h
    cases h
  | some res =>
    rw [hres] at h
    obtain ⟨t₁, url, need, hurl, heq, hreferer, hlog⟩ := Transfer.respond_next h
    rw [hsends.referer] at hurl hreferer hlog
    rw [hsends.log] at hlog
    exact ⟨res, t₁, url, need, rfl, hurl, heq, hreferer, hlog⟩

/-- At the head of the loop `referer` is the URL of the request at hand. -/
theorem Transfer.referer_eq_url {t₀ : Transfer F} (h₀ : t₀.referer = t₀.url)
    (h : Heads (Transfer.turn urls psl oc expCookies orgUrl) t₀ t) : t.referer = t.url := by
  induction h with
  | refl => exact h₀
  | @tail t t' _ hgo _ =>
    rcases @Transfer.turn_cases F Ref _ urls psl oc expCookies orgUrl t with
      ⟨e, t', heq, -⟩ | ⟨s, res, t₀, t₁, url, heq, -⟩
    · cases Eq.trans (Eq.symm hgo) heq
    · cases Eq.trans (Eq.symm hgo) heq
      rfl

/-- With `';auto'` the Referer of the next request is made of `referer`. -/
theorem findAll_referer_followRedirect (hauto : oc.autoreferer = true) (urls : Urls Ref)
    (orgUrl : Url) (need : Bool) (t : Transfer F) (url : Url) :
    findAll (followRedirect urls oc orgUrl need t url).request.fields Field.referer =
      [(urls.removeUserinfo t.referer).buffer] := by
  simp only [followRedirect, hauto, if_true, Request.set]
  rw [findAll_set_ne (by decide), findAll_set_self]

/-- The request of a turn has the Referer of the transfer. -/
theorem Transfer.findAll_referer_sent (h : t.sent expCookies = some s) :
    findAll s.request.fields Field.referer = findAll t.request.fields Field.referer := by
  obtain ⟨cookie, -, -, hrequest⟩ := Transfer.sent_eq h
  rw [hrequest, findAll_setCookieField_ne (by decide)]

/-- What a redirect does to the next request and with the URL of the last one. -/
structure RefersTo (urls : Urls Ref) (expCookies : List Char) (x : Exchange F) (s : Sent F)
    (t' : Transfer F) (res : Response F) (value : List Char) : Prop where
  response : x.response = some res
  referer : findAll t'.request.fields Field.referer = [value]
  sent : ∀ s', t'.sent expCookies = some s' →
    s'.url = t'.url ∧ findAll s'.request.fields Field.referer = [value]
  parts : Uri.split value = (Uri.split s.url.buffer).withoutUserinfo
  base : redirectUrl urls res s.url = some t'.url
  reuse : ∃ log, t'.log = log ++ [.send s] ++
    (if canReuseConnection res s.url t'.url && x.drained then [] else [.connect t'.url])

/-- With `--referer ';auto'`, whatever the URLs and the responses are: each time a redirect is
followed, the next request gets one Referer field, which is the URL of the request that was sent,
without its userinfo and its fragment, exactly if that URL has no fragment; and the Location is
resolved against that URL, and the connection kept by its origin, as they were. -/
theorem referer_iff (urls : Urls Ref) (hurls : RemovesUserinfo urls) (psl : Psl) (build : Build)
    (oc : OperationConfig) (hauto : oc.autoreferer = true) (expCookies : List Char) (msg : Message)
    (url : Url) (jar : Option (List Cookie)) (exchanges : List (Exchange F)) (x : Exchange F)
    (s : Sent F) (t' : Transfer F)
    (h : Redirects urls psl build oc expCookies msg url jar exchanges x s t') :
    ∃ res value, RefersTo urls expCookies x s t' res value ∧
      (IsReferer value s.url ↔ (Uri.split s.url.buffer).fragment = none) := by
  obtain ⟨request, t, -, hheads, hx, hsent, hturn⟩ := h
  obtain ⟨res, t₁, url', need, hres, hurl', rfl, hreferer, hlog⟩ :=
    Transfer.turn_next_cases hx hsent hturn
  obtain ⟨-, hurl, -⟩ := Transfer.sent_eq hsent
  -- nothing has been taken out of `referer` when the Location and the origin are looked at
  have hbase : t.referer = s.url := (Transfer.referer_eq_url rfl hheads).trans hurl.symm
  rw [hbase] at hurl' hreferer hlog
  have hvalue := findAll_referer_followRedirect hauto urls url need t₁ url'
  rw [hreferer] at hvalue
  refine ⟨res, _, ⟨hres, hvalue, fun s' hs' => ?_, hurls.split_buffer s.url, hurl', t.log, hlog⟩,
    hurls.isReferer_iff s.url⟩
  obtain ⟨-, hnext, -⟩ := Transfer.sent_eq hs'
  exact ⟨hnext, (Transfer.findAll_referer_sent hs').trans hvalue⟩

end

/-! ## A userinfo and a fragment -/

/-- Boost.URL on the texts of `home` and `away`, and as it takes out a userinfo. -/
def refererUrls : Urls Url :=
  { twoSites with
    removeUserinfo := fun url =>
      let p := (Uri.split url.buffer).withoutUserinfo
      { url with
        userinfo := none
        encodedOrigin := { p with path := [], query := none, fragment := none }.text
        buffer := p.text } }

/-- `burl -L -e ';auto'`. -/
def autoReferer : OperationConfig := { autoreferer := true, followlocation := true }

/-- The URL `https://me:pw@a.org/`. -/
def signedIn : Url :=
  { httpsRoot "a.org".toList with
    userinfo := some "me:pw".toList
    encodedOrigin := "https://me:pw@a.org".toList
    buffer := "https://me:pw@a.org/".toList }

/-- The URL `https://a.org/#top`. -/
def atTop : Url := { httpsRoot "a.org".toList with buffer := "https://a.org/#top".toList }

/-- A transfer from a URL that is sent to another site follows the redirect. -/
def RedirectsAway (url : Url) (s : Sent FieldList) (t' : Transfer FieldList) : Prop :=
  Redirects refererUrls none ⟨true, true⟩ autoReferer [] none url none [hop away] (hop away) s t'

/-- The userinfo is not sent. -/
theorem signedIn_referer :
    RemovesUserinfo refererUrls ∧ autoReferer.autoreferer = true ∧
      ∃ s t', RedirectsAway signedIn s t' ∧ s.url = signedIn ∧
        ∃ value, findAll t'.request.fields Field.referer = [value] ∧ IsReferer value signedIn := by
  have hurls : RemovesUserinfo refererUrls := fun _ => rfl
  refine ⟨hurls, rfl, ?_⟩
  obtain ⟨s, t', h, hs⟩ : ∃ s t', RedirectsAway signedIn s t' ∧ s.url = signedIn :=
    ⟨_, _, ⟨_, _, rfl, .refl, rfl, rfl, rfl⟩, rfl⟩
  obtain ⟨res, value, hrefers, hiff⟩ :=
    referer_iff refererUrls hurls none ⟨true, true⟩ autoReferer rfl [] none signedIn none [hop away]
      (hop away) s t' h
  rw [hs] at hiff
  exact ⟨s, t', h, hs, value, hrefers.referer, hiff.2 (by decide +kernel)⟩

/-- The fragment is. -/
theorem atTop_fragment_sent :
    ¬ ∀ s t', RedirectsAway atTop s t' →
      ∃ value, findAll t'.request.fields Field.referer = [value] ∧ IsReferer value s.url := by
  intro h
  obtain ⟨value, hvalue, hreferer⟩ := h _ _ ⟨_, _, rfl, .refl, rfl, rfl, rfl⟩
  cases Eq.trans (Eq.symm hvalue) (by decide +kernel : _ = ["https://a.org/#top".toList])
  exact absurd hreferer.text (by decide +kernel)

end Beast2.Burl
