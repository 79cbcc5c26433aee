import Beast2.Burl.Perform

/-!
# Credentials stay with the origin they were given for

Without `--location-trusted` a transfer sends its Authorization field and the cookies given on the
command line only to the origin of its initial URL, and an Authorization field that was dropped on
the way does not come back (`credentials_confined`).

The flag `trusted` is computed when a redirect is followed and used for the cookies in the next
turn. The invariant `Confined` ties it to the URL it was computed for: at the head of the loop a
trusted transfer is for the original origin, and the request of any other has no Authorization
field.
-/

namespace Beast2.Burl

open Loop Fields

section
variable {F Ref : Type} [Container F]

/-- The values of the Cookie field for a text. -/
def cookieValues (cookie : List Char) : List (List Char) :=
  if cookie.isEmpty then [] else [cookie]

/-- What the jar alone gives for a request that was sent. -/
def Sent.jarCookie (s : Sent F) : Option (List Char) := (jarField s.now s.jar s.url).map (·.1)

/-- A request has credentials only if it was sent to the origin: one for another origin has no
Authorization field, and its Cookie field is what the jar gives. -/
structure Sent.Confined (orgUrl : Url) (s : Sent F) : Prop where
  authorization : Has s.request.fields Field.authorization →
    s.url.encodedOrigin = orgUrl.encodedOrigin
  cookie : s.url.encodedOrigin ≠ orgUrl.encodedOrigin →
    s.jarCookie.map cookieValues = some (findAll s.request.fields Field.cookie)

/-- A later request has an Authorization field only if the earlier one has. -/
def KeepsDropped (s s' : Sent F) : Prop :=
  Has s'.request.fields Field.authorization → Has s.request.fields Field.authorization

/-! ## What the edits do to the fields -/

theorem authorization_ne :
    canon Field.authorization ≠ canon Field.cookie ∧
    canon Field.authorization ≠ canon Field.contentLength ∧
    canon Field.authorization ≠ canon Field.contentEncoding ∧
    canon Field.authorization ≠ canon Field.contentType ∧
    canon Field.authorization ≠ canon Field.expect ∧
    canon Field.authorization ≠ canon Field.referer ∧
    canon Field.authorization ≠ canon Field.host := by
  decide

/-- `set_cookies` leaves one Cookie field, or none for an empty text. -/
theorem findAll_cookie_setCookieField (r : Request F) (cookie : List Char) :
    findAll (setCookieField r cookie).fields Field.cookie = cookieValues cookie := by
  unfold setCookieField cookieValues Request.erase Request.set
  simp only
  split
  · exact findAll_erase_self
  · exact findAll_set_self

theorem findAll_authorization_changeMethod (r : Request F) :
    findAll (changeMethod r).fields Field.authorization
      = findAll r.fields Field.authorization := by
  obtain ⟨-, hlen, henc, htype, hexp, -⟩ := authorization_ne
  unfold changeMethod Request.erase
  simp only
  rw [findAll_erase_ne hexp, findAll_erase_ne htype, findAll_erase_ne henc, findAll_erase_ne hlen]

/-- Following a redirect keeps the Authorization field of a trusted transfer, and drops that of any
other. -/
theorem findAll_authorization_followRedirect (urls : Urls Ref) (oc : OperationConfig)
    (orgUrl : Url) (need : Bool) (t : Transfer F) (url : Url) :
    findAll (followRedirect urls oc orgUrl need t url).request.fields Field.authorization =
      if (followRedirect urls oc orgUrl need t url).trusted then
        findAll t.request.fields Field.authorization
      else [] := by
  obtain ⟨-, -, -, -, -, href, hhost⟩ := authorization_ne
  have hchange :
      findAll (if need && t.request.method != methodHead then changeMethod t.request
        else t.request).fields Field.authorization
        = findAll t.request.fields Field.authorization := by
    split
    · exact findAll_authorization_changeMethod _
    · rfl
  unfold followRedirect
  simp only [Request.set, Request.erase, setTarget]
  rw [findAll_set_ne hhost]
  cases orgUrl.encodedOrigin == url.encodedOrigin || oc.unrestrictedAuth with
  | false =>
    cases oc.autoreferer with
    | false => exact findAll_erase_self
    | true => exact (findAll_set_ne href).trans findAll_erase_self
  | true =>
    cases oc.autoreferer with
    | false => exact hchange
    | true => exact (findAll_set_ne href).trans hchange

/-! ## The invariant of the loop -/

/-- At the head of the loop: a trusted transfer is for the original origin, another has no
Authorization field, and the requests sent so far are confined. -/
structure Transfer.Confined (orgUrl : Url) (t : Transfer F) : Prop where
  trusted : t.trusted = true → t.url.encodedOrigin = orgUrl.encodedOrigin
  dropped : t.trusted = false → ¬ Has t.request.fields Field.authorization
  kept : ∀ s ∈ sends t.log, Has t.request.fields Field.authorization →
    Has s.request.fields Field.authorization
  sent : ∀ s ∈ sends t.log, s.Confined orgUrl
  chain : (sends t.log).Pairwise KeepsDropped

variable {urls : Urls Ref} {psl : Psl} {oc : OperationConfig} {expCookies : List Char}
  {orgUrl : Url} {t : Transfer F} {s : Sent F}

/-- The request of a turn: its fields are those of the transfer's, Cookie apart. -/
theorem Transfer.sent_eq (h : t.sent expCookies = some s) :
    ∃ cookie, s.url = t.url ∧ s.jarCookie = some cookie ∧ s.request = setCookieField t.request
      (if t.trusted then cookie ++ expCookies else cookie) := by
  obtain ⟨x, -, h⟩ := Option.bind_eq_some_iff.1 h
  obtain ⟨⟨request, jar⟩, hset, h⟩ := Option.bind_eq_some_iff.1 h
  obtain ⟨⟨cookie, jar'⟩, hfield, hset⟩ := Option.bind_eq_some_iff.1 hset
  cases hset
  cases h
  exact ⟨cookie, rfl, by simp [Sent.jarCookie, hfield], rfl⟩

/-- The request of a turn has an Authorization field exactly if the transfer's has. -/
theorem Transfer.has_authorization_sent (h : t.sent expCookies = some s) :
    Has s.request.fields Field.authorization ↔ Has t.request.fields Field.authorization := by
  obtain ⟨cookie, -, -, hreq⟩ := Transfer.sent_eq h
  rw [Has, hreq, findAll_setCookieField_ne authorization_ne.1, Has]

/-- The request of a turn of a confined transfer is confined. -/
theorem Transfer.Confined.sent_confined (hc : t.Confined orgUrl)
    (h : t.sent expCookies = some s) : s.Confined orgUrl := by
  obtain ⟨cookie, hurl, hjar, hreq⟩ := Transfer.sent_eq h
  constructor
  · intro hhas
    rw [hurl]
    apply hc.trusted
    by_contra htr
    exact hc.dropped (Bool.eq_false_iff.2 htr) ((Transfer.has_authorization_sent h).1 hhas)
  · intro hne
    have htr : t.trusted = false := Bool.eq_false_iff.2 fun htr => hne (hurl ▸ hc.trusted htr)
    rw [hreq, htr, findAll_cookie_setCookieField, hjar]
    rfl

/-- The requests of the log with that of a turn. -/
theorem Transfer.Confined.sends_append (hc : t.Confined orgUrl)
    (h : t.sent expCookies = some s) :
    (∀ s' ∈ sends t.log ++ [s], s'.Confined orgUrl) ∧
      (sends t.log ++ [s]).Pairwise KeepsDropped := by
  constructor
  · intro s' hs'
    rcases List.mem_append.1 hs' with hs' | hs'
    · exact hc.sent s' hs'
    · cases List.mem_singleton.1 hs'
      exact hc.sent_confined h
  · refine List.pairwise_append.2 ⟨hc.chain, List.pairwise_singleton _ _, ?_⟩
    intro s' hs' s'' hs'' hhas
    cases List.mem_singleton.1 hs''
    exact hc.kept s' hs' ((Transfer.has_authorization_sent h).1 hhas)

/-- A turn that goes round leaves the transfer confined. -/
theorem Transfer.Confined.turn_next (hun : oc.unrestrictedAuth = false) (hc : t.Confined orgUrl)
    {t' : Transfer F} (h : t.turn urls psl oc expCookies orgUrl = .next t') :
    t'.Confined orgUrl := by
  rcases @Transfer.turn_cases F Ref _ urls psl oc expCookies orgUrl t with
    ⟨e, t', heq, -⟩ | ⟨s, res, t₀, t₁, url, heq, hsends, -, hfollows⟩
  · cases h.symm.trans heq
  cases h.symm.trans heq
  have hsent := hsends.sent
  have hreq : t₁.request = s.request := hfollows.request.trans hsends.request
  have hauth := findAll_authorization_followRedirect urls oc orgUrl
    (isRedirect oc res.status).needMethodChange t₁ url
  have hlog' := Transfer.sends_followRedirect urls orgUrl
    (isRedirect oc res.status).needMethodChange hsends hfollows
  obtain ⟨hall, hchain⟩ := hc.sends_append hsent
  refine ⟨?_, ?_, ?_, hlog' ▸ hall, hlog' ▸ hchain⟩
  · intro htr
    have htr' : (orgUrl.encodedOrigin == url.encodedOrigin || oc.unrestrictedAuth) = true := htr
    rw [hun, Bool.or_false, beq_iff_eq] at htr'
    exact htr'.symm
  · intro htr
    rw [htr] at hauth
    exact not_has_iff.2 hauth
  · intro s' hs' hhas
    -- the field is still there, so it was there in the request just sent, and before it
    have hhas₁ : Has t₁.request.fields Field.authorization := by
      intro hnil
      apply hhas
      rw [hauth]
      split
      · exact hnil
      · rfl
    rw [hreq, Transfer.has_authorization_sent hsent] at hhas₁
    rw [hlog'] at hs'
    rcases List.mem_append.1 hs' with hs' | hs'
    · exact hc.kept s' hs' hhas₁
    · cases List.mem_singleton.1 hs'
      exact (Transfer.has_authorization_sent hsent).2 hhas₁

/-- A turn that leaves the loop leaves its log confined. -/
theorem Transfer.Confined.turn_exit (hc : t.Confined orgUrl) {e : Ending F} {t' : Transfer F}
    (h : t.turn urls psl oc expCookies orgUrl = .exit (e, t')) :
    (∀ s ∈ sends t'.log, s.Confined orgUrl) ∧ (sends t'.log).Pairwise KeepsDropped := by
  rcases @Transfer.turn_cases F Ref _ urls psl oc expCookies orgUrl t with
    ⟨e, t', heq, hlog, -⟩ | ⟨s, res, t₀, t₁, url, heq, -⟩
  · cases h.symm.trans heq
    rw [hlog, Transfer.sends_sent]
    cases hsent : t.sent expCookies with
    | none => simpa using ⟨hc.sent, hc.chain⟩
    | some s => exact hc.sends_append hsent
  · cases h.symm.trans heq

/-- Without `unrestricted_auth`, every request that `perform_request` sends has an Authorization
field, or anything but the jar's cookies in its Cookie field, only if it is for the origin of the
initial URL, and once the Authorization field is gone it does not come back. -/
theorem credentials_confined (urls : Urls Ref) (psl : Psl) (build : Build) (oc : OperationConfig)
    (hun : oc.unrestrictedAuth = false) (expCookies : List Char) (msg : Message) (url : Url)
    (jar : Option (List Cookie)) (connected : Bool) (exchanges : List (Exchange F)) :
    let log := (performRequest urls psl build oc expCookies msg url jar connected exchanges).2
    (∀ s ∈ sends log, s.Confined url) ∧ (sends log).Pairwise KeepsDropped := by
  refine performRequest_log (P := fun log => (∀ s ∈ sends log, s.Confined url) ∧
    (sends log).Pairwise KeepsDropped) ⟨fun s hs => absurd hs List.not_mem_nil, .nil⟩
    ?_
  intro request _
  refine run_rec (P := fun (t : Transfer F) (r : Ending F × Transfer F) => t.Confined url →
      (∀ s ∈ sends r.2.log, s.Confined url) ∧ (sends r.2.log).Pairwise KeepsDropped)
    (fun t r h hc => hc.turn_exit h) (fun t t' r h ih hc => ih (hc.turn_next hun h)) _ ?_
  exact ⟨fun _ => rfl, nofun, fun s hs => absurd hs List.not_mem_nil,
    fun s hs => absurd hs List.not_mem_nil, .nil⟩

end

/-! ## There and back -/

/-- The URLs of two sites. -/
def home : Url := httpsRoot "a.org".toList
def away : Url := httpsRoot "b.org".toList

/-- Boost.URL on the texts of these URLs. -/
def twoSites : Urls Url where
  parseUriReference text := [home, away].find? (·.buffer == text)
  resolve _ url := url
  removeUserinfo url := { url with userinfo := none }

/-- A response 302 to a URL. -/
def hop (url : Url) : Exchange FieldList where
  now := 0
  clock _ := ⟨0, fun _ => 0⟩
  addNow _ := 0
  response := some ⟨302, true, false, [(Field.location, url.buffer)]⟩
  drained := true
  connected := true
  jarBefore := id
  jarAfter := id

/-- `burl -L -u me:pw -b id=1`. -/
def withPassword : OperationConfig :=
  { userpwd := some "me:pw".toList, followlocation := true }

/-- A transfer that is sent to another site and back keeps its credentials from that site. -/
theorem homeAwayHome_confined :
    let log := (performRequest twoSites none ⟨true, true⟩ withPassword "id=1".toList none home none
      true [hop away, hop home, hop home]).2
    withPassword.unrestrictedAuth = false ∧
      (∀ s ∈ sends log, s.Confined home) ∧ (sends log).Pairwise KeepsDropped :=
  ⟨rfl, credentials_confined twoSites none ⟨true, true⟩ withPassword rfl "id=1".toList none home
    none true [hop away, hop home, hop home]⟩

end Beast2.Burl
