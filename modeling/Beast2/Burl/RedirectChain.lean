import Beast2.Burl.Hops
import Beast2.Burl.Referer

/-!
# The chain of redirects

What a transfer asks for is decided by the responses alone: the first request is for the URL of the
transfer, each other one for the Location of the response before it, resolved against the URL of the
request that was answered, with the target and the host of that URL. Only redirects are followed,
and only if they are to be; a transfer that goes on with a response has got it at the end of its
chain (`redirect_chain`). The variables that say so are edited in place: `url`, `referer`, and the
target and the Host field of the request (`main.cpp:521-573`).
-/

namespace Beast2.Burl

open Loop Fields

section
variable {F Ref : Type} [Container F]

/-- A response is one to follow to a URL. -/
structure Response.LeadsTo (urls : Urls Ref) (oc : OperationConfig) (res : Response F)
    (url next : Url) : Prop where
  redirect : (isRedirect oc res.status).isRedirect = true
  followed : oc.followlocation = true
  location : redirectUrl urls res url = some next

/-- The response to a request leads to a URL, with the Host field of the request for it. -/
def Sent.LeadsTo (urls : Urls Ref) (oc : OperationConfig) (q : Sent F) (next : Url)
    (host : List (List Char)) : Prop :=
  (∃ res, q.response = some res ∧ res.LeadsTo urls oc q.url next) ∧ host = [next.hostAndPort]

/-- The requests of a transfer: the first one is for its URL, each has the target of its URL, and
each response but the last leads to the next request. -/
structure IsRedirectChain (urls : Urls Ref) (oc : OperationConfig) (url : Url) (l : List (Sent F)) :
    Prop where
  first : ∀ q ∈ l.head?, q.url = url
  target : ∀ q ∈ l, q.request.target = oc.requestTarget.getD q.url.encodedTarget
  chain : l.IsChain fun q q' => q.LeadsTo urls oc q'.url (findAll q'.request.fields Field.host)

/-- How a transfer ends if it goes on with a response: it is the one to the last request, and is not
to be followed. -/
def EndsChain (oc : OperationConfig) (e : Ending F) (l : List (Sent F)) : Prop :=
  ∀ res, e = .response res → (∃ q, l.getLast? = some q ∧ q.response = some res) ∧
    (oc.followlocation = true → (isRedirect oc res.status).isRedirect = false)

/-- At the head of the loop: the requests are a chain, and the last of them leads to the one at
hand. -/
structure Transfer.InChain (urls : Urls Ref) (oc : OperationConfig) (url : Url) (t : Transfer F) :
    Prop where
  sent : IsRedirectChain urls oc url (sends t.log)
  target : t.request.target = oc.requestTarget.getD t.url.encodedTarget
  referer : t.referer = t.url
  first : sends t.log = [] → t.url = url
  last : ∀ q ∈ (sends t.log).getLast?,
    q.LeadsTo urls oc t.url (findAll t.request.fields Field.host)

variable {urls : Urls Ref} {psl : Psl} {oc : OperationConfig} {expCookies : List Char}
  {orgUrl : Url} {t t' : Transfer F} {x : Exchange F} {s : Sent F}

/-- A response that the loop follows leads to the URL of the next request. -/
theorem Transfer.respond_leadsTo {res : Response F}
    (h : t.respond urls psl oc orgUrl x res = .next t') : res.LeadsTo urls oc t.referer t'.url := by
  simp only [Transfer.respond] at h
  split at h
  · cases h
  split at h
  · cases h
  next hredirect =>
  split at h
  · cases h
  split at h
  · cases h
  next url hurl =>
  split at h
  · cases h
  split at h
  · cases h
  cases h
  simp only [Bool.or_eq_true, Bool.not_eq_true', not_or, Bool.not_eq_false] at hredirect
  exact ⟨hredirect.1, hredirect.2, hurl⟩

/-- The loop goes on with a response that it does not follow. -/
theorem Transfer.respond_response {res res' : Response F}
    (h : t.respond urls psl oc orgUrl x res = .exit (.response res', t')) :
    res' = res ∧ (oc.followlocation = true → (isRedirect oc res.status).isRedirect = false) := by
  simp only [Transfer.respond] at h
  split at h
  · cases h
  split at h
  · next hredirect =>
    cases h
    refine ⟨rfl, fun hfollow => ?_⟩
    simpa [hfollow] using hredirect
  split at h
  · cases h
  split at h
  · cases h
  split at h
  · cases h
  split at h
  · cases h
  · cases h

/-- The target and the Host field of the request for the next URL. -/
theorem target_followRedirect (urls : Urls Ref) (oc : OperationConfig) (orgUrl : Url) (need : Bool)
    (t : Transfer F) (url : Url) :
    (followRedirect urls oc orgUrl need t url).request.target =
        oc.requestTarget.getD url.encodedTarget ∧
      findAll (followRedirect urls oc orgUrl need t url).request.fields Field.host =
        [url.hostAndPort] := by
  refine ⟨?_, ?_⟩
  · simp only [followRedirect, Request.set, Request.erase, setTarget]
    split
    · split
      · rfl
      · rfl
    · split
      · rfl
      · rfl
  · simp only [followRedirect, Request.set]
    rw [findAll_set_self]

theorem target_setCookieField (r : Request F) (cookie : List Char) :
    (setCookieField r cookie).target = r.target := by
  unfold setCookieField
  dsimp only
  split
  · rfl
  · rfl

/-- The requests of the log with that of a turn. -/
theorem Transfer.InChain.sends_append {url : Url} (h : t.InChain urls oc url)
    (hsent : t.sent expCookies = some s) : IsRedirectChain urls oc url (sends t.log ++ [s]) := by
  obtain ⟨cookie, hurl, -, hrequest⟩ := Transfer.sent_eq hsent
  have hhost : findAll s.request.fields Field.host = findAll t.request.fields Field.host := by
    rw [hrequest, findAll_setCookieField_ne (by decide)]
  refine ⟨fun q hq => ?_, fun q hq => ?_, ?_⟩
  · cases hlog : sends t.log with
    | nil =>
      rw [hlog] at hq
      cases hq
      exact hurl.trans (h.first hlog)
    | cons q₀ l =>
      rw [hlog] at hq
      cases hq
      refine h.sent.first q ?_
      rw [hlog]
      rfl
  · rcases List.mem_append.1 hq with hq | hq
    · exact h.sent.target q hq
    · cases List.mem_singleton.1 hq
      rw [hrequest, target_setCookieField, h.target, hurl]
  · refine h.sent.chain.append (.singleton s) fun q hq q' hq' => ?_
    cases hq'
    rw [hurl, hhost]
    exact h.last q hq

theorem target_ite_set (c : Prop) [Decidable c] (r : Request F) (m v : List Char) :
    (if c then r.set m v else r).target = r.target := by
  split
  · rfl
  · rfl

/-- The options leave the target alone. -/
theorem target_optionFields (build : Build) (oc : OperationConfig) (url : Url) (r : Request F) :
    (optionFields build oc url r).target = r.target := by
  unfold optionFields
  rw [target_ite_set, ← ite_not, target_ite_set, ← ite_not, target_ite_set]
  cases oc.resumeFrom with
  | none =>
    cases oc.range with
    | none => rfl
    | some range => rfl
  | some k =>
    cases oc.range with
    | none => rfl
    | some range => rfl

/-- The target of the first request. -/
theorem target_createRequest {build : Build} {msg : Message} {url : Url} {request : Request F}
    (h : createRequest build oc msg url = .ok request) :
    request.target = oc.requestTarget.getD url.encodedTarget := by
  have hset : ∀ (hs : List (List Char × List Char)) (r : Request F),
      (hs.foldl (fun r h => r.set h.1 h.2) r).target = r.target := by
    intro hs
    induction hs with
    | nil => exact fun _ => rfl
    | cons h hs ih => exact fun r => ih _
  have herase : ∀ (ms : List (List Char)) (r : Request F),
      (ms.foldl Request.erase r).target = r.target := by
    intro ms
    induction ms with
    | nil => exact fun _ => rfl
    | cons m ms ih => exact fun r => ih _
  unfold createRequest at h
  split at h
  · cases h
  · cases h
    rw [herase, hset, target_optionFields]
    cases msg with
    | none => rfl
    | some f => exact target_ite_set _ _ _ _

/-- A turn that sends a request and gets its response: what it does is what the response does. -/
theorem Transfer.turn_eq_respond (hsent : t.sent expCookies = some s) :
    ∃ (x : Exchange F) (t₀ : Transfer F), t.Sends expCookies s t₀ ∧ s.response = x.response ∧
      t.turn urls psl oc expCookies orgUrl =
        match x.response with
        | none => .exit (.callThrew, t₀)
        | some res => t₀.respond urls psl oc orgUrl x res := by
  obtain ⟨x, hx, -⟩ := Option.bind_eq_some_iff.1 hsent
  obtain ⟨t₀, hsends, hresponse, hturn⟩ :=
    @Transfer.turn_of_sent F Ref _ urls psl oc expCookies orgUrl t x s hx hsent
  exact ⟨x, t₀, hsends, hresponse, hturn⟩

/-- A turn that sends nothing ends without a response. -/
theorem Transfer.turn_of_not_sent (hsent : t.sent expCookies = none) {e : Ending F}
    (hturn : t.turn urls psl oc expCookies orgUrl = .exit (e, t')) (res : Response F) :
    e ≠ .response res := by
  rintro rfl
  unfold Transfer.turn at hturn
  cases hx : t.exchanges with
  | nil =>
    rw [hx] at hturn
    cases hturn
  | cons x exchanges =>
    cases hset : setCookies expCookies t x.now with
    | none =>
      rw [hx] at hturn
      dsimp only at hturn
      rw [hset] at hturn
      cases hturn
    | some rj => simp [Transfer.sent, hx, hset] at hsent

/-- A turn that goes round keeps the chain. -/
theorem Transfer.InChain.turn_next {url : Url} (h : t.InChain urls oc url)
    (hturn : t.turn urls psl oc expCookies orgUrl = .next t') : t'.InChain urls oc url := by
  rcases @Transfer.turn_cases F Ref _ urls psl oc expCookies orgUrl t with
    ⟨e, t', heq, -⟩ | ⟨s, res, t₀, t₁, next, heq, hsends, hres, hfollows⟩
  · cases hturn.symm.trans heq
  obtain ⟨x, t₂, hsends₂, hresponse, hrespond⟩ :=
    @Transfer.turn_eq_respond F Ref _ urls psl oc expCookies orgUrl t s hsends.sent
  rw [hturn, ← hresponse, hres] at hrespond
  have hleads := Transfer.respond_leadsTo hrespond.symm
  rw [hsends₂.referer, h.referer] at hleads
  cases hturn.symm.trans heq
  have hlog := Transfer.sends_followRedirect urls orgUrl
    (isRedirect oc res.status).needMethodChange hsends hfollows
  obtain ⟨htarget, hhost⟩ := target_followRedirect urls oc orgUrl
    (isRedirect oc res.status).needMethodChange t₁ next
  obtain ⟨-, hurl, -⟩ := Transfer.sent_eq hsends.sent
  refine ⟨hlog ▸ h.sends_append hsends.sent, htarget, rfl, fun hnil => ?_, fun q hq => ?_⟩
  · rw [hlog] at hnil
    simp at hnil
  · rw [hlog, List.getLast?_concat] at hq
    cases hq
    exact ⟨⟨res, hres, hurl ▸ hleads⟩, hhost⟩

/-- A turn that leaves the loop leaves a chain, and the response that it ends with. -/
theorem Transfer.InChain.turn_exit {url : Url} (h : t.InChain urls oc url) {e : Ending F}
    (hturn : t.turn urls psl oc expCookies orgUrl = .exit (e, t')) :
    IsRedirectChain urls oc url (sends t'.log) ∧ EndsChain oc e (sends t'.log) := by
  rcases @Transfer.turn_cases F Ref _ urls psl oc expCookies orgUrl t with
    ⟨e, t', heq, hlog, -⟩ | ⟨s, res, t₀, t₁, next, heq, -⟩
  · cases hturn.symm.trans heq
    rw [hlog, Transfer.sends_sent]
    cases hsent : t.sent expCookies with
    | none =>
      refine ⟨by simpa using h.sent, fun res hres => ?_⟩
      exact absurd hres (Transfer.turn_of_not_sent hsent hturn res)
    | some s =>
      refine ⟨h.sends_append hsent, fun res hres => ?_⟩
      obtain ⟨x, t₂, -, hresponse, hrespond⟩ :=
        @Transfer.turn_eq_respond F Ref _ urls psl oc expCookies orgUrl t s hsent
      rw [hturn, hres, ← hresponse] at hrespond
      cases hs : s.response with
      | none =>
        rw [hs] at hrespond
        cases hrespond
      | some res' =>
        rw [hs] at hrespond
        obtain ⟨rfl, hend⟩ := Transfer.respond_response hrespond.symm
        exact ⟨⟨s, List.getLast?_concat, hs⟩, hend⟩
  · cases hturn.symm.trans heq

/-- Whatever the responses are: the first request of a transfer is for its URL, each other one for
the Location of the response before it, resolved against the URL of the request that was answered,
with the target and the host of that URL, and only redirects are followed, if at all; and a transfer
that goes on with a response has got it to its last request, and it is not to be followed. -/
theorem redirect_chain (urls : Urls Ref) (psl : Psl) (build : Build) (oc : OperationConfig)
    (expCookies : List Char) (msg : Message) (url : Url) (jar : Option (List Cookie))
    (connected : Bool) (exchanges : List (Exchange F)) :
    let r := performRequest urls psl build oc expCookies msg url jar connected exchanges
    IsRedirectChain urls oc url (sends r.2) ∧ EndsChain oc r.1 (sends r.2) := by
  have hnil : IsRedirectChain urls oc url ([] : List (Sent F)) :=
    ⟨fun q hq => (by cases hq), fun q hq => absurd hq List.not_mem_nil, .nil⟩
  refine performRequest_rec (P := fun e log => IsRedirectChain urls oc url (sends log) ∧
    EndsChain oc e (sends log)) ?_ ?_ ?_
  · exact fun what _ => ⟨hnil, fun res hres => by cases hres⟩
  · exact ⟨hnil, fun res hres => by cases hres⟩
  · rintro request _ hrequest rfl
    refine run_rec (P := fun (t : Transfer F) (r : Ending F × Transfer F) => t.InChain urls oc url →
        IsRedirectChain urls oc url (sends r.2.log) ∧ EndsChain oc r.1 (sends r.2.log))
      (fun t r hturn ht => ht.turn_exit hturn)
      (fun t t' r hturn ih ht => ih (ht.turn_next hturn)) _ ?_
    refine ⟨hnil, target_createRequest hrequest, rfl, fun _ => rfl, fun q hq => ?_⟩
    cases hq

end

/-- Away, back home, and a response that is no redirect. -/
theorem homeAwayHome_chain :
    let r := performRequest twoSites none ⟨true, true⟩ withPassword [] none home none true
      [hop away, hop home, { hop home with response := some ⟨200, true, false, []⟩ }]
    ((sends r.2).map (·.url)) = [home, away, home] ∧
      IsRedirectChain twoSites withPassword home (sends r.2) ∧
        EndsChain withPassword r.1 (sends r.2) :=
  ⟨by decide +kernel, redirect_chain twoSites none ⟨true, true⟩ withPassword [] none home none true
    _⟩

end Beast2.Burl
