import Mathlib.Data.List.Chain
import Beast2.Burl.Credentials

/-!
# Body and header of every hop

The header of a request says in Content-Length how long its body is, and a server that gets another
length reads the next request at the wrong place. The header, the body and the mode of the response
parser are in three objects that `create_request` and the redirect loop change one by one. If the
options do not touch the fields of the body, every request of a transfer has a Content-Length field
exactly if it has a body, with the body's length. A redirect that changes the method takes body and
fields away for good, 307 and 308 keep the method and the body, and the parser expects the response
to a HEAD request exactly if that is the request (`hops_agree`).

Along the loop two things are kept: the body and the fields of the request at hand agree
(`FramesBody`), and the last request that was sent leads to it (`Hop`).
-/

namespace Beast2.Burl

open Loop Fields

section
variable {F Ref : Type} [Container F]

/-! ## The fields of the body -/

/-- The fields that describe a body. -/
def bodyFields : List (List Char) :=
  [Field.contentLength, Field.contentType, Field.contentEncoding, Field.expect]

/-- The other fields that a transfer sets or takes out. -/
def otherFields : List (List Char) :=
  [Field.accept, Field.acceptEncoding, Field.authorization, Field.cookie, Field.host, Field.range,
    Field.referer, Field.userAgent]

theorem bodyFields_ne : ∀ n ∈ bodyFields, ∀ m ∈ otherFields, canon n ≠ canon m := by decide +kernel

/-- The options name none of the fields of the body. -/
structure LeavesBody (oc : OperationConfig) : Prop where
  headers : ∀ h ∈ oc.headers, ∀ n ∈ bodyFields, canon n ≠ canon h.1
  omitheaders : ∀ m ∈ oc.omitheaders, ∀ n ∈ bodyFields, canon n ≠ canon m

/-- The fields of a request describe its body: its length if there is one, else nothing. -/
structure FramesBody (msg : Message) (f : F) : Prop where
  length : ∀ b, msg = some b → findAll f Field.contentLength = [decimal b.body.length]
  bare : msg = none → ∀ n ∈ bodyFields, findAll f n = []

theorem FramesBody.congr {msg : Message} {f f' : F} (h : FramesBody msg f)
    (heq : ∀ n ∈ bodyFields, findAll f' n = findAll f n) : FramesBody msg f' := by
  refine ⟨fun b hb => ?_, fun hnone n hn => ?_⟩
  · rw [heq _ List.mem_cons_self]
    exact h.length b hb
  · rw [heq n hn]
    exact h.bare hnone n hn

/-! ## The first request -/

theorem findAll_foldl_set {n : List Char} {hs : List (List Char × List Char)}
    (hne : ∀ h ∈ hs, canon n ≠ canon h.1) (r : Request F) :
    findAll (hs.foldl (fun r h => r.set h.1 h.2) r).fields n = findAll r.fields n := by
  induction hs generalizing r with
  | nil => rfl
  | cons h hs ih =>
    rw [List.foldl_cons, ih fun h' hh' => hne h' (List.mem_cons_of_mem _ hh')]
    exact findAll_set_ne (hne h List.mem_cons_self)

theorem findAll_foldl_erase {n : List Char} {ms : List (List Char)}
    (hne : ∀ m ∈ ms, canon n ≠ canon m) (r : Request F) :
    findAll (ms.foldl Request.erase r).fields n = findAll r.fields n := by
  induction ms generalizing r with
  | nil => rfl
  | cons m ms ih =>
    rw [List.foldl_cons, ih fun m' hm' => hne m' (List.mem_cons_of_mem _ hm')]
    exact findAll_erase_ne (hne m List.mem_cons_self)

/-- A field that is set or not is not another one. -/
theorem findAll_ite_set {n m : List Char} (hne : canon n ≠ canon m) (c : Prop) [Decidable c]
    (r : Request F) (v : List Char) :
    findAll (if c then r.set m v else r).fields n = findAll r.fields n := by
  split
  · exact findAll_set_ne hne
  · rfl

/-- The options set fields of their own. -/
theorem findAll_optionFields {n : List Char} (hne : ∀ m ∈ otherFields, canon n ≠ canon m)
    (build : Build) (oc : OperationConfig) (url : Url) (r : Request F) :
    findAll (optionFields build oc url r).fields n = findAll r.fields n := by
  unfold optionFields
  rw [findAll_ite_set (hne Field.acceptEncoding (by decide)), ← ite_not,
    findAll_ite_set (hne Field.authorization (by decide)), ← ite_not,
    findAll_ite_set (hne Field.referer (by decide))]
  cases oc.resumeFrom with
  | none =>
    cases oc.range with
    | none => rfl
    | some range => exact findAll_set_ne (hne Field.range (by decide))
  | some k =>
    cases oc.range with
    | none => exact findAll_set_ne (hne Field.range (by decide))
    | some range =>
      exact (findAll_set_ne (hne Field.range (by decide))).trans
        (findAll_set_ne (hne Field.range (by decide)))

/-- The fields that a message gives to a request describe its body. -/
theorem framesBody_setHeaders {msg : Message} {r : Request F}
    (hr : ∀ n ∈ bodyFields, findAll r.fields n = []) :
    FramesBody msg (msg.setHeaders r).fields := by
  cases msg with
  | none => exact ⟨nofun, fun _ => hr⟩
  | some b =>
    refine ⟨?_, nofun⟩
    intro _ heq
    cases heq
    unfold Message.setHeaders
    rw [findAll_ite_set (by decide)]
    exact findAll_set_self

/-- The fields of the first request describe its body. -/
theorem framesBody_createRequest {build : Build} {oc : OperationConfig} {msg : Message} {url : Url}
    {request : Request F} (hoc : LeavesBody oc)
    (h : createRequest build oc msg url = .ok request) : FramesBody msg request.fields := by
  unfold createRequest at h
  split at h
  · cases h
  · cases h
    refine FramesBody.congr ?_ fun n hn =>
      (findAll_foldl_erase (fun m hm => hoc.omitheaders m hm n hn) _).trans <|
      (findAll_foldl_set (fun h hh => hoc.headers h hh n hn) _).trans <|
      findAll_optionFields (bodyFields_ne n hn) build oc url _
    refine framesBody_setHeaders fun n hn => ?_
    have hne := bodyFields_ne n hn
    exact (findAll_set_ne (hne Field.accept (by decide))).trans <|
      (findAll_set_ne (hne Field.userAgent (by decide))).trans <|
      (findAll_set_ne (hne Field.host (by decide))).trans (Container.findAll_empty n)

/-! ## Hops -/

/-- The status of the response to a request. -/
def Sent.status (s : Sent F) : Option Nat := s.response.map (·.status)

/-- The response to a request changes the method of the next one: 301, 302 or 303 without the option
to keep a POST, to a request that is no HEAD. -/
def Sent.ChangesMethod (oc : OperationConfig) (s : Sent F) : Prop :=
  s.request.method ≠ methodHead ∧
    (s.status = some 301 ∧ oc.post301 = false ∨ s.status = some 302 ∧ oc.post302 = false ∨
      s.status = some 303 ∧ oc.post303 = false)

/-- The response to a request asks for the same request at another place. -/
def Sent.KeepsRequest (s : Sent F) : Prop := s.status = some 307 ∨ s.status = some 308

/-- A request that was sent leads to one with this method and message. -/
structure Hop (oc : OperationConfig) (s : Sent F) (method : List Char) (msg : Message) : Prop where
  changed : s.ChangesMethod oc → method = methodGet ∧ msg = none
  kept : s.KeepsRequest → method = s.request.method ∧ msg = s.msg
  dropped : s.msg = none → msg = none

omit [Container F] in
/-- The redirect loop changes the method exactly for the responses that ask for it. -/
theorem Sent.changesMethod_iff {oc : OperationConfig} {s : Sent F} {res : Response F}
    (hres : s.response = some res) :
    s.ChangesMethod oc ↔
      ((isRedirect oc res.status).needMethodChange && s.request.method != methodHead) = true := by
  have hstatus : s.status = some res.status := by rw [status, hres, Option.map_some]
  rw [ChangesMethod, hstatus, Bool.and_eq_true, bne_iff_ne, and_comm]
  refine and_congr_left fun _ => ?_
  unfold isRedirect
  split
  all_goals simp_all

omit [Container F] in
/-- The redirect loop keeps the method for 307 and 308. -/
theorem isRedirect_kept {oc : OperationConfig} {s : Sent F} {res : Response F}
    (hres : s.response = some res) (h : s.KeepsRequest) :
    (isRedirect oc res.status).needMethodChange = false := by
  have hstatus : s.status = some res.status := by rw [Sent.status, hres, Option.map_some]
  rcases h with h | h
  · rw [Option.some_inj.1 (hstatus.symm.trans h)]
    rfl
  · rw [Option.some_inj.1 (hstatus.symm.trans h)]
    rfl

/-- Following a redirect sets the method to GET, if it changes it. -/
theorem method_followRedirect (urls : Urls Ref) (oc : OperationConfig) (orgUrl : Url) (need : Bool)
    (t : Transfer F) (url : Url) :
    (followRedirect urls oc orgUrl need t url).request.method =
      if need && t.request.method != methodHead then methodGet else t.request.method := by
  have hreferer : ∀ (r : Request F) (v : List Char),
      (if oc.autoreferer then r.set Field.referer v else r).method = r.method := by
    intro r v
    split <;> rfl
  have hauth : ∀ (c : Bool) (r : Request F),
      (if c then r else r.erase Field.authorization).method = r.method := by
    intro c r
    split <;> rfl
  have hchange : (if need && t.request.method != methodHead then changeMethod t.request
      else t.request).method =
      if need && t.request.method != methodHead then methodGet else t.request.method := by
    split <;> rfl
  exact (hreferer _ _).trans ((hauth _ _).trans hchange)

/-- The request that is edited for the next URL is the one that the response asks for. -/
theorem hop_followRedirect (urls : Urls Ref) (oc : OperationConfig) (orgUrl url : Url) {s : Sent F}
    {res : Response F} {t₁ : Transfer F} (hres : s.response = some res)
    (hreq : t₁.request = s.request) (hmsg : t₁.msg = s.msg) {t' : Transfer F}
    (h : t' = followRedirect urls oc orgUrl (isRedirect oc res.status).needMethodChange t₁ url) :
    Hop oc s t'.request.method t'.msg := by
  have hmethod := method_followRedirect urls oc orgUrl
    (isRedirect oc res.status).needMethodChange t₁ url
  have hmsg' : t'.msg = if (isRedirect oc res.status).needMethodChange &&
      t₁.request.method != methodHead then none else t₁.msg := by rw [h]; rfl
  rw [← h] at hmethod
  rw [hreq] at hmethod hmsg'
  rw [hmsg] at hmsg'
  refine ⟨fun hchange => ?_, fun hkept => ?_, fun hnone => ?_⟩
  · have hneed := (Sent.changesMethod_iff hres).1 hchange
    rw [hneed] at hmethod hmsg'
    exact ⟨hmethod, hmsg'⟩
  · rw [isRedirect_kept hres hkept, Bool.false_and] at hmethod hmsg'
    exact ⟨hmethod, hmsg'⟩
  · rw [hmsg', hnone, ite_self]

/-- Following a redirect keeps body and fields in agreement. -/
theorem framesBody_followRedirect (urls : Urls Ref) (oc : OperationConfig) (orgUrl : Url)
    (need : Bool) {t : Transfer F} (url : Url) (h : FramesBody t.msg t.request.fields) :
    FramesBody (followRedirect urls oc orgUrl need t url).msg
      (followRedirect urls oc orgUrl need t url).request.fields := by
  have hmsg : (followRedirect urls oc orgUrl need t url).msg =
      if need && t.request.method != methodHead then none else t.msg := rfl
  have hchange : FramesBody (if need && t.request.method != methodHead then none else t.msg)
      (if need && t.request.method != methodHead then changeMethod t.request
        else t.request).fields := by
    split
    · refine ⟨nofun, fun _ => ?_⟩
      unfold changeMethod Request.erase
      simp [bodyFields, Container.findAll_erase]
    · exact h
  rw [hmsg]
  refine hchange.congr fun n hn => ?_
  have hne := bodyFields_ne n hn
  exact findAll_followRedirect_ne (hne _ (by decide)) (hne _ (by decide)) (hne _ (by decide))
    urls oc orgUrl need t url

/-! ## The invariant of the loop -/

/-- A request is framed by its fields, and the parser expects the response to it. -/
structure Sent.Framed (s : Sent F) : Prop where
  body : FramesBody s.msg s.request.fields
  head : s.headResponse = true ↔ s.request.method = methodHead

/-- At the head of the loop: the requests sent so far are framed and lead from one to the next, and
the last of them to the request at hand, which is framed too. -/
structure Transfer.Hops (oc : OperationConfig) (t : Transfer F) : Prop where
  body : FramesBody t.msg t.request.fields
  sent : ∀ s ∈ sends t.log, s.Framed
  chain : (sends t.log).IsChain fun s s' => Hop oc s s'.request.method s'.msg
  last : ∀ s ∈ (sends t.log).getLast?, Hop oc s t.request.method t.msg

/-- The requests of a log are framed and lead from one to the next. -/
def HopsTo (oc : OperationConfig) (l : List (Sent F)) : Prop :=
  (∀ s ∈ l, s.Framed) ∧ l.IsChain fun s s' => Hop oc s s'.request.method s'.msg

variable {urls : Urls Ref} {psl : Psl} {oc : OperationConfig} {expCookies : List Char}
  {orgUrl : Url} {t : Transfer F} {s : Sent F}

/-- `set_cookies` leaves the method alone. -/
theorem method_setCookieField (r : Request F) (cookie : List Char) :
    (setCookieField r cookie).method = r.method := by
  unfold setCookieField
  simp only
  split
  · rfl
  · rfl

/-- The request of a turn has the method and the body of the transfer's, and its fields but
Cookie. -/
theorem Transfer.sent_framed (h : t.sent expCookies = some s)
    (hbody : FramesBody t.msg t.request.fields) :
    s.Framed ∧ s.request.method = t.request.method ∧ s.msg = t.msg := by
  obtain ⟨x, -, h⟩ := Option.bind_eq_some_iff.1 h
  obtain ⟨⟨request, jar⟩, hset, h⟩ := Option.bind_eq_some_iff.1 h
  obtain ⟨⟨cookie, jar'⟩, -, hset⟩ := Option.bind_eq_some_iff.1 hset
  cases hset
  cases h
  refine ⟨⟨?_, beq_iff_eq⟩, method_setCookieField _ _, rfl⟩
  exact hbody.congr fun n hn =>
    findAll_setCookieField_ne (bodyFields_ne n hn Field.cookie (by decide)) _ _

/-- The requests of the log with that of a turn. -/
theorem Transfer.Hops.sends_append (h : t.Hops oc) (hsent : t.sent expCookies = some s) :
    HopsTo oc (sends t.log ++ [s]) := by
  obtain ⟨hframed, hmethod, hmsg⟩ := Transfer.sent_framed hsent h.body
  refine ⟨fun s' hs' => ?_, ?_⟩
  · rcases List.mem_append.1 hs' with hs' | hs'
    · exact h.sent s' hs'
    · cases List.mem_singleton.1 hs'
      exact hframed
  · refine h.chain.append (.singleton s) fun s' hs' s'' hs'' => ?_
    cases hs''
    rw [hmethod, hmsg]
    exact h.last s' hs'

/-- A turn that goes round keeps the invariant. -/
theorem Transfer.Hops.turn_next (h : t.Hops oc) {t' : Transfer F}
    (hturn : t.turn urls psl oc expCookies orgUrl = .next t') : t'.Hops oc := by
  rcases @Transfer.turn_cases F Ref _ urls psl oc expCookies orgUrl t with
    ⟨e, t', heq, -⟩ | ⟨s, res, t₀, t₁, url, heq, hsends, hres, hfollows⟩
  · cases hturn.symm.trans heq
  cases hturn.symm.trans heq
  obtain ⟨hframed, -, -⟩ := Transfer.sent_framed hsends.sent h.body
  obtain ⟨hsent, hchain⟩ := h.sends_append hsends.sent
  have hreq : t₁.request = s.request := hfollows.request.trans hsends.request
  have hmsg : t₁.msg = s.msg := hfollows.msg.trans hsends.msg
  have hlog := Transfer.sends_followRedirect urls orgUrl
    (isRedirect oc res.status).needMethodChange hsends hfollows
  refine ⟨?_, hlog ▸ hsent, hlog ▸ hchain, ?_⟩
  · refine framesBody_followRedirect urls oc orgUrl _ url ?_
    rw [hreq, hmsg]
    exact hframed.body
  · intro s' hs'
    rw [hlog, List.getLast?_concat] at hs'
    cases hs'
    exact hop_followRedirect urls oc orgUrl url hres hreq hmsg rfl

/-- A turn that leaves the loop leaves requests that lead from one to the next. -/
theorem Transfer.Hops.turn_exit (h : t.Hops oc) {e : Ending F} {t' : Transfer F}
    (hturn : t.turn urls psl oc expCookies orgUrl = .exit (e, t')) :
    HopsTo oc (sends t'.log) := by
  rcases @Transfer.turn_cases F Ref _ urls psl oc expCookies orgUrl t with
    ⟨e, t', heq, hlog, -⟩ | ⟨s, res, t₀, t₁, url, heq, -⟩
  · cases hturn.symm.trans heq
    rw [hlog, Transfer.sends_sent]
    cases hsent : t.sent expCookies with
    | none => simpa using ⟨h.sent, h.chain⟩
    | some s => exact h.sends_append hsent
  · cases hturn.symm.trans heq

/-! ## Whole transfers -/

/-- Body and header agree in the requests of a transfer, in the order in which they were sent. -/
structure HopsAgree (oc : OperationConfig) (l : List (Sent F)) : Prop where
  /-- A request has a Content-Length field exactly if it has a body, with the body's length. -/
  length : ∀ s ∈ l, findAll s.request.fields Field.contentLength =
    (s.msg.map fun b => decimal b.body.length).toList
  /-- After a hop that changes the method the request is a GET, and no request has a body or a field
  of it any more. -/
  changed : ∀ l₁ s s' l₂, l = l₁ ++ s :: s' :: l₂ → s.ChangesMethod oc →
    s'.request.method = methodGet ∧
      ∀ s'' ∈ s' :: l₂, s''.msg = none ∧ ∀ n ∈ bodyFields, ¬ Has s''.request.fields n
  /-- After 307 and 308 the same method and body are sent. -/
  kept : ∀ l₁ s s' l₂, l = l₁ ++ s :: s' :: l₂ → s.KeepsRequest →
    s'.request.method = s.request.method ∧ s'.msg = s.msg
  /-- The parser is started for the response to a HEAD request exactly if that was sent. -/
  head : ∀ s ∈ l, s.headResponse = true ↔ s.request.method = methodHead

omit [Container F] in
/-- A body that is dropped stays dropped along a chain of hops. -/
theorem msg_eq_none_of_isChain {l : List (Sent F)}
    (h : (s :: l).IsChain fun s s' => Hop oc s s'.request.method s'.msg) (hs : s.msg = none) :
    ∀ s' ∈ s :: l, s'.msg = none := by
  induction l generalizing s with
  | nil =>
    intro s' hs'
    cases List.mem_singleton.1 hs'
    exact hs
  | cons s₁ l ih =>
    obtain ⟨hhop, hchain⟩ := List.isChain_cons_cons.1 h
    intro s' hs'
    rcases List.mem_cons.1 hs' with rfl | hs'
    · exact hs
    · exact ih hchain (hhop.dropped hs) s' hs'

/-- Requests that are framed and lead from one to the next agree with their bodies. -/
theorem HopsTo.agree {l : List (Sent F)} (h : HopsTo oc l) : HopsAgree oc l := by
  obtain ⟨hframed, hchain⟩ := h
  refine ⟨fun s hs => ?_, ?_, ?_, fun s hs => (hframed s hs).head⟩
  · cases hmsg : s.msg with
    | none => exact (hframed s hs).body.bare hmsg _ List.mem_cons_self
    | some b => exact (hframed s hs).body.length b hmsg
  · rintro l₁ s s' l₂ rfl hchange
    obtain ⟨-, hhop, hlater⟩ := List.isChain_append_cons_cons.1 hchain
    obtain ⟨hmethod, hmsg⟩ := hhop.changed hchange
    refine ⟨hmethod, fun s'' hs'' => ?_⟩
    have hnone := msg_eq_none_of_isChain hlater hmsg s'' hs''
    have hmem : s'' ∈ l₁ ++ s :: s' :: l₂ :=
      List.mem_append_right _ (List.mem_cons_of_mem _ hs'')
    exact ⟨hnone, fun n hn => not_has_iff.2 ((hframed s'' hmem).body.bare hnone n hn)⟩
  · rintro l₁ s s' l₂ rfl hkept
    obtain ⟨-, hhop, -⟩ := List.isChain_append_cons_cons.1 hchain
    exact hhop.kept hkept

/-- If the user's headers and the omitted ones leave the fields of the body alone, body and header
agree in every request that `perform_request` sends, whatever the responses are. -/
theorem hops_agree (urls : Urls Ref) (psl : Psl) (build : Build) (oc : OperationConfig)
    (hoc : LeavesBody oc) (expCookies : List Char) (msg : Message) (url : Url)
    (jar : Option (List Cookie)) (connected : Bool) (exchanges : List (Exchange F)) :
    HopsAgree oc
      (sends (performRequest urls psl build oc expCookies msg url jar connected exchanges).2) := by
  refine HopsTo.agree (performRequest_log (P := fun log => HopsTo oc (sends log)) ?_ ?_)
  · exact ⟨fun s hs => absurd hs List.not_mem_nil, .nil⟩
  · intro request hrequest
    refine run_rec (P := fun (t : Transfer F) (r : Ending F × Transfer F) => t.Hops oc →
        HopsTo oc (sends r.2.log))
      (fun t r hturn ht => ht.turn_exit hturn) (fun t t' r hturn ih ht => ih (ht.turn_next hturn)) _
      ?_
    exact ⟨framesBody_createRequest hoc hrequest, fun s hs => absurd hs List.not_mem_nil, .nil,
      fun s hs => absurd hs (by simp [sends])⟩

end

/-- A POST that is sent again by a 307 and becomes a GET by a 302. -/
theorem postAgain_agree :
    let again : Exchange FieldList :=
      { hop away with response := some ⟨307, true, false, [(Field.location, away.buffer)]⟩ }
    let log := (performRequest twoSites none ⟨true, true⟩ withPassword [] (some ⟨['x'], []⟩) home
      none true [again, hop home, hop home]).2
    ((sends log).map fun s => (s.request.method, s.msg.isSome)) =
      [(methodPost, true), (methodPost, true), (methodGet, false)] ∧
    HopsAgree withPassword (sends log) :=
  ⟨by decide +kernel, hops_agree twoSites none ⟨true, true⟩ withPassword ⟨nofun, nofun⟩ []
    (some ⟨['x'], []⟩) home none true _⟩

end Beast2.Burl
