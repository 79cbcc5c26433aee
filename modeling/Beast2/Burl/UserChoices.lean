import Beast2.Burl.Hops

/-!
# What the user asked for in the first request

With `-X` the user names the method, with `-H` fields to send and fields to leave out. The first
request is made by `create_request`, which sets the method, the fields of the message and of the
options, and then those of `-H`; `set_cookies` comes after it. A message sets its own method behind
that of `-X`, and `set_cookies` takes out any Cookie field and puts in the one it makes. So the
request is what the user asked for exactly if a message comes without `-X`, or with the one method
it has, and a Cookie field of `-H` is the same as the one that is made (`choicesWin_iff`).
-/

namespace Beast2.Burl

open Loop Fields

section

variable {F Ref : Type} [Container F]

/-- A field that the user leaves out. -/
def Omitted (oc : OperationConfig) (n : List Char) : Prop := ∃ m ∈ oc.omitheaders, canon n = canon m

/-- The text for the Cookie field of the first request: that of the jar and that of `-b`. -/
def generatedCookie (now : Int) (jar : Option (List Cookie)) (url : Url) (expCookies : List Char) :
    Option (List Char) :=
  (jarField now jar url).map (·.1 ++ expCookies)

/-- A request is what the user asked for, with a text for its Cookie field. -/
structure ChoicesWin (oc : OperationConfig) (cookie : List Char) (r : Request F) : Prop where
  method : ∀ m, oc.customrequest = some m → r.method = m
  headers : ∀ h ∈ oc.headers, ¬ Omitted oc h.1 → findAll r.fields h.1 = [h.2]
  omitted : ∀ n, Omitted oc n → Has r.fields n →
    canon n = canon Field.cookie ∧ findAll r.fields n = [cookie]

/-- Nothing overrides what the user asked for: a message comes with no other method than its own, a
Cookie field is the one that is made, and no field is given twice with different values. -/
structure NothingOverrides (oc : OperationConfig) (msg : Message) (cookie : List Char) : Prop where
  method : ∀ m, oc.customrequest = some m → msg = none ∨ m = methodPost
  cookie : ∀ h ∈ oc.headers, ¬ Omitted oc h.1 → canon h.1 = canon Field.cookie →
    cookie ≠ [] ∧ h.2 = cookie
  repeated : ∀ h ∈ oc.headers, ∀ h' ∈ oc.headers, ¬ Omitted oc h.1 → canon h.1 = canon h'.1 →
    h.2 = h'.2

/-! ## The request of `create_request` -/

/-- Of the fields of a name that are set one after the other, the last one stays. -/
theorem exists_findAll_foldl_set {n : List Char} {hs : List (List Char × List Char)}
    (hmem : ∃ h ∈ hs, canon n = canon h.1) (r : Request F) :
    ∃ h ∈ hs, canon n = canon h.1 ∧
      findAll (hs.foldl (fun r h => r.set h.1 h.2) r).fields n = [h.2] := by
  induction hs generalizing r with
  | nil =>
    obtain ⟨h, hh, -⟩ := hmem
    cases hh
  | cons g hs ih =>
    rw [List.foldl_cons]
    by_cases hlater : ∃ h ∈ hs, canon n = canon h.1
    · obtain ⟨h, hh, hcanon, hfind⟩ := ih hlater (r.set g.1 g.2)
      exact ⟨h, List.mem_cons_of_mem g hh, hcanon, hfind⟩
    · obtain ⟨h, hh, heq⟩ := hmem
      rcases List.mem_cons.1 hh with rfl | hh
      · refine ⟨h, List.mem_cons_self, heq, ?_⟩
        rw [findAll_foldl_set fun h' hh' hcanon => hlater ⟨h', hh', hcanon⟩]
        exact (Container.findAll_set _ _ _ _).trans (if_pos heq)
      · exact absurd ⟨h, hh, heq⟩ hlater

/-- Fields that are taken out are not there. -/
theorem findAll_foldl_erase_mem {n : List Char} {ms : List (List Char)}
    (hmem : ∃ m ∈ ms, canon n = canon m) (r : Request F) :
    findAll (ms.foldl Request.erase r).fields n = [] := by
  induction ms generalizing r with
  | nil =>
    obtain ⟨m, hm, -⟩ := hmem
    cases hm
  | cons m ms ih =>
    rw [List.foldl_cons]
    by_cases hlater : ∃ m' ∈ ms, canon n = canon m'
    · exact ih hlater _
    · obtain ⟨m', hm', heq⟩ := hmem
      rcases List.mem_cons.1 hm' with rfl | hm'
      · rw [findAll_foldl_erase fun m'' hm'' hcanon => hlater ⟨m'', hm'', hcanon⟩]
        exact (Container.findAll_erase _ _ _).trans (if_pos heq)
      · exact absurd ⟨m', hm', heq⟩ hlater

theorem method_foldl_set (hs : List (List Char × List Char)) (r : Request F) :
    (hs.foldl (fun r h => r.set h.1 h.2) r).method = r.method := by
  induction hs generalizing r with
  | nil => rfl
  | cons h hs ih => exact ih _

theorem method_foldl_erase (ms : List (List Char)) (r : Request F) :
    (ms.foldl Request.erase r).method = r.method := by
  induction ms generalizing r with
  | nil => rfl
  | cons m ms ih => exact ih _

theorem method_ite_set (c : Prop) [Decidable c] (r : Request F) (m v : List Char) :
    (if c then r.set m v else r).method = r.method := by
  split
  · rfl
  · rfl

/-- The options leave the method alone. -/
theorem method_optionFields (build : Build) (oc : OperationConfig) (url : Url) (r : Request F) :
    (optionFields build oc url r).method = r.method := by
  unfold optionFields
  rw [method_ite_set, ← ite_not, method_ite_set, ← ite_not, method_ite_set]
  cases oc.resumeFrom with
  | none => cases oc.range <;> rfl
  | some k => cases oc.range <;> rfl

/-- A message with a body has a method of its own. -/
theorem method_setHeaders (msg : Message) (r : Request F) :
    (msg.setHeaders r).method = if msg = none then r.method else methodPost := by
  cases msg with
  | none => rfl
  | some f => exact method_ite_set _ _ _ _

variable {build : Build} {oc : OperationConfig} {msg : Message} {url : Url} {request : Request F}
  {cookie : List Char}

/-- The user's method is taken if there is no message. -/
theorem method_createRequest (h : createRequest build oc msg url = .ok request) {m : List Char}
    (hm : oc.customrequest = some m) :
    request.method = if msg = none then m else methodPost := by
  unfold createRequest at h
  split at h
  · cases h
  · cases h
    rw [method_foldl_erase, method_foldl_set, method_optionFields, method_setHeaders, hm]
    rfl

/-- A field that the user gives and does not leave out has one of the values given. -/
theorem exists_findAll_createRequest (h : createRequest build oc msg url = .ok request)
    {n : List Char} (hmem : ∃ g ∈ oc.headers, canon n = canon g.1) (homit : ¬ Omitted oc n) :
    ∃ g ∈ oc.headers, canon n = canon g.1 ∧ findAll request.fields n = [g.2] := by
  unfold createRequest at h
  split at h
  · cases h
  · cases h
    rw [findAll_foldl_erase fun m hm hcanon => homit ⟨m, hm, hcanon⟩]
    exact exists_findAll_foldl_set hmem _

/-- A field that the user leaves out is not there. -/
theorem findAll_createRequest_omitted (h : createRequest build oc msg url = .ok request)
    {n : List Char} (homit : Omitted oc n) : findAll request.fields n = [] := by
  unfold createRequest at h
  split at h
  · cases h
  · cases h
    exact findAll_foldl_erase_mem homit _

/-! ## The request with its Cookie field -/

/-- The Cookie field of a request is the one that is made, under whatever spelling. -/
theorem findAll_canon_setCookieField {n : List Char} (hn : canon n = canon Field.cookie) :
    findAll (setCookieField request cookie).fields n = cookieValues cookie := by
  rw [Container.findAll_congr _ hn, findAll_cookie_setCookieField]

/-- The field that is made has a value exactly if there is a text for it. -/
theorem cookieValues_eq_singleton_iff {v : List Char} :
    cookieValues cookie = [v] ↔ cookie ≠ [] ∧ v = cookie := by
  unfold cookieValues
  cases cookie <;> simp [eq_comm]

/-- A request that is what the user asked for has nothing that overrides it. -/
theorem nothingOverrides_of_choicesWin (h : createRequest build oc msg url = .ok request)
    (hwin : ChoicesWin oc cookie (setCookieField request cookie)) :
    NothingOverrides oc msg cookie := by
  refine ⟨fun m hm => ?_, fun g hg homit hname => ?_, fun g hg g' hg' homit hname => ?_⟩
  · have hmethod := hwin.method m hm
    rw [method_setCookieField, method_createRequest h hm] at hmethod
    by_cases hmsg : msg = none
    · exact .inl hmsg
    · rw [if_neg hmsg] at hmethod
      exact .inr hmethod.symm
  · have hvalue := hwin.headers g hg homit
    rwa [findAll_canon_setCookieField hname, cookieValues_eq_singleton_iff] at hvalue
  · have homit' : ¬ Omitted oc g'.1 := by
      rintro ⟨m, hm, hcanon⟩
      exact homit ⟨m, hm, hname.trans hcanon⟩
    have hvalue := hwin.headers g hg homit
    rw [Container.findAll_congr _ hname, hwin.headers g' hg' homit'] at hvalue
    exact (List.cons.inj hvalue).1.symm

/-- A request that nothing overrides is what the user asked for. -/
theorem choicesWin_of_nothingOverrides (h : createRequest build oc msg url = .ok request)
    (hno : NothingOverrides oc msg cookie) :
    ChoicesWin oc cookie (setCookieField request cookie) := by
  refine ⟨fun m hm => ?_, fun g hg homit => ?_, fun n homit hhas => ?_⟩
  · rw [method_setCookieField, method_createRequest h hm]
    rcases hno.method m hm with hmsg | hpost
    · rw [if_pos hmsg]
    · rw [hpost, ite_self]
  · by_cases hname : canon g.1 = canon Field.cookie
    · rw [findAll_canon_setCookieField hname, cookieValues_eq_singleton_iff]
      exact hno.cookie g hg homit hname
    · obtain ⟨g', hg', hcanon, hfind⟩ := exists_findAll_createRequest h ⟨g, hg, rfl⟩ homit
      rw [findAll_setCookieField_ne hname, hfind, hno.repeated g hg g' hg' homit hcanon]
  · by_cases hname : canon n = canon Field.cookie
    · refine ⟨hname, ?_⟩
      rw [Has, findAll_canon_setCookieField hname] at hhas
      rw [findAll_canon_setCookieField hname]
      unfold cookieValues at hhas ⊢
      split at hhas
      · exact absurd rfl hhas
      · next hne => rw [if_neg hne]
    · rw [Has, findAll_setCookieField_ne hname, findAll_createRequest_omitted h homit] at hhas
      exact absurd rfl hhas

/-- The request of `create_request` with a Cookie field is what the user asked for exactly if
nothing overrides it. -/
theorem choicesWin_setCookieField_iff (h : createRequest build oc msg url = .ok request) :
    ChoicesWin oc cookie (setCookieField request cookie) ↔ NothingOverrides oc msg cookie :=
  ⟨nothingOverrides_of_choicesWin h, choicesWin_of_nothingOverrides h⟩

/-! ## The first request of a transfer -/

/-- What a transfer sends is what it has sent, its next request if it sends one, and only then
others. -/
theorem Transfer.sends_loop (urls : Urls Ref) (psl : Psl) (oc : OperationConfig)
    (expCookies : List Char) (orgUrl : Url) (t : Transfer F) :
    ∃ l, sends (t.loop urls psl oc expCookies orgUrl).2.log =
        sends t.log ++ (t.sent expCookies).toList ++ l ∧ (t.sent expCookies = none → l = []) := by
  refine run_rec (P := fun (t : Transfer F) (r : Ending F × Transfer F) =>
      ∃ l, sends r.2.log = sends t.log ++ (t.sent expCookies).toList ++ l ∧
        (t.sent expCookies = none → l = [])) ?_ ?_ t
  · intro t r hturn
    rcases @Transfer.turn_cases F Ref _ urls psl oc expCookies orgUrl t with
      ⟨e, t', heq, hlog, -⟩ | ⟨s, res, t₀, t₁, url, heq, -⟩
    · cases hturn.symm.trans heq
      exact ⟨[], by rw [hlog, Transfer.sends_sent, List.append_nil], fun _ => rfl⟩
    · cases hturn.symm.trans heq
  · rintro t t' r hturn ⟨l, hsends, -⟩
    rcases @Transfer.turn_cases F Ref _ urls psl oc expCookies orgUrl t with
      ⟨e, t', heq, -⟩ | ⟨s, res, t₀, t₁, url, heq, hs, -, hfollows⟩
    · cases hturn.symm.trans heq
    · cases hturn.symm.trans heq
      have hsent : (t.sent expCookies).toList = [s] := by
        rw [hs.sent]
        rfl
      rw [Transfer.sends_followRedirect urls orgUrl _ hs hfollows, List.append_assoc,
        ← hsent] at hsends
      refine ⟨_, hsends, fun hnone => ?_⟩
      cases hnone.symm.trans hs.sent

/-- The first request that `perform_request` sends is that of `create_request` with the Cookie field
that is made for it. -/
theorem exists_first_request {urls : Urls Ref} {psl : Psl} {expCookies : List Char}
    {jar : Option (List Cookie)} {connected : Bool} {exchanges : List (Exchange F)} {s : Sent F}
    (h : (sends (performRequest urls psl build oc expCookies msg url jar connected
      exchanges).2).head? = some s) :
    ∃ x request cookie, exchanges.head? = some x ∧
      createRequest build oc msg url = .ok request ∧
      generatedCookie x.now jar url expCookies = some cookie ∧
      s.request = setCookieField request cookie := by
  revert h
  refine performRequest_log (P := fun log => (sends log).head? = some s → _) ?_ ?_
  · intro h
    cases h
  · intro request hrequest h
    obtain ⟨l, hsends, hnone⟩ := Transfer.sends_loop urls psl oc expCookies url
      ⟨request, msg, url, url, true, oc.maxredirs, jar, exchanges, [.connect url]⟩
    rw [hsends] at h
    cases hsent : Transfer.sent expCookies
        ⟨request, msg, url, url, true, oc.maxredirs, jar, exchanges, [.connect url]⟩ with
    | none =>
      rw [hnone hsent, hsent] at h
      cases h
    | some s' =>
      rw [hsent] at h
      cases h
      obtain ⟨x, hx, hsent⟩ := Option.bind_eq_some_iff.1 hsent
      obtain ⟨⟨request', jar'⟩, hset, hsent⟩ := Option.bind_eq_some_iff.1 hsent
      obtain ⟨⟨text, jar''⟩, hfield, hset⟩ := Option.bind_eq_some_iff.1 hset
      cases hset
      cases hsent
      have hcookie : generatedCookie x.now jar url expCookies = some (text ++ expCookies) := by
        rw [generatedCookie, hfield]
        rfl
      exact ⟨x, request, text ++ expCookies, hx, hrequest, hcookie, rfl⟩

/-- The first request that `perform_request` sends is what the user asked for if and only if nothing
overrides that: a message comes without `-X`, or with the method that a message has, and the Cookie
field of `-H`, if there is one, is the one that is made. -/
theorem choicesWin_iff (urls : Urls Ref) (psl : Psl) (build : Build) (oc : OperationConfig)
    (expCookies : List Char) (msg : Message) (url : Url) (jar : Option (List Cookie))
    (connected : Bool) (exchanges : List (Exchange F)) {s : Sent F}
    (h : (sends (performRequest urls psl build oc expCookies msg url jar connected
      exchanges).2).head? = some s) :
    ∃ x cookie, exchanges.head? = some x ∧
      generatedCookie x.now jar url expCookies = some cookie ∧
      (ChoicesWin oc cookie s.request ↔ NothingOverrides oc msg cookie) := by
  obtain ⟨x, request, cookie, hx, hrequest, hcookie, hs⟩ := exists_first_request h
  refine ⟨x, cookie, hx, hcookie, ?_⟩
  rw [hs]
  exact choicesWin_setCookieField_iff hrequest

end

/-- `burl -X PUT -H "Accept: text/html" -H "Host:"`. -/
def putHtml : OperationConfig :=
  { customrequest := some "PUT".toList
    headers := [(Field.accept, "text/html".toList)]
    omitheaders := [Field.host] }

theorem putHtml_nothingOverrides (cookie : List Char) : NothingOverrides putHtml none cookie := by
  refine ⟨fun _ _ => .inl rfl, fun h hh _ hname => ?_, fun h hh h' hh' _ _ => ?_⟩
  · cases List.mem_singleton.1 hh
    exact absurd hname (by decide)
  · cases List.mem_singleton.1 hh
    cases List.mem_singleton.1 hh'
    rfl

/-- A request without a message is what the user asked for. -/
theorem putHtml_choicesWin :
    ∃ s cookie, (sends (performRequest twoSites none ⟨true, true⟩ putHtml [] none home none true
        [hop away]).2).head? = some s ∧ ChoicesWin putHtml cookie s.request := by
  obtain ⟨s, hs⟩ : ∃ s, (sends (performRequest twoSites none ⟨true, true⟩ putHtml [] none home none
      true [hop away]).2).head? = some s := Option.isSome_iff_exists.1 (by decide +kernel)
  obtain ⟨x, cookie, -, -, hiff⟩ := choicesWin_iff twoSites none ⟨true, true⟩ putHtml [] none home
    none true [hop away] hs
  exact ⟨s, cookie, hs, hiff.2 (putHtml_nothingOverrides cookie)⟩

/-- `burl -H "Cookie: a=1"`. -/
def cookieHeader : OperationConfig := { headers := [(Field.cookie, "a=1".toList)] }

/-- `-X PUT` with a message sends a POST, and a Cookie field of `-H` is not sent. -/
theorem putData_not_choicesWin :
    (∃ s, (sends (performRequest twoSites none ⟨true, true⟩ putHtml [] (some ⟨['x'], []⟩) home none
        true [hop away]).2).head? = some s ∧ ∀ cookie, ¬ ChoicesWin putHtml cookie s.request) ∧
    ∃ s, (sends (performRequest twoSites none ⟨true, true⟩ cookieHeader [] none home none true
        [hop away]).2).head? = some s ∧ ∀ cookie, ¬ ChoicesWin cookieHeader cookie s.request := by
  constructor
  · have hpost : ((sends (performRequest twoSites none ⟨true, true⟩ putHtml [] (some ⟨['x'], []⟩)
        home none true [hop away]).2).head?.map (·.request.method)) = some methodPost := by
      decide +kernel
    obtain ⟨s, hs, hmethod⟩ := Option.map_eq_some_iff.1 hpost
    refine ⟨s, hs, fun cookie hwin => ?_⟩
    have hput := hmethod.symm.trans (hwin.method _ rfl)
    revert hput
    decide
  · have hnone : ((sends (performRequest twoSites none ⟨true, true⟩ cookieHeader [] none home none
        true [hop away]).2).head?.map (findAll ·.request.fields Field.cookie)) = some [] := by
      decide +kernel
    obtain ⟨s, hs, hfields⟩ := Option.map_eq_some_iff.1 hnone
    refine ⟨s, hs, fun cookie hwin => ?_⟩
    have homit : ¬ Omitted cookieHeader Field.cookie := by
      rintro ⟨m, hm, -⟩
      cases hm
    cases hfields.symm.trans (hwin.headers _ List.mem_cons_self homit)

end Beast2.Burl
