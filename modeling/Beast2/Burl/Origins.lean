import Beast2.Lib.Log
import Beast2.Burl.Credentials

/-!
# Every request on a connection to its origin

When `perform_request` follows a redirect it keeps the connection or opens a new one. It decides by
the response and by the origins of the new URL and of `referer`, a variable that is also the base of
relative redirects and the value of the Referer field. Whatever the responses are, a request goes
out on a connection that was opened for its own origin; nothing is done with a URL from a redirect
whose scheme is not allowed; and there are at most `maxredirs` redirects (`requests_at_origin`).

The invariant is that at the head of the loop `referer` is the URL of the request at hand and the
last connection is to its origin (`Transfer.AtOrigin`).
-/

namespace Beast2.Burl

open Loop Log

section
variable {F Ref : Type}

/-- The URLs that a log connects to. -/
def connects (log : List (Event F)) : List Url :=
  log.filterMap fun
    | .connect url => some url
    | .send _ => none

/-- The URL of an event. -/
def Event.url : Event F → Url
  | .connect url => url
  | .send s => s.url

/-- An event after a log is in order: a request is for the origin of the last connection, and once a
request was sent, the scheme of a URL is one that redirects may have. -/
structure InOrder (oc : OperationConfig) (log : List (Event F)) (e : Event F) : Prop where
  connected : ∀ s, e = .send s → ∃ url, (connects log).getLast? = some url ∧
    url.encodedOrigin = s.url.encodedOrigin
  scheme : sends log ≠ [] → e.url.schemeId ∈ oc.protoRedir

/-- At the head of the loop: the log is in order, the last connection is to the origin of the
request at hand, and so is `referer`; the scheme of its URL is allowed if it is from a redirect; and
the redirects so far are counted. -/
structure Transfer.AtOrigin (oc : OperationConfig) (t : Transfer F) : Prop where
  log : Along (InOrder oc) t.log
  connected : ∃ url, (connects t.log).getLast? = some url ∧ url.encodedOrigin = t.url.encodedOrigin
  referer : t.referer = t.url
  scheme : sends t.log ≠ [] → t.url.schemeId ∈ oc.protoRedir
  count : (sends t.log).length + t.maxredirs = oc.maxredirs

theorem connects_send (log : List (Event F)) (s : Sent F) :
    connects (log ++ [.send s]) = connects log := by
  simp [connects]

theorem connects_connect (log : List (Event F)) (url : Url) :
    connects (log ++ [.connect url]) = connects log ++ [url] := by
  simp [connects]

variable [Fields.Container F] {urls : Urls Ref} {psl : Psl} {oc : OperationConfig}
  {expCookies : List Char} {orgUrl : Url} {t : Transfer F} {s : Sent F}

omit [Fields.Container F] in
/-- A connection to a URL of an allowed scheme is in order. -/
theorem inOrder_connect {log : List (Event F)} {url : Url}
    (h : sends log ≠ [] → url.schemeId ∈ oc.protoRedir) : InOrder oc log (.connect url) := by
  refine ⟨?_, h⟩
  intro s hs
  cases hs

/-- The request of a turn is for the URL at hand. -/
theorem Transfer.sent_url (h : t.sent expCookies = some s) : s.url = t.url := by
  obtain ⟨cookie, hurl, -⟩ := Transfer.sent_eq h
  exact hurl

/-- The request of a turn is in order. -/
theorem Transfer.AtOrigin.along_sent (h : t.AtOrigin oc) (hsent : t.sent expCookies = some s) :
    Along (InOrder oc) (t.log ++ [.send s]) := by
  have hurl := Transfer.sent_url hsent
  refine along_append_singleton.2 ⟨h.log, ?_, fun hne => ?_⟩
  · intro _ heq
    cases heq
    rw [hurl]
    exact h.connected
  · show s.url.schemeId ∈ oc.protoRedir
    rw [hurl]
    exact h.scheme hne

/-- A turn that goes round keeps the invariant. -/
theorem Transfer.AtOrigin.turn_next (h : t.AtOrigin oc) {t' : Transfer F}
    (hturn : t.turn urls psl oc expCookies orgUrl = .next t') : t'.AtOrigin oc := by
  rcases @Transfer.turn_cases F Ref _ urls psl oc expCookies orgUrl t with
    ⟨e, t', heq, -⟩ | ⟨s, res, t₀, t₁, url, heq, hsends, -, hfollows⟩
  · cases hturn.symm.trans heq
  cases hturn.symm.trans heq
  have halong := h.along_sent hsends.sent
  have hlog := Transfer.sends_followRedirect urls orgUrl
    (isRedirect oc res.status).needMethodChange hsends hfollows
  have hcount := h.count
  have hredirs := hfollows.maxredirs
  rw [hsends.maxredirs] at hredirs
  refine ⟨?_, ?_, rfl, fun _ => hfollows.scheme, ?_⟩
  · show Along (InOrder oc) t₁.log
    rcases hfollows.log with ⟨hsame, -⟩ | hnew
    · rw [hsame, hsends.log]
      exact halong
    · rw [hnew, hsends.log]
      exact along_append_singleton.2 ⟨halong, inOrder_connect fun _ => hfollows.scheme⟩
  · show ∃ u, (connects t₁.log).getLast? = some u ∧ u.encodedOrigin = url.encodedOrigin
    rcases hfollows.log with ⟨hsame, horigin⟩ | hnew
    · -- the connection is kept: it is to the origin of `referer`, which is that of the new URL
      obtain ⟨u, hu, hlast⟩ := h.connected
      rw [hsends.referer, h.referer] at horigin
      exact ⟨u, by rw [hsame, hsends.log, connects_send, hu], hlast.trans horigin⟩
    · refine ⟨url, ?_, rfl⟩
      rw [hnew, connects_connect, List.getLast?_concat]
  · show (sends _).length + t₁.maxredirs = oc.maxredirs
    rw [hlog, List.length_append, List.length_singleton]
    omega

/-- What a turn that leaves the loop leaves: a log in order with at most one request more than
redirects, and that one more if there were too many. -/
theorem Transfer.AtOrigin.turn_exit (h : t.AtOrigin oc) {e : Ending F} {t' : Transfer F}
    (hturn : t.turn urls psl oc expCookies orgUrl = .exit (e, t')) :
    Along (InOrder oc) t'.log ∧ (sends t'.log).length ≤ oc.maxredirs + 1 ∧
      (e = tooManyRedirects → (sends t'.log).length = oc.maxredirs + 1) := by
  rcases @Transfer.turn_cases F Ref _ urls psl oc expCookies orgUrl t with
    ⟨e, t', heq, hlog, hmax⟩ | ⟨s, res, t₀, t₁, url, heq, -⟩
  · cases hturn.symm.trans heq
    have hcount := h.count
    rw [hlog, Transfer.sends_sent]
    cases hsent : t.sent expCookies with
    | none =>
      refine ⟨by simpa using h.log, by simp; omega, fun he => ?_⟩
      exact absurd (hmax he).2 (by simp [hsent])
    | some s =>
      refine ⟨h.along_sent hsent, ?_, fun he => ?_⟩
      · simp only [Option.toList_some, List.length_append, List.length_singleton]
        omega
      · have hzero := (hmax he).1
        simp only [Option.toList_some, List.length_append, List.length_singleton]
        omega
  · cases hturn.symm.trans heq

/-- The exception of `create_request` is another one. -/
theorem thrown_ne_tooManyRedirects {build : Build} {msg : Message} {url : Url} {what : String}
    (h : createRequest build oc msg url = .error (α := Request F) what) :
    (.thrown what : Ending F) ≠ tooManyRedirects := by
  unfold createRequest at h
  split at h
  · cases h
    simp [tooManyRedirects]
  · cases h

/-- Whatever the responses are, every request of `perform_request` goes out on a connection that was
opened for its origin, nothing is done with a URL from a redirect whose scheme is not allowed, and
at most `maxredirs + 1` requests are sent: the transfer ends with too many redirects only after that
many. -/
theorem requests_at_origin (urls : Urls Ref) (psl : Psl) (build : Build) (oc : OperationConfig)
    (expCookies : List Char) (msg : Message) (url : Url) (jar : Option (List Cookie))
    (connected : Bool) (exchanges : List (Exchange F)) :
    let r := performRequest urls psl build oc expCookies msg url jar connected exchanges
    Along (InOrder oc) r.2 ∧ (sends r.2).length ≤ oc.maxredirs + 1 ∧
      (r.1 = tooManyRedirects → (sends r.2).length = oc.maxredirs + 1) := by
  refine performRequest_rec (P := fun e log => Along (InOrder oc) log ∧
    (sends log).length ≤ oc.maxredirs + 1 ∧
      (e = tooManyRedirects → (sends log).length = oc.maxredirs + 1)) ?_ ?_ ?_
  · intro what herror
    refine ⟨along_nil, Nat.zero_le _, fun he => ?_⟩
    exact absurd he (thrown_ne_tooManyRedirects herror)
  · refine ⟨along_nil, Nat.zero_le _, fun he => ?_⟩
    cases he
  · rintro request _ - rfl
    refine run_rec (P := fun (t : Transfer F) (r : Ending F × Transfer F) => t.AtOrigin oc →
        Along (InOrder oc) r.2.log ∧ (sends r.2.log).length ≤ oc.maxredirs + 1 ∧
          (r.1 = tooManyRedirects → (sends r.2.log).length = oc.maxredirs + 1))
      (fun t r hturn ht => ht.turn_exit hturn)
      (fun t t' r hturn ih ht => ih (ht.turn_next hturn)) _ ?_
    refine ⟨?_, ⟨url, rfl, rfl⟩, rfl, fun hne => absurd rfl hne, ?_⟩
    · exact along_append_singleton.2 ⟨along_nil, inOrder_connect fun hne => absurd rfl hne⟩
    · exact Nat.zero_add _

end

end Beast2.Burl
