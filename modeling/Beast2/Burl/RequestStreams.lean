import Beast2.Burl.ConnectOrder
import Beast2.Burl.Origins

/-!
# The stream of a request

`perform_request` may send a request over a connection that was opened for another URL. Since that
is only ever one of the same origin, and `connect` reads of a URL no more than what is in its
origin, the stream is the one that `connect` would give for the URL of the request itself: TLS with
the host of that URL, if it is an `https` URL, over a connection to the first hop for it
(`requests_over_own_stream`).
-/

namespace Beast2.Burl

open Loop Log

section
variable {F Ref : Type}

/-- A request whose URL has an authority goes out on a connection that was opened last, and the
stream of that connection is one that is ready for the URL of the request. `view` is a URL as
`connect` reads it. -/
def OverOwnStream (cc : ConnectConfig) (hosts : Hosts) (view : Url → ConnectUrl)
    (log : List (Event F)) (e : Event F) : Prop :=
  ∀ s, e = .send s → s.url.encodedOrigin ≠ [] →
    ∃ url, (connects log).getLast? = some url ∧
      ∀ net layer, (connect cc hosts net (view url)).result = .ok layer →
        Ready cc hosts net (view s.url) layer (connect cc hosts net (view url)).log

/-- A request over a connection to its origin goes over its own stream. -/
theorem InOrder.overOwnStream {oc : OperationConfig} {cc : ConnectConfig} {hosts : Hosts}
    {view : Url → ConnectUrl} {log : List (Event F)} {e : Event F} (h : InOrder oc log e)
    (hview : ∀ u v : Url, u.encodedOrigin = v.encodedOrigin → u.encodedOrigin ≠ [] →
      view u = view v) : OverOwnStream cc hosts view log e := by
  intro s hs hne
  obtain ⟨url, hlast, horigin⟩ := h.connected s hs
  refine ⟨url, hlast, fun net layer hlayer => ?_⟩
  rw [hview url s.url horigin (horigin ▸ hne)] at hlayer ⊢
  exact (spec_connect.along rfl).2 layer hlayer

variable [Fields.Container F]

/-- Whatever the responses are and however the connections are made, every request of
`perform_request` for a URL with an authority goes over a stream that `connect` makes ready for that
URL itself, if a URL as `connect` reads it depends on the origin only. -/
theorem requests_over_own_stream (urls : Urls Ref) (psl : Psl) (build : Build)
    (oc : OperationConfig) (expCookies : List Char) (msg : Message) (url : Url)
    (jar : Option (List Cookie)) (connected : Bool) (exchanges : List (Exchange F))
    (cc : ConnectConfig) (hosts : Hosts) (view : Url → ConnectUrl)
    (hview : ∀ u v : Url, u.encodedOrigin = v.encodedOrigin → u.encodedOrigin ≠ [] →
      view u = view v) :
    Along (OverOwnStream cc hosts view)
      (performRequest urls psl build oc expCookies msg url jar connected exchanges).2 := by
  refine Along.mono ?_ fun l e (he : InOrder oc l e) => he.overOwnStream hview
  refine performRequest_log (P := Along (InOrder oc)) along_nil fun request _ => ?_
  refine run_rec (P := fun (t : Transfer F) (r : Ending F × Transfer F) => t.AtOrigin oc →
      Along (InOrder oc) r.2.log)
    (fun t r hturn ht => (ht.turn_exit hturn).1)
    (fun t t' r hturn ih ht => ih (ht.turn_next hturn)) _ ?_
  refine ⟨?_, ⟨url, rfl, rfl⟩, rfl, fun hne => absurd rfl hne, Nat.zero_add _⟩
  exact along_append_singleton.2 ⟨along_nil, inOrder_connect fun hne => absurd rfl hne⟩

end

/-- A URL `https://host/` as `connect` reads it: the scheme, and the host from the origin. -/
def httpsView (url : Url) : ConnectUrl :=
  ⟨"https".toList, url.encodedOrigin.drop "https://".length, none⟩

/-- A transfer that stays at its site, goes to another one and comes back. -/
theorem homeHomeAway_over_own_stream :
    Along (OverOwnStream {} plainHosts httpsView)
      (performRequest twoSites none ⟨true, true⟩ withPassword "id=1".toList none home none true
        [hop home, hop away, hop home]).2 :=
  requests_over_own_stream twoSites none ⟨true, true⟩ withPassword "id=1".toList none home none true
    [hop home, hop away, hop home] {} plainHosts httpsView
    fun u v h _ => by rw [httpsView, httpsView, h]

end Beast2.Burl
