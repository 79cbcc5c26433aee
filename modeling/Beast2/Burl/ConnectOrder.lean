import Beast2.Lib.TraceSpec
import Beast2.Burl.Connect

/-!
# What `connect` does, and in which order

Whatever the network does, `connect` contacts nobody but the first hop: the Unix domain socket, the
proxy, or the host that `--connect-to` and `--resolve` put in the place of the URL's. It resolves
that name and no other, tries the addresses it may use until one accepts, and asks a proxy for a
tunnel before anything else is sent. The handshake is the last thing it does, over a connection that
is open to the end, and it is with the host that the URL had before it was replaced; there is one if
and only if the URL is an `https` URL (`connect_in_order`).
-/

namespace Beast2.Burl

open Trace Log

/-- The options -4 and -6 do not hold for the addresses of a proxy. -/
def ConnectConfig.mayUse (oc : ConnectConfig) (a : IpAddress) : Bool :=
  oc.proxy.isSome || (!(oc.ipv4 && a.isV6) && !(oc.ipv6 && a.isV4))

/-- The host and the port of the first hop: of the proxy, or of the URL after `--connect-to` and
`--resolve`. -/
inductive FirstHop (oc : ConnectConfig) (hosts : Hosts) (url : ConnectUrl) :
    List Char → List Char → Prop where
  | proxy {p : ProxyUrl} {port : List Char} (hproxy : oc.proxy = some p)
      (hport : Socks.effectivePort p.endpoint = .ok port) : FirstHop oc hosts url p.host port
  | host {target : ConnectUrl} {port : List Char} (hproxy : oc.proxy = none)
      (htarget : rewrite oc hosts url = .ok target)
      (hport : Socks.effectivePort (target.endpoint hosts) = .ok port) :
      FirstHop oc hosts url (target.host hosts) port

/-- The messages of a tunnel through a SOCKS5 proxy, and whether it was opened. -/
def socksRun (hosts : Hosts) (net : Network) (target : ConnectUrl) (p : ProxyUrl) :
    List (List UInt8) × Bool :=
  match Socks.connectSocks5Proxy (target.endpoint hosts) p.endpoint true ⟨net.incoming, []⟩ with
  | .ok _ s => (s.written, true)
  | .error _ s => (s.written, false)

section
variable (oc : ConnectConfig) (hosts : Hosts) (net : Network) (url : ConnectUrl)

/-- The first hop was resolved, the addresses tried so far do not accept, and there are more. -/
structure Trying (tried rest : List IpAddress) (l : List NetOp) : Prop where
  noUnix : oc.unixSocketPath = []
  log : ∃ host port as, FirstHop oc hosts url host port ∧
    l = .resolve host port :: tried.map .connect ∧
    net.resolve host port = some as ∧ as.filter oc.mayUse = tried ++ rest
  rejected : ∀ a ∈ tried, net.accepts a = false

/-- The first hop has accepted the connection. -/
inductive Reached : List NetOp → Prop where
  | mk {tried rest : List IpAddress} {a : IpAddress} {l : List NetOp}
      (htrying : Trying oc hosts net url tried (a :: rest) l) (ha : net.accepts a = true) :
      Reached (l ++ [.connect a])

/-- The connection is open to the end: to the socket, to the host, or through a tunnel to it. -/
inductive Opened : List NetOp → Prop where
  | unix (hpath : oc.unixSocketPath ≠ []) (hok : net.connectUnix oc.unixSocketPath = true) :
      Opened [.connectUnix oc.unixSocketPath]
  | direct {l : List NetOp} (hproxy : oc.proxy = none) (hl : Reached oc hosts net url l) : Opened l
  | http {l : List NetOp} {p : ProxyUrl} {target : ConnectUrl} {port : List Char}
      (hproxy : oc.proxy = some p) (hscheme : p.endpoint.scheme = "http".toList)
      (htarget : rewrite oc hosts url = .ok target)
      (hport : Socks.effectivePort (target.endpoint hosts) = .ok port)
      (hl : Reached oc hosts net url l) (hstatus : net.proxyStatus = some 200) :
      Opened (l ++ [.request (tunnelRequest oc p (target.host hosts ++ ':' :: port))])
  | socks5 {l : List NetOp} {p : ProxyUrl} {target : ConnectUrl}
      (hproxy : oc.proxy = some p) (hscheme : p.endpoint.scheme = "socks5".toList)
      (htarget : rewrite oc hosts url = .ok target)
      (hl : Reached oc hosts net url l) (hok : (socksRun hosts net target p).2 = true) :
      Opened (l ++ (socksRun hosts net target p).1.map .write)
  | option {l : List NetOp} {o : SocketOption} (hl : Opened l) : Opened (l ++ [.setOption o])

/-- What `connect` may do after it did `l`. -/
inductive MayDo (l : List NetOp) : NetOp → Prop where
  | connectUnix (hl : l = []) (hpath : oc.unixSocketPath ≠ []) :
      MayDo l (.connectUnix oc.unixSocketPath)
  | resolve {host port : List Char} (hl : l = []) (hpath : oc.unixSocketPath = [])
      (hhop : FirstHop oc hosts url host port) : MayDo l (.resolve host port)
  | connect {tried rest : List IpAddress} {a : IpAddress}
      (hl : Trying oc hosts net url tried (a :: rest) l) : MayDo l (.connect a)
  | request {p : ProxyUrl} {target : ConnectUrl} {port : List Char}
      (hproxy : oc.proxy = some p) (hscheme : p.endpoint.scheme = "http".toList)
      (htarget : rewrite oc hosts url = .ok target)
      (hport : Socks.effectivePort (target.endpoint hosts) = .ok port)
      (hl : Reached oc hosts net url l) :
      MayDo l (.request (tunnelRequest oc p (target.host hosts ++ ':' :: port)))
  | write {l' : List NetOp} {p : ProxyUrl} {target : ConnectUrl} {before after : List (List UInt8)}
      {bytes : List UInt8}
      (hproxy : oc.proxy = some p) (hscheme : p.endpoint.scheme = "socks5".toList)
      (htarget : rewrite oc hosts url = .ok target)
      (hl' : Reached oc hosts net url l') (hl : l = l' ++ before.map .write)
      (hrun : (socksRun hosts net target p).1 = before ++ bytes :: after) :
      MayDo l (.write bytes)
  | setOption {o : SocketOption} (hl : Opened oc hosts net url l) : MayDo l (.setOption o)
  | handshake (hl : Opened oc hosts net url l) (hscheme : schemeId url.scheme = .https) :
      MayDo l (.handshake ((url.host hosts).takeWhile (· != '\x00')) (url.host hosts))

/-- The stream of a connection and what was done for it: for an `https` URL a handshake with the
host of the URL, after all else. -/
inductive Ready : Layer → List NetOp → Prop where
  | plain {l : List NetOp} (hscheme : schemeId url.scheme ≠ .https)
      (hl : Opened oc hosts net url l) : Ready .plain l
  | tls {l : List NetOp} (hscheme : schemeId url.scheme = .https)
      (hl : Opened oc hosts net url l) (hok : net.handshake (url.host hosts) = true) :
      Ready (.tls (url.host hosts)) (l ++ [.handshake
        ((url.host hosts).takeWhile (· != '\x00')) (url.host hosts)])

end

section
variable {oc : ConnectConfig} {hosts : Hosts} {net : Network} {url target : ConnectUrl}
  {p : ProxyUrl} {layer : Layer}

/-- What follows the closures of the options. -/
theorem spec_liftConnectTo {α β : Type} {x : Except ConnectToThrown α} {f : α → NetM β}
    {Q : List NetOp → NetOp → Prop} {P : List NetOp → Prop} {R : β → List NetOp → Prop}
    (h : ∀ a, x = .ok a → Spec Q P (f a) R) : Spec Q P (liftConnectTo x >>= f) R := by
  refine .bind_lift fun a ha => h a ?_
  cases x with
  | ok b =>
    cases ha
    rfl
  | error e =>
    cases e with
    | runtimeError what => cases ha
    | systemError => cases ha

/-- The resolution of the first hop. -/
theorem spec_asyncResolve {host port : List Char} (hpath : oc.unixSocketPath = [])
    (hhop : FirstHop oc hosts url host port) :
    Spec (MayDo oc hosts net url) (· = []) (asyncResolve net host port)
      fun as l => Trying oc hosts net url [] (as.filter oc.mayUse) l := by
  refine .bind (R := fun _ l => l = [.resolve host port]) (.emit ?_ ?_) fun _ => ?_
  · rintro l rfl
    exact .resolve rfl hpath hhop
  · rintro l rfl
    rfl
  · split
    · next as has =>
      refine .ret ?_
      rintro l rfl
      exact ⟨hpath, ⟨host, port, as, hhop, rfl, has, rfl⟩, fun a ha => (by cases ha)⟩
    · exact .raise

/-- The addresses of the first hop, those that were tried first and those that are left. -/
theorem spec_asyncConnect {cond : IpAddress → Bool} (hcond : cond = oc.mayUse)
    (addresses tried : List IpAddress) :
    Spec (MayDo oc hosts net url) (Trying oc hosts net url tried (addresses.filter oc.mayUse))
      (asyncConnect net cond addresses) fun _ l => Reached oc hosts net url l := by
  subst hcond
  induction addresses generalizing tried with
  | nil => exact .raise
  | cons a as ih =>
    rw [asyncConnect]
    split
    · next ha =>
      rw [List.filter_cons_of_pos ha]
      refine .bind (R := fun _ l => ∃ l', l = l' ++ [.connect a] ∧
        Trying oc hosts net url tried (a :: as.filter oc.mayUse) l') (.emit ?_ ?_) fun _ => ?_
      · exact fun l hl => .connect hl
      · exact fun l hl => ⟨l, rfl, hl⟩
      · split
        · next haccepts =>
          refine .ret ?_
          rintro l ⟨l', rfl, hl'⟩
          exact .mk hl' haccepts
        · next hrejects =>
          refine (ih (tried ++ [a])).mono ?_ fun _ _ h => h
          rintro l ⟨l', rfl, hl'⟩
          obtain ⟨host, port, all, hhop, hlog, hresolve, hall⟩ := hl'.log
          refine ⟨hl'.noUnix, ⟨host, port, all, hhop, ?_, hresolve, ?_⟩, ?_⟩
          · rw [hlog, List.map_append]
            rfl
          · rw [hall, List.append_assoc]
            rfl
          · intro b hb
            rcases List.mem_append.1 hb with hb | hb
            · exact hl'.rejected b hb
            · cases List.mem_singleton.1 hb
              exact Bool.eq_false_iff.2 hrejects
    · next ha =>
      rw [List.filter_cons_of_neg ha]
      exact ih tried

/-- A proxy has no options for its addresses. -/
theorem mayUse_proxy (hproxy : oc.proxy = some p) : (fun _ => true) = oc.mayUse := by
  funext a
  rw [ConnectConfig.mayUse, hproxy]
  rfl

theorem mayUse_direct (hproxy : oc.proxy = none) :
    (fun a : IpAddress => !(oc.ipv4 && a.isV6) && !(oc.ipv6 && a.isV4)) = oc.mayUse := by
  funext a
  rw [ConnectConfig.mayUse, hproxy]
  rfl

/-- A tunnel through a SOCKS5 proxy. -/
theorem spec_connectSocks5 (hpath : oc.unixSocketPath = []) (hproxy : oc.proxy = some p)
    (hscheme : p.endpoint.scheme = "socks5".toList) (htarget : rewrite oc hosts url = .ok target) :
    Spec (MayDo oc hosts net url) (· = []) (connectSocks5 hosts net target p)
      fun _ l => Opened oc hosts net url l := by
  refine .bind_lift fun port hport => ?_
  refine .bind (spec_asyncResolve hpath (.proxy hproxy hport)) fun as => ?_
  refine .bind (spec_asyncConnect (mayUse_proxy hproxy) as []) fun _ => ?_
  have hrun (l l₁ : List NetOp) (o : NetOp) (l₂ : List NetOp) (hl : Reached oc hosts net url l)
      (h : (socksRun hosts net target p).1.map .write = l₁ ++ o :: l₂) :
      MayDo oc hosts net url (l ++ l₁) o := by
    obtain ⟨before, rest, hbefore, rfl, hrest⟩ := List.map_eq_append_iff.1 h
    obtain ⟨bytes, after, rfl, rfl, -⟩ := List.map_eq_cons_iff.1 hrest
    exact .write hproxy hscheme htarget hl rfl hbefore
  split
  · next s heq =>
    have hsocks : socksRun hosts net target p = (s.written, true) := by
      rw [socksRun, heq]
    refine .of_log (fun l hl l₁ o l₂ hlog => hrun l l₁ o l₂ hl ?_) fun l _ hl _ => ?_
    · rw [hsocks]
      exact hlog
    · have hopened := Opened.socks5 hproxy hscheme htarget hl (by rw [hsocks])
      rwa [hsocks] at hopened
  · next e s heq =>
    have hsocks : socksRun hosts net target p = (s.written, false) := by
      rw [socksRun, heq]
    refine .of_log (fun l hl l₁ o l₂ hlog => hrun l l₁ o l₂ hl ?_) fun l a _ ha => (by cases ha)
    rw [hsocks]
    exact hlog

/-- A tunnel through an HTTP proxy. -/
theorem spec_connectHttpProxy (hpath : oc.unixSocketPath = []) (hproxy : oc.proxy = some p)
    (hscheme : p.endpoint.scheme = "http".toList) (htarget : rewrite oc hosts url = .ok target) :
    Spec (MayDo oc hosts net url) (· = []) (connectHttpProxy oc hosts net target p)
      fun _ l => Opened oc hosts net url l := by
  refine .bind_lift fun port hport => ?_
  refine .bind (spec_asyncResolve hpath (.proxy hproxy hport)) fun as => ?_
  refine .bind (spec_asyncConnect (mayUse_proxy hproxy) as []) fun _ => ?_
  refine .bind_lift fun port hport => ?_
  refine .bind (R := fun _ l => ∃ l', Reached oc hosts net url l' ∧
    l = l' ++ [.request (tunnelRequest oc p (target.host hosts ++ ':' :: port))])
    (.emit ?_ ?_) fun _ => ?_
  · exact fun l hl => .request hproxy hscheme htarget hport hl
  · exact fun l hl => ⟨l, hl, rfl⟩
  · split
    · exact .raise
    · next status hstatus =>
      refine .require ?_
      rintro l ⟨l', hl', rfl⟩ h200
      rw [beq_iff_eq] at h200
      exact .http hproxy hscheme htarget hport hl' (by rw [hstatus, h200])

/-- The connection to the proxy or to the host. -/
theorem spec_reach (hpath : oc.unixSocketPath = []) (htarget : rewrite oc hosts url = .ok target) :
    Spec (MayDo oc hosts net url) (· = []) (reach oc hosts net target)
      fun _ l => Opened oc hosts net url l := by
  unfold reach
  split
  · next p hproxy =>
    split
    · next hscheme => exact spec_connectHttpProxy hpath hproxy hscheme htarget
    · split
      · next hscheme => exact spec_connectSocks5 hpath hproxy hscheme htarget
      · exact .raise
  · next hproxy =>
    refine .bind_lift fun port hport => ?_
    refine .bind (spec_asyncResolve hpath (.host hproxy htarget hport)) fun as => ?_
    refine (spec_asyncConnect (mayUse_direct hproxy) as []).mono (fun _ h => h) fun _ l hl => ?_
    exact .direct hproxy hl

theorem spec_setOptionIf (b : Bool) (o : SocketOption) :
    Spec (MayDo oc hosts net url) (Opened oc hosts net url) (setOptionIf net b o)
      fun _ l => Opened oc hosts net url l := by
  unfold setOptionIf
  split
  · refine .bind (.emit (R := fun _ l => Opened oc hosts net url l) ?_ ?_) fun _ => ?_
    · exact fun l hl => .setOption hl
    · exact fun l hl => .option hl
    · exact .require fun l hl _ => hl
  · exact .ret fun l hl => hl

/-- The handshake, with the host that the URL had at first. -/
theorem spec_startLayer (hscheme : schemeId target.scheme = schemeId url.scheme) :
    Spec (MayDo oc hosts net url) (Opened oc hosts net url)
      (startLayer net target (url.host hosts)) fun layer l => Ready oc hosts net url layer l := by
  unfold startLayer
  rw [hscheme]
  split
  · next h =>
    refine .bind_require fun _ => ?_
    refine .bind (R := fun _ l => ∃ l', Opened oc hosts net url l' ∧ l = l' ++
      [.handshake ((url.host hosts).takeWhile (· != '\x00')) (url.host hosts)])
      (.emit ?_ ?_) fun _ => ?_
    · exact fun l hl => .handshake hl h
    · exact fun l hl => ⟨l, hl, rfl⟩
    · refine .bind_require fun hok => .ret ?_
      rintro l ⟨l', hl', rfl⟩
      exact .tls h hl' hok
  · next h => exact .ret fun l hl => .plain h hl

/-- `--connect-to` keeps the scheme. -/
theorem connectTo_scheme {items : List (UrlRef × UrlRef)}
    (h : connectTo items url = .ok target) : target.scheme = url.scheme := by
  induction items with
  | nil =>
    cases h
    rfl
  | cons item items ih =>
    rw [connectTo] at h
    split at h
    · exact ih h
    · obtain ⟨port, -, h⟩ := Grammar.bind_ok.1 h
      split at h
      · exact ih h
      · cases h
        split <;> split <;> rfl

/-- `--resolve` keeps the scheme. -/
theorem resolveTo_scheme {items : List ResolveItem}
    (h : resolveTo hosts items url = .ok target) : target.scheme = url.scheme := by
  induction items with
  | nil =>
    cases h
    rfl
  | cons item items ih =>
    rw [resolveTo] at h
    split at h
    · exact ih h
    · obtain ⟨port, -, h⟩ := Grammar.bind_ok.1 h
      split at h
      · exact ih h
      · cases h
        rfl

theorem rewrite_scheme (h : rewrite oc hosts url = .ok target) : target.scheme = url.scheme := by
  obtain ⟨url₁, h₁, h₂⟩ := Grammar.bind_ok.1 h
  have hscheme₁ : url₁.scheme = url.scheme := by
    split at h₁
    · exact connectTo_scheme h₁
    · cases h₁
      rfl
  have hscheme₂ : target.scheme = url₁.scheme := by
    split at h₂
    · exact resolveTo_scheme h₂
    · cases h₂
      rfl
  exact hscheme₂.trans hscheme₁

theorem spec_connect :
    Spec (MayDo oc hosts net url) (· = []) (connect oc hosts net url)
      fun layer l => Ready oc hosts net url layer l := by
  unfold connect
  split
  · next hpath =>
    have hne : oc.unixSocketPath ≠ [] := by simpa using hpath
    refine .bind (R := fun _ l => l = [.connectUnix oc.unixSocketPath]) (.emit ?_ ?_) fun _ => ?_
    · rintro l rfl
      exact .connectUnix rfl hne
    · rintro l rfl
      rfl
    · refine .bind_require fun hok => ?_
      refine (spec_startLayer rfl).mono ?_ fun _ _ h => h
      rintro l rfl
      exact .unix hne hok
  · next hpath =>
    have hnil : oc.unixSocketPath = [] := by simpa using hpath
    refine spec_liftConnectTo fun target htarget => ?_
    refine .bind (spec_reach hnil htarget) fun _ => ?_
    refine .bind (spec_setOptionIf oc.tcpNodelay (.noDelay true)) fun _ => ?_
    refine .bind (spec_setOptionIf oc.nokeepalive (.keepAlive false)) fun _ => ?_
    exact spec_startLayer (by rw [rewrite_scheme htarget])

end

end Beast2.Burl
