import Beast2.Lib.Trace
import Beast2.Burl.Request
import Beast2.Burl.Resolve
import Beast2.Burl.Socks

/-!
# Connecting to the host of a URL

`connect` gives `perform_request` a stream to the host of a URL: through a Unix domain socket,
through an HTTP or a SOCKS5 proxy, or to one of the addresses of the host; `--connect-to` and
`--resolve` replace the host and the port before that. For an `https` URL it performs a TLS
handshake over the connection, with the host that the URL had at first (`connect.cpp:223-308`).

What the network does is a `Network`: which names it resolves and to what, which connections
succeed, what a proxy answers, and whether a handshake succeeds. The run of `connect` is a trace of
what it does on the network.
-/

namespace Beast2.Burl

open Trace

/-- An IP address. -/
inductive IpAddress where
  | v4 (bytes : List UInt8)
  | v6 (bytes : List UInt8)
deriving DecidableEq, Repr

/-- `is_v4` and `is_v6`. -/
def IpAddress.isV4 : IpAddress → Bool
  | .v4 _ => true
  | .v6 _ => false

def IpAddress.isV6 (a : IpAddress) : Bool := !a.isV4

/-- `oc.proxy`: the URL as the SOCKS5 client reads it, the decoded host and the decoded
`encoded_userinfo()` as characters. -/
structure ProxyUrl where
  endpoint : Socks.Endpoint
  host : List Char
  userinfo : List Char
deriving DecidableEq, Repr

/-- The options of `operation_config` that `connect` depends on: the closures by their items, and no
proxy for an empty URL. Reference: `options.hpp:51-66, 101`. -/
structure ConnectConfig where
  unixSocketPath : List Char := []
  connectTo : Option (List (UrlRef × UrlRef)) := none
  resolveTo : Option (List ResolveItem) := none
  proxy : Option ProxyUrl := none
  ipv4 : Bool := false
  ipv6 : Bool := false
  tcpNodelay : Bool := true
  nokeepalive : Bool := false
  useragent : Option (List Char) := none
deriving DecidableEq, Repr

/-- A socket option. -/
inductive SocketOption where
  | noDelay (value : Bool)
  | keepAlive (value : Bool)
deriving DecidableEq, Repr

/-- What the network does. -/
structure Network where
  connectUnix : List Char → Bool
  resolve : List Char → List Char → Option (List IpAddress)
  accepts : IpAddress → Bool
  incoming : List UInt8
  proxyStatus : Option Nat
  setOption : SocketOption → Bool
  setHostName : List Char → Bool
  handshake : List Char → Bool

/-- What `connect` does on the network: it connects to a Unix domain socket, resolves a host and a
port, tries an address, writes a message of SOCKS5 or a request, sets an option, or performs a
handshake with a server name and the host that the certificate must be for. -/
inductive NetOp where
  | connectUnix (path : List Char)
  | resolve (host port : List Char)
  | connect (address : IpAddress)
  | write (bytes : List UInt8)
  | request (r : Request Fields.FieldList)
  | setOption (option : SocketOption)
  | handshake (sni host : List Char)
deriving DecidableEq, Repr

/-- What the stream is made of: a socket, or TLS over it with a peer that was verified for a
host. -/
inductive Layer where
  | plain
  | tls (host : List Char)
deriving DecidableEq, Repr

/-- A run on the network. -/
abbrev NetM := Trace NetOp Thrown

/-- `string_to_scheme`: a scheme without the case of its letters. -/
def schemeId (scheme : List Char) : Scheme :=
  let s := scheme.map Char.toLower
  if s = [] then .none
  else if s = "ftp".toList then .ftp
  else if s = "file".toList then .file
  else if s = "http".toList then .http
  else if s = "https".toList then .https
  else if s = "ws".toList then .ws
  else if s = "wss".toList then .wss
  else .unknown

/-- The URL as the SOCKS5 client reads it. -/
def ConnectUrl.endpoint (hosts : Hosts) (url : ConnectUrl) : Socks.Endpoint where
  scheme := url.scheme
  port := url.port
  host := (url.host hosts).map fun c => UInt8.ofNat c.toNat
  userinfo := none

/-- What the closures of the options throw. -/
def liftConnectTo {α : Type} (x : Except ConnectToThrown α) : NetM α :=
  lift (match x with
    | .ok a => .ok a
    | .error (.runtimeError what) => .error (.runtimeError what)
    | .error .systemError => .error .network)

/-- `async_resolve`. -/
def asyncResolve (net : Network) (host port : List Char) : NetM (List IpAddress) := do
  emit (.resolve host port)
  match net.resolve host port with
  | some addresses => ret addresses
  | none => raise .network

/-- `asio::async_connect` with a condition: the addresses in order, until one accepts. -/
def asyncConnect (net : Network) (cond : IpAddress → Bool) : List IpAddress → NetM Unit
  | [] => raise .network
  | a :: as =>
    if cond a then do
      emit (.connect a)
      if net.accepts a then ret () else asyncConnect net cond as
    else asyncConnect net cond as

/-- `connect_socks5_proxy`: what comes before the messages, and the messages. Reference:
`connect.cpp:49`. -/
def connectSocks5 (hosts : Hosts) (net : Network) (url : ConnectUrl) (proxy : ProxyUrl) :
    NetM Unit := do
  let port ← lift (Socks.effectivePort proxy.endpoint)
  let addresses ← asyncResolve net proxy.host port
  asyncConnect net (fun _ => true) addresses
  match Socks.connectSocks5Proxy (url.endpoint hosts) proxy.endpoint true ⟨net.incoming, []⟩ with
  | .ok _ s => ⟨s.written.map .write, .ok ()⟩
  | .error e s => ⟨s.written.map .write, .error e⟩

/-- The request for a tunnel to a host and a port. Reference: `connect.cpp:169-190`. -/
def tunnelRequest (oc : ConnectConfig) (proxy : ProxyUrl) (hostPort : List Char) :
    Request Fields.FieldList :=
  let r : Request Fields.FieldList := ⟨"CONNECT".toList, hostPort, .http11, []⟩
  let r := r.set Field.host hostPort
  let r := r.set "Proxy-Connection".toList "keep-alive".toList
  let r := r.set Field.userAgent (oc.useragent.getD "Boost.Http.Io".toList)
  if proxy.endpoint.userinfo.isSome then
    r.set "Proxy-Authorization".toList (base64Encode "Basic ".toList proxy.userinfo)
  else r

/-- `connect_http_proxy`. Reference: `connect.cpp:153`. -/
def connectHttpProxy (oc : ConnectConfig) (hosts : Hosts) (net : Network) (url : ConnectUrl)
    (proxy : ProxyUrl) : NetM Unit := do
  let port ← lift (Socks.effectivePort proxy.endpoint)
  let addresses ← asyncResolve net proxy.host port
  asyncConnect net (fun _ => true) addresses
  let port ← lift (Socks.effectivePort (url.endpoint hosts))
  emit (.request (tunnelRequest oc proxy (url.host hosts ++ ':' :: port)))
  match net.proxyStatus with
  | none => raise .network
  | some status =>
    require (status == 200) (.runtimeError "Proxy server rejected the connection")

/-- `perform_tls_handshake`. The server name ends at a NUL. Reference: `connect.cpp:208`. -/
def performTlsHandshake (net : Network) (host : List Char) : NetM Layer := do
  let sni := host.takeWhile (· != '\x00')
  require (net.setHostName sni) .network
  emit (.handshake sni host)
  require (net.handshake host) .network
  ret (.tls host)

/-- The stream of a connection. Reference: `connect.cpp:240-247, 301-307`. -/
def startLayer (net : Network) (url : ConnectUrl) (orgHost : List Char) : NetM Layer :=
  if schemeId url.scheme = .https then performTlsHandshake net orgHost else ret .plain

/-- `socket.set_option`, if the option is asked for. -/
def setOptionIf (net : Network) (b : Bool) (option : SocketOption) : NetM Unit :=
  if b then do
    emit (.setOption option)
    require (net.setOption option) .network
  else ret ()

/-- The URL after `--connect-to` and `--resolve`. Reference: `connect.cpp:252-256`. -/
def rewrite (oc : ConnectConfig) (hosts : Hosts) (url : ConnectUrl) :
    Except ConnectToThrown ConnectUrl := do
  let url ← (match oc.connectTo with
    | some items => connectTo items url
    | none => .ok url)
  match oc.resolveTo with
  | some items => resolveTo hosts items url
  | none => .ok url

/-- The connection to the proxy or to the host. Reference: `connect.cpp:258-293`. -/
def reach (oc : ConnectConfig) (hosts : Hosts) (net : Network) (url : ConnectUrl) : NetM Unit :=
  match oc.proxy with
  | some proxy =>
    if proxy.endpoint.scheme = "http".toList then connectHttpProxy oc hosts net url proxy
    else if proxy.endpoint.scheme = "socks5".toList then connectSocks5 hosts net url proxy
    else raise (.runtimeError "only HTTP and SOCKS5 proxies are supported")
  | none => do
    let port ← lift (Socks.effectivePort (url.endpoint hosts))
    let addresses ← asyncResolve net (url.host hosts) port
    asyncConnect net (fun a => !(oc.ipv4 && a.isV6) && !(oc.ipv6 && a.isV4)) addresses

/-- `connect`. Reference: `connect.cpp:224`. -/
def connect (oc : ConnectConfig) (hosts : Hosts) (net : Network) (url : ConnectUrl) :
    NetM Layer := do
  let orgHost := url.host hosts
  if !oc.unixSocketPath.isEmpty then
    emit (.connectUnix oc.unixSocketPath)
    require (net.connectUnix oc.unixSocketPath) .network
    startLayer net url orgHost
  else
    let url ← liftConnectTo (rewrite oc hosts url)
    reach oc hosts net url
    setOptionIf net oc.tcpNodelay (.noDelay true)
    setOptionIf net oc.nokeepalive (.keepAlive false)
    startLayer net url orgHost

end Beast2.Burl
