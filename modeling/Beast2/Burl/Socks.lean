import Beast2.Burl.Numbers

/-!
# Connecting through a SOCKS5 proxy

`connect_socks5_proxy` connects to the proxy and exchanges the messages of RFC 1928 and RFC 1929
with it (`connect.cpp`). A socket is the bytes that come in, all that the other side will ever send,
and the messages that went out. `asio::async_read` takes exactly as many bytes as its buffer has and
throws if the stream ends before that. A call that throws leaves the socket as it is then.

Whether the proxy's host is resolved and a connection to it succeeds is decided outside.
-/

namespace Beast2.Burl.Socks

/-- A URL as `connect` reads it: `scheme()`, `port()` with `has_port()`, the decoded
`encoded_host()`, and the decoded `encoded_user()` and `encoded_password()` with
`has_userinfo()`. -/
structure Endpoint where
  scheme : List Char
  port : Option (List Char)
  host : List UInt8
  userinfo : Option (List UInt8 × List UInt8)
deriving DecidableEq, Repr

/-- The stream. -/
structure Socket where
  incoming : List UInt8
  written : List (List UInt8) := []
deriving DecidableEq, Repr

/-- A call that reads and writes a socket, and may throw. -/
abbrev SocketM := EStateM Thrown Socket

/-- `asio::async_read` with a buffer of `n` bytes. -/
def asyncRead (n : Nat) : SocketM (List UInt8) := fun s =>
  if s.incoming.length < n then .error .network s
  else .ok (s.incoming.take n) { s with incoming := s.incoming.drop n }

/-- `asio::async_write`. -/
def asyncWrite (bytes : List UInt8) : SocketM Unit := fun s =>
  .ok () { s with written := s.written ++ [bytes] }

/-- `effective_port`. Reference: `connect.cpp:31`. -/
def effectivePort (url : Endpoint) : Except Thrown (List Char) :=
  match url.port with
  | some port => .ok port
  | none =>
    if url.scheme = "https".toList then .ok "443".toList
    else if url.scheme = "http".toList then .ok "80".toList
    else if url.scheme = "socks5".toList then .ok "1080".toList
    else .error (.runtimeError "Unsupported scheme")

/-- A pure call in a sequence of calls. -/
def liftExcept {α : Type} (x : Except Thrown α) : SocketM α := fun s =>
  match x with
  | .ok a => .ok a s
  | .error e => .error e s

/-- The greeting and the method that the proxy chooses. Reference: `connect.cpp:62-81`. -/
def greeting (proxy : Endpoint) : SocketM UInt8 := do
  if proxy.userinfo.isSome then asyncWrite [0x05, 0x02, 0x00, 0x02]
  else asyncWrite [0x05, 0x01, 0x00]
  let resp ← asyncRead 2
  if resp.getD 0 0 ≠ 0x05 then throw (.runtimeError "SOCKS5 invalid version")
  return resp.getD 1 0

/-- The authentication request. Reference: `connect.cpp:88-96`. -/
def authRequest (proxy : Endpoint) : List UInt8 :=
  let user := (proxy.userinfo.map Prod.fst).getD []
  let pass := (proxy.userinfo.map Prod.snd).getD []
  [0x01] ++ [UInt8.ofNat user.length] ++ user ++ [UInt8.ofNat pass.length] ++ pass

/-- What the chosen method asks for. Reference: `connect.cpp:81-112`. -/
def authenticate (proxy : Endpoint) (method : UInt8) : SocketM Unit :=
  if method = 0x00 then pure ()
  else if method = 0x02 then do
    asyncWrite (authRequest proxy)
    let resp ← asyncRead 2
    if resp.getD 1 0 ≠ 0x00 then throw (.runtimeError "SOCKS5 authentication failed")
  else throw (.runtimeError "SOCKS5 no acceptable authentication method")

/-- The connection request. Reference: `connect.cpp:115-122`. -/
def connectionRequest (url : Endpoint) : Except Thrown (List UInt8) := do
  let port ← effectivePort url
  let port ← stoul port
  let port := port % 0x10000
  .ok ([0x05, 0x01, 0x00, 0x03] ++ [UInt8.ofNat url.host.length] ++ url.host ++
    [UInt8.ofNat (port / 0x100), UInt8.ofNat (port % 0x100)])

/-- How many bytes of the connection reply are read after its first five. Reference:
`connect.cpp:135-149`. -/
def tailSize (head : List UInt8) : Except Thrown Nat :=
  match head.getD 3 0 with
  | 0x01 => .ok (4 + 2 - 1)
  | 0x03 => .ok ((head.getD 4 0).toNat + 2 - 1)
  | 0x04 => .ok (16 + 2 - 1)
  | _ => .error (.runtimeError "SOCKS5 invalid address type")

/-- The connection reply. Reference: `connect.cpp:126-150`. -/
def connectionReply : SocketM Unit := do
  let head ← asyncRead 5
  if head.getD 1 0 ≠ 0x00 then throw (.runtimeError "SOCKS5 connection request failed")
  let n ← liftExcept (tailSize head)
  let _ ← asyncRead n

/-- `connect_socks5_proxy`. `reached` is whether the proxy's host is resolved and connected to.
Reference: `connect.cpp:49`. -/
def connectSocks5Proxy (url proxy : Endpoint) (reached : Bool) : SocketM Unit := do
  let _ ← liftExcept (effectivePort proxy)
  if !reached then throw .network
  let method ← greeting proxy
  authenticate proxy method
  let req ← liftExcept (connectionRequest url)
  asyncWrite req
  connectionReply

end Beast2.Burl.Socks
