import Beast2.Burl.SocksStep

/-!
# What the messages to a SOCKS5 proxy say

The messages of RFC 1928 and RFC 1929 carry texts with a byte for their length in front, and a port
in two bytes. `connect_socks5_proxy` narrows the lengths and the port to these and writes the texts
in full, so a proxy reads a user name of 256 bytes as an empty one and the name itself as what
follows. The decoders below are written from the RFCs. What they read is what was meant exactly if
every text has at most 255 bytes and the port is below 65536, or the call throws before it writes
the message (`decodesAsMeant_iff`).
-/

namespace Beast2.Burl.Socks

/-! ## The decoders -/

/-- The first bytes of a message and what follows them. -/
def takeBytes (n : Nat) (bytes : List UInt8) : Option (List UInt8 × List UInt8) :=
  if bytes.length < n then none else some (bytes.take n, bytes.drop n)

/-- A text behind a byte with its length. -/
def lengthPrefixed : List UInt8 → Option (List UInt8 × List UInt8)
  | [] => none
  | n :: bytes => takeBytes n.toNat bytes

/-- The username/password request, RFC 1929, section 2: VER, ULEN, UNAME, PLEN, PASSWD. -/
def decodeAuth : List UInt8 → Option (List UInt8 × List UInt8)
  | [] => none
  | ver :: bytes =>
    if ver = 0x01 then do
      let (user, bytes) ← lengthPrefixed bytes
      let (pass, bytes) ← lengthPrefixed bytes
      if bytes = [] then some (user, pass) else none
    else none

/-- The address of a request, RFC 1928, section 5: four bytes, a domain name or sixteen bytes. -/
def decodeAddress (atyp : UInt8) (bytes : List UInt8) : Option (List UInt8 × List UInt8) :=
  if atyp = 0x01 then takeBytes 4 bytes
  else if atyp = 0x03 then lengthPrefixed bytes
  else if atyp = 0x04 then takeBytes 16 bytes
  else none

/-- A request of RFC 1928, section 4: CMD, ATYP, DST.ADDR and DST.PORT. -/
structure SocksRequest where
  cmd : UInt8
  atyp : UInt8
  addr : List UInt8
  port : Nat
deriving DecidableEq, Repr

/-- The request, RFC 1928, section 4: VER, CMD, RSV, ATYP, DST.ADDR, DST.PORT, the port with its
high byte first. -/
def decodeRequest : List UInt8 → Option SocksRequest
  | ver :: cmd :: _ :: atyp :: bytes =>
    if ver = 0x05 then do
      let (addr, bytes) ← decodeAddress atyp bytes
      match bytes with
      | [hi, lo] => some ⟨cmd, atyp, addr, hi.toNat * 0x100 + lo.toNat⟩
      | _ => none
    else none
  | _ => none

/-! ## What the decoders read -/

variable {t rest bytes m : List UInt8}

theorem takeBytes_append {n : Nat} (h : t.length = n) :
    takeBytes n (t ++ rest) = some (t, rest) := by
  have hle : ¬ (t ++ rest).length < n := by
    rw [List.length_append]
    omega
  rw [takeBytes, if_neg hle, ← h, List.take_left, List.drop_left]

theorem length_takeBytes {n : Nat} (h : takeBytes n bytes = some (t, rest)) : t.length = n := by
  rw [takeBytes] at h
  split at h
  · cases h
  · next hle =>
    cases h
    rw [List.length_take]
    omega

/-- A text whose length fits a byte is read back. -/
theorem lengthPrefixed_append (h : t.length ≤ 255) :
    lengthPrefixed (UInt8.ofNat t.length :: (t ++ rest)) = some (t, rest) := by
  have hbyte : (UInt8.ofNat t.length).toNat = t.length :=
    UInt8.toNat_ofNat_of_lt' (Nat.lt_succ_of_le h)
  rw [lengthPrefixed, hbyte]
  exact takeBytes_append rfl

/-- A longer text is never read. -/
theorem length_lengthPrefixed (h : lengthPrefixed bytes = some (t, rest)) : t.length ≤ 255 := by
  cases bytes with
  | nil => cases h
  | cons n bytes =>
    rw [lengthPrefixed] at h
    rw [length_takeBytes h]
    have hn := n.toNat_lt
    omega

theorem length_decodeAuth {user pass : List UInt8} (h : decodeAuth m = some (user, pass)) :
    user.length ≤ 255 ∧ pass.length ≤ 255 := by
  cases m with
  | nil => cases h
  | cons ver bytes =>
    rw [decodeAuth] at h
    split at h
    · obtain ⟨⟨u, bs⟩, huser, h⟩ := Option.bind_eq_some_iff.1 h
      obtain ⟨⟨p, bs'⟩, hpass, h⟩ := Option.bind_eq_some_iff.1 h
      dsimp only at h
      split at h
      · cases h
        exact ⟨length_lengthPrefixed huser, length_lengthPrefixed hpass⟩
      · cases h
    · cases h

theorem length_decodeAddress {atyp : UInt8} {addr : List UInt8}
    (h : decodeAddress atyp bytes = some (addr, rest)) : addr.length ≤ 255 := by
  rw [decodeAddress] at h
  split at h
  · rw [length_takeBytes h]
    omega
  split at h
  · exact length_lengthPrefixed h
  split at h
  · rw [length_takeBytes h]
    omega
  · cases h

/-- An address and a port that are read fit their fields. -/
theorem length_decodeRequest {r : SocksRequest} (h : decodeRequest m = some r) :
    r.addr.length ≤ 255 ∧ r.port < 0x10000 := by
  unfold decodeRequest at h
  split at h
  · next ver cmd rsv atyp bytes =>
    by_cases hver : ver = 0x05
    · rw [if_pos hver] at h
      obtain ⟨⟨addr, rest⟩, haddr, h⟩ := Option.bind_eq_some_iff.1 h
      dsimp only at h
      split at h
      · next hi lo =>
        cases h
        have hhi := hi.toNat_lt
        have hlo := lo.toNat_lt
        refine ⟨length_decodeAddress haddr, ?_⟩
        show hi.toNat * 0x100 + lo.toNat < 0x10000
        omega
      · cases h
    · rw [if_neg hver] at h
      cases h
  · cases h

/-! ## What the requests say -/

/-- The user name and the password of a proxy's URL, empty without a userinfo. -/
def Endpoint.credentials (proxy : Endpoint) : List UInt8 × List UInt8 :=
  proxy.userinfo.getD ([], [])

/-- The authentication request has the version, and the two texts behind their lengths. -/
theorem authRequest_eq (proxy : Endpoint) :
    authRequest proxy = 0x01 :: UInt8.ofNat proxy.credentials.1.length :: (proxy.credentials.1 ++
      UInt8.ofNat proxy.credentials.2.length :: proxy.credentials.2) := by
  unfold authRequest Endpoint.credentials
  cases proxy.userinfo <;> simp

/-- The authentication request says the credentials exactly if these have at most 255 bytes each. -/
theorem decodeAuth_authRequest (proxy : Endpoint) :
    decodeAuth (authRequest proxy) = some proxy.credentials ↔
      proxy.credentials.1.length ≤ 255 ∧ proxy.credentials.2.length ≤ 255 := by
  constructor
  · exact length_decodeAuth
  · rintro ⟨huser, hpass⟩
    have hlast := @lengthPrefixed_append _ [] hpass
    rw [List.append_nil] at hlast
    rw [authRequest_eq, decodeAuth]
    simp [lengthPrefixed_append huser, hlast]

/-- The number of a port text. -/
def portNumber (port : List Char) : Nat := Nat.ofDigitChars 10 port 0

/-- The connection request for a host and a port. Reference: `connect.cpp:115-122`. -/
def requestBytes (host : List UInt8) (port : Nat) : List UInt8 :=
  0x05 :: 0x01 :: 0x00 :: 0x03 :: UInt8.ofNat host.length :: (host ++
    [UInt8.ofNat (port % 0x10000 / 0x100), UInt8.ofNat (port % 0x10000 % 0x100)])

/-- The connection request is that for the number of the effective port. -/
theorem connectionRequest_eq_ok_iff {url : Endpoint} {req : List UInt8} :
    connectionRequest url = .ok req ↔
      ∃ port n, effectivePort url = .ok port ∧ stoul port = .ok n ∧
        req = requestBytes url.host n := by
  unfold connectionRequest requestBytes
  cases effectivePort url with
  | error e => simp [bind, Except.bind]
  | ok port =>
    cases hn : stoul port with
    | error e => simp [bind, Except.bind, hn]
    | ok n => simp [bind, Except.bind, hn, eq_comm]

/-- The connection request says the host and the port exactly if the host has at most 255 bytes and
the port two. -/
theorem decodeRequest_requestBytes (host : List UInt8) (port : Nat) :
    decodeRequest (requestBytes host port) = some ⟨0x01, 0x03, host, port⟩ ↔
      host.length ≤ 255 ∧ port < 0x10000 := by
  constructor
  · exact length_decodeRequest
  · rintro ⟨hhost, hport⟩
    have hbytes : (UInt8.ofNat (port % 0x10000 / 0x100)).toNat * 0x100 +
        (UInt8.ofNat (port % 0x10000 % 0x100)).toNat = port := by
      rw [UInt8.toNat_ofNat', UInt8.toNat_ofNat']
      omega
    have hdecode : decodeRequest (requestBytes host port) = some ⟨0x01, 0x03, host,
        (UInt8.ofNat (port % 0x10000 / 0x100)).toNat * 0x100 +
          (UInt8.ofNat (port % 0x10000 % 0x100)).toNat⟩ := by
      simp [requestBytes, decodeRequest, decodeAddress, lengthPrefixed_append hhost]
    rw [hdecode, hbytes]

/-! ## What the call writes -/

/-- The socket after a call, whether it returns or throws. -/
def socketAfter {α : Type} (x : SocketM α) (s : Socket) : Socket :=
  match x s with
  | .ok _ t => t
  | .error _ t => t

/-- A call writes messages with a property only. -/
def Writes {α : Type} (P : List UInt8 → Prop) (x : SocketM α) : Prop :=
  ∀ s, ∃ ms, (socketAfter x s).written = s.written ++ ms ∧ ∀ m ∈ ms, P m

section

variable {α β : Type} {P : List UInt8 → Prop}

theorem Writes.bind {x : SocketM α} {f : α → SocketM β} (hx : Writes P x)
    (hf : ∀ a, Writes P (f a)) : Writes P (x >>= f) := by
  intro s
  obtain ⟨ms, hwritten, hms⟩ := hx s
  cases hrun : x s with
  | ok a t =>
    have hafter : socketAfter (x >>= f) s = socketAfter (f a) t := by
      rw [socketAfter, bind_of_ok hrun, socketAfter]
    obtain ⟨ms', hwritten', hms'⟩ := hf a t
    refine ⟨ms ++ ms', ?_, ?_⟩
    · have ht : t.written = s.written ++ ms := by
        rw [← hwritten, socketAfter, hrun]
      rw [hafter, hwritten', ht, List.append_assoc]
    · intro m hm
      exact (List.mem_append.1 hm).elim (hms m) (hms' m)
  | error e t =>
    have hafter : socketAfter (x >>= f) s = socketAfter x s := by
      simp only [socketAfter, Bind.bind, EStateM.bind, hrun]
    exact ⟨ms, by rw [hafter, hwritten], hms⟩

theorem Writes.asyncWrite (h : P m) : Writes P (Socks.asyncWrite m) := fun s =>
  ⟨[m], rfl, by simpa using h⟩

/-- A call that leaves what was written. -/
theorem Writes.of_written {x : SocketM α} (h : ∀ s, (socketAfter x s).written = s.written) :
    Writes P x := fun s => ⟨[], by rw [h, List.append_nil], nofun⟩

theorem Writes.asyncRead (n : Nat) : Writes P (Socks.asyncRead n) := by
  refine Writes.of_written fun s => ?_
  unfold socketAfter Socks.asyncRead
  by_cases h : s.incoming.length < n
  · rw [if_pos h]
  · rw [if_neg h]

theorem Writes.throw (e : Thrown) : Writes P (MonadExcept.throw e : SocketM α) :=
  Writes.of_written fun _ => rfl

theorem Writes.pure (a : α) : Writes P (Pure.pure a : SocketM α) := Writes.of_written fun _ => rfl

/-- A pure call writes nothing, and what follows it has its result. -/
theorem Writes.liftExcept_bind {x : Except Thrown α} {f : α → SocketM β}
    (hf : ∀ a, x = .ok a → Writes P (f a)) : Writes P (liftExcept x >>= f) := by
  cases x with
  | ok a => exact fun s => hf a rfl s
  | error e => exact Writes.of_written fun _ => rfl

end

section

variable {url proxy : Endpoint} {P : List UInt8 → Prop}

/-- The greeting of a client. Reference: `connect.cpp:62-71`. -/
def greetingRequest (proxy : Endpoint) : List UInt8 :=
  if proxy.userinfo.isSome then [0x05, 0x02, 0x00, 0x02] else [0x05, 0x01, 0x00]

/-- The reply to the greeting. Reference: `connect.cpp:73-81`. -/
def greetingReply : SocketM UInt8 := do
  let resp ← asyncRead 2
  if resp.getD 0 0 ≠ 0x05 then throw (.runtimeError "SOCKS5 invalid version")
  return resp.getD 1 0

/-- What the call does behind the greeting. -/
def afterGreeting (url proxy : Endpoint) : SocketM Unit := do
  let method ← greetingReply
  authenticate proxy method
  let req ← liftExcept (connectionRequest url)
  asyncWrite req
  connectionReply

/-- The call writes the greeting first, if it writes anything. -/
theorem socketAfter_connectSocks5Proxy {port : List Char} (h : effectivePort proxy = .ok port)
    (incoming : List UInt8) :
    socketAfter (connectSocks5Proxy url proxy true) { incoming } =
      socketAfter (afterGreeting url proxy) { incoming, written := [greetingRequest proxy] } := by
  unfold socketAfter connectSocks5Proxy greeting greetingRequest
  rw [h]
  cases proxy.userinfo.isSome <;> rfl

/-- The call writes nothing to a proxy that it does not reach. -/
theorem written_of_not_reached (incoming : List UInt8) :
    (socketAfter (connectSocks5Proxy url proxy false) { incoming }).written = [] := by
  unfold socketAfter connectSocks5Proxy
  cases effectivePort proxy <;> rfl

/-- Nor to one without a port. -/
theorem written_of_no_port (h : ∀ port, effectivePort proxy ≠ .ok port) (reached : Bool)
    (incoming : List UInt8) :
    (socketAfter (connectSocks5Proxy url proxy reached) { incoming }).written = [] := by
  unfold socketAfter connectSocks5Proxy
  cases hport : effectivePort proxy with
  | ok port => exact absurd hport (h port)
  | error e => rfl

theorem Writes.authenticate (h : P (authRequest proxy)) (method : UInt8) :
    Writes P (Socks.authenticate proxy method) := by
  unfold Socks.authenticate
  by_cases hnone : method = 0x00
  · rw [if_pos hnone]
    exact Writes.pure ()
  by_cases hpassword : method = 0x02
  · rw [if_neg hnone, if_pos hpassword]
    refine (Writes.asyncWrite h).bind fun _ => (Writes.asyncRead 2).bind fun resp => ?_
    split
    · exact Writes.throw _
    · exact Writes.pure ()
  · rw [if_neg hnone, if_neg hpassword]
    exact Writes.throw _

theorem Writes.connectionReply : Writes P Socks.connectionReply := by
  unfold Socks.connectionReply
  refine (Writes.asyncRead 5).bind fun head => ?_
  split
  · exact (Writes.throw _).bind fun _ => Writes.liftExcept_bind fun n _ =>
      (Writes.asyncRead n).bind fun _ => Writes.pure ()
  · exact Writes.liftExcept_bind fun n _ => (Writes.asyncRead n).bind fun _ => Writes.pure ()

theorem Writes.greetingReply : Writes P Socks.greetingReply := by
  unfold Socks.greetingReply
  refine (Writes.asyncRead 2).bind fun resp => ?_
  split
  · exact (Writes.throw _).bind fun _ => Writes.pure _
  · exact Writes.pure _

/-- Behind the greeting, the call writes the two requests only. -/
theorem Writes.afterGreeting (hauth : P (authRequest proxy))
    (hconn : ∀ req, connectionRequest url = .ok req → P req) :
    Writes P (Socks.afterGreeting url proxy) := by
  unfold Socks.afterGreeting
  refine Writes.greetingReply.bind fun method => (Writes.authenticate hauth method).bind fun _ => ?_
  refine Writes.liftExcept_bind fun req hreq => ?_
  exact (Writes.asyncWrite (hconn req hreq)).bind fun _ => Writes.connectionReply

/-- What the proxy asks for with the bytes 05 02 01 00 is both requests. -/
theorem written_of_asked (url proxy : Endpoint) (written : List (List UInt8)) :
    (socketAfter (afterGreeting url proxy) ⟨[0x05, 0x02, 0x01, 0x00], written⟩).written =
      written ++ authRequest proxy :: (connectionRequest url).toOption.toList := by
  cases hreq : connectionRequest url with
  | error e =>
    unfold socketAfter afterGreeting
    rw [hreq]
    rfl
  | ok req =>
    unfold socketAfter afterGreeting
    rw [hreq]
    exact List.append_assoc written [authRequest proxy] [req]

end

/-! ## What the proxy reads -/

/-- The messages say what was meant: every message that the call writes behind the greeting is an
authentication request with the credentials of the proxy's URL or a connection request for the host
and the port of the URL. -/
def DecodesAsMeant (url proxy : Endpoint) : Prop :=
  ∀ reached incoming,
    ∀ m ∈ (socketAfter (connectSocks5Proxy url proxy reached) { incoming }).written.tail,
      decodeAuth m = some proxy.credentials ∨
        ∃ port, effectivePort url = .ok port ∧
          decodeRequest m = some ⟨0x01, 0x03, url.host, portNumber port⟩

/-- The texts and the port fit their fields. The port of a URL that is no number of 64 bits is not
written. -/
def FieldsFit (url proxy : Endpoint) : Prop :=
  proxy.credentials.1.length ≤ 255 ∧ proxy.credentials.2.length ≤ 255 ∧
    ∀ port, effectivePort url = .ok port → port ≠ [] → portNumber port < 0x10000000000000000 →
      url.host.length ≤ 255 ∧ portNumber port < 0x10000

section

variable {url proxy : Endpoint}

/-- The versions tell the two requests apart. -/
theorem decodeRequest_authRequest (proxy : Endpoint) :
    decodeRequest (authRequest proxy) = none := by
  rw [authRequest_eq]
  generalize proxy.credentials.1 ++ UInt8.ofNat proxy.credentials.2.length ::
    proxy.credentials.2 = bytes
  match bytes with
  | [] => rfl
  | [_] => rfl
  | _ :: _ :: _ => rfl

theorem decodeAuth_requestBytes (host : List UInt8) (port : Nat) :
    decodeAuth (requestBytes host port) = none := rfl

/-- The effective port of a URL whose port is a text of digits is one, too. -/
theorem effectivePort_digits (hdigits : ∀ port, url.port = some port → ∀ c ∈ port, c.isDigit = true)
    {port : List Char} (h : effectivePort url = .ok port) : ∀ c ∈ port, c.isDigit = true := by
  unfold effectivePort at h
  cases hport : url.port with
  | some p =>
    rw [hport] at h
    cases h
    exact hdigits _ hport
  | none =>
    rw [hport] at h
    dsimp only at h
    split at h
    · cases h
      exact List.all_eq_true.1 rfl
    split at h
    · cases h
      exact List.all_eq_true.1 rfl
    split at h
    · cases h
      exact List.all_eq_true.1 rfl
    · cases h

/-- A URL whose port is a text of digits has a connection request exactly if that is a number of 64
bits. -/
theorem connectionRequest_digits
    (hdigits : ∀ port, url.port = some port → ∀ c ∈ port, c.isDigit = true) {req : List UInt8} :
    connectionRequest url = .ok req ↔
      ∃ port, effectivePort url = .ok port ∧ port ≠ [] ∧ portNumber port < 0x10000000000000000 ∧
        req = requestBytes url.host (portNumber port) := by
  rw [connectionRequest_eq_ok_iff]
  constructor
  · rintro ⟨port, n, hport, hn, rfl⟩
    rw [stoul_digits (effectivePort_digits hdigits hport)] at hn
    split at hn
    · cases hn
    · next hnumber =>
      cases hn
      obtain ⟨hne, hlt⟩ := not_or.1 hnumber
      exact ⟨port, hport, hne, Nat.lt_of_not_le hlt, rfl⟩
  · rintro ⟨port, hport, hne, hlt, rfl⟩
    refine ⟨port, portNumber port, hport, ?_, rfl⟩
    rw [stoul_digits (effectivePort_digits hdigits hport)]
    exact if_neg (not_or.2 ⟨hne, Nat.not_le.2 hlt⟩)

/-- A proxy that asks for both requests reads what was meant only if the fields fit. -/
theorem fieldsFit_of_decodesAsMeant
    (hdigits : ∀ port, url.port = some port → ∀ c ∈ port, c.isDigit = true) {port : List Char}
    (hport : effectivePort proxy = .ok port) (h : DecodesAsMeant url proxy) :
    FieldsFit url proxy := by
  have hrun := h true [0x05, 0x02, 0x01, 0x00]
  rw [socketAfter_connectSocks5Proxy hport, written_of_asked] at hrun
  have hauth := hrun (authRequest proxy) List.mem_cons_self
  rw [decodeRequest_authRequest] at hauth
  have hcredentials : decodeAuth (authRequest proxy) = some proxy.credentials :=
    hauth.resolve_right nofun
  obtain ⟨huser, hpass⟩ := (decodeAuth_authRequest proxy).1 hcredentials
  refine ⟨huser, hpass, ?_⟩
  intro p hp hne hlt
  have hreq := (connectionRequest_digits hdigits).2 ⟨p, hp, hne, hlt, rfl⟩
  rw [hreq] at hrun
  have hconn := hrun (requestBytes url.host (portNumber p))
    (List.mem_cons_of_mem _ (List.mem_singleton.2 rfl))
  rw [decodeAuth_requestBytes] at hconn
  obtain ⟨p', hp', hdecode⟩ := hconn.resolve_left nofun
  cases hp.symm.trans hp'
  exact (decodeRequest_requestBytes url.host (portNumber p)).1 hdecode

/-- If the fields fit, whatever the call writes says what was meant. -/
theorem FieldsFit.writes (h : FieldsFit url proxy)
    (hdigits : ∀ port, url.port = some port → ∀ c ∈ port, c.isDigit = true) :
    Writes (fun m => decodeAuth m = some proxy.credentials ∨
      ∃ port, effectivePort url = .ok port ∧
        decodeRequest m = some ⟨0x01, 0x03, url.host, portNumber port⟩)
      (afterGreeting url proxy) := by
  obtain ⟨huser, hpass, hfit⟩ := h
  refine Writes.afterGreeting (.inl ((decodeAuth_authRequest proxy).2 ⟨huser, hpass⟩)) ?_
  intro req hreq
  obtain ⟨p, hp, hne, hlt, rfl⟩ := (connectionRequest_digits hdigits).1 hreq
  have hsmall := hfit p hp hne hlt
  exact .inr ⟨p, hp, (decodeRequest_requestBytes url.host (portNumber p)).2 hsmall⟩

/-- The proxy reads what was meant if and only if the proxy's URL has no port to connect to, so that
nothing is written, or the texts and the port fit their fields. The port of a parsed URL is a text
of digits. -/
theorem decodesAsMeant_iff
    (hdigits : ∀ port, url.port = some port → ∀ c ∈ port, c.isDigit = true) :
    DecodesAsMeant url proxy ↔ (∀ port, effectivePort proxy ≠ .ok port) ∨ FieldsFit url proxy := by
  by_cases hproxy : ∃ port, effectivePort proxy = .ok port
  · obtain ⟨port, hport⟩ := hproxy
    rw [or_iff_right (fun h => h port hport)]
    constructor
    · exact fieldsFit_of_decodesAsMeant hdigits hport
    · intro h reached incoming m hm
      cases reached with
      | false =>
        rw [written_of_not_reached] at hm
        cases hm
      | true =>
        rw [socketAfter_connectSocks5Proxy hport] at hm
        obtain ⟨ms, hwritten, hms⟩ := h.writes hdigits ⟨incoming, [greetingRequest proxy]⟩
        rw [hwritten] at hm
        exact hms m hm
  · have hnone : ∀ port, effectivePort proxy ≠ .ok port := fun port hport => hproxy ⟨port, hport⟩
    refine iff_of_true ?_ (.inl hnone)
    intro reached incoming m hm
    rw [written_of_no_port hnone] at hm
    cases hm

end

theorem targetUrl_digits : ∀ port, targetUrl.port = some port → ∀ c ∈ port, c.isDigit = true := by
  intro port hport
  cases hport

/-- `socks5://u:w@p`. -/
def passwordProxy : Endpoint := { proxyUrl with userinfo := some ([0x75], [0x77]) }

/-- The messages for a short user name, password and host say what was meant. -/
theorem passwordProxy_decodesAsMeant : DecodesAsMeant targetUrl passwordProxy := by
  refine (decodesAsMeant_iff targetUrl_digits).2 (.inr ⟨by decide, by decide, ?_⟩)
  intro port hport _ _
  cases hport
  decide

/-- `http://h:65616`. -/
def highPort : Endpoint := { targetUrl with port := some "65616".toList }

/-- A user name of 256 bytes. -/
def longName : Endpoint := { proxyUrl with userinfo := some (List.replicate 256 0x75, [0x77]) }

/-- The proxy is asked for port 80 instead of 65616, and reads an empty user name for a long one. -/
theorem narrowed_not_decodesAsMeant :
    ¬ DecodesAsMeant highPort proxyUrl ∧ ¬ DecodesAsMeant targetUrl longName := by
  refine ⟨?_, ?_⟩
  · intro h
    have hdigits : ∀ port, highPort.port = some port → ∀ c ∈ port, c.isDigit = true := by
      intro port heq
      cases heq
      exact List.all_eq_true.1 rfl
    have hfit := fieldsFit_of_decodesAsMeant hdigits rfl h
    have hport := (hfit.2.2 "65616".toList rfl (by decide) (by decide)).2
    revert hport
    decide
  · intro h
    have hfit := fieldsFit_of_decodesAsMeant targetUrl_digits rfl h
    have huser := hfit.1
    revert huser
    decide +kernel

end Beast2.Burl.Socks
