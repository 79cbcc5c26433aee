import Beast2.Burl.Socks

/-!
# In step with a SOCKS5 proxy

A proxy that follows RFC 1928 and RFC 1929 answers the greeting, the authentication if it asked for
one, and the connection request; what follows on the stream is from the target host. A client that
is in step has read these replies and nothing else when it returns.

`connect_socks5_proxy` reads the first five bytes of the connection reply and then computes how many
are left. With a domain name the fifth byte is the length of the name and not a part of it, but one
is subtracted all the same, so the last byte of the port is left on the stream
(`connectionReply_eq`). The client is in step exactly if the proxy's address is of another type, or
the call throws before that (`inStep_iff`).
-/

namespace Beast2.Burl.Socks

/-! ## The replies of a proxy -/

/-- The address that a proxy is bound to. -/
inductive BoundAddress where
  | ipv4 (addr : List UInt8) (hlength : addr.length = 4)
  | domainName (name : List UInt8) (hlength : name.length ≤ 255)
  | ipv6 (addr : List UInt8) (hlength : addr.length = 16)
deriving DecidableEq, Repr

/-- The address type and the address, RFC 1928, section 5. -/
def BoundAddress.bytes : BoundAddress → List UInt8
  | .ipv4 addr _ => [0x01] ++ addr
  | .domainName name _ => [0x03, UInt8.ofNat name.length] ++ name
  | .ipv6 addr _ => [0x04] ++ addr

/-- The address is a domain name. -/
def BoundAddress.IsDomainName : BoundAddress → Prop
  | .domainName _ _ => True
  | _ => False

/-- The replies of a proxy that follows the RFCs and connects to the target: whether it chose
authentication, which it does only if the client has offered it, and the bound address and port. -/
structure ProxyReplies (proxy : Endpoint) where
  auth : Bool
  offered : auth = true → proxy.userinfo.isSome
  addr : BoundAddress
  port : UInt8 × UInt8

variable {proxy : Endpoint}

/-- The reply to the greeting, RFC 1928, section 3. -/
def ProxyReplies.greetingReply (r : ProxyReplies proxy) : List UInt8 :=
  [0x05, if r.auth then 0x02 else 0x00]

/-- The reply to the authentication, RFC 1929, section 2. -/
def ProxyReplies.authReply (r : ProxyReplies proxy) : List UInt8 :=
  if r.auth then [0x01, 0x00] else []

/-- The reply to the connection request, RFC 1928, section 6. -/
def ProxyReplies.connectionReply (r : ProxyReplies proxy) : List UInt8 :=
  [0x05, 0x00, 0x00] ++ r.addr.bytes ++ [r.port.1, r.port.2]

/-- All replies. -/
def ProxyReplies.bytes (r : ProxyReplies proxy) : List UInt8 :=
  r.greetingReply ++ r.authReply ++ r.connectionReply

/-- The client is in step: when it returns, what is left to read is what the target sends. -/
def InStep (url : Endpoint) (reached : Bool) (r : ProxyReplies proxy) : Prop :=
  ∀ target s, connectSocks5Proxy url proxy reached { incoming := r.bytes ++ target } = .ok () s →
    s.incoming = target

/-! ## What the parts of the call read -/

variable {rest : List UInt8} {written : List (List UInt8)}

theorem bind_of_ok {α β : Type} {x : SocketM α} {f : α → SocketM β} {a : α} {s s' : Socket}
    (h : x s = .ok a s') : (x >>= f) s = f a s' := by
  simp only [bind, EStateM.bind, h]

/-- A sequence returns only if its first call does. -/
theorem bind_eq_ok {α β : Type} {x : SocketM α} {f : α → SocketM β} {b : β} {s s' : Socket}
    (h : (x >>= f) s = .ok b s') : ∃ a t, x s = .ok a t ∧ f a t = .ok b s' := by
  cases hx : x s with
  | ok a t => exact ⟨a, t, rfl, (bind_of_ok hx).symm.trans h⟩
  | error e t =>
    simp only [bind, EStateM.bind, hx] at h
    cases h

/-- A pure call returns what it computes. -/
theorem liftExcept_eq_ok {α : Type} {x : Except Thrown α} {a : α} {s s' : Socket} :
    liftExcept x s = .ok a s' ↔ x = .ok a ∧ s' = s := by
  cases x with
  | ok b => simp [liftExcept, eq_comm]
  | error e => simp [liftExcept]

/-- A read takes as many bytes as it asks for. -/
theorem asyncRead_append (bs : List UInt8) {n : Nat} (hn : bs.length = n) :
    asyncRead n ⟨bs ++ rest, written⟩ = .ok bs ⟨rest, written⟩ := by
  have hle : ¬ (bs ++ rest).length < n := by
    rw [List.length_append]
    omega
  rw [asyncRead, if_neg hle]
  simp [← hn]

theorem asyncWrite_eq (bytes : List UInt8) :
    asyncWrite bytes ⟨rest, written⟩ = .ok () ⟨rest, written ++ [bytes]⟩ := rfl

/-- The greeting reads its reply. -/
theorem greeting_eq (proxy : Endpoint) (method : UInt8) (rest : List UInt8)
    (written : List (List UInt8)) :
    ∃ w, greeting proxy ⟨[0x05, method] ++ rest, written⟩ = .ok method ⟨rest, w⟩ := by
  have hread (w : List (List UInt8)) :
      asyncRead 2 ⟨[0x05, method] ++ rest, w⟩ = .ok [0x05, method] ⟨rest, w⟩ :=
    asyncRead_append [0x05, method] rfl
  unfold greeting
  cases proxy.userinfo.isSome with
  | false =>
    refine ⟨written ++ [[0x05, 0x01, 0x00]], ?_⟩
    exact (bind_of_ok (asyncWrite_eq _)).trans ((bind_of_ok (hread _)).trans rfl)
  | true =>
    refine ⟨written ++ [[0x05, 0x02, 0x00, 0x02]], ?_⟩
    exact (bind_of_ok (asyncWrite_eq _)).trans ((bind_of_ok (hread _)).trans rfl)

/-- The authentication reads its reply, if there is one. -/
theorem authenticate_eq (r : ProxyReplies proxy) (rest : List UInt8)
    (written : List (List UInt8)) :
    ∃ w, authenticate proxy (if r.auth then 0x02 else 0x00) ⟨r.authReply ++ rest, written⟩ =
      .ok () ⟨rest, w⟩ := by
  unfold authenticate ProxyReplies.authReply
  cases r.auth with
  | false => exact ⟨written, rfl⟩
  | true =>
    have hread (w : List (List UInt8)) :
        asyncRead 2 ⟨[0x01, 0x00] ++ rest, w⟩ = .ok [0x01, 0x00] ⟨rest, w⟩ :=
      asyncRead_append [0x01, 0x00] rfl
    refine ⟨written ++ [authRequest proxy], ?_⟩
    exact (bind_of_ok (asyncWrite_eq _)).trans ((bind_of_ok (hread _)).trans rfl)

/-- The bytes of the connection reply that the client leaves on the stream. -/
def ProxyReplies.left (r : ProxyReplies proxy) : List UInt8 :=
  match r.addr with
  | .domainName _ _ => [r.port.2]
  | _ => []

/-- The client reads five bytes and then as many as these ask for. -/
theorem connectionReply_of_tailSize {atyp first : UInt8} (tail : List UInt8)
    (htail : tailSize [0x05, 0x00, 0x00, atyp, first] = .ok tail.length) :
    connectionReply ⟨[0x05, 0x00, 0x00, atyp, first] ++ (tail ++ rest), written⟩ =
      .ok () ⟨rest, written⟩ := by
  have hhead : asyncRead 5 ⟨[0x05, 0x00, 0x00, atyp, first] ++ (tail ++ rest), written⟩ =
      .ok [0x05, 0x00, 0x00, atyp, first] ⟨tail ++ rest, written⟩ :=
    asyncRead_append [0x05, 0x00, 0x00, atyp, first] rfl
  have hsize : liftExcept (tailSize [0x05, 0x00, 0x00, atyp, first]) ⟨tail ++ rest, written⟩ =
      .ok tail.length ⟨tail ++ rest, written⟩ :=
    liftExcept_eq_ok.mpr ⟨htail, rfl⟩
  refine (bind_of_ok hhead).trans ?_
  refine (bind_of_ok hsize).trans ?_
  exact bind_of_ok (asyncRead_append tail rfl)

/-- The client reads the connection reply, but with a domain name not the last byte of it. -/
theorem connectionReply_eq (r : ProxyReplies proxy) :
    connectionReply ⟨r.connectionReply ++ rest, written⟩ = .ok () ⟨r.left ++ rest, written⟩ := by
  unfold ProxyReplies.connectionReply ProxyReplies.left
  cases r.addr with
  | ipv4 addr hlength =>
    obtain ⟨first, addr, rfl⟩ := List.exists_cons_of_length_pos (by omega : 0 < addr.length)
    refine connectionReply_of_tailSize (addr ++ [r.port.1, r.port.2]) ?_
    rw [List.length_append, Nat.succ.inj hlength]
    rfl
  | domainName name hlength =>
    have hbyte : (UInt8.ofNat name.length).toNat = name.length :=
      UInt8.toNat_ofNat_of_lt' (Nat.lt_succ_of_le hlength)
    have hsize : tailSize [0x05, 0x00, 0x00, 0x03, UInt8.ofNat name.length] =
        .ok (name ++ [r.port.1]).length := by
      rw [List.length_append]
      show Except.ok ((UInt8.ofNat name.length).toNat + 2 - 1) = _
      rw [hbyte]
      rfl
    have htail : (name ++ [r.port.1]) ++ ([r.port.2] ++ rest) =
        (name ++ [r.port.1, r.port.2]) ++ rest := by
      simp only [List.append_assoc, List.cons_append, List.nil_append]
    have hreply := @connectionReply_of_tailSize ([r.port.2] ++ rest) written _ _ _ hsize
    rw [htail] at hreply
    exact hreply
  | ipv6 addr hlength =>
    obtain ⟨first, addr, rfl⟩ := List.exists_cons_of_length_pos (by omega : 0 < addr.length)
    refine connectionReply_of_tailSize (addr ++ [r.port.1, r.port.2]) ?_
    rw [List.length_append, Nat.succ.inj hlength]
    rfl

/-! ## Which replies leave the client in step -/

/-- The call throws for no other reason than what the proxy replies: the proxy has a port and is
reached, and the port of the URL is a number. -/
def Requests (url proxy : Endpoint) (reached : Bool) : Prop :=
  (∃ port, effectivePort proxy = .ok port) ∧ reached = true ∧
    ∃ port n, effectivePort url = .ok port ∧ stoul port = .ok n

/-- The connection request can be written exactly if the port of the URL is a number. -/
theorem connectionRequest_ok_iff {url : Endpoint} :
    (∃ req, connectionRequest url = .ok req) ↔
      ∃ port n, effectivePort url = .ok port ∧ stoul port = .ok n := by
  unfold connectionRequest
  cases effectivePort url with
  | error e => simp [bind, Except.bind]
  | ok port =>
    cases hn : stoul port with
    | error e => simp [bind, Except.bind, hn]
    | ok n => simp [bind, Except.bind, hn]

/-- Without that the call throws. -/
theorem requests_of_returns {url proxy : Endpoint} {reached : Bool} {s s' : Socket}
    (h : connectSocks5Proxy url proxy reached s = .ok () s') : Requests url proxy reached := by
  obtain ⟨port, s₁, hport, h⟩ := bind_eq_ok h
  have hproxy := (liftExcept_eq_ok.mp hport).1
  cases reached with
  | false => cases h
  | true =>
    obtain ⟨method, s₂, -, h⟩ := bind_eq_ok h
    obtain ⟨-, s₃, -, h⟩ := bind_eq_ok h
    obtain ⟨req, s₄, hreq, h⟩ := bind_eq_ok h
    have hurl := connectionRequest_ok_iff.mp ⟨req, (liftExcept_eq_ok.mp hreq).1⟩
    exact ⟨⟨port, hproxy⟩, rfl, hurl⟩

/-- With it the call returns, and all that it leaves of the replies is `left`. -/
theorem connectSocks5Proxy_eq {url : Endpoint} {reached : Bool} (r : ProxyReplies proxy)
    (h : Requests url proxy reached) (rest : List UInt8) :
    ∃ w, connectSocks5Proxy url proxy reached ⟨r.bytes ++ rest, []⟩ =
      .ok () ⟨r.left ++ rest, w⟩ := by
  obtain ⟨⟨port, hport⟩, rfl, hurl⟩ := h
  obtain ⟨req, hreq⟩ := connectionRequest_ok_iff.mpr hurl
  have hbytes : r.bytes ++ rest =
      r.greetingReply ++ (r.authReply ++ (r.connectionReply ++ rest)) := by
    simp only [ProxyReplies.bytes, List.append_assoc]
  obtain ⟨w₁, hgreeting⟩ := greeting_eq proxy (if r.auth then 0x02 else 0x00)
    (r.authReply ++ (r.connectionReply ++ rest)) []
  obtain ⟨w₂, hauth⟩ := authenticate_eq r (r.connectionReply ++ rest) w₁
  refine ⟨w₂ ++ [req], ?_⟩
  rw [hbytes]
  refine (bind_of_ok (liftExcept_eq_ok.mpr ⟨hport, rfl⟩)).trans ?_
  refine (bind_of_ok hgreeting).trans ?_
  refine (bind_of_ok hauth).trans ?_
  refine (bind_of_ok (liftExcept_eq_ok.mpr ⟨hreq, rfl⟩)).trans ?_
  refine (bind_of_ok (asyncWrite_eq req)).trans ?_
  exact connectionReply_eq r

/-- Nothing is left exactly if the address is not a domain name. -/
theorem left_eq_nil_iff (r : ProxyReplies proxy) : r.left = [] ↔ ¬ r.addr.IsDomainName := by
  unfold ProxyReplies.left BoundAddress.IsDomainName
  cases r.addr <;> simp

/-- The client is in step exactly if the address in the connection reply is not a domain name, or
the call throws whatever the proxy replies. -/
theorem inStep_iff (url : Endpoint) (reached : Bool) (r : ProxyReplies proxy) :
    InStep url reached r ↔ ¬ r.addr.IsDomainName ∨ ¬ Requests url proxy reached := by
  by_cases hreq : Requests url proxy reached
  · constructor
    · intro h
      obtain ⟨w, hcall⟩ := connectSocks5Proxy_eq r hreq []
      have hleft : r.left ++ [] = [] := h [] ⟨r.left ++ [], w⟩ hcall
      rw [List.append_nil] at hleft
      exact Or.inl ((left_eq_nil_iff r).mp hleft)
    · intro h target s hs
      have hleft := (left_eq_nil_iff r).mpr (h.resolve_right (not_not_intro hreq))
      obtain ⟨w, hcall⟩ := connectSocks5Proxy_eq r hreq target
      rw [hleft] at hcall
      cases hcall.symm.trans hs
      rfl
  · refine ⟨fun _ => Or.inr hreq, ?_⟩
    intro _ target s hs
    exact absurd (requests_of_returns hs) hreq

/-- `http://h`. -/
def targetUrl : Endpoint where
  scheme := "http".toList
  port := none
  host := [0x68]
  userinfo := none

/-- `socks5://p`. -/
def proxyUrl : Endpoint where
  scheme := "socks5".toList
  port := none
  host := [0x70]
  userinfo := none

/-- A proxy that is bound to port 1080 of `p`. -/
def domainNameReplies : ProxyReplies proxyUrl where
  auth := false
  offered := nofun
  addr := .domainName [0x70] (by decide)
  port := (0x04, 0x38)

/-- The first byte that is read after the call is not `H`, the first from the target, but the last
of the port. -/
theorem domainNameReplies_not_inStep : ¬ InStep targetUrl true domainNameReplies := by
  intro h
  have hleft := h [0x48] ⟨[0x38, 0x48],
    [[0x05, 0x01, 0x00], [0x05, 0x01, 0x00, 0x03, 0x01, 0x68, 0x00, 0x50]]⟩ (by rfl)
  cases hleft

end Beast2.Burl.Socks
