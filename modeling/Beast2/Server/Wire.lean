import Beast2.Server.Worker

/-!
# Requests on the wire

A well-formed request is a header and a body that the parser recognises as soon as they are
complete and not before, whatever follows them (`WireRequest`).

`plain` is such a parser for requests as they are in practice: the header ends at the first blank
line, and the body has the length that Content-Length says, none without the field. A header block
whose first blank line is its end and a body of the announced length are a well-formed request of
it (`plainWire`).
-/

namespace Beast2.Server

open Loop Fields

/-- A well-formed request: what the parser makes of its octets and of every part of them. -/
structure WireRequest {Req Url F : Type} [Container F] (b : Boost Req Url F) where
  req : Req
  head : List Char
  body : List Char
  head_done (rest : List Char) : b.header (head ++ rest) = .done req head.length
  head_more (t : List Char) (h : t <+: head) (hne : t ≠ head) : b.header t = .more
  body_done (rest : List Char) : b.bodyEnd req (body ++ rest) = some body.length
  body_more (t : List Char) (h : t <+: body) (hne : t ≠ body) : b.bodyEnd req t = none

namespace WireRequest
variable {Req Url F : Type} [Container F] {b : Boost Req Url F}

/-- The octets of a request. -/
def octets (r : WireRequest b) : List Char := r.head ++ r.body

/-- The octets of a sequence of requests. -/
def stream (rs : List (WireRequest b)) : List Char := rs.flatMap octets

@[simp] theorem stream_nil : stream ([] : List (WireRequest b)) = [] := rfl

@[simp] theorem stream_cons (r : WireRequest b) (rs : List (WireRequest b)) :
    stream (r :: rs) = r.octets ++ stream rs := rfl

end WireRequest

/-! ## Plain requests -/

/-- A blank line and the line end before it. -/
def blank : List Char := "\r\n\r\n".toList

/-- The text up to and including the first blank line, and the text after it. -/
def splitBlank : List Char → Option (List Char × List Char)
  | [] => none
  | c :: r =>
    if (c :: r).take 4 = blank then some (blank, r.drop 3)
    else (splitBlank r).map fun q => (c :: q.1, q.2)

/-- The number a text of digits says. -/
def digitsVal (t : List Char) : Nat := t.foldl (fun n c => 10 * n + (c.toNat - '0'.toNat)) 0

/-- The value of the Content-Length field of a header block, 0 without one. -/
def contentLength : List Char → Nat
  | [] => 0
  | c :: r =>
    if "Content-Length: ".toList.isPrefixOf (c :: r) then
      digitsVal (((c :: r).drop 16).takeWhile Char.isDigit)
    else contentLength r

/-- Every `%` of a text is followed by two hexadecimal digits. -/
def percentEncoded : List Char → Bool
  | '%' :: h :: l :: r =>
    (h.isDigit || "abcdefABCDEF".toList.contains h) &&
      (l.isDigit || "abcdefABCDEF".toList.contains l) && percentEncoded r
  | '%' :: _ => false
  | _ :: r => percentEncoded r
  | [] => true

/-- The parser of plain HTTP/1.1 requests: a request is its header block, a URL its text. -/
def plain : Boost (List Char) (List Char) FieldList where
  header t := match splitBlank t with
    | none => .more
    | some (h, _) => .done h h.length
  header_nil := rfl
  bodyEnd h t := if contentLength h ≤ t.length then some (contentLength h) else none
  target h := (h.dropWhile (· ≠ ' ')).tail.takeWhile (· ≠ ' ')
  version _ := .http11
  keepAlive _ := true
  parseUriReference t := if percentEncoded t then some t else none
  responseKeepAlive r := findAll r.fields connection ≠ ["close".toList]
  setKeepAlive r keep := ⟨r.status, r.version,
    if keep then Container.erase r.fields connection
    else Container.set r.fields connection "close".toList⟩
  setKeepAlive_status _ _ := rfl
  setKeepAlive_version _ _ := rfl
  setKeepAlive_fields r keep n h := by
    cases keep
    · exact findAll_set_ne h
    · exact findAll_erase_ne h

theorem plain_header (t : List Char) :
    plain.header t = match splitBlank t with
      | none => .more
      | some (h, _) => .done h h.length := rfl

theorem plain_bodyEnd (h t : List Char) :
    plain.bodyEnd h t = if contentLength h ≤ t.length then some (contentLength h) else none := rfl

/-- A text with a blank line has at least its four characters. -/
theorem splitBlank_length : ∀ {t : List Char} {q : List Char × List Char},
    splitBlank t = some q → 4 ≤ t.length
  | c :: r, q, h => by
    rw [splitBlank] at h
    split at h
    · next hb =>
      have hlen := congrArg List.length hb
      rw [List.length_take, show blank.length = 4 from rfl] at hlen
      omega
    · obtain ⟨q', hq', -⟩ := Option.map_eq_some_iff.1 h
      exact Nat.le_succ_of_le (splitBlank_length hq')

/-- The first blank line of a text is the first one however the text goes on. -/
theorem splitBlank_append : ∀ {t : List Char} {h rest : List Char} (x : List Char),
    splitBlank t = some (h, rest) → splitBlank (t ++ x) = some (h, rest ++ x)
  | c :: r, h, rest, x, hs => by
    have hlen := splitBlank_length hs
    have htake : (c :: (r ++ x)).take 4 = (c :: r).take 4 := by
      rw [← List.cons_append, List.take_append_of_le_length hlen]
    rw [splitBlank] at hs
    rw [List.cons_append, splitBlank, htake]
    split at hs
    · next hb =>
      cases hs
      rw [if_pos hb, List.drop_append_of_le_length (by simpa using hlen)]
    · next hb =>
      obtain ⟨⟨h', rest'⟩, hq, heq⟩ := Option.map_eq_some_iff.1 hs
      cases heq
      rw [if_neg hb, splitBlank_append x hq]
      rfl

/-- A header block that ends with its first blank line and a body of the announced length. -/
def plainWire (head body : List Char) (hhead : splitBlank head = some (head, []))
    (hbody : contentLength head = body.length) : WireRequest plain where
  req := head
  head := head
  body := body
  head_done rest := by rw [plain_header, splitBlank_append rest hhead]
  head_more t ht hne := by
    obtain ⟨x, rfl⟩ := ht
    cases hs : splitBlank t with
    | none => rw [plain_header, hs]
    | some q =>
      -- the blank line of `t` would be the first one of the block, which leaves nothing after it
      have hx := (splitBlank_append x hs).symm.trans hhead
      simp only [Option.some.injEq, Prod.mk.injEq, List.append_eq_nil_iff] at hx
      exact absurd (by simp [hx.2.2]) hne
  body_done rest := by
    have hle : body.length ≤ (body ++ rest).length := by simp
    rw [plain_bodyEnd, hbody, if_pos hle]
  body_more t ht hne := by
    have hlen : t.length < body.length :=
      Nat.lt_of_le_of_ne ht.length_le fun h => hne (ht.eq_of_length h)
    rw [plain_bodyEnd, hbody, if_neg (Nat.not_le_of_lt hlen)]

/-- The header of a GET request for `/n`. -/
def getHead (n : Char) : List Char := "GET /".toList ++ [n] ++ " HTTP/1.1\r\n\r\n".toList

/-- A new worker. -/
def idle : Worker (List Char) (List Char) FieldList Unit Unit :=
  ⟨⟨[], [], [], [], ⟨200, .http11, []⟩⟩, ⟨[], .header⟩, ⟨[], 0⟩, (), []⟩

/-- A router that answers every request at once and reads no body. -/
def answer : Router (List Char) (List Char) FieldList Unit Unit :=
  fun app _ _ rp => .respond rp.res (.done ⟨app, rp, false⟩)

end Beast2.Server
