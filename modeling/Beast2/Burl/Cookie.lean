import Beast2.Lib.Grammar
import Beast2.Burl.Numbers
import Beast2.Burl.Url

/-!
# Cookies and the cookie jar

`parse_cookie` reads a `Set-Cookie` value, `cookie_jar::add` stores a cookie received from a URL and
`cookie_jar::make_field` collects the cookies for a request (`cookie.cpp`). Times are ticks of the
system clock, nanoseconds since the epoch. What the functions take from outside is explicit: the
clock's reading, what `parse_date` makes of a date in the process's time zone, and whether the build
has libpsl (`Psl`). An `optional` whose `value()` is read while it is empty throws, and so do
`std::stoll` on a text without a number or out of range; both are the result `none` or the failure
`thrown`.
-/

namespace Beast2.Burl

open Grammar

/-- `cookie::same_site_t`. Reference: `cookie.hpp:26`. -/
inductive SameSite where
  | strict
  | lax
  | none
deriving DecidableEq, Repr

/-- `cookie`. Reference: `cookie.hpp:24`. -/
structure Cookie where
  name : List Char
  value : Option (List Char) := none
  expires : Option Int := none
  domain : Option (List Char) := none
  path : Option (List Char) := none
  sameSite : Option SameSite := none
  partitioned : Bool := false
  secure : Bool := false
  httpOnly : Bool := false
  tailmatch : Bool := false
deriving DecidableEq, Repr

/-! ## Matching -/

/-- `domain_match`. Reference: `cookie.cpp:65`. -/
def domainMatch (rDomain cDomain : List Char) (tailmatch : Bool) : Bool :=
  if !tailmatch then rDomain == cDomain
  else
    let cDomain := if ['.'].isPrefixOf cDomain then cDomain.drop 1 else cDomain
    if cDomain.isSuffixOf rDomain then
      if rDomain.length = cDomain.length then true
      else rDomain[rDomain.length - cDomain.length - 1]? == some '.'
    else false

/-- `path_match`. Reference: `cookie.cpp:88`. -/
def pathMatch (rPath cPath : List Char) : Bool :=
  if rPath.isEmpty then true
  else if cPath.isPrefixOf rPath then
    if rPath.length = cPath.length then true
    else if ['/'].isSuffixOf cPath then true
    else rPath[rPath.length - cPath.length]? == some '/'
  else false

/-! ## `parse_cookie` -/

/-- `name_chars_t`. A character of 0x80 and above is negative as a `char`. Reference:
`cookie.cpp:26`. -/
def nameChars (c : Char) : Bool :=
  0x20 < c.toNat && c.toNat < 0x7F && !"()<>@,;:\\\"/[]?=\x7b\x7d".toList.contains c

/-- `value_chars_t`. Reference: `cookie.cpp:44`. -/
def valueChars (c : Char) : Bool :=
  c.toNat == 0x21 || (0x23 ≤ c.toNat && c.toNat ≤ 0x2B) || (0x2D ≤ c.toNat && c.toNat ≤ 0x3A) ||
    (0x3C ≤ c.toNat && c.toNat ≤ 0x5B) || (0x5D ≤ c.toNat && c.toNat ≤ 0x7E)

/-- `attr_chars`. Reference: `cookie.cpp:62`. -/
def attrChars (c : Char) : Bool := c.toNat != 0x1F && c.toNat != 0x7F && c != ';'

/-- One attribute of a `Set-Cookie` value. Reference: `cookie.cpp:183-190`. -/
def attrRule : Rule (List Char × Option (List Char)) := fun it => do
  let (_, it) ← delimRule (· == ';') it
  let (_, it) ← optionalRule (delimRule (· == ' ')) it
  let (name, it) ← tokenRule (fun c => attrChars c && c != '=') it
  let (_, it) ← optionalRule (delimRule (· == '=')) it
  let (value, it) ← optionalRule (tokenRule attrChars) it
  .ok ((name, value), it)

/-- The grammar of a `Set-Cookie` value. Reference: `cookie.cpp:178-190`. -/
def cookieParser :
    Rule (List Char × Option (List Char) × List (List Char × Option (List Char))) := fun it => do
  let (name, it) ← tokenRule nameChars it
  let (_, it) ← delimRule (· == '=') it
  let (value, it) ← optionalRule (tokenRule valueChars) it
  let (attrs, it) ← rangeRule attrRule it
  .ok ((name, value, attrs), it)

/-- How `parse_cookie` fails: with an error code in its result, or by an exception that `std::stoll`
throws. -/
inductive Failure where
  | error (e : Grammar.Error)
  | thrown
deriving DecidableEq, Repr

/-- `std::stoll`: white space, a sign, digits, and anything after them. -/
def stoll (t : List Char) : Except Failure Int :=
  let t := t.dropWhile isspace
  let (neg, t) := match t with
    | '-' :: t => (true, t)
    | '+' :: t => (false, t)
    | t => (false, t)
  let digits := t.takeWhile Char.isDigit
  let n : Nat := digits.foldl (fun n c => 10 * n + (c.toNat - '0'.toNat)) 0
  let n : Int := if neg then -(n : Int) else n
  if digits = [] then .error .thrown
  else if n < -0x8000000000000000 ∨ 0x8000000000000000 ≤ n then .error .thrown
  else .ok n

/-- The clock's ticks of a second. -/
def second : Int := 1000000000

/-- The clock as `parse_cookie` uses it: `system_clock::now()` and `parse_date`. -/
structure Clock where
  now : Int
  parseDate : List Char → Int

/-- One attribute of a cookie applied to it. Reference: `cookie.cpp:203-258`. -/
def applyAttr (clock : Clock) (rs : Cookie) (attr : List Char × Option (List Char)) :
    Except Failure Cookie :=
  let name := attr.1
  let value := attr.2
  if ciIsEqual name "Expires".toList then
    match value with
    | none => .error (.error .invalid)
    | some v => .ok { rs with expires := some (clock.parseDate v) }
  else if ciIsEqual name "Max-Age".toList then
    match value with
    | none => .error (.error .invalid)
    | some v => do
      let n ← stoll v
      .ok { rs with expires := some (clock.now + n * second) }
  else if ciIsEqual name "Domain".toList then
    match value with
    | none => .error (.error .invalid)
    | some v => .ok { rs with domain := some v }
  else if ciIsEqual name "Path".toList then
    match value with
    | none => .error (.error .invalid)
    | some v => .ok { rs with path := some v }
  else if ciIsEqual name "SameSite".toList then
    if ciIsEqual (value.getD []) "Strict".toList then .ok { rs with sameSite := some .strict }
    else if ciIsEqual (value.getD []) "Lax".toList then .ok { rs with sameSite := some .lax }
    else if ciIsEqual (value.getD []) "None".toList then .ok { rs with sameSite := some .none }
    else .error (.error .invalid)
  else if ciIsEqual name "Partitioned".toList then .ok { rs with partitioned := true }
  else if ciIsEqual name "Secure".toList then .ok { rs with secure := true }
  else if ciIsEqual name "HttpOnly".toList then .ok { rs with httpOnly := true }
  else .ok rs

/-- The requirements on the name prefixes `__Secure-` and `__Host-`. Reference:
`cookie.cpp:261-279`. -/
def prefixesOk (rs : Cookie) : Bool :=
  (!"__Secure-".toList.isPrefixOf rs.name || rs.secure) &&
    (!"__Host-".toList.isPrefixOf rs.name ||
      rs.secure && rs.path == some ['/'] && rs.domain.isNone)

/-- `parse_cookie`. Reference: `cookie.cpp:175`. -/
def parseCookie (clock : Clock) (sv : List Char) : Except Failure Cookie :=
  match cookieParser.parseAll sv with
  | .error e => .error (.error e)
  | .ok (name, value, attrs) => do
    let rs ← attrs.foldlM (applyAttr clock) { name, value }
    if prefixesOk rs then .ok rs else .error (.error .invalid)

/-! ## The jar -/

/-- libpsl: `none` in a build without `BURL_HAS_LIBPSL`, else what
`psl_is_cookie_domain_acceptable(psl_builtin(), host, domain)` returns. -/
abbrev Psl := Option (List Char → List Char → Bool)

/-- A C string made of a `std::string`: it ends at the first null character. -/
def cStr (s : List Char) : List Char := s.takeWhile (· ≠ '\x00')

/-- The refusal of a cookie for its Domain attribute. Reference: `cookie.cpp:289-301`. -/
def pslRefuses (psl : Psl) (url : Url) (domain : List Char) : Bool :=
  match psl with
  | none => false
  | some acceptable =>
    acceptable (cStr (url.host.map Char.toLower)) (cStr (domain.map Char.toLower))

/-- The path of a cookie without a Path attribute: the URL's segments but the last. Reference:
`cookie.cpp:311-320`. -/
def defaultPath (url : Url) : List Char :=
  let path := url.encodedSegments.dropLast.flatMap fun seg => '/' :: seg
  if path.isEmpty then ['/'] else path

/-- The cookie `add` goes on to store, with its domain and path filled in, `none` if it is refused.
Reference: `cookie.cpp:287-324`. -/
def toStore (psl : Psl) (url : Url) (c : Cookie) : Option Cookie :=
  let c' := match c.domain with
    | some d => if pslRefuses psl url d then none else some { c with tailmatch := true }
    | none => some { c with domain := some url.host }
  match c' with
  | none => none
  | some c =>
    let c := if c.path.isNone then { c with path := some (defaultPath url) } else c
    if c.secure && url.schemeId != .https then none else some c

/-- The cookies of one key. Reference: `cookie.cpp:330-334`. -/
def sameKey (c o : Cookie) : Bool := c.name == o.name && c.path == o.path && c.domain == o.domain

/-- A cookie that is expired when it is added. Reference: `cookie.cpp:338`. -/
def expiredAtAdd (now : Int) (c : Cookie) : Bool :=
  match c.expires with
  | some t => t < now
  | none => false

/-- `cookie_jar::add`. Reference: `cookie.cpp:284`. -/
def add (psl : Psl) (now : Int) (jar : List Cookie) (url : Url) (c : Cookie) : List Cookie :=
  match toStore psl url c with
  | none => jar
  | some c =>
    let jar := jar.filter fun o => !sameKey c o
    if expiredAtAdd now c then jar else jar ++ [c]

/-- A cookie that is expired when a request is made. Reference: `cookie.cpp:355`. -/
def expired (now : Int) (c : Cookie) : Bool :=
  match c.expires with
  | some t => t ≤ now
  | none => false

/-- A cookie as it stands in a Cookie field. Reference: `cookie.cpp:365-369`. -/
def cookiePair (c : Cookie) : List Char := c.name ++ '=' :: c.value.getD [] ++ "; ".toList

/-- The loop of `make_field` over the cookies from `it` on, with the text so far: the text and what
is left of the cookies. Reference: `cookie.cpp:353-373`. -/
def makeFieldLoop (url : Url) (now : Int) :
    List Cookie → List Char → Option (List Char × List Cookie)
  | [], rs => some (rs, [])
  | c :: cs, rs =>
    if expired now c then makeFieldLoop url now cs rs
    else do
      let domain ← c.domain
      let hit ←
        if domainMatch url.host domain c.tailmatch then do
          let path ← c.path
          some (pathMatch url.encodedPath path && (!c.secure || url.schemeId == .https))
        else some false
      let (rs, cs) ← makeFieldLoop url now cs (if hit then rs ++ cookiePair c else rs)
      some (rs, c :: cs)

/-- `cookie_jar::make_field`: the Cookie field for a request and the jar without its expired
cookies. Reference: `cookie.cpp:344`. -/
def makeField (now : Int) (jar : List Cookie) (url : Url) : Option (List Char × List Cookie) :=
  makeFieldLoop url now jar []

/-- `cookie_jar::clear_session_cookies`. Reference: `cookie.cpp:377`. -/
def clearSessionCookies (jar : List Cookie) : List Cookie := jar.filter fun c => c.expires.isSome

end Beast2.Burl
