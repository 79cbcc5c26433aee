import Beast2.Burl.Cookie

/-!
# Cookie files

`operator<<` writes a cookie jar in the Netscape format, one line for a cookie and seven fields in a
line with tabs between them, and `operator>>` appends the cookies of such a file to a jar
(`cookie.cpp`). The writer reads `domain.value()` and `path.value()`, so it throws on a cookie
without one of them (`none`). The reader throws on a line that `parse_netscape_cookie` does not
accept: the cookies before it are in the jar then, and its result has the error next to the jar.
-/

namespace Beast2.Burl

open Grammar

/-! ## Writing -/

/-- The mark of an HttpOnly cookie in front of its domain. -/
def httpOnlyMark : List Char := "#HttpOnly_".toList

/-- A flag. Reference: `cookie.cpp:397`. -/
def flagText (b : Bool) : List Char := if b then "TRUE".toList else "FALSE".toList

/-- A point in time as whole seconds since the epoch, `duration_cast` rounding towards zero. -/
def wholeSeconds (t : Int) : Int := t.tdiv second

/-- The text of an integer in a stream. -/
def intText (n : Int) : List Char :=
  if n < 0 then '-' :: Nat.toDigits 10 n.natAbs else Nat.toDigits 10 n.natAbs

/-- The field for the expiry. Reference: `cookie.cpp:400-405`. -/
def expiresText (expires : Option Int) : List Char :=
  match expires with
  | some t => intText (wholeSeconds t)
  | none => ['0']

/-- The line of a cookie, without its newline. Reference: `cookie.cpp:395-408`. -/
def cookieLine (c : Cookie) : Option (List Char) := do
  let domain ← c.domain
  let path ← c.path
  some ((if c.httpOnly then httpOnlyMark else []) ++
    (domain ++ '\t' :: (flagText c.tailmatch ++ '\t' :: (path ++ '\t' :: (flagText c.secure ++
      '\t' :: (expiresText c.expires ++ '\t' :: (c.name ++ '\t' :: c.value.getD [])))))))

/-- The first lines of a cookie file. Reference: `cookie.cpp:391`. -/
def fileHeader : List Char := "# Netscape HTTP Cookie File\n\n".toList

/-- `operator<<`. Reference: `cookie.cpp:388`. -/
def writeJar (jar : List Cookie) : Option (List Char) := do
  let ls ← jar.mapM cookieLine
  some (fileHeader ++ ls.flatMap (· ++ ['\n']))

/-! ## Reading -/

/-- `field_chars`. Reference: `cookie.cpp:127`. -/
def fieldChars (c : Char) : Bool := c != '\t'

/-- The greatest `std::uint32_t`. -/
def uint32Max : Nat := 0xFFFFFFFF

/-- One of the two flags. Reference: `cookie.cpp:134-135`. -/
def flagRule : Rule (List Char ⊕ List Char) :=
  variantRule (literalRule "FALSE".toList) (literalRule "TRUE".toList)

/-- What `netscape_parser` reads. -/
structure NetscapeFields where
  httpOnly : Option (List Char)
  domain : List Char
  tailmatch : List Char ⊕ List Char
  path : List Char
  secure : List Char ⊕ List Char
  epoch : Nat
  name : List Char
  value : List Char

/-- `netscape_parser`. Reference: `cookie.cpp:130-146`. -/
def netscapeParser : Rule NetscapeFields := fun it => do
  let (httpOnly, it) ← optionalRule (literalRule httpOnlyMark) it
  let (domain, it) ← tokenRule fieldChars it
  let (_, it) ← delimRule (· == '\t') it
  let (tailmatch, it) ← flagRule it
  let (_, it) ← delimRule (· == '\t') it
  let (path, it) ← tokenRule fieldChars it
  let (_, it) ← delimRule (· == '\t') it
  let (secure, it) ← flagRule it
  let (_, it) ← delimRule (· == '\t') it
  let (epoch, it) ← unsignedRule uint32Max it
  let (_, it) ← delimRule (· == '\t') it
  let (name, it) ← tokenRule fieldChars it
  let (_, it) ← delimRule (· == '\t') it
  let (value, it) ← tokenRule fieldChars it
  .ok ({ httpOnly, domain, tailmatch, path, secure, epoch, name, value }, it)

/-- `epoch_to_expiry`. Reference: `cookie.cpp:153-160`. -/
def epochToExpiry (epoch : Nat) : Option Int :=
  if epoch = 0 then none else some (epoch * second)

/-- The cookie of the fields of a line. Reference: `cookie.cpp:162-171`. -/
def NetscapeFields.toCookie (f : NetscapeFields) : Cookie where
  name := f.name
  value := some f.value
  expires := epochToExpiry f.epoch
  domain := some f.domain
  path := some f.path
  secure := f.secure.isRight
  httpOnly := f.httpOnly.isSome
  tailmatch := f.tailmatch.isRight

/-- `parse_netscape_cookie`. Reference: `cookie.cpp:125`. -/
def parseNetscapeCookie (sv : List Char) : Except Grammar.Error Cookie := do
  let f ← netscapeParser.parseAll sv
  .ok f.toCookie

/-- The lines that `getline` returns, one call after the other: a last one without a newline counts
if it is not empty. -/
def getlines : List Char → List (List Char)
  | [] => []
  | c :: s =>
    if c = '\n' then [] :: getlines s
    else
      match getlines s with
      | [] => [[c]]
      | l :: ls => (c :: l) :: ls

/-- A line that the reader skips. Reference: `cookie.cpp:419-424`. -/
def skipped (line : List Char) : Bool :=
  line.isEmpty || ['#'].isPrefixOf line && !httpOnlyMark.isPrefixOf line

/-- The loop of `operator>>` over the lines: the jar, and the error of the line at which it throws.
Reference: `cookie.cpp:417-427`. -/
def readLoop : List (List Char) → List Cookie → List Cookie × Option Grammar.Error
  | [], jar => (jar, none)
  | line :: ls, jar =>
    if skipped line then readLoop ls jar
    else
      match parseNetscapeCookie line with
      | .error e => (jar, some e)
      | .ok c => readLoop ls (jar ++ [c])

/-- `operator>>`. Reference: `cookie.cpp:415`. -/
def readJar (jar : List Cookie) (text : List Char) : List Cookie × Option Grammar.Error :=
  readLoop (getlines text) jar

end Beast2.Burl
