import Mathlib.Data.List.Basic

/-!
# URLs as `burl` reads them

Boost.URL is not part of the repository. A URL is what the code asks of it; the functions that make
one URL from others are parameters where they are used.
-/

namespace Beast2.Burl

/-- `urls::scheme`, as `scheme_id()` returns it. -/
inductive Scheme where
  | none
  | unknown
  | ftp
  | file
  | http
  | https
  | ws
  | wss
deriving DecidableEq, Repr

/-- A URL: `scheme_id()`, `userinfo()` with `has_userinfo()`, `host()`, the decoded
`encoded_host_and_port()` of its authority, `encoded_origin()`, `encoded_path()`,
`encoded_segments()`, `encoded_target()` and the text of the whole. -/
structure Url where
  schemeId : Scheme
  userinfo : Option (List Char)
  host : List Char
  hostAndPort : List Char
  encodedOrigin : List Char
  encodedPath : List Char
  encodedSegments : List (List Char)
  encodedTarget : List Char
  buffer : List Char
deriving DecidableEq, Repr

/-- The URL `https://host/` of a host that needs no escapes. -/
def httpsRoot (host : List Char) : Url where
  schemeId := .https
  userinfo := none
  host := host
  hostAndPort := host
  encodedOrigin := "https://".toList ++ host
  encodedPath := "/".toList
  encodedSegments := []
  encodedTarget := "/".toList
  buffer := "https://".toList ++ host ++ "/".toList

end Beast2.Burl
