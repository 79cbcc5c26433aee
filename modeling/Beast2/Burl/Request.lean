import Beast2.Lib.Fields
import Beast2.Burl.Base64
import Beast2.Burl.Url

/-!
# The request that `burl` sends

`create_request` makes the first request of a transfer from the options, the message and the URL
(`main.cpp`); the redirect loop then edits it. The fields are any container of header fields. A
method is its text, and `request.method() == http::method::head` compares it with `HEAD`. An
exception is the text of its `what()`.
-/

namespace Beast2.Burl

open Fields

/-! ## Field names -/

namespace Field

def accept : List Char := "Accept".toList
def acceptEncoding : List Char := "Accept-Encoding".toList
def authorization : List Char := "Authorization".toList
def contentEncoding : List Char := "Content-Encoding".toList
def contentLength : List Char := "Content-Length".toList
def contentType : List Char := "Content-Type".toList
def cookie : List Char := "Cookie".toList
def expect : List Char := "Expect".toList
def host : List Char := "Host".toList
def location : List Char := "Location".toList
def range : List Char := "Range".toList
def referer : List Char := "Referer".toList
def setCookie : List Char := "Set-Cookie".toList
def userAgent : List Char := "User-Agent".toList

end Field

/-! ## Options and messages -/

/-- The options of `operation_config` that requests and redirects depend on. `headers` are the
fields of the `http::fields` in order, `referer` is the text of its URL. Reference:
`options.hpp:32`. -/
structure OperationConfig where
  disallowUsernameInUrl : Bool := false
  encoding : Bool := false
  maxredirs : Nat := 50
  post301 : Bool := false
  post302 : Bool := false
  post303 : Bool := false
  protoRedir : List Scheme := [.http, .https]
  http10 : Bool := false
  useragent : Option (List Char) := none
  userpwd : Option (List Char) := none
  resumeFrom : Option Nat := none
  referer : List Char := []
  autoreferer : Bool := false
  requestTarget : Option (List Char) := none
  headers : List (List Char × List Char) := []
  omitheaders : List (List Char) := []
  noBody : Bool := false
  unrestrictedAuth : Bool := false
  followlocation : Bool := false
  range : Option (List Char) := none
  customrequest : Option (List Char) := none
deriving DecidableEq, Repr

/-- `string_body`. Reference: `message.hpp:20`. -/
structure StringBody where
  body : List Char
  contentType : List Char
deriving DecidableEq, Repr

/-- `message`: no body or a string. Reference: `message.hpp:41`. -/
abbrev Message := Option StringBody

/-- The decoders that Boost.HTTP was built with. Reference: `main.cpp:48-58`. -/
structure Build where
  hasBrotli : Bool
  hasZlib : Bool
deriving DecidableEq, Repr

/-- `http::version` of a request. -/
inductive HttpVersion where
  | http10
  | http11
deriving DecidableEq, Repr

/-- `http::request`. -/
structure Request (F : Type) where
  method : List Char
  target : List Char
  version : HttpVersion
  fields : F
deriving DecidableEq, Repr

def methodGet : List Char := "GET".toList
def methodHead : List Char := "HEAD".toList
def methodPost : List Char := "POST".toList

/-- The decimal text of a number. -/
def decimal (n : Nat) : List Char := Nat.toDigits 10 n

section
variable {F : Type} [Container F]

/-- `request.set`. -/
def Request.set (r : Request F) (name value : List Char) : Request F :=
  { r with fields := Container.set r.fields name value }

/-- `request.erase`. -/
def Request.erase (r : Request F) (name : List Char) : Request F :=
  { r with fields := Container.erase r.fields name }

/-- `set_target`. Reference: `main.cpp:60`. -/
def setTarget (oc : OperationConfig) (r : Request F) (url : Url) : Request F :=
  { r with target := oc.requestTarget.getD url.encodedTarget }

/-- `message::set_headers`. Reference: `message.cpp:48`. -/
def Message.setHeaders (msg : Message) (r : Request F) : Request F :=
  match msg with
  | none => r
  | some f =>
    let r := { r with method := methodPost }
    let r := r.set Field.contentType f.contentType
    let r := r.set Field.contentLength (decimal f.body.length)
    if 1024 * 1024 ≤ f.body.length ∧ r.version = .http11 then
      r.set Field.expect "100-continue".toList
    else r

/-- The value of Accept-Encoding: the decoders of the build. Reference: `main.cpp:278-296`. -/
def acceptedEncodings (build : Build) : List Char :=
  ", ".toList.intercalate
    ((if build.hasBrotli then ["br".toList] else []) ++
      (if build.hasZlib then ["deflate".toList, "gzip".toList] else []))

/-- The fields that the options give. Reference: `main.cpp:252-300`. -/
def optionFields (build : Build) (oc : OperationConfig) (url : Url) (r : Request F) : Request F :=
  let r := match oc.resumeFrom with
    | some n => r.set Field.range ("bytes=".toList ++ decimal n ++ "-".toList)
    | none => r
  let r := match oc.range with
    | some range => r.set Field.range ("bytes=".toList ++ range)
    | none => r
  let r := if oc.referer.isEmpty then r else r.set Field.referer oc.referer
  let creds := oc.userpwd.getD (url.userinfo.getD [])
  let r := if creds.isEmpty then r
    else r.set Field.authorization (base64Encode "Basic ".toList creds)
  if oc.encoding && !(acceptedEncodings build).isEmpty then
    r.set Field.acceptEncoding (acceptedEncodings build)
  else r

/-- `create_request`. Reference: `main.cpp:229`. -/
def createRequest (build : Build) (oc : OperationConfig) (msg : Message) (url : Url) :
    Except String (Request F) :=
  if oc.disallowUsernameInUrl && url.userinfo.isSome then
    .error "Credentials was passed in the URL when prohibited"
  else
    let r : Request F :=
      { method := oc.customrequest.getD (if oc.noBody then methodHead else methodGet)
        target := "/".toList
        version := if oc.http10 then .http10 else .http11
        fields := Container.empty }
    let r := setTarget oc r url
    let r := r.set Field.host url.hostAndPort
    let r := r.set Field.userAgent (oc.useragent.getD "Boost.Http.Io".toList)
    let r := r.set Field.accept "*/*".toList
    let r := msg.setHeaders r
    let r := optionFields build oc url r
    let r := oc.headers.foldl (fun r h => r.set h.1 h.2) r
    .ok (oc.omitheaders.foldl Request.erase r)

end

end Beast2.Burl
