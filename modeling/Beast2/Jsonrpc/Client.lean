import Mathlib.Algebra.GroupWithZero.Nat
import Mathlib.Data.List.Nodup

/-!
# Which answer belongs to which call

The JSON-RPC client numbers its calls, sends the number as the `id` of the request, and decides from
the body of the response how the call completes (`client.cpp:258-357`). A call completes with a
result if its error code is not a failure, and with an error of the server if the error carries the
server's error object.

Two things go wrong. `version_error` is the first enumerator of `errc`, and an error code with the
value zero is not a failure: so a response of another version completes the call as if there had
been a null result. And the `id` is compared for a result only, so an error of any other call is
taken for one's own. Otherwise every answer belongs to its call (`calls_matched`).

What is taken from outside is how `json::try_value_to` makes the value that a method returns.
-/

namespace Beast2.Jsonrpc

/-! ## Values and error codes -/

/-- `json::value`, by its kinds. -/
inductive Json where
  | null
  | bool (b : Bool)
  | int64 (i : Int)
  | uint64 (n : Nat)
  | double (bits : UInt64)
  | string (s : List Char)
  | array (l : List Json)
  | object (members : List (List Char × Json))

/-- `json::object`. -/
abbrev Object := List (List Char × Json)

/-- `object::if_contains`. -/
def ifContains (obj : Object) (key : String) : Option Json :=
  (obj.find? fun m => m.1 == key.toList).map (·.2)

/-- `value == string`. -/
def Json.equalsString (v : Json) (s : String) : Bool :=
  match v with
  | string t => t == s.toList
  | _ => false

/-- `value == std::uint64_t`: both integer kinds are compared by their numbers. -/
def Json.equalsUInt64 (v : Json) (n : Nat) : Bool :=
  match v with
  | int64 i => i == n
  | uint64 m => m == n
  | _ => false

/-- The values of `errc`, in their order. Reference: `errc.hpp:19`. -/
inductive Errc where
  | versionError
  | idMismatch
  | invalidResponse
  | parseError
  | invalidRequest
  | methodNotFound
  | invalidParams
  | internalError
  | serverError
deriving DecidableEq, Repr

/-- The value of an enumerator. -/
def Errc.value : Errc → Int
  | versionError => 0
  | idMismatch => 1
  | invalidResponse => 2
  | parseError => 3
  | invalidRequest => 4
  | methodNotFound => 5
  | invalidParams => 6
  | internalError => 7
  | serverError => 8

/-- `system::error_code`. -/
structure ErrorCode where
  value : Int := 0
  category : String := "system"
deriving DecidableEq, Repr

/-- `error_code::operator bool`: the category of the client does not override `failed`. -/
def ErrorCode.failed (ec : ErrorCode) : Bool := ec.value != 0

/-- `make_error_code`. Reference: `errc.hpp:84`. -/
def Errc.code (e : Errc) : ErrorCode := ⟨e.value, "jsonrpc"⟩

/-- `error`. Reference: `error.hpp:24`. -/
structure Error where
  code : ErrorCode := {}
  info : Object := []

/-! ## A call -/

/-- What a call meets: how writing the request, reading the header and reading the body end, and the
body, if they succeed. -/
structure Exchange where
  write : ErrorCode := {}
  readHeader : ErrorCode := {}
  read : ErrorCode := {}
  body : Json

/-- The code of an error that the server reports. Reference: `client.cpp:333-341`. -/
def serverCode (code : Int) : Errc :=
  if code = -32700 then .parseError
  else if code = -32600 then .invalidRequest
  else if code = -32601 then .methodNotFound
  else if code = -32602 then .invalidParams
  else if code = -32603 then .internalError
  else .serverError

/-- How a call with an id completes with a body. Reference: `client.cpp:318-354`. -/
def completeBody (id : Nat) (body : Json) : Error × Json :=
  match body with
  | .object obj =>
    let ver := ifContains obj "jsonrpc"
    let err := ifContains obj "error"
    let res := ifContains obj "result"
    let i := ifContains obj "id"
    -- this code has the value zero, so it is not a failure
    if !ver.any (·.equalsString "2.0") then ({ code := Errc.versionError.code }, .null)
    else
      match err with
      | some (.object e) =>
        -- the id is not looked at here
        match ifContains e "code" with
        | some (.int64 code) => ({ code := (serverCode code).code, info := e }, .null)
        | _ => ({ code := Errc.invalidResponse.code }, .null)
      | _ =>
        match res with
        | some v =>
          if !i.any (·.equalsUInt64 id) then ({ code := Errc.idMismatch.code }, .null)
          else ({}, v)
        | none => ({ code := Errc.invalidResponse.code }, .null)
  | _ => ({ code := Errc.invalidResponse.code }, .null)

/-- `request_op`: a call that fails on the way completes with that failure. Reference:
`client.cpp:292-317`. -/
def requestOp (id : Nat) (x : Exchange) : Error × Json :=
  if x.write.failed then ({ code := x.write }, .null)
  else if x.readHeader.failed then ({ code := x.readHeader }, .null)
  else if x.read.failed then ({ code := x.read }, .null)
  else completeBody id x.body

/-- `json::try_value_to` and `converts_to`: a value, or a failure. -/
structure Convert (ρ : Type) where
  convert : Json → Except ErrorCode ρ
  failed : ∀ v e, convert v = .error e → e.failed = true

/-- `request_and_transform_op`. Reference: `client.hpp:237`. -/
def transform {ρ : Type} [Inhabited ρ] (C : Convert ρ) (r : Error × Json) : Error × ρ :=
  if r.1.code.failed then (r.1, default)
  else
    match C.convert r.2 with
    | .ok o => (r.1, o)
    | .error e => ({ code := e }, default)

/-- How a call completes: `disposition_traits` takes an error without a failure for none, and an
error carries an object exactly if the server sent it. Reference: `error.hpp:30-77`. -/
inductive Completion (ρ : Type) where
  | result (r : ρ)
  | server (e : Error)
  | client (e : Error)

/-- A completion, by its error. -/
def completion {ρ : Type} (r : Error × ρ) : Completion ρ :=
  if !r.1.code.failed then .result r.2
  else if r.1.info.isEmpty then .client r.1
  else .server r.1

/-! ## A client -/

/-- The client, by its counter. Reference: `client.hpp:42`. -/
structure Client where
  id : Nat := 0
deriving DecidableEq, Repr

/-- `next_id`. Reference: `client.hpp:306`. -/
def Client.nextId (c : Client) : Nat × Client :=
  let id := (c.id + 1) % 2 ^ 64
  (id, ⟨id⟩)

/-- A call: what is asked for, and what it meets. -/
structure Call where
  method : List Char
  params : Json
  exchange : Exchange

/-- The request of a call. Reference: `client.cpp:279-287`. -/
def requestObject (id : Nat) (x : Call) : Object :=
  [("jsonrpc".toList, .string "2.0".toList), ("method".toList, .string x.method),
    ("params".toList, x.params), ("id".toList, .uint64 id)]

/-- A call that has completed. -/
structure Completed (ρ : Type) where
  id : Nat
  request : Object
  exchange : Exchange
  completion : Completion ρ

/-- The calls of a client, in the order in which they are made. -/
def runCalls {ρ : Type} [Inhabited ρ] (C : Convert ρ) : Client → List Call → List (Completed ρ)
  | _, [] => []
  | c, x :: xs =>
    let (id, c) := c.nextId
    ⟨id, requestObject id x, x.exchange, completion (transform C (requestOp id x.exchange))⟩ ::
      runCalls C c xs

/-! ## Answers and calls -/

section

variable {ρ : Type} [Inhabited ρ] {C : Convert ρ} {id : Nat} {x : Exchange}

/-- The response came in. -/
def Exchange.Succeeded (x : Exchange) : Prop :=
  x.write.failed = false ∧ x.readHeader.failed = false ∧ x.read.failed = false

/-- An object is of the version 2.0. -/
def IsVersion2 (obj : Object) : Prop :=
  ∃ v, ifContains obj "jsonrpc" = some v ∧ v.equalsString "2.0" = true

/-- An object has the id of a call. -/
def HasId (obj : Object) (id : Nat) : Prop :=
  ∃ i, ifContains obj "id" = some i ∧ i.equalsUInt64 id = true

/-- An object reports an error with a code. -/
def ReportsError (obj e : Object) (code : Int) : Prop :=
  ifContains obj "error" = some (.object e) ∧ ifContains e "code" = some (.int64 code)

/-- A body is a result for a call. -/
def IsResult (C : Convert ρ) (id : Nat) (body : Json) (r : ρ) : Prop :=
  ∃ obj v, body = .object obj ∧ IsVersion2 obj ∧ (∀ e, ifContains obj "error" ≠ some (.object e)) ∧
    ifContains obj "result" = some v ∧ HasId obj id ∧ C.convert v = .ok r

/-- A body may report an error to a call: it has the id of the call, or null. -/
def MayReport (id : Nat) (body : Json) : Prop :=
  ∃ obj, body = .object obj ∧ (HasId obj id ∨ ifContains obj "id" = some .null)

/-- A call is matched to its response: it completes with a result only if the body is one for it,
and with an error of the server only if the body may report one to it; otherwise it completes with
an error of the client. -/
structure Matched (C : Convert ρ) (c : Completed ρ) : Prop where
  result : ∀ r, c.completion = .result r → IsResult C c.id c.exchange.body r
  server : ∀ e, c.completion = .server e → MayReport c.id c.exchange.body
  otherwise : (∀ r, ¬ IsResult C c.id c.exchange.body r) → ¬ MayReport c.id c.exchange.body →
    ∃ e, c.completion = .client e ∧ e.code.failed = true

/-- What a response has to be for its call to be matched: if it is an object, it is of the version
2.0, unless no value can be made of null, and if it then reports an error, it may do so. -/
def Fits (C : Convert ρ) (id : Nat) (x : Exchange) : Prop :=
  x.Succeeded → ∀ obj, x.body = .object obj →
    (IsVersion2 obj ∨ ∃ e, C.convert .null = .error e) ∧
    (IsVersion2 obj → ∀ e code, ReportsError obj e code → MayReport id x.body)

/-- How a call completes. -/
inductive Outcome (C : Convert ρ) (id : Nat) (x : Exchange) : Completion ρ → Prop
  | client (e : Error) (hfailed : e.code.failed = true) (fits : Fits C id x) :
      Outcome C id x (.client e)
  | version {obj : Object} {r : ρ} (hin : x.Succeeded) (hbody : x.body = .object obj)
      (hversion : ¬ IsVersion2 obj) (hnull : C.convert .null = .ok r) : Outcome C id x (.result r)
  | server {obj e : Object} {code : Int} (hin : x.Succeeded) (hbody : x.body = .object obj)
      (hversion : IsVersion2 obj) (herror : ReportsError obj e code) :
      Outcome C id x (.server ⟨(serverCode code).code, e⟩)
  | result {r : ρ} (hin : x.Succeeded) (hresult : IsResult C id x.body r) :
      Outcome C id x (.result r)

/-- A failure on the way, or one that the client finds, is an error of the client. -/
theorem completion_failed {ec : ErrorCode} (h : ec.failed = true) (v : Json) :
    completion (transform C ({ code := ec }, v)) = .client { code := ec } := by
  simp [transform, completion, h]

theorem outcome_failed {ec : ErrorCode} (h : ec.failed = true) (v : Json) (fits : Fits C id x) :
    Outcome C id x (completion (transform C ({ code := ec }, v))) := by
  rw [completion_failed h v]
  exact .client _ h fits

theorem any_equalsString {obj : Object} :
    (ifContains obj "jsonrpc").any (·.equalsString "2.0") = true ↔ IsVersion2 obj := by
  simp [IsVersion2, Option.any_eq_true]

theorem any_equalsUInt64 {obj : Object} :
    (ifContains obj "id").any (·.equalsUInt64 id) = true ↔ HasId obj id := by
  simp [HasId, Option.any_eq_true]

/-- A result is what the value is converted to, or a failure to convert it. -/
theorem completion_convert (C : Convert ρ) (code : ErrorCode) (h : code.failed = false) (v : Json) :
    (∃ r, C.convert v = .ok r ∧ completion (transform C ({ code }, v)) = .result r) ∨
      ∃ e, C.convert v = .error e ∧
        completion (transform C ({ code }, v)) = .client { code := e } := by
  cases hv : C.convert v with
  | ok r =>
    refine .inl ⟨r, rfl, ?_⟩
    simp [transform, completion, h, hv]
  | error e =>
    refine .inr ⟨e, rfl, ?_⟩
    simp [transform, completion, h, hv, C.failed v e hv]

/-- The error branch. -/
theorem outcome_error {obj e : Object} (hin : x.Succeeded) (hbody : x.body = .object obj)
    (hversion : IsVersion2 obj) (herror : ifContains obj "error" = some (.object e)) :
    Outcome C id x (completion (transform C
      (match ifContains e "code" with
        | some (.int64 code) => ({ code := (serverCode code).code, info := e }, .null)
        | _ => ({ code := Errc.invalidResponse.code }, .null)))) := by
  have hcodes : ∀ code, (serverCode code).code.failed = true := by
    intro code
    unfold serverCode
    repeat' split
    all_goals rfl
  split
  · next code hcode =>
    have hne : e ≠ [] := by
      rintro rfl
      cases hcode
    have hserver : completion (transform C ({ code := (serverCode code).code, info := e }, .null)) =
        .server ⟨(serverCode code).code, e⟩ := by
      simp [transform, completion, hcodes code, hne]
    rw [hserver]
    exact .server hin hbody hversion ⟨herror, hcode⟩
  · next hcode =>
    refine outcome_failed rfl _ fun _ obj' hbody' => ?_
    cases hbody.symm.trans hbody'
    refine ⟨.inl hversion, fun _ e' code hreports => ?_⟩
    cases herror.symm.trans hreports.1
    exact absurd hreports.2 (hcode code)

/-- The result branch. -/
theorem outcome_result {obj : Object} (hin : x.Succeeded) (hbody : x.body = .object obj)
    (hversion : IsVersion2 obj) (herror : ∀ e, ifContains obj "error" ≠ some (.object e)) :
    Outcome C id x (completion (transform C
      (match ifContains obj "result" with
        | some v =>
          if !(ifContains obj "id").any (·.equalsUInt64 id) then
            ({ code := Errc.idMismatch.code }, .null)
          else ({}, v)
        | none => ({ code := Errc.invalidResponse.code }, .null)))) := by
  have hfits : Fits C id x := by
    intro _ obj' hbody'
    cases hbody.symm.trans hbody'
    exact ⟨.inl hversion, fun _ e code hreports => absurd hreports.1 (herror e)⟩
  split
  · next v hv =>
    split
    · exact outcome_failed rfl _ hfits
    · next hid =>
      have hid' : HasId obj id := by
        rw [← any_equalsUInt64]
        simpa using hid
      rcases completion_convert C {} rfl v with ⟨r, hr, hcompletion⟩ | ⟨e, he, hcompletion⟩
      · rw [hcompletion]
        exact .result hin ⟨obj, v, hbody, hversion, herror, hv, hid', hr⟩
      · rw [hcompletion]
        exact .client _ (C.failed v e he) hfits
  · exact outcome_failed rfl _ hfits

/-- How a call completes once the response came in. -/
theorem outcome_body (hin : x.Succeeded) :
    Outcome C id x (completion (transform C (completeBody id x.body))) := by
  unfold completeBody
  split
  · next obj hbody =>
    dsimp only
    split
    · next hver =>
      have hversion : ¬ IsVersion2 obj := by
        rw [← any_equalsString]
        simpa using hver
      rcases completion_convert C Errc.versionError.code rfl .null with
        ⟨r, hr, hcompletion⟩ | ⟨e, he, hcompletion⟩
      · rw [hcompletion]
        exact .version hin hbody hversion hr
      · rw [hcompletion]
        refine .client _ (C.failed .null e he) fun _ obj' hbody' => ?_
        cases hbody.symm.trans hbody'
        exact ⟨.inr ⟨e, he⟩, fun h => absurd h hversion⟩
    · next hver =>
      have hversion : IsVersion2 obj := by
        rw [← any_equalsString]
        simpa using hver
      split
      · next e herror => exact outcome_error hin hbody hversion herror
      · next herror => exact outcome_result hin hbody hversion herror
  · next hbody =>
    exact outcome_failed rfl _ fun _ obj hobj => absurd hobj (hbody obj)

theorem outcome (C : Convert ρ) (id : Nat) (x : Exchange) :
    Outcome C id x (completion (transform C (requestOp id x))) := by
  unfold requestOp
  split
  · next h => exact outcome_failed h _ fun hin => absurd (hin.1.symm.trans h) Bool.false_ne_true
  · next hwrite =>
    split
    · next h => exact outcome_failed h _ fun hin => absurd (hin.2.1.symm.trans h) Bool.false_ne_true
    · next hheader =>
      split
      · next h =>
        exact outcome_failed h _ fun hin => absurd (hin.2.2.symm.trans h) Bool.false_ne_true
      · next hread =>
        exact outcome_body ⟨Bool.eq_false_iff.2 hwrite, Bool.eq_false_iff.2 hheader,
          Bool.eq_false_iff.2 hread⟩

omit [Inhabited ρ] in
/-- A call is matched exactly if its response fits. -/
theorem matched_iff {c : Completed ρ} (h : Outcome C c.id c.exchange c.completion) :
    Matched C c ↔ Fits C c.id c.exchange := by
  obtain ⟨id, request, x, completion⟩ := c
  dsimp only at h ⊢
  cases h with
  | client e hfailed fits =>
    refine ⟨fun _ => fits, fun _ => ⟨?_, ?_, fun _ _ => ⟨e, rfl, hfailed⟩⟩⟩
    · intro r heq
      cases heq
    · intro e heq
      cases heq
  | @version obj r hin hbody hversion hnull =>
    refine iff_of_false (fun h => ?_) (fun h => ?_)
    · obtain ⟨obj', v, hbody', hversion', -⟩ := h.result r rfl
      cases hbody.symm.trans hbody'
      exact hversion hversion'
    · rcases (h hin obj hbody).1 with hversion' | ⟨e, he⟩
      · exact hversion hversion'
      · cases hnull.symm.trans he
  | @server obj e code hin hbody hversion herror =>
    refine ⟨fun h _ obj' hbody' => ?_, fun h => ⟨?_, fun _ _ => ?_, fun _ hnot => ?_⟩⟩
    · cases hbody.symm.trans hbody'
      exact ⟨.inl hversion, fun _ _ _ _ => h.server _ rfl⟩
    · intro r heq
      cases heq
    · exact (h hin obj hbody).2 hversion e code herror
    · exact absurd ((h hin obj hbody).2 hversion e code herror) hnot
  | @result r hin hresult =>
    have hresult' := hresult
    obtain ⟨obj, v, hbody, hversion, herror, -⟩ := hresult'
    refine ⟨fun _ _ obj' hbody' => ?_, fun _ => ⟨?_, ?_, fun hnot _ => absurd hresult (hnot r)⟩⟩
    · cases hbody.symm.trans hbody'
      exact ⟨.inl hversion, fun _ e code hreports => absurd hreports.1 (herror e)⟩
    · rintro r' ⟨⟩
      exact hresult
    · intro e heq
      cases heq

/-- What every call of a client sends and how it completes. -/
theorem runCalls_mem {client : Client} {xs : List Call} {c : Completed ρ}
    (hc : c ∈ runCalls C client xs) :
    ifContains c.request "id" = some (.uint64 c.id) ∧ Outcome C c.id c.exchange c.completion := by
  induction xs generalizing client with
  | nil => cases hc
  | cons x xs ih =>
    rcases List.mem_cons.1 hc with rfl | hc
    · exact ⟨rfl, outcome C _ x.exchange⟩
    · exact ih hc

/-- The ids of the calls, in their order. -/
theorem map_id_runCalls (client : Client) (xs : List Call) :
    (runCalls C client xs).map Completed.id =
      (List.range xs.length).map fun k => (client.id + k + 1) % 2 ^ 64 := by
  induction xs generalizing client with
  | nil => rfl
  | cons x xs ih =>
    have hnext : ∀ k, (client.nextId.2.id + k + 1) % 2 ^ 64 =
        (client.id + (k + 1) + 1) % 2 ^ 64 := by
      intro k
      show ((client.id + 1) % 2 ^ 64 + k + 1) % 2 ^ 64 = _
      omega
    rw [runCalls, List.length_cons, List.range_succ_eq_map, List.map_cons, List.map_cons,
      List.map_map, ih]
    simp only [hnext]
    rfl

end

/-- In any calls of a client, fewer than 2^64, each is matched to its response exactly if the
response fits, each sends its own id, and no two ids are the same. -/
theorem calls_matched {ρ : Type} [Inhabited ρ] (C : Convert ρ) (xs : List Call)
    (hxs : xs.length < 2 ^ 64) :
    (∀ c ∈ runCalls C {} xs, (Matched C c ↔ Fits C c.id c.exchange) ∧
      ifContains c.request "id" = some (.uint64 c.id)) ∧
    ((runCalls C {} xs).map Completed.id).Nodup := by
  refine ⟨fun c hc => ?_, ?_⟩
  · obtain ⟨hrequest, houtcome⟩ := runCalls_mem hc
    exact ⟨matched_iff houtcome, hrequest⟩
  · rw [map_id_runCalls]
    refine List.nodup_range.map_on fun k hk l hl h => ?_
    have hk' := List.mem_range.1 hk
    have hl' := List.mem_range.1 hl
    dsimp only at h
    omega

instance : Inhabited Json := ⟨.null⟩

/-- A method that returns a `json::value`. -/
def valueConvert : Convert Json := ⟨.ok, fun _ _ h => by cases h⟩

/-- The text of a string member. -/
def textMember (key text : String) : List Char × Json := (key.toList, .string text.toList)

/-- A call for which a body comes in. -/
def callWith (body : Json) : Call := ⟨"m".toList, .null, { body }⟩

/-- An error that was reported to the call 7. -/
def foreignError : Json :=
  .object [textMember "jsonrpc" "2.0", ("error".toList, .object [("code".toList, .int64 (-32600))]),
    ("id".toList, .int64 7)]

/-- A response of another version. -/
def oldVersion : Json :=
  .object [textMember "jsonrpc" "1.0", ("result".toList, .int64 5), ("id".toList, .int64 1)]

/-- The response to the first call. -/
def firstAnswer : Json :=
  .object [textMember "jsonrpc" "2.0", ("result".toList, .int64 5), ("id".toList, .int64 1)]

theorem firstAnswer_matched :
    [callWith firstAnswer].length < 2 ^ 64 ∧
      ∀ c ∈ runCalls valueConvert {} [callWith firstAnswer], Matched valueConvert c := by
  have hlength : [callWith firstAnswer].length < 2 ^ 64 := by decide
  refine ⟨hlength, fun c hc => ((calls_matched valueConvert _ hlength).1 c hc).1.2 ?_⟩
  obtain rfl := List.mem_singleton.1 hc
  intro _ obj hobj
  cases hobj
  exact ⟨.inl ⟨_, rfl, rfl⟩, fun _ e code hreports => by cases hreports.1⟩

/-- The first call takes an error of the call 7 for its own, and a response of the version 1.0 for a
null result. -/
theorem responses_not_matched :
    (∃ c ∈ runCalls valueConvert {} [callWith foreignError], c.id = 1 ∧
      (∃ e, c.completion = .server e) ∧ ¬ Matched valueConvert c) ∧
    ∃ c ∈ runCalls valueConvert {} [callWith oldVersion],
      c.completion = .result .null ∧ ¬ Matched valueConvert c := by
  refine ⟨⟨_, List.mem_cons_self, rfl, ⟨_, rfl⟩, fun h => ?_⟩,
    ⟨_, List.mem_cons_self, rfl, fun h => ?_⟩⟩
  · obtain ⟨obj, hobj, hid⟩ := h.server _ rfl
    cases hobj
    rcases hid with ⟨i, hi, hone⟩ | hnull
    · cases hi
      cases hone
    · cases hnull
  · obtain ⟨obj, v, hobj, ⟨w, hw, hversion⟩, -⟩ := h.result _ rfl
    cases hobj
    cases hw
    cases hversion

end Beast2.Jsonrpc
