import Beast2.Lib.Machine
import Beast2.Burl.Credentials

/-!
# Transfers that share a jar

The tasks that `co_main` spawns run at once: a transfer runs until it waits for the network, and
then others do (`main.cpp:803-820`). All they share is the cookie jar. In a turn of its loop a
transfer looks at the jar twice, in `set_cookies` before it sends its request and in
`extract_cookies` when the response is there. So a turn falls into two halves, and the halves of any
number of transfers come in any order; a transfer may start at any time, also as another attempt of
`retry`.

Each transfer of such a run does what it would do alone, if somebody changed the jar under it
between the halves (`parallel_transfers`): what holds of the logs of all runs of `performRequest`
holds of the transfers that run in parallel.
-/

namespace Beast2.Burl

open Loop Machine Fields

/-! ## The halves of a turn -/

/-- Where a transfer is: at the head of its loop, waiting for the response of an exchange, or out of
the loop. -/
inductive Stage (F : Type) where
  | head
  | waiting (x : Exchange F)
  | ended (e : Ending F)

/-- An exchange in which nobody else changes the jar. -/
def Exchange.alone {F : Type} (x : Exchange F) : Exchange F :=
  { x with jarBefore := id, jarAfter := id }

section
variable {F Ref : Type} [Container F]

/-- The first half of a turn, up to the response. Reference: `main.cpp:499-507`. -/
def Transfer.send (expCookies : List Char) (x : Exchange F) (t : Transfer F) :
    Stage F × Transfer F :=
  match setCookies expCookies t x.now with
  | none => (.ended .callThrew, t)
  | some (request, jar) =>
    let headResponse := request.method == methodHead
    let log := t.log ++ [.send ⟨t.url, request, t.msg, t.jar, x.now, headResponse, x.response⟩]
    (.waiting x, { t with request, jar, log })

/-- The second half of a turn, from the response on. Reference: `main.cpp:507-573`. -/
def Transfer.receive (urls : Urls Ref) (psl : Psl) (oc : OperationConfig) (orgUrl : Url)
    (x : Exchange F) (t : Transfer F) : Stage F × Transfer F :=
  match x.response with
  | none => (.ended .callThrew, t)
  | some res =>
    match t.respond urls psl oc orgUrl x.alone res with
    | .exit (e, t) => (.ended e, t)
    | .next t => (.head, t)

/-! ## The machine -/

/-- A transfer that has come to its loop: what it was started with, where it is, and its variables.
The jar among them is the one after its last half of a turn. -/
structure Running (F : Type) where
  oc : OperationConfig
  msg : Message
  orgUrl : Url
  exchanges : List (Exchange F)
  stage : Stage F
  transfer : Transfer F

/-- The jar, if cookies are enabled, and the transfers so far. -/
structure Shared (F : Type) where
  jar : Option (List Cookie)
  running : List (Running F)

/-- The halves of a turn. -/
inductive TurnHalf where
  | send
  | receive
deriving DecidableEq, Repr

/-- A transfer comes to its loop, or one does a half of a turn. -/
inductive SharedEvent (F : Type) where
  | start (oc : OperationConfig) (msg : Message) (url : Url) (exchanges : List (Exchange F))
  | half (i : Nat) (h : TurnHalf)

/-- `perform_request` up to its loop. Reference: `main.cpp:411, 490-496`. -/
def Running.start (build : Build) (oc : OperationConfig) (msg : Message) (url : Url)
    (jar : Option (List Cookie)) (exchanges : List (Exchange F)) : Option (Running F) :=
  match createRequest build oc msg url with
  | .error _ => none
  | .ok request =>
    let transfer : Transfer F :=
      ⟨request, msg, url, url, true, oc.maxredirs, jar, exchanges, [.connect url]⟩
    some { oc, msg, orgUrl := url, exchanges, stage := .head, transfer }

/-- A half of a turn on the shared jar, if it is the turn of that half. -/
def Running.half (urls : Urls Ref) (psl : Psl) (expCookies : List Char) (r : Running F)
    (jar : Option (List Cookie)) : TurnHalf → Option (Running F)
  | .send =>
    match r.stage, r.transfer.exchanges with
    | .head, x :: exchanges =>
      let (stage, transfer) := { r.transfer with jar, exchanges }.send expCookies x
      some { r with stage, transfer }
    | _, _ => none
  | .receive =>
    match r.stage with
    | .waiting x =>
      let (stage, transfer) := { r.transfer with jar }.receive urls psl r.oc r.orgUrl x
      some { r with stage, transfer }
    | _ => none

/-- The next state, or nothing if the event cannot happen. -/
def Shared.step (urls : Urls Ref) (psl : Psl) (build : Build) (expCookies : List Char)
    (s : Shared F) : SharedEvent F → Option (Shared F)
  | .start oc msg url exchanges => do
    let r ← Running.start build oc msg url s.jar exchanges
    some { s with running := s.running ++ [r] }
  | .half i h => do
    let r ← s.running[i]?
    let r ← r.half urls psl expCookies s.jar h
    some ⟨r.transfer.jar, s.running.set i r⟩

variable {urls : Urls Ref} {psl : Psl} {build : Build} {oc : OperationConfig}
  {expCookies : List Char} {orgUrl : Url} {msg : Message} {x x' : Exchange F} {t t' : Transfer F}

/-! ## What the halves leave alone -/

omit [Container F] in
/-- `extract_cookies` does not look at what other transfers do. -/
theorem extractCookiesLoop_alone (hx : x'.alone = x.alone) (url : Url) (svs : List (List Char))
    (jar : List Cookie) (k : Nat) :
    extractCookiesLoop psl x' url jar k svs = extractCookiesLoop psl x url jar k svs := by
  have hclock : x'.clock = x.clock := congrArg (·.clock) hx
  have hnow : x'.addNow = x.addNow := congrArg (·.addNow) hx
  induction svs generalizing jar k with
  | nil => rfl
  | cons sv svs ih =>
    simp only [extractCookiesLoop, hclock, hnow]
    split
    · rfl
    · exact ih _ _

theorem extractCookies_alone (hx : x'.alone = x.alone) (url : Url) (jar : Option (List Cookie))
    (res : Response F) : extractCookies psl x' url jar res = extractCookies psl x url jar res := by
  cases jar with
  | none => rfl
  | some jar => simp only [extractCookies, extractCookiesLoop_alone hx]

theorem extractCookies_map_alone (x : Exchange F) (url : Url) (jar : Option (List Cookie))
    (res : Response F) :
    extractCookies psl x.alone url (jar.map x.alone.jarBefore) res =
      extractCookies psl x url jar res := by
  have hjar : jar.map x.alone.jarBefore = jar := Option.map_id'
  have hx : x.alone.alone = x.alone := rfl
  rw [hjar]
  exact extractCookies_alone hx url jar res

/-- What a response comes to depends on the jar that is found and on nothing else that others do,
and the exchanges still to come are left alone. -/
theorem Transfer.respond_alone (hx : x'.alone = x.alone) {jar : Option (List Cookie)}
    (hjar : jar.map x'.jarBefore = t.jar) (rest : List (Exchange F)) (res : Response F) :
    (∀ e u, t.respond urls psl oc orgUrl x.alone res = .exit (e, u) →
      { t with jar, exchanges := rest }.respond urls psl oc orgUrl x' res =
        .exit (e, { u with jar := u.jar.map x'.jarAfter, exchanges := rest })) ∧
    ∀ u, t.respond urls psl oc orgUrl x.alone res = .next u →
      { t with jar, exchanges := rest }.respond urls psl oc orgUrl x' res =
        .next { u with jar := u.jar.map x'.jarAfter, exchanges := rest } := by
  have hdrained : x.alone.drained = x'.drained := congrArg (·.drained) hx.symm
  have hconnected : x.alone.connected = x'.connected := congrArg (·.connected) hx.symm
  have hextract : extractCookies psl x' t.url (jar.map x'.jarBefore) res =
      extractCookies psl x t.url t.jar res := by
    rw [hjar, extractCookies_alone hx]
  simp only [Transfer.respond, hextract, extractCookies_map_alone, hdrained, hconnected]
  generalize extractCookies psl x t.url t.jar res = found
  obtain ⟨found, ok⟩ := found
  have hfound : found.map x.alone.jarAfter = found := Option.map_id'
  dsimp only
  rw [hfound]
  split
  · exact ⟨fun e u h => by cases h; rfl, fun u h => by cases h⟩
  split
  · exact ⟨fun e u h => by cases h; rfl, fun u h => by cases h⟩
  split
  · exact ⟨fun e u h => by cases h; rfl, fun u h => by cases h⟩
  cases redirectUrl urls res t.referer with
  | none => exact ⟨fun e u h => by cases h; rfl, fun u h => by cases h⟩
  | some url =>
    dsimp only
    split
    · exact ⟨fun e u h => by cases h; rfl, fun u h => by cases h⟩
    split
    · exact ⟨fun e u h => by cases h; rfl, fun u h => by cases h⟩
    · exact ⟨fun e u h => (by cases h), fun u h => by cases h; rfl⟩

/-- A response changes the jar by its cookies, sends nothing and takes no exchange. -/
theorem Transfer.respond_keeps (x : Exchange F) (res : Response F) (t : Transfer F) :
    ∃ u, ((∃ e, t.respond urls psl oc orgUrl x res = .exit (e, u)) ∨
        t.respond urls psl oc orgUrl x res = .next u) ∧
      u.jar = (extractCookies psl x t.url (t.jar.map x.jarBefore) res).1.map x.jarAfter ∧
      sends u.log = sends t.log ∧ u.exchanges = t.exchanges := by
  simp only [Transfer.respond]
  split
  · exact ⟨_, .inl ⟨_, rfl⟩, rfl, rfl, rfl⟩
  split
  · exact ⟨_, .inl ⟨_, rfl⟩, rfl, rfl, rfl⟩
  split
  · exact ⟨_, .inl ⟨_, rfl⟩, rfl, rfl, rfl⟩
  cases redirectUrl urls res t.referer with
  | none => exact ⟨_, .inl ⟨_, rfl⟩, rfl, rfl, rfl⟩
  | some url =>
    dsimp only
    split
    · exact ⟨_, .inl ⟨_, rfl⟩, rfl, rfl, rfl⟩
    split
    · exact ⟨_, .inl ⟨_, rfl⟩, rfl, rfl, rfl⟩
    · refine ⟨_, .inr rfl, rfl, ?_, rfl⟩
      show sends (if _ then _ else _) = _
      split
      · rfl
      · rw [sends_append, sends_connect, List.append_nil]

theorem Transfer.receive_none (h : x.response = none) :
    t.receive urls psl oc orgUrl x = (.ended .callThrew, t) := by
  simp only [Transfer.receive, h]

theorem Transfer.receive_exit {res : Response F} {e : Ending F} {u : Transfer F}
    (h : x.response = some res) (hturn : t.respond urls psl oc orgUrl x.alone res = .exit (e, u)) :
    t.receive urls psl oc orgUrl x = (.ended e, u) := by
  simp only [Transfer.receive, h, hturn]

theorem Transfer.receive_next {res : Response F} {u : Transfer F} (h : x.response = some res)
    (hturn : t.respond urls psl oc orgUrl x.alone res = .next u) :
    t.receive urls psl oc orgUrl x = (.head, u) := by
  simp only [Transfer.receive, h, hturn]

/-- The jar with the cookies of the response of an exchange. -/
def Exchange.extract (psl : Psl) (x : Exchange F) (url : Url) (jar : Option (List Cookie)) :
    Option (List Cookie) :=
  x.response.elim jar fun res => (extractCookies psl x url jar res).1

theorem Exchange.isSome_extract (x : Exchange F) (url : Url) (jar : Option (List Cookie)) :
    (x.extract psl url jar).isSome = jar.isSome := by
  unfold Exchange.extract
  cases x.response with
  | none => rfl
  | some res =>
    cases jar with
    | none => rfl
    | some jar => rfl

/-- The second half of a turn: the jar is the one with the cookies of the response, nothing is sent,
no exchange is taken, and the transfer waits no more. -/
theorem Transfer.receive_keeps (x : Exchange F) (t : Transfer F) :
    (t.receive urls psl oc orgUrl x).2.jar = x.extract psl t.url t.jar ∧
      sends (t.receive urls psl oc orgUrl x).2.log = sends t.log ∧
      (t.receive urls psl oc orgUrl x).2.exchanges = t.exchanges ∧
      ∀ x', (t.receive urls psl oc orgUrl x).1 ≠ .waiting x' := by
  unfold Exchange.extract
  cases hres : x.response with
  | none =>
    rw [receive_none hres]
    exact ⟨rfl, rfl, rfl, fun x' h => by cases h⟩
  | some res =>
    obtain ⟨u, hturn, hjar, hsends, hexchanges⟩ :=
      @Transfer.respond_keeps F Ref _ urls psl oc orgUrl x.alone res t
    have hjar' : u.jar = (extractCookies psl x t.url t.jar res).1 := by
      rw [hjar, extractCookies_map_alone]
      exact Option.map_id'
    rcases hturn with ⟨e, hturn⟩ | hturn
    · rw [receive_exit hres hturn]
      exact ⟨hjar', hsends, hexchanges, fun x' h => by cases h⟩
    · rw [receive_next hres hturn]
      exact ⟨hjar', hsends, hexchanges, fun x' h => by cases h⟩

/-- The first half of a turn: either the request is sent, or `make_field` has thrown. -/
theorem Transfer.send_cases (expCookies : List Char) (x : Exchange F) (t : Transfer F) :
    (∃ r jar, setCookies expCookies t x.now = some (r, jar) ∧
      t.send expCookies x = (.waiting x, { t with
        request := r
        jar
        log := t.log ++ [.send ⟨t.url, r, t.msg, t.jar, x.now, r.method == methodHead,
          x.response⟩] })) ∨
    setCookies expCookies t x.now = none ∧ t.send expCookies x = (.ended .callThrew, t) := by
  unfold Transfer.send
  cases h : setCookies expCookies t x.now with
  | none => exact .inr ⟨rfl, rfl⟩
  | some rj => exact .inl ⟨rj.1, rj.2, rfl, rfl⟩

/-- A turn is its two halves. -/
theorem Transfer.turn_of_send (hx : x'.alone = x.alone) (rest : List (Exchange F)) :
    (∀ e u, t.send expCookies x = (.ended e, u) →
      { t with exchanges := x' :: rest }.turn urls psl oc expCookies orgUrl =
        .exit (e, { u with exchanges := rest })) ∧
    ∀ u, t.send expCookies x = (.waiting x, u) →
      { t with exchanges := x' :: rest }.turn urls psl oc expCookies orgUrl =
        match x'.response with
        | none => .exit (.callThrew, { u with exchanges := rest })
        | some res => { u with exchanges := rest }.respond urls psl oc orgUrl x' res := by
  have hnow : x'.now = x.now := congrArg (·.now) hx
  have hresponse : x'.response = x.response := congrArg (·.response) hx
  have hset : ∀ now, setCookies expCookies { t with exchanges := x' :: rest } now =
      setCookies expCookies t now := fun _ => rfl
  simp only [Transfer.turn, hset, hnow, hresponse]
  rcases Transfer.send_cases expCookies x t with ⟨r, jar, hsome, hsend⟩ | ⟨hnone, hsend⟩
  · rw [hsend, hsome]
    exact ⟨fun e u h => (by cases h), fun u h => by cases h; rfl⟩
  · rw [hsend, hnone]
    exact ⟨fun e u h => by cases h; rfl, fun u h => by cases h⟩

/-- The jar is enabled after the first half of a turn if it was before. -/
theorem Transfer.isSome_send (x : Exchange F) (t : Transfer F) :
    (t.send expCookies x).2.jar.isSome = t.jar.isSome := by
  rcases Transfer.send_cases expCookies x t with ⟨r, jar, hset, hsend⟩ | ⟨-, hsend⟩
  · rw [hsend]
    obtain ⟨⟨cookie, jar'⟩, hfield, hset⟩ := Option.bind_eq_some_iff.1 hset
    cases hset
    show jar.isSome = t.jar.isSome
    cases hjar : t.jar with
    | none =>
      rw [hjar] at hfield
      cases hfield
      rfl
    | some cookies =>
      rw [hjar] at hfield
      obtain ⟨_, -, hfield⟩ := Option.map_eq_some_iff.1 hfield
      cases hfield
      rfl
  · rw [hsend]

/-! ## Each transfer alone -/

/-- How a transfer would end alone, and its log, with a jar to begin with and what happens
outside. -/
def Running.alone (urls : Urls Ref) (psl : Psl) (build : Build) (expCookies : List Char)
    (r : Running F) (jar : Option (List Cookie)) (xs : List (Exchange F)) :
    Ending F × List (Event F) :=
  performRequest urls psl build r.oc expCookies r.msg r.orgUrl jar true xs

/-- Alone, a transfer comes to the head of its loop with these variables when some of its exchanges
are left, if others do the right things to the jar during those before. -/
def Running.Reaches (urls : Urls Ref) (psl : Psl) (build : Build) (expCookies : List Char)
    (r : Running F) (left : List (Exchange F)) (t : Transfer F) : Prop :=
  ∃ jar xs, (xs ++ left).map Exchange.alone = r.exchanges.map Exchange.alone ∧
    ∀ rest, r.alone urls psl build expCookies jar (xs ++ rest) =
      ((Transfer.loop urls psl r.oc expCookies r.orgUrl { t with exchanges := rest }).1,
        (Transfer.loop urls psl r.oc expCookies r.orgUrl { t with exchanges := rest }).2.log)

/-- Alone, a transfer ends in this way with this log, if others do the right things to the jar. -/
def Running.Ends (urls : Urls Ref) (psl : Psl) (build : Build) (expCookies : List Char)
    (r : Running F) (p : Ending F × List (Event F)) : Prop :=
  ∃ jar xs, xs.map Exchange.alone = r.exchanges.map Exchange.alone ∧
    r.alone urls psl build expCookies jar xs = p

/-- Where a transfer is, it would come alone: at the head of the loop whatever the jar is there. -/
inductive Running.Kept (urls : Urls Ref) (psl : Psl) (build : Build) (expCookies : List Char)
    (enabled : Bool) (r : Running F) : Prop
  | head (hstage : r.stage = .head)
      (h : ∀ jar : Option (List Cookie), jar.isSome = enabled →
        r.Reaches urls psl build expCookies r.transfer.exchanges { r.transfer with jar })
  | waiting (x : Exchange F) (t : Transfer F) (hstage : r.stage = .waiting x)
      (h : r.Reaches urls psl build expCookies (x :: r.transfer.exchanges) t)
      (hjar : r.transfer.jar.isSome = enabled)
      (hsend : t.send expCookies x = (.waiting x, r.transfer))
  | ended (e : Ending F) (hstage : r.stage = .ended e)
      (h : r.Ends urls psl build expCookies (e, r.transfer.log))

variable {r r' : Running F} {left : List (Exchange F)} {enabled : Bool}

/-- A turn that goes round leads from head to head. -/
theorem Running.Reaches.next (h : r.Reaches urls psl build expCookies (x :: left) t)
    (hx : x'.alone = x.alone)
    (hturn : ∀ rest, { t with exchanges := x' :: rest }.turn urls psl r.oc expCookies r.orgUrl =
      .next { t' with exchanges := rest }) :
    r.Reaches urls psl build expCookies left t' := by
  obtain ⟨jar, xs, hxs, hloop⟩ := h
  refine ⟨jar, xs ++ [x'], ?_, fun rest => ?_⟩
  · rw [← hxs]
    simp [hx]
  · have hrun :
        Transfer.loop urls psl r.oc expCookies r.orgUrl { t with exchanges := x' :: rest } =
          Transfer.loop urls psl r.oc expCookies r.orgUrl { t' with exchanges := rest } :=
      run_next (hturn rest)
    rw [List.append_assoc, List.singleton_append, hloop, hrun]

/-- A turn that leaves the loop ends the transfer. -/
theorem Running.Reaches.exit (h : r.Reaches urls psl build expCookies (x :: left) t)
    (hx : x'.alone = x.alone) {e : Ending F}
    (hturn : { t with exchanges := x' :: left }.turn urls psl r.oc expCookies r.orgUrl =
      .exit (e, t')) :
    r.Ends urls psl build expCookies (e, t'.log) := by
  obtain ⟨jar, xs, hxs, hloop⟩ := h
  refine ⟨jar, xs ++ x' :: left, ?_, ?_⟩
  · rw [← hxs]
    simp [hx]
  · have hrun :
        Transfer.loop urls psl r.oc expCookies r.orgUrl { t with exchanges := x' :: left } =
          (e, t') :=
      run_exit hturn
    rw [hloop, hrun]

omit [Container F] in
/-- A jar that is enabled can be made any other. -/
theorem map_getD {jar jar' : Option (List Cookie)} (h : jar.isSome = jar'.isSome) :
    jar.map (fun _ => jar'.getD []) = jar' := by
  cases jar' with
  | none => simpa using h
  | some cookies =>
    obtain ⟨_, rfl⟩ := Option.isSome_iff_exists.1 h
    rfl

/-- The first half of a turn is for a transfer at the head of its loop. -/
theorem Running.half_send {jar : Option (List Cookie)}
    (h : r.half urls psl expCookies jar .send = some r') :
    r.stage = .head ∧ ∃ x exchanges, r.transfer.exchanges = x :: exchanges ∧
      r' = { r with
        stage := ({ r.transfer with jar, exchanges }.send expCookies x).1
        transfer := ({ r.transfer with jar, exchanges }.send expCookies x).2 } := by
  simp only [Running.half] at h
  split at h
  · next x exchanges hstage hleft =>
    cases h
    exact ⟨hstage, x, exchanges, hleft, rfl⟩
  · cases h

/-- The second half is for one that waits. -/
theorem Running.half_receive {jar : Option (List Cookie)}
    (h : r.half urls psl expCookies jar .receive = some r') :
    ∃ x, r.stage = .waiting x ∧ r' = { r with
      stage := ({ r.transfer with jar }.receive urls psl r.oc r.orgUrl x).1
      transfer := ({ r.transfer with jar }.receive urls psl r.oc r.orgUrl x).2 } := by
  simp only [Running.half] at h
  split at h
  · next x hstage =>
    cases h
    exact ⟨x, hstage, rfl⟩
  · cases h

/-- The first half of a turn keeps a transfer where it would come alone. -/
theorem Running.Kept.send (h : r.Kept urls psl build expCookies enabled)
    {jar : Option (List Cookie)} (hjar : jar.isSome = enabled)
    (hs : r.half urls psl expCookies jar .send = some r') :
    r'.Kept urls psl build expCookies enabled := by
  obtain ⟨hstage, x, exchanges, hleft, rfl⟩ := Running.half_send hs
  cases h with
  | head _ h =>
    have hreach := h jar hjar
    rw [hleft] at hreach
    have hsome : ({ r.transfer with jar, exchanges }.send expCookies x).2.jar.isSome = jar.isSome :=
      Transfer.isSome_send x _
    have hexit : ∀ e u, { r.transfer with jar, exchanges }.send expCookies x = (.ended e, u) →
        { r.transfer with jar, exchanges := x :: exchanges }.turn urls psl r.oc expCookies
          r.orgUrl = .exit (e, { u with exchanges }) :=
      (Transfer.turn_of_send rfl exchanges).1
    rcases Transfer.send_cases expCookies x { r.transfer with jar, exchanges } with
      ⟨request, jar', -, hsend⟩ | ⟨-, hsend⟩
    · rw [hsend] at hsome ⊢
      exact .waiting x { r.transfer with jar, exchanges } rfl hreach (hsome.trans hjar) hsend
    · rw [hsend]
      exact .ended .callThrew rfl (hreach.exit rfl (hexit _ _ hsend))
  | waiting x t hwaiting => cases hstage.symm.trans hwaiting
  | ended e hended => cases hstage.symm.trans hended

/-- The second half of a turn does, too: alone, the others do to the jar what has happened to it. -/
theorem Running.Kept.receive (h : r.Kept urls psl build expCookies enabled)
    {jar : Option (List Cookie)} (hjar : jar.isSome = enabled)
    (hs : r.half urls psl expCookies jar .receive = some r') :
    r'.Kept urls psl build expCookies enabled := by
  obtain ⟨x, hstage, rfl⟩ := Running.half_receive hs
  cases h with
  | head hhead => cases hstage.symm.trans hhead
  | ended e hended => cases hstage.symm.trans hended
  | waiting x' t hwaiting hreach henabled hsend =>
    cases hstage.symm.trans hwaiting
    have hkeeps := @Transfer.receive_keeps F Ref _ urls psl r.oc r.orgUrl x { r.transfer with jar }
    have hturns : ∀ x' rest, x'.alone = x.alone →
        { t with exchanges := x' :: rest }.turn urls psl r.oc expCookies r.orgUrl =
          match x'.response with
          | none => .exit (.callThrew, { r.transfer with exchanges := rest })
          | some res =>
            { r.transfer with exchanges := rest }.respond urls psl r.oc r.orgUrl x' res :=
      fun x' rest hx => (Transfer.turn_of_send hx rest).2 _ hsend
    cases hres : x.response with
    | none =>
      rw [Transfer.receive_none hres]
      have hexit := hturns x r.transfer.exchanges rfl
      rw [hres] at hexit
      have hends := hreach.exit rfl hexit
      exact .ended .callThrew rfl hends
    | some res =>
      obtain ⟨u, hturn, -⟩ :=
        @Transfer.respond_keeps F Ref _ urls psl r.oc r.orgUrl x.alone res { r.transfer with jar }
      have hbefore := map_getD (henabled.trans hjar.symm)
      rcases hturn with ⟨e, hturn⟩ | hturn
      · rw [Transfer.receive_exit hres hturn]
        let x' := { x with jarBefore := fun _ => jar.getD [] }
        have hx : x'.alone = x.alone := rfl
        have halone := (Transfer.respond_alone hx hbefore r.transfer.exchanges res).1 e u hturn
        have hexit := hturns x' r.transfer.exchanges hx
        rw [show x'.response = some res from hres] at hexit
        have hends := hreach.exit hx (hexit.trans halone)
        exact .ended e rfl hends
      · rw [Transfer.receive_next hres hturn] at hkeeps ⊢
        refine .head rfl fun jar' hjar' => ?_
        let x' := { x with
          jarBefore := fun _ => jar.getD []
          jarAfter := fun _ => jar'.getD [] }
        have hx : x'.alone = x.alone := rfl
        have hafter : u.jar.map x'.jarAfter = jar' := by
          refine map_getD ?_
          rw [hkeeps.1, Exchange.isSome_extract, hjar']
          exact hjar
        have hnext : ∀ rest, { t with exchanges := x' :: rest }.turn urls psl r.oc expCookies
            r.orgUrl = .next { u with jar := jar', exchanges := rest } := by
          intro rest
          have halone := (Transfer.respond_alone hx hbefore rest res).2 u hturn
          have hgoes := hturns x' rest hx
          rw [show x'.response = some res from hres] at hgoes
          rw [hafter] at halone
          exact hgoes.trans halone
        have hreach' : r.Reaches urls psl build expCookies r.transfer.exchanges
            { u with jar := jar' } := hreach.next hx hnext
        rw [← show u.exchanges = r.transfer.exchanges from hkeeps.2.2.1] at hreach'
        exact hreach'

/-- A transfer that comes to its loop is there alone, too. -/
theorem Running.kept_start {url : Url} {jar : Option (List Cookie)} {xs : List (Exchange F)}
    (h : Running.start build oc msg url jar xs = some r) :
    r.Kept urls psl build expCookies enabled := by
  unfold Running.start at h
  cases hrequest : createRequest (F := F) build oc msg url with
  | error what => simp [hrequest] at h
  | ok request =>
    simp only [hrequest, Option.some.injEq] at h
    rw [← h]
    refine .head rfl fun jar' _ => ⟨jar', [], rfl, fun rest => ?_⟩
    simp [Running.alone, performRequest, hrequest]

/-- Cookies stay enabled, or not. -/
theorem Running.isSome_half {jar : Option (List Cookie)} {half : TurnHalf}
    (h : r.half urls psl expCookies jar half = some r') :
    r'.transfer.jar.isSome = jar.isSome := by
  cases half with
  | send =>
    obtain ⟨-, x, exchanges, -, rfl⟩ := Running.half_send h
    exact Transfer.isSome_send _ _
  | receive =>
    obtain ⟨x, -, rfl⟩ := Running.half_receive h
    exact (congrArg Option.isSome (Transfer.receive_keeps _ _).1).trans
      (Exchange.isSome_extract _ _ _)

/-- The states of a run: every transfer is where it would come alone. -/
structure Shared.Kept (urls : Urls Ref) (psl : Psl) (build : Build) (expCookies : List Char)
    (enabled : Bool) (s : Shared F) : Prop where
  jar : s.jar.isSome = enabled
  running : ∀ r ∈ s.running, r.Kept urls psl build expCookies enabled

theorem Shared.Kept.step {s s' : Shared F} {e : SharedEvent F}
    (h : s.Kept urls psl build expCookies enabled)
    (hs : s.step urls psl build expCookies e = some s') :
    s'.Kept urls psl build expCookies enabled := by
  cases e with
  | start oc msg url xs =>
    obtain ⟨r, hr, hs⟩ := Option.bind_eq_some_iff.1 hs
    cases hs
    refine ⟨h.jar, fun r' hr' => ?_⟩
    rcases List.mem_append.1 hr' with hr' | hr'
    · exact h.running r' hr'
    · cases List.mem_singleton.1 hr'
      exact Running.kept_start hr
  | half i half =>
    obtain ⟨r, hr, hs⟩ := Option.bind_eq_some_iff.1 hs
    obtain ⟨r', hhalf, hs⟩ := Option.bind_eq_some_iff.1 hs
    cases hs
    refine ⟨(Running.isSome_half hhalf).trans h.jar, fun r'' hr'' => ?_⟩
    rcases List.mem_or_eq_of_mem_set hr'' with hr'' | rfl
    · exact h.running r'' hr''
    · have hkept := h.running r (List.mem_of_getElem? hr)
      cases half with
      | send => exact hkept.send h.jar hhalf
      | receive => exact hkept.receive h.jar hhalf

/-! ## Logs -/

/-- A response adds to the log. -/
theorem Transfer.respond_adds (x : Exchange F) (res : Response F) (t : Transfer F) :
    (∀ e u, t.respond urls psl oc orgUrl x res = .exit (e, u) → t.log <+: u.log) ∧
      ∀ u, t.respond urls psl oc orgUrl x res = .next u → t.log <+: u.log := by
  rcases @Transfer.respond_cases F Ref _ urls psl oc orgUrl t x res with
    ⟨e, u, heq, hlog, -⟩ | ⟨t₁, url, heq, hfollows⟩
  · refine ⟨fun e' u' h => ?_, fun u' h => ?_⟩
    · cases heq.symm.trans h
      exact ⟨[], (List.append_nil _).trans hlog.symm⟩
    · cases heq.symm.trans h
  · refine ⟨fun e' u' h => ?_, fun u' h => ?_⟩
    · cases heq.symm.trans h
    · cases heq.symm.trans h
      show t.log <+: t₁.log
      rcases hfollows.log with ⟨hlog, -⟩ | hlog
      · exact ⟨[], (List.append_nil _).trans hlog.symm⟩
      · exact ⟨[.connect url], hlog.symm⟩

/-- A loop adds to the log. -/
theorem Transfer.loop_adds (t : Transfer F) :
    t.log <+: (Transfer.loop urls psl oc expCookies orgUrl t).2.log := by
  refine run_rec (P := fun (t : Transfer F) (r : Ending F × Transfer F) => t.log <+: r.2.log)
    (fun t r hturn => ?_) (fun t t' r hturn ih => ?_) t
  · rcases @Transfer.turn_cases F Ref _ urls psl oc expCookies orgUrl t with
      ⟨e, t', heq, hlog, -⟩ | ⟨s, res, t₀, t₁, url, heq, -⟩
    · cases hturn.symm.trans heq
      rw [hlog]
      exact List.prefix_append _ _
    · cases hturn.symm.trans heq
  · rcases @Transfer.turn_cases F Ref _ urls psl oc expCookies orgUrl t with
      ⟨e, t', heq, -⟩ | ⟨s, res, t₀, t₁, url, heq, hsends, -, hfollows⟩
    · cases hturn.symm.trans heq
    · cases hturn.symm.trans heq
      refine List.IsPrefix.trans ?_ ih
      show t.log <+: t₁.log
      rcases hfollows.log with ⟨hlog, -⟩ | hlog
      · rw [hlog, hsends.log]
        exact List.prefix_append _ _
      · rw [hlog, hsends.log, List.append_assoc]
        exact List.prefix_append _ _

/-- What was sent in the first half of a turn stays in the log. -/
theorem Transfer.loop_of_send {u : Transfer F} (hsend : t.send expCookies x = (.waiting x, u))
    (left : List (Exchange F)) :
    u.log <+:
      (Transfer.loop urls psl oc expCookies orgUrl { t with exchanges := x :: left }).2.log := by
  have hturn : { t with exchanges := x :: left }.turn urls psl oc expCookies orgUrl = _ :=
    (Transfer.turn_of_send rfl left).2 u hsend
  cases hres : x.response with
  | none =>
    rw [hres] at hturn
    have hend : Transfer.loop urls psl oc expCookies orgUrl { t with exchanges := x :: left } =
        (.callThrew, { u with exchanges := left }) :=
      run_exit hturn
    exact ⟨[], (List.append_nil _).trans (congrArg (fun p => p.2.log) hend).symm⟩
  | some res =>
    rw [hres] at hturn
    have hadds :=
      @Transfer.respond_adds F Ref _ urls psl oc orgUrl x res { u with exchanges := left }
    cases hresult : { u with exchanges := left }.respond urls psl oc orgUrl x res with
    | exit p =>
      rw [Transfer.loop, run_exit (hturn.trans hresult)]
      exact hadds.1 p.1 p.2 hresult
    | next u' =>
      rw [Transfer.loop, run_next (hturn.trans hresult)]
      exact (hadds.2 u' hresult).trans (Transfer.loop_adds u')

/-- A transfer is a run of `performRequest` with the same exchanges but for what others do to the
jar: its log is the beginning of the log of that run, and it ends as that run does. -/
def Running.Refines (urls : Urls Ref) (psl : Psl) (build : Build) (expCookies : List Char)
    (r : Running F) : Prop :=
  ∃ jar xs, xs.map Exchange.alone = r.exchanges.map Exchange.alone ∧
    r.transfer.log <+: (r.alone urls psl build expCookies jar xs).2 ∧
    ∀ e, r.stage = .ended e → r.alone urls psl build expCookies jar xs = (e, r.transfer.log)

/-- Alone, a transfer would go on from where it is. -/
theorem Running.Kept.refines (h : r.Kept urls psl build expCookies enabled) :
    r.Refines urls psl build expCookies := by
  cases h with
  | head hstage h =>
    obtain ⟨cookies, henabled⟩ : ∃ cookies : Option (List Cookie), cookies.isSome = enabled := by
      cases enabled with
      | false => exact ⟨none, rfl⟩
      | true => exact ⟨some [], rfl⟩
    obtain ⟨jar, xs, hxs, hloop⟩ := h cookies henabled
    refine ⟨jar, xs ++ r.transfer.exchanges, hxs, ?_, fun e he => ?_⟩
    · rw [hloop]
      exact Transfer.loop_adds { r.transfer with jar := cookies }
    · cases hstage.symm.trans he
  | waiting x t hstage h _ hsend =>
    obtain ⟨jar, xs, hxs, hloop⟩ := h
    refine ⟨jar, xs ++ x :: r.transfer.exchanges, hxs, ?_, fun e he => ?_⟩
    · rw [hloop]
      exact Transfer.loop_of_send hsend _
    · cases hstage.symm.trans he
  | ended e hstage h =>
    obtain ⟨jar, xs, hxs, halone⟩ := h
    refine ⟨jar, xs, hxs, ?_, fun e' he' => ?_⟩
    · exact ⟨[], (List.append_nil _).trans (congrArg Prod.snd halone).symm⟩
    · cases hstage.symm.trans he'
      exact halone

theorem Shared.kept_run {jar : Option (List Cookie)} {es : List (SharedEvent F)} {s : Shared F}
    (h : Machine.run (Shared.step urls psl build expCookies) ⟨jar, []⟩ es = some s) :
    s.Kept urls psl build expCookies jar.isSome :=
  run_inv (fun _ _ _ hkept _ hs => hkept.step hs) ⟨rfl, fun _ hr => absurd hr List.not_mem_nil⟩ h

/-- However transfers that share a jar take turns, each is a run of `performRequest` with the
exchanges it was started with, but for what the others do to the jar: its log is the beginning of
the log of that run, and it ends as that run does. -/
theorem parallel_transfers (urls : Urls Ref) (psl : Psl) (build : Build) (expCookies : List Char)
    (jar : Option (List Cookie)) (es : List (SharedEvent F)) {s : Shared F}
    (h : Machine.run (Shared.step urls psl build expCookies) ⟨jar, []⟩ es = some s) :
    ∀ r ∈ s.running, ∃ jar' xs, xs.map Exchange.alone = r.exchanges.map Exchange.alone ∧
      r.transfer.log <+:
        (performRequest urls psl build r.oc expCookies r.msg r.orgUrl jar' true xs).2 ∧
      ∀ e, r.stage = .ended e →
        performRequest urls psl build r.oc expCookies r.msg r.orgUrl jar' true xs =
          (e, r.transfer.log) :=
  fun r hr => ((Shared.kept_run h).running r hr).refines

end

/-! ## Two transfers -/

/-- A response 200 that sets a cookie for its host. -/
def cookieFor (url : Url) : Exchange FieldList :=
  { hop url with response := some ⟨200, true, false, [(Field.setCookie, "sid=7".toList)]⟩ }

/-- One transfer is sent to another site and gets a cookie there, while a second one is at that
site. -/
def twoTransfers : List (SharedEvent FieldList) :=
  [.start withPassword none home [hop away, cookieFor away],
    .start withPassword none away [hop away, cookieFor away], .half 0 .send, .half 1 .send,
    .half 0 .receive, .half 0 .send, .half 1 .receive, .half 0 .receive, .half 1 .send]

/-- The second transfer waits for its last response when the first one has ended. -/
theorem twoTransfers_parallel :
    ∃ s, Machine.run (Shared.step twoSites none ⟨true, true⟩ "id=1".toList) ⟨some [], []⟩
        twoTransfers = some s ∧
      ∀ r ∈ s.running, ∃ jar xs, xs.map Exchange.alone = r.exchanges.map Exchange.alone ∧
        r.transfer.log <+: (performRequest twoSites none ⟨true, true⟩ r.oc "id=1".toList r.msg
          r.orgUrl jar true xs).2 ∧
        ∀ e, r.stage = .ended e → performRequest twoSites none ⟨true, true⟩ r.oc "id=1".toList r.msg
          r.orgUrl jar true xs = (e, r.transfer.log) := by
  have hrun : (Machine.run (Shared.step twoSites none ⟨true, true⟩ "id=1".toList) ⟨some [], []⟩
      twoTransfers).isSome = true := by decide +kernel
  obtain ⟨s, hs⟩ := Option.isSome_iff_exists.1 hrun
  exact ⟨s, hs, parallel_transfers twoSites none ⟨true, true⟩ "id=1".toList (some []) twoTransfers
    hs⟩

end Beast2.Burl
