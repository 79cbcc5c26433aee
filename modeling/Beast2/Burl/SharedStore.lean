import Beast2.Burl.CookieKeys
import Beast2.Burl.SharedCookies

/-!
# No cookie of a parallel transfer is lost

Each response that a transfer gets writes its cookies to the jar, and each request that one sends
takes the expired ones out of it. Seen through what is sent, the jar of parallel transfers is one
last-writer-wins list (`LastWriter`) to which the responses write in the order in which they come
in, whichever transfers they are for: every Cookie field has the cookies that this list has for the
URL at that moment, as long as the clock is not set back (`parallel_store`). So no write is lost or
done twice because transfers run in parallel, and taking out expired cookies cannot be seen.
-/

namespace Beast2.Burl

open Machine Fields

/-! ## Writes -/

/-- A cookie that is put into the jar, with the reading of the clock at `add`. -/
structure Write where
  cookie : Cookie
  now : Int

namespace Write

/-- The key that a write is for. -/
def key (w : Write) : List Char × Option (List Char) × Option (List Char) := w.cookie.key

/-- The cookie is not expired. -/
def live (w : Write) : Bool := !expiredAtAdd w.now w.cookie

/-- A write on a jar. -/
def apply (jar : List Cookie) (w : Write) : List Cookie :=
  LastWriter.put Cookie.key (fun o => !expiredAtAdd w.now o) jar w.cookie

end Write

/-- The jar that some writes leave of another: the cookies whose keys are not written, and of the
writes those that no later one replaces and whose cookies are not expired. -/
def afterWrites (jar : List Cookie) (ws : List Write) : List Cookie :=
  jar.filter (fun o => ∀ w ∈ ws, w.key ≠ o.key) ++
    (LastWriter.survivors Write.key Write.live ws).map Write.cookie

theorem foldl_apply (jar : List Cookie) (ws : List Write) :
    ws.foldl Write.apply jar = afterWrites jar ws := by
  -- as writes, the cookies of the jar may have any time
  have hlift : ∀ store : List Write, ws.foldl Write.apply (store.map Write.cookie) =
      (ws.foldl (LastWriter.put Write.key Write.live) store).map Write.cookie := by
    induction ws with
    | nil => exact fun _ => rfl
    | cons w ws ih =>
      intro store
      rw [List.foldl_cons, List.foldl_cons, ← ih, Write.apply]
      exact congrArg (ws.foldl Write.apply) (LastWriter.map_put _ _ (fun _ => rfl) _ rfl).symm
  obtain ⟨store, rfl⟩ : ∃ store : List Write, store.map Write.cookie = jar := by
    refine ⟨jar.map fun c => ⟨c, 0⟩, ?_⟩
    rw [List.map_map]
    exact List.map_id' jar
  rw [hlift, LastWriter.foldl_put, List.map_append, afterWrites, List.filter_map]
  rfl

theorem afterWrites_append (jar : List Cookie) (ws ws' : List Write) :
    afterWrites jar (ws ++ ws') = afterWrites (afterWrites jar ws) ws' := by
  rw [← foldl_apply, List.foldl_append, foldl_apply, foldl_apply]

/-- What writes leave of two jars that agree on some cookies agrees on these. -/
theorem filter_afterWrites {p : Cookie → Bool} {jar jar' : List Cookie}
    (h : jar.filter p = jar'.filter p) (ws : List Write) :
    (afterWrites jar ws).filter p = (afterWrites jar' ws).filter p := by
  have hcomm : ∀ jar : List Cookie, (jar.filter fun o => ∀ w ∈ ws, w.key ≠ o.key).filter p =
      (jar.filter p).filter fun o => ∀ w ∈ ws, w.key ≠ o.key := by
    intro jar
    rw [List.filter_filter, List.filter_filter]
    exact List.filter_congr fun o _ => Bool.and_comm _ _
  rw [afterWrites, afterWrites, List.filter_append, List.filter_append, hcomm, hcomm, h]

section
variable {F Ref : Type} [Container F]

/-- The writes of `extract_cookies` from the `k`-th Set-Cookie field on: those up to the first field
that `parse_cookie` does not accept, but for the refused ones. -/
def Exchange.writesLoop (psl : Psl) (x : Exchange F) (url : Url) :
    Nat → List (List Char) → List Write
  | _, [] => []
  | k, sv :: svs =>
    match parseCookie (x.clock k) sv with
    | .error _ => []
    | .ok c =>
      ((toStore psl url c).map fun c => ⟨c, x.addNow k⟩).toList ++
        x.writesLoop psl url (k + 1) svs

/-- The writes of a response. -/
def Exchange.writes (psl : Psl) (x : Exchange F) (url : Url) : List Write :=
  x.response.elim [] fun res => x.writesLoop psl url 0 (findAll res.fields Field.setCookie)

/-- The writes of an event: a response is there. -/
def Shared.writes (psl : Psl) (s : Shared F) : SharedEvent F → List Write
  | .half i .receive =>
    match s.running[i]? with
    | some r =>
      match r.stage with
      | .waiting x => x.writes psl r.transfer.url
      | _ => []
    | none => []
  | _ => []

/-- The writes of a run, in the order of its events. -/
def Shared.writesAlong (urls : Urls Ref) (psl : Psl) (build : Build) (expCookies : List Char) :
    Shared F → List (SharedEvent F) → List Write
  | _, [] => []
  | s, e :: es =>
    s.writes psl e ++
      match s.step urls psl build expCookies e with
      | some s => s.writesAlong urls psl build expCookies es
      | none => []

variable {urls : Urls Ref} {psl : Psl} {build : Build} {expCookies : List Char} {x : Exchange F}
  {r r' : Running F} {s s' : Shared F} {es : List (SharedEvent F)}

theorem Shared.writesAlong_append {e : SharedEvent F}
    (h : Machine.run (Shared.step urls psl build expCookies) s es = some s') :
    s.writesAlong urls psl build expCookies (es ++ [e]) =
      s.writesAlong urls psl build expCookies es ++ s'.writes psl e := by
  induction es generalizing s with
  | nil =>
    cases h
    simp only [List.nil_append, Shared.writesAlong]
    cases s'.step urls psl build expCookies e with
    | none => exact List.append_nil _
    | some s₁ => exact List.append_nil _
  | cons e₁ es ih =>
    obtain ⟨s₁, hs₁, h⟩ := run_cons_iff.1 h
    simp only [List.cons_append, Shared.writesAlong, hs₁, ih h, List.append_assoc]

/-! ## What a step does to the jar -/

omit [Container F] in
/-- `extract_cookies` does its writes. -/
theorem extractCookiesLoop_eq (url : Url) (svs : List (List Char)) (jar : List Cookie) (k : Nat) :
    (extractCookiesLoop psl x url jar k svs).1 =
      (x.writesLoop psl url k svs).foldl Write.apply jar := by
  induction svs generalizing jar k with
  | nil => rfl
  | cons sv svs ih =>
    cases hparse : parseCookie (x.clock k) sv with
    | error e => simp only [extractCookiesLoop, Exchange.writesLoop, hparse, List.foldl_nil]
    | ok c =>
      simp only [extractCookiesLoop, Exchange.writesLoop, hparse]
      rw [ih, List.foldl_append]
      congr 1
      cases hstore : toStore psl url c with
      | none => simp [add, hstore]
      | some c' => simp [add_eq_put hstore, Write.apply]

/-- The jar after the second half of a turn. -/
theorem extract_eq (url : Url) (jar : List Cookie) :
    x.extract psl url (some jar) = some (afterWrites jar (x.writes psl url)) := by
  rw [← foldl_apply]
  unfold Exchange.extract Exchange.writes
  cases x.response with
  | none => rfl
  | some res =>
    simp only [Option.elim_some, extractCookies, extractCookiesLoop_eq]

/-! ## Runs -/

omit [Container F] in
/-- What is expired stays so. -/
theorem expired_mono {now now' : Int} (h : now ≤ now') {c : Cookie} (hc : expired now c = true) :
    expired now' c = true := by
  unfold expired at hc ⊢
  cases hexp : c.expires with
  | none => simp [hexp] at hc
  | some t =>
    simp only [hexp, decide_eq_true_eq] at hc ⊢
    exact hc.trans h

/-- The cookies that are not expired. -/
def unexpired (now : Int) (jar : List Cookie) : List Cookie := jar.filter fun c => !expired now c

omit [Container F] in
/-- Taking out the cookies that are expired takes none that are not expired later. -/
theorem unexpired_unexpired {now now' : Int} (h : now ≤ now') (jar : List Cookie) :
    unexpired now' (unexpired now jar) = unexpired now' jar := by
  rw [unexpired, unexpired, List.filter_filter]
  refine List.filter_congr fun c _ => ?_
  cases hc : expired now c with
  | false => simp
  | true => simp [expired_mono h hc]

omit [Container F] in
theorem emitted_unexpired (u : Url) (now : Int) (jar : List Cookie) :
    emitted u now (unexpired now jar) = emitted u now jar := by
  rw [emitted, emitted, unexpired, List.filter_filter]
  refine List.filter_congr fun c _ => ?_
  cases expired now c with
  | false => simp
  | true => simp

/-- A reading of the clock that is not before one at which a request was sent. -/
def Shared.SentBy (s : Shared F) (now : Int) : Prop :=
  ∀ r ∈ s.running, ∀ q ∈ sends r.transfer.log, q.now ≤ now

/-- But for what is expired, the jar is what the writes leave of another. -/
def Shared.Agrees (jar₀ : List Cookie) (ws : List Write) (s : Shared F) : Prop :=
  ∃ jar, s.jar = some jar ∧
    ∀ now, s.SentBy now → unexpired now jar = unexpired now (afterWrites jar₀ ws)

variable {jar₀ : List Cookie} {ws : List Write} {start : Cookie → Prop}

omit [Container F] in
/-- What all have sent was sent before one did a half of a turn. -/
theorem Shared.SentBy.of_set {now : Int} {i : Nat} {jar : Option (List Cookie)}
    (h : Shared.SentBy (⟨jar, s.running.set i r'⟩ : Shared F) now) (hr : s.running[i]? = some r)
    (hsends : sends r.transfer.log ⊆ sends r'.transfer.log) : s.SentBy now := by
  intro r₁ hr₁ q hq
  rcases eq_or_mem_set hr hr₁ r' with rfl | hmem
  · exact h r' (List.mem_set (List.getElem?_eq_some_iff.1 hr).1 r') q (hsends hq)
  · exact h r₁ hmem q hq

/-- The first half of a turn takes out what is expired. -/
theorem Shared.Agrees.send (h : s.Agrees jar₀ ws) (hcookies : s.Cookies psl start) {i : Nat}
    (hr : s.running[i]? = some r) (hs : r.half urls psl expCookies s.jar .send = some r') :
    Shared.Agrees jar₀ ws (⟨r'.transfer.jar, s.running.set i r'⟩ : Shared F) := by
  obtain ⟨-, x, exchanges, -, rfl⟩ := Running.half_send hs
  obtain ⟨jar, hjar, hagrees⟩ := h
  obtain ⟨jar', hjar', hcomplete⟩ := hcookies.jar
  cases hjar.symm.trans hjar'
  obtain ⟨q, hsend, -, hnow, -⟩ :=
    Transfer.send_complete (x := x) (t := { r.transfer with jar := s.jar, exchanges }) hjar
      fun c hc => (hcomplete c hc).1
  rw [hsend]
  refine ⟨_, rfl, fun now hsent => ?_⟩
  have hle : x.now ≤ now := by
    refine hnow ▸ hsent _ (List.mem_set (List.getElem?_eq_some_iff.1 hr).1 _) q ?_
    simp
  refine (unexpired_unexpired hle jar).trans (hagrees now (hsent.of_set hr ?_))
  simp

/-- The second half does the writes of the response. -/
theorem Shared.Agrees.receive (h : s.Agrees jar₀ ws) {i : Nat} (hr : s.running[i]? = some r)
    (hs : r.half urls psl expCookies s.jar .receive = some r') :
    Shared.Agrees jar₀ (ws ++ s.writes psl (.half i .receive))
      (⟨r'.transfer.jar, s.running.set i r'⟩ : Shared F) := by
  obtain ⟨x, hstage, rfl⟩ := Running.half_receive hs
  obtain ⟨jar, hjar, hagrees⟩ := h
  obtain ⟨hextract, hsends, -⟩ :=
    @Transfer.receive_keeps F Ref _ urls psl r.oc r.orgUrl x { r.transfer with jar := s.jar }
  have hwrites : s.writes psl (.half i .receive) = x.writes psl r.transfer.url := by
    simp only [Shared.writes, hr, hstage]
  rw [hwrites]
  refine ⟨afterWrites jar (x.writes psl r.transfer.url), ?_, fun now hsent => ?_⟩
  · rw [← extract_eq, ← hjar]
    exact hextract
  · rw [afterWrites_append]
    refine filter_afterWrites (hagrees now (hsent.of_set hr ?_)) _
    exact fun q hq => (congrArg (q ∈ ·) hsends).mpr hq

theorem Shared.Agrees.step (h : s.Agrees jar₀ ws) (hcookies : s.Cookies psl start)
    {e : SharedEvent F} (hs : s.step urls psl build expCookies e = some s') :
    s'.Agrees jar₀ (ws ++ s.writes psl e) := by
  cases e with
  | start oc msg url xs =>
    obtain ⟨r, hr, hs⟩ := Option.bind_eq_some_iff.1 hs
    cases hs
    obtain ⟨jar, hjar, hagrees⟩ := h
    have hnone : s.writes psl (.start oc msg url xs) = [] := rfl
    rw [hnone, List.append_nil]
    exact ⟨jar, hjar, fun now hsent => hagrees now fun r hr => hsent r (List.mem_append_left _ hr)⟩
  | half i half =>
    obtain ⟨r, hr, hs⟩ := Option.bind_eq_some_iff.1 hs
    obtain ⟨r', hhalf, hs⟩ := Option.bind_eq_some_iff.1 hs
    cases hs
    cases half with
    | send =>
      have hnone : s.writes psl (.half i .send) = [] := rfl
      rw [hnone, List.append_nil]
      exact h.send hcookies hr hhalf
    | receive => exact h.receive hr hhalf

/-- However transfers that share a jar take turns: when one sends a request and the clock is not
behind that of an earlier request, its Cookie field has the cookies that are left of all the cookies
that responses have set, in the order in which these came in, and of those of the files: for each
name, domain and path the last one, if it was not expired then. -/
theorem parallel_store (urls : Urls Ref) (psl : Psl) (build : Build) (expCookies : List Char)
    (cookiesession : Bool) (files : List (List Char)) (jar₀ : List Cookie)
    (hload : loadCookies cookiesession files = some jar₀) (es : List (SharedEvent F))
    (h : Machine.run (Shared.step urls psl build expCookies) ⟨some jar₀, []⟩ es = some s) (i : Nat)
    (hs : s.step urls psl build expCookies (.half i .send) = some s')
    (hr' : s'.running[i]? = some r') (q : Sent F)
    (hq : (sends r'.transfer.log).getLast? = some q) (hsent : s.SentBy q.now) :
    findAll q.request.fields Field.cookie =
      cookieValues ((emitted q.url q.now (afterWrites jar₀
          (Shared.writesAlong urls psl build expCookies ⟨some jar₀, []⟩ es))).flatMap cookiePair ++
        if r'.orgUrl.encodedOrigin = q.url.encodedOrigin ∨ r'.oc.unrestrictedAuth = true
        then expCookies else []) := by
  have hkept := Shared.cookies_run hload h
  have hagrees :
      s.Agrees jar₀ (Shared.writesAlong urls psl build expCookies ⟨some jar₀, []⟩ es) := by
    refine Machine.run_history
      (P := fun es s => s.Agrees jar₀
        (Shared.writesAlong urls psl build expCookies ⟨some jar₀, []⟩ es)) ?_ ?_ h
    · intro es s₁ e s₂ hrun hP hs
      rw [Shared.writesAlong_append hrun]
      exact hP.step (Shared.cookies_run hload hrun) hs
    · refine ⟨jar₀, rfl, fun now _ => ?_⟩
      simp [Shared.writesAlong, afterWrites, LastWriter.survivors]
  obtain ⟨r, r₁, q₁, jar, -, hr₁, hlog, hjar, hfield⟩ := hkept.sends hs
  cases hr'.symm.trans hr₁
  rw [hlog, sends_append, sends_send, List.getLast?_concat] at hq
  cases hq
  obtain ⟨jar', hjar', hsame⟩ := hagrees
  cases hjar.symm.trans hjar'
  rw [hfield, ← emitted_unexpired q.url q.now jar, hsame q.now hsent, emitted_unexpired]

end

/-- The second transfer sends the cookie that the first one has got. -/
theorem twoTransfers_store :
    ∃ s s' r' q, Machine.run (Shared.step twoSites none ⟨true, true⟩ "id=1".toList) ⟨some [], []⟩
        twoTransfers.dropLast = some s ∧
      s.step twoSites none ⟨true, true⟩ "id=1".toList (.half 1 .send) = some s' ∧
      s'.running[1]? = some r' ∧ (sends r'.transfer.log).getLast? = some q ∧
      findAll q.request.fields Field.cookie =
        cookieValues ((emitted q.url q.now (afterWrites [] (Shared.writesAlong twoSites none
            ⟨true, true⟩ "id=1".toList ⟨some [], []⟩ twoTransfers.dropLast))).flatMap cookiePair ++
          if r'.orgUrl.encodedOrigin = q.url.encodedOrigin ∨ r'.oc.unrestrictedAuth = true
          then "id=1".toList else []) := by
  have hrun : ((Machine.run (Shared.step twoSites none ⟨true, true⟩ "id=1".toList) ⟨some [], []⟩
      twoTransfers.dropLast).bind fun s =>
        (s.step twoSites none ⟨true, true⟩ "id=1".toList (.half 1 .send)).bind fun s' =>
          s'.running[1]?.bind fun r' => (sends r'.transfer.log).getLast?.bind fun q =>
            if s.running.all fun r => (sends r.transfer.log).all fun q₁ => decide (q₁.now ≤ q.now)
            then some () else none).isSome = true := by
    decide +kernel
  obtain ⟨u, hu⟩ := Option.isSome_iff_exists.1 hrun
  obtain ⟨s, hs, hu⟩ := Option.bind_eq_some_iff.1 hu
  obtain ⟨s', hs', hu⟩ := Option.bind_eq_some_iff.1 hu
  obtain ⟨r', hr', hu⟩ := Option.bind_eq_some_iff.1 hu
  obtain ⟨q, hq, hu⟩ := Option.bind_eq_some_iff.1 hu
  have hsent : s.SentBy q.now := by
    intro r hr q₁ hq₁
    split at hu
    · next hall =>
      exact of_decide_eq_true (List.all_eq_true.1 (List.all_eq_true.1 hall r hr) q₁ hq₁)
    · cases hu
  exact ⟨s, s', r', q, hs, hs', hr', hq, parallel_store twoSites none ⟨true, true⟩ "id=1".toList
    false [] [] rfl twoTransfers.dropLast hs 1 hs' hr' q hq hsent⟩

end Beast2.Burl
