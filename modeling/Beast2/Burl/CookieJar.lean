import Mathlib.Data.List.Induction
import Beast2.Burl.CookieDomain
import Beast2.Burl.Netscape

/-!
# Runs of a cookie jar

A jar changes by `add`, `make_field`, `clear_session_cookies` and `operator>>` only (`JarOp`), and a
run is any sequence of them from the empty jar. Two things that hold along every run are here: no
call throws for a cookie without a domain or a path (`exists_runJar`), and where the only cookies
are those of servers, each cookie of the jar was set by one of the calls of `add` (`mem_runJar`).

From that follow the guarantees of Secure cookies and of the name prefixes `__Secure-` and
`__Host-`. They are shared between three functions: `parse_cookie` checks the prefixes after all
attributes are applied (`parseCookie_ok`), `add` refuses a Secure cookie from an insecure URL and
fills in the host, and `make_field` matches the host and the scheme (`emitted_guarantees`).
-/

namespace Beast2.Burl

open Grammar

/-! ## What `parse_cookie` returns -/

/-- A cookie while its attributes are applied: the texts are tokens, and `tailmatch` is not set. -/
structure Tokens (c : Cookie) : Prop where
  name : c.name ≠ [] ∧ ∀ x ∈ c.name, nameChars x = true
  value : ∀ v, c.value = some v → v ≠ [] ∧ ∀ x ∈ v, valueChars x = true
  domain : ∀ d, c.domain = some d → d ≠ []
  path : ∀ p, c.path = some p → p ≠ []
  tailmatch : c.tailmatch = false

/-- Everything that an attribute can do to a cookie's name, value, domain and path. -/
theorem applyAttr_cases {clock : Clock} {rs rs' : Cookie} {attr : List Char × Option (List Char)}
    (h : applyAttr clock rs attr = .ok rs') :
    rs'.name = rs.name ∧ rs'.value = rs.value ∧ rs'.tailmatch = rs.tailmatch ∧
      (rs'.domain = rs.domain ∨ rs'.domain = attr.2) ∧
      (rs'.path = rs.path ∨ rs'.path = attr.2) := by
  obtain ⟨name, value⟩ := attr
  simp only [applyAttr] at h
  repeat' split at h
  all_goals try cases h
  all_goals try exact ⟨rfl, rfl, rfl, .inl rfl, .inl rfl⟩
  · obtain ⟨n, -, hn⟩ := bind_ok.1 h
    cases hn
    exact ⟨rfl, rfl, rfl, .inl rfl, .inl rfl⟩
  · exact ⟨rfl, rfl, rfl, .inr rfl, .inl rfl⟩
  · exact ⟨rfl, rfl, rfl, .inl rfl, .inr rfl⟩

theorem Tokens.applyAttr {clock : Clock} {rs rs' : Cookie} {attr : List Char × Option (List Char)}
    (hrs : Tokens rs) (hattr : ∀ v, attr.2 = some v → v ≠ [])
    (h : applyAttr clock rs attr = .ok rs') : Tokens rs' := by
  obtain ⟨hname, hvalue, htail, hdomain, hpath⟩ := applyAttr_cases h
  refine ⟨hname ▸ hrs.name, hvalue ▸ hrs.value, ?_, ?_, htail ▸ hrs.tailmatch⟩
  · rcases hdomain with hd | hd
    · exact hd ▸ hrs.domain
    · exact hd ▸ hattr
  · rcases hpath with hp | hp
    · exact hp ▸ hrs.path
    · exact hp ▸ hattr

theorem Tokens.foldlM {clock : Clock} {attrs : List (List Char × Option (List Char))}
    (hattrs : ∀ attr ∈ attrs, ∀ v, attr.2 = some v → v ≠ []) {rs rs' : Cookie} (hrs : Tokens rs)
    (h : attrs.foldlM (Burl.applyAttr clock) rs = .ok rs') : Tokens rs' := by
  induction attrs generalizing rs with
  | nil =>
    cases h
    exact hrs
  | cons attr attrs ih =>
    rw [List.foldlM_cons] at h
    obtain ⟨rs₁, h₁, h₂⟩ := bind_ok.1 h
    have hrs₁ := hrs.applyAttr (hattrs attr List.mem_cons_self) h₁
    exact ih (fun a ha => hattrs a (List.mem_cons_of_mem _ ha)) hrs₁ h₂

/-- An optional token has characters of its set, if it is there. -/
theorem optionalRule_tokenRule_ok {cs : Char → Bool} {it rest : List Char} {o : Option (List Char)}
    (h : optionalRule (tokenRule cs) it = .ok (o, rest)) :
    ∀ v, o = some v → v ≠ [] ∧ ∀ x ∈ v, cs x = true := by
  rintro v rfl
  rcases optionalRule_ok h with ⟨hnone, -⟩ | ⟨a, ha, htoken⟩
  · cases hnone
  · cases ha
    exact (tokenRule_ok htoken).2

/-- The name of an attribute and its value, if it is there, are tokens. -/
theorem attrRule_ok {it rest : List Char} {attr : List Char × Option (List Char)}
    (h : attrRule it = .ok (attr, rest)) :
    (attr.1 ≠ [] ∧ ∀ x ∈ attr.1, (attrChars x && x != '=') = true) ∧
      ∀ v, attr.2 = some v → v ≠ [] ∧ ∀ x ∈ v, attrChars x = true := by
  simp only [attrRule, bind_ok] at h
  obtain ⟨_, _, _, _, ⟨name, i⟩, hname, _, _, ⟨value, it'⟩, hvalue, hattr⟩ := h
  cases hattr
  exact ⟨(tokenRule_ok hname).2, optionalRule_tokenRule_ok hvalue⟩

/-- The parts of a `Set-Cookie` value are tokens. -/
theorem cookieParser_ok {sv name : List Char} {value : Option (List Char)}
    {attrs : List (List Char × Option (List Char))}
    (h : cookieParser.parseAll sv = .ok (name, value, attrs)) :
    (name ≠ [] ∧ ∀ x ∈ name, nameChars x = true) ∧
      (∀ v, value = some v → v ≠ [] ∧ ∀ x ∈ v, valueChars x = true) ∧
      ∀ attr ∈ attrs, (attr.1 ≠ [] ∧ ∀ x ∈ attr.1, (attrChars x && x != '=') = true) ∧
        ∀ v, attr.2 = some v → v ≠ [] ∧ ∀ x ∈ v, attrChars x = true := by
  have hparse := parseAll_ok h
  simp only [cookieParser, bind_ok] at hparse
  obtain ⟨⟨n, i₁⟩, hname, ⟨_, i₂⟩, -, ⟨v, i₃⟩, hvalue, ⟨as, i₄⟩, hattrs, hall⟩ := hparse
  cases hall
  refine ⟨(tokenRule_ok hname).2, optionalRule_tokenRule_ok hvalue, ?_⟩
  intro attr hattr
  simp only [rangeRule, Except.ok.injEq] at hattrs
  have hmem : attr ∈ (rangeLoop attrRule i₃.length i₃).1 := by
    rw [hattrs]
    exact hattr
  obtain ⟨it, rest, hit⟩ := mem_rangeLoop hmem
  exact attrRule_ok hit

/-- The cookies that `parse_cookie` returns have tokens and keep to the name prefixes. -/
theorem parseCookie_ok {clock : Clock} {sv : List Char} {c : Cookie}
    (h : parseCookie clock sv = .ok c) : Tokens c ∧ prefixesOk c = true := by
  rw [parseCookie] at h
  split at h
  · cases h
  · next name value attrs hparse =>
    obtain ⟨rs, hfold, hok⟩ := bind_ok.1 h
    split at hok
    · next hprefixes =>
      cases hok
      obtain ⟨hname, hvalue, hattrs⟩ := cookieParser_ok hparse
      have hstart : Tokens { name, value } := ⟨hname, hvalue, by simp, by simp, rfl⟩
      refine ⟨hstart.foldlM ?_ hfold, hprefixes⟩
      exact fun attr hattr v hv => ((hattrs attr hattr).2 v hv).1
    · cases hok

/-! ## Runs -/

/-- A call that changes a jar, with the clock's reading where it looks at the clock. -/
inductive JarOp where
  | add (url : Url) (c : Cookie) (now : Int)
  | makeField (url : Url) (now : Int)
  | clearSessionCookies
  | read (text : List Char)

/-- The jar after a call, `none` if `make_field` throws. A reader that throws leaves the cookies it
has read. -/
def JarOp.apply (psl : Psl) (jar : List Cookie) : JarOp → Option (List Cookie)
  | .add url c now => some (Burl.add psl now jar url c)
  | .makeField url now => (Burl.makeField now jar url).map Prod.snd
  | .clearSessionCookies => some (Burl.clearSessionCookies jar)
  | .read text => some (readJar jar text).1

/-- The jar after a sequence of calls on the empty one. -/
def runJar (psl : Psl) (ops : List JarOp) : Option (List Cookie) :=
  ops.foldlM (JarOp.apply psl) []

theorem runJar_append (psl : Psl) (ops : List JarOp) (op : JarOp) :
    runJar psl (ops ++ [op]) = (runJar psl ops).bind (op.apply psl ·) := by
  simp [runJar, List.foldlM_append]

/-- What the empty jar has and every call of a run keeps, the jar after the run has. -/
theorem runJar_induction {psl : Psl} {P : List Cookie → Prop} {ops : List JarOp} {jar : List Cookie}
    (hnil : P []) (hstep : ∀ op ∈ ops, ∀ jar jar', P jar → op.apply psl jar = some jar' → P jar')
    (h : runJar psl ops = some jar) : P jar := by
  induction ops using List.reverseRecOn generalizing jar with
  | nil =>
    cases h
    exact hnil
  | append_singleton ops op ih =>
    rw [runJar_append] at h
    obtain ⟨jar₁, h₁, h₂⟩ := Option.bind_eq_some_iff.1 h
    have hjar₁ := ih (fun o ho => hstep o (List.mem_append_left _ ho)) h₁
    exact hstep op (List.mem_append_right _ List.mem_cons_self) jar₁ jar hjar₁ h₂

/-! ## No call throws for a missing domain or path -/

theorem complete_of_toStore {psl : Psl} {url : Url} {c₀ c : Cookie}
    (h : toStore psl url c₀ = some c) : Complete c := by
  obtain ⟨-, -, rfl⟩ := toStore_eq_some_iff.1 h
  exact ⟨rfl, rfl⟩

/-- A cookie of a jar after `operator>>` was in it before or is on a line of the file. -/
theorem mem_readLoop {ls : List (List Char)} {jar : List Cookie} {c : Cookie}
    (h : c ∈ (readLoop ls jar).1) :
    c ∈ jar ∨ ∃ l ∈ ls, skipped l = false ∧ parseNetscapeCookie l = .ok c := by
  induction ls generalizing jar with
  | nil => exact .inl h
  | cons l ls ih =>
    rw [readLoop] at h
    split at h
    · rcases ih h with hjar | ⟨k, hk, hc⟩
      · exact .inl hjar
      · exact .inr ⟨k, List.mem_cons_of_mem _ hk, hc⟩
    · next hskip =>
      split at h
      · exact .inl h
      · next c' hparse =>
        rcases ih h with hjar | ⟨k, hk, hc⟩
        · rcases List.mem_append.1 hjar with hjar | hjar
          · exact .inl hjar
          · cases List.mem_singleton.1 hjar
            exact .inr ⟨l, List.mem_cons_self, Bool.eq_false_iff.2 hskip, hparse⟩
        · exact .inr ⟨k, List.mem_cons_of_mem _ hk, hc⟩

theorem complete_of_parseNetscapeCookie {l : List Char} {c : Cookie}
    (h : parseNetscapeCookie l = .ok c) : Complete c := by
  obtain ⟨f, -, hc⟩ := bind_ok.1 h
  cases hc
  exact ⟨rfl, rfl⟩

/-- Every call keeps a jar of cookies with a domain and a path, and none throws on it. -/
theorem JarOp.exists_apply (psl : Psl) (op : JarOp) {jar : List Cookie}
    (hjar : ∀ c ∈ jar, Complete c) :
    ∃ jar', op.apply psl jar = some jar' ∧ ∀ c ∈ jar', Complete c := by
  cases op with
  | add url c₀ now =>
    refine ⟨_, rfl, fun c hc => ?_⟩
    rcases mem_add hc with hc | ⟨hstore, -⟩
    · exact hjar c hc
    · exact complete_of_toStore hstore
  | makeField url now =>
    refine ⟨_, by rw [apply, makeField_eq hjar]; rfl, fun c hc => ?_⟩
    exact hjar c (List.mem_of_mem_filter hc)
  | clearSessionCookies => exact ⟨_, rfl, fun c hc => hjar c (List.mem_of_mem_filter hc)⟩
  | read text =>
    refine ⟨_, rfl, fun c hc => ?_⟩
    rcases mem_readLoop hc with hc | ⟨l, -, -, hparse⟩
    · exact hjar c hc
    · exact complete_of_parseNetscapeCookie hparse

/-- No run throws in `make_field`, and every cookie it leaves has a domain and a path. -/
theorem exists_runJar (psl : Psl) (ops : List JarOp) :
    ∃ jar, runJar psl ops = some jar ∧ ∀ c ∈ jar, Complete c := by
  induction ops using List.reverseRecOn with
  | nil => exact ⟨[], rfl, fun c hc => absurd hc List.not_mem_nil⟩
  | append_singleton ops op ih =>
    obtain ⟨jar, hrun, hjar⟩ := ih
    obtain ⟨jar', happly, hjar'⟩ := op.exists_apply psl hjar
    exact ⟨jar', by rw [runJar_append, hrun]; exact happly, hjar'⟩

/-! ## The cookies of servers -/

/-- A call that puts only cookies of `Set-Cookie` fields into the jar. -/
def JarOp.FromServer : JarOp → Prop
  | .add _ c _ => ∃ clock sv, parseCookie clock sv = .ok c
  | .makeField _ _ => True
  | .clearSessionCookies => True
  | .read _ => False

/-- A call of `add` with a URL stored a cookie. -/
def SetBy (psl : Psl) (ops : List JarOp) (c : Cookie) (url : Url) : Prop :=
  ∃ c₀ now, .add url c₀ now ∈ ops ∧ toStore psl url c₀ = some c ∧ expiredAtAdd now c = false

/-- Every cookie of a jar without files was set by a call of `add`. -/
theorem mem_runJar {psl : Psl} {ops : List JarOp} {jar : List Cookie}
    (hops : ∀ op ∈ ops, op.FromServer) (h : runJar psl ops = some jar) :
    (∀ c ∈ jar, Complete c) ∧ ∀ c ∈ jar, ∃ url, SetBy psl ops c url := by
  refine runJar_induction
    (P := fun jar => (∀ c ∈ jar, Complete c) ∧ ∀ c ∈ jar, ∃ url, SetBy psl ops c url) ?_ ?_ h
  · exact ⟨fun c hc => absurd hc List.not_mem_nil, fun c hc => absurd hc List.not_mem_nil⟩
  · rintro op hop jar jar' ⟨hjar, hset⟩ happly
    obtain ⟨jar₁, happly₁, hjar₁⟩ := op.exists_apply psl hjar
    cases happly₁.symm.trans happly
    refine ⟨hjar₁, fun c hc => ?_⟩
    cases op with
    | add url c₀ now =>
      cases happly
      rcases mem_add hc with hc | ⟨hstore, hexp⟩
      · exact hset c hc
      · exact ⟨url, c₀, now, hop, hstore, hexp⟩
    | makeField url now =>
      rw [JarOp.apply, makeField_eq hjar] at happly
      cases happly
      exact hset c (List.mem_of_mem_filter hc)
    | clearSessionCookies =>
      cases happly
      exact hset c (List.mem_of_mem_filter hc)
    | read text => exact (hops _ hop).elim

/-! ## Secure cookies and prefixed names -/

/-- What holds of a cookie that `make_field` emits to the URL `u`, whichever URL set it. -/
structure Guarantees (psl : Psl) (ops : List JarOp) (u : Url) (c : Cookie) : Prop where
  set : ∃ url, SetBy psl ops c url
  secure : c.secure = true → u.schemeId = .https ∧
    ∀ url, SetBy psl ops c url → url.schemeId = .https
  secureName : "__Secure-".toList <+: c.name → c.secure = true
  hostName : "__Host-".toList <+: c.name → c.secure = true ∧ c.path = some ['/'] ∧
    ∀ url, SetBy psl ops c url → u.host = url.host

/-- A cookie that a server set under the prefix `__Host-` is for its host only. -/
theorem SetBy.hostName {psl : Psl} {ops : List JarOp} {c : Cookie} {url : Url}
    (hops : ∀ op ∈ ops, op.FromServer) (h : SetBy psl ops c url)
    (hname : "__Host-".toList <+: c.name) :
    c.secure = true ∧ c.path = some ['/'] ∧ c.domain = some url.host ∧ c.tailmatch = false := by
  obtain ⟨c₀, now, hop, hstore, -⟩ := h
  obtain ⟨clock, sv, hparse⟩ := hops _ hop
  obtain ⟨htokens, hprefixes⟩ := parseCookie_ok hparse
  obtain ⟨-, -, rfl⟩ := toStore_eq_some_iff.1 hstore
  have hname : "__Host-".toList.isPrefixOf c₀.name = true := List.isPrefixOf_iff_prefix.2 hname
  simp only [prefixesOk, hname, Bool.not_true, Bool.false_or, Bool.and_eq_true, beq_iff_eq,
    Option.isNone_iff_eq_none] at hprefixes
  obtain ⟨-, ⟨hsecure, hpath⟩, hdomain⟩ := hprefixes
  refine ⟨hsecure, ?_, ?_, ?_⟩
  · simp [stored, hpath]
  · simp [stored, hdomain]
  · simp [stored, hdomain, htokens.tailmatch]

/-- A cookie that a server set under the prefix `__Secure-` is Secure. -/
theorem SetBy.secureName {psl : Psl} {ops : List JarOp} {c : Cookie} {url : Url}
    (hops : ∀ op ∈ ops, op.FromServer) (h : SetBy psl ops c url)
    (hname : "__Secure-".toList <+: c.name) : c.secure = true := by
  obtain ⟨c₀, now, hop, hstore, -⟩ := h
  obtain ⟨clock, sv, hparse⟩ := hops _ hop
  obtain ⟨-, hprefixes⟩ := parseCookie_ok hparse
  obtain ⟨-, -, rfl⟩ := toStore_eq_some_iff.1 hstore
  have hname : "__Secure-".toList.isPrefixOf c₀.name = true := List.isPrefixOf_iff_prefix.2 hname
  simp only [prefixesOk, hname, Bool.not_true, Bool.false_or, Bool.and_eq_true] at hprefixes
  exact hprefixes.1

/-- `make_field` emits a cookie to hosts and schemes that match it. -/
theorem of_mem_emitted {u : Url} {now : Int} {jar : List Cookie} {c : Cookie}
    (h : c ∈ emitted u now jar) :
    c ∈ jar ∧ domainMatch u.host (c.domain.getD []) c.tailmatch = true ∧
      (c.secure = true → u.schemeId = .https) := by
  simp only [emitted, List.mem_filter, Bool.and_eq_true, Bool.or_eq_true] at h
  obtain ⟨hmem, ⟨⟨-, hdomain⟩, -⟩, hscheme⟩ := h
  refine ⟨hmem, hdomain, fun hsecure => ?_⟩
  simpa [hsecure] using hscheme

/-- Secure cookies and prefixed names keep their guarantees: whatever the calls before, `make_field`
does not throw, and what it emits has them. -/
theorem emitted_guarantees (psl : Psl) (ops : List JarOp) (hops : ∀ op ∈ ops, op.FromServer)
    (u : Url) (now : Int) :
    ∃ jar jar', runJar psl ops = some jar ∧
      makeField now jar u = some ((emitted u now jar).flatMap cookiePair, jar') ∧
      ∀ c ∈ emitted u now jar, Guarantees psl ops u c := by
  obtain ⟨jar, hrun, hjar⟩ := exists_runJar psl ops
  refine ⟨jar, _, hrun, makeField_eq hjar u, fun c hc => ?_⟩
  obtain ⟨hmem, hdomain, hscheme⟩ := of_mem_emitted hc
  have hset := (mem_runJar hops hrun).2 c hmem
  refine ⟨hset, ?_, ?_, ?_⟩
  · intro hsecure
    refine ⟨hscheme hsecure, ?_⟩
    rintro url ⟨c₀, now₀, -, hstore, -⟩
    obtain ⟨-, hurl, rfl⟩ := toStore_eq_some_iff.1 hstore
    exact hurl hsecure
  · intro hname
    obtain ⟨url, hurl⟩ := hset
    exact hurl.secureName hops hname
  · intro hname
    obtain ⟨url, hurl⟩ := hset
    obtain ⟨hsecure, hpath, -, -⟩ := hurl.hostName hops hname
    refine ⟨hsecure, hpath, fun url' hurl' => ?_⟩
    obtain ⟨-, -, hd, htail⟩ := hurl'.hostName hops hname
    simpa [hd, htail, domainMatch] using hdomain

/-- The cookie of `Set-Cookie: __Host-id=1; Secure; Path=/`. -/
def hostCookie : Cookie where
  name := "__Host-id".toList
  value := some "1".toList
  path := some ['/']
  secure := true

/-- `bank.com` sets a cookie for its host between two requests. -/
def hostRun : List JarOp :=
  [.makeField bank 0, .clearSessionCookies, .add bank hostCookie 0, .makeField evil 1]

theorem hostRun_fromServer : ∀ op ∈ hostRun, op.FromServer := by
  intro op hop
  simp only [hostRun, List.mem_cons, List.not_mem_nil, or_false] at hop
  rcases hop with rfl | rfl | rfl | rfl
  · trivial
  · trivial
  · exact ⟨⟨0, fun _ => 0⟩, "__Host-id=1; Secure; Path=/".toList, by decide +kernel⟩
  · trivial

theorem hostRun_guarantees :
    (runJar none hostRun).map (emitted bank 2) = some [stored bank hostCookie] ∧
    ∃ jar jar', runJar none hostRun = some jar ∧
      makeField 2 jar bank = some ((emitted bank 2 jar).flatMap cookiePair, jar') ∧
      ∀ c ∈ emitted bank 2 jar, Guarantees none hostRun bank c :=
  ⟨by decide +kernel, emitted_guarantees none hostRun hostRun_fromServer bank 2⟩

end Beast2.Burl
