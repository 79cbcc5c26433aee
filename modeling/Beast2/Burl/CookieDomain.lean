import Beast2.Burl.Cookie

/-!
# Who may set a cookie for a domain

A cookie with a Domain attribute is for the hosts of that domain, so only a host of that domain
should be able to set it. `NoInjection` says so of the calls of `cookie_jar::add` on one jar, with
calls of `make_field` anywhere between them: whatever a later `make_field` emits was added from a
host that domain-matches the cookie's domain, and a Domain attribute that is not acceptable for the
responding host has the cookie dropped.

`add` does neither. A build without libpsl has no check, and with libpsl the check is the wrong way
round: `add` returns if the domain is acceptable and stores the cookie if it is not. The calls keep
`NoInjection` exactly if every Domain attribute among them is acceptable, or the cookie is turned
away for another reason (`noInjection_iff`).
-/

namespace Beast2.Burl

/-! ## Domains -/

/-- A domain without its leading dot. -/
def undotted (d : List Char) : List Char := if ['.'].isPrefixOf d then d.drop 1 else d

/-- A host domain-matches a domain: it is the domain without its leading dot, or ends with a dot and
that. -/
def DomainMatches (h d : List Char) : Prop := h = undotted d ∨ '.' :: undotted d <:+ h

instance (h d : List Char) : Decidable (DomainMatches h d) :=
  inferInstanceAs (Decidable (_ ∨ _))

/-- Every host domain-matches itself. -/
theorem DomainMatches.self (h : List Char) : DomainMatches h h := by
  cases h with
  | nil => exact .inl rfl
  | cons c h =>
    by_cases hc : c = '.'
    · subst hc
      exact .inr (List.suffix_refl _)
    · left
      simp [undotted, Ne.symm hc]

/-- A Domain attribute is acceptable for the host that sends it: libpsl says so, in a build without
it the host domain-matches the domain. -/
def Acceptable (psl : Psl) (host d : List Char) : Prop :=
  match psl with
  | none => DomainMatches host d
  | some acceptable => acceptable (cStr (host.map Char.toLower)) (cStr (d.map Char.toLower)) = true

/-! ## What a call of `add` stores -/

/-- The cookie with its domain and path filled in. -/
def stored (url : Url) (c : Cookie) : Cookie :=
  { c with
    domain := some (c.domain.getD url.host)
    path := some (c.path.getD (defaultPath url))
    tailmatch := c.domain.isSome || c.tailmatch }

/-- `add` goes on with a cookie exactly if libpsl does not find its Domain attribute acceptable and
it is not a Secure one from an insecure URL. -/
theorem toStore_eq_some_iff {psl : Psl} {url : Url} {c c' : Cookie} :
    toStore psl url c = some c' ↔ (∀ d, c.domain = some d → pslRefuses psl url d = false) ∧
      (c.secure = true → url.schemeId = .https) ∧ c' = stored url c := by
  obtain ⟨name, value, expires, domain, path, sameSite, partitioned, secure, httpOnly, tail⟩ := c
  cases domain with
  | none => cases path <;> cases secure <;> simp [toStore, stored, @eq_comm _ c']
  | some d =>
    cases hr : pslRefuses psl url d with
    | false => cases path <;> cases secure <;> simp [toStore, stored, hr, @eq_comm _ c']
    | true => simp [toStore, hr]

/-- A call of `cookie_jar::add` with a cookie that `parse_cookie` returned, at a reading of the
clock. -/
structure AddCall where
  url : Url
  cookie : Cookie
  now : Int
  parsed : ∃ clock sv, parseCookie clock sv = .ok cookie

/-- The cookie of a call is turned away whatever its domain is: it is a Secure one from an insecure
URL, or it is expired. -/
def AddCall.TurnedAway (a : AddCall) : Prop :=
  a.cookie.secure = true ∧ a.url.schemeId ≠ .https ∨ expiredAtAdd a.now a.cookie = true

/-- A call puts a cookie into the jar. -/
def AddCall.Stores (psl : Psl) (a : AddCall) (c : Cookie) : Prop :=
  toStore psl a.url a.cookie = some c ∧ expiredAtAdd a.now c = false

/-- A call puts nothing into any jar. -/
def AddCall.Dropped (psl : Psl) (a : AddCall) : Prop :=
  ∀ jar, add psl a.now jar a.url a.cookie ⊆ jar

/-- What is in the jar after a call was there before it or is the cookie that the call stores. -/
theorem mem_add {psl : Psl} {now : Int} {jar : List Cookie} {url : Url} {c₀ c : Cookie}
    (h : c ∈ add psl now jar url c₀) :
    c ∈ jar ∨ toStore psl url c₀ = some c ∧ expiredAtAdd now c = false := by
  rw [add] at h
  split at h
  · exact .inl h
  · next c' hstore =>
    split at h
    · exact .inl (List.mem_of_mem_filter h)
    · next hexp =>
      rcases List.mem_append.1 h with h | h
      · exact .inl (List.mem_of_mem_filter h)
      · cases List.mem_singleton.1 h
        exact .inr ⟨hstore, Bool.eq_false_iff.2 hexp⟩

theorem AddCall.Stores.mem_add {psl : Psl} {a : AddCall} {c : Cookie} (h : a.Stores psl c)
    (jar : List Cookie) : c ∈ add psl a.now jar a.url a.cookie := by
  simp [add, h.1, h.2]

/-- A call drops its cookie exactly if it stores none. -/
theorem AddCall.dropped_iff {psl : Psl} {a : AddCall} : a.Dropped psl ↔ ∀ c, ¬ a.Stores psl c := by
  constructor
  · intro hdrop c hc
    exact List.not_mem_nil (hdrop [] (hc.mem_add []))
  · intro hnone jar c hc
    rcases mem_add hc with hc | hc
    · exact hc
    · exact absurd hc (hnone c)

/-- The cookie that a call stores. -/
theorem AddCall.stores_iff {psl : Psl} {a : AddCall} {c : Cookie} :
    a.Stores psl c ↔ (∀ d, a.cookie.domain = some d → pslRefuses psl a.url d = false) ∧
      ¬ a.TurnedAway ∧ c = stored a.url a.cookie := by
  rw [Stores, toStore_eq_some_iff, TurnedAway]
  constructor
  · rintro ⟨⟨hpsl, hsec, rfl⟩, hexp⟩
    refine ⟨hpsl, ?_, rfl⟩
    rintro (⟨hs, hu⟩ | he)
    · exact hu (hsec hs)
    · exact absurd (hexp.symm.trans he) (by decide)
  · rintro ⟨hpsl, haway, rfl⟩
    refine ⟨⟨hpsl, ?_, rfl⟩, ?_⟩
    · intro hs
      by_contra hu
      exact haway (.inl ⟨hs, hu⟩)
    · exact Bool.eq_false_iff.2 fun he => haway (.inr he)

/-! ## What `make_field` emits -/

/-- The cookies of a jar that `make_field` puts into the field for a URL. -/
def emitted (url : Url) (now : Int) (jar : List Cookie) : List Cookie :=
  jar.filter fun c => !expired now c && domainMatch url.host (c.domain.getD []) c.tailmatch &&
    pathMatch url.encodedPath (c.path.getD []) && (!c.secure || url.schemeId == .https)

/-- A cookie as `add` stores it: it has a domain and a path. -/
def Complete (c : Cookie) : Prop := c.domain.isSome ∧ c.path.isSome

theorem makeFieldLoop_eq {url : Url} {now : Int} {jar : List Cookie}
    (hjar : ∀ c ∈ jar, Complete c) (rs : List Char) :
    makeFieldLoop url now jar rs = some (rs ++ (emitted url now jar).flatMap cookiePair,
      jar.filter fun c => !expired now c) := by
  induction jar generalizing rs with
  | nil => simp [makeFieldLoop, emitted]
  | cons c jar ih =>
    have ih := ih fun o ho => hjar o (List.mem_cons_of_mem _ ho)
    obtain ⟨hd, hp⟩ := hjar c List.mem_cons_self
    obtain ⟨d, hd⟩ := Option.isSome_iff_exists.1 hd
    obtain ⟨p, hp⟩ := Option.isSome_iff_exists.1 hp
    cases hexp : expired now c with
    | true => simp [makeFieldLoop, emitted, hexp, ih]
    | false =>
      cases hdom : domainMatch url.host d c.tailmatch with
      | false => simp [makeFieldLoop, emitted, hexp, hd, hdom, ih]
      | true =>
        cases hhit : pathMatch url.encodedPath p && (!c.secure || url.schemeId == .https) with
        | false => simp_all [makeFieldLoop, emitted]
        | true => simp_all [makeFieldLoop, emitted]

/-- `make_field` concatenates the cookies it emits and leaves those that are not expired. -/
theorem makeField_eq {now : Int} {jar : List Cookie} (hjar : ∀ c ∈ jar, Complete c) (url : Url) :
    makeField now jar url =
      some ((emitted url now jar).flatMap cookiePair, jar.filter fun c => !expired now c) :=
  makeFieldLoop_eq hjar []

/-! ## Jars -/

/-- The jars after a sequence of calls of `add`, the last of them first, with calls of `make_field`
anywhere between them. -/
inductive JarAfter (psl : Psl) : List AddCall → List Cookie → Prop
  | empty : JarAfter psl [] []
  | add {calls : List AddCall} {jar : List Cookie} (a : AddCall) : JarAfter psl calls jar →
      JarAfter psl (a :: calls) (add psl a.now jar a.url a.cookie)
  | makeField {calls : List AddCall} {jar jar' : List Cookie} {rs : List Char} (url : Url)
      (now : Int) : JarAfter psl calls jar → makeField now jar url = some (rs, jar') →
      JarAfter psl calls jar'

/-- The calls have no cookie injected: what a later `make_field` emits was added from a host that
domain-matches the cookie's domain, and a call whose Domain attribute is not acceptable is
dropped. -/
structure NoInjection (psl : Psl) (calls : List AddCall) : Prop where
  emitted : ∀ jar, JarAfter psl calls jar → ∀ url now, ∀ c ∈ emitted url now jar,
    ∃ a ∈ calls, ∃ d, a.Stores psl c ∧ c.domain = some d ∧ DomainMatches a.url.host d
  dropped : ∀ a ∈ calls, ∀ d, a.cookie.domain = some d → ¬ Acceptable psl a.url.host d →
    a.Dropped psl

/-- Every cookie of a jar is one that a call stored. -/
theorem JarAfter.exists_stores {psl : Psl} {calls : List AddCall} {jar : List Cookie}
    (h : JarAfter psl calls jar) : ∀ c ∈ jar, ∃ a ∈ calls, a.Stores psl c := by
  induction h with
  | empty => exact fun c hc => absurd hc List.not_mem_nil
  | add a _ ih =>
    intro c hc
    rcases mem_add hc with hc | hc
    · obtain ⟨a', ha', hc⟩ := ih c hc
      exact ⟨a', List.mem_cons_of_mem _ ha', hc⟩
    · exact ⟨a, List.mem_cons_self, hc⟩
  | makeField url now _ hmake ih =>
    have hjar : ∀ c ∈ _, Complete c := fun c hc => by
      obtain ⟨a, -, hc⟩ := ih c hc
      rw [(AddCall.stores_iff.1 hc).2.2]
      exact ⟨rfl, rfl⟩
    rw [makeField_eq hjar] at hmake
    cases hmake
    exact fun c hc => ih c (List.mem_of_mem_filter hc)

/-- A stored cookie of an acceptable domain, or of none, was added from a host of its domain. -/
theorem AddCall.Stores.domainMatches {psl : Psl} {a : AddCall} {c : Cookie} (h : a.Stores psl c)
    (hok : ∀ d, a.cookie.domain = some d → Acceptable psl a.url.host d) :
    ∃ d, c.domain = some d ∧ DomainMatches a.url.host d := by
  obtain ⟨hpsl, -, rfl⟩ := stores_iff.1 h
  refine ⟨_, rfl, ?_⟩
  cases hd : a.cookie.domain with
  | none => exact .self _
  | some d =>
    cases psl with
    | none => exact hok d hd
    | some acceptable =>
      -- libpsl found the domain acceptable, and that is when `add` refuses the cookie
      exact absurd ((hpsl d hd).symm.trans (hok d hd)) (by decide)

/-- A sequence of calls has no cookie injected exactly if each of its Domain attributes is
acceptable for the host that sent it, or the cookie is turned away for another reason. -/
theorem noInjection_iff (psl : Psl) (calls : List AddCall) :
    NoInjection psl calls ↔ ∀ a ∈ calls, ∀ d, a.cookie.domain = some d →
      Acceptable psl a.url.host d ∨ a.TurnedAway := by
  constructor
  · intro hno a ha d hd
    by_contra hcon
    obtain ⟨hacc, haway⟩ := not_or.1 hcon
    have hnot := AddCall.dropped_iff.1 (hno.dropped a ha d hd hacc) (stored a.url a.cookie)
    apply hnot
    refine AddCall.stores_iff.2 ⟨?_, haway, rfl⟩
    intro d' hd'
    cases hd.symm.trans hd'
    cases psl with
    | none => rfl
    | some acceptable => exact Bool.eq_false_iff.2 hacc
  · intro hok
    constructor
    · intro jar hjar url now c hc
      obtain ⟨a, ha, hstores⟩ := hjar.exists_stores c (List.mem_of_mem_filter hc)
      have haway := (AddCall.stores_iff.1 hstores).2.1
      obtain ⟨d, hd, hmatch⟩ :=
        hstores.domainMatches fun d hd => (hok a ha d hd).resolve_right haway
      exact ⟨a, ha, d, hstores, hd, hmatch⟩
    · intro a ha d hd hacc
      apply AddCall.dropped_iff.2
      intro c hc
      exact (AddCall.stores_iff.1 hc).2.1 ((hok a ha d hd).resolve_left hacc)

/-! ## A cookie for another site -/

/-- The URL `https://evil.com/`. -/
def evil : Url := httpsRoot "evil.com".toList

/-- The URL `https://bank.com/`. -/
def bank : Url := httpsRoot "bank.com".toList

/-- `evil.com` answers with `Set-Cookie: id=1; Domain=bank.com`. -/
def injection : AddCall where
  url := evil
  cookie := { name := "id".toList, value := some "1".toList, domain := some "bank.com".toList }
  now := 0
  parsed := ⟨⟨0, fun _ => 0⟩, "id=1; Domain=bank.com".toList, by decide +kernel⟩

/-- libpsl on domains that are no public suffixes. -/
def hostSuffix (host d : List Char) : Bool := DomainMatches host d

/-- A jar whose only call is the injection and that emits its cookie to `bank.com` breaks
`NoInjection`. -/
theorem not_noInjection_of_emitted {psl : Psl} {jar : List Cookie}
    (hjar : JarAfter psl [injection] jar)
    (hc : stored evil injection.cookie ∈ emitted bank 0 jar) : ¬ NoInjection psl [injection] := by
  intro hno
  obtain ⟨a, ha, d, -, hd, hmatch⟩ := hno.emitted jar hjar bank 0 _ hc
  cases List.mem_singleton.1 ha
  cases hd
  exact absurd hmatch (by decide +kernel)

/-- The cookie of `evil.com` is sent to `bank.com`, in a build with libpsl and in one without. -/
theorem injection_not_noInjection :
    (∃ jar, JarAfter none [injection] jar ∧
      makeField 0 jar bank = some ("id=1; ".toList, jar)) ∧
    ¬ NoInjection none [injection] ∧
    (∃ jar, JarAfter (some hostSuffix) [injection] jar ∧
      makeField 0 jar bank = some ("id=1; ".toList, jar)) ∧
    ¬ NoInjection (some hostSuffix) [injection] := by
  refine ⟨⟨_, .add injection .empty, by decide +kernel⟩, ?_,
    ⟨_, .add injection .empty, by decide +kernel⟩, ?_⟩
  · exact not_noInjection_of_emitted (.add injection .empty) (by decide +kernel)
  · exact not_noInjection_of_emitted (.add injection .empty) (by decide +kernel)

end Beast2.Burl
