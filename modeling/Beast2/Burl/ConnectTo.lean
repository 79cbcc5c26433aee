import Beast2.Lib.Grammar

/-!
# Connecting to another host

An entry of `--connect-to` is two authorities, `H1:P1:H2:P2`. `parse_args` reads them with
`urls::authority_rule` and stores the text of each as a `urls::url` (`options.cpp:1064-1085`). The
constructor of `urls::url` parses a text as a URI reference, in which `host:port` is a scheme and a
path and `host` is a path: there is no authority in either of them. `oc.connect_to` then asks the
two URLs for a host and a port that they do not have (`options.cpp:1087-1105`).

`authority_rule` is modelled for registered names, and the constructor by what RFC 3986 says of the
texts of authorities (`UrlParser`).
-/

namespace Beast2.Burl

open Grammar

/-! ## Authorities -/

/-- A character of a registered name that stands for itself: `unreserved` and `sub-delims`. -/
def regNameChar (c : Char) : Bool :=
  c.isAlphanum || "-._~!$&'()*+,;=".toList.contains c

/-- `HEXDIG`. -/
def isHexDigit (c : Char) : Bool :=
  c.isDigit || ('a' ≤ c && c ≤ 'f') || ('A' ≤ c && c ≤ 'F')

/-- A registered name. -/
inductive RegName : List Char → Prop where
  | nil : RegName []
  | char {c : Char} {t : List Char} (hc : regNameChar c = true) (ht : RegName t) : RegName (c :: t)
  | escape {a b : Char} {t : List Char} (ha : isHexDigit a = true) (hb : isHexDigit b = true)
      (ht : RegName t) : RegName ('%' :: a :: b :: t)

/-- The registered name at the front of a range, and the range after it. -/
def takeRegName : List Char → List Char × List Char
  | [] => ([], [])
  | '%' :: a :: b :: it =>
    if isHexDigit a && isHexDigit b then
      ('%' :: a :: b :: (takeRegName it).1, (takeRegName it).2)
    else ([], '%' :: a :: b :: it)
  | c :: it =>
    if regNameChar c then (c :: (takeRegName it).1, (takeRegName it).2) else ([], c :: it)

/-- An `authority_view`: `encoded_host()`, and `port()` with `has_port()`. -/
structure Authority where
  host : List Char
  port : Option (List Char)
deriving DecidableEq, Repr

/-- `buffer()`. -/
def Authority.buffer (a : Authority) : List Char :=
  a.host ++ (a.port.map (':' :: ·)).getD []

/-- `port()`. -/
def Authority.portText (a : Authority) : List Char := a.port.getD []

/-- `urls::authority_rule`. -/
def authorityRule : Rule Authority := fun it =>
  match (takeRegName it).2 with
  | ':' :: rest =>
    .ok ({ host := (takeRegName it).1, port := some (rest.takeWhile Char.isDigit) },
      rest.dropWhile Char.isDigit)
  | rest => .ok ({ host := (takeRegName it).1, port := none }, rest)

/-- The rule of an entry. Reference: `options.cpp:1066-1069`. -/
def connectToRule : Rule (Authority × Authority) := fun it => do
  let (left, it) ← authorityRule it
  let (_, it) ← optionalRule (delimRule (· == ':')) it
  let (right, it) ← authorityRule it
  .ok ((left, right), it)

/-! ## URLs -/

/-- What `connect_to` asks a URL for: `encoded_host()` and `port()`, empty where there is none. -/
structure UrlRef where
  encodedHost : List Char
  port : List Char
deriving DecidableEq, Repr

/-- `scheme` of RFC 3986. -/
def isScheme : List Char → Bool
  | [] => false
  | c :: t => c.isAlpha && t.all fun c => c.isAlphanum || c == '+' || c == '-' || c == '.'

/-- The constructor of `urls::url` from a text, which throws where the text is no URI reference. A
registered name is a relative reference that is a path; with a colon and digits after it, it is a
scheme and a path, or no reference if it is no scheme. -/
structure UrlParser where
  parse : List Char → Option UrlRef
  parse_path : ∀ t, RegName t → parse t = some ⟨[], []⟩
  parse_scheme : ∀ s p, isScheme s = true → (∀ c ∈ p, c.isDigit = true) →
    parse (s ++ ':' :: p) = some ⟨[], []⟩
  parse_noScheme : ∀ h p, RegName h → isScheme h = false → (∀ c ∈ p, c.isDigit = true) →
    parse (h ++ ':' :: p) = none

/-- What `parse_args` throws at `--connect-to`. -/
inductive ConnectToThrown where
  | runtimeError (what : String)
  | systemError
deriving DecidableEq, Repr

/-- `urls::url{ s }`. -/
def UrlParser.url (P : UrlParser) (s : List Char) : Except ConnectToThrown UrlRef :=
  match P.parse s with
  | some url => .ok url
  | none => .error .systemError

/-- One entry of `--connect-to`. Reference: `options.cpp:1076-1080`. -/
def parseConnectToEntry (P : UrlParser) (sv : List Char) :
    Except ConnectToThrown (UrlRef × UrlRef) :=
  match connectToRule.parseAll sv with
  | .error _ => .error (.runtimeError "bad --connect-to option")
  | .ok (left, right) => do
    let left ← P.url left.buffer
    let right ← P.url right.buffer
    .ok (left, right)

/-- `parse_args` of `--connect-to`: the items of the closure. Reference: `options.cpp:1064-1081`. -/
def parseConnectTo (P : UrlParser) (entries : List (List Char)) :
    Except ConnectToThrown (List (UrlRef × UrlRef)) :=
  entries.mapM (parseConnectToEntry P)

/-- The URL that is connected to: `scheme()`, `encoded_host()`, and `port()` with `has_port()`. -/
structure ConnectUrl where
  scheme : List Char
  encodedHost : List Char
  port : Option (List Char)
deriving DecidableEq, Repr

/-- `effective_port`. Reference: `options.cpp:27`. -/
def ConnectUrl.effectivePort (url : ConnectUrl) : Except ConnectToThrown (List Char) :=
  match url.port with
  | some port => .ok port
  | none =>
    if url.scheme = "https".toList then .ok "443".toList
    else if url.scheme = "http".toList then .ok "80".toList
    else if url.scheme = "socks5".toList then .ok "1080".toList
    else .error (.runtimeError "Unsupported scheme")

/-- `oc.connect_to`. Reference: `options.cpp:1083-1105`. -/
def connectTo : List (UrlRef × UrlRef) → ConnectUrl → Except ConnectToThrown ConnectUrl
  | [], url => .ok url
  | (left, right) :: items, url =>
    if url.encodedHost != left.encodedHost && !left.encodedHost.isEmpty then connectTo items url
    else do
      let port ← url.effectivePort
      if port != left.port && !left.port.isEmpty then connectTo items url
      else
        let url := if right.encodedHost.isEmpty then url
          else { url with encodedHost := right.encodedHost }
        let url := if right.port.isEmpty then url else { url with port := some right.port }
        .ok url

/-! ## What is read -/

/-- An authority as the rule reads it. -/
structure Authority.WellFormed (a : Authority) : Prop where
  host : RegName a.host
  port : ∀ p, a.port = some p → ∀ c ∈ p, c.isDigit = true

/-- The name is a registered one, and the text is the name and what is after it. -/
theorem takeRegName_spec (it : List Char) :
    RegName (takeRegName it).1 ∧ (takeRegName it).1 ++ (takeRegName it).2 = it := by
  fun_induction takeRegName it with
  | case1 => exact ⟨.nil, rfl⟩
  | case2 a b it hex ih =>
    rw [Bool.and_eq_true] at hex
    exact ⟨.escape hex.1 hex.2 ih.1, congrArg (fun t => '%' :: a :: b :: t) ih.2⟩
  | case3 => exact ⟨.nil, rfl⟩
  | case4 c it _ hc ih => exact ⟨.char hc ih.1, congrArg (c :: ·) ih.2⟩
  | case5 => exact ⟨.nil, rfl⟩

/-- An authority that is read is the text in front, a registered name and digits. -/
theorem authorityRule_ok {it rest : List Char} {a : Authority}
    (h : authorityRule it = .ok (a, rest)) : a.WellFormed ∧ a.buffer ++ rest = it := by
  obtain ⟨hname, happend⟩ := takeRegName_spec it
  unfold authorityRule at h
  split at h
  · next t ht =>
    cases h
    refine ⟨⟨hname, fun p hp c hc => ?_⟩, ?_⟩
    · cases hp
      exact List.mem_takeWhile_imp hc
    · simp only [Authority.buffer, Option.map_some, Option.getD_some, List.append_assoc,
        List.cons_append, List.takeWhile_append_dropWhile]
      rw [← ht, happend]
  · cases h
    refine ⟨⟨hname, fun p hp => ?_⟩, ?_⟩
    · cases hp
    · simpa [Authority.buffer] using happend

/-- An entry that is read is two authorities. -/
theorem connectToRule_ok {sv : List Char} {left right : Authority}
    (h : connectToRule.parseAll sv = .ok (left, right)) : left.WellFormed ∧ right.WellFormed := by
  have hrule := parseAll_ok h
  simp only [connectToRule, bind_ok] at hrule
  obtain ⟨⟨l, _⟩, hleft, _, -, ⟨r, _⟩, hright, hpair⟩ := hrule
  cases hpair
  exact ⟨(authorityRule_ok hleft).1, (authorityRule_ok hright).1⟩

/-- A registered name in front of a colon or the end. -/
theorem takeRegName_append {name rest : List Char} (h : RegName name)
    (hrest : rest = [] ∨ ∃ t, rest = ':' :: t) : takeRegName (name ++ rest) = (name, rest) := by
  induction h with
  | nil =>
    rcases hrest with rfl | ⟨t, rfl⟩
    · rfl
    · rfl
  | @char c t hc ht ih =>
    have hne : c ≠ '%' := by
      rintro rfl
      exact absurd hc (by decide)
    rw [List.cons_append, takeRegName, if_pos hc, ih]
    intro a b it' heq
    exact absurd heq hne
  | @escape a b t ha hb ht ih =>
    rw [List.cons_append, List.cons_append, List.cons_append, takeRegName, ha, hb,
      Bool.and_self, if_pos rfl, ih]

/-- An authority in front of a text that does not go on with a port or its digits. -/
theorem authorityRule_append {a : Authority} (ha : a.WellFormed) {rest : List Char}
    (hport : a.port = none → rest = []) (hrest : StopsAt Char.isDigit rest) :
    authorityRule (a.buffer ++ rest) = .ok (a, rest) := by
  obtain ⟨host, port⟩ := a
  cases port with
  | none =>
    obtain rfl := hport rfl
    have htake := takeRegName_append ha.host (.inl rfl)
    rw [List.append_nil] at htake
    have hbuffer : Authority.buffer ⟨host, none⟩ ++ [] = host := by simp [Authority.buffer]
    simp only [hbuffer, authorityRule, htake]
  | some p =>
    have htake := takeRegName_append ha.host (.inr ⟨p ++ rest, rfl⟩)
    have hbuffer : Authority.buffer ⟨host, some p⟩ ++ rest = host ++ ':' :: (p ++ rest) := by
      simp [Authority.buffer]
    simp only [hbuffer, authorityRule, htake, takeWhile_append_of_stopsAt (ha.port p rfl) hrest,
      dropWhile_append_of_stopsAt (ha.port p rfl) hrest]

/-- A text of four parts is read as its two authorities. -/
theorem connectToRule_text {left right : Authority} (hleft : left.WellFormed)
    (hright : right.WellFormed) (hport : left.port ≠ none) :
    connectToRule.parseAll (left.buffer ++ ':' :: right.buffer) = .ok (left, right) := by
  have hcolon : StopsAt Char.isDigit (':' :: right.buffer) := by
    intro c hc
    cases hc
    rfl
  have hfirst := authorityRule_append hleft (fun h => absurd h hport) hcolon
  have hsecond := @authorityRule_append right hright [] (fun _ => rfl) (fun c hc => by cases hc)
  rw [List.append_nil] at hsecond
  have hdelim : optionalRule (delimRule (· == ':')) (':' :: right.buffer) =
      .ok (some ':', right.buffer) := rfl
  have hrule : connectToRule (left.buffer ++ ':' :: right.buffer) = .ok ((left, right), []) := by
    simp only [connectToRule, bind, Except.bind, hfirst, hdelim, hsecond]
  rw [Rule.parseAll, hrule]

/-! ## What is stored -/

/-- An authority that the constructor of `urls::url` does not throw at: it has no port, or its host
could be a scheme. -/
def Authority.Storable (a : Authority) : Prop := a.port = none ∨ isScheme a.host = true

/-- The text of an authority is stored as a URL without host and port, or not at all. -/
theorem UrlParser.url_buffer (P : UrlParser) {a : Authority} (ha : a.WellFormed) (url : UrlRef) :
    P.url a.buffer = .ok url ↔ a.Storable ∧ url = ⟨[], []⟩ := by
  obtain ⟨host, port⟩ := a
  cases port with
  | none =>
    have hparse : P.parse (Authority.buffer ⟨host, none⟩) = some ⟨[], []⟩ := by
      rw [Authority.buffer, Option.map_none, Option.getD_none, List.append_nil]
      exact P.parse_path host ha.host
    rw [UrlParser.url, hparse]
    exact ⟨fun h => ⟨.inl rfl, (Except.ok.inj h).symm⟩, fun h => congrArg _ h.2.symm⟩
  | some p =>
    have hdigits := ha.port p rfl
    cases hscheme : isScheme host with
    | true =>
      have hparse : P.parse (Authority.buffer ⟨host, some p⟩) = some ⟨[], []⟩ :=
        P.parse_scheme host p hscheme hdigits
      rw [UrlParser.url, hparse]
      exact ⟨fun h => ⟨.inr hscheme, (Except.ok.inj h).symm⟩, fun h => congrArg _ h.2.symm⟩
    | false =>
      have hparse : P.parse (Authority.buffer ⟨host, some p⟩) = none :=
        P.parse_noScheme host p ha.host hscheme hdigits
      simp [UrlParser.url, hparse, Authority.Storable, hscheme]

/-- An entry is accepted exactly if both its authorities can be stored; its URLs are then empty. -/
theorem parseConnectToEntry_ok_iff (P : UrlParser) {sv : List Char} {item : UrlRef × UrlRef} :
    parseConnectToEntry P sv = .ok item ↔
      ∃ left right, connectToRule.parseAll sv = .ok (left, right) ∧ left.Storable ∧
        right.Storable ∧ item = (⟨[], []⟩, ⟨[], []⟩) := by
  unfold parseConnectToEntry
  cases h : connectToRule.parseAll sv with
  | error e => simp
  | ok pair =>
    obtain ⟨left, right⟩ := pair
    obtain ⟨hleft, hright⟩ := connectToRule_ok h
    simp only [bind_ok, P.url_buffer hleft, P.url_buffer hright, Except.ok.injEq, Prod.mk.injEq]
    constructor
    · rintro ⟨l, ⟨hl, rfl⟩, r, ⟨hr, rfl⟩, hitem⟩
      exact ⟨left, right, ⟨rfl, rfl⟩, hl, hr, hitem.symm⟩
    · rintro ⟨_, _, ⟨rfl, rfl⟩, hl, hr, hitem⟩
      exact ⟨_, ⟨hl, rfl⟩, _, ⟨hr, rfl⟩, hitem.symm⟩

/-! ## What redirecting is for -/

/-- An entry is for a URL: its first host and port are empty or those of the URL. -/
def EntryMatches (url : ConnectUrl) (entry : Authority × Authority) : Prop :=
  (entry.1.host = [] ∨ entry.1.host = url.encodedHost) ∧
    (entry.1.portText = [] ∨ url.effectivePort = .ok entry.1.portText)

instance (url : ConnectUrl) (entry : Authority × Authority) : Decidable (EntryMatches url entry) :=
  inferInstanceAs (Decidable (_ ∧ _))

/-- What `--connect-to` is documented to do: the first entry that is for a URL replaces its host and
its port by those of the entry that are not empty. -/
def redirect (entries : List (Authority × Authority)) (url : ConnectUrl) : ConnectUrl :=
  match entries.find? (EntryMatches url ·) with
  | none => url
  | some (_, right) =>
    { url with
      encodedHost := if right.host = [] then url.encodedHost else right.host
      port := if right.portText = [] then url.port else some right.portText }

/-- The entries as they are written. -/
def readConnectTo (entries : List (List Char)) : Except Error (List (Authority × Authority)) :=
  entries.mapM connectToRule.parseAll

section

variable {P : UrlParser} {texts : List (List Char)} {entries : List (Authority × Authority)}
  {items : List (UrlRef × UrlRef)} {url : ConnectUrl}

/-- All that is stored is empty. -/
theorem parseConnectTo_empty (hitems : parseConnectTo P texts = .ok items) :
    ∀ item ∈ items, item = (⟨[], []⟩, ⟨[], []⟩) := by
  intro item hitem
  obtain ⟨sv, -, hsv⟩ := exists_of_forall₂ (List.Forall₂.flip (mapM_ok.1 hitems)) hitem
  obtain ⟨left, right, -, -, -, hempty⟩ := (parseConnectToEntry_ok_iff P).1 hsv
  exact hempty

/-- Entries are accepted exactly if they are read and all their authorities can be stored. -/
theorem parseConnectTo_ok_iff :
    (∃ items, parseConnectTo P texts = .ok items) ↔
      ∃ entries, readConnectTo texts = .ok entries ∧
        ∀ entry ∈ entries, entry.1.Storable ∧ entry.2.Storable := by
  constructor
  · rintro ⟨items, hitems⟩
    have hread : ∀ sv ∈ texts, ∃ entry : Authority × Authority,
        connectToRule.parseAll sv = .ok entry ∧ entry.1.Storable ∧ entry.2.Storable := by
      intro sv hsv
      obtain ⟨item, -, hitem⟩ := exists_of_forall₂ (mapM_ok.1 hitems) hsv
      obtain ⟨left, right, hparse, hl, hr, -⟩ := (parseConnectToEntry_ok_iff P).1 hitem
      exact ⟨(left, right), hparse, hl, hr⟩
    obtain ⟨entries, hentries⟩ := exists_forall₂ hread
    refine ⟨entries, mapM_ok.2 (hentries.imp fun _ _ h => h.1), fun entry hentry => ?_⟩
    obtain ⟨sv, -, -, hstorable⟩ := exists_of_forall₂ (List.Forall₂.flip hentries) hentry
    exact hstorable
  · rintro ⟨entries, hentries, hstorable⟩
    have hitem : ∀ sv ∈ texts, ∃ item, parseConnectToEntry P sv = .ok item := by
      intro sv hsv
      obtain ⟨⟨left, right⟩, hentry, hparse⟩ := exists_of_forall₂ (mapM_ok.1 hentries) hsv
      obtain ⟨hl, hr⟩ := hstorable _ hentry
      exact ⟨_, (parseConnectToEntry_ok_iff P).2 ⟨left, right, hparse, hl, hr, rfl⟩⟩
    obtain ⟨items, hitems⟩ := exists_forall₂ hitem
    exact ⟨items, mapM_ok.2 hitems⟩

/-- `effective_port` knows the ports of `http` and `https`. -/
theorem exists_effectivePort (hscheme : url.scheme = "http".toList ∨ url.scheme = "https".toList) :
    ∃ port, url.effectivePort = .ok port := by
  unfold ConnectUrl.effectivePort
  cases url.port with
  | some port => exact ⟨port, rfl⟩
  | none =>
    rcases hscheme with h | h
    · rw [h]
      exact ⟨_, rfl⟩
    · rw [h]
      exact ⟨_, rfl⟩

/-- Empty URLs match at once and change nothing. -/
theorem connectTo_empty (hscheme : url.scheme = "http".toList ∨ url.scheme = "https".toList)
    (hitems : ∀ item ∈ items, item = (⟨[], []⟩, ⟨[], []⟩)) : connectTo items url = .ok url := by
  cases items with
  | nil => rfl
  | cons item items =>
    obtain rfl := hitems item List.mem_cons_self
    obtain ⟨port, hport⟩ := exists_effectivePort hscheme
    simp [connectTo, hport, bind, Except.bind]

/-- The documented effect is none exactly if no entry is for the URL or the first one that is names
no other host and port. -/
theorem redirect_eq_iff :
    url = redirect entries url ↔
      ∀ entry, entries.find? (EntryMatches url ·) = some entry →
        (entry.2.host = [] ∨ entry.2.host = url.encodedHost) ∧
          (entry.2.portText = [] ∨ url.port = some entry.2.portText) := by
  unfold redirect
  cases hfind : entries.find? (EntryMatches url ·) with
  | none => simp
  | some entry =>
    obtain ⟨left, right⟩ := entry
    obtain ⟨scheme, host, port⟩ := url
    have hhost : (host = if right.host = [] then host else right.host) ↔
        right.host = [] ∨ right.host = host := by
      split
      · next h => simp [h]
      · next h => simp [h, eq_comm]
    have hport : (port = if right.portText = [] then port else some right.portText) ↔
        right.portText = [] ∨ port = some right.portText := by
      split
      · next h => simp [h]
      · next h => simp [h]
    simp only [ConnectUrl.mk.injEq, true_and, Option.some.injEq, forall_eq', hhost, hport]

/-- Accepted entries redirect a connection as documented exactly if that leaves the URL as it is: no
entry is for the URL, or the first one that is names no other host and port. -/
theorem connectTo_eq_redirect_iff (P : UrlParser) (texts : List (List Char))
    (items : List (UrlRef × UrlRef)) (hitems : parseConnectTo P texts = .ok items)
    (url : ConnectUrl) (hscheme : url.scheme = "http".toList ∨ url.scheme = "https".toList) :
    ∃ entries, readConnectTo texts = .ok entries ∧
      (connectTo items url = .ok (redirect entries url) ↔
        ∀ entry, entries.find? (EntryMatches url ·) = some entry →
          (entry.2.host = [] ∨ entry.2.host = url.encodedHost) ∧
            (entry.2.portText = [] ∨ url.port = some entry.2.portText)) := by
  obtain ⟨entries, hentries, -⟩ := parseConnectTo_ok_iff.1 ⟨items, hitems⟩
  refine ⟨entries, hentries, ?_⟩
  rw [connectTo_empty hscheme (parseConnectTo_empty hitems), Except.ok.injEq]
  exact redirect_eq_iff

end

/-! ## Texts of authorities -/

theorem RegName.ne_colon {t : List Char} (h : RegName t) : ∀ c ∈ t, (c != ':') = true := by
  have hreg : ∀ {c : Char} {cs : Char → Bool}, cs c = true → cs ':' = false →
      (c != ':') = true := by
    intro c cs hc hcolon
    rw [bne_iff_ne]
    rintro rfl
    exact Bool.false_ne_true (hcolon.symm.trans hc)
  induction h with
  | nil => simp
  | char hc _ ih => exact List.forall_mem_cons.2 ⟨hreg hc rfl, ih⟩
  | escape ha hb _ ih =>
    exact List.forall_mem_cons.2 ⟨rfl, List.forall_mem_cons.2
      ⟨hreg ha rfl, List.forall_mem_cons.2 ⟨hreg hb rfl, ih⟩⟩⟩

theorem ne_colon_of_isScheme {s : List Char} (h : isScheme s = true) :
    ∀ c ∈ s, (c != ':') = true := by
  cases s with
  | nil => cases h
  | cons d t =>
    rw [isScheme, Bool.and_eq_true, List.all_eq_true] at h
    intro c hc
    rw [bne_iff_ne]
    rintro rfl
    rcases List.mem_cons.1 hc with rfl | hmem
    · exact absurd h.1 (by decide)
    · exact absurd (h.2 ':' hmem) (by decide)

theorem takeWhile_ne_colon {t : List Char} (h : ∀ c ∈ t, (c != ':') = true) (p : List Char) :
    (t ++ ':' :: p).takeWhile (· != ':') = t := by
  refine takeWhile_append_of_stopsAt h fun c hc => ?_
  cases hc
  rfl

/-- A parser of the texts of authorities: what is in front of the first colon is a scheme. -/
def colonParser : UrlParser where
  parse t :=
    if ':' ∈ t then
      if isScheme (t.takeWhile (· != ':')) then some ⟨[], []⟩ else none
    else some ⟨[], []⟩
  parse_path t ht := if_neg fun hmem => absurd (ht.ne_colon ':' hmem) (by decide)
  parse_scheme s p hs _ := by
    rw [takeWhile_ne_colon (ne_colon_of_isScheme hs), hs]
    simp
  parse_noScheme h p hh hs _ := by
    rw [takeWhile_ne_colon hh.ne_colon, hs]
    simp

/-- The entry `a.org:80:b.org:81` leaves a URL of another host alone. -/
theorem otherHost_connectTo :
    ∃ entries, readConnectTo ["a.org:80:b.org:81".toList] = .ok entries ∧
      connectTo [(⟨[], []⟩, ⟨[], []⟩)] ⟨"http".toList, "c.org".toList, none⟩ =
        .ok (redirect entries ⟨"http".toList, "c.org".toList, none⟩) := by
  obtain ⟨entries, hentries, hiff⟩ := connectTo_eq_redirect_iff colonParser
    ["a.org:80:b.org:81".toList] [(⟨[], []⟩, ⟨[], []⟩)] rfl
    ⟨"http".toList, "c.org".toList, none⟩ (.inl rfl)
  refine ⟨entries, hentries, hiff.2 fun entry hentry => ?_⟩
  cases hentries
  cases hentry

/-- It should lead `http://a.org/` to `b.org:81`, and it leaves it alone too. -/
theorem sameHost_not_connectTo :
    ∃ items entries, parseConnectTo colonParser ["a.org:80:b.org:81".toList] = .ok items ∧
      readConnectTo ["a.org:80:b.org:81".toList] = .ok entries ∧
      redirect entries ⟨"http".toList, "a.org".toList, none⟩ =
        ⟨"http".toList, "b.org".toList, some "81".toList⟩ ∧
      connectTo items ⟨"http".toList, "a.org".toList, none⟩ ≠
        .ok (redirect entries ⟨"http".toList, "a.org".toList, none⟩) := by
  refine ⟨_, _, rfl, rfl, rfl, ?_⟩
  intro h
  cases h

end Beast2.Burl
