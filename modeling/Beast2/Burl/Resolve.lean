import Beast2.Burl.ConnectTo

/-!
# Resolving a host to an address

An entry of `--resolve` is `host:port:address`, where each of the brackets around the address may be
missing. `oc.resolve_to` replaces the host of a URL by the address of the first entry for its host,
or for any host, and its port (`options.cpp:1107-1155`). The rules of Boost.URL for addresses, and
how a `urls::url` stores a host, are parameters; of a host that was set the proofs use no more than
that an address is not changed and that an asterisk stays one (`Hosts.Lawful`).

An entry is read exactly if it is well formed (`resolveRule_text`, `resolveRule_ok`), and then the
closure does what `--resolve` is documented to do (`resolve_as_documented`).
-/

namespace Beast2.Burl

open Grammar

/-- `urls::ipv4_address_rule` and `urls::ipv6_address_rule`. An address is the text that
`encoded_host_address()` returns for it. -/
structure AddressRules where
  ipv4 : Rule (List Char)
  ipv6 : Rule (List Char)

/-- How a `urls::url` stores a host: `encoded_host()` after `set_host` and after
`set_encoded_host`, and the decoded text of an encoded host. -/
structure Hosts where
  setHost : List Char → List Char
  setEncodedHost : List Char → List Char
  decode : List Char → List Char

/-- `url.host()`, which is also `url.encoded_host().decode()`. -/
def ConnectUrl.host (hosts : Hosts) (url : ConnectUrl) : List Char := hosts.decode url.encodedHost

/-- The rule of an entry. Reference: `options.cpp:1110-1118`. -/
def resolveRule (A : AddressRules) : Rule (List Char × List Char × (List Char ⊕ List Char)) :=
  fun it => do
    let (host, it) ← tokenRule (· != ':') it
    let (_, it) ← delimRule (· == ':') it
    let (port, it) ← tokenRule Char.isDigit it
    let (_, it) ← delimRule (· == ':') it
    let (_, it) ← optionalRule (delimRule (· == '[')) it
    let (address, it) ← variantRule A.ipv4 A.ipv6 it
    let (_, it) ← optionalRule (delimRule (· == ']')) it
    .ok ((host, port, address), it)

/-- An item of the closure: `encoded_host()` and `port()` of the first URL,
`encoded_host_address()` of the second. -/
structure ResolveItem where
  host : List Char
  port : List Char
  address : List Char
deriving DecidableEq, Repr

/-- One entry of `--resolve`. Reference: `options.cpp:1125-1137`. -/
def parseResolveEntry (A : AddressRules) (hosts : Hosts) (sv : List Char) :
    Except ConnectToThrown ResolveItem :=
  match (resolveRule A).parseAll sv with
  | .error _ => .error (.runtimeError "bad --resolve option")
  | .ok (host, port, address) => .ok ⟨hosts.setHost host, port, address.elim id id⟩

/-- `parse_args` of `--resolve`: the items of the closure. Reference: `options.cpp:1120-1138`. -/
def parseResolve (A : AddressRules) (hosts : Hosts) (entries : List (List Char)) :
    Except ConnectToThrown (List ResolveItem) :=
  entries.mapM (parseResolveEntry A hosts)

/-- `oc.resolve_to`. Reference: `options.cpp:1140-1154`. -/
def resolveTo (hosts : Hosts) : List ResolveItem → ConnectUrl → Except ConnectToThrown ConnectUrl
  | [], url => .ok url
  | item :: items, url =>
    if url.encodedHost != item.host && item.host != "*".toList then resolveTo hosts items url
    else do
      let port ← url.effectivePort
      if port != item.port then resolveTo hosts items url
      else .ok { url with encodedHost := hosts.setEncodedHost item.address }

/-! ## What entries are for -/

/-- An entry as it is written: `bracket` is the one in front of the address, and `address` the text
from the address on, with the closing bracket if there is one. -/
structure ResolveEntry where
  host : List Char
  port : List Char
  bracket : Bool
  address : List Char
deriving DecidableEq, Repr

/-- `host:port:address`, with or without brackets. -/
def ResolveEntry.text (e : ResolveEntry) : List Char :=
  e.host ++ ':' :: (e.port ++ ':' :: if e.bracket then '[' :: e.address else e.address)

/-- The address that stands in front of the end or of a closing bracket. -/
def ResolveEntry.hostAddress (A : AddressRules) (e : ResolveEntry) : Option (List Char) :=
  match variantRule A.ipv4 A.ipv6 e.address with
  | .ok (v, rest) => if rest = [] ∨ rest = [']'] then some (v.elim id id) else none
  | .error _ => none

/-- The host has no colon, the port is a number, and an address that one of the rules reads is
behind them. -/
structure ResolveEntry.WellFormed (A : AddressRules) (e : ResolveEntry) : Prop where
  host : e.host ≠ [] ∧ ∀ c ∈ e.host, (c != ':') = true
  port : e.port ≠ [] ∧ ∀ c ∈ e.port, c.isDigit = true
  address : (e.hostAddress A).isSome
  bracket : e.bracket = false → e.address.head? ≠ some '['

/-- The entry is for a URL: for its host, or for any host, and for its port. -/
def ResolveEntry.Matches (hosts : Hosts) (url : ConnectUrl) (e : ResolveEntry) : Prop :=
  (url.encodedHost = hosts.setHost e.host ∨ e.host = "*".toList) ∧ url.effectivePort = .ok e.port

instance (hosts : Hosts) (url : ConnectUrl) (e : ResolveEntry) : Decidable (e.Matches hosts url) :=
  inferInstanceAs (Decidable (_ ∧ _))

/-- What `--resolve` is documented to do with a URL: the host becomes the address of the first entry
for it, and the scheme and the port stay; without an entry for it, it stays as it is. -/
def Overrides (A : AddressRules) (hosts : Hosts) (entries : List ResolveEntry)
    (url url' : ConnectUrl) : Prop :=
  match entries.find? (·.Matches hosts url) with
  | none => url' = url
  | some e =>
    url'.scheme = url.scheme ∧ url'.port = url.port ∧ e.hostAddress A = some (url'.host hosts)

/-- What a `urls::url` does with hosts: an address has no escapes, so `host()` is the address again
after `set_encoded_host`; and an asterisk is stored as it is, and nothing else as an asterisk. -/
structure Hosts.Lawful (hosts : Hosts) (A : AddressRules) : Prop where
  address : ∀ it v rest, variantRule A.ipv4 A.ipv6 it = .ok (v, rest) →
    hosts.decode (hosts.setEncodedHost (v.elim id id)) = v.elim id id
  asterisk : ∀ h, hosts.setHost h = "*".toList ↔ h = "*".toList

/-- The item of an entry. -/
structure ResolveEntry.Item (A : AddressRules) (hosts : Hosts) (e : ResolveEntry)
    (item : ResolveItem) : Prop where
  host : item.host = hosts.setHost e.host
  port : item.port = e.port
  address : e.hostAddress A = some item.address

section
variable {A : AddressRules} {hosts : Hosts}

theorem stopsAt_colon {cs : Char → Bool} (hcs : cs ':' = false) (t : List Char) :
    StopsAt cs (':' :: t) := by
  intro c hc
  cases hc
  exact hcs

/-- The address is what the rules read, up to the end or a closing bracket. -/
theorem hostAddress_eq_some {e : ResolveEntry} {a : List Char} :
    e.hostAddress A = some a ↔ ∃ v rest, variantRule A.ipv4 A.ipv6 e.address = .ok (v, rest) ∧
      (rest = [] ∨ rest = [']']) ∧ v.elim id id = a := by
  unfold ResolveEntry.hostAddress
  constructor
  · intro h
    split at h
    · next v rest hread =>
      rw [Option.ite_none_right_eq_some] at h
      exact ⟨v, rest, hread, h.1, Option.some.inj h.2⟩
    · cases h
  · rintro ⟨v, rest, hread, hrest, rfl⟩
    rw [hread]
    exact if_pos hrest

/-- A closing bracket, or nothing, before the end. -/
theorem optionalRule_close {rest : List Char} :
    (∃ o, optionalRule (delimRule (· == ']')) rest = .ok (o, [])) ↔ rest = [] ∨ rest = [']'] := by
  constructor
  · rintro ⟨o, h⟩
    rcases optionalRule_ok h with ⟨-, hrest⟩ | ⟨c, -, hread⟩
    · exact .inl hrest.symm
    · exact .inr (delimRule_eq hread)
  · rintro (rfl | rfl)
    · exact ⟨none, rfl⟩
    · exact ⟨some ']', rfl⟩

/-- The bracket in front of an address. -/
theorem optionalRule_open {e : ResolveEntry} (h : e.bracket = false → e.address.head? ≠ some '[') :
    ∃ o, optionalRule (delimRule (· == '['))
      (if e.bracket then '[' :: e.address else e.address) = .ok (o, e.address) := by
  cases hb : e.bracket with
  | true => exact ⟨some '[', rfl⟩
  | false =>
    refine ⟨none, ?_⟩
    rw [if_neg Bool.false_ne_true]
    cases haddr : e.address with
    | nil => rfl
    | cons c it =>
      have hc : c ≠ '[' := fun hc => h hb (by rw [haddr, hc]; rfl)
      simp [optionalRule, delimRule, hc]

/-- A well-formed entry is read as its parts. -/
theorem resolveRule_text {e : ResolveEntry} (he : e.WellFormed A) :
    ∃ v : List Char ⊕ List Char, e.hostAddress A = some (v.elim id id) ∧
      (resolveRule A).parseAll e.text = .ok (e.host, e.port, v) := by
  obtain ⟨a, ha⟩ := Option.isSome_iff_exists.1 he.address
  obtain ⟨v, rest, hread, hrest, hv⟩ := hostAddress_eq_some.1 ha
  refine ⟨v, by rw [ha, hv], ?_⟩
  have hhost (t : List Char) : tokenRule (· != ':') (e.host ++ ':' :: t) = .ok (e.host, ':' :: t) :=
    tokenRule_append he.host.1 he.host.2 (stopsAt_colon rfl t)
  have hport (t : List Char) : tokenRule Char.isDigit (e.port ++ ':' :: t) =
      .ok (e.port, ':' :: t) := tokenRule_append he.port.1 he.port.2 (stopsAt_colon rfl t)
  have hdelim (t : List Char) : delimRule (· == ':') (':' :: t) = .ok (':', t) := rfl
  obtain ⟨o, hopen⟩ := optionalRule_open he.bracket
  obtain ⟨o', hclose⟩ := optionalRule_close.2 hrest
  have hrule : resolveRule A e.text = .ok ((e.host, e.port, v), []) := by
    simp only [ResolveEntry.text, resolveRule, hhost, hport, hdelim, hopen, hread, hclose, bind,
      Except.bind]
  rw [Rule.parseAll, hrule]

/-- What is read is a well-formed entry. -/
theorem resolveRule_ok {sv host port : List Char} {v : List Char ⊕ List Char}
    (h : (resolveRule A).parseAll sv = .ok (host, port, v)) :
    ∃ e : ResolveEntry, e.WellFormed A ∧ e.text = sv := by
  have hrule := parseAll_ok h
  simp only [resolveRule, bind_ok] at hrule
  obtain ⟨⟨host, s₁⟩, hname, ⟨c₁, s₂⟩, hcolon₁, ⟨port, s₃⟩, hdigits, ⟨c₂, s₄⟩, hcolon₂,
    ⟨o, s₅⟩, hopen, ⟨v, s₆⟩, hread, ⟨o', s₇⟩, hclose, hpair⟩ := hrule
  cases hpair
  obtain ⟨rfl, hhost⟩ := tokenRule_ok hname
  obtain ⟨rfl, hport⟩ := tokenRule_ok hdigits
  obtain rfl := delimRule_eq hcolon₁
  obtain rfl := delimRule_eq hcolon₂
  have haddress (b : Bool) : (ResolveEntry.hostAddress A ⟨host, port, b, s₅⟩).isSome :=
    Option.isSome_iff_exists.2
      ⟨_, hostAddress_eq_some.2 ⟨v, s₆, hread, optionalRule_close.1 ⟨o', hclose⟩, rfl⟩⟩
  rcases optionalRule_ok hopen with ⟨rfl, rfl⟩ | ⟨c, -, hbracket⟩
  · refine ⟨⟨host, port, false, s₅⟩, ⟨hhost, hport, haddress false, fun _ hhead => ?_⟩, rfl⟩
    -- a text that starts with a bracket is read without it
    obtain ⟨t, rfl⟩ := List.head?_eq_some_iff.1 hhead
    cases hopen
  · obtain rfl := delimRule_eq hbracket
    exact ⟨⟨host, port, true, s₅⟩, ⟨hhost, hport, haddress true, nofun⟩, rfl⟩

/-- A well-formed entry has its item. -/
theorem parseResolveEntry_text (hosts : Hosts) {e : ResolveEntry} (he : e.WellFormed A) :
    ∃ item, parseResolveEntry A hosts e.text = .ok item ∧ e.Item A hosts item := by
  obtain ⟨v, hv, hparse⟩ := resolveRule_text he
  exact ⟨⟨hosts.setHost e.host, e.port, v.elim id id⟩, by rw [parseResolveEntry, hparse],
    ⟨rfl, rfl, hv⟩⟩

/-- An accepted entry is a well-formed one. -/
theorem parseResolveEntry_ok {sv : List Char} {item : ResolveItem}
    (h : parseResolveEntry A hosts sv = .ok item) :
    ∃ e : ResolveEntry, e.WellFormed A ∧ e.text = sv := by
  unfold parseResolveEntry at h
  split at h
  · cases h
  · next hparse => exact resolveRule_ok hparse

/-- There is one way to refuse an entry. -/
theorem parseResolveEntry_error {sv : List Char} {thrown : ConnectToThrown}
    (h : parseResolveEntry A hosts sv = .error thrown) :
    thrown = .runtimeError "bad --resolve option" := by
  unfold parseResolveEntry at h
  split at h
  · exact (Except.error.inj h).symm
  · cases h

/-- The items of well-formed entries. -/
theorem parseResolve_text (hosts : Hosts) {entries : List ResolveEntry}
    (h : ∀ e ∈ entries, e.WellFormed A) :
    ∃ items, parseResolve A hosts (entries.map ResolveEntry.text) = .ok items ∧
      List.Forall₂ (fun e item => e.Item A hosts item) entries items := by
  obtain ⟨items, hitems⟩ := exists_forall₂ fun e he => parseResolveEntry_text hosts (h e he)
  refine ⟨items, mapM_ok.2 (List.forall₂_map_left_iff.2 ?_), hitems.imp fun _ _ h => h.2⟩
  exact hitems.imp fun _ _ h => h.1

/-- An item is skipped if its entry is not for the URL. -/
theorem resolveTo_cons_of_not (hlaws : hosts.Lawful A) {url : ConnectUrl} {port : List Char}
    {e : ResolveEntry} {item : ResolveItem} (hport : url.effectivePort = .ok port)
    (hitem : e.Item A hosts item) (hnot : ¬ e.Matches hosts url) (items : List ResolveItem) :
    resolveTo hosts (item :: items) url = resolveTo hosts items url := by
  rw [ResolveEntry.Matches, ← hlaws.asterisk, hport, Except.ok.injEq, ← hitem.host,
    ← hitem.port] at hnot
  rw [resolveTo]
  split
  · rfl
  · next hhost =>
    simp only [Bool.and_eq_true, bne_iff_ne, not_and_or, not_not] at hhost
    simp only [hport, bind, Except.bind]
    exact if_pos (bne_iff_ne.2 fun heq => hnot ⟨hhost, heq⟩)

/-- The first item for the URL gives it its host. -/
theorem resolveTo_cons_of_matches (hlaws : hosts.Lawful A) {url : ConnectUrl} {e : ResolveEntry}
    {item : ResolveItem} (hitem : e.Item A hosts item) (hyes : e.Matches hosts url)
    (items : List ResolveItem) :
    resolveTo hosts (item :: items) url =
      .ok { url with encodedHost := hosts.setEncodedHost item.address } := by
  rw [ResolveEntry.Matches, ← hlaws.asterisk, ← hitem.host, ← hitem.port] at hyes
  rw [resolveTo, if_neg, hyes.2]
  · simp only [bind, Except.bind]
    exact if_neg (by simp)
  · simpa only [Bool.and_eq_true, bne_iff_ne, not_and_or, not_not] using hyes.1

/-- The closure does what the entries are for, if the port of the URL is known. -/
theorem resolveTo_overrides (hlaws : hosts.Lawful A) {url : ConnectUrl} {port : List Char}
    (hport : url.effectivePort = .ok port) {entries : List ResolveEntry} {items : List ResolveItem}
    (hitems : List.Forall₂ (fun e item => e.Item A hosts item) entries items) :
    ∃ url', resolveTo hosts items url = .ok url' ∧ Overrides A hosts entries url url' := by
  induction hitems with
  | nil => exact ⟨url, rfl, rfl⟩
  | @cons e item entries items hitem _ ih =>
    rcases em (e.Matches hosts url) with hyes | hnot
    · obtain ⟨v, rest, hread, -, hv⟩ := hostAddress_eq_some.1 hitem.address
      refine ⟨_, resolveTo_cons_of_matches hlaws hitem hyes items, ?_⟩
      rw [Overrides, List.find?_cons_of_pos (by simpa using hyes)]
      refine ⟨rfl, rfl, ?_⟩
      rw [hitem.address, ConnectUrl.host, ← hv, hlaws.address e.address v rest hread]
    · obtain ⟨url', hurl, hover⟩ := ih
      refine ⟨url', (resolveTo_cons_of_not hlaws hport hitem hnot items).trans hurl, ?_⟩
      rwa [Overrides, List.find?_cons_of_neg (by simpa using hnot)]

/-- The lists of texts that are accepted are those of well-formed entries, and every other list is
refused with one error; the closure gives every `http` or `https` URL the address of the first entry
for it as its host, and changes nothing else. -/
theorem resolve_as_documented (A : AddressRules) (hosts : Hosts) (hlaws : hosts.Lawful A)
    (texts : List (List Char)) :
    (∀ entries : List ResolveEntry, (∀ e ∈ entries, e.WellFormed A) →
      texts = entries.map ResolveEntry.text →
      ∃ items, parseResolve A hosts texts = .ok items ∧ ∀ url : ConnectUrl,
        url.scheme = "http".toList ∨ url.scheme = "https".toList →
          ∃ url', resolveTo hosts items url = .ok url' ∧ Overrides A hosts entries url url') ∧
      ((∀ entries : List ResolveEntry, (∀ e ∈ entries, e.WellFormed A) →
        texts ≠ entries.map ResolveEntry.text) →
        parseResolve A hosts texts = .error (.runtimeError "bad --resolve option")) := by
  refine ⟨fun entries hwf htexts => ?_, fun hnone => ?_⟩
  · obtain ⟨items, hparse, hitems⟩ := parseResolve_text hosts hwf
    refine ⟨items, htexts ▸ hparse, fun url hscheme => ?_⟩
    obtain ⟨port, hport⟩ := exists_effectivePort hscheme
    exact resolveTo_overrides hlaws hport hitems
  · cases hparse : parseResolve A hosts texts with
    | error thrown =>
      obtain ⟨sv, -, hsv⟩ := mapM_error hparse
      rw [parseResolveEntry_error hsv]
    | ok items =>
      have hread (sv : List Char) (hmem : sv ∈ texts) :
          ∃ e : ResolveEntry, e.WellFormed A ∧ e.text = sv := by
        obtain ⟨item, -, hsv⟩ := exists_of_forall₂ (mapM_ok.1 hparse) hmem
        exact parseResolveEntry_ok hsv
      obtain ⟨entries, hentries⟩ := exists_forall₂ hread
      refine absurd ?_ (hnone entries fun e he => ?_)
      · exact (List.forall₂_eq_eq_eq ▸ List.forall₂_map_right_iff.2
          (hentries.imp fun _ _ h => h.2.symm) : texts = entries.map ResolveEntry.text)
      · obtain ⟨sv, -, he⟩ := exists_of_forall₂ hentries.flip he
        exact he.1

end

/-! ## Two entries -/

/-- Rules for addresses of digits and three dots, and of hexadecimal digits and colons, which are
written in lower case. -/
def plainAddressRules : AddressRules where
  ipv4 := fun it => do
    let (t, it) ← tokenRule (fun c => c.isDigit || c == '.') it
    if t.count '.' = 3 then .ok (t, it) else .error .mismatch
  ipv6 := fun it => do
    let (t, it) ← tokenRule (fun c => isHexDigit c || c == ':') it
    .ok (t.map Char.toLower, it)

/-- The text with its colons escaped, as in a host that is no address in brackets. -/
def escapeColons (s : List Char) : List Char :=
  s.flatMap fun c => if c = ':' then "%3A".toList else [c]

def unescapeColons : List Char → List Char
  | '%' :: '3' :: 'A' :: s => ':' :: unescapeColons s
  | c :: s => c :: unescapeColons s
  | [] => []

/-- Hosts in which only colons are escaped, and only by `set_encoded_host`. -/
def plainHosts : Hosts := ⟨id, escapeColons, unescapeColons⟩

theorem unescapeColons_escapeColons {s : List Char} (h : '%' ∉ s) :
    unescapeColons (escapeColons s) = s := by
  induction s with
  | nil => rfl
  | cons c s ih =>
    obtain ⟨hc, hs⟩ := not_or.1 (mt List.mem_cons.2 h)
    have hcons : escapeColons (c :: s) =
        (if c = ':' then "%3A".toList else [c]) ++ escapeColons s := rfl
    rw [hcons]
    split
    · next heq =>
      rw [heq]
      exact congrArg (':' :: ·) (ih hs)
    · rw [List.singleton_append, unescapeColons, ih hs]
      rintro t rfl
      exact absurd rfl hc

/-- No letter is `%` in lower case. -/
theorem eq_percent_of_toLower {c : Char} (h : c.toLower = '%') : c = '%' := by
  unfold Char.toLower at h
  split at h
  · next hupper =>
    have hval := congrArg Char.val h
    have hle : 65 ≤ c.val.toNat ∧ c.val.toNat ≤ 90 := hupper
    have hnat : (c.val + 32).toNat = 37 := congrArg UInt32.toNat hval
    rw [UInt32.toNat_add] at hnat
    have h32 : (32 : UInt32).toNat = 32 := rfl
    omega
  · exact h

/-- No address of the rules has an escape. -/
theorem plainHosts_lawful : plainHosts.Lawful plainAddressRules := by
  refine ⟨fun it v rest hread => ?_, fun _ => Iff.rfl⟩
  refine unescapeColons_escapeColons ?_
  rcases variantRule_ok hread with ⟨t, rfl, hv⟩ | ⟨t, rfl, hv⟩
  · obtain ⟨⟨t', it'⟩, htoken, hcount⟩ := bind_ok.1 hv
    dsimp only at hcount
    split at hcount
    · cases hcount
      exact fun hmem => absurd ((tokenRule_ok htoken).2.2 '%' hmem) (by decide)
    · cases hcount
  · obtain ⟨⟨t', it'⟩, htoken, hlower⟩ := bind_ok.1 hv
    cases hlower
    intro hmem
    obtain ⟨c, hc, hlower⟩ := List.mem_map.1 hmem
    rw [eq_percent_of_toLower hlower] at hc
    exact absurd ((tokenRule_ok htoken).2.2 '%' hc) (by decide)

/-- An entry for a host, and one for any host with an address in brackets. -/
theorem resolve_as_documented_any :
    ∃ items, parseResolve plainAddressRules plainHosts
        ["a.org:80:10.0.0.1".toList, "*:443:[2001:DB8::1]".toList] = .ok items ∧
      ∃ url', resolveTo plainHosts items ⟨"https".toList, "b.org".toList, none⟩ = .ok url' ∧
        url'.host plainHosts = "2001:db8::1".toList := by
  obtain ⟨items, hparse, hurls⟩ := (resolve_as_documented plainAddressRules plainHosts
    plainHosts_lawful _).1
      [⟨"a.org".toList, "80".toList, false, "10.0.0.1".toList⟩,
        ⟨"*".toList, "443".toList, true, "2001:DB8::1]".toList⟩]
      (by
        intro e he
        rcases List.mem_cons.1 he with rfl | he
        · exact ⟨⟨by decide, List.all_eq_true.1 rfl⟩, ⟨by decide, List.all_eq_true.1 rfl⟩, rfl,
            fun _ => by decide⟩
        · cases List.mem_singleton.1 he
          exact ⟨⟨by decide, List.all_eq_true.1 rfl⟩, ⟨by decide, List.all_eq_true.1 rfl⟩, rfl,
            nofun⟩)
      rfl
  obtain ⟨url', hurl, -, -, haddress⟩ := hurls ⟨"https".toList, "b.org".toList, none⟩ (.inr rfl)
  exact ⟨items, hparse, url', hurl, (Option.some.inj haddress).symm⟩

end Beast2.Burl
