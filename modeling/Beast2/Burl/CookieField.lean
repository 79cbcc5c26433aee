import Beast2.Burl.CookieJar

/-!
# Which cookies a request gets

`make_field` filters the jar, emits cookies and erases expired ones in one loop over the list. In
every jar that any calls can leave, every cookie has a domain and a path, so the loop never throws;
it emits exactly the cookies that are for the request, in the order of the jar, and leaves the jar
without exactly the expired ones (`makeField_exact`). Whether a path matches is what `path_match`
says.
-/

namespace Beast2.Burl

/-- A cookie is for the host of a request: the host is its domain, or with `tailmatch` one that
domain-matches it. -/
def ForHost (host domain : List Char) (tailmatch : Bool) : Prop :=
  if tailmatch then DomainMatches host domain else host = domain

/-- A cookie is expired at a time. -/
def ExpiredAt (now : Int) (c : Cookie) : Prop := ∃ t ∈ c.expires, t ≤ now

/-- A cookie is for a request: it is not expired, its domain and its path match, and a secure one is
for `https` only. -/
structure ForRequest (url : Url) (now : Int) (c : Cookie) : Prop where
  unexpired : ¬ ExpiredAt now c
  domain : ∃ d, c.domain = some d ∧ ForHost url.host d c.tailmatch
  path : ∃ p, c.path = some p ∧ pathMatch url.encodedPath p = true
  secure : c.secure = true → url.schemeId = .https

/-- Which character stands in front of the end of a text. -/
theorem cons_suffix_iff {c x : Char} {u d : List Char} :
    c :: d <:+ u ++ x :: d ↔ x = c := by
  constructor
  · intro h
    have hlen : (c :: d).length = (x :: d).length := rfl
    have hsuffix := List.suffix_append u (x :: d)
    have heq := List.suffix_of_suffix_length_le hsuffix h (Nat.le_of_eq hlen)
    exact (List.cons.inj (heq.eq_of_length hlen.symm)).1
  · rintro rfl
    exact List.suffix_append u (x :: d)

/-- `domain_match` decides whether a host is one that a cookie is for. -/
theorem domainMatch_iff {host domain : List Char} {tailmatch : Bool} :
    domainMatch host domain tailmatch = true ↔ ForHost host domain tailmatch := by
  cases tailmatch with
  | false => simp [domainMatch, ForHost]
  | true =>
    show (if (undotted domain).isSuffixOf host then
        if host.length = (undotted domain).length then true
        else host[host.length - (undotted domain).length - 1]? == some '.'
      else false) = true ↔ DomainMatches host domain
    unfold DomainMatches
    generalize undotted domain = d
    by_cases hsuffix : d <:+ host
    · rw [if_pos (List.isSuffixOf_iff_suffix.2 hsuffix)]
      obtain ⟨t, rfl⟩ := hsuffix
      rcases List.eq_nil_or_concat' t with rfl | ⟨u, x, rfl⟩
      · simp
      · -- the index is in range: it is that of `x`
        rw [List.append_assoc, List.singleton_append]
        have hlen : (u ++ x :: d).length ≠ d.length := by
          rw [List.length_append, List.length_cons]
          omega
        have hindex : (u ++ x :: d).length - d.length - 1 = u.length := by
          rw [List.length_append, List.length_cons]
          omega
        have hne : u ++ x :: d ≠ d := fun h => hlen (congrArg List.length h)
        rw [if_neg hlen, hindex, cons_suffix_iff]
        simp [hne]
    · have hne : host ≠ d := fun h => hsuffix (h ▸ List.suffix_refl host)
      have hdot : ¬ '.' :: d <:+ host := fun h => hsuffix ((List.suffix_cons '.' d).trans h)
      simp [hsuffix, hne, hdot]

/-- What `make_field` takes for expired. -/
theorem expired_iff {now : Int} {c : Cookie} : expired now c = true ↔ ExpiredAt now c := by
  unfold expired ExpiredAt
  cases c.expires with
  | none => simp
  | some t => simp

/-- What `make_field` emits of a jar whose cookies have a domain and a path. -/
theorem forRequest_iff {url : Url} {now : Int} {c : Cookie} (hc : Complete c) :
    (!expired now c && domainMatch url.host (c.domain.getD []) c.tailmatch &&
      pathMatch url.encodedPath (c.path.getD []) && (!c.secure || url.schemeId == .https)) = true ↔
      ForRequest url now c := by
  obtain ⟨d, hd⟩ := Option.isSome_iff_exists.1 hc.1
  obtain ⟨p, hp⟩ := Option.isSome_iff_exists.1 hc.2
  have hsecure : (!c.secure || url.schemeId == .https) = true ↔
      (c.secure = true → url.schemeId = .https) := by
    cases c.secure <;> simp
  rw [Bool.and_eq_true, Bool.and_eq_true, Bool.and_eq_true, hsecure, hd, hp, Option.getD_some,
    Option.getD_some, domainMatch_iff, Bool.not_eq_true', ← Bool.not_eq_true, expired_iff]
  constructor
  · rintro ⟨⟨⟨hexp, hdomain⟩, hpath⟩, hhttps⟩
    exact ⟨hexp, ⟨d, hd, hdomain⟩, ⟨p, hp, hpath⟩, hhttps⟩
  · rintro ⟨hexp, ⟨d', hd', hdomain⟩, ⟨p', hp', hpath⟩, hhttps⟩
    cases hd.symm.trans hd'
    cases hp.symm.trans hp'
    exact ⟨⟨⟨hexp, hdomain⟩, hpath⟩, hhttps⟩

open Classical in
/-- In every jar that any calls leave, `make_field` finds a domain and a path in every cookie. It
returns the pairs of exactly the cookies that are for the request, in the order of the jar, and
leaves the jar without exactly the expired ones. -/
theorem makeField_exact (psl : Psl) (ops : List JarOp) (url : Url) (now : Int) :
    ∃ jar, runJar psl ops = some jar ∧ (∀ c ∈ jar, c.domain.isSome ∧ c.path.isSome) ∧
      makeField now jar url =
        some ((jar.filter (ForRequest url now ·)).flatMap cookiePair,
          jar.filter (¬ ExpiredAt now ·)) := by
  obtain ⟨jar, hrun, hjar⟩ := exists_runJar psl ops
  refine ⟨jar, hrun, hjar, ?_⟩
  have hemitted : emitted url now jar = jar.filter (ForRequest url now ·) := by
    refine List.filter_congr fun c hc => ?_
    rw [Bool.eq_iff_iff, forRequest_iff (hjar c hc), decide_eq_true_iff]
  have hleft : jar.filter (fun c => !expired now c) = jar.filter (¬ ExpiredAt now ·) := by
    refine List.filter_congr fun c _ => ?_
    rw [Bool.eq_iff_iff, Bool.not_eq_true', ← Bool.not_eq_true, expired_iff, decide_eq_true_iff]
  rw [makeField_eq hjar, hemitted, hleft]

end Beast2.Burl
