import Beast2.Lib.Split
import Beast2.Burl.CookieDomain

/-!
# Which paths a cookie is for

RFC 6265, section 5.1.4: a request path matches a cookie path if the two are the same, or if the
cookie path is the beginning of the request path and ends with a slash or is followed by one there.

`path_match` looks for that slash at the wrong place: at the difference of the two lengths from the
front and not behind the cookie path. It also lets an empty request path match every cookie path.
So it decides as the RFC does exactly if neither matters for the two paths at hand
(`pathMatch_agrees_iff`).

A cookie without a Path attribute gets the default path of the URL it came from, which the RFC cuts
out of the URL's path. `add` puts it together from the segments, and gets the same
(`add_defaultPath`).
-/

namespace Beast2.Burl

open Split

/-! ## Which request paths a cookie path matches -/

/-- The path of a request: an empty one counts as a slash. -/
def requestPath (r : List Char) : List Char := if r = [] then ['/'] else r

/-- A request path matches a cookie path. -/
def PathMatches (r c : List Char) : Prop :=
  r = c ∨ c <+: r ∧ (['/'] <:+ c ∨ r[c.length]? = some '/')

instance (r c : List Char) : Decidable (PathMatches r c) := inferInstanceAs (Decidable (_ ∨ _))

/-- `path_match` decides as the RFC does. -/
def PathMatchAgrees (r c : List Char) : Prop :=
  pathMatch r c = true ↔ PathMatches (requestPath r) c

/-- What `path_match` gets wrong does not matter for two paths: an empty request path comes with the
cookie path `/` only, and if the cookie path is a proper beginning of the request path and does not
end with a slash, then there is a slash at the difference of the lengths exactly if there is one
behind the cookie path. -/
structure SlashInPlace (r c : List Char) : Prop where
  empty : r = [] → c = ['/']
  slash : c <+: r → r ≠ c → ¬ ['/'] <:+ c →
    (r[r.length - c.length]? = some '/' ↔ r[c.length]? = some '/')

/-- An empty request path matches the cookie path `/` only. -/
theorem pathMatches_slash {c : List Char} (hc : c ≠ []) : PathMatches ['/'] c ↔ c = ['/'] := by
  constructor
  · rintro (rfl | ⟨hpre, -⟩)
    · rfl
    · cases c with
      | nil => exact absurd rfl hc
      | cons d ds =>
        obtain ⟨rfl, hds⟩ := List.cons_prefix_cons.1 hpre
        rw [List.prefix_nil.1 hds]
  · rintro rfl
    exact .inl rfl

/-- `path_match` on a request path that is not empty. -/
theorem pathMatch_iff {r c : List Char} (hr : r ≠ []) :
    pathMatch r c = true ↔
      c <+: r ∧ (r = c ∨ ['/'] <:+ c ∨ r[r.length - c.length]? = some '/') := by
  have hempty : r.isEmpty = false := List.isEmpty_eq_false_iff.2 hr
  unfold pathMatch
  rw [hempty]
  by_cases hpre : c <+: r
  · have hsame : r.length = c.length ↔ r = c := by
      constructor
      · intro h
        exact (hpre.eq_of_length h.symm).symm
      · rintro rfl
        rfl
    simp [hpre, List.isPrefixOf_iff_prefix, hsame]
  · simp [hpre, List.isPrefixOf_iff_prefix]

/-- `path_match` accepts an empty request path, which the RFC takes as a slash. -/
theorem pathMatchAgrees_nil_iff {c : List Char} (hc : c ≠ []) :
    PathMatchAgrees [] c ↔ SlashInPlace [] c := by
  have hmatch : pathMatch [] c = true := rfl
  unfold PathMatchAgrees requestPath
  rw [if_pos rfl, pathMatches_slash hc]
  refine ⟨fun h => ⟨fun _ => h.1 hmatch, fun hpre => ?_⟩, fun h => ⟨fun _ => h.empty rfl, ?_⟩⟩
  · exact absurd (List.prefix_nil.1 hpre) hc
  · exact fun _ => hmatch

/-- Where the two agree, the slash is in place: of the three alternatives only it is left. -/
theorem slashInPlace_of_agrees {r c : List Char} (hr : r ≠ []) (h : PathMatchAgrees r c) :
    SlashInPlace r c := by
  unfold PathMatchAgrees requestPath at h
  rw [if_neg hr, pathMatch_iff hr] at h
  refine ⟨fun hnil => absurd hnil hr, fun hpre hne hslash => ⟨fun hat => ?_, fun hbehind => ?_⟩⟩
  · rcases h.1 ⟨hpre, .inr (.inr hat)⟩ with heq | ⟨-, hend | hbehind⟩
    · exact absurd heq hne
    · exact absurd hend hslash
    · exact hbehind
  · rcases (h.2 (.inr ⟨hpre, .inr hbehind⟩)).2 with heq | hend | hat
    · exact absurd heq hne
    · exact absurd hend hslash
    · exact hat

/-- Where the slash is in place, the two agree. -/
theorem agrees_of_slashInPlace {r c : List Char} (hr : r ≠ []) (h : SlashInPlace r c) :
    PathMatchAgrees r c := by
  unfold PathMatchAgrees requestPath
  rw [if_neg hr, pathMatch_iff hr]
  by_cases heq : r = c
  · exact iff_of_true ⟨heq ▸ List.prefix_refl r, .inl heq⟩ (.inl heq)
  by_cases hend : ['/'] <:+ c
  · refine ⟨fun hmatch => .inr ⟨hmatch.1, .inl hend⟩, fun hmatch => ?_⟩
    exact ⟨(hmatch.resolve_left heq).1, .inr (.inl hend)⟩
  refine ⟨fun ⟨hpre, hmatch⟩ => ?_, fun hmatch => ?_⟩
  · have hat := (hmatch.resolve_left heq).resolve_left hend
    exact .inr ⟨hpre, .inr ((h.slash hpre heq hend).1 hat)⟩
  · obtain ⟨hpre, hmatch⟩ := hmatch.resolve_left heq
    have hbehind := hmatch.resolve_left hend
    exact ⟨hpre, .inr (.inr ((h.slash hpre heq hend).2 hbehind))⟩

/-- `path_match` decides as the RFC does exactly if the slash it looks for is in place. -/
theorem pathMatch_agrees_iff (r c : List Char) (hc : c ≠ []) :
    PathMatchAgrees r c ↔ SlashInPlace r c := by
  by_cases hr : r = []
  · subst hr
    exact pathMatchAgrees_nil_iff hc
  · exact ⟨slashInPlace_of_agrees hr, agrees_of_slashInPlace hr⟩

/-- The two lengths of `/foo/bar` and `/foo` put the slash in place. -/
theorem fooBar_agrees : "/foo".toList ≠ [] ∧
    SlashInPlace "/foo/bar".toList "/foo".toList ∧
    PathMatchAgrees "/foo/bar".toList "/foo".toList := by
  have hne : "/foo".toList ≠ [] := by decide
  have hslash : SlashInPlace "/foo/bar".toList "/foo".toList :=
    ⟨fun h => absurd h (by decide), fun _ _ _ => by decide⟩
  exact ⟨hne, hslash, (pathMatch_agrees_iff _ _ hne).2 hslash⟩

/-- A cookie for `/foo` is not sent to `/foo/ab`, one for `/a` is sent to `/ab/c`, and one for
`/foo` is sent to the empty path. -/
theorem fooAb_not_agrees :
    ¬ PathMatchAgrees "/foo/ab".toList "/foo".toList ∧
    ¬ PathMatchAgrees "/ab/c".toList "/a".toList ∧
    ¬ PathMatchAgrees [] "/foo".toList := by
  unfold PathMatchAgrees
  decide +kernel

/-! ## The path of a cookie without one -/

/-- The default path of a URL's path: `/` if it has at most one slash, else the path up to its last
one. -/
def defaultPathOf (p : List Char) : List Char :=
  if p.count '/' ≤ 1 then ['/'] else (p.rdropWhile (· != '/')).dropLast

/-- `encoded_segments()` of an absolute or empty path. -/
def segmentsOf (p : List Char) : List (List Char) :=
  if p = [] ∨ p = ['/'] then [] else (p.drop 1).splitOn '/'

/-- The segments but the last, each behind a slash, are the path up to its last slash. -/
theorem flatMap_dropLast_segmentsOf (a : List Char) {b : List Char} (hb : '/' ∉ b)
    (habs : (a ++ '/' :: b).head? = some '/') :
    (segmentsOf (a ++ '/' :: b)).dropLast.flatMap ('/' :: ·) = a := by
  have hne : a ++ '/' :: b ≠ [] := by simp
  unfold segmentsOf
  cases a with
  | nil =>
    rw [List.nil_append, List.drop_one, List.tail_cons, List.splitOn_eq_singleton hb]
    split <;> rfl
  | cons c a =>
    obtain rfl : c = '/' := Option.some.inj habs
    rw [if_neg (by simp), List.cons_append, List.drop_one, List.tail_cons,
      List.splitOn_append_cons_self, List.splitOn_eq_singleton hb, List.dropLast_concat,
      flatMap_splitOn]

/-- `add` finds the default path of the RFC. -/
theorem defaultPath_eq {url : Url}
    (habs : url.encodedPath = [] ∨ url.encodedPath.head? = some '/')
    (hsegs : url.encodedSegments = segmentsOf url.encodedPath) :
    defaultPath url = defaultPathOf url.encodedPath := by
  unfold defaultPath defaultPathOf
  rw [hsegs]
  generalize url.encodedPath = p at habs
  rcases habs with rfl | habs
  · rfl
  · obtain ⟨a, b, rfl, hb⟩ := exists_last_of_mem (List.mem_of_mem_head? habs)
    rw [flatMap_dropLast_segmentsOf a hb habs, rdropWhile_append_cons a hb, List.dropLast_concat,
      List.count_append, List.count_cons_self, List.count_eq_zero.2 hb]
    cases a with
    | nil => rfl
    | cons c a =>
      -- the path starts with a slash, so there is one before the last
      obtain rfl : c = '/' := Option.some.inj habs
      have hmore : ¬ (a.count '/' + 1 + (0 + 1) ≤ 1) := by omega
      rw [List.count_cons_self, if_neg hmore]
      rfl

/-- Every cookie without a Path attribute that `add` stores for a URL with an absolute or empty path
has the default path of the URL. -/
theorem add_defaultPath (psl : Psl) (now : Int) (jar : List Cookie) {url : Url} {c c' : Cookie}
    (habs : url.encodedPath = [] ∨ url.encodedPath.head? = some '/')
    (hsegs : url.encodedSegments = segmentsOf url.encodedPath) (hpath : c.path = none)
    (hstore : toStore psl url c = some c') (hlive : expiredAtAdd now c' = false) :
    add psl now jar url c = (jar.filter fun o => !sameKey c' o) ++ [c'] ∧
      c'.path = some (defaultPathOf url.encodedPath) := by
  constructor
  · rw [add, hstore]
    simp only [hlive, Bool.false_eq_true, if_false]
  · obtain ⟨-, -, rfl⟩ := toStore_eq_some_iff.1 hstore
    show some (c.path.getD (defaultPath url)) = _
    rw [hpath, Option.getD_none, defaultPath_eq habs hsegs]

/-- The URL `https://h/a//b/`. -/
def slashesUrl : Url :=
  { httpsRoot "h".toList with
    encodedPath := "/a//b/".toList
    encodedSegments := ["a".toList, [], "b".toList, []]
    encodedTarget := "/a//b/".toList
    buffer := "https://h/a//b/".toList }

/-- A cookie from `https://h/a//b/` is for `/a//b`. -/
theorem slashesUrl_defaultPath :
    ∃ c', add none 0 [] slashesUrl { name := "n".toList } = [c'] ∧
      c'.path = some "/a//b".toList := by
  have hstore : toStore none slashesUrl { name := "n".toList } =
      some (stored slashesUrl { name := "n".toList }) := by decide
  have hpath : defaultPathOf slashesUrl.encodedPath = "/a//b".toList := by decide
  refine ⟨stored slashesUrl { name := "n".toList }, ?_⟩
  rw [← hpath]
  exact add_defaultPath none 0 [] (.inr rfl) (by decide) rfl hstore rfl

end Beast2.Burl
