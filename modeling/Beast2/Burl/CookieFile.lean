import Beast2.Burl.CookieJar

/-!
# Saving and loading a cookie jar

The reader of a cookie file accepts a line whose fields are not empty and have no tab, and an expiry
of 32 bits. A cookie is `Storable` if the line that `operator<<` writes for it is such a line, and
no comment. A storable cookie is read back as far as the format has its fields (`netscape`,
`parseNetscapeCookie_cookieLine`), and conversely every cookie that the reader returns is storable
(`parseNetscapeCookie_ok`). So a file that was read can be written and read again without a change,
and a jar survives a save and a load exactly if all its cookies are storable (`survives_iff`).

`parse_cookie` and `add` do not see to that. They accept a cookie without a value, tabs and newlines
in a Path or Domain attribute, a domain with a `#` in front, a host that is empty, and an expiry
after 2106.
-/

namespace Beast2.Burl

open Grammar

/-! ## Lines -/

/-- A line ends at its newline. -/
theorem getlines_append {l : List Char} (hl : '\n' ∉ l) (s : List Char) :
    getlines (l ++ '\n' :: s) = l :: getlines s := by
  induction l with
  | nil => simp [getlines]
  | cons c l ih =>
    have hc : c ≠ '\n' := fun h => hl (h ▸ List.mem_cons_self)
    have ih := ih fun h => hl (List.mem_cons_of_mem _ h)
    simp [getlines, hc, ih]

/-- Lines that end with a newline each are read one by one. -/
theorem getlines_flatMap {ls : List (List Char)} (hls : ∀ l ∈ ls, '\n' ∉ l) :
    getlines (ls.flatMap (· ++ ['\n'])) = ls := by
  induction ls with
  | nil => rfl
  | cons l ls ih =>
    have ih := ih fun k hk => hls k (List.mem_cons_of_mem _ hk)
    simp only [List.flatMap_cons, List.append_assoc, List.singleton_append]
    rw [getlines_append (hls l List.mem_cons_self), ih]

/-- A line has no newline. -/
theorem newline_not_mem_getlines {s l : List Char} (h : l ∈ getlines s) : '\n' ∉ l := by
  induction s generalizing l with
  | nil => cases h
  | cons c s ih =>
    rw [getlines] at h
    split at h
    · rcases List.mem_cons.1 h with rfl | h
      · exact List.not_mem_nil
      · exact ih h
    · next hc =>
      split at h
      · cases List.mem_singleton.1 h
        simpa using Ne.symm hc
      · next k ks hs =>
        rcases List.mem_cons.1 h with rfl | h
        · have hk := ih (hs ▸ List.mem_cons_self)
          simpa [Ne.symm hc] using hk
        · exact ih (hs ▸ List.mem_cons_of_mem _ h)

/-! ## What the format keeps -/

/-- A cookie as far as a cookie file has its fields: without the SameSite and Partitioned
attributes, a missing value empty and the expiry in whole seconds. -/
def netscape (c : Cookie) : Cookie :=
  { c with
    value := some (c.value.getD [])
    expires := c.expires.map fun t => wholeSeconds t * second
    sameSite := none
    partitioned := false }

/-- A text that can stand between two tabs of a line. -/
structure IsField (t : List Char) : Prop where
  nonempty : t ≠ []
  tab : '\t' ∉ t
  newline : '\n' ∉ t

/-- A cookie whose line the reader accepts and takes for this cookie. -/
structure Storable (c : Cookie) : Prop where
  domain : ∃ d, c.domain = some d ∧ IsField d ∧ (d.head? = some '#' → c.httpOnly = true)
  path : ∃ p, c.path = some p ∧ IsField p
  name : IsField c.name
  value : IsField (c.value.getD [])
  expires : ∀ t, c.expires = some t → 0 < wholeSeconds t ∧ wholeSeconds t ≤ uint32Max

theorem wholeSeconds_mul_second (n : Int) : wholeSeconds (n * second) = n :=
  Int.mul_tdiv_cancel n (by decide)

/-- Being storable is about what the format keeps. -/
theorem storable_netscape {c : Cookie} : Storable (netscape c) ↔ Storable c := by
  have hexp : (∀ t, (netscape c).expires = some t →
      0 < wholeSeconds t ∧ wholeSeconds t ≤ uint32Max) ↔
      ∀ t, c.expires = some t → 0 < wholeSeconds t ∧ wholeSeconds t ≤ uint32Max := by
    cases h : c.expires with
    | none => simp [netscape, h]
    | some t => simp [netscape, h, wholeSeconds_mul_second]
  refine ⟨fun h => ?_, fun h => ?_⟩
  · exact ⟨h.domain, h.path, h.name, h.value, hexp.1 h.expires⟩
  · exact ⟨h.domain, h.path, h.name, h.value, hexp.2 h.expires⟩

/-! ## The line of a storable cookie is read back -/

theorem IsField.fieldChars {t : List Char} (h : IsField t) : ∀ c ∈ t, fieldChars c = true := by
  intro c hc
  have hne : c ≠ '\t' := fun e => h.tab (e ▸ hc)
  simpa [Burl.fieldChars] using hne

theorem stopsAt_tab (s : List Char) : StopsAt fieldChars ('\t' :: s) := by
  intro c hc
  cases hc
  rfl

/-- A field is read up to the tab behind it. -/
theorem IsField.tokenRule {t : List Char} (h : IsField t) (s : List Char) :
    tokenRule Burl.fieldChars (t ++ '\t' :: s) = .ok (t, '\t' :: s) :=
  tokenRule_append h.nonempty h.fieldChars (stopsAt_tab s)

theorem delimRule_tab (s : List Char) : delimRule (· == '\t') ('\t' :: s) = .ok ('\t', s) := rfl

/-- A flag is read back. -/
theorem flagRule_flagText (b : Bool) (s : List Char) :
    ∃ f, flagRule (flagText b ++ s) = .ok (f, s) ∧ f.isRight = b := by
  cases b with
  | false =>
    exact ⟨.inl "FALSE".toList, by simp [flagRule, variantRule, flagText, literalRule], rfl⟩
  | true => exact ⟨.inr "TRUE".toList, by simp [flagRule, variantRule, flagText, literalRule], rfl⟩

/-- The expiry of a storable cookie is written as a number that is read back. -/
theorem Storable.exists_epoch {c : Cookie} (h : Storable c) : ∃ n ≤ uint32Max,
    expiresText c.expires = Nat.toDigits 10 n ∧ epochToExpiry n = (netscape c).expires := by
  cases he : c.expires with
  | none => exact ⟨0, by decide, rfl, by simp [netscape, he, epochToExpiry]⟩
  | some t =>
    obtain ⟨hpos, hle⟩ := h.expires t he
    refine ⟨(wholeSeconds t).natAbs, by omega, ?_, ?_⟩
    · have hneg : ¬ wholeSeconds t < 0 := by omega
      simp only [expiresText, intText, hneg, if_false]
    · have hne : (wholeSeconds t).natAbs ≠ 0 := by omega
      have hcast : ((wholeSeconds t).natAbs : Int) = wholeSeconds t := by omega
      simp only [epochToExpiry, hne, if_false, hcast, netscape, he, Option.map_some]

/-- The mark of an HttpOnly cookie is read, and only where it was written. -/
theorem optionalRule_mark {b : Bool} {d : List Char} (hd : d ≠ [])
    (hmark : d.head? = some '#' → b = true) (s : List Char) :
    ∃ o, optionalRule (literalRule httpOnlyMark)
        ((if b then httpOnlyMark else []) ++ (d ++ s)) = .ok (o, d ++ s) ∧ o.isSome = b := by
  cases b with
  | true =>
    refine ⟨some httpOnlyMark, optionalRule_of_ok ?_ (literalRule_append _ _), rfl⟩
    exact List.append_ne_nil_of_left_ne_nil (List.cons_ne_nil _ _) _
  | false =>
    refine ⟨none, ?_, rfl⟩
    cases d with
    | nil => exact absurd rfl hd
    | cons x d =>
      have hx : '#' ≠ x := by
        rintro rfl
        exact absurd (hmark rfl) Bool.false_ne_true
      exact optionalRule_of_error (literalRule_of_ne hx _ _)

/-- The reader takes the line of a storable cookie for that cookie. -/
theorem parseNetscapeCookie_cookieLine {c : Cookie} (h : Storable c) :
    ∃ l, cookieLine c = some l ∧ parseNetscapeCookie l = .ok (netscape c) := by
  obtain ⟨d, hd, hdf, hmark⟩ := h.domain
  obtain ⟨p, hp, hpf⟩ := h.path
  obtain ⟨n, hn, htext, hepoch⟩ := h.exists_epoch
  refine ⟨_, by rw [cookieLine, hd, hp]; rfl, ?_⟩
  set rest := c.name ++ '\t' :: c.value.getD []
  obtain ⟨s, hs, hsec⟩ := flagRule_flagText c.secure
    ('\t' :: (expiresText c.expires ++ '\t' :: rest))
  obtain ⟨t, ht, htail⟩ := flagRule_flagText c.tailmatch
    ('\t' :: (p ++ '\t' :: (flagText c.secure ++ '\t' :: (expiresText c.expires ++ '\t' :: rest))))
  obtain ⟨o, ho, honly⟩ := optionalRule_mark hdf.nonempty hmark
    ('\t' :: (flagText c.tailmatch ++ '\t' :: (p ++ '\t' :: (flagText c.secure ++
      '\t' :: (expiresText c.expires ++ '\t' :: rest)))))
  have hnum : unsignedRule uint32Max (expiresText c.expires ++ '\t' :: rest) =
      .ok (n, '\t' :: rest) := by
    rw [htext]
    refine unsignedRule_append hn ?_
    intro _ heq
    cases heq
    rfl
  have hname : tokenRule fieldChars rest = .ok (c.name, '\t' :: c.value.getD []) :=
    h.name.tokenRule _
  have hvalue : tokenRule fieldChars (c.value.getD []) = .ok (c.value.getD [], []) := by
    have := @tokenRule_append _ [] _ h.value.nonempty h.value.fieldChars (fun c hc => by cases hc)
    rwa [List.append_nil] at this
  have hparse : netscapeParser ((if c.httpOnly then httpOnlyMark else []) ++ (d ++ '\t' ::
      (flagText c.tailmatch ++ '\t' :: (p ++ '\t' :: (flagText c.secure ++
        '\t' :: (expiresText c.expires ++ '\t' :: rest)))))) =
      .ok (⟨o, d, t, p, s, n, c.name, c.value.getD []⟩, []) := by
    simp only [netscapeParser, ho, hdf.tokenRule, delimRule_tab, ht, hpf.tokenRule, hs, hnum, hname,
      hvalue, bind, Except.bind]
  simp only [parseNetscapeCookie, Rule.parseAll, hparse, bind, Except.bind]
  simp only [NetscapeFields.toCookie, hepoch, htail, hsec, honly]
  simp [netscape, hd, hp]

/-! ## What is read is storable -/

section

variable {it rest : List Char}

/-- A token of a line without a newline is a field. -/
theorem isField_of_tokenRule {t : List Char} (h : tokenRule fieldChars it = .ok (t, rest))
    (hit : '\n' ∉ it) : IsField t ∧ '\n' ∉ rest := by
  obtain ⟨rfl, hne, hchars⟩ := tokenRule_ok h
  refine ⟨⟨hne, ?_, ?_⟩, ?_⟩
  · exact fun htab => absurd (hchars _ htab) (by decide)
  · exact fun hnl => hit (List.mem_append_left _ hnl)
  · exact fun hnl => hit (List.mem_append_right _ hnl)

theorem newline_not_mem_of_delimRule {cs : Char → Bool} {c : Char}
    (h : delimRule cs it = .ok (c, rest)) (hit : '\n' ∉ it) : '\n' ∉ rest := by
  cases delimRule_ok h
  exact fun hnl => hit (List.mem_cons_of_mem _ hnl)

theorem newline_not_mem_of_literalRule {s t : List Char} (h : literalRule s it = .ok (t, rest))
    (hit : '\n' ∉ it) : '\n' ∉ rest := by
  cases literalRule_ok h
  exact fun hnl => hit (List.mem_append_right _ hnl)

theorem newline_not_mem_of_flagRule {f : List Char ⊕ List Char} (h : flagRule it = .ok (f, rest))
    (hit : '\n' ∉ it) : '\n' ∉ rest := by
  rcases variantRule_ok h with ⟨t, -, ht⟩ | ⟨t, -, ht⟩
  · exact newline_not_mem_of_literalRule ht hit
  · exact newline_not_mem_of_literalRule ht hit

end

/-- The reader finds the mark of an HttpOnly cookie in every line with a `#` in front that it does
not skip. -/
theorem mark_of_head {l it : List Char} {o : Option (List Char)} (hskip : skipped l = false)
    (h : optionalRule (literalRule httpOnlyMark) l = .ok (o, it)) (hhead : l.head? = some '#') :
    o.isSome = true := by
  cases l with
  | nil => cases hhead
  | cons c l =>
    cases hhead
    have hmark : httpOnlyMark.isPrefixOf ('#' :: l) = true := by
      simpa [skipped] using hskip
    obtain ⟨s, hs⟩ := List.isPrefixOf_iff_prefix.1 hmark
    rw [← hs, optionalRule_of_ok (by simp [hs]) (literalRule_append _ s)] at h
    cases h
    rfl

/-- Every cookie that the reader returns is storable, and has the format's fields only. -/
theorem parseNetscapeCookie_ok {l : List Char} {c : Cookie} (hl : '\n' ∉ l)
    (hskip : skipped l = false) (h : parseNetscapeCookie l = .ok c) :
    Storable c ∧ netscape c = c := by
  obtain ⟨f, hf, hc⟩ := bind_ok.1 h
  cases hc
  have hparse := parseAll_ok hf
  simp only [netscapeParser, bind_ok] at hparse
  obtain ⟨⟨o, i₁⟩, h₁, ⟨d, i₂⟩, h₂, ⟨_, i₃⟩, h₃, ⟨tail, i₄⟩, h₄, ⟨_, i₅⟩, h₅, ⟨p, i₆⟩, h₆,
    ⟨_, i₇⟩, h₇, ⟨sec, i₈⟩, h₈, ⟨_, i₉⟩, h₉, ⟨n, i₁₀⟩, h₁₀, ⟨_, i₁₁⟩, h₁₁, ⟨name, i₁₂⟩, h₁₂,
    ⟨_, i₁₃⟩, h₁₃, ⟨value, i₁₄⟩, h₁₄, hf⟩ := hparse
  cases hf
  have n₁ : '\n' ∉ i₁ := by
    rcases optionalRule_ok h₁ with ⟨-, rfl⟩ | ⟨t, -, ht⟩
    · exact hl
    · exact newline_not_mem_of_literalRule ht hl
  obtain ⟨hd, n₂⟩ := isField_of_tokenRule h₂ n₁
  have n₄ := newline_not_mem_of_flagRule h₄ (newline_not_mem_of_delimRule h₃ n₂)
  obtain ⟨hp, n₆⟩ := isField_of_tokenRule h₆ (newline_not_mem_of_delimRule h₅ n₄)
  have n₈ := newline_not_mem_of_flagRule h₈ (newline_not_mem_of_delimRule h₇ n₆)
  have n₉ := newline_not_mem_of_delimRule h₉ n₈
  obtain ⟨hn, hsuf⟩ := unsignedRule_ok h₁₀
  have n₁₁ := newline_not_mem_of_delimRule h₁₁ fun hnl => n₉ (hsuf.subset hnl)
  obtain ⟨hname, n₁₂⟩ := isField_of_tokenRule h₁₂ n₁₁
  obtain ⟨hvalue, -⟩ := isField_of_tokenRule h₁₄ (newline_not_mem_of_delimRule h₁₃ n₁₂)
  have hmark : d.head? = some '#' → o.isSome = true := by
    intro hhead
    rcases optionalRule_ok h₁ with ⟨-, rfl⟩ | ⟨t, rfl, -⟩
    · obtain ⟨rfl, -⟩ := tokenRule_ok h₂
      exact mark_of_head hskip h₁ (by simp [List.head?_append, hhead])
    · rfl
  have hexpires : ∀ t, epochToExpiry n = some t → t = n * second ∧ 0 < n := by
    intro t ht
    rw [epochToExpiry] at ht
    split at ht
    · cases ht
    · cases ht
      exact ⟨rfl, by omega⟩
  refine ⟨⟨⟨d, rfl, hd, hmark⟩, ⟨p, rfl, hp⟩, hname, hvalue, ?_⟩, ?_⟩
  · intro t ht
    obtain ⟨rfl, hpos⟩ := hexpires t ht
    rw [wholeSeconds_mul_second]
    omega
  · cases he : epochToExpiry n with
    | none => simp [netscape, NetscapeFields.toCookie, he]
    | some t =>
      obtain ⟨rfl, -⟩ := hexpires t he
      simp [netscape, NetscapeFields.toCookie, he, wholeSeconds_mul_second]

/-! ## Files -/

/-- A line with the mark of an HttpOnly cookie is not skipped. -/
theorem skipped_mark (s : List Char) : skipped (httpOnlyMark ++ s) = false := by
  have hne : (httpOnlyMark ++ s).isEmpty = false := by
    rw [List.isEmpty_eq_false_iff]
    exact List.append_ne_nil_of_left_ne_nil (by decide +kernel) s
  have hmark : httpOnlyMark.isPrefixOf (httpOnlyMark ++ s) = true :=
    List.isPrefixOf_iff_prefix.2 (List.prefix_append _ _)
  rw [skipped, hne, hmark, Bool.not_true, Bool.and_false, Bool.or_false]

/-- The line of a storable cookie is one line of a file, and not one that is skipped. -/
theorem Storable.line {c : Cookie} {l : List Char} (h : Storable c) (hl : cookieLine c = some l) :
    '\n' ∉ l ∧ skipped l = false := by
  obtain ⟨d, hd, hdf, hmark⟩ := h.domain
  obtain ⟨p, hp, hpf⟩ := h.path
  obtain ⟨n, -, htext, -⟩ := h.exists_epoch
  have hdigits : '\n' ∉ Nat.toDigits 10 n := fun hnl =>
    absurd (Nat.isDigit_of_mem_toDigits (by omega) (by omega) hnl) (by decide)
  have hflag : ∀ b, '\n' ∉ flagText b := by decide
  have hnl : '\n' ∉ (if c.httpOnly then httpOnlyMark else []) := by
    cases c.httpOnly <;> decide
  rw [cookieLine, hd, hp] at hl
  cases hl
  refine ⟨?_, ?_⟩
  · simp [hnl, hdf.newline, hflag, hpf.newline, htext, hdigits, h.name.newline, h.value.newline]
  · obtain ⟨x, d', rfl⟩ := List.exists_cons_of_ne_nil hdf.nonempty
    cases hc : c.httpOnly with
    | true => exact skipped_mark _
    | false =>
      have hx : '#' ≠ x := by
        rintro rfl
        exact absurd (hmark rfl) (by simp [hc])
      simp [skipped, hx]

/-- The lines of storable cookies are read one by one. -/
theorem exists_lines {jar : List Cookie} (hjar : ∀ c ∈ jar, Storable c) :
    ∃ ls, jar.mapM cookieLine = some ls ∧ (∀ l ∈ ls, '\n' ∉ l) ∧
      ∀ jar₀, readLoop ls jar₀ = (jar₀ ++ jar.map netscape, none) := by
  induction jar with
  | nil => exact ⟨[], rfl, fun l hl => absurd hl List.not_mem_nil, fun jar₀ => by simp [readLoop]⟩
  | cons c jar ih =>
    have hc := hjar c List.mem_cons_self
    obtain ⟨ls, hls, hnl, hread⟩ := ih fun o ho => hjar o (List.mem_cons_of_mem _ ho)
    obtain ⟨l, hl, hparse⟩ := parseNetscapeCookie_cookieLine hc
    obtain ⟨hlnl, hskip⟩ := hc.line hl
    refine ⟨l :: ls, by simp [hl, hls], ?_, ?_⟩
    · intro k hk
      rcases List.mem_cons.1 hk with rfl | hk
      · exact hlnl
      · exact hnl k hk
    · intro jar₀
      simp [readLoop, hskip, hparse, hread]

/-- The lines of a file after its header. -/
theorem readJar_fileHeader (jar : List Cookie) (s : List Char) :
    readJar jar (fileHeader ++ s) = readLoop (getlines s) jar := by
  set comment := "# Netscape HTTP Cookie File".toList with hcomment
  have hheader : fileHeader = comment ++ '\n' :: ([] ++ ['\n']) := by decide +kernel
  have hnl : '\n' ∉ comment := by decide +kernel
  have hskip : skipped comment = true := by decide +kernel
  rw [readJar, hheader, List.append_assoc, List.cons_append, List.append_assoc,
    List.singleton_append, getlines_append hnl, getlines_append List.not_mem_nil]
  simp only [readLoop, hskip, if_true]
  rfl

/-- A jar of storable cookies is read back from its file. -/
theorem readJar_writeJar {jar : List Cookie} (hjar : ∀ c ∈ jar, Storable c) :
    ∃ text, writeJar jar = some text ∧ readJar [] text = (jar.map netscape, none) := by
  obtain ⟨ls, hls, hnl, hread⟩ := exists_lines hjar
  refine ⟨_, by rw [writeJar, hls]; rfl, ?_⟩
  rw [readJar_fileHeader, getlines_flatMap hnl, hread, List.nil_append]

/-- Every cookie that is read from a file is storable, and has the format's fields only. -/
theorem mem_readJar {text : List Char} {c : Cookie} (h : c ∈ (readJar [] text).1) :
    Storable c ∧ netscape c = c := by
  rcases mem_readLoop h with hnil | ⟨l, hl, hskip, hparse⟩
  · exact absurd hnil List.not_mem_nil
  · exact parseNetscapeCookie_ok (newline_not_mem_getlines hl) hskip hparse

/-- A file that was read without an error is written and read again without a change. -/
theorem reload_stable (t : List Char) (cs : List Cookie) (h : readJar [] t = (cs, none)) :
    ∃ text, writeJar cs = some text ∧ readJar [] text = (cs, none) := by
  have hmem : ∀ c ∈ cs, Storable c ∧ netscape c = c := by
    intro c hc
    apply mem_readJar
    rw [h]
    exact hc
  obtain ⟨text, hwrite, hread⟩ := readJar_writeJar fun c hc => (hmem c hc).1
  refine ⟨text, hwrite, ?_⟩
  rw [hread, List.map_congr_left fun c hc => (hmem c hc).2, List.map_id']

/-- A file with a comment, a blank line and an HttpOnly cookie. -/
def mixedFile : List Char :=
  "# from bank.com\n\n#HttpOnly_bank.com\tFALSE\t/\tTRUE\t1\tid\t1\n".toList ++
    "bank.com\tTRUE\t/a\tFALSE\t0\tb\t2".toList

/-- The cookies of that file. -/
def mixedCookies : List Cookie :=
  [{ name := "id".toList, value := some "1".toList, expires := some second,
     domain := some "bank.com".toList, path := some ['/'], secure := true, httpOnly := true },
   { name := "b".toList, value := some "2".toList, domain := some "bank.com".toList,
     path := some "/a".toList, tailmatch := true }]

theorem mixedFile_reload_stable : readJar [] mixedFile = (mixedCookies, none) ∧
    ∃ text, writeJar mixedCookies = some text ∧ readJar [] text = (mixedCookies, none) := by
  have h : readJar [] mixedFile = (mixedCookies, none) := by decide +kernel
  exact ⟨h, reload_stable mixedFile mixedCookies h⟩

/-! ## The jars of servers -/

/-- A jar is saved and loaded: the reader does not throw and returns the cookies in their order, as
far as a file has their fields. -/
def Survives (jar : List Cookie) : Prop :=
  ∃ text cs, writeJar jar = some text ∧ readJar [] text = (cs, none) ∧
    cs.map netscape = jar.map netscape

theorem netscape_netscape (c : Cookie) : netscape (netscape c) = netscape c := by
  cases h : c.expires with
  | none => simp [netscape, h]
  | some t => simp [netscape, h, wholeSeconds_mul_second]

/-- A jar survives exactly if its cookies are storable. -/
theorem survives_iff {jar : List Cookie} : Survives jar ↔ ∀ c ∈ jar, Storable c := by
  refine ⟨?_, fun hjar => ?_⟩
  · rintro ⟨text, cs, -, hread, hmap⟩ c hc
    have hc : netscape c ∈ cs.map netscape := hmap ▸ List.mem_map_of_mem hc
    obtain ⟨c', hc', hsame⟩ := List.mem_map.1 hc
    have hstor : Storable c' := by
      refine (@mem_readJar text c' ?_).1
      rw [hread]
      exact hc'
    exact storable_netscape.1 (hsame ▸ storable_netscape.2 hstor)
  · obtain ⟨text, hwrite, hread⟩ := readJar_writeJar hjar
    refine ⟨text, _, hwrite, hread, ?_⟩
    rw [List.map_map]
    exact List.map_congr_left fun c _ => netscape_netscape c

/-- What a server can get wrong about a cookie for a file: it has no value, its domain is empty or
starts like a comment, its domain or path has a tab or a newline, or its expiry is not a positive
number of seconds of 32 bits. -/
structure Kept (c : Cookie) : Prop where
  value : c.value ≠ none
  domain : ∀ d, c.domain = some d →
    d ≠ [] ∧ '\t' ∉ d ∧ '\n' ∉ d ∧ (d.head? = some '#' → c.httpOnly = true)
  path : ∀ p, c.path = some p → '\t' ∉ p ∧ '\n' ∉ p
  expires : ∀ t, c.expires = some t → 0 < wholeSeconds t ∧ wholeSeconds t ≤ uint32Max

/-- A token of a `Set-Cookie` value is a field of a line. -/
theorem isField_of_chars (cs : Char → Bool) (htab : cs '\t' = false) (hnl : cs '\n' = false)
    {t : List Char} (ht : t ≠ [] ∧ ∀ x ∈ t, cs x = true) : IsField t := by
  refine ⟨ht.1, ?_, ?_⟩
  · exact fun h => absurd (htab.symm.trans (ht.2 _ h)) Bool.false_ne_true
  · exact fun h => absurd (hnl.symm.trans (ht.2 _ h)) Bool.false_ne_true

theorem defaultPath_ne_nil (url : Url) : defaultPath url ≠ [] := by
  rw [defaultPath]
  split
  · exact List.cons_ne_nil _ _
  · next h =>
    intro hnil
    exact h (by rw [hnil]; rfl)

/-- The name of a server's cookie, its value if there is one, and its path not being empty are no
trouble. -/
theorem storable_stored_iff {url : Url} {c : Cookie} (hc : Tokens c) :
    Storable (stored url c) ↔ Kept (stored url c) := by
  have hname : IsField (stored url c).name := isField_of_chars nameChars rfl rfl hc.name
  refine ⟨fun h => ?_, fun h => ?_⟩
  · obtain ⟨d, hd, hdf, hmark⟩ := h.domain
    obtain ⟨p, hp, hpf⟩ := h.path
    refine ⟨?_, ?_, ?_, h.expires⟩
    · intro hnone
      refine h.value.nonempty ?_
      rw [hnone]
      rfl
    · intro d' hd'
      cases hd.symm.trans hd'
      exact ⟨hdf.nonempty, hdf.tab, hdf.newline, hmark⟩
    · intro p' hp'
      cases hp.symm.trans hp'
      exact ⟨hpf.tab, hpf.newline⟩
  · obtain ⟨hne, htab, hnl, hmark⟩ := h.domain _ rfl
    obtain ⟨hptab, hpnl⟩ := h.path _ rfl
    refine ⟨⟨_, rfl, ⟨hne, htab, hnl⟩, hmark⟩, ⟨_, rfl, ⟨?_, hptab, hpnl⟩⟩, hname, ?_, h.expires⟩
    · cases hp : c.path with
      | none => exact defaultPath_ne_nil url
      | some p => exact hc.path p hp
    · cases hv : c.value with
      | none => exact absurd hv h.value
      | some v =>
        have hv' : (stored url c).value = some v := hv
        rw [hv']
        exact isField_of_chars valueChars rfl rfl (hc.value v hv)

/-- A jar of servers' cookies is saved and loaded without a loss exactly if each of its cookies has
a value, a domain that is not empty and no comment, no tabs and newlines in domain and path, and an
expiry that the reader accepts. -/
theorem survives_iff_kept (psl : Psl) (ops : List JarOp) (hops : ∀ op ∈ ops, op.FromServer)
    (jar : List Cookie) (hrun : runJar psl ops = some jar) :
    Survives jar ↔ ∀ c ∈ jar, Kept c := by
  rw [survives_iff]
  refine forall₂_congr fun c hc => ?_
  obtain ⟨url, c₀, now, hop, hstore, -⟩ := (mem_runJar hops hrun).2 c hc
  obtain ⟨clock, sv, hparse⟩ := hops _ hop
  obtain ⟨-, -, rfl⟩ := toStore_eq_some_iff.1 hstore
  exact storable_stored_iff (parseCookie_ok hparse).1

theorem hostRun_survives : Survives [stored bank hostCookie] := by
  refine (survives_iff_kept none hostRun hostRun_fromServer _ (by decide +kernel)).2 ?_
  intro c hc
  cases List.mem_singleton.1 hc
  refine ⟨by decide, ?_, ?_, ?_⟩
  · intro d heq
    cases heq
    decide +kernel
  · intro p heq
    cases heq
    decide +kernel
  · intro t heq
    cases heq

/-- The cookie of `Set-Cookie: a=`. -/
def emptyValue : Cookie where
  name := ['a']

/-- A cookie without a value is saved with an empty field, which the reader throws at. -/
theorem emptyValue_not_survives :
    parseCookie ⟨0, fun _ => 0⟩ "a=".toList = .ok emptyValue ∧
    runJar none [.add bank emptyValue 0] = some [stored bank emptyValue] ∧
    (writeJar [stored bank emptyValue]).map (readJar []) = some ([], some .needMore) ∧
    ¬ Survives [stored bank emptyValue] := by
  have hread :
      (writeJar [stored bank emptyValue]).map (readJar []) = some ([], some .needMore) := by
    decide +kernel
  refine ⟨by decide +kernel, by decide +kernel, hread, ?_⟩
  rintro ⟨text, cs, hwrite, hok, -⟩
  rw [hwrite, Option.map_some, hok] at hread
  cases hread

end Beast2.Burl
