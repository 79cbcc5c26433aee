import Mathlib.Data.List.Pairwise
import Beast2.Burl.CookieJar

/-!
# The order of the attributes of a cookie

The attributes of a Set-Cookie value are a set to whoever writes them: Max-Age takes precedence over
Expires wherever the two stand, and the order of the others says nothing. `parse_cookie` applies
them one after the other. Each attribute has one effect on the cookie, and the effects of two
attributes commute unless both set the expiry; Max-Age and Expires do, and the later one wins. So
the order is free exactly if the value is refused whatever the order, or its Max-Age and its Expires
agree (`orderFree_iff`).
-/

namespace Beast2.Burl

open Grammar

/-- An attribute: its name and its value. -/
abbrev Attr := List Char × Option (List Char)

/-! ## The effect of an attribute -/

/-- The attributes that `parse_cookie` knows. -/
inductive AttrKind where
  | expires
  | maxAge
  | domain
  | path
  | sameSite
  | partitioned
  | secure
  | httpOnly
  | other
deriving DecidableEq, Repr

/-- The name of an attribute that `parse_cookie` knows. -/
def AttrKind.name : AttrKind → List Char
  | .expires => "Expires".toList
  | .maxAge => "Max-Age".toList
  | .domain => "Domain".toList
  | .path => "Path".toList
  | .sameSite => "SameSite".toList
  | .partitioned => "Partitioned".toList
  | .secure => "Secure".toList
  | .httpOnly => "HttpOnly".toList
  | .other => []

/-- Which attribute a name is that of. Reference: `cookie.cpp:203-258`. -/
def attrKind (name : List Char) : AttrKind :=
  if ciIsEqual name "Expires".toList then .expires
  else if ciIsEqual name "Max-Age".toList then .maxAge
  else if ciIsEqual name "Domain".toList then .domain
  else if ciIsEqual name "Path".toList then .path
  else if ciIsEqual name "SameSite".toList then .sameSite
  else if ciIsEqual name "Partitioned".toList then .partitioned
  else if ciIsEqual name "Secure".toList then .secure
  else if ciIsEqual name "HttpOnly".toList then .httpOnly
  else .other

/-- What an attribute does to a cookie. -/
inductive AttrEffect where
  | expires (t : Int)
  | domain (d : List Char)
  | path (p : List Char)
  | sameSite (s : SameSite)
  | partitioned
  | secure
  | httpOnly
  | nothing
deriving DecidableEq, Repr

/-- The cookie after an effect. -/
def AttrEffect.apply (e : AttrEffect) (c : Cookie) : Cookie :=
  match e with
  | .expires t => { c with expires := some t }
  | .domain d => { c with domain := some d }
  | .path p => { c with path := some p }
  | .sameSite s => { c with sameSite := some s }
  | .partitioned => { c with partitioned := true }
  | .secure => { c with secure := true }
  | .httpOnly => { c with httpOnly := true }
  | .nothing => c

/-- What a SameSite value says. -/
def sameSiteOf (v : List Char) : Option SameSite :=
  if ciIsEqual v "Strict".toList then some .strict
  else if ciIsEqual v "Lax".toList then some .lax
  else if ciIsEqual v "None".toList then some .none
  else none

/-- The effect of an attribute, `none` if it is refused. -/
def attrEffect (clock : Clock) (a : Attr) : Option AttrEffect :=
  match attrKind a.1 with
  | .expires => a.2.map fun v => .expires (clock.parseDate v)
  | .maxAge => a.2.bind fun v =>
    (stoll v).toOption.map fun n => .expires (clock.now + n * second)
  | .domain => a.2.map .domain
  | .path => a.2.map .path
  | .sameSite => (sameSiteOf (a.2.getD [])).map .sameSite
  | .partitioned => some .partitioned
  | .secure => some .secure
  | .httpOnly => some .httpOnly
  | .other => some .nothing

/-- An attribute is applied by its effect. -/
theorem toOption_applyAttr (clock : Clock) (c : Cookie) (a : Attr) :
    (applyAttr clock c a).toOption = (attrEffect clock a).map (·.apply c) := by
  obtain ⟨name, value⟩ := a
  unfold applyAttr attrEffect
  dsimp only
  fun_cases attrKind name with
  | case1 hexpires =>
    rw [if_pos hexpires]
    cases value <;> rfl
  | case2 h₁ hmaxAge =>
    rw [if_neg h₁, if_pos hmaxAge]
    cases value with
    | none => rfl
    | some v =>
      cases hn : stoll v <;> simp [hn, bind, Except.bind, Except.toOption, AttrEffect.apply]
  | case3 h₁ h₂ hdomain =>
    rw [if_neg h₁, if_neg h₂, if_pos hdomain]
    cases value <;> rfl
  | case4 h₁ h₂ h₃ hpath =>
    rw [if_neg h₁, if_neg h₂, if_neg h₃, if_pos hpath]
    cases value <;> rfl
  | case5 h₁ h₂ h₃ h₄ hsameSite =>
    rw [if_neg h₁, if_neg h₂, if_neg h₃, if_neg h₄, if_pos hsameSite]
    unfold sameSiteOf
    split
    · rfl
    split
    · rfl
    split <;> rfl
  | case6 h₁ h₂ h₃ h₄ h₅ hpartitioned =>
    rw [if_neg h₁, if_neg h₂, if_neg h₃, if_neg h₄, if_neg h₅, if_pos hpartitioned]
    rfl
  | case7 h₁ h₂ h₃ h₄ h₅ h₆ hsecure =>
    rw [if_neg h₁, if_neg h₂, if_neg h₃, if_neg h₄, if_neg h₅, if_neg h₆, if_pos hsecure]
    rfl
  | case8 h₁ h₂ h₃ h₄ h₅ h₆ h₇ hhttpOnly =>
    rw [if_neg h₁, if_neg h₂, if_neg h₃, if_neg h₄, if_neg h₅, if_neg h₆, if_neg h₇,
      if_pos hhttpOnly]
    rfl
  | case9 h₁ h₂ h₃ h₄ h₅ h₆ h₇ h₈ =>
    rw [if_neg h₁, if_neg h₂, if_neg h₃, if_neg h₄, if_neg h₅, if_neg h₆, if_neg h₇, if_neg h₈]
    rfl

/-- An attribute that `parse_cookie` knows has its name up to case. -/
theorem ciIsEqual_name {n : List Char} (h : attrKind n ≠ .other) :
    ciIsEqual n (attrKind n).name = true := by
  revert h
  fun_cases attrKind n with
  | case1 hname => exact fun _ => hname
  | case2 _ hname => exact fun _ => hname
  | case3 _ _ hname => exact fun _ => hname
  | case4 _ _ _ hname => exact fun _ => hname
  | case5 _ _ _ _ hname => exact fun _ => hname
  | case6 _ _ _ _ _ hname => exact fun _ => hname
  | case7 _ _ _ _ _ _ hname => exact fun _ => hname
  | case8 _ _ _ _ _ _ _ hname => exact fun _ => hname
  | case9 => exact fun h => absurd rfl h

/-- Two attributes of a kind have the same name up to case. -/
theorem ciIsEqual_of_attrKind {m n : List Char} (h : attrKind m = attrKind n)
    (hother : attrKind m ≠ .other) : ciIsEqual m n = true := by
  have hm := ciIsEqual_name hother
  have hn := ciIsEqual_name (h ▸ hother : attrKind n ≠ .other)
  rw [← h] at hn
  simp only [ciIsEqual, beq_iff_eq] at hm hn ⊢
  exact hm.trans hn.symm

/-- The field of a cookie that an effect sets. -/
def AttrEffect.field : AttrEffect → AttrKind
  | .expires _ => .expires
  | .domain _ => .domain
  | .path _ => .path
  | .sameSite _ => .sameSite
  | .partitioned => .partitioned
  | .secure => .secure
  | .httpOnly => .httpOnly
  | .nothing => .other

theorem AttrEffect.exists_of_field_expires {e : AttrEffect} (h : e.field = .expires) :
    ∃ t, e = .expires t := by
  cases e with
  | expires t => exact ⟨t, rfl⟩
  | _ => cases h

theorem AttrEffect.eq_nothing {e : AttrEffect} (h : e.field = .other) : e = .nothing := by
  cases e with
  | nothing => rfl
  | _ => cases h

/-- An effect sets the field of its attribute; Max-Age sets the expiry as Expires does. -/
theorem field_of_attrEffect {clock : Clock} {a : Attr} {e : AttrEffect}
    (h : attrEffect clock a = some e) :
    e.field = if attrKind a.1 = .maxAge then .expires else attrKind a.1 := by
  obtain ⟨name, value⟩ := a
  unfold attrEffect at h
  dsimp only at h ⊢
  cases hk : attrKind name with
  | expires | domain | path =>
    rw [hk] at h
    obtain ⟨v, -, rfl⟩ := Option.map_eq_some_iff.1 h
    rfl
  | sameSite =>
    rw [hk] at h
    obtain ⟨v, -, rfl⟩ := Option.map_eq_some_iff.1 h
    rfl
  | maxAge =>
    rw [hk] at h
    obtain ⟨v, -, h⟩ := Option.bind_eq_some_iff.1 h
    obtain ⟨n, -, rfl⟩ := Option.map_eq_some_iff.1 h
    rfl
  | partitioned | secure | httpOnly | other =>
    rw [hk] at h
    cases h
    rfl

/-- Effects on different fields commute. -/
theorem AttrEffect.apply_comm {e e' : AttrEffect} (h : e.field ≠ e'.field) (c : Cookie) :
    e'.apply (e.apply c) = e.apply (e'.apply c) := by
  cases e <;> cases e' <;> first | rfl | exact absurd rfl h

/-! ## The fold over the attributes -/

theorem toOption_bind {ε α β : Type} (x : Except ε α) (f : α → Except ε β) :
    (x >>= f).toOption = x.toOption.bind fun a => (f a).toOption := by
  cases x <;> rfl

/-- The cookie after an attribute that is not refused. -/
def attrStep (clock : Clock) (c : Cookie) (a : Attr) : Cookie :=
  match attrEffect clock a with
  | none => c
  | some e => e.apply c

/-- The attributes applied one after the other: none of them may be refused. -/
theorem toOption_foldlM (clock : Clock) (attrs : List Attr) (c : Cookie) :
    (attrs.foldlM (applyAttr clock) c).toOption =
      if ∀ a ∈ attrs, (attrEffect clock a).isSome then some (attrs.foldl (attrStep clock) c)
      else none := by
  induction attrs generalizing c with
  | nil => simp [pure, Except.pure, Except.toOption]
  | cons a attrs ih =>
    rw [List.foldlM_cons, toOption_bind, toOption_applyAttr]
    cases ha : attrEffect clock a with
    | none => simp [ha]
    | some e =>
      have hstep : attrStep clock c a = e.apply c := by rw [attrStep, ha]
      have hcons : (∀ b ∈ a :: attrs, (attrEffect clock b).isSome) ↔
          ∀ b ∈ attrs, (attrEffect clock b).isSome := by
        rw [List.forall_mem_cons, ha]
        exact and_iff_right rfl
      rw [Option.map_some, Option.bind_some, ih, List.foldl_cons, hstep]
      by_cases hall : ∀ b ∈ attrs, (attrEffect clock b).isSome
      · rw [if_pos hall, if_pos (hcons.2 hall)]
      · rw [if_neg hall, if_neg (mt hcons.1 hall)]

/-- The attributes of a cookie have different names up to case. -/
def DifferentNames (attrs : List Attr) : Prop :=
  attrs.Pairwise fun a b => ciIsEqual a.1 b.1 = false

/-- All attributes that set the expiry set the same one. -/
def ExpiriesAgree (clock : Clock) (attrs : List Attr) : Prop :=
  ∀ a ∈ attrs, ∀ b ∈ attrs, ∀ t t', attrEffect clock a = some (.expires t) →
    attrEffect clock b = some (.expires t') → t = t'

/-- Two attributes of a list with different names are of different kinds. -/
theorem DifferentNames.kind_ne {attrs : List Attr} (h : DifferentNames attrs) {a b : Attr}
    (ha : a ∈ attrs) (hb : b ∈ attrs) (hne : a ≠ b) (hother : attrKind a.1 ≠ .other) :
    attrKind a.1 ≠ attrKind b.1 := by
  intro hkind
  have : Std.Symm fun a b : Attr => ciIsEqual a.1 b.1 = false := by
    refine ⟨fun a b hab => ?_⟩
    rw [ciIsEqual, Bool.beq_comm]
    exact hab
  have hdiff := h.forall ha hb hne
  rw [ciIsEqual_of_attrKind hkind hother] at hdiff
  cases hdiff

/-- If the expiries agree, two attributes that set the same field set it to the same. -/
theorem ExpiriesAgree.eq_of_field {clock : Clock} {attrs : List Attr}
    (hagree : ExpiriesAgree clock attrs) (hnames : DifferentNames attrs) {a b : Attr}
    (ha : a ∈ attrs) (hb : b ∈ attrs) (hab : a ≠ b) {e e' : AttrEffect}
    (hea : attrEffect clock a = some e) (heb : attrEffect clock b = some e')
    (hfield : e.field = e'.field) : e = e' := by
  by_cases hexpires : e.field = .expires
  · obtain ⟨t, rfl⟩ := AttrEffect.exists_of_field_expires hexpires
    obtain ⟨t', rfl⟩ := AttrEffect.exists_of_field_expires (hfield.symm.trans hexpires)
    rw [hagree a ha b hb t t' hea heb]
  by_cases hother : e.field = .other
  · have hother' : e'.field = .other := hfield.symm.trans hother
    rw [AttrEffect.eq_nothing hother, AttrEffect.eq_nothing hother']
  -- any other field is set by one attribute only
  have hkinda := field_of_attrEffect hea
  have hkindb := field_of_attrEffect heb
  have hmaxa : attrKind a.1 ≠ .maxAge := fun h => hexpires (by rw [hkinda, if_pos h])
  have hmaxb : attrKind b.1 ≠ .maxAge := fun h => hexpires (by rw [hfield, hkindb, if_pos h])
  rw [if_neg hmaxa] at hkinda
  rw [if_neg hmaxb] at hkindb
  refine absurd ?_ (hnames.kind_ne ha hb hab (hkinda ▸ hother))
  rw [← hkinda, ← hkindb, hfield]

/-- If the expiries agree, two attributes can change places. -/
theorem attrStep_comm {clock : Clock} {attrs : List Attr} (hnames : DifferentNames attrs)
    (hagree : ExpiriesAgree clock attrs) {a b : Attr} (ha : a ∈ attrs) (hb : b ∈ attrs)
    (c : Cookie) :
    attrStep clock (attrStep clock c a) b = attrStep clock (attrStep clock c b) a := by
  by_cases hab : a = b
  · rw [hab]
  unfold attrStep
  cases hea : attrEffect clock a with
  | none => rfl
  | some e =>
    cases heb : attrEffect clock b with
    | none => rfl
    | some e' =>
      show e'.apply (e.apply c) = e.apply (e'.apply c)
      by_cases hfield : e.field = e'.field
      · rw [hagree.eq_of_field hnames ha hb hab hea heb hfield]
      · exact AttrEffect.apply_comm hfield c

/-! ## The name prefixes -/

/-- The attributes do not meet the requirements of a name prefix. -/
def PrefixMissed (name : List Char) (attrs : List Attr) : Prop :=
  "__Secure-".toList <+: name ∧ (¬ ∃ a ∈ attrs, attrKind a.1 = .secure) ∨
    "__Host-".toList <+: name ∧ ((¬ ∃ a ∈ attrs, attrKind a.1 = .secure) ∨
      (¬ ∃ a ∈ attrs, attrKind a.1 = .path ∧ a.2 = some ['/']) ∨
      ∃ a ∈ attrs, attrKind a.1 = .domain)

/-- What an attribute that is not refused does to the fields that the prefixes are about. -/
theorem attrStep_fields {clock : Clock} {a : Attr} (h : (attrEffect clock a).isSome) (c : Cookie) :
    (attrStep clock c a).name = c.name ∧
    (attrStep clock c a).secure = (c.secure || attrKind a.1 == .secure) ∧
    (attrStep clock c a).path = (if attrKind a.1 = .path then a.2 else c.path) ∧
    (attrStep clock c a).domain.isSome = (c.domain.isSome || attrKind a.1 == .domain) := by
  obtain ⟨name, value⟩ := a
  unfold attrStep
  unfold attrEffect at h ⊢
  dsimp only at h ⊢
  cases hk : attrKind name with
  | expires | domain | path =>
    rw [hk] at h
    cases value with
    | none => cases h
    | some v => simp [AttrEffect.apply]
  | sameSite =>
    rw [hk] at h
    cases hs : sameSiteOf (value.getD []) with
    | none => simp [hs] at h
    | some s => simp [AttrEffect.apply]
  | maxAge =>
    rw [hk] at h
    cases value with
    | none => cases h
    | some v =>
      cases hn : (stoll v).toOption with
      | none => simp [hn] at h
      | some n => simp [AttrEffect.apply, hn]
  | partitioned | secure | httpOnly | other => simp [AttrEffect.apply]

section

variable {clock : Clock} {attrs : List Attr}

/-- What attributes of which none is refused do to the name, the Secure flag and the domain. -/
theorem foldl_attrStep_fields (hall : ∀ a ∈ attrs, (attrEffect clock a).isSome) (c : Cookie) :
    (attrs.foldl (attrStep clock) c).name = c.name ∧
    (attrs.foldl (attrStep clock) c).secure =
      (c.secure || attrs.any fun a => attrKind a.1 == .secure) ∧
    (attrs.foldl (attrStep clock) c).domain.isSome =
      (c.domain.isSome || attrs.any fun a => attrKind a.1 == .domain) := by
  induction attrs generalizing c with
  | nil => simp
  | cons a attrs ih =>
    obtain ⟨ha, hattrs⟩ := List.forall_mem_cons.1 hall
    obtain ⟨hname, hsecure, -, hdomain⟩ := attrStep_fields ha c
    obtain ⟨ihname, ihsecure, ihdomain⟩ := ih hattrs (attrStep clock c a)
    rw [List.foldl_cons, List.any_cons, List.any_cons, ← Bool.or_assoc, ← Bool.or_assoc]
    exact ⟨ihname.trans hname, by rw [ihsecure, hsecure], by rw [ihdomain, hdomain]⟩

/-- Attributes with different names leave the path of the one that is a Path, if any. -/
theorem foldl_attrStep_path (hall : ∀ a ∈ attrs, (attrEffect clock a).isSome)
    (hnames : DifferentNames attrs) (c : Cookie) :
    (attrs.foldl (attrStep clock) c).path =
      (attrs.find? fun a => attrKind a.1 == .path).elim c.path (·.2) := by
  induction attrs generalizing c with
  | nil => rfl
  | cons a attrs ih =>
    obtain ⟨ha, hattrs⟩ := List.forall_mem_cons.1 hall
    obtain ⟨-, -, hpath, -⟩ := attrStep_fields ha c
    rw [List.foldl_cons, ih hattrs hnames.of_cons, hpath]
    by_cases hkind : attrKind a.1 = .path
    · -- no attribute behind `a` is a Path
      have hnone : attrs.find? (fun b => attrKind b.1 == .path) = none := by
        refine List.find?_eq_none.2 fun b hb hbkind => ?_
        have hdiff := List.rel_of_pairwise_cons hnames hb
        have hsame : attrKind a.1 = attrKind b.1 := hkind.trans (beq_iff_eq.1 hbkind).symm
        rw [ciIsEqual_of_attrKind hsame (by rw [hkind]; decide)] at hdiff
        cases hdiff
      simp [hnone, hkind]
    · simp [hkind]

theorem foldl_attrStep_path_eq_slash (hall : ∀ a ∈ attrs, (attrEffect clock a).isSome)
    (hnames : DifferentNames attrs) {c : Cookie} (hc : c.path = none) :
    (attrs.foldl (attrStep clock) c).path = some ['/'] ↔
      ∃ a ∈ attrs, attrKind a.1 = .path ∧ a.2 = some ['/'] := by
  rw [foldl_attrStep_path hall hnames, hc]
  cases hfind : attrs.find? fun a => attrKind a.1 == .path with
  | none =>
    have hnone := List.find?_eq_none.1 hfind
    refine iff_of_false nofun ?_
    rintro ⟨a, ha, hkind, -⟩
    exact hnone a ha (beq_iff_eq.2 hkind)
  | some a =>
    have ha := List.mem_of_find?_eq_some hfind
    have hkind : attrKind a.1 = .path := by
      have hbeq : (attrKind a.1 == .path) = true :=
        List.find?_some (p := fun a : Attr => attrKind a.1 == .path) hfind
      exact beq_iff_eq.1 hbeq
    constructor
    · intro hslash
      exact ⟨a, ha, hkind, hslash⟩
    · rintro ⟨b, hb, hbkind, hslash⟩
      by_cases hab : a = b
      · rw [hab]
        exact hslash
      · exact absurd (hkind.trans hbkind.symm) (hnames.kind_ne ha hb hab (by rw [hkind]; decide))

/-- The requirements on the name prefixes are met unless the attributes miss one. -/
theorem prefixesOk_foldl (hall : ∀ a ∈ attrs, (attrEffect clock a).isSome)
    (hnames : DifferentNames attrs) (name : List Char) (value : Option (List Char)) :
    prefixesOk (attrs.foldl (attrStep clock) { name, value }) = true ↔
      ¬ PrefixMissed name attrs := by
  obtain ⟨hname, hsecure, hdomain⟩ := foldl_attrStep_fields hall { name, value }
  have hpath := foldl_attrStep_path_eq_slash hall hnames (c := { name, value }) rfl
  have hdomain' : (attrs.foldl (attrStep clock) { name, value }).domain.isNone = true ↔
      ¬ ∃ a ∈ attrs, attrKind a.1 = .domain := by
    rw [← Option.not_isSome, Bool.not_eq_true', ← Bool.not_eq_true, hdomain]
    simp
  have hsecure' : (attrs.foldl (attrStep clock) { name, value }).secure = true ↔
      ∃ a ∈ attrs, attrKind a.1 = .secure := by
    rw [hsecure]
    simp
  unfold prefixesOk PrefixMissed
  rw [hname]
  generalize "__Secure-".toList = pre
  generalize "__Host-".toList = pre'
  rw [Bool.and_eq_true, Bool.or_eq_true, Bool.or_eq_true, Bool.and_eq_true, Bool.and_eq_true,
    hsecure', hdomain', beq_iff_eq, hpath, Bool.not_eq_true', ← Bool.not_eq_true,
    List.isPrefixOf_iff_prefix, Bool.not_eq_true', ← Bool.not_eq_true, List.isPrefixOf_iff_prefix]
  generalize (∃ a ∈ attrs, attrKind a.1 = .secure) = secure
  generalize (∃ a ∈ attrs, attrKind a.1 = .path ∧ a.2 = some ['/']) = slash
  generalize (∃ a ∈ attrs, attrKind a.1 = .domain) = domain
  clear * -
  tauto

end

/-! ## Texts of permuted attributes -/

/-- An attribute as a server writes it. -/
def attrText (a : Attr) : List Char :=
  ';' :: ' ' :: a.1 ++ a.2.elim [] ('=' :: ·)

/-- A `Set-Cookie` value as a server writes it. -/
def cookieText (name : List Char) (value : Option (List Char)) (attrs : List Attr) : List Char :=
  name ++ '=' :: (value.getD [] ++ attrs.flatMap attrText)

/-- Nothing or a further attribute stands behind an attribute. -/
theorem stopsAt_attrTexts {cs : Char → Bool} (hcs : cs ';' = false) (attrs : List Attr) :
    StopsAt cs (attrs.flatMap attrText) := by
  cases attrs with
  | nil => nofun
  | cons a attrs =>
    intro c heq
    cases heq
    exact hcs

/-- The value of an attribute is read from its text. -/
theorem attrValue_text {value : Option (List Char)}
    (hvalue : ∀ v, value = some v → v ≠ [] ∧ ∀ x ∈ v, attrChars x = true) {rest : List Char}
    (hrest : StopsAt attrChars rest) :
    ∃ o it, optionalRule (delimRule (· == '=')) (value.elim [] ('=' :: ·) ++ rest) = .ok (o, it) ∧
      optionalRule (tokenRule attrChars) it = .ok (value, rest) := by
  have htoken := optionalRule_tokenRule_append hvalue hrest
  cases value with
  | none =>
    refine ⟨none, rest, ?_, htoken⟩
    cases rest with
    | nil => rfl
    | cons c rest =>
      have hc : attrChars c = false := hrest c rfl
      have heq : c ≠ '=' := by
        rintro rfl
        cases hc
      simp [optionalRule, delimRule, heq]
  | some v => exact ⟨some '=', v ++ rest, optionalRule_of_ok (List.cons_ne_nil _ _) rfl, htoken⟩

/-- An attribute is read from its text. -/
theorem attrRule_attrText {a : Attr}
    (hname : a.1 ≠ [] ∧ ∀ x ∈ a.1, (attrChars x && x != '=') = true)
    (hvalue : ∀ v, a.2 = some v → v ≠ [] ∧ ∀ x ∈ v, attrChars x = true) {rest : List Char}
    (hrest : StopsAt attrChars rest) : attrRule (attrText a ++ rest) = .ok (a, rest) := by
  obtain ⟨name, value⟩ := a
  have hstop : StopsAt (fun x => attrChars x && x != '=') (value.elim [] ('=' :: ·) ++ rest) := by
    cases value with
    | none =>
      intro c hc
      show (attrChars c && c != '=') = false
      rw [hrest c hc, Bool.false_and]
    | some v =>
      intro c heq
      cases heq
      rfl
  have htoken := tokenRule_append hname.1 hname.2 hstop
  obtain ⟨o, it, heq, hval⟩ := attrValue_text hvalue hrest
  have htext : attrText (name, value) ++ rest =
      ';' :: ' ' :: (name ++ (value.elim [] ('=' :: ·) ++ rest)) := by simp [attrText]
  rw [htext]
  simp only [attrRule, bind_ok]
  exact ⟨(';', _), rfl, (some ' ', _), rfl, _, htoken, _, heq, _, hval, rfl⟩

/-- A list of attributes is read from its text. -/
theorem rangeLoop_attrTexts {attrs : List Attr}
    (hattrs : ∀ a ∈ attrs, (a.1 ≠ [] ∧ ∀ x ∈ a.1, (attrChars x && x != '=') = true) ∧
      ∀ v, a.2 = some v → v ≠ [] ∧ ∀ x ∈ v, attrChars x = true) {n : Nat} (hn : attrs.length ≤ n) :
    rangeLoop attrRule n (attrs.flatMap attrText) = (attrs, []) := by
  induction attrs generalizing n with
  | nil => cases n <;> rfl
  | cons a attrs ih =>
    obtain ⟨⟨hname, hvalue⟩, htail⟩ := List.forall_mem_cons.1 hattrs
    have hstop : StopsAt attrChars (attrs.flatMap attrText) := stopsAt_attrTexts rfl attrs
    cases n with
    | zero => cases hn
    | succ n =>
      have ih' := ih htail (Nat.le_of_succ_le_succ hn)
      rw [List.flatMap_cons, rangeLoop, attrRule_attrText hname hvalue hstop]
      simp only [ih']

theorem length_le_attrTexts (attrs : List Attr) :
    attrs.length ≤ (attrs.flatMap attrText).length := by
  induction attrs with
  | nil => simp
  | cons a attrs ih =>
    rw [List.flatMap_cons, List.length_append, List.length_cons, attrText, List.cons_append,
      List.length_cons]
    omega

/-- If a text has a cookie's name, its value and attributes, there is one with the attributes in any
order. -/
theorem parseAll_cookieText {sv name : List Char} {value : Option (List Char)}
    {attrs attrs' : List Attr} (h : cookieParser.parseAll sv = .ok (name, value, attrs))
    (hperm : attrs'.Perm attrs) :
    cookieParser.parseAll (cookieText name value attrs') = .ok (name, value, attrs') := by
  obtain ⟨hname, hvalue, hattrs⟩ := cookieParser_ok h
  have hattrs' := fun a ha => hattrs a (hperm.subset ha)
  have hloop := rangeLoop_attrTexts hattrs' (length_le_attrTexts attrs')
  have htoken : tokenRule nameChars (cookieText name value attrs') =
      .ok (name, '=' :: (value.getD [] ++ attrs'.flatMap attrText)) := by
    refine tokenRule_append hname.1 hname.2 ?_
    intro c heq
    cases heq
    rfl
  have hval := optionalRule_tokenRule_append hvalue (stopsAt_attrTexts rfl attrs')
  have hparse : cookieParser (cookieText name value attrs') = .ok ((name, value, attrs'), []) := by
    simp only [cookieParser, bind_ok]
    exact ⟨_, htoken, ('=', _), rfl, _, hval, _, congrArg Except.ok hloop, rfl⟩
  rw [Rule.parseAll, hparse]

/-! ## When the order is free -/

/-- An attribute for which `parse_cookie` refuses the whole value: one without the value it needs, a
Max-Age that is not a number or an unknown SameSite. -/
def Refused (a : Attr) : Prop :=
  attrKind a.1 ∈ [.expires, .maxAge, .domain, .path] ∧ a.2 = none ∨
    attrKind a.1 = .maxAge ∧ (∃ v, a.2 = some v ∧ ∀ n, stoll v ≠ .ok n) ∨
    attrKind a.1 = .sameSite ∧ sameSiteOf (a.2.getD []) = none

/-- The Max-Age of a list of attributes, if any, gives the time that its Expires gives, if any. -/
def MaxAgeAgrees (clock : Clock) (attrs : List Attr) : Prop :=
  ∀ m ∈ attrs, ∀ d ∈ attrs, ∀ v w n, attrKind m.1 = .maxAge → m.2 = some v → stoll v = .ok n →
    attrKind d.1 = .expires → d.2 = some w → clock.now + n * second = clock.parseDate w

/-- The refused attributes have no effect. -/
theorem attrEffect_eq_none_iff {clock : Clock} {a : Attr} :
    attrEffect clock a = none ↔ Refused a := by
  obtain ⟨name, value⟩ := a
  unfold attrEffect Refused
  dsimp only
  cases attrKind name with
  | expires | domain | path => cases value <;> simp
  | sameSite => simp
  | maxAge =>
    cases value with
    | none => simp
    | some v =>
      cases hv : stoll v <;> simp [hv, Except.toOption]
  | partitioned | secure | httpOnly | other => simp

/-- The attributes that set the expiry are Max-Age and Expires. -/
theorem attrEffect_eq_expires_iff {clock : Clock} {a : Attr} {t : Int} :
    attrEffect clock a = some (.expires t) ↔
      (attrKind a.1 = .expires ∧ ∃ v, a.2 = some v ∧ t = clock.parseDate v) ∨
      (attrKind a.1 = .maxAge ∧ ∃ v n, a.2 = some v ∧ stoll v = .ok n ∧
        t = clock.now + n * second) := by
  obtain ⟨name, value⟩ := a
  unfold attrEffect
  dsimp only
  cases attrKind name with
  | expires => cases value <;> simp [eq_comm]
  | domain | path => cases value <;> simp
  | sameSite => simp
  | maxAge =>
    cases value with
    | none => simp
    | some v =>
      cases hv : stoll v <;> simp [hv, Except.toOption, eq_comm]
  | partitioned | secure | httpOnly | other => simp

/-- With different names there is one Max-Age and one Expires to agree. -/
theorem expiriesAgree_iff {clock : Clock} {attrs : List Attr} (hnames : DifferentNames attrs) :
    ExpiriesAgree clock attrs ↔ MaxAgeAgrees clock attrs := by
  constructor
  · intro h m hm d hd v w n hmkind hv hn hdkind hw
    exact h m hm d hd _ _ (attrEffect_eq_expires_iff.2 (.inr ⟨hmkind, v, n, hv, hn, rfl⟩))
      (attrEffect_eq_expires_iff.2 (.inl ⟨hdkind, w, hw, rfl⟩))
  · intro h a ha b hb t t' hat hbt
    by_cases hab : a = b
    · subst hab
      cases hat.symm.trans hbt
      rfl
    rcases attrEffect_eq_expires_iff.1 hat with ⟨hak, v, hv, rfl⟩ | ⟨hak, v, n, hv, hn, rfl⟩
    · have hne := hnames.kind_ne ha hb hab (by rw [hak]; decide)
      rcases attrEffect_eq_expires_iff.1 hbt with ⟨hbk, -⟩ | ⟨hbk, w, k, hw, hk, rfl⟩
      · exact absurd (hak.trans hbk.symm) hne
      · exact (h b hb a ha w v k hbk hw hk hak hv).symm
    · have hne := hnames.kind_ne ha hb hab (by rw [hak]; decide)
      rcases attrEffect_eq_expires_iff.1 hbt with ⟨hbk, w, hw, rfl⟩ | ⟨hbk, -⟩
      · exact h a ha b hb v w n hak hv hn hbk hw
      · exact absurd (hak.trans hbk.symm) hne

/-- The cookie that a text whose attributes are not refused gives. -/
theorem toOption_parseCookie {clock : Clock} {sv name : List Char} {value : Option (List Char)}
    {attrs : List Attr} (h : cookieParser.parseAll sv = .ok (name, value, attrs)) :
    (parseCookie clock sv).toOption =
      if (∀ a ∈ attrs, (attrEffect clock a).isSome) ∧
        prefixesOk (attrs.foldl (attrStep clock) { name, value }) = true
      then some (attrs.foldl (attrStep clock) { name, value }) else none := by
  rw [parseCookie, h]
  show (attrs.foldlM (applyAttr clock) { name, value } >>= _).toOption = _
  rw [toOption_bind, toOption_foldlM]
  by_cases hall : ∀ a ∈ attrs, (attrEffect clock a).isSome
  · rw [if_pos hall, Option.bind_some]
    by_cases hok : prefixesOk (attrs.foldl (attrStep clock) { name, value }) = true
    · rw [if_pos hok, if_pos ⟨hall, hok⟩]
      rfl
    · rw [if_neg hok, if_neg (fun h => hok h.2)]
      rfl
  · rw [if_neg hall, if_neg (fun h => hall h.1), Option.bind_none]

/-- A text is refused for one of its attributes or for the prefix of its name. -/
def RefusedFor (name : List Char) (attrs : List Attr) : Prop :=
  (∃ a ∈ attrs, Refused a) ∨ PrefixMissed name attrs

theorem forall_isSome_iff {clock : Clock} {attrs : List Attr} :
    (∀ a ∈ attrs, (attrEffect clock a).isSome) ↔ ¬ ∃ a ∈ attrs, Refused a := by
  simp only [← @attrEffect_eq_none_iff clock, not_exists, not_and, ← ne_eq,
    Option.ne_none_iff_isSome]

section

variable {clock : Clock} {sv name : List Char} {value : Option (List Char)} {attrs : List Attr}

/-- `parse_cookie` refuses a text for its attributes or its name. -/
theorem parseCookie_of_refused (h : cookieParser.parseAll sv = .ok (name, value, attrs))
    (hnames : DifferentNames attrs) (hrefused : RefusedFor name attrs) :
    (parseCookie clock sv).toOption = none := by
  rw [toOption_parseCookie h, if_neg]
  rintro ⟨hall, hok⟩
  rw [prefixesOk_foldl hall hnames] at hok
  exact hrefused.elim (forall_isSome_iff.1 hall) hok

/-- `parse_cookie` applies the attributes of any other text. -/
theorem parseCookie_of_not_refused (h : cookieParser.parseAll sv = .ok (name, value, attrs))
    (hnames : DifferentNames attrs) (hrefused : ¬ RefusedFor name attrs) :
    (parseCookie clock sv).toOption = some (attrs.foldl (attrStep clock) { name, value }) := by
  obtain ⟨hattrs, hname⟩ := not_or.1 hrefused
  have hall : ∀ a ∈ attrs, (attrEffect clock a).isSome := forall_isSome_iff.2 hattrs
  rw [toOption_parseCookie h, if_pos ⟨hall, (prefixesOk_foldl hall hnames name value).2 hname⟩]

/-- The last attribute sets the expiry. -/
theorem expires_foldl_concat {a : Attr} {t : Int} (h : attrEffect clock a = some (.expires t))
    (attrs : List Attr) (c : Cookie) :
    ((attrs ++ [a]).foldl (attrStep clock) c).expires = some t := by
  rw [List.foldl_append, List.foldl_cons, List.foldl_nil, attrStep, h]
  rfl

/-- Any attribute can stand last. -/
theorem perm_moveLast {a : Attr} (h : a ∈ attrs) : (attrs.erase a ++ [a]).Perm attrs :=
  (List.perm_append_singleton a (attrs.erase a)).trans (List.perm_cons_erase h).symm

theorem DifferentNames.perm {attrs' : List Attr} (h : DifferentNames attrs)
    (hperm : attrs'.Perm attrs) : DifferentNames attrs' := by
  refine List.Pairwise.perm h hperm.symm ?_
  intro a b hab
  rw [ciIsEqual, Bool.beq_comm]
  exact hab

theorem RefusedFor.perm {attrs' : List Attr} (hperm : attrs'.Perm attrs) :
    RefusedFor name attrs' ↔ RefusedFor name attrs := by
  simp only [RefusedFor, PrefixMissed, hperm.mem_iff]

end

/-- The order of the attributes of a text is free: every text with the same name, value and
attributes gives the same cookie or is refused as well, and a cookie expires when its Max-Age
says. -/
structure OrderFree (clock : Clock) (sv name : List Char) (value : Option (List Char))
    (attrs : List Attr) : Prop where
  same : ∀ sv' attrs', cookieParser.parseAll sv' = .ok (name, value, attrs') → attrs'.Perm attrs →
    (parseCookie clock sv').toOption = (parseCookie clock sv).toOption
  maxAge : ∀ sv' attrs', cookieParser.parseAll sv' = .ok (name, value, attrs') →
    attrs'.Perm attrs → ∀ a ∈ attrs, attrKind a.1 = .maxAge → ∀ v n c, a.2 = some v →
    stoll v = .ok n → parseCookie clock sv' = .ok c → c.expires = some (clock.now + n * second)

/-- A text that is refused is refused in any order. -/
theorem orderFree_of_refused {clock : Clock} {sv name : List Char} {value : Option (List Char)}
    {attrs : List Attr} (hparse : cookieParser.parseAll sv = .ok (name, value, attrs))
    (hnames : DifferentNames attrs) (hrefused : RefusedFor name attrs) :
    OrderFree clock sv name value attrs := by
  have hresult : ∀ sv' attrs', cookieParser.parseAll sv' = .ok (name, value, attrs') →
      attrs'.Perm attrs → (parseCookie clock sv').toOption = none := by
    intro sv' attrs' hparse' hperm
    exact parseCookie_of_refused hparse' (hnames.perm hperm) ((RefusedFor.perm hperm).2 hrefused)
  refine ⟨?_, ?_⟩
  · intro sv' attrs' hparse' hperm
    rw [hresult sv' attrs' hparse' hperm, hresult sv attrs hparse (List.Perm.refl attrs)]
  · intro sv' attrs' hparse' hperm a ha hkind v n c hv hn hc
    have hnone := hresult sv' attrs' hparse' hperm
    rw [hc] at hnone
    cases hnone

/-- Attributes whose expiries agree can be applied in any order. -/
theorem orderFree_of_agree {clock : Clock} {sv name : List Char} {value : Option (List Char)}
    {attrs : List Attr} (hparse : cookieParser.parseAll sv = .ok (name, value, attrs))
    (hnames : DifferentNames attrs) (hrefused : ¬ RefusedFor name attrs)
    (hagree : ExpiriesAgree clock attrs) : OrderFree clock sv name value attrs := by
  have hfold : ∀ attrs' : List Attr, attrs'.Perm attrs → ∀ c,
      attrs'.foldl (attrStep clock) c = attrs.foldl (attrStep clock) c := by
    intro attrs' hperm c
    refine (hperm.symm.foldl_eq' ?_ c).symm
    exact fun a ha b hb c => attrStep_comm hnames hagree ha hb c
  have hresult : ∀ sv' attrs', cookieParser.parseAll sv' = .ok (name, value, attrs') →
      attrs'.Perm attrs →
      (parseCookie clock sv').toOption = some (attrs.foldl (attrStep clock) { name, value }) := by
    intro sv' attrs' hparse' hperm
    rw [parseCookie_of_not_refused hparse' (hnames.perm hperm)
      (mt (RefusedFor.perm hperm).1 hrefused), hfold attrs' hperm]
  refine ⟨?_, ?_⟩
  · intro sv' attrs' hparse' hperm
    rw [hresult sv' attrs' hparse' hperm, hresult sv attrs hparse (List.Perm.refl attrs)]
  · intro sv' attrs' hparse' hperm a ha hkind v n c hv hn hc
    have hcookie := hresult sv' attrs' hparse' hperm
    rw [hc] at hcookie
    cases hcookie
    have heffect : attrEffect clock a = some (.expires (clock.now + n * second)) :=
      attrEffect_eq_expires_iff.2 (.inr ⟨hkind, v, n, hv, hn, rfl⟩)
    -- the cookie is the same if the Max-Age stands last
    rw [← hfold (attrs.erase a ++ [a]) (perm_moveLast ha)]
    exact expires_foldl_concat heffect (attrs.erase a) { name, value }

/-- In which order the Max-Age and the Expires of a text stand decides, if they do not agree. -/
theorem agree_of_orderFree {clock : Clock} {sv name : List Char} {value : Option (List Char)}
    {attrs : List Attr} (hparse : cookieParser.parseAll sv = .ok (name, value, attrs))
    (hnames : DifferentNames attrs) (hrefused : ¬ RefusedFor name attrs)
    (h : OrderFree clock sv name value attrs) : MaxAgeAgrees clock attrs := by
  intro m hm d hd v w n hmkind hv hn hdkind hw
  have hmeffect : attrEffect clock m = some (.expires (clock.now + n * second)) :=
    attrEffect_eq_expires_iff.2 (.inr ⟨hmkind, v, n, hv, hn, rfl⟩)
  have hdeffect : attrEffect clock d = some (.expires (clock.parseDate w)) :=
    attrEffect_eq_expires_iff.2 (.inl ⟨hdkind, w, hw, rfl⟩)
  -- a text in which an attribute stands last gives the cookie the expiry of that one
  have hlast : ∀ a ∈ attrs, ∀ t, attrEffect clock a = some (.expires t) →
      ((parseCookie clock sv).toOption.bind (·.expires)) = some t := by
    intro a ha t heffect
    have hperm := perm_moveLast ha
    have hparse' := parseAll_cookieText hparse hperm
    rw [← h.same _ _ hparse' hperm, parseCookie_of_not_refused hparse' (hnames.perm hperm)
      (mt (RefusedFor.perm hperm).1 hrefused), Option.bind_some]
    exact expires_foldl_concat heffect (attrs.erase a) { name, value }
  have heq := (hlast m hm _ hmeffect).symm.trans (hlast d hd _ hdeffect)
  exact Option.some.inj heq

/-- The order of the attributes of a text is free if and only if `parse_cookie` refuses the text for
one of its attributes or the prefix of its name, or its Max-Age and its Expires give the same
time. -/
theorem orderFree_iff {clock : Clock} {sv name : List Char} {value : Option (List Char)}
    {attrs : List Attr} (hparse : cookieParser.parseAll sv = .ok (name, value, attrs))
    (hnames : DifferentNames attrs) :
    OrderFree clock sv name value attrs ↔
      RefusedFor name attrs ∨ MaxAgeAgrees clock attrs := by
  constructor
  · intro h
    by_cases hrefused : RefusedFor name attrs
    · exact .inl hrefused
    · exact .inr (agree_of_orderFree hparse hnames hrefused h)
  · intro h
    by_cases hrefused : RefusedFor name attrs
    · exact orderFree_of_refused hparse hnames hrefused
    · have hagree := (expiriesAgree_iff hnames).2 (h.resolve_left hrefused)
      exact orderFree_of_agree hparse hnames hrefused hagree

/-- A cookie with a Path and the Secure flag. -/
def pathSecure : List Attr :=
  [("Path".toList, some "/".toList), ("Secure".toList, none)]

/-- The attributes of a cookie without an expiry can stand in any order. -/
theorem pathSecure_orderFree :
    cookieParser.parseAll "a=1; Path=/; Secure".toList =
        .ok ("a".toList, some "1".toList, pathSecure) ∧
      OrderFree ⟨0, fun _ => 0⟩ "a=1; Path=/; Secure".toList "a".toList (some "1".toList)
        pathSecure := by
  have hparse : cookieParser.parseAll "a=1; Path=/; Secure".toList =
      .ok ("a".toList, some "1".toList, pathSecure) := by decide +kernel
  have hnames : DifferentNames pathSecure := by
    unfold DifferentNames
    decide +kernel
  have hkind : ∀ m ∈ pathSecure, attrKind m.1 ≠ .maxAge := by decide +kernel
  exact ⟨hparse, (orderFree_iff hparse hnames).2
    (.inr fun m hm _ _ _ _ _ h => absurd h (hkind m hm))⟩

/-- A Max-Age of a minute and an Expires in the past. -/
def minuteAndPast : List Attr :=
  [("Max-Age".toList, some "60".toList),
    ("Expires".toList, some "Thu, 01 Jan 1970 00:00:00 GMT".toList)]

/-- The Expires wins over the Max-Age in front of it: the cookie is expired at once, while with the
attributes the other way round it lives for a minute. -/
theorem minuteAndPast_not_orderFree :
    cookieParser.parseAll "a=1; Max-Age=60; Expires=Thu, 01 Jan 1970 00:00:00 GMT".toList =
        .ok ("a".toList, some "1".toList, minuteAndPast) ∧
      DifferentNames minuteAndPast ∧
      ¬ OrderFree ⟨0, fun _ => 0⟩
        "a=1; Max-Age=60; Expires=Thu, 01 Jan 1970 00:00:00 GMT".toList
        "a".toList (some "1".toList) minuteAndPast := by
  refine ⟨by decide +kernel, ?_, ?_⟩
  · unfold DifferentNames
    decide +kernel
  · intro h
    have hparse : cookieParser.parseAll
        "a=1; Expires=Thu, 01 Jan 1970 00:00:00 GMT; Max-Age=60".toList =
          .ok ("a".toList, some "1".toList, minuteAndPast.reverse) := by decide +kernel
    have heq := h.same _ _ hparse (List.reverse_perm minuteAndPast)
    have hne : (parseCookie ⟨0, fun _ => 0⟩
        "a=1; Expires=Thu, 01 Jan 1970 00:00:00 GMT; Max-Age=60".toList).toOption ≠
        (parseCookie ⟨0, fun _ => 0⟩
          "a=1; Max-Age=60; Expires=Thu, 01 Jan 1970 00:00:00 GMT".toList).toOption := by
      decide +kernel
    exact hne heq

end Beast2.Burl
