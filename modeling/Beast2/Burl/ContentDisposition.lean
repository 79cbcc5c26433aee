import Mathlib.Data.List.Nodup
import Beast2.Burl.QuotedString

/-!
# File names from Content-Disposition

`extract_filename_form_content_disposition` reads a field value as a range of elements in which
every separator is optional, and takes the value of the first element with the name `filename`
(`utils.cpp:97-131`). A value of RFC 6266 is a disposition type with parameters, and the type is
read as one more element.

A name may have the characters of `attr_char` only and a token those of `value_char`, but a token of
RFC 6266 may have an asterisk, an apostrophe and a percent sign in it. At such a character the range
ends, something is left over, and the whole value is refused: so every value with an extended
parameter such as `filename*` is. What is read is told exactly by `extract_filename_iff`.
-/

namespace Beast2.Burl

open Grammar

/-! ## The extractor -/

/-- `attr_char_t`. Reference: `utils.cpp:23`. -/
def attrChar (c : Char) : Bool :=
  c.isAlphanum || c == '!' || c == '#' || c == '$' || c == '&' || c == '+' || c == '-' ||
    c == '.' || c == '^' || c == '_' || c == '\x60' || c == '|' || c == '~'

/-- `value_char_t`. Reference: `utils.cpp:39`. -/
def valueChar (c : Char) : Bool := attrChar c || c == '%'

/-- `quoted_string` as a rule. Where the scanner leaves its range, what it does depends on what is
behind the range: `beyond`. Reference: `utils.cpp:50-79`. -/
def quotedString (beyond : Rule (List Char)) : Rule (List Char) := fun it =>
  match (quotedParse it []).result with
  | .view n => .ok (it.take n, it.drop n)
  | .error e => .error e
  | .fault => beyond it

/-- An element: its name and its value, a quoted string or a token. -/
abbrev Element := List Char × Option (List Char ⊕ List Char)

/-- The rule of one element. Reference: `utils.cpp:101-108`. -/
def elementRule (beyond : Rule (List Char)) : Rule Element := fun it => do
  let (_, it) ← optionalRule (delimRule (· == ';')) it
  let (_, it) ← optionalRule (delimRule (· == ' ')) it
  let (name, it) ← tokenRule attrChar it
  let (_, it) ← optionalRule (delimRule (· == '=')) it
  let (value, it) ← optionalRule (variantRule (quotedString beyond) (tokenRule valueChar)) it
  .ok ((name, value), it)

/-- The loop over the elements. Reference: `utils.cpp:115-130`. -/
def filenameLoop : List Element → Option (List Char)
  | [] => none
  | (name, value) :: elements =>
    if name = "filename".toList then
      match value with
      | none => filenameLoop elements
      | some (.inl q) => unquoteString q
      | some (.inr t) => some t
    else filenameLoop elements

/-- `extract_filename_form_content_disposition`. Reference: `utils.cpp:98`. -/
def extractFilenameFormContentDisposition (beyond : Rule (List Char)) (sv : List Char) :
    Option (List Char) :=
  match (rangeRule (elementRule beyond)).parseAll sv with
  | .error _ => none
  | .ok elements => filenameLoop elements

/-! ## Field values of RFC 6266 -/

/-- The characters of a token. -/
def tchar (c : Char) : Bool :=
  c.isAlphanum || "!#$%&\x27*+-.^_`|~".toList.contains c

/-- The characters of the name of a character set. -/
def mimeCharsetChar (c : Char) : Bool :=
  c.isAlphanum || "!#$%&+-^_`\x7b\x7d~".toList.contains c

/-- A token. -/
def IsToken (t : List Char) : Prop := t ≠ [] ∧ ∀ c ∈ t, tchar c = true

/-- The value of a parameter: a token, a quoted string, or an extended value, which has a character
set and a language in front. -/
inductive DispValue where
  | token (t : List Char) (isToken : IsToken t)
  | quoted (ps : List Piece)
  | extended (charset language chars : List Char)
      (charsetChars : charset ≠ [] ∧ ∀ c ∈ charset, mimeCharsetChar c = true)
      (languageChars : ∀ c ∈ language, (c.isAlphanum || c == '-') = true)
      (valueChars : ∀ c ∈ chars, valueChar c = true)

/-- A value as it stands in the field. -/
def DispValue.text : DispValue → List Char
  | token t _ => t
  | quoted ps => quotedText ps
  | extended charset language chars _ _ _ => charset ++ '\x27' :: (language ++ '\x27' :: chars)

/-- What a value stands for; a quoted string is unquoted. -/
def DispValue.content : DispValue → List Char
  | token t _ => t
  | quoted ps => ps.map Piece.char
  | extended _ _ chars _ _ _ => chars

/-- A parameter. The name of one with an extended value ends in an asterisk. -/
structure DispParam where
  name : List Char
  value : DispValue
  isToken : IsToken name
  asterisk : ∀ cs l v h₁ h₂ h₃, value = .extended cs l v h₁ h₂ h₃ → name.getLast? = some '*'

/-- A parameter as it stands in the field. -/
def DispParam.text (p : DispParam) : List Char := ';' :: ' ' :: (p.name ++ '=' :: p.value.text)

/-- A field value: a disposition type and parameters, whose names are distinct up to case. -/
structure Disposition where
  type : List Char
  params : List DispParam
  isToken : IsToken type
  distinct : (params.map fun p => p.name.map Char.toLower).Nodup

/-- The text of the parameters. -/
def paramsText (ps : List DispParam) : List Char := ps.flatMap DispParam.text

/-- The text of a field value. -/
def Disposition.text (d : Disposition) : List Char := d.type ++ paramsText d.params

/-! ## What an element takes -/

section

variable {beyond : Rule (List Char)} {c : Char} {it rest : List Char}

/-- A character that no element takes at its front or at its end. -/
structure Blocks (c : Char) : Prop where
  value : valueChar c = false
  semicolon : c ≠ ';'
  space : c ≠ ' '

theorem attrChar_of_valueChar (h : valueChar c = false) : attrChar c = false :=
  (Bool.or_eq_false_iff.1 h).1

/-- A quote is scanned as a quoted string, anything else is left alone. -/
theorem quotedString_of_head_ne (h : it.head? ≠ some '"') :
    ∃ e, quotedString beyond it = .error e := by
  cases it with
  | nil => exact ⟨_, rfl⟩
  | cons c it =>
    have hquote : c ≠ '"' := fun hc => h (congrArg some hc)
    refine ⟨.mismatch, ?_⟩
    rw [quotedString, quotedParse, if_pos hquote]

/-- A quoted string is taken exactly. -/
theorem quotedString_quotedText (ps : List Piece) :
    quotedString beyond (quotedText ps ++ rest) = .ok (quotedText ps, rest) := by
  obtain ⟨reads, -, hparse⟩ := quotedParse_closed ps rest []
  rw [quotedString, hparse]
  simp

/-- The value of an element that is not a quoted string is the run of `value_char` there. -/
theorem optionalValue_run (h : it.head? ≠ some '"') :
    ∃ o, optionalRule (variantRule (quotedString beyond) (tokenRule valueChar)) it =
        .ok (o, it.dropWhile valueChar) ∧
      o = if it.takeWhile valueChar = [] then none else some (.inr (it.takeWhile valueChar)) := by
  obtain ⟨e, hquoted⟩ := @quotedString_of_head_ne beyond it h
  cases it with
  | nil => exact ⟨none, rfl, rfl⟩
  | cons c it =>
    cases hc : valueChar c with
    | false =>
      refine ⟨none, ?_, ?_⟩
      · simp [optionalRule, variantRule, hquoted, tokenRule, hc]
      · simp [hc]
    | true =>
      refine ⟨some (.inr ((c :: it).takeWhile valueChar)), ?_, ?_⟩
      · simp [optionalRule, variantRule, hquoted, tokenRule, hc]
      · simp [hc]

/-- A separator is not taken where there is none. -/
theorem optionalDelim_none {d : Char} (h : it.head? ≠ some d) :
    optionalRule (delimRule (· == d)) it = .ok (none, it) := by
  cases it with
  | nil => rfl
  | cons c it =>
    have hc : c ≠ d := fun hc => h (congrArg some hc)
    simp [optionalRule, delimRule, hc]

/-- An element with a name, behind a separator or not. -/
theorem elementRule_name {a tail it' : List Char} {o : Option Char}
    {value : Option (List Char ⊕ List Char)} (hne : a ≠ []) (ha : ∀ c ∈ a, attrChar c = true)
    (hstop : StopsAt attrChar tail)
    (hequals : optionalRule (delimRule (· == '=')) tail = .ok (o, it'))
    (hvalue : optionalRule (variantRule (quotedString beyond) (tokenRule valueChar)) it' =
      .ok (value, rest)) :
    elementRule beyond (a ++ tail) = .ok ((a, value), rest) ∧
      elementRule beyond (';' :: ' ' :: (a ++ tail)) = .ok ((a, value), rest) := by
  have htoken := tokenRule_append hne ha hstop
  refine ⟨?_, ?_⟩
  · cases a with
    | nil => exact absurd rfl hne
    | cons c a =>
      have hc := ha c List.mem_cons_self
      have hsemicolon : (c :: a ++ tail).head? ≠ some ';' := by
        intro heq
        cases heq
        cases hc
      have hspace : (c :: a ++ tail).head? ≠ some ' ' := by
        intro heq
        cases heq
        cases hc
      simp only [elementRule, bind_ok]
      exact ⟨_, optionalDelim_none hsemicolon, _, optionalDelim_none hspace, _, htoken, _, hequals,
        _, hvalue, rfl⟩
  · simp only [elementRule, bind_ok]
    exact ⟨(some ';', _), rfl, (some ' ', _), rfl, _, htoken, _, hequals, _, hvalue, rfl⟩

/-- An element with a name that neither an equals sign nor a quote follows has a run of `value_char`
for a value. -/
theorem elementRule_run {a tail : List Char} (hne : a ≠ []) (ha : ∀ c ∈ a, attrChar c = true)
    (hstop : StopsAt attrChar tail) (hequals : tail.head? ≠ some '=')
    (hquote : tail.head? ≠ some '"') :
    ∃ o, (elementRule beyond (a ++ tail) = .ok ((a, o), tail.dropWhile valueChar) ∧
        elementRule beyond (';' :: ' ' :: (a ++ tail)) = .ok ((a, o), tail.dropWhile valueChar)) ∧
      o = if tail.takeWhile valueChar = [] then none
        else some (.inr (tail.takeWhile valueChar)) := by
  obtain ⟨o, hvalue, ho⟩ := @optionalValue_run beyond tail hquote
  exact ⟨o, elementRule_name hne ha hstop (optionalDelim_none hequals) hvalue, ho⟩

/-- No element starts with a character that is not one of a name. -/
theorem elementRule_error (hc : attrChar c = false) :
    (c ≠ ';' → c ≠ ' ' → ∃ e, elementRule beyond (c :: it) = .error e) ∧
      ∃ e, elementRule beyond (';' :: ' ' :: c :: it) = .error e := by
  refine ⟨fun hsemicolon hspace => ⟨.mismatch, ?_⟩, ⟨.mismatch, ?_⟩⟩
  · simp [elementRule, optionalRule, delimRule, tokenRule, hsemicolon, hspace, hc, bind,
      Except.bind]
  · simp [elementRule, optionalRule, delimRule, tokenRule, hc, bind, Except.bind]

/-- A run of `value_char` in front of a character that blocks ends at one that does. -/
theorem dropWhile_blocks {l : List Char} (hl : ∀ x ∈ l, x ≠ ';' ∧ x ≠ ' ') (hc : Blocks c) :
    ∃ h t, (l ++ c :: rest).dropWhile valueChar = h :: t ∧ Blocks h := by
  induction l with
  | nil => exact ⟨c, rest, by simp [hc.value], hc⟩
  | cons x l ih =>
    obtain ⟨hx, hl⟩ := List.forall_mem_cons.1 hl
    cases hvalue : valueChar x with
    | true =>
      obtain ⟨h, t, hdrop, hblocks⟩ := ih hl
      exact ⟨h, t, by simp [hvalue, hdrop], hblocks⟩
    | false => exact ⟨x, l ++ c :: rest, by simp [hvalue], hvalue, hx.1, hx.2⟩

end

/-! ## What a parameter and the type are read as -/

/-- A value that is read: a quoted string, or a token of `value_char`. -/
def DispValue.Plain : DispValue → Prop
  | token t _ => ∀ c ∈ t, valueChar c = true
  | quoted _ => True
  | extended _ _ _ _ _ _ => False

/-- A parameter that is read. -/
def DispParam.Plain (p : DispParam) : Prop := (∀ c ∈ p.name, attrChar c = true) ∧ p.value.Plain

/-- A value as an element has it. -/
def DispValue.element : DispValue → Option (List Char ⊕ List Char)
  | token t _ => some (.inr t)
  | quoted ps => some (.inl (quotedText ps))
  | extended _ _ _ _ _ _ => none

section

variable {beyond : Rule (List Char)} {c : Char} {rest : List Char}

/-- A token has none of the characters that separate. -/
theorem tchar_ne (h : tchar c = true) : c ≠ ';' ∧ c ≠ ' ' ∧ c ≠ '=' ∧ c ≠ '"' := by
  refine ⟨?_, ?_, ?_, ?_⟩ <;> rintro rfl <;> cases h

theorem mimeCharsetChar_ne (h : mimeCharsetChar c = true) : c ≠ ';' ∧ c ≠ ' ' ∧ c ≠ '"' := by
  refine ⟨?_, ?_, ?_⟩ <;> rintro rfl <;> cases h

/-- What stands behind an element: nothing, or a semicolon. -/
def Behind (rest : List Char) : Prop := ∀ c ∈ rest.head?, c = ';'

theorem behind_paramsText (ps : List DispParam) : Behind (paramsText ps) := by
  cases ps with
  | nil => rintro c ⟨⟩
  | cons p ps =>
    intro c heq
    cases heq
    rfl

theorem Behind.stopsAt {cs : Char → Bool} (h : Behind rest) (hcs : cs ';' = false) :
    StopsAt cs rest := by
  intro c hc
  rw [h c hc]
  exact hcs

/-- How a token in front of something is read as a value: all of it, or up to a character that
blocks. -/
theorem dropWhile_token {t : List Char} (ht : ∀ x ∈ t, tchar x = true) (rest : List Char) :
    (∀ x ∈ t, valueChar x = true) ∨
      ∃ h s, (t ++ rest).dropWhile valueChar = h :: s ∧ Blocks h := by
  induction t with
  | nil => exact .inl (fun x hx => absurd hx List.not_mem_nil)
  | cons x t ih =>
    obtain ⟨hx, ht⟩ := List.forall_mem_cons.1 ht
    cases hvalue : valueChar x with
    | false =>
      refine .inr ⟨x, t ++ rest, by simp [hvalue], hvalue, ?_, ?_⟩
      · exact (tchar_ne hx).1
      · exact (tchar_ne hx).2.1
    | true =>
      rcases ih ht with hall | ⟨h, s, hdrop, hblocks⟩
      · exact .inl (List.forall_mem_cons.2 ⟨hvalue, hall⟩)
      · exact .inr ⟨h, s, by simp [hvalue, hdrop], hblocks⟩

/-- A value that is read is taken to its end. -/
theorem optionalValue_plain {v : DispValue} (hv : v.Plain) (hrest : Behind rest) :
    optionalRule (variantRule (quotedString beyond) (tokenRule valueChar)) (v.text ++ rest) =
      .ok (v.element, rest) := by
  cases v with
  | token t isToken =>
    have hstop : StopsAt valueChar rest := hrest.stopsAt rfl
    have hhead : (t ++ rest).head? ≠ some '"' := by
      obtain ⟨c, t, rfl⟩ := List.exists_cons_of_ne_nil isToken.1
      intro heq
      cases heq
      exact (tchar_ne (isToken.2 _ List.mem_cons_self)).2.2.2 rfl
    obtain ⟨o, hvalue, ho⟩ := @optionalValue_run beyond _ hhead
    rw [takeWhile_append_of_stopsAt hv hstop, if_neg isToken.1] at ho
    rw [dropWhile_append_of_stopsAt hv hstop, ho] at hvalue
    exact hvalue
  | quoted ps =>
    refine optionalRule_of_ok (by simp [DispValue.text, quotedText]) ?_
    rw [variantRule, DispValue.text, quotedString_quotedText]
  | extended => exact hv.elim

/-- A value that is not read leaves a character that blocks. -/
theorem optionalValue_blocks {v : DispValue} (hv : ¬ v.Plain) (rest : List Char) :
    ∃ o h s, optionalRule (variantRule (quotedString beyond) (tokenRule valueChar))
      (v.text ++ rest) = .ok (o, h :: s) ∧ Blocks h := by
  cases v with
  | token t isToken =>
    have hhead : (t ++ rest).head? ≠ some '"' := by
      obtain ⟨c, t, rfl⟩ := List.exists_cons_of_ne_nil isToken.1
      intro heq
      cases heq
      exact (tchar_ne (isToken.2 _ List.mem_cons_self)).2.2.2 rfl
    obtain ⟨o, hvalue, -⟩ := @optionalValue_run beyond _ hhead
    rcases dropWhile_token isToken.2 rest with hall | ⟨h, s, hdrop, hblocks⟩
    · exact absurd hall hv
    · exact ⟨o, h, s, hdrop ▸ hvalue, hblocks⟩
  | quoted ps => exact absurd trivial hv
  | extended charset language chars charsetChars languageChars valueChars =>
    obtain ⟨hne, hcharset⟩ := charsetChars
    have htext : DispValue.text (.extended charset language chars ⟨hne, hcharset⟩ languageChars
        valueChars) ++ rest = charset ++ '\x27' :: (language ++ '\x27' :: chars ++ rest) := by
      simp [DispValue.text]
    have hhead : (charset ++ '\x27' :: (language ++ '\x27' :: chars ++ rest)).head? ≠ some '"' := by
      obtain ⟨c, t, rfl⟩ := List.exists_cons_of_ne_nil hne
      intro heq
      cases heq
      exact (mimeCharsetChar_ne (hcharset _ List.mem_cons_self)).2.2 rfl
    obtain ⟨o, hvalue, -⟩ := @optionalValue_run beyond _ hhead
    have happ : Blocks '\x27' := ⟨rfl, by decide, by decide⟩
    obtain ⟨h, s, hdrop, hblocks⟩ := @dropWhile_blocks '\x27' (language ++ '\x27' :: chars ++ rest)
      charset (fun x hx => ⟨(mimeCharsetChar_ne (hcharset x hx)).1,
        (mimeCharsetChar_ne (hcharset x hx)).2.1⟩) happ
    exact ⟨o, h, s, by rw [htext, hvalue, hdrop], hblocks⟩

/-- At a character that blocks the range ends. -/
theorem Blocks.jams (h : Blocks c) : Jams (elementRule beyond) (c :: rest) := by
  obtain ⟨e, he⟩ := (@elementRule_error beyond c rest (attrChar_of_valueChar h.value)).1
    h.semicolon h.space
  exact .of_error (List.cons_ne_nil c rest) he

theorem DispParam.text_append (p : DispParam) (rest : List Char) :
    p.text ++ rest = ';' :: ' ' :: (p.name ++ '=' :: (p.value.text ++ rest)) := by
  simp [text]

/-- A name ends at an equals sign. -/
theorem stopsAt_equals (rest : List Char) : StopsAt attrChar ('=' :: rest) := by
  intro c heq
  cases heq
  rfl

/-- A parameter that is read is one element. -/
theorem elementRule_plain {p : DispParam} (hp : p.Plain) (hrest : Behind rest) :
    elementRule beyond (p.text ++ rest) = .ok ((p.name, p.value.element), rest) := by
  rw [p.text_append]
  exact (elementRule_name p.isToken.1 hp.1 (stopsAt_equals _) (o := some '=') rfl
    (optionalValue_plain hp.2 hrest)).2

/-- A name ends at a character that is neither of a name nor an equals sign, and what follows it is
left over. -/
theorem jams_of_name {name : List Char} (htoken : ∀ c ∈ name, tchar c = true)
    (hname : ¬ ∀ c ∈ name, attrChar c = true) (rest : List Char) :
    Jams (elementRule beyond) (';' :: ' ' :: (name ++ '=' :: rest)) := by
  have hsplit := List.takeWhile_append_dropWhile (p := attrChar) (l := name)
  have hattr : ∀ c ∈ name.takeWhile attrChar, attrChar c = true := fun c hc =>
    List.mem_takeWhile_imp hc
  have hstop := @stopsAt_dropWhile attrChar name
  rw [← hsplit] at htoken ⊢
  generalize name.takeWhile attrChar = a at hsplit hattr htoken ⊢
  cases hb : name.dropWhile attrChar with
  | nil =>
    rw [hb, List.append_nil] at hsplit
    exact absurd (hsplit ▸ hattr) hname
  | cons x b =>
    rw [hb] at hstop htoken
    have hx := hstop x rfl
    have htail := fun y hy => tchar_ne (htoken y (List.mem_append_right a hy))
    rw [List.append_assoc]
    cases a with
    | nil =>
      obtain ⟨e, he⟩ := (@elementRule_error beyond x (b ++ '=' :: rest) hx).2
      exact .of_error (List.cons_ne_nil _ _) he
    | cons y a =>
      have hblock : Blocks '=' := ⟨rfl, by decide, by decide⟩
      have hhead : ∀ c ∈ (x :: b ++ '=' :: rest).head?,
          attrChar c = false ∧ c ≠ '=' ∧ c ≠ '"' := by
        intro c hc
        cases hc
        exact ⟨hx, (htail _ List.mem_cons_self).2.2⟩
      obtain ⟨o, ⟨-, hrun⟩, -⟩ := @elementRule_run beyond _ _ (List.cons_ne_nil y a) hattr
        (fun c hc => (hhead c hc).1) (fun h => (hhead _ h).2.1 rfl) (fun h => (hhead _ h).2.2 rfl)
      obtain ⟨h, s, hdrop, hblocks⟩ := @dropWhile_blocks '=' rest (x :: b)
        (fun z hz => ⟨(htail z hz).1, (htail z hz).2.1⟩) hblock
      exact .of_ok (List.cons_ne_nil _ _) (hdrop ▸ hrun) hblocks.jams

/-- Behind a parameter that is not read something is left over. -/
theorem jams_of_not_plain {p : DispParam} (hp : ¬ p.Plain) (rest : List Char) :
    Jams (elementRule beyond) (p.text ++ rest) := by
  rw [p.text_append]
  by_cases hname : ∀ c ∈ p.name, attrChar c = true
  · obtain ⟨o, h, s, hvalue, hblocks⟩ :=
      @optionalValue_blocks beyond _ (fun hv => hp ⟨hname, hv⟩) rest
    exact .of_ok (List.cons_ne_nil _ _)
      (elementRule_name p.isToken.1 hname (stopsAt_equals _) (o := some '=') rfl hvalue).2
      hblocks.jams
  · exact jams_of_name p.isToken.2 hname _

/-- A disposition type that is read: it starts with a character of a name. -/
def PlainType (t : List Char) : Prop :=
  (∃ c ∈ t.head?, attrChar c = true) ∧ ∀ c ∈ t, valueChar c = true

/-- The disposition type as an element: a percent sign ends the name, and the value starts. -/
def typeElement (t : List Char) : Element :=
  (t.takeWhile attrChar,
    if t.dropWhile attrChar = [] then none else some (.inr (t.dropWhile attrChar)))

/-- What stands behind a name that is the front of a token: another character of the token, or a
semicolon. -/
theorem head_behind_name {t : List Char} (htail : ∀ c ∈ t.dropWhile attrChar, tchar c = true)
    (hrest : Behind rest) :
    ∀ c ∈ (t.dropWhile attrChar ++ rest).head?, attrChar c = false ∧ c ≠ '=' ∧ c ≠ '"' := by
  intro c hc
  have hstop := @stopsAt_dropWhile attrChar t
  cases hb : t.dropWhile attrChar with
  | nil =>
    rw [hb] at hc
    rw [hrest c hc]
    exact ⟨rfl, by decide, by decide⟩
  | cons y b =>
    rw [hb] at hc hstop htail
    cases hc
    exact ⟨hstop c rfl, (tchar_ne (htail c List.mem_cons_self)).2.2⟩

/-- The type in front of the parameters is read as an element, or up to a character that blocks. -/
theorem elementRule_type (beyond : Rule (List Char)) {t : List Char} (ht : IsToken t)
    (hrest : Behind rest) :
    (PlainType t ∧ elementRule beyond (t ++ rest) = .ok (typeElement t, rest)) ∨
      ¬ PlainType t ∧ Jams (elementRule beyond) (t ++ rest) := by
  obtain ⟨x, t, rfl⟩ := List.exists_cons_of_ne_nil ht.1
  have hx := tchar_ne (ht.2 x List.mem_cons_self)
  cases hattr : attrChar x with
  | false =>
    refine .inr ⟨?_, ?_⟩
    · rintro ⟨⟨c, ⟨⟩, hc⟩, -⟩
      rw [hattr] at hc
      cases hc
    · obtain ⟨e, he⟩ := (@elementRule_error beyond x (t ++ rest) hattr).1 hx.1 hx.2.1
      exact .of_error (List.cons_ne_nil _ _) he
  | true =>
    -- behind the name is the rest of the type, and behind that a semicolon or nothing
    have hsplit := List.takeWhile_append_dropWhile (p := attrChar) (l := x :: t)
    have hne : (x :: t).takeWhile attrChar ≠ [] := by simp [hattr]
    have hname : ∀ c ∈ (x :: t).takeWhile attrChar, attrChar c = true := fun c hc =>
      List.mem_takeWhile_imp hc
    have htail : ∀ c ∈ (x :: t).dropWhile attrChar, tchar c = true := fun c hc =>
      ht.2 c (List.dropWhile_subset attrChar hc)
    have hhead := head_behind_name htail hrest
    obtain ⟨o, ⟨hrun, -⟩, ho⟩ := @elementRule_run beyond _ _ hne hname (fun c hc => (hhead c hc).1)
      (fun h => (hhead _ h).2.1 rfl) (fun h => (hhead _ h).2.2 rfl)
    rw [← List.append_assoc, hsplit] at hrun
    rcases dropWhile_token htail rest with hall | ⟨h, s, hdrop, hblocks⟩
    · refine .inl ⟨⟨⟨x, rfl, hattr⟩, ?_⟩, ?_⟩
      · rw [← hsplit]
        refine List.forall_mem_append.2 ⟨fun c hc => ?_, hall⟩
        rw [valueChar, hname c hc, Bool.true_or]
      · have hstop : StopsAt valueChar rest := hrest.stopsAt rfl
        rw [takeWhile_append_of_stopsAt hall hstop] at ho
        rw [hrun, dropWhile_append_of_stopsAt hall hstop, ho, typeElement]
    · refine .inr ⟨fun hplain => ?_, ?_⟩
      · have hall := fun c hc => hplain.2 c (List.dropWhile_subset attrChar hc)
        rw [dropWhile_append_of_stopsAt hall (hrest.stopsAt rfl)] at hdrop
        exact hblocks.semicolon (hrest h (hdrop ▸ rfl))
      · exact .of_ok (List.cons_ne_nil _ _) (hdrop ▸ hrun) hblocks.jams

end

/-! ## Which values are read -/

/-- The element of a parameter. -/
def DispParam.element (p : DispParam) : Element := (p.name, p.value.element)

section

variable {beyond : Rule (List Char)} {t : List Char} {ps : List DispParam}

/-- Parameters are read one by one. -/
theorem reads_paramsText (h : ∀ q ∈ ps, q.Plain) :
    Reads (elementRule beyond) (paramsText ps) (ps.map DispParam.element) := by
  induction ps with
  | nil => exact .nil (e := .needMore) rfl
  | cons p ps ih =>
    obtain ⟨hp, hps⟩ := List.forall_mem_cons.1 h
    rw [paramsText, List.flatMap_cons]
    refine .cons (elementRule_plain hp (behind_paramsText ps)) ?_ (ih hps)
    rw [DispParam.text_append, List.length_cons, List.length_cons, List.length_append]
    rw [List.length_cons, List.length_append]
    show (paramsText ps).length < _ + ((_ + (paramsText ps).length) + 1) + 1 + 1
    omega

/-- One parameter that is not read is enough for something to be left over. -/
theorem jams_paramsText (h : ¬ ∀ q ∈ ps, q.Plain) : Jams (elementRule beyond) (paramsText ps) := by
  induction ps with
  | nil => exact absurd (fun q hq => absurd hq List.not_mem_nil) h
  | cons p ps ih =>
    rw [paramsText, List.flatMap_cons]
    by_cases hp : p.Plain
    · have hps : ¬ ∀ q ∈ ps, q.Plain := fun hps => h (List.forall_mem_cons.2 ⟨hp, hps⟩)
      exact .of_ok (by simp [DispParam.text]) (elementRule_plain hp (behind_paramsText ps)) (ih hps)
    · exact jams_of_not_plain hp _

/-- A field value is parsed exactly if its type and its parameters are read. -/
theorem parseAll_disposition (d : Disposition) :
    (rangeRule (elementRule beyond)).parseAll d.text =
        .ok (typeElement d.type :: d.params.map DispParam.element) ∧
      PlainType d.type ∧ (∀ q ∈ d.params, q.Plain) ∨
    (∃ e, (rangeRule (elementRule beyond)).parseAll d.text = .error e) ∧
      ¬ (PlainType d.type ∧ ∀ q ∈ d.params, q.Plain) := by
  have hne : d.text ≠ [] := by simp [Disposition.text, d.isToken.1]
  rcases elementRule_type beyond d.isToken (behind_paramsText d.params) with
    ⟨htype, hread⟩ | ⟨htype, hjams⟩
  · by_cases hps : ∀ q ∈ d.params, q.Plain
    · refine .inl ⟨Reads.parseAll (.cons hread ?_ (reads_paramsText hps)), htype, hps⟩
      have hpos := List.length_pos_iff.2 d.isToken.1
      rw [Disposition.text, List.length_append]
      omega
    · exact .inr ⟨⟨_, (Jams.of_ok hne hread (jams_paramsText hps)).parseAll⟩, fun h => hps h.2⟩
  · exact .inr ⟨⟨_, hjams.parseAll⟩, fun h => htype h.1⟩

/-- The name of the parameter that is looked for. -/
theorem filenameLoop_element {p : DispParam} (hp : p.value.Plain)
    (hname : p.name = "filename".toList) (elements : List Element) :
    filenameLoop (p.element :: elements) = some p.value.content := by
  rw [DispParam.element, hname]
  cases hv : p.value with
  | token t isToken => rfl
  | quoted ps => exact unquoteString_quotedText ps
  | extended =>
    rw [hv] at hp
    exact hp.elim

/-- Any other element is passed over. -/
theorem filenameLoop_of_ne {e : Element} (h : e.1 ≠ "filename".toList) (elements : List Element) :
    filenameLoop (e :: elements) = filenameLoop elements := by
  rw [filenameLoop.eq_def]
  simp only [if_neg h]

/-- If no other parameter has the name, the one that is looked for is found where it is spelled
so. -/
theorem filenameLoop_params {p : DispParam} (hps : ∀ q ∈ ps, q.Plain)
    (hother : ∀ q ∈ ps, q.name = "filename".toList → q = p) :
    filenameLoop (ps.map DispParam.element) = some p.value.content ↔
      p ∈ ps ∧ p.name = "filename".toList := by
  induction ps with
  | nil => exact ⟨fun h => (Option.some_ne_none _ h.symm).elim, fun h => by cases h.1⟩
  | cons q ps ih =>
    obtain ⟨hq, hps⟩ := List.forall_mem_cons.1 hps
    obtain ⟨heq, hother⟩ := List.forall_mem_cons.1 hother
    rw [List.map_cons]
    by_cases hname : q.name = "filename".toList
    · obtain rfl := heq hname
      exact iff_of_true (filenameLoop_element hq.2 hname _) ⟨List.mem_cons_self, hname⟩
    · rw [filenameLoop_of_ne hname, ih hps hother]
      refine and_congr_left fun hp => ⟨List.mem_cons_of_mem q, fun h => ?_⟩
      rcases List.mem_cons.1 h with rfl | h
      · exact absurd hp hname
      · exact h

/-- The type is taken for the parameter if a percent sign follows the name. -/
theorem filenameLoop_type (ht : PlainType t) (elements : List Element) :
    filenameLoop (typeElement t :: elements) =
      if "filename%".toList <+: t then some (t.drop 8) else filenameLoop elements := by
  by_cases hpercent : "filename%".toList <+: t
  · obtain ⟨u, rfl⟩ := hpercent
    rw [if_pos (List.prefix_append _ u)]
    rfl
  · rw [if_neg hpercent]
    by_cases hname : t.takeWhile attrChar = "filename".toList
    · have hsplit := List.takeWhile_append_dropWhile (p := attrChar) (l := t)
      have hstop := @stopsAt_dropWhile attrChar t
      cases hb : t.dropWhile attrChar with
      | nil => rw [typeElement, hb, hname, if_pos rfl, filenameLoop, if_pos rfl]
      | cons x b =>
        rw [hb] at hstop hsplit
        have hx : valueChar x = true := ht.2 x (by rw [← hsplit]; simp)
        rw [valueChar, hstop x rfl, Bool.false_or, beq_iff_eq] at hx
        refine absurd ⟨b, ?_⟩ hpercent
        rw [← hsplit, hname, hx]
        rfl
    · exact filenameLoop_of_ne hname elements

end

/-- What has to hold of a field value for its file name to be found: all of it is read, and the name
is spelled in lower case and the type does not look like it. -/
structure FilenameRead (d : Disposition) (p : DispParam) : Prop where
  type : PlainType d.type
  params : ∀ q ∈ d.params, q.Plain
  name : if "filename%".toList <+: d.type then d.type.drop 8 = p.value.content
    else p.name = "filename".toList

/-- The file name of a field value is found exactly if the disposition type starts with an
`attr_char` and goes on with `value_char` only, every name has only `attr_char`, every value is a
quoted string or has only `value_char`, and the file name's own name is in lower case; or, if the
type is `filename` and something behind a percent sign, that is the file name by chance. -/
theorem extract_filename_iff (beyond : Rule (List Char)) (d : Disposition) (p : DispParam)
    (hp : p ∈ d.params) (hname : ciIsEqual p.name "filename".toList = true) :
    extractFilenameFormContentDisposition beyond d.text = some p.value.content ↔
      FilenameRead d p := by
  unfold extractFilenameFormContentDisposition
  rcases @parseAll_disposition beyond d with ⟨hparse, htype, hps⟩ | ⟨⟨e, hparse⟩, hnot⟩
  · have hother : ∀ q ∈ d.params, q.name = "filename".toList → q = p := by
      intro q hq hqname
      refine List.inj_on_of_nodup_map d.distinct hq hp ?_
      rw [hqname]
      exact (beq_iff_eq.1 hname).symm
    rw [hparse]
    show filenameLoop _ = _ ↔ _
    rw [filenameLoop_type htype]
    refine ⟨fun h => ⟨htype, hps, ?_⟩, fun h => ?_⟩
    · split at h
      · next hpercent =>
        rw [if_pos hpercent]
        exact Option.some.inj h
      · next hpercent =>
        rw [if_neg hpercent]
        exact ((filenameLoop_params hps hother).1 h).2
    · have hread := h.name
      split at hread
      · next hpercent => rw [if_pos hpercent, hread]
      · next hpercent =>
        rw [if_neg hpercent]
        exact (filenameLoop_params hps hother).2 ⟨hp, hread⟩
  · rw [hparse]
    exact ⟨fun h => (Option.some_ne_none _ h.symm).elim, fun h => absurd ⟨h.type, h.params⟩ hnot⟩

/-- The parameter `filename="a.txt"`. -/
def quotedFilename : DispParam where
  name := "filename".toList
  value := .quoted ("a.txt".toList.map quotePiece)
  isToken := ⟨nofun, List.all_eq_true.1 rfl⟩
  asterisk := nofun

/-- The same file name as an extended value. -/
def extendedFilename : DispParam where
  name := "filename*".toList
  value := .extended "UTF-8".toList [] "a.txt".toList ⟨nofun, List.all_eq_true.1 rfl⟩
    (List.all_eq_true.1 rfl) (List.all_eq_true.1 rfl)
  isToken := ⟨nofun, List.all_eq_true.1 rfl⟩
  asterisk := fun _ _ _ _ _ _ _ => rfl

/-- An attachment with a quoted file name. -/
def attachment : Disposition where
  type := "attachment".toList
  params := [quotedFilename]
  isToken := ⟨nofun, List.all_eq_true.1 rfl⟩
  distinct := List.nodup_singleton _

/-- An attachment with both. -/
def attachmentBoth : Disposition where
  type := "attachment".toList
  params := [quotedFilename, extendedFilename]
  isToken := ⟨nofun, List.all_eq_true.1 rfl⟩
  distinct := by decide

theorem attachment_filename_read :
    quotedFilename ∈ attachment.params ∧
      ciIsEqual quotedFilename.name "filename".toList = true ∧
      extractFilenameFormContentDisposition (fun _ => .error .mismatch) attachment.text =
        some quotedFilename.value.content := by
  refine ⟨List.mem_cons_self, rfl, ?_⟩
  refine (extract_filename_iff _ attachment quotedFilename List.mem_cons_self rfl).2 ⟨?_, ?_, ?_⟩
  · exact ⟨⟨'a', rfl, rfl⟩, List.all_eq_true.1 rfl⟩
  · exact List.forall_mem_singleton.2 ⟨List.all_eq_true.1 rfl, trivial⟩
  · rw [if_neg (by decide)]
    rfl

/-- With both file names none is found. -/
theorem attachmentBoth_not_read :
    attachmentBoth.text = "attachment; filename=\"a.txt\"; filename*=UTF-8\x27\x27a.txt".toList ∧
      quotedFilename ∈ attachmentBoth.params ∧ quotedFilename.value.content = "a.txt".toList ∧
      ∀ beyond, extractFilenameFormContentDisposition beyond attachmentBoth.text ≠
        some "a.txt".toList := by
  refine ⟨by decide, List.mem_cons_self, by decide, fun beyond h => ?_⟩
  have hnone : extractFilenameFormContentDisposition beyond attachmentBoth.text = none := rfl
  rw [hnone] at h
  cases h

end Beast2.Burl
