import Mathlib.Data.List.Basic

/-!
# The parts of a URI

The generic syntax of URIs: a text is cut at its first `#` into what stands before the fragment and
the fragment, that at its first `?`, and what is left into the scheme, the authority and the path.
Every text has parts (`split`) and is put together from them (`text`). Without its userinfo, a text
has the parts that it had, but for the userinfo (`split_text_withoutUserinfo`).
-/

namespace Uri

/-! ## Cutting at a character -/

/-- A text cut at the first occurrence of a character. -/
def cut (c : Char) : List Char → List Char × Option (List Char)
  | [] => ([], none)
  | x :: l => if x = c then ([], some l) else (x :: (cut c l).1, (cut c l).2)

/-- A text behind a character, if there is one. -/
def behind (c : Char) (o : Option (List Char)) : List Char := o.elim [] (c :: ·)

/-- A text cut at the last occurrence of a character. -/
def cutLast (c : Char) (l : List Char) : Option (List Char) × List Char :=
  ((cut c l.reverse).2.map List.reverse, (cut c l.reverse).1.reverse)

section
variable {c : Char} {l : List Char}

/-- The two sides of a cut make up the text. -/
theorem cut_append (c : Char) (l : List Char) : (cut c l).1 ++ behind c (cut c l).2 = l := by
  induction l with
  | nil => rfl
  | cons x l ih =>
    unfold cut
    split
    · next h =>
      subst h
      rfl
    · exact congrArg (x :: ·) ih

theorem not_mem_cut (c : Char) (l : List Char) : c ∉ (cut c l).1 := by
  induction l with
  | nil => exact List.not_mem_nil
  | cons x l ih =>
    unfold cut
    split
    · exact List.not_mem_nil
    · next h => exact List.not_mem_cons_of_ne_of_not_mem (Ne.symm h) ih

/-- A text without the character is cut from what stands behind it. -/
theorem cut_append_behind (h : c ∉ l) (o : Option (List Char)) :
    cut c (l ++ behind c o) = (l, o) := by
  induction l with
  | nil =>
    cases o with
    | none => rfl
    | some r => exact if_pos rfl
  | cons x l ih =>
    obtain ⟨hx, hl⟩ := not_or.1 (mt List.mem_cons.2 h)
    rw [List.cons_append, cut, if_neg (Ne.symm hx), ih hl]

theorem mem_of_mem_cut {x : Char} (h : x ∈ (cut c l).1) : x ∈ l := by
  rw [← cut_append c l]
  exact List.mem_append_left _ h

theorem cutLast_of_not_mem (h : c ∉ l) : cutLast c l = (none, l) := by
  have hcut := cut_append_behind (mt List.mem_reverse.1 h) none
  rw [behind, Option.elim_none, List.append_nil] at hcut
  rw [cutLast, hcut, Option.map_none, List.reverse_reverse]

theorem not_mem_cutLast (c : Char) (l : List Char) : c ∉ (cutLast c l).2 :=
  mt List.mem_reverse.1 (not_mem_cut c l.reverse)

theorem mem_of_mem_cutLast {x : Char} (h : x ∈ (cutLast c l).2) : x ∈ l :=
  List.mem_reverse.1 (mem_of_mem_cut (List.mem_reverse.1 h))

end

/-! ## The parts -/

/-- The authority of a URI, with the host and the port as one text. -/
structure Authority where
  userinfo : Option (List Char)
  hostAndPort : List Char
deriving DecidableEq, Repr

/-- The parts of a URI. -/
structure Parts where
  scheme : Option (List Char)
  authority : Option Authority
  path : List Char
  query : Option (List Char)
  fragment : Option (List Char)
deriving DecidableEq, Repr

/-- The scheme, and what follows it. -/
def splitScheme (s : List Char) : Option (List Char) × List Char :=
  match cut ':' s with
  | (a, some rest) => if a ≠ [] ∧ '/' ∉ a then (some a, rest) else (none, s)
  | (_, none) => (none, s)

/-- The authority, and the path that follows it. -/
def splitAuthority (s : List Char) : Option Authority × List Char :=
  match s with
  | '/' :: '/' :: rest =>
    let (userinfo, hostAndPort) := cutLast '@' (cut '/' rest).1
    (some { userinfo, hostAndPort }, behind '/' (cut '/' rest).2)
  | _ => (none, s)

/-- The parts of a text. -/
def split (s : List Char) : Parts :=
  let (front, fragment) := cut '#' s
  let (front, query) := cut '?' front
  let (scheme, hier) := splitScheme front
  let (authority, path) := splitAuthority hier
  { scheme, authority, path, query, fragment }

/-- The text of an authority. -/
def Authority.text (a : Authority) : List Char :=
  '/' :: '/' :: (a.userinfo.elim [] (· ++ ['@']) ++ a.hostAndPort)

/-- The authority and the path. -/
def Parts.hier (p : Parts) : List Char := p.authority.elim [] Authority.text ++ p.path

/-- What stands before the query. -/
def Parts.front (p : Parts) : List Char := p.scheme.elim [] (· ++ [':']) ++ p.hier

/-- The text of the parts. -/
def Parts.text (p : Parts) : List Char :=
  (p.front ++ behind '?' p.query) ++ behind '#' p.fragment

/-- The parts without the userinfo. -/
def Parts.withoutUserinfo (p : Parts) : Parts :=
  { p with authority := p.authority.map ({ · with userinfo := none }) }

/-- The parts without the fragment. -/
def Parts.withoutFragment (p : Parts) : Parts := { p with fragment := none }

/-! ## Reading back -/

theorem splitScheme_cases (s : List Char) :
    (∃ a rest, splitScheme s = (some a, rest) ∧ s = a ++ ':' :: rest ∧ a ≠ [] ∧ '/' ∉ a ∧ ':' ∉ a) ∨
      splitScheme s = (none, s) := by
  have happend := cut_append ':' s
  have hnot := not_mem_cut ':' s
  unfold splitScheme
  split
  · next a rest hcut =>
    rw [hcut] at happend hnot
    split
    · next h => exact .inl ⟨a, rest, rfl, happend.symm, h.1, h.2, hnot⟩
    · exact .inr rfl
  · exact .inr rfl

theorem splitScheme_colon {a : List Char} (hne : a ≠ []) (hslash : '/' ∉ a) (hcolon : ':' ∉ a)
    (rest : List Char) : splitScheme (a ++ ':' :: rest) = (some a, rest) := by
  have hcut := cut_append_behind hcolon (some rest)
  unfold splitScheme
  rw [show a ++ ':' :: rest = a ++ behind ':' (some rest) from rfl, hcut]
  exact if_pos ⟨hne, hslash⟩

/-- What begins with a slash has no scheme. -/
theorem splitScheme_slash (s : List Char) : splitScheme ('/' :: s) = (none, '/' :: s) := by
  unfold splitScheme
  rw [cut, if_neg (by decide)]
  split
  · next a rest heq =>
    obtain ⟨rfl, -⟩ := Prod.mk.inj heq
    exact if_neg fun h => h.2 List.mem_cons_self
  · rfl

/-- The text of an authority is read back if the host has no `@` and nothing in it is a slash. -/
theorem splitAuthority_text {host : List Char} (hat : '@' ∉ host) (hslash : '/' ∉ host)
    (o : Option (List Char)) :
    splitAuthority ('/' :: '/' :: (host ++ behind '/' o)) = (some ⟨none, host⟩, behind '/' o) := by
  simp only [splitAuthority, cut_append_behind hslash, cutLast_of_not_mem hat]

/-- An authority and its path, or no authority. -/
theorem splitAuthority_cases (s : List Char) :
    (∃ l, s = '/' :: '/' :: l ∧ splitAuthority s =
      (some ⟨(cutLast '@' (cut '/' l).1).1, (cutLast '@' (cut '/' l).1).2⟩,
        behind '/' (cut '/' l).2)) ∨
      splitAuthority s = (none, s) := by
  unfold splitAuthority
  split
  · next l => exact .inl ⟨l, rfl, rfl⟩
  · exact .inr rfl

/-- An authority is read back without its userinfo, and the text has no scheme if it had none. -/
theorem splitAuthority_withoutUserinfo {p : Parts} {h : List Char}
    (hsplit : splitAuthority h = (p.authority, p.path)) :
    splitAuthority p.withoutUserinfo.hier = (p.withoutUserinfo.authority, p.path) ∧
      (∀ x ∈ p.withoutUserinfo.hier, x ∈ h) ∧
      (splitScheme h = (none, h) →
        splitScheme p.withoutUserinfo.hier = (none, p.withoutUserinfo.hier)) := by
  rcases splitAuthority_cases h with ⟨l, rfl, heq⟩ | heq
  · obtain ⟨hauthority, hpath⟩ := Prod.mk.inj (hsplit.symm.trans heq)
    have hhier : p.withoutUserinfo.hier =
        '/' :: '/' :: ((cutLast '@' (cut '/' l).1).2 ++ behind '/' (cut '/' l).2) := by
      simp [Parts.hier, Parts.withoutUserinfo, hauthority, hpath, Authority.text]
    have hmem : ∀ x ∈ (cutLast '@' (cut '/' l).1).2, x ∈ (cut '/' l).1 :=
      fun _ => mem_of_mem_cutLast
    refine ⟨?_, fun x hx => ?_, fun _ => ?_⟩
    · rw [hhier, splitAuthority_text (not_mem_cutLast _ _) (mt (hmem _) (not_mem_cut _ _)), hpath,
        Parts.withoutUserinfo, hauthority, Option.map_some]
    · rw [hhier] at hx
      rw [← cut_append '/' l]
      simp only [List.mem_cons, List.mem_append] at hx ⊢
      exact hx.imp_right (Or.imp_right (Or.imp_left (hmem x)))
    · rw [hhier, splitScheme_slash]
  · obtain ⟨hauthority, hpath⟩ := Prod.mk.inj (hsplit.symm.trans heq)
    have hhier : p.withoutUserinfo.hier = h := by
      simp [Parts.hier, Parts.withoutUserinfo, hauthority, hpath]
    rw [hhier]
    refine ⟨?_, fun _ => id, id⟩
    rw [hsplit, Parts.withoutUserinfo, hauthority, Option.map_none]

/-- A front is read back without its userinfo. -/
theorem splitScheme_withoutUserinfo {p : Parts} {f h : List Char}
    (hscheme : splitScheme f = (p.scheme, h)) (hsplit : splitAuthority h = (p.authority, p.path)) :
    splitScheme p.withoutUserinfo.front = (p.scheme, p.withoutUserinfo.hier) ∧
      ∀ x ∈ p.withoutUserinfo.front, x ∈ f := by
  obtain ⟨-, hmem, hnone⟩ := splitAuthority_withoutUserinfo hsplit
  rcases splitScheme_cases f with ⟨a, rest, heq, rfl, hne, hslash, hcolon⟩ | heq
  · obtain ⟨hp, rfl⟩ := Prod.mk.inj (hscheme.symm.trans heq)
    have hfront : p.withoutUserinfo.front = a ++ ':' :: p.withoutUserinfo.hier := by
      simp [Parts.front, Parts.withoutUserinfo, hp]
    rw [hfront, hp]
    refine ⟨splitScheme_colon hne hslash hcolon _, fun x hx => ?_⟩
    simp only [List.mem_append, List.mem_cons] at hx ⊢
    exact hx.imp_right (Or.imp_right (hmem x))
  · obtain ⟨hp, rfl⟩ := Prod.mk.inj (hscheme.symm.trans heq)
    have hfront : p.withoutUserinfo.front = p.withoutUserinfo.hier := by
      simp [Parts.front, Parts.withoutUserinfo, hp]
    rw [hfront, hp]
    exact ⟨hnone heq, hmem⟩

/-- The parts of a text, cut by cut. -/
theorem split_eq {s f f' h : List Char} {p : Parts} (hfragment : cut '#' s = (f, p.fragment))
    (hquery : cut '?' f = (f', p.query)) (hscheme : splitScheme f' = (p.scheme, h))
    (hauthority : splitAuthority h = (p.authority, p.path)) : split s = p := by
  simp only [split, hfragment, hquery, hscheme, hauthority]

/-- A text without its userinfo has the parts that it had, but for the userinfo. -/
theorem split_text_withoutUserinfo (s : List Char) :
    split (split s).withoutUserinfo.text = (split s).withoutUserinfo := by
  have hhash := not_mem_cut '#' s
  have hquestion := not_mem_cut '?' (cut '#' s).1
  have hquery := cut_append '?' (cut '#' s).1
  have hauthority : splitAuthority (splitScheme (cut '?' (cut '#' s).1).1).2 =
      ((split s).authority, (split s).path) := rfl
  obtain ⟨hfront, hmem⟩ := splitScheme_withoutUserinfo (p := split s) rfl hauthority
  -- the text without the userinfo has no character that the text does not have
  have hhash' : '#' ∉ (split s).withoutUserinfo.front ++ behind '?' (split s).query := by
    refine fun h => hhash ?_
    rw [← hquery]
    rcases List.mem_append.1 h with h | h
    · exact List.mem_append_left _ (hmem _ h)
    · exact List.mem_append_right _ h
  exact split_eq (cut_append_behind hhash' _) (cut_append_behind (mt (hmem _) hquestion) _) hfront
    (splitAuthority_withoutUserinfo hauthority).1

end Uri
