import Beast2.Lib.Grammar

/-!
# Quoted strings

`quoted_string_t::parse` scans a quoted string at the front of a range and `unquote_string` takes
the quotes and the escapes off (`utils.cpp` and, letter for letter the same, `options.cpp`). The
scanner works on pointers, so here it works on the memory: the characters of the range and those
that follow it, with every position that it dereferences logged. Memory is finite, and a scanner
that dereferences behind it faults.

A quoted string is made of characters and escape pairs (`Piece`). Scanner and unescaper pair up the
backslashes in the same way, so a text that is quoted is scanned and unquoted exactly
(`quoted_roundTrip`). But a range that starts with a quote and holds no closing one is scanned
beyond its end: the scanner is inside its range exactly if there is no such quote
(`staysInside_iff`).
-/

namespace Beast2.Burl

open Grammar

/-! ## The scanner -/

/-- How a scan ends: with an error code, with the view of that many characters, or with a fault. -/
inductive ScanResult where
  | error (e : Grammar.Error)
  | view (size : Nat)
  | fault
deriving DecidableEq, Repr

/-- A scan: the positions that were dereferenced, where the iterator is, and how it ended. -/
structure Scan where
  reads : List Nat
  it : Nat
  result : ScanResult
deriving DecidableEq, Repr

/-- Where a loop of the scanner has come to: the positions that were dereferenced, the iterator, and
the memory from it on, `none` after a fault. -/
structure ScanLoop where
  reads : List Nat
  it : Nat
  cells : Option (List Char)
deriving DecidableEq, Repr

/-- A position that was dereferenced before. -/
def ScanLoop.read (p : Nat) (l : ScanLoop) : ScanLoop := { l with reads := p :: l.reads }

/-- The loop from the position `it` on, with the memory from there on. Reference:
`utils.cpp:66-70`. -/
def quotedLoop (last : Nat) : List Char → Nat → ScanLoop
  | [], it => if it = last then ⟨[], it, some []⟩ else ⟨[it], it, none⟩
  | c :: cells, it =>
    if it = last then ⟨[], it, some (c :: cells)⟩
    else if c = '"' then ⟨[it], it, some (c :: cells)⟩
    else if c = '\\' then
      -- the escaped character is passed over without being looked at
      match cells with
      | [] => ⟨[it, it + 2], it + 2, none⟩
      | _ :: cells => (quotedLoop last cells (it + 2)).read it
    else (quotedLoop last cells (it + 1)).read it

/-- The test behind the loop. Reference: `utils.cpp:72-75`. -/
def ScanLoop.close (l : ScanLoop) : Scan :=
  match l.cells with
  | none => ⟨l.reads, l.it, .fault⟩
  | some [] => ⟨l.reads ++ [l.it], l.it, .fault⟩
  | some (c :: _) =>
    if c ≠ '"' then ⟨l.reads ++ [l.it], l.it, .error .mismatch⟩
    else ⟨l.reads ++ [l.it], l.it + 1, .view (l.it + 1)⟩

/-- `quoted_string_t::parse` on a range with what follows it in memory. Reference: `utils.cpp:55`,
`options.cpp:49`. -/
def quotedParse (range after : List Char) : Scan :=
  match range with
  | [] => ⟨[], 0, .error .needMore⟩
  | c :: tl =>
    if c ≠ '"' then ⟨[0], 1, .error .mismatch⟩
    else ((quotedLoop range.length (tl ++ after) 1).read 0).close

/-! ## The unescaper -/

/-- The loop of `unquote_string`, `none` where it reads behind the end. Reference:
`utils.cpp:87-92`. -/
def unquoteLoop : List Char → Option (List Char)
  | [] => some []
  | c :: cs =>
    if c = '\\' then
      match cs with
      | [] => none
      | d :: cs => (unquoteLoop cs).map (d :: ·)
    else (unquoteLoop cs).map (c :: ·)

/-- `unquote_string`, `none` where it reads behind the end or takes off a character that is not
there. Reference: `utils.cpp:81`, `options.cpp:75`. -/
def unquoteString (sv : List Char) : Option (List Char) :=
  match sv with
  | [] => none
  | _ :: sv => if sv = [] then none else unquoteLoop sv.dropLast

/-! ## Quoted strings -/

/-- A piece of a quoted string: a character, or one behind a backslash. -/
structure Piece where
  char : Char
  escaped : Bool
  plain : escaped = false → char ≠ '"' ∧ char ≠ '\\'
deriving DecidableEq

/-- A piece as it stands in a quoted string. -/
def Piece.text (p : Piece) : List Char := if p.escaped then ['\\', p.char] else [p.char]

theorem Piece.text_of_escaped {p : Piece} (h : p.escaped = true) : p.text = ['\\', p.char] := by
  rw [text, if_pos h]

theorem Piece.text_of_plain {p : Piece} (h : p.escaped = false) : p.text = [p.char] := by
  rw [text, h]
  rfl

/-- The body of a quoted string. -/
def bodyText (ps : List Piece) : List Char := ps.flatMap Piece.text

/-- The quoted string of some pieces. -/
def quotedText (ps : List Piece) : List Char := '"' :: bodyText ps ++ ['"']

/-- A range starts with a complete quoted string. -/
def StartsQuoted (range : List Char) : Prop := ∃ ps, quotedText ps <+: range

/-- A character that is neither a quote nor a backslash. -/
def plainPiece (c : Char) (hquote : c ≠ '"') (hback : c ≠ '\\') : Piece :=
  ⟨c, false, fun _ => ⟨hquote, hback⟩⟩

/-- A character behind a backslash. -/
def escapePiece (c : Char) : Piece := ⟨c, true, nofun⟩

/-- A text by the quotes and backslashes in it: the body of a quoted string with a quote and more
behind it, a body and no quote, or a body and a backslash which escapes nothing. -/
inductive Scanned : List Char → Prop
  | closed (ps : List Piece) (rest : List Char) : Scanned (bodyText ps ++ '"' :: rest)
  | unclosed (ps : List Piece) : Scanned (bodyText ps)
  | dangling (ps : List Piece) : Scanned (bodyText ps ++ ['\\'])

theorem bodyText_cons (p : Piece) (ps : List Piece) :
    bodyText (p :: ps) = p.text ++ bodyText ps := List.flatMap_cons

theorem Scanned.cons {t : List Char} (h : Scanned t) (p : Piece) : Scanned (p.text ++ t) := by
  cases h with
  | closed ps rest =>
    rw [← List.append_assoc, ← bodyText_cons]
    exact .closed (p :: ps) rest
  | unclosed ps =>
    rw [← bodyText_cons]
    exact .unclosed (p :: ps)
  | dangling ps =>
    rw [← List.append_assoc, ← bodyText_cons]
    exact .dangling (p :: ps)

theorem scanned : ∀ t : List Char, Scanned t
  | [] => .unclosed []
  | c :: t => by
    by_cases hquote : c = '"'
    · subst hquote
      exact .closed [] t
    by_cases hback : c = '\\'
    · subst hback
      cases t with
      | nil => exact .dangling []
      | cons d t => exact (scanned t).cons (escapePiece d)
    · exact (scanned t).cons (plainPiece c hquote hback)

/-! ## What the scanner does with a body -/

theorem quotedLoop_piece {last it : Nat} (p : Piece) (cells : List Char) (hit : it ≠ last) :
    quotedLoop last (p.text ++ cells) it =
      (quotedLoop last cells (it + p.text.length)).read it := by
  cases hp : p.escaped with
  | true =>
    rw [Piece.text_of_escaped hp]
    show quotedLoop last ('\\' :: p.char :: cells) it = _
    rw [quotedLoop, if_neg hit, if_neg (by decide), if_pos rfl]
    rfl
  | false =>
    obtain ⟨hquote, hback⟩ := p.plain hp
    rw [Piece.text_of_plain hp]
    show quotedLoop last (p.char :: cells) it = _
    rw [quotedLoop.eq_def]
    simp only [if_neg hit, if_neg hquote, if_neg hback]
    rfl

/-- The loop passes over a body that ends in the range, and reads nothing but positions of it. -/
theorem quotedLoop_body {last : Nat} (ps : List Piece) (cells : List Char) {it : Nat}
    (hit : it + (bodyText ps).length ≤ last) :
    ∃ reads, (∀ p ∈ reads, p < last) ∧
      quotedLoop last (bodyText ps ++ cells) it =
        let l := quotedLoop last cells (it + (bodyText ps).length)
        { l with reads := reads ++ l.reads } := by
  induction ps generalizing it with
  | nil => exact ⟨[], nofun, rfl⟩
  | cons p ps ih =>
    have hpos : 0 < p.text.length := by
      rw [Piece.text]
      split <;> simp
    rw [bodyText_cons, List.length_append] at hit
    obtain ⟨reads, hreads, hloop⟩ := @ih (it + p.text.length) (by omega)
    refine ⟨it :: reads, List.forall_mem_cons.2 ⟨by omega, hreads⟩, ?_⟩
    rw [bodyText_cons, List.append_assoc, quotedLoop_piece p _ (by omega), hloop,
      List.length_append, Nat.add_assoc]
    rfl

/-- The loop never goes back. -/
theorem le_it_quotedLoop (last : Nat) (cells : List Char) (it : Nat) :
    it ≤ (quotedLoop last cells it).it := by
  fun_induction quotedLoop last cells it with
  | case1 | case2 | case3 | case4 => exact Nat.le_refl _
  | case5 => exact Nat.le_add_right _ 2
  | case6 it hit d cells hquote ih => exact Nat.le_trans (Nat.le_add_right it 2) ih
  | case7 c cells it hit hquote hback ih => exact Nat.le_trans (Nat.le_add_right it 1) ih

/-- The loop at a quote of the range. -/
theorem quotedLoop_quote {last it : Nat} (rest : List Char) (hit : it ≠ last) :
    quotedLoop last ('"' :: rest) it = ⟨[it], it, some ('"' :: rest)⟩ := by
  rw [quotedLoop.eq_def]
  simp only [if_neg hit, if_true]

/-- The loop at a backslash of the range passes over it and what it escapes. -/
theorem quotedLoop_backslash {last it : Nat} (cells : List Char) (hit : it ≠ last) :
    it + 2 ≤ (quotedLoop last ('\\' :: cells) it).it := by
  rw [quotedLoop.eq_def]
  simp only [if_neg hit, if_true]
  rw [if_neg (by decide)]
  cases cells with
  | nil => exact Nat.le_refl _
  | cons d cells => exact le_it_quotedLoop last cells (it + 2)

/-- The loop at the end of the range. -/
theorem quotedLoop_last (last : Nat) (cells : List Char) :
    quotedLoop last cells last = ⟨[], last, some cells⟩ := by
  rw [quotedLoop.eq_def]
  cases cells with
  | nil => simp only [if_true]
  | cons c cells => simp only [if_true]

/-! ## The three kinds of ranges that start with a quote -/

/-- A range that starts with a quote is scanned by the loop. -/
theorem quotedParse_quote (tl after : List Char) :
    quotedParse ('"' :: tl) after =
      ((quotedLoop (tl.length + 1) (tl ++ after) 1).read 0).close := rfl

theorem ScanLoop.le_it_close (l : ScanLoop) : l.it ≤ l.close.it := by
  unfold close
  split
  · exact Nat.le_refl _
  · exact Nat.le_refl _
  · split
    · exact Nat.le_refl _
    · exact Nat.le_add_right _ 1

/-- A complete quoted string is scanned to its end and not further. -/
theorem quotedParse_closed (ps : List Piece) (rest after : List Char) :
    ∃ reads, (∀ p ∈ reads, p < (quotedText ps ++ rest).length) ∧
      quotedParse (quotedText ps ++ rest) after =
        ⟨reads, (quotedText ps).length, .view (quotedText ps).length⟩ := by
  have hrange : quotedText ps ++ rest = '"' :: (bodyText ps ++ '"' :: rest) := by
    simp [quotedText]
  have hsize : (quotedText ps).length = 1 + (bodyText ps).length + 1 := by
    rw [quotedText, List.length_append, List.length_cons, List.length_singleton]
    omega
  have hlast : (bodyText ps ++ '"' :: rest).length + 1 =
      1 + (bodyText ps).length + 1 + rest.length := by
    rw [List.length_append, List.length_cons]
    omega
  obtain ⟨reads, hreads, hloop⟩ := @quotedLoop_body ((bodyText ps ++ '"' :: rest).length + 1) ps
    ('"' :: (rest ++ after)) 1 (by omega)
  rw [quotedLoop_quote _ (by omega)] at hloop
  refine ⟨0 :: (reads ++ [1 + (bodyText ps).length]) ++ [1 + (bodyText ps).length], ?_, ?_⟩
  · rw [hrange, List.length_cons]
    refine List.forall_mem_append.2 ⟨List.forall_mem_cons.2 ⟨by omega, ?_⟩, ?_⟩
    · refine List.forall_mem_append.2 ⟨hreads, List.forall_mem_singleton.2 ?_⟩
      omega
    · exact List.forall_mem_singleton.2 (by omega)
  · rw [hrange, quotedParse_quote, List.append_assoc, List.cons_append, hloop, hsize]
    rfl

/-- Without a closing quote the character behind the range is read. -/
theorem quotedParse_unclosed (ps : List Piece) (after : List Char) :
    ('"' :: bodyText ps).length ∈ (quotedParse ('"' :: bodyText ps) after).reads := by
  obtain ⟨reads, -, hloop⟩ := @quotedLoop_body ((bodyText ps).length + 1) ps after 1 (by omega)
  rw [Nat.add_comm 1, quotedLoop_last] at hloop
  rw [quotedParse_quote, hloop]
  cases after with
  | nil => simp [ScanLoop.read, ScanLoop.close]
  | cons c after =>
    simp only [ScanLoop.read, ScanLoop.close]
    split <;> simp

/-- With a backslash at the end of the range the iterator passes the end. -/
theorem quotedParse_dangling (ps : List Piece) (after : List Char) :
    ('"' :: (bodyText ps ++ ['\\'])).length <
      (quotedParse ('"' :: (bodyText ps ++ ['\\'])) after).it := by
  have hlast : (bodyText ps ++ ['\\']).length = (bodyText ps).length + 1 := List.length_append
  obtain ⟨reads, -, hloop⟩ := @quotedLoop_body ((bodyText ps ++ ['\\']).length + 1) ps
    ('\\' :: after) 1 (by omega)
  have hpast := @quotedLoop_backslash ((bodyText ps ++ ['\\']).length + 1)
    (1 + (bodyText ps).length) after (by omega)
  rw [quotedParse_quote, List.append_assoc, List.singleton_append, hloop, List.length_cons]
  refine Nat.lt_of_lt_of_le ?_ (ScanLoop.le_it_close _)
  refine Nat.lt_of_lt_of_le ?_ hpast
  omega

/-! ## What is accepted -/

/-- What the loop has passed over when it stops is a body, in the range or not. -/
theorem exists_body_of_quotedLoop {last : Nat} {cells : List Char} {it : Nat} {rest : List Char}
    (h : (quotedLoop last cells it).cells = some rest) :
    ∃ ps, cells = bodyText ps ++ rest ∧
      (quotedLoop last cells it).it = it + (bodyText ps).length := by
  fun_induction quotedLoop last cells it with
  | case1 | case3 | case4 =>
    cases h
    exact ⟨[], rfl, rfl⟩
  | case2 | case5 => cases h
  | case6 it hit d cells hquote ih =>
    obtain ⟨ps, hcells, hend⟩ := ih h
    refine ⟨escapePiece d :: ps, ?_, ?_⟩
    · rw [bodyText_cons, List.append_assoc, ← hcells]
      rfl
    · rw [bodyText_cons, List.length_append, ← Nat.add_assoc]
      exact hend
  | case7 c cells it hit hquote hback ih =>
    obtain ⟨ps, hcells, hend⟩ := ih h
    refine ⟨plainPiece c hquote hback :: ps, ?_, ?_⟩
    · rw [bodyText_cons, List.append_assoc, ← hcells]
      rfl
    · rw [bodyText_cons, List.length_append, ← Nat.add_assoc]
      exact hend

/-- A view is returned behind a quote. -/
theorem exists_quote_of_view {l : ScanLoop} {n : Nat} (h : l.close.result = .view n) :
    ∃ rest, l.cells = some ('"' :: rest) ∧ n = l.it + 1 := by
  unfold ScanLoop.close at h
  split at h
  · cases h
  · cases h
  · next c rest hcells =>
    split at h
    · cases h
    · next hc =>
      cases h
      exact ⟨rest, by rw [hcells, not_not.1 hc], rfl⟩

/-- A text that is accepted is a quoted string, in the range or not. -/
theorem exists_quotedText_of_view {range after : List Char} {n : Nat}
    (h : (quotedParse range after).result = .view n) :
    ∃ ps, (range ++ after).take n = quotedText ps := by
  cases range with
  | nil => cases h
  | cons c tl =>
    by_cases hquote : c = '"'
    · subst hquote
      rw [quotedParse_quote] at h
      obtain ⟨rest, hcells, hsize⟩ := exists_quote_of_view h
      obtain ⟨ps, hbody, hend⟩ := exists_body_of_quotedLoop hcells
      refine ⟨ps, ?_⟩
      have hn : n = (quotedText ps).length := by
        rw [hsize, quotedText, List.length_append, List.length_cons, List.length_singleton]
        show (quotedLoop _ _ 1).it + 1 = _
        omega
      have hall : '"' :: tl ++ after = quotedText ps ++ rest := by
        rw [List.cons_append, hbody]
        simp [quotedText]
      rw [hall, hn, List.take_left]
    · rw [quotedParse, if_pos hquote] at h
      cases h

theorem unquoteLoop_bodyText (ps : List Piece) :
    unquoteLoop (bodyText ps) = some (ps.map Piece.char) := by
  induction ps with
  | nil => rfl
  | cons p ps ih =>
    rw [bodyText_cons]
    cases hp : p.escaped with
    | true =>
      rw [Piece.text_of_escaped hp]
      show (unquoteLoop (bodyText ps)).map (p.char :: ·) = _
      rw [ih]
      rfl
    | false =>
      rw [Piece.text_of_plain hp]
      show unquoteLoop (p.char :: bodyText ps) = _
      rw [unquoteLoop.eq_def]
      simp only [if_neg (p.plain hp).2, ih]
      rfl

/-- `unquote_string` drops the two quotes and the backslash of every escape pair. -/
theorem unquoteString_quotedText (ps : List Piece) :
    unquoteString (quotedText ps) = some (ps.map Piece.char) := by
  have hne : bodyText ps ++ ['"'] ≠ [] := List.append_ne_nil_of_right_ne_nil _ (by simp)
  show (if bodyText ps ++ ['"'] = [] then none else unquoteLoop (bodyText ps ++ ['"']).dropLast) = _
  rw [if_neg hne, List.dropLast_concat, unquoteLoop_bodyText]

/-! ## Inside the range -/

/-- A scan stays inside its range: it reads and moves in the range only and accepts exactly the
ranges that start with a complete quoted string; and `unquote_string` reads no further than the end
of what it accepts. -/
structure StaysInside (range after : List Char) : Prop where
  reads : ∀ p ∈ (quotedParse range after).reads, p < range.length
  it : (quotedParse range after).it ≤ range.length
  accepts : (∃ n, (quotedParse range after).result = .view n) ↔ StartsQuoted range
  unquote : ∀ n, (quotedParse range after).result = .view n →
    (unquoteString ((range ++ after).take n)).isSome

section

variable {range after : List Char}

/-- `unquote_string` reads what the scan accepts. -/
theorem unquoteString_isSome_of_view {n : Nat} (hn : (quotedParse range after).result = .view n) :
    (unquoteString ((range ++ after).take n)).isSome := by
  obtain ⟨ps, hps⟩ := exists_quotedText_of_view hn
  rw [hps, unquoteString_quotedText]
  rfl

/-- A scan that stays inside starts with a complete quoted string if it starts with a quote. -/
theorem StaysInside.startsQuoted (h : StaysInside range after)
    (hhead : range.head? = some '"') : StartsQuoted range := by
  obtain ⟨tl, rfl⟩ := List.head?_eq_some_iff.1 hhead
  cases scanned tl with
  | closed ps rest => exact ⟨ps, rest, by simp [quotedText]⟩
  | unclosed ps => exact absurd (h.reads _ (quotedParse_unclosed ps after)) (Nat.lt_irrefl _)
  | dangling ps => exact absurd h.it (Nat.not_le_of_lt (quotedParse_dangling ps after))

/-- A complete quoted string is scanned inside the range. -/
theorem staysInside_of_startsQuoted (h : StartsQuoted range) : StaysInside range after := by
  obtain ⟨ps, rest, rfl⟩ := h
  obtain ⟨reads, hreads, hparse⟩ := quotedParse_closed ps rest after
  refine ⟨?_, ?_, ⟨fun _ => ⟨ps, rest, rfl⟩, fun _ => ?_⟩, fun _ => unquoteString_isSome_of_view⟩
  · rw [hparse]
    exact hreads
  · rw [hparse, List.length_append]
    exact Nat.le_add_right _ _
  · rw [hparse]
    exact ⟨_, rfl⟩

/-- A range that does not start with a quote is left at its first character. -/
theorem staysInside_of_head_ne (h : range.head? ≠ some '"') : StaysInside range after := by
  cases range with
  | nil =>
    refine ⟨nofun, Nat.le_refl 0, ⟨?_, ?_⟩, fun _ => unquoteString_isSome_of_view⟩
    · rintro ⟨n, hn⟩
      cases hn
    · rintro ⟨ps, hps⟩
      exact absurd (List.prefix_nil.1 hps) nofun
  | cons c tl =>
    have hquote : c ≠ '"' := fun hc => h (congrArg some hc)
    have hparse : quotedParse (c :: tl) after = ⟨[0], 1, .error .mismatch⟩ := by
      rw [quotedParse, if_pos hquote]
    refine ⟨?_, ?_, ⟨?_, ?_⟩, fun _ => unquoteString_isSome_of_view⟩
    · rw [hparse]
      exact List.forall_mem_singleton.2 (Nat.succ_pos _)
    · rw [hparse]
      exact Nat.succ_pos _
    · rintro ⟨n, hn⟩
      rw [hparse] at hn
      cases hn
    · rintro ⟨ps, hps⟩
      exact absurd (List.cons_prefix_cons.1 hps).1.symm hquote

end

/-- A scan stays inside its range exactly if the range, when it starts with a quote, starts with a
complete quoted string, whatever follows it in memory. -/
theorem staysInside_iff (range after : List Char) :
    StaysInside range after ↔ (range.head? = some '"' → StartsQuoted range) := by
  refine ⟨fun h => h.startsQuoted, fun h => ?_⟩
  by_cases hhead : range.head? = some '"'
  · exact staysInside_of_startsQuoted (h hhead)
  · exact staysInside_of_head_ne hhead

/-- The range `"a\` reads the second character behind it, and is accepted if that is a quote. -/
theorem backslash_not_staysInside :
    quotedParse "\"a\\".toList "b\"".toList = ⟨[0, 1, 2, 4, 4], 5, .view 5⟩ ∧
    ¬ StaysInside "\"a\\".toList "b\"".toList := by
  have hparse : quotedParse "\"a\\".toList "b\"".toList = ⟨[0, 1, 2, 4, 4], 5, .view 5⟩ := by
    decide
  refine ⟨hparse, fun h => ?_⟩
  have hit := h.it
  rw [hparse] at hit
  exact absurd hit (by decide)

/-! ## Quoting and unquoting -/

/-- A character as it is quoted. -/
def quotePiece (c : Char) : Piece :=
  if h : c = '"' ∨ c = '\\' then ⟨c, true, nofun⟩ else ⟨c, false, fun _ => not_or.1 h⟩

/-- A string in quotes, with a backslash before every quote and backslash of it. -/
def quote (s : List Char) : List Char :=
  '"' :: s.flatMap (fun c => if c = '"' ∨ c = '\\' then ['\\', c] else [c]) ++ ['"']

theorem quote_eq (s : List Char) : quote s = quotedText (s.map quotePiece) := by
  have htext : ∀ c, (if c = '"' ∨ c = '\\' then ['\\', c] else [c]) = (quotePiece c).text := by
    intro c
    unfold quotePiece
    split <;> rfl
  simp only [quote, quotedText, bodyText, List.flatMap_map, htext]

/-- A string that is quoted is accepted and consumed exactly, whatever follows it, and unquoting it
gives the string back; and unquoting any text that is accepted drops its two quotes and the
backslash of every escape pair. -/
theorem quoted_roundTrip :
    (∀ s rest after, (quotedParse (quote s ++ rest) after).result = .view (quote s).length ∧
      (quotedParse (quote s ++ rest) after).it = (quote s).length) ∧
    (∀ s, unquoteString (quote s) = some s) ∧
    ∀ range after n, (quotedParse range after).result = .view n →
      ∃ ps : List Piece, (range ++ after).take n = quotedText ps ∧
        unquoteString ((range ++ after).take n) = some (ps.map Piece.char) := by
  refine ⟨fun s rest after => ?_, fun s => ?_, fun range after n hn => ?_⟩
  · obtain ⟨reads, -, hparse⟩ := quotedParse_closed (s.map quotePiece) rest after
    rw [quote_eq, hparse]
    exact ⟨rfl, rfl⟩
  · have hchar : Piece.char ∘ quotePiece = id := by
      funext c
      show (quotePiece c).char = c
      unfold quotePiece
      split <;> rfl
    rw [quote_eq, unquoteString_quotedText, List.map_map, hchar, List.map_id]
  · obtain ⟨ps, hps⟩ := exists_quotedText_of_view hn
    exact ⟨ps, hps, by rw [hps, unquoteString_quotedText]⟩

end Beast2.Burl
