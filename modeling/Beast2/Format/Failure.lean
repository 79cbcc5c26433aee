import Beast2.Format.Correct

/-!
# What a failed format leaves behind

When `format_to` throws, the stream has received a part of the output. The scanner cuts a segment at
each pair of braces and both loops write segment by segment, so what has been written ends with a
pair: the format string up to and including the last `{{`, `}}` or placeholder with an argument in
front of the first token that is not one (`Done`), rendered. Literal text behind it is in a segment
that was not complete, and is lost (`formatTo_error`).
-/

namespace Beast2.Format

/-- A part of a format string that ends with a pair of braces, whose placeholders have arguments:
its rendering, and the arguments that are left. -/
inductive Done : List Char → List (List Char) → List Char → List (List Char) → Prop
  | nil (args : List (List Char)) : Done [] args [] args
  | escape {lit head t : List Char} {b : Char} {args left : List (List Char)} (hlit : NoBrace lit)
      (hb : b = '{' ∨ b = '}') (done : Done head args t left) :
      Done (lit ++ b :: b :: head) args (lit ++ b :: t) left
  | placeholder {lit head t : List Char} {args left : List (List Char)} (hlit : NoBrace lit)
      (a : List Char) (done : Done head args t left) :
      Done (lit ++ '{' :: '}' :: head) (a :: args) (lit ++ (a ++ t)) left

/-- A text starts with a token that stops the call: a brace that is malformed, or a placeholder when
no argument is left. -/
def Offends (rest : List Char) (left : List (List Char)) : Prop :=
  (∃ b r, rest = b :: r ∧ (b = '{' ∨ b = '}') ∧ ¬ Pair b r) ∨
    ∃ r, rest = '{' :: '}' :: r ∧ left = []

section

variable {s : FormatImpl} {lit r head t fs dest : List Char} {args left : List (List Char)}

/-- The part that is done is rendered as the format language says. -/
theorem Done.spec (h : Done head args t left) : spec head args = some t := by
  induction h with
  | nil args => exact spec_nil args
  | escape hlit hb _ ih =>
    rw [spec_append hlit]
    rcases hb with rfl | rfl
    · rw [spec_open, ih]
      rfl
    · rw [spec_close, ih]
      rfl
  | placeholder hlit a _ ih =>
    rw [spec_append hlit, spec_placeholder_cons, ih]
    rfl

/-- A segment that does not end at a placeholder is written, in either loop. -/
theorem call_text (ht : t ≠ []) (hn : s.next = .ok (t, ⟨s.os, [], r, false⟩)) :
    call s args = call ⟨s.os ++ t, [], r, false⟩ args := by
  cases args with
  | nil =>
    show tailLoop s = tailLoop _
    rw [tailLoop_step, hn]
    simp [ht, FormatImpl.write]
  | cons a args =>
    rw [call, call, List.foldlM_cons, List.foldlM_cons, doArg_text ht hn]

/-- A placeholder with an argument is written. -/
theorem call_placeholder (hseg : s.seg = []) (hlit : NoBrace lit)
    (hr : s.rest = lit ++ '{' :: '}' :: r) (a : List Char) :
    call s (a :: args) = call ⟨s.os ++ (lit ++ a), [], r, true⟩ args := by
  rw [call, List.foldlM_cons, doArg_placeholder hseg hlit hr]
  rfl

/-- Either loop throws at a token that stops it, and writes nothing in front. -/
theorem call_offends (hseg : s.seg = []) (hlit : NoBrace lit) (hoffends : Offends r args)
    (hr : s.rest = lit ++ r) : ∃ e, call s args = .error ⟨e, s.os⟩ := by
  rcases hoffends with ⟨b, r, rfl, hb, hp⟩ | ⟨r, rfl, rfl⟩
  · obtain ⟨e, he⟩ := FormatImpl.next_not_pair hseg hlit hb hp hr
    refine ⟨e, ?_⟩
    cases args with
    | nil =>
      show tailLoop s = _
      rw [tailLoop_step, he]
    | cons a args =>
      rw [call, List.foldlM_cons, doArg_error he]
      rfl
  · refine ⟨tooFewError, ?_⟩
    show tailLoop s = _
    rw [tailLoop_step, FormatImpl.next_placeholder hseg hlit hr]
    rfl

/-- A call writes the part that is done and throws at the token behind it. -/
theorem call_done (h : Done head args t left) (hlit : NoBrace lit) (hoffends : Offends r left)
    (hseg : s.seg = []) (hr : s.rest = head ++ lit ++ r) :
    ∃ e, call s args = .error ⟨e, s.os ++ t⟩ := by
  induction h generalizing s with
  | nil args =>
    rw [List.append_nil]
    exact call_offends hseg hlit hoffends hr
  | @escape lit' head t b args left hlit' hb _ ih =>
    have hr' : s.rest = lit' ++ b :: b :: (head ++ lit ++ r) := by
      rw [hr]
      simp
    have hnext : s.next = .ok (lit' ++ [b], ⟨s.os, [], head ++ lit ++ r, false⟩) := by
      rcases hb with rfl | rfl
      · exact FormatImpl.next_open hseg hlit' hr'
      · exact FormatImpl.next_close hseg hlit' hr'
    rw [call_text (by simp) hnext]
    obtain ⟨e, he⟩ := @ih ⟨s.os ++ (lit' ++ [b]), [], head ++ lit ++ r, false⟩ hoffends rfl rfl
    refine ⟨e, he.trans ?_⟩
    simp
  | @placeholder lit' head t args left hlit' a _ ih =>
    have hr' : s.rest = lit' ++ '{' :: '}' :: (head ++ lit ++ r) := by
      rw [hr]
      simp
    rw [call_placeholder hseg hlit' hr']
    obtain ⟨e, he⟩ := @ih ⟨s.os ++ (lit' ++ a), [], head ++ lit ++ r, true⟩ hoffends rfl rfl
    refine ⟨e, he.trans ?_⟩
    simp

/-- The first token that stops the call: the part in front of it that is done with its rendering,
the literal text between, and what starts with the token. -/
def Stops (fs : List Char) (args : List (List Char)) (t : List Char) : Prop :=
  ∃ head lit rest left, fs = head ++ lit ++ rest ∧ Done head args t left ∧ NoBrace lit ∧
    Offends rest left

theorem Stops.escape (h : Stops fs args t) (hlit : NoBrace lit) {b : Char}
    (hb : b = '{' ∨ b = '}') : Stops (lit ++ b :: b :: fs) args (lit ++ b :: t) := by
  obtain ⟨head, lit', rest, left, rfl, hdone, hlit', hoffends⟩ := h
  exact ⟨lit ++ b :: b :: head, lit', rest, left, by simp, .escape hlit hb hdone, hlit', hoffends⟩

theorem Stops.placeholder (h : Stops fs args t) (hlit : NoBrace lit) (a : List Char) :
    Stops (lit ++ '{' :: '}' :: fs) (a :: args) (lit ++ (a ++ t)) := by
  obtain ⟨head, lit', rest, left, rfl, hdone, hlit', hoffends⟩ := h
  exact ⟨lit ++ '{' :: '}' :: head, lit', rest, left, by simp, .placeholder hlit a hdone, hlit',
    hoffends⟩

theorem stops_of_offends (hlit : NoBrace lit) (hoffends : Offends r args) :
    Stops (lit ++ r) args [] :=
  ⟨[], lit, r, args, rfl, .nil args, hlit, hoffends⟩

/-- A format string that has no rendering has a token that stops the call. -/
theorem exists_stops (h : spec fs args = none) : ∃ t, Stops fs args t := by
  -- on the length of the text: a pair of braces is cut off its front
  induction hn : fs.length using Nat.strongRecOn generalizing fs args with
  | _ n ih =>
    rcases brace_split fs with hlit | ⟨lit, b, r, hlit, hb, rfl⟩
    · rw [spec_noBrace hlit] at h
      cases h
    rw [spec_append hlit, Option.map_eq_none_iff] at h
    have hlen : r.length < n := by
      rw [← hn, List.length_append, List.length_cons]
      omega
    by_cases hp : Pair b r
    · cases hp with
      | openOpen r =>
        rw [spec_open, Option.map_eq_none_iff] at h
        obtain ⟨t, ht⟩ := ih r.length (Nat.lt_of_succ_lt hlen) h rfl
        exact ⟨_, ht.escape hlit hb⟩
      | closeClose r =>
        rw [spec_close, Option.map_eq_none_iff] at h
        obtain ⟨t, ht⟩ := ih r.length (Nat.lt_of_succ_lt hlen) h rfl
        exact ⟨_, ht.escape hlit hb⟩
      | openClose r =>
        cases args with
        | nil => exact ⟨[], stops_of_offends hlit (.inr ⟨r, rfl, rfl⟩)⟩
        | cons a args =>
          rw [spec_placeholder_cons, Option.map_eq_none_iff] at h
          obtain ⟨t, ht⟩ := ih r.length (Nat.lt_of_succ_lt hlen) h rfl
          exact ⟨_, ht.placeholder hlit a⟩
    · exact ⟨[], stops_of_offends hlit (.inl ⟨b, r, rfl, hb, hp⟩)⟩

/-- A call that stops at a token has written the part that is done. -/
theorem formatTo_of_stops (h : Stops fs args t) :
    ∃ e, formatTo dest fs args = .error ⟨e, dest ++ t⟩ := by
  obtain ⟨head, lit, rest, left, hfs, hdone, hlit, hoffends⟩ := h
  obtain ⟨e, he⟩ := call_done (s := .init dest fs) hdone hlit hoffends rfl hfs
  refine ⟨e, ?_⟩
  rw [formatTo, he]
  rfl

end

/-- A call that throws leaves what was in `dest` and behind it the rendering of the format string up
to and including the last pair of braces in front of the first token that stops the call, and no
text behind that pair. There is such a token if it throws, and it throws if there is one. -/
theorem formatTo_error (dest fs : List Char) (args : List (List Char)) :
    (∀ e, formatTo dest fs args = .error e → ∃ head lit rest left t,
      fs = head ++ lit ++ rest ∧ Done head args t left ∧ NoBrace lit ∧ Offends rest left ∧
      spec head args = some t ∧ e.os = dest ++ t) ∧
    ∀ head lit rest left t, fs = head ++ lit ++ rest → Done head args t left → NoBrace lit →
      Offends rest left → ∃ e, formatTo dest fs args = .error ⟨e, dest ++ t⟩ := by
  refine ⟨fun e he => ?_, fun head lit rest left t hfs hdone hlit hoffends => ?_⟩
  · have hspec : (spec fs args).map (dest ++ ·) = none := by
      rw [← formatTo_spec, he]
      rfl
    obtain ⟨t, ht⟩ := exists_stops (Option.map_eq_none_iff.1 hspec)
    obtain ⟨e', he'⟩ := @formatTo_of_stops t fs dest args ht
    obtain ⟨head, lit, rest, left, hfs, hdone, hlit, hoffends⟩ := ht
    rw [he] at he'
    refine ⟨head, lit, rest, left, t, hfs, hdone, hlit, hoffends, hdone.spec, ?_⟩
    rw [Except.error.inj he']
  · exact formatTo_of_stops ⟨head, lit, rest, left, hfs, hdone, hlit, hoffends⟩

end Beast2.Format
