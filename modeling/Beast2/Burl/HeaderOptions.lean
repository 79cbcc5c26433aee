import Beast2.Burl.Netscape
import Beast2.Burl.UserChoices

/-!
# The header options

`-H` gives a field with its value, an empty field with a semicolon, or a field to leave out with a
colon and nothing behind it; with an at sign it gives a file with one of these in each line. From
these `parse_args` makes `headers` and `omitheaders` (`options.cpp:1156-1187`), `create_request`
makes the fields of the first request from them, and the loop of `perform_request` edits it from
redirect to redirect.

`HeadersSent` says what the texts of the options mean for a field, whatever their order: it is left
out if one of them leaves it out, else it has the value that was given last, else the one that it
has without the options. Every request of a transfer has the fields that are meant, but for those
that the loop writes itself (`headers_in_every_request`).
-/

namespace Beast2.Burl

open Loop Fields

/-! ## The options -/

/-- `http::fields::set`: the value that is kept for a name and a value, or what is thrown. -/
abbrev FieldSet := List Char → List Char → Except Thrown (List Char)

/-- What `any_istream` reads from a file, after the files that were read before, or what it
throws. -/
abbrev Inputs := List (List Char) → List Char → Except Thrown (List Char)

/-- The members of `operation_config` that the header options change. -/
structure HeaderOptions where
  headers : FieldList := []
  omitheaders : List (List Char) := []
deriving DecidableEq, Repr

/-- `oc.headers.set`. -/
def setHeader (set : FieldSet) (o : HeaderOptions) (name value : List Char) :
    Except Thrown HeaderOptions := do
  let value ← set name value
  .ok { o with headers := Container.set o.headers name value }

/-- `add_header`. Reference: `options.cpp:1158`. -/
def addHeader (set : FieldSet) (o : HeaderOptions) (sv : List Char) :
    Except Thrown HeaderOptions :=
  if ':' ∈ sv then
    let name := sv.takeWhile (· ≠ ':')
    let value := sv.drop (name.length + 1)
    if !value.isEmpty then setHeader set o name value
    else .ok { o with omitheaders := o.omitheaders ++ [name] }
  else if ';' ∈ sv then setHeader set o (sv.takeWhile (· ≠ ';')) []
  else .ok o

/-- The loop over the header options. Reference: `options.cpp:1174-1187`. -/
def headerLoop (set : FieldSet) (input : Inputs) :
    List (List Char) → HeaderOptions → List (List Char) → Except Thrown HeaderOptions
  | _, o, [] => .ok o
  | read, o, ('@' :: path) :: svs => do
    let text ← input read path
    let o ← (getlines text).foldlM (addHeader set) o
    headerLoop set input (read ++ [path]) o svs
  | read, o, sv :: svs => do
    let o ← addHeader set o sv
    headerLoop set input read o svs

/-- The header options of a command line. -/
def headerOptions (set : FieldSet) (input : Inputs) (svs : List (List Char)) :
    Except Thrown HeaderOptions :=
  headerLoop set input [] {} svs

/-! ## What they mean -/

/-- The texts of the options, those of files line by line. -/
def headerTexts (input : Inputs) :
    List (List Char) → List (List Char) → Except Thrown (List (List Char))
  | _, [] => .ok []
  | read, ('@' :: path) :: svs => do
    let text ← input read path
    let texts ← headerTexts input (read ++ [path]) svs
    .ok (getlines text ++ texts)
  | read, sv :: svs => do
    let texts ← headerTexts input read svs
    .ok (sv :: texts)

/-- What a text asks for. -/
inductive HeaderLine where
  | field (name value : List Char)
  | omit (name : List Char)
  | nothing
deriving DecidableEq, Repr

def headerLine (sv : List Char) : HeaderLine :=
  if ':' ∈ sv then
    let name := sv.takeWhile (· ≠ ':')
    let value := sv.drop (name.length + 1)
    if value.isEmpty then .omit name else .field name value
  else if ';' ∈ sv then .field (sv.takeWhile (· ≠ ';')) []
  else .nothing

/-- A text leaves out the field of a name. -/
def LeavesOut (n sv : List Char) : Prop := ∃ m, headerLine sv = .omit m ∧ canon n = canon m

/-- A text gives a value for a name. -/
def Gives (n v sv : List Char) : Prop := ∃ m, headerLine sv = .field m v ∧ canon n = canon m

/-- The values of a field are those that the texts mean. -/
structure HeadersSent (set : FieldSet) (texts : List (List Char)) (n : List Char)
    (bare vs : List (List Char)) : Prop where
  left : (∃ sv ∈ texts, LeavesOut n sv) → vs = []
  given : (∀ sv ∈ texts, ¬ LeavesOut n sv) → ∀ l sv l' m v, texts = l ++ sv :: l' →
    headerLine sv = .field m v → canon n = canon m → (∀ sv' ∈ l', ∀ v', ¬ Gives n v' sv') →
    ∃ v', set m v = .ok v' ∧ vs = [v']
  unnamed : (∀ sv ∈ texts, ¬ LeavesOut n sv ∧ ∀ v, ¬ Gives n v sv) → vs = bare

/-- The field that a text sets, with the value that is kept. -/
def written (set : FieldSet) (sv : List Char) : Option (List Char × List Char) :=
  match headerLine sv with
  | .field m v => (set m v).toOption.map (m, ·)
  | _ => none

/-- The field that a text leaves out. -/
def leftOut (sv : List Char) : Option (List Char) :=
  match headerLine sv with
  | .omit m => some m
  | _ => none

section
variable {set : FieldSet} {input : Inputs} {o o' : HeaderOptions}

/-- The options after some texts. -/
structure Collects (set : FieldSet) (texts : List (List Char)) (o o' : HeaderOptions) : Prop where
  headers : o'.headers =
    (texts.filterMap (written set)).foldl (fun l h => Container.set l h.1 h.2) o.headers
  omitheaders : o'.omitheaders = o.omitheaders ++ texts.filterMap leftOut
  kept : ∀ sv ∈ texts, ∀ m v, headerLine sv = .field m v → ∃ v', set m v = .ok v'

theorem collects_nil (o : HeaderOptions) : Collects set [] o o :=
  ⟨rfl, (List.append_nil _).symm, fun sv hsv => by cases hsv⟩

theorem Collects.trans {o'' : HeaderOptions} {l l' : List (List Char)} (h : Collects set l o o')
    (h' : Collects set l' o' o'') : Collects set (l ++ l') o o'' := by
  refine ⟨?_, ?_, fun sv hsv => ?_⟩
  · rw [h'.headers, h.headers, List.filterMap_append, List.foldl_append]
  · rw [h'.omitheaders, h.omitheaders, List.filterMap_append, List.append_assoc]
  · rcases List.mem_append.1 hsv with hsv | hsv
    · exact h.kept sv hsv
    · exact h'.kept sv hsv

/-- A text that gives a field. -/
theorem collects_setHeader {sv m v : List Char} (hline : headerLine sv = .field m v)
    (h : setHeader set o m v = .ok o') : Collects set [sv] o o' := by
  unfold setHeader at h
  cases hset : set m v with
  | error e =>
    rw [hset] at h
    cases h
  | ok v' =>
    rw [hset] at h
    cases h
    have hwritten : written set sv = some (m, v') := by
      simp only [written, hline, hset]
      rfl
    have hleft : leftOut sv = none := by simp only [leftOut, hline]
    refine ⟨?_, ?_, fun sv' hsv' m' v'' hline' => ?_⟩
    · rw [List.filterMap_cons_some hwritten]
      rfl
    · rw [List.filterMap_cons_none hleft]
      exact (List.append_nil _).symm
    · cases List.mem_singleton.1 hsv'
      cases hline.symm.trans hline'
      exact ⟨v', hset⟩

/-- `add_header` does what its text asks for. -/
theorem collects_addHeader {sv : List Char} (h : addHeader set o sv = .ok o') :
    Collects set [sv] o o' := by
  unfold addHeader at h
  dsimp only at h
  split at h
  · next hcolon =>
    split at h
    · next hvalue =>
      refine collects_setHeader ?_ h
      rw [headerLine, if_pos hcolon, if_neg]
      simpa using hvalue
    · next hvalue =>
      cases h
      have hline : headerLine sv = .omit (sv.takeWhile (· ≠ ':')) := by
        rw [headerLine, if_pos hcolon, if_pos]
        simpa using hvalue
      have hwritten : written set sv = none := by simp only [written, hline]
      have hleft : leftOut sv = some (sv.takeWhile (· ≠ ':')) := by simp only [leftOut, hline]
      refine ⟨?_, ?_, fun sv' hsv' m v hline' => ?_⟩
      · rw [List.filterMap_cons_none hwritten]
        rfl
      · rw [List.filterMap_cons_some hleft]
        rfl
      · cases List.mem_singleton.1 hsv'
        cases hline.symm.trans hline'
  next hcolon =>
  split at h
  · next hsemicolon =>
    refine collects_setHeader ?_ h
    rw [headerLine, if_neg hcolon, if_pos hsemicolon]
  · next hsemicolon =>
    cases h
    have hline : headerLine sv = .nothing := by rw [headerLine, if_neg hcolon, if_neg hsemicolon]
    have hwritten : written set sv = none := by simp only [written, hline]
    have hleft : leftOut sv = none := by simp only [leftOut, hline]
    refine ⟨?_, ?_, fun sv' hsv' m v hline' => ?_⟩
    · rw [List.filterMap_cons_none hwritten]
      rfl
    · rw [List.filterMap_cons_none hleft]
      exact (List.append_nil _).symm
    · cases List.mem_singleton.1 hsv'
      cases hline.symm.trans hline'

/-- The lines of a file, one after the other. -/
theorem collects_foldlM {texts : List (List Char)} (h : texts.foldlM (addHeader set) o = .ok o') :
    Collects set texts o o' := by
  induction texts generalizing o with
  | nil =>
    cases h
    exact collects_nil _
  | cons sv texts ih =>
    rw [List.foldlM_cons] at h
    cases hadd : addHeader set o sv with
    | error e =>
      rw [hadd] at h
      cases h
    | ok o₁ =>
      rw [hadd] at h
      exact (collects_addHeader hadd).trans (ih h)

/-- The loop collects what the texts of all options ask for. -/
theorem collects_headerLoop {read svs : List (List Char)}
    (h : headerLoop set input read o svs = .ok o') :
    ∃ texts, headerTexts input read svs = .ok texts ∧ Collects set texts o o' := by
  fun_induction headerLoop set input read o svs with
  | case1 read o =>
    cases h
    exact ⟨[], rfl, collects_nil _⟩
  | case2 read o path svs ih =>
    cases htext : input read path with
    | error e =>
      rw [htext] at h
      cases h
    | ok text =>
      rw [htext] at h
      cases hlines : (getlines text).foldlM (addHeader set) o with
      | error e =>
        have hbind : (getlines text).foldlM (addHeader set) o >>=
            (fun o => headerLoop set input (read ++ [path]) o svs) = .ok o' := h
        rw [hlines] at hbind
        cases hbind
      | ok o₁ =>
        have hbind : (getlines text).foldlM (addHeader set) o >>=
            (fun o => headerLoop set input (read ++ [path]) o svs) = .ok o' := h
        rw [hlines] at hbind
        obtain ⟨texts, htexts, hcollects⟩ := ih o₁ hbind
        refine ⟨getlines text ++ texts, ?_, (collects_foldlM hlines).trans hcollects⟩
        rw [headerTexts, htext]
        change (headerTexts input (read ++ [path]) svs >>= _) = _
        rw [htexts]
        rfl
  | case3 read o sv svs hne ih =>
    cases hadd : addHeader set o sv with
    | error e =>
      rw [hadd] at h
      cases h
    | ok o₁ =>
      rw [hadd] at h
      obtain ⟨texts, htexts, hcollects⟩ := ih o₁ h
      refine ⟨sv :: texts, ?_, (collects_addHeader hadd).trans hcollects⟩
      rw [headerTexts, htexts]
      · rfl
      · exact hne

end

/-! ## The fields that are meant -/

section
variable {set : FieldSet} {texts : List (List Char)} {o : HeaderOptions} {n : List Char}

theorem written_eq_some {sv : List Char} {w : List Char × List Char}
    (h : written set sv = some w) : ∃ v, headerLine sv = .field w.1 v ∧ set w.1 v = .ok w.2 := by
  unfold written at h
  split at h
  · next m v hline =>
    cases hset : set m v with
    | error e =>
      rw [hset] at h
      cases h
    | ok v' =>
      rw [hset] at h
      cases h
      exact ⟨v, hline, hset⟩
  · cases h

theorem leftOut_eq_some {sv m : List Char} : leftOut sv = some m ↔ headerLine sv = .omit m := by
  unfold leftOut
  split
  · next m' hline =>
    rw [hline, Option.some.injEq, HeaderLine.omit.injEq]
  · next hne => exact ⟨fun h => (by cases h), fun h => absurd h (hne m)⟩

/-- The values of a name in the collected headers: the one that was set last. -/
theorem findAll_headers (h : Collects set texts {} o) :
    findAll o.headers n =
      (((texts.filterMap (written set)).filter fun w => canon w.1 = canon n).map
        (·.2)).getLast?.toList := by
  rw [h.headers, findAll_foldl_last]
  cases (((texts.filterMap (written set)).filter fun w => canon w.1 = canon n).map
    (·.2)).getLast? with
  | none => exact Container.findAll_empty n
  | some v => rfl

/-- Nothing is set for a name that no text gives. -/
theorem filter_written_eq_nil {l : List (List Char)} (h : ∀ sv ∈ l, ∀ v, ¬ Gives n v sv) :
    (l.filterMap (written set)).filter (fun w => canon w.1 = canon n) = [] := by
  refine List.filter_eq_nil_iff.2 fun w hw hcanon => ?_
  obtain ⟨sv, hsv, hwritten⟩ := List.mem_filterMap.1 hw
  obtain ⟨v, hline, -⟩ := written_eq_some hwritten
  exact h sv hsv v ⟨w.1, hline, (of_decide_eq_true hcanon).symm⟩

/-- The names that are left out. -/
theorem mem_omitheaders (h : Collects set texts {} o) :
    (∃ m ∈ o.omitheaders, canon n = canon m) ↔ ∃ sv ∈ texts, LeavesOut n sv := by
  rw [h.omitheaders]
  constructor
  · rintro ⟨m, hm, hcanon⟩
    obtain ⟨sv, hsv, hleft⟩ := List.mem_filterMap.1 hm
    exact ⟨sv, hsv, m, leftOut_eq_some.1 hleft, hcanon⟩
  · rintro ⟨sv, hsv, m, hline, hcanon⟩
    exact ⟨m, List.mem_filterMap.2 ⟨sv, hsv, leftOut_eq_some.2 hline⟩, hcanon⟩

/-- Values that are those of the collected headers, unless the name is left out or not given, are
those that the texts mean. -/
theorem headersSent_of_collects (h : Collects set texts {} o) {bare vs : List (List Char)}
    (hleft : (∃ m ∈ o.omitheaders, canon n = canon m) → vs = [])
    (hset : ¬ (∃ m ∈ o.omitheaders, canon n = canon m) →
      vs = match (findAll o.headers n).getLast? with
        | some v => [v]
        | none => bare) : HeadersSent set texts n bare vs := by
  refine ⟨fun hsv => hleft ((mem_omitheaders h).2 hsv), fun hnot l sv l' m v htexts hline hcanon
    hlater => ?_, fun hnot => ?_⟩
  · have hmem : sv ∈ texts := by
      rw [htexts]
      exact List.mem_append_right _ (.head _)
    obtain ⟨v', hv'⟩ := h.kept sv hmem m v hline
    have hwritten : written set sv = some (m, v') := by
      simp only [written, hline, hv']
      rfl
    refine ⟨v', hv', ?_⟩
    have hnone : ¬ ∃ m ∈ o.omitheaders, canon n = canon m := by
      rw [mem_omitheaders h]
      rintro ⟨sv', hsv', hleaves⟩
      exact hnot sv' hsv' hleaves
    -- no text behind this one gives the name
    have hlast : findAll o.headers n = [v'] := by
      rw [findAll_headers h, htexts, List.filterMap_append, List.filterMap_cons_some hwritten,
        List.filter_append, List.filter_cons, filter_written_eq_nil hlater]
      simp [hcanon]
    rw [hset hnone, hlast]
    rfl
  · have hnone : ¬ ∃ m ∈ o.omitheaders, canon n = canon m := by
      rw [mem_omitheaders h]
      rintro ⟨sv', hsv', hleaves⟩
      exact (hnot sv' hsv').1 hleaves
    have hempty : findAll o.headers n = [] := by
      rw [findAll_headers h, filter_written_eq_nil fun sv hsv => (hnot sv hsv).2]
      rfl
    rw [hset hnone, hempty]
    rfl

end

/-! ## The first request -/

section
variable {F Ref : Type} [Container F] {build : Build} {oc : OperationConfig} {msg : Message}
  {url : Url} {request bare : Request F} {o : HeaderOptions}

/-- The options of a command line with these header options. -/
def OperationConfig.withHeaders (oc : OperationConfig) (o : HeaderOptions) : OperationConfig :=
  { oc with headers := o.headers, omitheaders := o.omitheaders }

theorem fields_foldl_set (hs : List (List Char × List Char)) (r : Request F) :
    (hs.foldl (fun r h => r.set h.1 h.2) r).fields =
      hs.foldl (fun f h => Container.set f h.1 h.2) r.fields := by
  induction hs generalizing r with
  | nil => rfl
  | cons h hs ih => exact ih _

/-- The header options are applied last, those that leave fields out behind the others. -/
theorem findAll_withHeaders (h : createRequest build (oc.withHeaders o) msg url = .ok request)
    (hbare : createRequest build (oc.withHeaders {}) msg url = .ok bare) {n : List Char}
    (hnot : ¬ ∃ m ∈ o.omitheaders, canon n = canon m) :
    findAll request.fields n = match (findAll o.headers n).getLast? with
      | some v => [v]
      | none => findAll bare.fields n := by
  unfold createRequest at h hbare
  split at h
  · cases h
  split at hbare
  · cases hbare
  cases h
  cases hbare
  refine (findAll_foldl_erase (fun m hm hcanon => hnot ⟨m, hm, hcanon⟩) _).trans ?_
  rw [fields_foldl_set, findAll_foldl_last]
  rfl

/-- The first request has the fields that are meant. -/
theorem headersSent_createRequest {set : FieldSet} {texts : List (List Char)}
    (hcollects : Collects set texts {} o)
    (h : createRequest build (oc.withHeaders o) msg url = .ok request)
    (hbare : createRequest build (oc.withHeaders {}) msg url = .ok bare) (n : List Char) :
    HeadersSent set texts n (findAll bare.fields n) (findAll request.fields n) :=
  headersSent_of_collects hcollects (fun hleft => findAll_createRequest_omitted h hleft)
    (findAll_withHeaders h hbare)

/-- Without header options there is a first request too. -/
theorem exists_bare (h : createRequest build (oc.withHeaders o) msg url = .ok request) :
    ∃ bare : Request F, createRequest build (oc.withHeaders {}) msg url = .ok bare := by
  unfold createRequest at h ⊢
  split at h
  · cases h
  · next hallowed => exact ⟨_, if_neg hallowed⟩

/-! ## The requests of a transfer -/

/-- The fields that the loop of `perform_request` writes itself. -/
def loopFields : List (List Char) :=
  [Field.cookie, Field.authorization, Field.referer, Field.host, Field.contentLength,
    Field.contentEncoding, Field.contentType, Field.expect]

/-- A field that the loop leaves alone. -/
def LeftAlone (n : List Char) : Prop := ∀ m ∈ loopFields, canon n ≠ canon m

/-- The fields that the loop leaves alone are those of another container. -/
def SameFields (f f' : F) : Prop := ∀ n, LeftAlone n → findAll f' n = findAll f n

variable {urls : Urls Ref} {psl : Psl} {expCookies : List Char} {orgUrl : Url} {t t' : Transfer F}
  {f : F}

theorem SameFields.setCookieField {r : Request F} (h : SameFields f r.fields)
    (cookie : List Char) : SameFields f (setCookieField r cookie).fields := by
  intro n hn
  rw [findAll_setCookieField_ne (hn _ (by decide))]
  exact h n hn

/-- A change of the method takes out fields of the body. -/
theorem SameFields.changeMethod {r : Request F} (h : SameFields f r.fields) :
    SameFields f (changeMethod r).fields := by
  intro n hn
  unfold Burl.changeMethod Request.erase
  dsimp only
  rw [findAll_erase_ne (hn _ (by decide)), findAll_erase_ne (hn _ (by decide)),
    findAll_erase_ne (hn _ (by decide)), findAll_erase_ne (hn _ (by decide))]
  exact h n hn

theorem SameFields.followRedirect (h : SameFields f t.request.fields) (urls : Urls Ref)
    (oc : OperationConfig) (orgUrl : Url) (need : Bool) (url : Url) :
    SameFields f (followRedirect urls oc orgUrl need t url).request.fields := by
  intro n hn
  rw [findAll_followRedirect_ne (hn _ (by decide)) (hn _ (by decide)) (hn _ (by decide))]
  split
  · exact h.changeMethod n hn
  · exact h n hn

/-- The request of a turn has the fields of the transfer's. -/
theorem SameFields.sent (h : SameFields f t.request.fields) {s : Sent F}
    (hsent : t.sent expCookies = some s) : SameFields f s.request.fields := by
  obtain ⟨x, -, hsent⟩ := Option.bind_eq_some_iff.1 hsent
  obtain ⟨⟨request, jar⟩, hset, hsent⟩ := Option.bind_eq_some_iff.1 hsent
  obtain ⟨⟨cookie, jar'⟩, -, hset⟩ := Option.bind_eq_some_iff.1 hset
  cases hset
  cases hsent
  exact h.setCookieField _

/-- The request at hand and those of the log have the fields of the first one. -/
structure Transfer.KeepsFields (f : F) (t : Transfer F) : Prop where
  request : SameFields f t.request.fields
  sends : ∀ s ∈ sends t.log, SameFields f s.request.fields

/-- A turn that goes round. -/
theorem Transfer.KeepsFields.turn_next (h : t.KeepsFields f)
    (hturn : t.turn urls psl oc expCookies orgUrl = .next t') : t'.KeepsFields f := by
  rcases @Transfer.turn_cases F Ref _ urls psl oc expCookies orgUrl t with
    ⟨e, t', heq, -⟩ | ⟨s, res, t₀, t₁, url, heq, hsends, -, hfollows⟩
  · cases hturn.symm.trans heq
  cases hturn.symm.trans heq
  have hs : SameFields f s.request.fields := h.request.sent hsends.sent
  have hreq : t₁.request = s.request := hfollows.request.trans hsends.request
  refine ⟨?_, fun s' hs' => ?_⟩
  · refine SameFields.followRedirect ?_ urls oc orgUrl _ url
    rw [hreq]
    exact hs
  · rw [Transfer.sends_followRedirect urls orgUrl _ hsends hfollows] at hs'
    rcases List.mem_append.1 hs' with hs' | hs'
    · exact h.sends s' hs'
    · exact List.mem_singleton.1 hs' ▸ hs

/-- All requests of a transfer have the fields of the one it begins with. -/
theorem Transfer.KeepsFields.loop (h : t.KeepsFields f) :
    ∀ s ∈ Burl.sends (t.loop urls psl oc expCookies orgUrl).2.log,
      SameFields f s.request.fields := by
  refine run_rec (P := fun (t : Transfer F) (r : Ending F × Transfer F) => t.KeepsFields f →
    ∀ s ∈ Burl.sends r.2.log, SameFields f s.request.fields) ?_ ?_ t h
  · intro t r hturn h s hs
    rcases @Transfer.turn_cases F Ref _ urls psl oc expCookies orgUrl t with
      ⟨e, t', heq, hlog, -⟩ | ⟨s', res, t₀, t₁, url, heq, -⟩
    · cases hturn.symm.trans heq
      rw [hlog, Transfer.sends_sent] at hs
      rcases List.mem_append.1 hs with hs | hs
      · exact h.sends s hs
      · exact h.request.sent (Option.mem_toList.1 hs)
    · cases hturn.symm.trans heq
  · exact fun t t' r hturn hrest h => hrest (h.turn_next hturn)

/-- A request has the values that the texts mean for all fields that the loop leaves alone, where
`bare` is the first request without header options. -/
def Sent.HasHeaders (set : FieldSet) (texts : List (List Char)) (build : Build)
    (oc : OperationConfig) (msg : Message) (url : Url) (s : Sent F) : Prop :=
  ∃ bare : Request F, createRequest build (oc.withHeaders {}) msg url = .ok bare ∧
    ∀ n, LeftAlone n →
      HeadersSent set texts n (findAll bare.fields n) (findAll s.request.fields n)

/-- For any header options that `parse_args` accepts and any transfer with them, through all
redirects: every request has, for every name but those of the fields that the loop writes itself,
the values that the texts of the options mean. -/
theorem headers_in_every_request (set : FieldSet) (input : Inputs) (svs : List (List Char))
    (o : HeaderOptions) (ho : headerOptions set input svs = .ok o) (urls : Urls Ref) (psl : Psl)
    (build : Build) (oc : OperationConfig) (expCookies : List Char) (msg : Message) (url : Url)
    (jar : Option (List Cookie)) (connected : Bool) (exchanges : List (Exchange F)) :
    ∃ texts, headerTexts input [] svs = .ok texts ∧
      ∀ s ∈ sends (performRequest urls psl build (oc.withHeaders o) expCookies msg url jar connected
        exchanges).2, s.HasHeaders set texts build oc msg url := by
  obtain ⟨texts, htexts, hcollects⟩ := collects_headerLoop ho
  refine ⟨texts, htexts, ?_⟩
  refine performRequest_log
    (P := fun log => ∀ s ∈ sends log, s.HasHeaders set texts build oc msg url) ?_ ?_
  · intro s hs
    cases hs
  · intro request hrequest s hs
    obtain ⟨bare, hbare⟩ := exists_bare hrequest
    refine ⟨bare, hbare, fun n hn => ?_⟩
    have hkeeps : Transfer.KeepsFields request.fields
        ⟨request, msg, url, url, true, (oc.withHeaders o).maxredirs, jar, exchanges,
          [.connect url]⟩ :=
      ⟨fun _ _ => rfl, fun s' hs' => by cases hs'⟩
    rw [hkeeps.loop s hs n hn]
    exact headersSent_createRequest hcollects hrequest hbare n

end

/-- `burl -L -H "X-A: 1" -H @f`, where the file has the lines `Accept:` and `x-a: 2`. -/
def traceOptions : List (List Char) := ["X-A: 1".toList, "@f".toList]

def traceFile : Inputs := fun _ _ => .ok "Accept:\nx-a: 2".toList

def traceHeaders : HeaderOptions := ⟨[("x-a".toList, " 2".toList)], ["Accept".toList]⟩

/-- The line of the file wins over the option before it, at the first site and at the other one. -/
theorem traceHeaders_sent :
    let set : FieldSet := fun _ v => .ok v
    let log := (performRequest (F := FieldList) twoSites none ⟨true, true⟩
      (withPassword.withHeaders traceHeaders) [] none home none true [hop away, hop home]).2
    ((sends log).map fun s => (findAll s.request.fields "X-A".toList,
      findAll s.request.fields Field.accept)) = [([" 2".toList], []), ([" 2".toList], [])] ∧
    ∃ texts, headerTexts traceFile [] traceOptions = .ok texts ∧
      ∀ s ∈ sends log, s.HasHeaders set texts ⟨true, true⟩ withPassword none home :=
  ⟨by decide +kernel, headers_in_every_request _ traceFile traceOptions traceHeaders
    (by decide +kernel) twoSites none ⟨true, true⟩ withPassword [] none home none true
    [hop away, hop home]⟩

end Beast2.Burl
