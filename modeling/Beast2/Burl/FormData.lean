import Beast2.Lib.Split
import Beast2.Burl.Numbers

/-!
# URL-encoded form data

`--data-urlencode` and `--url-query` take arguments `name=content`, encode the contents and join the
items with `&` (`options.cpp:843-1062`). Whoever reads form data splits it at `&`, each item at its
first `=`, reads `+` as a space and decodes the percent-encoded bytes. The contents are encoded with
`pchars`, the characters of a path segment, which has both `&` and `+` in it; these come out as they
are. So the pairs are read back exactly if no content has one of the two (`formData_readBack`).

What is taken from outside is `urls::encode` (`Encoder`), `urls::parse_query`, and the files that
are read.
-/

namespace Beast2.Burl

open Split

/-- A text as its bytes. -/
abbrev Bytes := List UInt8

/-! ## Character sets and the encoder -/

/-- The unreserved characters of RFC 3986. -/
def unreserved (b : UInt8) : Bool :=
  ('A'.toUInt8 ≤ b && b ≤ 'Z'.toUInt8) || ('a'.toUInt8 ≤ b && b ≤ 'z'.toUInt8) ||
    ('0'.toUInt8 ≤ b && b ≤ '9'.toUInt8) || ['-', '.', '_', '~'].any (·.toUInt8 == b)

/-- `urls::pchars`: the `pchar` set of RFC 3986 without the percent sign. -/
def pchars (b : UInt8) : Bool :=
  unreserved b ||
    ['!', '$', '&', '\x27', '(', ')', '*', '+', ',', ';', '=', ':', '@'].any (·.toUInt8 == b)

/-- The number that a hexadecimal digit stands for. -/
def hexValue (b : UInt8) : Option Nat :=
  if '0'.toUInt8 ≤ b ∧ b ≤ '9'.toUInt8 then some (b.toNat - '0'.toNat)
  else if 'A'.toUInt8 ≤ b ∧ b ≤ 'F'.toUInt8 then some (b.toNat - 'A'.toNat + 10)
  else if 'a'.toUInt8 ≤ b ∧ b ≤ 'f'.toUInt8 then some (b.toNat - 'a'.toNat + 10)
  else none

/-- `urls::encode` with `space_as_plus`: a space becomes a plus, the characters of the set stay, and
any other is percent-encoded. -/
structure Encoder where
  encode : (UInt8 → Bool) → Bytes → Bytes
  encode_nil (cs : UInt8 → Bool) : encode cs [] = []
  encode_space (cs : UInt8 → Bool) (t : Bytes) :
    encode cs (' '.toUInt8 :: t) = '+'.toUInt8 :: encode cs t
  encode_kept (cs : UInt8 → Bool) (b : UInt8) (t : Bytes) :
    b ≠ ' '.toUInt8 → cs b = true → encode cs (b :: t) = b :: encode cs t
  encode_escaped (cs : UInt8 → Bool) (b : UInt8) (t : Bytes) :
    b ≠ ' '.toUInt8 → cs b = false → ∃ hi lo,
      encode cs (b :: t) = '%'.toUInt8 :: hi :: lo :: encode cs t ∧
        hexValue hi = some (b.toNat / 16) ∧ hexValue lo = some (b.toNat % 16)

/-! ## The options -/

/-- What `any_istream` reads from a file, or what it throws. -/
abbrev Files := Bytes → Except Thrown Bytes

/-- The options that make form data. An option that is not given is an empty list. -/
structure FormOptions where
  data : List Bytes := []
  dataAscii : List Bytes := []
  dataBinary : List Bytes := []
  dataRaw : List Bytes := []
  dataUrlencode : List Bytes := []
  get : Bool := false
  urlQuery : List Bytes := []

/-- `init`: the data so far with a separator, if there is any. Reference: `options.cpp:864`. -/
def initData (data : Option Bytes) : Bytes :=
  match data with
  | some d => d ++ ['&'.toUInt8]
  | none => []

/-- The arguments of an option, each with what it appends. -/
def appendItems (item : Bytes → Except Thrown Bytes) (data : Option Bytes) (svs : List Bytes) :
    Except Thrown (Option Bytes) :=
  svs.foldlM (fun data sv => do .ok (some (initData data ++ (← item sv)))) data

/-- `--data` and `--data-ascii`: a text, or a file without its line ends. Reference:
`options.cpp:846-854, 872-898`. -/
def dataItem (files : Files) (sv : Bytes) : Except Thrown Bytes :=
  match sv with
  | [] => .ok []
  | b :: path =>
    if b = '@'.toUInt8 then do
      let text ← files path
      .ok (text.filter fun c =>
        c ≠ '\r'.toUInt8 ∧ c ≠ '\n'.toUInt8 ∧ c ≠ '\x00'.toUInt8)
    else .ok sv

/-- `--data-binary`: a text, or a file. Reference: `options.cpp:900-912`. -/
def dataBinaryItem (files : Files) (sv : Bytes) : Except Thrown Bytes :=
  match sv with
  | [] => .ok []
  | b :: path => if b = '@'.toUInt8 then files path else .ok sv

/-- A name in front of what is encoded. Reference: `options.cpp:936-940, 947-951`. -/
def namePart (name : Bytes) : Bytes := if name.isEmpty then [] else name ++ ['='.toUInt8]

/-- `--data-urlencode`, and `--url-query` without a plus: `name=content`, `name@file` or a content
only. Reference: `options.cpp:932-959, 1026-1053`. -/
def urlencodeItem (E : Encoder) (files : Files) (sv : Bytes) : Except Thrown Bytes :=
  if '='.toUInt8 ∈ sv then
    let name := sv.takeWhile (· ≠ '='.toUInt8)
    let content := sv.drop (name.length + 1)
    .ok (namePart name ++ E.encode pchars content)
  else if '@'.toUInt8 ∈ sv then do
    let name := sv.takeWhile (· ≠ '@'.toUInt8)
    let tmp ← files (sv.drop (name.length + 1))
    .ok (namePart name ++ E.encode pchars tmp)
  else .ok (E.encode pchars sv)

/-- The data of the `--data` options, if there are any. Reference: `options.cpp:844-961`. -/
def formData (E : Encoder) (files : Files) (o : FormOptions) : Except Thrown (Option Bytes) := do
  let data ← appendItems (dataItem files) none o.data
  let data ← appendItems (dataItem files) data o.dataAscii
  let data ← appendItems (dataBinaryItem files) data o.dataBinary
  let data ← appendItems .ok data o.dataRaw
  appendItems (urlencodeItem E files) data o.dataUrlencode

/-- An argument of `--url-query`: with a plus in front it is taken as it is. Reference:
`options.cpp:1021-1053`. -/
def urlQueryItem (E : Encoder) (files : Files) (sv : Bytes) : Except Thrown Bytes :=
  match sv with
  | [] => urlencodeItem E files []
  | b :: rest => if b = '+'.toUInt8 then .ok rest else urlencodeItem E files sv

/-- The query of the `--url-query` options. Reference: `options.cpp:1003-1054`. -/
def urlQuery (E : Encoder) (files : Files) (svs : List Bytes) : Except Thrown Bytes :=
  svs.foldlM (fun query sv => do
    let item ← urlQueryItem E files sv
    .ok ((if query.isEmpty then query else query ++ ['&'.toUInt8]) ++ item)) []

/-- `oc.query` and the text of `oc.msg`, which has the content type
`application/x-www-form-urlencoded`. Reference: `options.cpp:963-977, 1056-1061`. -/
def formOptions (E : Encoder) (files : Files) (parseQuery : Bytes → Option Bytes)
    (o : FormOptions) : Except Thrown (Bytes × Option Bytes) := do
  let data ← formData E files o
  let (query, msg) ← match data with
    | none => .ok ([], none)
    | some d =>
      if o.get then
        match parseQuery d with
        | none => .error (.runtimeError "Invalid data encoding")
        | some q => .ok (q, none)
      else .ok ([], some d)
  let extra ← urlQuery E files o.urlQuery
  if extra.isEmpty then .ok (query, msg)
  else .ok ((if query.isEmpty then query else query ++ ['&'.toUInt8]) ++ extra, msg)

/-! ## The decoder -/

/-- A plus is read as a space. -/
def plusToSpace (b : UInt8) : UInt8 := if b = '+'.toUInt8 then ' '.toUInt8 else b

/-- The percent-encoded bytes of a text decoded. -/
def percentDecode : Bytes → Bytes
  | b :: hi :: lo :: t =>
    if b = '%'.toUInt8 then
      match hexValue hi, hexValue lo with
      | some h, some l => UInt8.ofNat (16 * h + l) :: percentDecode t
      | _, _ => b :: percentDecode (hi :: lo :: t)
    else b :: percentDecode (hi :: lo :: t)
  | t => t

/-- A name or a content of form data. -/
def decodePart (t : Bytes) : Bytes := percentDecode (t.map plusToSpace)

/-- An item of form data, split at its first equals sign. -/
def decodeItem (t : Bytes) : Bytes × Bytes :=
  (decodePart (t.takeWhile (· ≠ '='.toUInt8)),
    decodePart ((t.dropWhile (· ≠ '='.toUInt8)).drop 1))

/-- Form data: its items, separated by `&`. -/
def decodeForm (t : Bytes) : List (Bytes × Bytes) :=
  if t.isEmpty then [] else (t.splitOn '&'.toUInt8).map decodeItem

/-! ## A content is read back -/

section

variable {b : UInt8} {t : Bytes}

/-- A name has none of the characters that mean something in form data. -/
theorem unreserved_ne (h : unreserved b = true) :
    b ≠ '&'.toUInt8 ∧ b ≠ '='.toUInt8 ∧ b ≠ '+'.toUInt8 ∧ b ≠ '%'.toUInt8 := by
  refine ⟨?_, ?_, ?_, ?_⟩ <;> rintro rfl <;> revert h <;> decide

/-- A hexadecimal digit is neither a plus nor a separator. -/
theorem hexValue_ne {n : Nat} (h : hexValue b = some n) : b ≠ '+'.toUInt8 ∧ b ≠ '&'.toUInt8 := by
  refine ⟨?_, ?_⟩ <;> rintro rfl <;> cases h

theorem percentDecode_cons (h : b ≠ '%'.toUInt8) :
    percentDecode (b :: t) = b :: percentDecode t := by
  match t with
  | [] => rfl
  | [_] => rfl
  | _ :: _ :: _ => rw [percentDecode, if_neg h]

/-- A percent-encoded byte is decoded. -/
theorem percentDecode_escaped {hi lo : UInt8} (hhi : hexValue hi = some (b.toNat / 16))
    (hlo : hexValue lo = some (b.toNat % 16)) :
    percentDecode ('%'.toUInt8 :: hi :: lo :: t) = b :: percentDecode t := by
  have hbyte : UInt8.ofNat (16 * (b.toNat / 16) + b.toNat % 16) = b := by
    rw [Nat.div_add_mod]
    exact UInt8.ofNat_toNat
  simp [percentDecode, hhi, hlo, hbyte]

/-- How the encoder writes the first byte of a text: a space as a plus, a character of `pchars` as
it is, any other percent-encoded. -/
theorem Encoder.encode_cons (E : Encoder) (b : UInt8) (t : Bytes) :
    (b = ' '.toUInt8 ∧ E.encode pchars (b :: t) = '+'.toUInt8 :: E.encode pchars t) ∨
    (pchars b = true ∧ E.encode pchars (b :: t) = b :: E.encode pchars t) ∨
    (pchars b = false ∧ ∃ hi lo,
      E.encode pchars (b :: t) = '%'.toUInt8 :: hi :: lo :: E.encode pchars t ∧
        hexValue hi = some (b.toNat / 16) ∧ hexValue lo = some (b.toNat % 16)) := by
  by_cases hspace : b = ' '.toUInt8
  · subst hspace
    exact .inl ⟨rfl, E.encode_space pchars t⟩
  · cases hset : pchars b with
    | true => exact .inr (.inl ⟨rfl, E.encode_kept pchars b t hspace hset⟩)
    | false => exact .inr (.inr ⟨rfl, E.encode_escaped pchars b t hspace hset⟩)

/-- What is encoded has a separator exactly if the content has one. -/
theorem amp_mem_encode (E : Encoder) : '&'.toUInt8 ∈ E.encode pchars t ↔ '&'.toUInt8 ∈ t := by
  induction t with
  | nil => rw [E.encode_nil]
  | cons b t ih =>
    rcases E.encode_cons b t with ⟨rfl, heq⟩ | ⟨-, heq⟩ | ⟨hset, hi, lo, heq, hhi, hlo⟩
    · rw [heq, List.mem_cons, List.mem_cons, ih]
      refine or_congr_left (iff_of_false ?_ ?_) <;> decide
    · rw [heq, List.mem_cons, List.mem_cons, ih]
    · have hb : '&'.toUInt8 ≠ b := by
        rintro rfl
        revert hset
        decide
      have hpercent : '&'.toUInt8 ≠ '%'.toUInt8 := by decide
      rw [heq, List.mem_cons, List.mem_cons, List.mem_cons, List.mem_cons, ih,
        or_iff_right hpercent, or_iff_right (hexValue_ne hhi).2.symm,
        or_iff_right (hexValue_ne hlo).2.symm, or_iff_right hb]

/-- A content is read back with its pluses as spaces. -/
theorem decodePart_encode (E : Encoder) : decodePart (E.encode pchars t) = t.map plusToSpace := by
  unfold decodePart
  induction t with
  | nil =>
    rw [E.encode_nil]
    rfl
  | cons b t ih =>
    rcases E.encode_cons b t with ⟨rfl, heq⟩ | ⟨hset, heq⟩ | ⟨hset, hi, lo, heq, hhi, hlo⟩
    · have hplus : plusToSpace '+'.toUInt8 = plusToSpace ' '.toUInt8 := by decide
      rw [heq, List.map_cons, List.map_cons, hplus, percentDecode_cons (by decide), ih]
    · have hb : plusToSpace b ≠ '%'.toUInt8 := by
        unfold plusToSpace
        split
        · decide
        · rintro rfl
          revert hset
          decide
      rw [heq, List.map_cons, List.map_cons, percentDecode_cons hb, ih]
    · have hb : plusToSpace b = b := by
        rw [plusToSpace, if_neg]
        rintro rfl
        revert hset
        decide
      have hpercent : plusToSpace '%'.toUInt8 = '%'.toUInt8 := by decide
      have hhi' : plusToSpace hi = hi := if_neg (hexValue_ne hhi).1
      have hlo' : plusToSpace lo = lo := if_neg (hexValue_ne hlo).1
      rw [heq, List.map_cons, List.map_cons, List.map_cons, List.map_cons, hpercent, hhi', hlo',
        percentDecode_escaped hhi hlo, hb, ih]

/-- A name is read back. -/
theorem decodePart_name (h : ∀ b ∈ t, unreserved b = true) : decodePart t = t := by
  unfold decodePart
  induction t with
  | nil => rfl
  | cons b t ih =>
    obtain ⟨hb, ht⟩ := List.forall_mem_cons.1 h
    obtain ⟨-, -, hplus, hpercent⟩ := unreserved_ne hb
    have hb' : plusToSpace b = b := if_neg hplus
    rw [List.map_cons, hb', percentDecode_cons hpercent, ih ht]

theorem map_plusToSpace_eq_self : t.map plusToSpace = t ↔ '+'.toUInt8 ∉ t := by
  induction t with
  | nil => simp
  | cons b t ih =>
    have hb : plusToSpace b = b ↔ '+'.toUInt8 ≠ b := by
      unfold plusToSpace
      split
      · next heq =>
        subst heq
        decide
      · next hne => exact iff_of_true rfl (Ne.symm hne)
    rw [List.map_cons, List.cons.injEq, ih, hb, List.mem_cons, not_or]

end

/-! ## The items are read back -/

/-- An argument `name=content`. -/
def argText (a : Bytes × Bytes) : Bytes := a.1 ++ '='.toUInt8 :: a.2

/-- What an argument `name=content` appends. -/
def itemText (E : Encoder) (a : Bytes × Bytes) : Bytes :=
  a.1 ++ '='.toUInt8 :: E.encode pchars a.2

/-- A name is not empty and has unreserved characters only. -/
def IsName (name : Bytes) : Prop := name ≠ [] ∧ ∀ b ∈ name, unreserved b = true

section

variable (E : Encoder) {name t : Bytes}

theorem IsName.ne_equals (h : IsName name) : ∀ b ∈ name, decide (b ≠ '='.toUInt8) = true := by
  intro b hb
  exact decide_eq_true (unreserved_ne (h.2 b hb)).2.1

/-- The first equals sign is behind the name. -/
theorem takeWhile_name (h : IsName name) :
    (name ++ '='.toUInt8 :: t).takeWhile (· ≠ '='.toUInt8) = name := by
  rw [List.takeWhile_append_of_pos h.ne_equals]
  simp

theorem dropWhile_name (h : IsName name) :
    (name ++ '='.toUInt8 :: t).dropWhile (· ≠ '='.toUInt8) = '='.toUInt8 :: t := by
  rw [List.dropWhile_append_of_pos h.ne_equals]
  simp

/-- An item is read back as its name, and its content with the pluses as spaces. -/
theorem decodeItem_itemText {a : Bytes × Bytes} (h : IsName a.1) :
    decodeItem (itemText E a) = (a.1, a.2.map plusToSpace) := by
  unfold decodeItem itemText
  rw [takeWhile_name h, dropWhile_name h, List.drop_one, List.tail_cons, decodePart_name h.2,
    decodePart_encode]

/-- An item has a separator exactly if its content has one. -/
theorem amp_mem_itemText {a : Bytes × Bytes} (h : IsName a.1) :
    '&'.toUInt8 ∈ itemText E a ↔ '&'.toUInt8 ∈ a.2 := by
  have hname : '&'.toUInt8 ∉ a.1 := fun hmem => (unreserved_ne (h.2 _ hmem)).1 rfl
  have heq : '&'.toUInt8 ≠ '='.toUInt8 := by decide
  rw [itemText, List.mem_append, or_iff_right hname, List.mem_cons, or_iff_right heq,
    amp_mem_encode]

/-- The items are read back exactly if no content has a separator or a plus. -/
theorem decodeForm_items {args : List (Bytes × Bytes)} (hnames : ∀ a ∈ args, IsName a.1) :
    decodeForm (['&'.toUInt8].intercalate (args.map (itemText E))) = args ↔
      ∀ a ∈ args, '&'.toUInt8 ∉ a.2 ∧ '+'.toUInt8 ∉ a.2 := by
  by_cases hnil : args = []
  · subst hnil
    exact iff_of_true rfl nofun
  have hitems : args.map (itemText E) ≠ [] := by simpa using hnil
  have htext : (['&'.toUInt8].intercalate (args.map (itemText E))).isEmpty = false := by
    obtain ⟨a, args, rfl⟩ := List.exists_cons_of_ne_nil hnil
    rw [List.map_cons, intercalate_cons, itemText]
    simp
  have hread : ((args.map (itemText E)).map decodeItem = args) ↔
      ∀ a ∈ args, '+'.toUInt8 ∉ a.2 := by
    have hself : args.map (decodeItem ∘ itemText E) = args.map id ↔
        ∀ a ∈ args, '+'.toUInt8 ∉ a.2 := by
      rw [List.map_inj_left]
      refine forall₂_congr fun a ha => ?_
      rw [Function.comp_apply, decodeItem_itemText E (hnames a ha), id_eq, Prod.ext_iff,
        and_iff_right rfl, map_plusToSpace_eq_self]
    rwa [List.map_id, ← List.map_map] at hself
  unfold decodeForm
  rw [htext, if_neg Bool.false_ne_true]
  constructor
  · intro h
    have hlength := congrArg List.length h
    rw [List.length_map, ← List.length_map (itemText E)] at hlength
    have hamp := not_mem_of_length_splitOn hitems hlength
    rw [List.splitOn_intercalate _ hamp hitems, hread] at h
    intro a ha
    exact ⟨mt (amp_mem_itemText E (hnames a ha)).2 (hamp _ (List.mem_map_of_mem ha)), h a ha⟩
  · intro h
    have hamp : ∀ l ∈ args.map (itemText E), '&'.toUInt8 ∉ l := by
      intro l hl
      obtain ⟨a, ha, rfl⟩ := List.mem_map.1 hl
      exact mt (amp_mem_itemText E (hnames a ha)).1 (h a ha).1
    rw [List.splitOn_intercalate _ hamp hitems, hread]
    exact fun a ha => (h a ha).2

/-! ## The texts that the options make -/

variable (files : Files)

/-- An argument `name=content` appends its item. -/
theorem urlencodeItem_argText {a : Bytes × Bytes} (h : IsName a.1) :
    urlencodeItem E files (argText a) = .ok (itemText E a) := by
  have hmem : '='.toUInt8 ∈ argText a := List.mem_append_right _ List.mem_cons_self
  have htake : (argText a).takeWhile (· ≠ '='.toUInt8) = a.1 := takeWhile_name h
  have hcontent : (argText a).drop (a.1.length + 1) = a.2 := by
    rw [argText, ← List.drop_drop, List.drop_left]
    rfl
  have hpart : namePart a.1 = a.1 ++ ['='.toUInt8] := by
    rw [namePart, if_neg]
    simpa using h.1
  rw [urlencodeItem, if_pos hmem, htake]
  show Except.ok (namePart a.1 ++ E.encode pchars ((argText a).drop (a.1.length + 1))) = _
  rw [hcontent, hpart, itemText, List.append_assoc]
  rfl

/-- The name of an argument does not start with a plus. -/
theorem urlQueryItem_argText {a : Bytes × Bytes} (h : IsName a.1) :
    urlQueryItem E files (argText a) = .ok (itemText E a) := by
  obtain ⟨b, name, hname⟩ := List.exists_cons_of_ne_nil h.1
  have hplus : b ≠ '+'.toUInt8 := (unreserved_ne (h.2 b (hname ▸ List.mem_cons_self))).2.2.1
  have hcons : argText a = b :: (name ++ '='.toUInt8 :: a.2) := by
    rw [argText, hname]
    rfl
  rw [hcons, urlQueryItem, if_neg hplus, ← hcons]
  exact urlencodeItem_argText E files h

variable {args : List (Bytes × Bytes)}

/-- The arguments append their items, each behind a separator. -/
theorem appendItems_argTexts (hnames : ∀ a ∈ args, IsName a.1) (d : Bytes) :
    appendItems (urlencodeItem E files) (some d) (args.map argText) =
      .ok (some (d ++ (args.map (itemText E)).flatMap ('&'.toUInt8 :: ·))) := by
  unfold appendItems
  induction args generalizing d with
  | nil => simp [pure, Except.pure]
  | cons a args ih =>
    obtain ⟨ha, hargs⟩ := List.forall_mem_cons.1 hnames
    rw [List.map_cons, List.foldlM_cons, urlencodeItem_argText E files ha]
    show (args.map argText).foldlM _ (some (initData (some d) ++ itemText E a)) = _
    rw [ih hargs, initData, List.map_cons, List.flatMap_cons]
    simp

/-- The data of `--data-urlencode` arguments is their items joined. -/
theorem formData_argTexts (hnames : ∀ a ∈ args, IsName a.1) :
    ∃ data, appendItems (urlencodeItem E files) none (args.map argText) = .ok data ∧
      data.getD [] = ['&'.toUInt8].intercalate (args.map (itemText E)) := by
  cases args with
  | nil => exact ⟨none, rfl, rfl⟩
  | cons a args =>
    obtain ⟨ha, hargs⟩ := List.forall_mem_cons.1 hnames
    refine ⟨some (itemText E a ++ (args.map (itemText E)).flatMap ('&'.toUInt8 :: ·)), ?_, ?_⟩
    · rw [← appendItems_argTexts E files hargs]
      unfold appendItems
      rw [List.map_cons, List.foldlM_cons, urlencodeItem_argText E files ha]
      rfl
    · rw [List.map_cons, intercalate_cons]
      rfl

/-- The step of the loop over the `--url-query` arguments. -/
theorem urlQuery_step {a : Bytes × Bytes} (h : IsName a.1) (q : Bytes) :
    (do
      let item ← urlQueryItem E files (argText a)
      Except.ok ((if q.isEmpty then q else q ++ ['&'.toUInt8]) ++ item)) =
      .ok ((if q.isEmpty then q else q ++ ['&'.toUInt8]) ++ itemText E a) := by
  rw [urlQueryItem_argText E files h]
  rfl

theorem foldlM_urlQuery (hnames : ∀ a ∈ args, IsName a.1) {q : Bytes} (hq : q.isEmpty = false) :
    (args.map argText).foldlM (fun query sv => do
      let item ← urlQueryItem E files sv
      Except.ok ((if query.isEmpty then query else query ++ ['&'.toUInt8]) ++ item)) q =
      .ok (q ++ (args.map (itemText E)).flatMap ('&'.toUInt8 :: ·)) := by
  induction args generalizing q with
  | nil => simp [pure, Except.pure]
  | cons a args ih =>
    obtain ⟨ha, hargs⟩ := List.forall_mem_cons.1 hnames
    rw [List.map_cons, List.foldlM_cons, urlQuery_step E files ha, hq, if_neg Bool.false_ne_true]
    show (args.map argText).foldlM _ (q ++ ['&'.toUInt8] ++ itemText E a) = _
    rw [ih hargs (by simp), List.map_cons, List.flatMap_cons]
    simp

/-- So is the query of `--url-query` arguments, since no item is empty. -/
theorem urlQuery_argTexts (hnames : ∀ a ∈ args, IsName a.1) :
    urlQuery E files (args.map argText) =
      .ok (['&'.toUInt8].intercalate (args.map (itemText E))) := by
  unfold urlQuery
  cases args with
  | nil => rfl
  | cons a args =>
    obtain ⟨ha, hargs⟩ := List.forall_mem_cons.1 hnames
    rw [List.map_cons, List.foldlM_cons, urlQuery_step E files ha, List.map_cons, intercalate_cons]
    exact foldlM_urlQuery E files hargs (by simp [itemText])

end

/-- Without `--get`, the data is the body and the query is that of `--url-query`. -/
theorem formOptions_of_ok {E : Encoder} {files : Files} {parseQuery : Bytes → Option Bytes}
    {svs qsvs : List Bytes} {data : Option Bytes} {query : Bytes}
    (hdata : appendItems (urlencodeItem E files) none svs = .ok data)
    (hquery : urlQuery E files qsvs = .ok query) :
    formOptions E files parseQuery { dataUrlencode := svs, urlQuery := qsvs } =
      .ok (query, data) := by
  have hform : formData E files { dataUrlencode := svs, urlQuery := qsvs } = .ok data := hdata
  unfold formOptions
  rw [hform, hquery]
  cases data <;> cases query <;> rfl

/-- For every arguments `name=content` of `--data-urlencode` and of `--url-query`, there are a query
and a body, if there is data for one. Each is read back as its arguments if and only if none of the
contents has a `&` or a `+`. -/
theorem formData_readBack (E : Encoder) (files : Files) (parseQuery : Bytes → Option Bytes)
    {args qargs : List (Bytes × Bytes)} (hargs : ∀ a ∈ args, IsName a.1)
    (hqargs : ∀ a ∈ qargs, IsName a.1) :
    ∃ query body, formOptions E files parseQuery
        { dataUrlencode := args.map argText, urlQuery := qargs.map argText } = .ok (query, body) ∧
      (decodeForm (body.getD []) = args ↔
        ∀ a ∈ args, '&'.toUInt8 ∉ a.2 ∧ '+'.toUInt8 ∉ a.2) ∧
      (decodeForm query = qargs ↔
        ∀ a ∈ qargs, '&'.toUInt8 ∉ a.2 ∧ '+'.toUInt8 ∉ a.2) := by
  obtain ⟨data, hdata, htext⟩ := formData_argTexts E files hargs
  have hquery := urlQuery_argTexts E files hqargs
  refine ⟨_, data, formOptions_of_ok hdata hquery, ?_, decodeForm_items E hqargs⟩
  rw [htext]
  exact decodeForm_items E hargs

/-- A hexadecimal digit. -/
def hexDigit (n : Nat) : UInt8 := UInt8.ofNat (if n < 10 then '0'.toNat + n else 'A'.toNat + n - 10)

/-- One byte as Boost.URL writes it. -/
def encodeByte (cs : UInt8 → Bool) (b : UInt8) : Bytes :=
  if b = ' '.toUInt8 then ['+'.toUInt8]
  else if cs b then [b]
  else ['%'.toUInt8, hexDigit (b.toNat / 16), hexDigit (b.toNat % 16)]

theorem hexValue_hexDigit {n : Nat} (h : n < 16) : hexValue (hexDigit n) = some n := by
  revert n
  decide

/-- The encoder, one byte after the other. -/
def plainEncoder : Encoder where
  encode cs t := t.flatMap (encodeByte cs)
  encode_nil _ := rfl
  encode_space _ _ := rfl
  encode_kept cs b t hspace hset := by simp [encodeByte, hspace, hset]
  encode_escaped cs b t hspace hset := by
    have hb := b.toNat_lt
    refine ⟨hexDigit (b.toNat / 16), hexDigit (b.toNat % 16), ?_, ?_, ?_⟩
    · simp [encodeByte, hspace, hset]
    · exact hexValue_hexDigit (by omega)
    · exact hexValue_hexDigit (by omega)

/-- `a=x y`. -/
def spacePair : Bytes × Bytes := (['a'.toUInt8], ['x'.toUInt8, ' '.toUInt8, 'y'.toUInt8])

theorem spacePair_isName : ∀ a ∈ [spacePair], IsName a.1 := by
  intro a ha
  cases List.mem_singleton.1 ha
  exact ⟨List.cons_ne_nil _ _, List.all_eq_true.1 rfl⟩

/-- A content with a space is read back. -/
theorem spacePair_readBack :
    ∃ query body, formOptions plainEncoder .ok some
        { dataUrlencode := [argText spacePair], urlQuery := [argText spacePair] } =
          .ok (query, body) ∧
      decodeForm (body.getD []) = [spacePair] ∧ decodeForm query = [spacePair] := by
  have hclean : ∀ a ∈ [spacePair], '&'.toUInt8 ∉ a.2 ∧ '+'.toUInt8 ∉ a.2 := by decide
  obtain ⟨query, body, hrun, hbody, hquery⟩ :=
    formData_readBack plainEncoder .ok some spacePair_isName spacePair_isName
  exact ⟨query, body, hrun, hbody.2 hclean, hquery.2 hclean⟩

/-- `a=1+1` and `b=x&y`. -/
def plusAmp : List (Bytes × Bytes) :=
  [(['a'.toUInt8], ['1'.toUInt8, '+'.toUInt8, '1'.toUInt8]),
    (['b'.toUInt8], ['x'.toUInt8, '&'.toUInt8, 'y'.toUInt8])]

/-- The plus comes back as a space, and the text behind the `&` as a name. -/
theorem plusAmp_not_readBack :
    (∀ a ∈ plusAmp, IsName a.1) ∧
      ∃ query body, formOptions plainEncoder .ok some
          { dataUrlencode := plusAmp.map argText, urlQuery := plusAmp.map argText } =
            .ok (query, some body) ∧
        decodeForm body = [(['a'.toUInt8], ['1'.toUInt8, ' '.toUInt8, '1'.toUInt8]),
          (['b'.toUInt8], ['x'.toUInt8]), (['y'.toUInt8], [])] ∧
        decodeForm body ≠ plusAmp ∧ decodeForm query ≠ plusAmp := by
  refine ⟨?_, "a=1+1&b=x&y".toList.map Char.toUInt8, "a=1+1&b=x&y".toList.map Char.toUInt8, ?_⟩
  · intro a ha
    rcases List.mem_cons.1 ha with rfl | ha
    · exact ⟨List.cons_ne_nil _ _, List.all_eq_true.1 rfl⟩
    · cases List.mem_singleton.1 ha
      exact ⟨List.cons_ne_nil _ _, List.all_eq_true.1 rfl⟩
  · decide +kernel

end Beast2.Burl
