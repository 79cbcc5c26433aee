import Beast2.Burl.Base64

/-!
# Base64 on signed characters

A `char` is a signed byte here and is promoted to an `int` of 32 bits before it is masked and
shifted, so a byte of 0x80 and above has its upper 24 bits set (`promote`). Every mask has at most
eight bits and takes them off again (`promote_and`): the indices are those of the byte
(`base64EncodeBytes_eq`), none of them leaves the table, and a decoder as RFC 4648 describes it
reads the text back (`base64_roundTrip`).
-/

namespace Beast2.Burl

/-! ## The encoder on bytes -/

/-- The integral promotion of a signed `char`. -/
def promote (c : UInt8) : BitVec 32 := c.toBitVec.signExtend 32

/-- What is appended at one place: the entry of the table with an index, or a padding. -/
inductive Base64Cell where
  | tab (index : BitVec 32)
  | pad
deriving DecidableEq, Repr

/-- The four places for three bytes. Reference: `base64.cpp:26-30`. -/
def groupCells (a b c : UInt8) : List Base64Cell :=
  [.tab ((promote a &&& 0xfc#32).sshiftRight 2),
    .tab (((promote a &&& 0x03#32) <<< 4) + (promote b &&& 0xf0#32).sshiftRight 4),
    .tab ((promote c &&& 0xc0#32).sshiftRight 6 + ((promote b &&& 0x0f#32) <<< 2)),
    .tab (promote c &&& 0x3f#32)]

/-- The counted loop: what it appends, and where it leaves the pointer. `none` if it reads behind
the end. Reference: `base64.cpp:24-32`. -/
def groupLoop : Nat → List UInt8 → Option (List Base64Cell × List UInt8)
  | 0, it => some ([], it)
  | n + 1, a :: b :: c :: it => do
    let (cells, it) ← groupLoop n it
    some (groupCells a b c ++ cells, it)
  | _ + 1, _ => none

/-- The switch over the bytes that are left. Reference: `base64.cpp:34-52`. -/
def tailCells : Nat → List UInt8 → Option (List Base64Cell)
  | 2, a :: b :: _ =>
    some [.tab ((promote a &&& 0xfc#32).sshiftRight 2),
      .tab (((promote a &&& 0x03#32) <<< 4) + (promote b &&& 0xf0#32).sshiftRight 4),
      .tab ((promote b &&& 0x0f#32) <<< 2), .pad]
  | 1, a :: _ =>
    some [.tab ((promote a &&& 0xfc#32).sshiftRight 2), .tab ((promote a &&& 0x03#32) <<< 4),
      .pad, .pad]
  | 0, _ => some []
  | _, _ => none

/-- The places of a whole text. Reference: `base64.cpp:24-52`. -/
def base64Cells (src : List UInt8) : Option (List Base64Cell) := do
  let (cells, it) ← groupLoop (src.length / 3) src
  let tail ← tailCells (src.length % 3) it
  some (cells ++ tail)

/-- The bytes of `tab`, with the one that ends the literal. Reference: `base64.cpp:17`. -/
def base64Bytes : List UInt8 := base64Tab.map Char.toUInt8 ++ [0]

/-- The character at a place, `none` if the index is not one of the table. -/
def Base64Cell.char : Base64Cell → Option UInt8
  | tab i => if i.toInt < 0 then none else base64Bytes[i.toNat]?
  | pad => some '='.toUInt8

/-- `base64_encode`, on bytes. Reference: `base64.cpp:12`. -/
def base64EncodeBytes (dest src : List UInt8) : Option (List UInt8) := do
  let cells ← base64Cells src
  let text ← cells.mapM Base64Cell.char
  some (dest ++ text)

/-- A byte as the character that stands for it. -/
def byteChar (b : UInt8) : Char := Char.ofNat b.toNat

/-! ## The decoder -/

/-- The number that a character of the alphabet stands for. -/
def sextet (c : UInt8) : Option Nat :=
  if 'A'.toUInt8 ≤ c ∧ c ≤ 'Z'.toUInt8 then some (c.toNat - 65)
  else if 'a'.toUInt8 ≤ c ∧ c ≤ 'z'.toUInt8 then some (c.toNat - 97 + 26)
  else if '0'.toUInt8 ≤ c ∧ c ≤ '9'.toUInt8 then some (c.toNat - 48 + 52)
  else if c = '+'.toUInt8 then some 62
  else if c = '/'.toUInt8 then some 63
  else none

/-- RFC 4648: four characters are three bytes; padding stands at the end only, and the bits it
leaves over are zero. -/
def base64Decode : List UInt8 → Option (List UInt8)
  | [] => some []
  | w :: x :: y :: z :: rest =>
    if z = '='.toUInt8 then
      if rest ≠ [] then none
      else if y = '='.toUInt8 then do
        let w ← sextet w
        let x ← sextet x
        if x % 16 = 0 then some [UInt8.ofNat (4 * w + x / 16)] else none
      else do
        let w ← sextet w
        let x ← sextet x
        let y ← sextet y
        if y % 4 = 0 then
          some [UInt8.ofNat (4 * w + x / 16), UInt8.ofNat (x % 16 * 16 + y / 4)]
        else none
    else do
      let w ← sextet w
      let x ← sextet x
      let y ← sextet y
      let z ← sextet z
      let bytes ← base64Decode rest
      some ([UInt8.ofNat (4 * w + x / 16), UInt8.ofNat (x % 16 * 16 + y / 4),
        UInt8.ofNat (y % 4 * 64 + z)] ++ bytes)
  | _ => none

/-! ## The indices -/

section

variable {a b c : UInt8}

/-- A mask of eight bits takes the same bits of a promoted byte as of the byte. -/
theorem promote_and (a : UInt8) {m : Nat} (hm : m < 256) :
    (promote a &&& BitVec.ofNat 32 m).toNat = a.toNat &&& m := by
  apply Nat.eq_of_testBit_eq
  intro i
  rw [BitVec.testBit_toNat, BitVec.getLsbD_and, Nat.testBit_and, promote,
    BitVec.getLsbD_signExtend, BitVec.getLsbD_ofNat]
  by_cases hi : i < 8
  · have h32 : i < 32 := by omega
    simp only [hi, h32, decide_true, Bool.true_and, if_true]
    rfl
  · have hbit : m.testBit i = false := by
      refine Nat.testBit_lt_two_pow (Nat.lt_of_lt_of_le hm ?_)
      exact Nat.pow_le_pow_right (n := 2) (by omega) (show 8 ≤ i by omega)
    simp [hbit]

/-- A masked byte is not negative, so that shifting it right is a division. -/
theorem sshiftRight_promote_and (a : UInt8) {m : Nat} (hm : m < 256) (n : Nat) :
    ((promote a &&& BitVec.ofNat 32 m).sshiftRight n).toNat = (a.toNat &&& m) >>> n := by
  have hlt : (promote a &&& BitVec.ofNat 32 m).toNat < 2 ^ 31 := by
    rw [promote_and a hm]
    exact Nat.lt_of_le_of_lt Nat.and_le_right (by omega)
  have hmsb : (promote a &&& BitVec.ofNat 32 m).msb = false := by
    rw [BitVec.msb_eq_false_iff_two_mul_lt]
    omega
  rw [BitVec.sshiftRight_eq_of_msb_false hmsb, BitVec.toNat_ushiftRight, promote_and a hm]

/-- Shifting it left does not overflow. -/
theorem shiftLeft_promote_and (a : UInt8) {m n : Nat} (hm : m < 256) (hn : n ≤ 4) :
    ((promote a &&& BitVec.ofNat 32 m) <<< n).toNat = (a.toNat &&& m) <<< n := by
  rw [BitVec.toNat_shiftLeft, promote_and a hm]
  refine Nat.mod_eq_of_lt ?_
  rw [Nat.shiftLeft_eq]
  have hand : a.toNat &&& m < 256 := Nat.lt_of_le_of_lt Nat.and_le_right hm
  have hpow : 2 ^ n ≤ 2 ^ 4 := Nat.pow_le_pow_right (by omega) hn
  calc (a.toNat &&& m) * 2 ^ n ≤ 256 * 2 ^ 4 := Nat.mul_le_mul (Nat.le_of_lt hand) hpow
    _ < 2 ^ 32 := by omega

/-- The masks and shifts of a byte as divisions. -/
theorem masks : ∀ a : Fin 256, (a.val &&& 0xfc) >>> 2 = a.val / 4 ∧
    (a.val &&& 0x03) <<< 4 = a.val % 4 * 16 ∧ (a.val &&& 0xf0) >>> 4 = a.val / 16 ∧
    (a.val &&& 0xc0) >>> 6 = a.val / 64 ∧ (a.val &&& 0x0f) <<< 2 = a.val % 16 * 4 ∧
    a.val &&& 0x3f = a.val % 64 := by
  decide +kernel

/-- The first of the four indices. -/
theorem toNat_index₀ (a : UInt8) : ((promote a &&& 0xfc#32).sshiftRight 2).toNat = a.toNat / 4 := by
  rw [sshiftRight_promote_and a (by omega)]
  exact (masks ⟨a.toNat, a.toNat_lt⟩).1

/-- The second one, and what it is without a second byte. -/
theorem toNat_index₁' (a : UInt8) :
    ((promote a &&& 0x03#32) <<< 4).toNat = a.toNat % 4 * 16 := by
  rw [shiftLeft_promote_and a (by omega) (Nat.le_refl 4)]
  exact (masks ⟨a.toNat, a.toNat_lt⟩).2.1

theorem toNat_index₁ (a b : UInt8) :
    (((promote a &&& 0x03#32) <<< 4) + (promote b &&& 0xf0#32).sshiftRight 4).toNat =
      a.toNat % 4 * 16 + b.toNat / 16 := by
  have hb := (masks ⟨b.toNat, b.toNat_lt⟩).2.2.1
  have hlt := b.toNat_lt
  rw [BitVec.toNat_add, toNat_index₁', sshiftRight_promote_and b (by omega)]
  simp only at hb
  rw [hb]
  omega

/-- The third one, and what it is without a third byte. -/
theorem toNat_index₂' (b : UInt8) :
    ((promote b &&& 0x0f#32) <<< 2).toNat = b.toNat % 16 * 4 := by
  rw [shiftLeft_promote_and b (by omega) (by omega)]
  exact (masks ⟨b.toNat, b.toNat_lt⟩).2.2.2.2.1

theorem toNat_index₂ (b c : UInt8) :
    ((promote c &&& 0xc0#32).sshiftRight 6 + ((promote b &&& 0x0f#32) <<< 2)).toNat =
      b.toNat % 16 * 4 + c.toNat / 64 := by
  have hc := (masks ⟨c.toNat, c.toNat_lt⟩).2.2.2.1
  have hlt := c.toNat_lt
  rw [BitVec.toNat_add, toNat_index₂', sshiftRight_promote_and c (by omega)]
  simp only at hc
  rw [hc]
  omega

/-- The fourth one. -/
theorem toNat_index₃ (c : UInt8) : (promote c &&& 0x3f#32).toNat = c.toNat % 64 := by
  rw [promote_and c (by omega)]
  exact (masks ⟨c.toNat, c.toNat_lt⟩).2.2.2.2.2

/-- The table has the alphabet in order. -/
theorem base64Bytes_sextet : ∀ n : Fin 64,
    base64Bytes[n.val]? = some (base64Bytes.getD n.val 0) ∧
      sextet (base64Bytes.getD n.val 0) = some n.val ∧
      base64Bytes.getD n.val 0 ≠ '='.toUInt8 ∧
      byteChar (base64Bytes.getD n.val 0) = base64Char n.val := by
  decide +kernel

/-- An index of the table gives the character of the alphabet for it. -/
theorem char_tab {i : BitVec 32} {n : Nat} (hi : i.toNat = n) (hn : n < 64) :
    ∃ ch, Base64Cell.char (.tab i) = some ch ∧ sextet ch = some n ∧ ch ≠ '='.toUInt8 ∧
      byteChar ch = base64Char n := by
  subst hi
  have hint : ¬ i.toInt < 0 := by
    rw [BitVec.toInt_eq_toNat_of_lt (by omega)]
    omega
  rw [Base64Cell.char, if_neg hint]
  exact ⟨_, base64Bytes_sextet ⟨i.toNat, hn⟩⟩

/-- The masks and shifts of the character that stands for a byte. -/
theorem masks_byteChar (a : UInt8) : ((byteChar a).toNat &&& 0xfc) >>> 2 = a.toNat / 4 ∧
    ((byteChar a).toNat &&& 0x03) <<< 4 = a.toNat % 4 * 16 ∧
    ((byteChar a).toNat &&& 0xf0) >>> 4 = a.toNat / 16 ∧
    ((byteChar a).toNat &&& 0xc0) >>> 6 = a.toNat / 64 ∧
    ((byteChar a).toNat &&& 0x0f) <<< 2 = a.toNat % 16 * 4 ∧
    (byteChar a).toNat &&& 0x3f = a.toNat % 64 := by
  have hlt := a.toNat_lt
  have hchar : (byteChar a).toNat = a.toNat := by
    rw [byteChar, Char.ofNat, dif_pos (.inl (by omega))]
    rfl
  rw [hchar]
  exact masks ⟨a.toNat, hlt⟩

end

/-! ## Group by group -/

/-- The places of a text, three bytes at a time. -/
def byteCells : List UInt8 → List Base64Cell
  | a :: b :: c :: rest => groupCells a b c ++ byteCells rest
  | [a, b] =>
    [.tab ((promote a &&& 0xfc#32).sshiftRight 2),
      .tab (((promote a &&& 0x03#32) <<< 4) + (promote b &&& 0xf0#32).sshiftRight 4),
      .tab ((promote b &&& 0x0f#32) <<< 2), .pad]
  | [a] =>
    [.tab ((promote a &&& 0xfc#32).sshiftRight 2), .tab ((promote a &&& 0x03#32) <<< 4), .pad, .pad]
  | [] => []

/-- The loop and the switch never read behind the end. -/
theorem base64Cells_eq (src : List UInt8) : base64Cells src = some (byteCells src) := by
  fun_induction byteCells src with
  | case1 a b c rest ih =>
    have hdiv : (a :: b :: c :: rest).length / 3 = rest.length / 3 + 1 := by
      simp only [List.length_cons]
      omega
    have hmod : (a :: b :: c :: rest).length % 3 = rest.length % 3 := by
      simp only [List.length_cons]
      omega
    obtain ⟨p, hloop, htail⟩ := Option.bind_eq_some_iff.1 ih
    obtain ⟨tail, htail, hcells⟩ := Option.bind_eq_some_iff.1 htail
    rw [base64Cells, hdiv, hmod, groupLoop, hloop]
    show (tailCells (rest.length % 3) p.2).bind
      (fun tail => some ((groupCells a b c ++ p.1) ++ tail)) = _
    rw [htail, ← Option.some.inj hcells, ← List.append_assoc]
    rfl
  | case2 a b => simp [base64Cells, groupLoop, tailCells]
  | case3 a => simp [base64Cells, groupLoop, tailCells]
  | case4 => rfl

/-- A text is the encoding of some bytes: it has the right length, it is of the alphabet with
padding at the end only, and the decoder reads the bytes back. -/
structure IsBase64Of (src text : List UInt8) : Prop where
  length : text.length = 4 * ((src.length + 2) / 3)
  alphabet : ∃ body k, text = body ++ List.replicate k '='.toUInt8 ∧ k ≤ 2 ∧
    ∀ ch ∈ body, (sextet ch).isSome
  decoded : base64Decode text = some src

/-- A text is what the encoder on characters makes of some bytes. -/
def Base64Agrees (src text : List UInt8) : Prop :=
  text.map byteChar = base64Groups (src.map byteChar)

theorem ofNat_byte (a : UInt8) {n : Nat} (h : n = a.toNat) : UInt8.ofNat n = a := by
  rw [h, UInt8.ofNat_toNat]

/-- Three bytes in front of an encoding. -/
theorem IsBase64Of.group (a b c : UInt8) {src text : List UInt8} (h : IsBase64Of src text)
    (hagrees : Base64Agrees src text) :
    ∃ group, (groupCells a b c).mapM Base64Cell.char = some group ∧
      IsBase64Of (a :: b :: c :: src) (group ++ text) ∧
      Base64Agrees (a :: b :: c :: src) (group ++ text) := by
  have ha := a.toNat_lt
  have hb := b.toNat_lt
  have hc := c.toNat_lt
  obtain ⟨w, hw, hwsextet, -, hwchar⟩ := char_tab (toNat_index₀ a) (by omega)
  obtain ⟨x, hx, hxsextet, -, hxchar⟩ := char_tab (toNat_index₁ a b) (by omega)
  obtain ⟨y, hy, hysextet, -, hychar⟩ := char_tab (toNat_index₂ b c) (by omega)
  obtain ⟨z, hz, hzsextet, hpad, hzchar⟩ := char_tab (toNat_index₃ c) (by omega)
  refine ⟨[w, x, y, z], ?_, ⟨?_, ?_, ?_⟩, ?_⟩
  · rw [groupCells]
    simp only [List.mapM_cons, List.mapM_nil, hw, hx, hy, hz]
    rfl
  · rw [List.length_append, h.length]
    simp only [List.length_cons, List.length_nil]
    omega
  · obtain ⟨body, k, rfl, hk, hbody⟩ := h.alphabet
    refine ⟨[w, x, y, z] ++ body, k, by simp, hk, ?_⟩
    refine List.forall_mem_append.2 ⟨?_, hbody⟩
    simp [hwsextet, hxsextet, hysextet, hzsextet]
  · show base64Decode (w :: x :: y :: z :: text) = _
    rw [base64Decode, if_neg hpad]
    simp only [hwsextet, hxsextet, hysextet, hzsextet, h.decoded, Option.bind_eq_bind,
      Option.bind_some]
    rw [ofNat_byte a (by omega), ofNat_byte b (by omega), ofNat_byte c (by omega)]
    rfl
  · rw [Base64Agrees] at hagrees
    simp only [Base64Agrees, List.map_append, List.map_cons, List.map_nil, base64Groups,
      masks_byteChar, hwchar, hxchar, hychar, hzchar, hagrees, Nat.add_comm (c.toNat / 64)]

/-- The one or two bytes that are left. -/
theorem isBase64Of_two (a b : UInt8) :
    ∃ text, (byteCells [a, b]).mapM Base64Cell.char = some text ∧ IsBase64Of [a, b] text ∧
      Base64Agrees [a, b] text := by
  have ha := a.toNat_lt
  have hb := b.toNat_lt
  obtain ⟨w, hw, hwsextet, -, hwchar⟩ := char_tab (toNat_index₀ a) (by omega)
  obtain ⟨x, hx, hxsextet, -, hxchar⟩ := char_tab (toNat_index₁ a b) (by omega)
  obtain ⟨y, hy, hysextet, hpad, hychar⟩ := char_tab (toNat_index₂' b) (by omega)
  refine ⟨[w, x, y, '='.toUInt8], ?_, ⟨by simp, ⟨[w, x, y], 1, rfl, by omega, ?_⟩, ?_⟩, ?_⟩
  · rw [byteCells]
    simp only [List.mapM_cons, List.mapM_nil, hw, hx, hy]
    rfl
  · simp [hwsextet, hxsextet, hysextet]
  · rw [base64Decode, if_pos rfl, if_neg (not_not.2 rfl), if_neg hpad]
    simp only [hwsextet, hxsextet, hysextet, Option.bind_eq_bind, Option.bind_some]
    rw [if_pos (by omega), ofNat_byte a (by omega), ofNat_byte b (by omega)]
  · simp only [Base64Agrees, List.map_cons, List.map_nil, base64Groups, masks_byteChar, hwchar,
      hxchar, hychar]
    rfl

theorem isBase64Of_one (a : UInt8) :
    ∃ text, (byteCells [a]).mapM Base64Cell.char = some text ∧ IsBase64Of [a] text ∧
      Base64Agrees [a] text := by
  have ha := a.toNat_lt
  obtain ⟨w, hw, hwsextet, -, hwchar⟩ := char_tab (toNat_index₀ a) (by omega)
  obtain ⟨x, hx, hxsextet, -, hxchar⟩ := char_tab (toNat_index₁' a) (by omega)
  refine ⟨[w, x, '='.toUInt8, '='.toUInt8], ?_, ⟨by simp, ⟨[w, x], 2, rfl, by omega, ?_⟩, ?_⟩, ?_⟩
  · rw [byteCells]
    simp only [List.mapM_cons, List.mapM_nil, hw, hx]
    rfl
  · simp [hwsextet, hxsextet]
  · rw [base64Decode, if_pos rfl, if_neg (not_not.2 rfl), if_pos rfl]
    simp only [hwsextet, hxsextet, Option.bind_eq_bind, Option.bind_some]
    rw [if_pos (by omega), ofNat_byte a (by omega)]
  · simp only [Base64Agrees, List.map_cons, List.map_nil, base64Groups, masks_byteChar, hwchar,
      hxchar]
    rfl

/-- The characters at the places of a text are its encoding. -/
theorem isBase64Of_byteCells (src : List UInt8) :
    ∃ text, (byteCells src).mapM Base64Cell.char = some text ∧ IsBase64Of src text ∧
      Base64Agrees src text := by
  fun_induction byteCells src with
  | case1 a b c rest ih =>
    obtain ⟨text, htext, hrest, hagrees⟩ := ih
    obtain ⟨group, hgroup, hall⟩ := hrest.group a b c hagrees
    refine ⟨group ++ text, ?_, hall⟩
    rw [List.mapM_append, hgroup, htext]
    rfl
  | case2 a b => exact isBase64Of_two a b
  | case3 a => exact isBase64Of_one a
  | case4 => exact ⟨[], rfl, ⟨rfl, ⟨[], 0, rfl, by omega, by simp⟩, rfl⟩, rfl⟩

/-- No index leaves the alphabet. -/
theorem index_lt_of_mem_byteCells {src : List UInt8} {i : BitVec 32}
    (h : .tab i ∈ byteCells src) : i.toNat < 64 := by
  fun_induction byteCells src with
  | case1 a b c rest ih =>
    have ha := a.toNat_lt
    have hb := b.toNat_lt
    have hc := c.toNat_lt
    rcases List.mem_append.1 h with h | h
    · simp only [groupCells, List.mem_cons, List.not_mem_nil, Base64Cell.tab.injEq, or_false] at h
      rcases h with rfl | rfl | rfl | rfl
      · rw [toNat_index₀]
        omega
      · rw [toNat_index₁]
        omega
      · rw [toNat_index₂]
        omega
      · rw [toNat_index₃]
        omega
    · exact ih h
  | case2 a b =>
    have ha := a.toNat_lt
    have hb := b.toNat_lt
    simp only [List.mem_cons, List.not_mem_nil, Base64Cell.tab.injEq, or_false, reduceCtorEq] at h
    rcases h with rfl | rfl | rfl
    · rw [toNat_index₀]
      omega
    · rw [toNat_index₁]
      omega
    · rw [toNat_index₂']
      omega
  | case3 a =>
    have ha := a.toNat_lt
    simp only [List.mem_cons, List.not_mem_nil, Base64Cell.tab.injEq, or_false, reduceCtorEq] at h
    rcases h with rfl | rfl
    · rw [toNat_index₀]
      omega
    · rw [toNat_index₁']
      omega
  | case4 => cases h

/-- The encoder appends the characters at the places of the text. -/
theorem base64EncodeBytes_of_text {dest src text : List UInt8}
    (h : (byteCells src).mapM Base64Cell.char = some text) :
    base64EncodeBytes dest src = some (dest ++ text) := by
  rw [base64EncodeBytes, base64Cells_eq]
  show ((byteCells src).mapM Base64Cell.char).bind (fun text => some (dest ++ text)) = _
  rw [h]
  rfl

/-- The encoder on signed bytes is the encoder on characters. -/
theorem base64EncodeBytes_eq (dest src : List UInt8) :
    (base64EncodeBytes dest src).map (List.map byteChar) =
      some (base64Encode (dest.map byteChar) (src.map byteChar)) := by
  obtain ⟨text, htext, -, hagrees⟩ := isBase64Of_byteCells src
  rw [base64EncodeBytes_of_text htext, Option.map_some, List.map_append, hagrees, base64Encode]

/-- `base64_encode` appends the encoding of the bytes to what is there, and every index that it
takes is one of the alphabet. -/
theorem base64_roundTrip (dest src : List UInt8) :
    ∃ cells text, base64Cells src = some cells ∧
      (∀ i, .tab i ∈ cells → 0 ≤ i.toInt ∧ i.toInt ≤ 63) ∧
      base64EncodeBytes dest src = some (dest ++ text) ∧ IsBase64Of src text := by
  obtain ⟨text, htext, hencoded, -⟩ := isBase64Of_byteCells src
  refine ⟨byteCells src, text, base64Cells_eq src, fun i hi => ?_,
    base64EncodeBytes_of_text htext, hencoded⟩
  have hlt := index_lt_of_mem_byteCells hi
  rw [BitVec.toInt_eq_toNat_of_lt (by omega)]
  omega

end Beast2.Burl
