import Mathlib.Data.Nat.Digits.Defs
import Beast2.Lib.Split

/-!
# Endpoints as text

An endpoint is an IPv4 or an IPv6 address with a port, and `operator<<` prints the address and, if
it is not zero, a colon and the port (`endpoint.cpp:65`). An IPv4 address is printed in dotted
decimal and an IPv6 address as RFC 5952 says: its groups in hexadecimal, with the first of the
longest runs of zeros left out between two colons, and the last two groups of an IPv4-mapped address
in dotted decimal.

There are no brackets around an IPv6 address, so behind `::` a port reads like one more group. Two
endpoints with the same text are the same unless one is printed with a port and the other has that
port for its last group and no port (`format_injective_iff`).
-/

namespace Beast2

namespace Endpoint

/-- `urls::ipv4_address`. -/
structure Ipv4Address where
  a : UInt8
  b : UInt8
  c : UInt8
  d : UInt8
deriving DecidableEq, Repr

/-- `urls::ipv6_address`: eight groups of sixteen bits. -/
structure Ipv6Address where
  groups : List UInt16
  size : groups.length = 8
deriving DecidableEq, Repr

end Endpoint

open Endpoint in
/-- `endpoint`, by its kind. Reference: `endpoint.hpp:28`. -/
inductive Endpoint where
  | none
  | ipv4 (addr : Ipv4Address) (port : UInt16)
  | ipv6 (addr : Ipv6Address) (port : UInt16)
deriving DecidableEq, Repr

namespace Endpoint

/-! ## The text of an address -/

/-- A number in decimal. -/
def decimal (n : Nat) : List Char := Nat.toDigits 10 n

/-- A group in hexadecimal, in lower case and without leading zeros. -/
def hexadecimal (g : UInt16) : List Char := Nat.toDigits 16 g.toNat

/-- Dotted decimal. -/
def Ipv4Address.text (x : Ipv4Address) : List Char :=
  ['.'].intercalate [decimal x.a.toNat, decimal x.b.toNat, decimal x.c.toNat, decimal x.d.toNat]

/-- How many zeros follow from an index on. -/
def zerosFrom (l : List UInt16) (i : Nat) : Nat := ((l.drop i).takeWhile (· == 0)).length

/-- The run from an index on, if it is longer than the best one before. -/
def betterRun (l : List UInt16) (best : Nat × Nat) (i : Nat) : Nat × Nat :=
  if best.2 < zerosFrom l i then (i, zerosFrom l i) else best

/-- The first of the longest runs of zeros: where it starts, and its length. -/
def zeroRun (l : List UInt16) : Nat × Nat := (List.range l.length).foldl (betterRun l) (0, 0)

/-- The two groups of an IPv4-mapped address as an IPv4 address. -/
def embedded (x y : UInt16) : Ipv4Address :=
  ⟨(x >>> 8).toUInt8, x.toUInt8, (y >>> 8).toUInt8, y.toUInt8⟩

/-- The pieces that an IPv6 address is printed in: those before the two colons and those behind
them, if there are two colons. -/
structure Layout where
  before : List (List Char)
  after : Option (List (List Char))
deriving DecidableEq, Repr

/-- The pieces of some groups. A single zero is not left out. -/
def compressed (groups : List UInt16) : Layout :=
  let run := zeroRun groups
  if 2 ≤ run.2 then
    ⟨(groups.take run.1).map hexadecimal, some ((groups.drop (run.1 + run.2)).map hexadecimal)⟩
  else ⟨groups.map hexadecimal, .none⟩

/-- An IPv4-mapped address. -/
def Ipv6Address.mapped (x : Ipv6Address) : Bool := x.groups.take 6 == [0, 0, 0, 0, 0, 0xffff]

/-- RFC 5952. -/
def Ipv6Address.layout (x : Ipv6Address) : Layout :=
  if x.mapped then
    ⟨[], some ["ffff".toList, (embedded (x.groups.getD 6 0) (x.groups.getD 7 0)).text]⟩
  else compressed x.groups

/-- The text of pieces. -/
def Layout.text (l : Layout) : List Char :=
  [':'].intercalate l.before ++
    match l.after with
    | .none => []
    | some ps => ':' :: ':' :: [':'].intercalate ps

/-- `operator<<` of `urls::ipv6_address`. -/
def Ipv6Address.text (x : Ipv6Address) : List Char := x.layout.text

/-- The port, unless it is zero. Reference: `endpoint.cpp:81`. -/
def portText (port : UInt16) : List Char := if port = 0 then [] else ':' :: decimal port.toNat

/-- `endpoint::format`. Reference: `endpoint.cpp:65`. -/
def format : Endpoint → List Char
  | .none => "none".toList
  | .ipv4 addr port => addr.text ++ portText port
  | .ipv6 addr port => addr.text ++ portText port

/-! ## Numbers are read back -/

/-- The value of a hexadecimal digit. -/
def digitValue (c : Char) : Nat := if c.isDigit then c.toNat - 48 else c.toNat - 87

theorem digitValue_digitChar : ∀ d : Fin 16, digitValue (Nat.digitChar d) = d := by decide

/-- The digits of a number in a base up to sixteen have the number for a value. -/
theorem foldl_toDigits {b : Nat} (hb : 1 < b) (hb' : b ≤ 16) (n : Nat) :
    (Nat.toDigits b n).foldl (fun v c => b * v + digitValue c) 0 = n := by
  induction n using Nat.strong_induction_on with
  | _ n ih =>
    rw [Nat.toDigits_eq_if hb]
    split
    · next hlt =>
      have hval := digitValue_digitChar ⟨n, by omega⟩
      simpa using hval
    · next hle =>
      have hdiv : n / b < n := Nat.div_lt_self (by omega) hb
      have hval := digitValue_digitChar ⟨n % b, Nat.lt_of_lt_of_le (Nat.mod_lt n (by omega)) hb'⟩
      rw [List.foldl_append, ih (n / b) hdiv, List.foldl_cons, List.foldl_nil, hval]
      exact Nat.div_add_mod n b

theorem toDigits_inj {b n m : Nat} (hb : 1 < b) (hb' : b ≤ 16)
    (h : Nat.toDigits b n = Nat.toDigits b m) : n = m := by
  rw [← foldl_toDigits hb hb' n, h, foldl_toDigits hb hb' m]

/-- The digits of a number in a base up to sixteen. -/
theorem mem_toDigits {b n : Nat} (hb : 1 < b) (hb' : b ≤ 16) {c : Char}
    (h : c ∈ Nat.toDigits b n) : ∃ d < b, c = Nat.digitChar d := by
  induction n using Nat.strong_induction_on with
  | _ n ih =>
    rw [Nat.toDigits_eq_if hb] at h
    split at h
    · next hlt => exact ⟨n, hlt, List.mem_singleton.1 h⟩
    · rcases List.mem_append.1 h with h | h
      · exact ih _ (Nat.div_lt_self (by omega) hb) h
      · exact ⟨n % b, Nat.mod_lt n (by omega), List.mem_singleton.1 h⟩

theorem digitChar_ne : ∀ d : Fin 16, Nat.digitChar d ≠ ':' ∧ Nat.digitChar d ≠ '.' := by decide

/-- The digits of a number are neither separator. -/
theorem not_mem_toDigits {b : Nat} (hb : 1 < b) (hb' : b ≤ 16) (n : Nat) :
    ':' ∉ Nat.toDigits b n ∧ '.' ∉ Nat.toDigits b n := by
  refine ⟨fun h => ?_, fun h => ?_⟩
  · obtain ⟨d, hd, hc⟩ := mem_toDigits hb hb' h
    exact (digitChar_ne ⟨d, by omega⟩).1 hc.symm
  · obtain ⟨d, hd, hc⟩ := mem_toDigits hb hb' h
    exact (digitChar_ne ⟨d, by omega⟩).2 hc.symm

/-- What stands between two separators. -/
def Piece (x : Char) (l : List Char) : Prop := l ≠ [] ∧ x ∉ l

theorem piece_decimal (n : Nat) : Piece ':' (decimal n) ∧ Piece '.' (decimal n) := by
  obtain ⟨hcolon, hdot⟩ := not_mem_toDigits (b := 10) (by omega) (by omega) n
  exact ⟨⟨Nat.toDigits_ne_nil, hcolon⟩, ⟨Nat.toDigits_ne_nil, hdot⟩⟩

theorem piece_hexadecimal (g : UInt16) : Piece ':' (hexadecimal g) ∧ '.' ∉ hexadecimal g := by
  obtain ⟨hcolon, hdot⟩ := not_mem_toDigits (b := 16) (by omega) (by omega) g.toNat
  exact ⟨⟨Nat.toDigits_ne_nil, hcolon⟩, hdot⟩

theorem decimal_inj {n m : Nat} (h : decimal n = decimal m) : n = m :=
  toDigits_inj (by omega) (by omega) h

theorem hexadecimal_injective : Function.Injective hexadecimal := fun _ _ h =>
  UInt16.toNat_inj.1 (toDigits_inj (by omega) (by omega) h)

/-! ## Addresses are read back -/

theorem Ipv4Address.text_eq (x : Ipv4Address) : x.text = decimal x.a.toNat ++
    ('.' :: decimal x.b.toNat ++ ('.' :: decimal x.c.toNat ++ '.' :: decimal x.d.toNat)) := by
  rw [text, Split.intercalate_cons]
  simp

/-- Dotted decimal is one piece, with dots in it. -/
theorem Ipv4Address.piece_text (x : Ipv4Address) : Piece ':' x.text ∧ '.' ∈ x.text := by
  rw [text_eq]
  have ha := (piece_decimal x.a.toNat).1
  have hb := (piece_decimal x.b.toNat).1
  have hc := (piece_decimal x.c.toNat).1
  have hd := (piece_decimal x.d.toNat).1
  refine ⟨⟨List.append_ne_nil_of_left_ne_nil ha.1 _, ?_⟩, by simp⟩
  simp [ha.2, hb.2, hc.2, hd.2]

theorem Ipv4Address.text_injective : Function.Injective Ipv4Address.text := by
  intro x y h
  have hpieces : ∀ z : Ipv4Address, ∀ l ∈ [decimal z.a.toNat, decimal z.b.toNat, decimal z.c.toNat,
      decimal z.d.toNat], l ≠ [] ∧ '.' ∉ l := by
    intro z l hl
    simp only [List.mem_cons, List.not_mem_nil, or_false] at hl
    rcases hl with rfl | rfl | rfl | rfl <;> exact (piece_decimal _).2
  have hlist := (Split.intercalate_append_inj (hpieces x) (hpieces y) (.inl rfl) (.inl rfl)
    (congrArg (· ++ []) h)).1
  simp only [List.cons.injEq, and_true] at hlist
  obtain ⟨ha, hb, hc, hd⟩ := hlist
  obtain ⟨xa, xb, xc, xd⟩ := x
  obtain ⟨ya, yb, yc, yd⟩ := y
  rw [Ipv4Address.mk.injEq]
  exact ⟨UInt8.toNat_inj.1 (decimal_inj ha), UInt8.toNat_inj.1 (decimal_inj hb),
    UInt8.toNat_inj.1 (decimal_inj hc), UInt8.toNat_inj.1 (decimal_inj hd)⟩

/-- A run is empty or as long as the zeros from its start on. -/
def IsRun (l : List UInt16) (run : Nat × Nat) : Prop := run.2 = 0 ∨ run.2 = zerosFrom l run.1

theorem isRun_betterRun {l : List UInt16} {best : Nat × Nat} (h : IsRun l best) (i : Nat) :
    IsRun l (betterRun l best i) := by
  unfold betterRun
  split
  · exact .inr rfl
  · exact h

theorem isRun_zeroRun (l : List UInt16) : IsRun l (zeroRun l) := by
  unfold zeroRun
  generalize List.range l.length = is
  have hfold : ∀ best, IsRun l best → IsRun l (is.foldl (betterRun l) best) := by
    induction is with
    | nil => exact fun best h => h
    | cons i is ih => exact fun best h => ih _ (isRun_betterRun h i)
  exact hfold (0, 0) (.inl rfl)

/-- Groups are those before the run, the zeros of the run, and those behind it. -/
theorem zeroRun_split (l : List UInt16) :
    l.take (zeroRun l).1 ++ List.replicate (zeroRun l).2 0 ++
      l.drop ((zeroRun l).1 + (zeroRun l).2) = l := by
  rcases isRun_zeroRun l with h | h
  · simp [h]
  · have hzeros : (l.drop (zeroRun l).1).takeWhile (· == 0) = List.replicate (zeroRun l).2 0 := by
      refine List.eq_replicate_iff.2 ⟨h.symm, fun g hg => ?_⟩
      have hzero : (g == 0) = true := List.mem_takeWhile_imp (p := (· == 0)) hg
      exact beq_iff_eq.1 hzero
    have hsplit := List.takeWhile_append_dropWhile (p := (· == 0)) (l := l.drop (zeroRun l).1)
    have hdrop : (l.drop (zeroRun l).1).dropWhile (· == 0) =
        l.drop ((zeroRun l).1 + (zeroRun l).2) := by
      have hleft := congrArg (List.drop (zerosFrom l (zeroRun l).1)) hsplit
      rw [zerosFrom, List.drop_left, ← zerosFrom, ← h, List.drop_drop] at hleft
      exact hleft
    rw [← hzeros, ← hdrop, List.append_assoc, hsplit, List.take_append_drop]

/-- The groups that pieces stand for, in hexadecimal. -/
def Layout.expand (l : Layout) : List (List Char) :=
  l.before ++ List.replicate (8 - l.before.length - (l.after.getD []).length) ['0'] ++
    l.after.getD []

theorem expand_compressed {groups : List UInt16} (h : groups.length = 8) :
    (compressed groups).expand = groups.map hexadecimal := by
  unfold compressed
  have hsplit := zeroRun_split groups
  generalize zeroRun groups = run at hsplit ⊢
  dsimp only
  split
  · -- the zeros that are left out are as many as the groups that are missing
    have hlen := congrArg List.length hsplit
    rw [List.length_append, List.length_append, List.length_replicate, h] at hlen
    have hmissing : 8 - (groups.take run.1).length - (groups.drop (run.1 + run.2)).length =
        run.2 := by omega
    have hzero : List.replicate run.2 ['0'] = (List.replicate run.2 0).map hexadecimal := by
      rw [List.map_replicate]
      rfl
    simp only [Layout.expand, Option.getD_some, List.length_map, hmissing, hzero]
    rw [← List.map_append, ← List.map_append, hsplit]
  · simp [Layout.expand, h]

/-- The pieces of an address: none is empty or has a colon. -/
structure Layout.Valid (l : Layout) : Prop where
  before : ∀ p ∈ l.before, Piece ':' p
  after : ∀ ps ∈ l.after, ∀ p ∈ ps, Piece ':' p

/-- Hexadecimal pieces have no dot. -/
theorem compressed_pieces (groups : List UInt16) :
    (∀ p ∈ (compressed groups).before, Piece ':' p ∧ '.' ∉ p) ∧
      ∀ ps ∈ (compressed groups).after, ∀ p ∈ ps, Piece ':' p ∧ '.' ∉ p := by
  have hmap : ∀ gs : List UInt16, ∀ p ∈ gs.map hexadecimal, Piece ':' p ∧ '.' ∉ p := by
    intro gs p hp
    obtain ⟨g, -, rfl⟩ := List.mem_map.1 hp
    exact piece_hexadecimal g
  unfold compressed
  dsimp only
  split
  · refine ⟨hmap _, ?_⟩
    intro ps heq
    cases heq
    exact hmap _
  · refine ⟨hmap _, ?_⟩
    intro ps heq
    cases heq

theorem Ipv6Address.layout_valid (x : Ipv6Address) : x.layout.Valid := by
  unfold layout
  split
  · refine ⟨fun p hp => absurd hp List.not_mem_nil, ?_⟩
    intro ps heq
    cases heq
    refine List.forall_mem_cons.2 ⟨⟨nofun, by decide⟩, List.forall_mem_singleton.2 ?_⟩
    exact (Ipv4Address.piece_text _).1
  · obtain ⟨hbefore, hafter⟩ := compressed_pieces x.groups
    exact ⟨fun p hp => (hbefore p hp).1, fun ps hps p hp => (hafter ps hps p hp).1⟩

/-- The two groups of an IPv4-mapped address are read back. -/
theorem embedded_inj {x y x' y' : UInt16} (h : embedded x y = embedded x' y') :
    x = x' ∧ y = y' := by
  have hgroup : ∀ {g g' : UInt16}, (g >>> 8).toUInt8 = (g' >>> 8).toUInt8 →
      g.toUInt8 = g'.toUInt8 → g = g' := by
    intro g g' hhigh hlow
    have hg := g.toNat_lt
    have hg' := g'.toNat_lt
    have hhigh' := congrArg UInt8.toNat hhigh
    have hlow' := congrArg UInt8.toNat hlow
    simp only [UInt16.toNat_toUInt8, UInt16.toNat_shiftRight] at hhigh' hlow'
    refine UInt16.toNat_inj.1 ?_
    simp [Nat.shiftRight_eq_div_pow] at hhigh'
    omega
  obtain ⟨ha, hb, hc, hd⟩ := Ipv4Address.mk.inj h
  exact ⟨hgroup ha hb, hgroup hc hd⟩

theorem Ipv6Address.groups_of_mapped {x : Ipv6Address} (h : x.mapped = true) :
    x.groups = [0, 0, 0, 0, 0, 0xffff, x.groups.getD 6 0, x.groups.getD 7 0] := by
  have htake : x.groups.take 6 = [0, 0, 0, 0, 0, 0xffff] := beq_iff_eq.1 h
  have hdrop : (x.groups.drop 6).length = 2 := by rw [List.length_drop, x.size]
  obtain ⟨y, z, hyz⟩ := List.length_eq_two.1 hdrop
  have hgroups : x.groups = [0, 0, 0, 0, 0, 0xffff, y, z] := by
    rw [← List.take_append_drop 6 x.groups, htake, hyz]
    rfl
  rw [hgroups]
  rfl

/-- An IPv4-mapped address has a piece with dots, another has none. -/
theorem Ipv6Address.mapped_of_layout {x y : Ipv6Address} (h : x.layout = y.layout)
    (hx : x.mapped = true) : y.mapped = true := by
  by_contra hy
  rw [layout, layout, if_pos hx, if_neg hy] at h
  have hafter := (compressed_pieces y.groups).2
  rw [← h] at hafter
  refine (hafter _ rfl _ (List.mem_cons_of_mem _ List.mem_cons_self)).2 ?_
  exact (Ipv4Address.piece_text _).2

theorem Ipv6Address.layout_injective : Function.Injective Ipv6Address.layout := by
  intro x y h
  have hgroups : x.groups = y.groups := by
    by_cases hx : x.mapped = true
    · have hy := mapped_of_layout h hx
      rw [layout, layout, if_pos hx, if_pos hy, Layout.mk.injEq] at h
      have hpieces := Option.some.inj h.2
      simp only [List.cons.injEq, true_and, and_true] at hpieces
      obtain ⟨hsix, hseven⟩ := embedded_inj (Ipv4Address.text_injective hpieces)
      rw [groups_of_mapped hx, groups_of_mapped hy, hsix, hseven]
    · have hy : ¬ y.mapped = true := fun hy => hx (mapped_of_layout h.symm hy)
      rw [layout, layout, if_neg hx, if_neg hy] at h
      refine List.map_injective_iff.2 hexadecimal_injective ?_
      rw [← expand_compressed x.size, h, expand_compressed y.size]
  obtain ⟨gs, hsize⟩ := x
  obtain ⟨gs', hsize'⟩ := y
  cases hgroups
  rfl

/-! ## Endpoints are read back -/

/-- The port as a piece. -/
def portPieces (port : UInt16) : List (List Char) :=
  if port = 0 then [] else [decimal port.toNat]

/-- The pieces before the two colons, if there are any. -/
def front : Endpoint → List (List Char)
  | .none => ["none".toList]
  | .ipv4 addr port => addr.text :: portPieces port
  | .ipv6 addr port =>
    match addr.layout.after with
    | .none => addr.layout.before ++ portPieces port
    | some _ => addr.layout.before

/-- What is behind these pieces. -/
def back : Endpoint → List Char
  | .none => []
  | .ipv4 _ _ => []
  | .ipv6 addr port =>
    match addr.layout.after with
    | .none => []
    | some ps => ':' :: ':' :: ([':'].intercalate ps ++ portText port)

section

variable {port port' : UInt16} {ps ps' : List (List Char)}

theorem piece_portPieces : ∀ p ∈ portPieces port, Piece ':' p := by
  unfold portPieces
  split
  · exact fun p hp => absurd hp List.not_mem_nil
  · exact List.forall_mem_singleton.2 (piece_decimal port.toNat).1

/-- A port behind pieces is one more piece. -/
theorem intercalate_portText (hps : ps ≠ []) :
    [':'].intercalate ps ++ portText port = [':'].intercalate (ps ++ portPieces port) := by
  obtain ⟨p, ps, rfl⟩ := List.exists_cons_of_ne_nil hps
  unfold portText portPieces
  split
  · simp
  · rw [List.cons_append, Split.intercalate_cons, Split.intercalate_cons]
    simp

theorem portPieces_zero : portPieces 0 = [] := if_pos rfl

theorem portPieces_of_ne (h : port ≠ 0) : portPieces port = [decimal port.toNat] := if_neg h

theorem portText_inj (h : portText port = portText port') : port = port' := by
  unfold portText at h
  split at h
  · next hzero =>
    split at h
    · next hzero' => rw [hzero, hzero']
    · cases h
  · split at h
    · cases h
    · exact UInt16.toNat_inj.1 (decimal_inj (List.cons.inj h).2)

/-- A port alone is not pieces. -/
theorem portText_ne (hne : ps ≠ []) (hps : ∀ p ∈ ps, Piece ':' p) :
    portText port ≠ [':'].intercalate ps ++ portText port' := by
  intro h
  obtain ⟨p, ps, rfl⟩ := List.exists_cons_of_ne_nil hne
  obtain ⟨hp, hcolon⟩ := hps p List.mem_cons_self
  obtain ⟨c, p, rfl⟩ := List.exists_cons_of_ne_nil hp
  rw [Split.intercalate_cons] at h
  unfold portText at h
  split at h
  · cases h
  · exact hcolon ((List.cons.inj h).1 ▸ List.mem_cons_self)

theorem portPieces_inj (h : portPieces port = portPieces port') : port = port' := by
  unfold portPieces at h
  split at h
  · next hzero =>
    split at h
    · next hzero' => rw [hzero, hzero']
    · cases h
  · split at h
    · cases h
    · exact UInt16.toNat_inj.1 (decimal_inj (List.cons.inj h).1)

end

/-- Without two colons all eight groups are printed. -/
theorem Ipv6Address.length_before {x : Ipv6Address} (h : x.layout.after = .none) :
    x.layout.before.length = 8 := by
  unfold layout at h ⊢
  split at h
  · cases h
  · next hmapped =>
    rw [if_neg hmapped]
    unfold compressed at h ⊢
    dsimp only at h ⊢
    split at h
    · cases h
    · next hrun => rw [if_neg hrun, List.length_map, x.size]

/-- A text is its front pieces and what is behind them. -/
theorem format_eq (e : Endpoint) : format e = [':'].intercalate (front e) ++ back e := by
  cases e with
  | none => rfl
  | ipv4 addr port =>
    have hport := @intercalate_portText port _ (List.cons_ne_nil addr.text [])
    rw [List.intercalate_singleton, List.singleton_append] at hport
    rw [format, front, back, List.append_nil, hport]
  | ipv6 addr port =>
    rw [format, Ipv6Address.text, Layout.text, front, back]
    cases hafter : addr.layout.after with
    | none =>
      have hne : addr.layout.before ≠ [] := by
        intro hnil
        have hlen := addr.length_before hafter
        rw [hnil] at hlen
        cases hlen
      rw [List.append_nil, List.append_nil, intercalate_portText hne]
    | some ps => rw [List.append_assoc]; rfl

theorem piece_front (e : Endpoint) : ∀ p ∈ front e, Piece ':' p := by
  cases e with
  | none => exact List.forall_mem_singleton.2 ⟨nofun, by decide⟩
  | ipv4 addr port => exact List.forall_mem_cons.2 ⟨addr.piece_text.1, piece_portPieces⟩
  | ipv6 addr port =>
    have hbefore := addr.layout_valid.before
    rw [front]
    cases addr.layout.after with
    | none => exact List.forall_mem_append.2 ⟨hbefore, piece_portPieces⟩
    | some ps => exact hbefore

theorem ends_back (e : Endpoint) : Split.Ends ':' (back e) := by
  cases e with
  | none | ipv4 => exact .inl rfl
  | ipv6 addr port =>
    rw [back]
    cases addr.layout.after with
    | none => exact .inl rfl
    | some ps => exact .inr ⟨_, rfl⟩

/-- Endpoints with the same text have the same pieces. -/
theorem front_back_of_format_eq {a b : Endpoint} (h : format a = format b) :
    front a = front b ∧ back a = back b := by
  rw [format_eq, format_eq] at h
  exact Split.intercalate_append_inj (piece_front a) (piece_front b) (ends_back a) (ends_back b) h

/-- The port of one IPv6 endpoint is printed like the last group of another one without a port: the
groups before the two colons are the same, and those behind them are followed by one that is written
like the port. -/
def Collides : Endpoint → Endpoint → Prop
  | .ipv6 x port, .ipv6 y port' =>
    port ≠ 0 ∧ port' = 0 ∧ x.layout.before = y.layout.before ∧
      ∃ ps, ps ≠ [] ∧ x.layout.after = some ps ∧
        y.layout.after = some (ps ++ [decimal port.toNat])
  | _, _ => False

section

variable {port port' : UInt16} {ps ps' : List (List Char)}

/-- What can be behind two colons twice. -/
theorem after_cases (hps : ∀ p ∈ ps, Piece ':' p) (hps' : ∀ p ∈ ps', Piece ':' p)
    (h : [':'].intercalate ps ++ portText port = [':'].intercalate ps' ++ portText port') :
    (ps = ps' ∧ port = port') ∨
      (port ≠ 0 ∧ port' = 0 ∧ ps ≠ [] ∧ ps' = ps ++ [decimal port.toNat]) ∨
      port' ≠ 0 ∧ port = 0 ∧ ps' ≠ [] ∧ ps = ps' ++ [decimal port'.toNat] := by
  by_cases hnil : ps = []
  · subst hnil
    by_cases hnil' : ps' = []
    · subst hnil'
      exact .inl ⟨rfl, portText_inj h⟩
    · exact absurd h (portText_ne hnil' hps')
  by_cases hnil' : ps' = []
  · subst hnil'
    exact absurd h.symm (portText_ne hnil hps)
  rw [intercalate_portText hnil, intercalate_portText hnil'] at h
  obtain ⟨hpieces, -⟩ := Split.intercalate_append_inj
    (List.forall_mem_append.2 ⟨hps, piece_portPieces⟩)
    (List.forall_mem_append.2 ⟨hps', piece_portPieces⟩) (.inl rfl) (.inl rfl)
    (congrArg (· ++ []) h)
  by_cases hport : port = 0
  · subst hport
    rw [portPieces_zero, List.append_nil] at hpieces
    by_cases hport' : port' = 0
    · subst hport'
      rw [portPieces_zero, List.append_nil] at hpieces
      exact .inl ⟨hpieces, rfl⟩
    · rw [portPieces_of_ne hport'] at hpieces
      exact .inr (.inr ⟨hport', rfl, hnil', hpieces⟩)
  · rw [portPieces_of_ne hport] at hpieces
    by_cases hport' : port' = 0
    · subst hport'
      rw [portPieces_zero, List.append_nil] at hpieces
      exact .inr (.inl ⟨hport, rfl, hnil, hpieces.symm⟩)
    · rw [portPieces_of_ne hport'] at hpieces
      obtain ⟨hsame, hlast⟩ := List.append_inj' hpieces rfl
      exact .inl ⟨hsame, UInt16.toNat_inj.1 (decimal_inj (List.cons.inj hlast).1)⟩

theorem Ipv6Address.eq_of_layout {x y : Ipv6Address} (hbefore : x.layout.before = y.layout.before)
    (hafter : x.layout.after = y.layout.after) : x = y := by
  refine layout_injective ?_
  cases hx : x.layout with
  | mk before after =>
    cases hy : y.layout with
    | mk before' after' =>
      rw [hx, hy] at hbefore hafter
      cases hbefore
      cases hafter
      rfl

/-- IPv6 endpoints with the same text are the same or collide. -/
theorem ipv6_cases {x y : Ipv6Address} (h : format (.ipv6 x port) = format (.ipv6 y port')) :
    Endpoint.ipv6 x port = .ipv6 y port' ∨ Collides (.ipv6 x port) (.ipv6 y port') ∨
      Collides (.ipv6 y port') (.ipv6 x port) := by
  obtain ⟨hfront, hback⟩ := front_back_of_format_eq h
  rw [front, front] at hfront
  rw [back, back] at hback
  cases hx : x.layout.after with
  | none =>
    cases hy : y.layout.after with
    | none =>
      rw [hx, hy] at hfront
      have hlength : x.layout.before.length = y.layout.before.length := by
        rw [x.length_before hx, y.length_before hy]
      obtain ⟨hbefore, hports⟩ := List.append_inj hfront hlength
      rw [Ipv6Address.eq_of_layout hbefore (hx.trans hy.symm), portPieces_inj hports]
      exact .inl rfl
    | some ps' =>
      rw [hx, hy] at hback
      cases hback
  | some ps =>
    cases hy : y.layout.after with
    | none =>
      rw [hx, hy] at hback
      cases hback
    | some ps' =>
      rw [hx, hy] at hfront hback
      have hafter := after_cases (x.layout_valid.after ps hx) (y.layout_valid.after ps' hy)
        (List.cons.inj (List.cons.inj hback).2).2
      rcases hafter with ⟨rfl, rfl⟩ | ⟨hport, hzero, hne, hps⟩ | ⟨hport, hzero, hne, hps⟩
      · rw [Ipv6Address.eq_of_layout hfront (hx.trans hy.symm)]
        exact .inl rfl
      · exact .inr (.inl ⟨hport, hzero, hfront, ps, hne, hx, hps ▸ hy⟩)
      · exact .inr (.inr ⟨hport, hzero, hfront.symm, ps', hne, hy, hps ▸ hx⟩)

end

/-- An IPv6 endpoint has two colons behind its front pieces or at least eight of these. -/
theorem ipv6_front_back (x : Ipv6Address) (port : UInt16) :
    8 ≤ (front (.ipv6 x port)).length ∨ back (.ipv6 x port) ≠ [] := by
  rw [front, back]
  cases hafter : x.layout.after with
  | none =>
    refine .inl ?_
    rw [List.length_append, x.length_before hafter]
    exact Nat.le_add_right 8 _
  | some ps => exact .inr (List.cons_ne_nil _ _)

/-- Any other endpoint has at most two pieces. -/
theorem other_front_back (e : Endpoint) (he : ∀ x port, e ≠ .ipv6 x port) :
    (front e).length ≤ 2 ∧ back e = [] := by
  cases e with
  | none => exact ⟨by decide, rfl⟩
  | ipv4 addr port =>
    refine ⟨?_, rfl⟩
    rw [front, portPieces]
    split <;> simp
  | ipv6 x port => exact absurd rfl (he x port)

/-- The text of an IPv6 endpoint is not that of another kind. -/
theorem format_ipv6_ne (x : Ipv6Address) (port : UInt16) (e : Endpoint)
    (he : ∀ x port, e ≠ .ipv6 x port) : format e ≠ format (.ipv6 x port) := by
  intro h
  obtain ⟨hfront, hback⟩ := front_back_of_format_eq h
  obtain ⟨hlength, hnil⟩ := other_front_back e he
  rcases ipv6_front_back x port with h8 | hne
  · rw [← hfront] at h8
    omega
  · exact hne (hback.symm.trans hnil)

/-- Endpoints with the same text are the same or collide. -/
theorem format_cases {a b : Endpoint} (h : format a = format b) :
    a = b ∨ Collides a b ∨ Collides b a := by
  have hnone : ∀ addr port, format .none ≠ format (.ipv4 addr port) := by
    intro addr port h
    have hfront := (front_back_of_format_eq h).1
    have hdot := addr.piece_text.2
    rw [← (List.cons.inj hfront).1] at hdot
    exact absurd hdot (by decide)
  cases a with
  | none =>
    cases b with
    | none => exact .inl rfl
    | ipv4 addr port => exact absurd h (hnone addr port)
    | ipv6 x port => exact absurd h (format_ipv6_ne x port _ nofun)
  | ipv4 addr port =>
    cases b with
    | none => exact absurd h.symm (hnone addr port)
    | ipv4 addr' port' =>
      have hfront := (front_back_of_format_eq h).1
      obtain ⟨haddr, hport⟩ := List.cons.inj hfront
      rw [Ipv4Address.text_injective haddr, portPieces_inj hport]
      exact .inl rfl
    | ipv6 x port' => exact absurd h (format_ipv6_ne x port' _ nofun)
  | ipv6 x port =>
    cases b with
    | none => exact absurd h.symm (format_ipv6_ne x port _ nofun)
    | ipv4 addr port' => exact absurd h.symm (format_ipv6_ne x port _ nofun)
    | ipv6 y port' => exact ipv6_cases h

/-- Endpoints that collide have the same text and differ. -/
theorem Collides.format_eq {a b : Endpoint} (h : Collides a b) : format a = format b ∧ a ≠ b := by
  cases a with
  | none | ipv4 => exact h.elim
  | ipv6 x port =>
    cases b with
    | none | ipv4 => exact h.elim
    | ipv6 y port' =>
      obtain ⟨hport, rfl, hbefore, ps, hne, hx, hy⟩ := h
      refine ⟨?_, ?_⟩
      · rw [format, format, Ipv6Address.text, Ipv6Address.text, Layout.text, Layout.text, hx, hy,
          hbefore, ← portPieces_of_ne hport]
        dsimp only
        rw [← intercalate_portText hne]
        simp [portText]
      · intro heq
        cases heq
        exact hport rfl

/-- The text of an endpoint tells which one it is, unless one has a port and the other has one more
group behind the two colons that is written like that port, and no port. -/
theorem format_injective_iff (a b : Endpoint) :
    (format a = format b → a = b) ↔ ¬ Collides a b ∧ ¬ Collides b a := by
  refine ⟨fun h => ⟨fun hab => ?_, fun hba => ?_⟩, fun h heq => ?_⟩
  · exact hab.format_eq.2 (h hab.format_eq.1)
  · exact hba.format_eq.2 (h hba.format_eq.1.symm).symm
  · rcases format_cases heq with hsame | hab | hba
    · exact hsame
    · exact absurd hab h.1
    · exact absurd hba h.2

/-- The address `::1` with the port 80, and the address `::1:80` without a port. -/
theorem loopback_collides :
    ∃ a b : Endpoint, a = .ipv6 ⟨[0, 0, 0, 0, 0, 0, 0, 1], rfl⟩ 80 ∧
      b = .ipv6 ⟨[0, 0, 0, 0, 0, 0, 1, 0x80], rfl⟩ 0 ∧ format a = "::1:80".toList ∧
      format b = "::1:80".toList ∧ a ≠ b :=
  ⟨_, _, rfl, rfl, by decide, by decide, by decide⟩

end Endpoint

end Beast2
