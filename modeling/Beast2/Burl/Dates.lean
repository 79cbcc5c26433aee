import Beast2.Lib.Calendar
import Beast2.Burl.SetCookies

/-!
# The dates of cookies

`parse_date` reads the date of an Expires attribute with `std::get_time` and makes an instant of it
with `std::mktime` (`cookie.cpp:108-122`). The date is one in GMT, and `std::mktime` takes it as one
in the time zone of the process, which is a parameter (`Zone`). The instant is counted in ticks of
the clock, nanoseconds in 64 bits, which end in the year 2262.

`std::get_time` is read from its format: a name for `%a` and `%b`, digits for the others, any white
space for a blank, and each other character for itself. It stops at the first of them that does not
match, and what it read before stays in `tm`. So the date is read back from its text, for every date
(`getTime_text`), and the instant is the one that is meant exactly if the zone has no offset there
and the ticks do not overflow (`parseDate_text_iff`).
-/

namespace Beast2.Burl

open Grammar Calendar

/-! ## Reading a date -/

/-- The members of `std::tm` that are filled in; `tm_isdst` stays 0. -/
structure Tm where
  sec : Int := 0
  min : Int := 0
  hour : Int := 0
  mday : Int := 0
  mon : Nat := 0
  year : Int := 0
  wday : Nat := 0
deriving DecidableEq, Repr

/-- The names of the days, each as its abbreviation and the rest of it. -/
def weekdayNames : List (List Char × List Char) :=
  [("Sun", "day"), ("Mon", "day"), ("Tue", "sday"), ("Wed", "nesday"), ("Thu", "rsday"),
    ("Fri", "day"), ("Sat", "urday")].map fun n => (n.1.toList, n.2.toList)

/-- The names of the months. -/
def monthNames : List (List Char × List Char) :=
  [("Jan", "uary"), ("Feb", "ruary"), ("Mar", "ch"), ("Apr", "il"), ("May", ""), ("Jun", "e"),
    ("Jul", "y"), ("Aug", "ust"), ("Sep", "tember"), ("Oct", "ober"), ("Nov", "ember"),
    ("Dec", "ember")].map fun n => (n.1.toList, n.2.toList)

/-- A range starts with a text, up to the case of ASCII letters. -/
def ciStartsWith : List Char → List Char → Bool
  | [], _ => true
  | _ :: _, [] => false
  | a :: s, b :: it => a.toLower == b.toLower && ciStartsWith s it

/-- The index of a name, written out or abbreviated. A name that goes on behind its abbreviation has
to be written out. -/
def extractName (names : List (List Char × List Char)) (it : List Char) :
    Option (Nat × List Char) := do
  let i ← names.findIdx? fun n => ciStartsWith n.1 it
  let (abbreviation, rest) ← names[i]?
  let it := it.drop abbreviation.length
  if ciStartsWith (rest.take 1) it then
    if ciStartsWith rest it then some (i, it.drop rest.length) else none
  else some (i, it)

/-- A number of at most `len` digits between two bounds. -/
def extractNum (low high len : Nat) (it : List Char) : Option (Nat × List Char) :=
  let digits := (it.take len).takeWhile Char.isDigit
  let n := Nat.ofDigitChars 10 digits 0
  if digits = [] then none
  else if low ≤ n ∧ n ≤ high then some (n, it.drop digits.length) else none

/-- What a conversion of the format reads; these are those that `parse_date` uses. -/
def extract (conversion : Char) (tm : Tm) (it : List Char) : Option (Tm × List Char) :=
  match conversion with
  | 'a' => (extractName weekdayNames it).map fun r => ({ tm with wday := r.1 }, r.2)
  | 'b' => (extractName monthNames it).map fun r => ({ tm with mon := r.1 }, r.2)
  | 'd' => (extractNum 1 31 2 it).map fun r => ({ tm with mday := r.1 }, r.2)
  | 'Y' => (extractNum 0 9999 4 it).map fun r => ({ tm with year := r.1 - 1900 }, r.2)
  | 'H' => (extractNum 0 23 2 it).map fun r => ({ tm with hour := r.1 }, r.2)
  | 'M' => (extractNum 0 59 2 it).map fun r => ({ tm with min := r.1 }, r.2)
  | 'S' => (extractNum 0 60 2 it).map fun r => ({ tm with sec := r.1 }, r.2)
  | _ => none

/-- The format against the range, up to the first part that does not match. -/
def getTimeLoop : List Char → Tm → List Char → Tm
  | '%' :: conversion :: fmt, tm, it =>
    match extract conversion tm it with
    | some (tm, it) => getTimeLoop fmt tm it
    | none => tm
  | c :: fmt, tm, it =>
    if isspace c then getTimeLoop fmt tm (it.dropWhile isspace)
    else
      match it with
      | d :: it => if c.toLower == d.toLower then getTimeLoop fmt tm it else tm
      | [] => tm
  | [], tm, _ => tm

/-- `ss >> std::get_time(&tm, fmt)`, which skips white space in front. -/
def getTime (fmt : List Char) (tm : Tm) (it : List Char) : Tm :=
  getTimeLoop fmt tm (it.dropWhile isspace)

/-! ## Making an instant of it -/

/-- A time zone: how many seconds local time is ahead of UTC, at a local time given in seconds as if
it were UTC, in standard time as `tm_isdst` says. -/
abbrev Zone := Int → Int

/-- The day of the year on which a month starts, from 0. -/
def monthStart (leap : Bool) (mon : Nat) : Nat :=
  [0, 31, 59, 90, 120, 151, 181, 212, 243, 273, 304, 334].getD mon 0 +
    if leap && 2 ≤ mon then 1 else 0

/-- The members of `tm` in seconds since the epoch, as POSIX defines it for UTC. -/
def tmSeconds (tm : Tm) : Int :=
  let yday := monthStart (isLeap (tm.year + 1900).toNat) tm.mon + tm.mday - 1
  tm.sec + tm.min * 60 + tm.hour * 3600 + yday * 86400 + (tm.year - 70) * 31536000 +
    ((tm.year - 69) / 4) * 86400 - ((tm.year - 1) / 100) * 86400 + ((tm.year + 299) / 400) * 86400

/-- `std::mktime`: the members are a local time. -/
def mktime (zone : Zone) (tm : Tm) : Int := tmSeconds tm - zone (tmSeconds tm)

/-- `system_clock::from_time_t`. -/
def fromTimeT (t : Int) : Option Int := int64 (t * second)

/-- `parse_date`; `none` is an overflow. Reference: `cookie.cpp:108`. -/
def parseDate (zone : Zone) (sv : List Char) : Option Int :=
  let fmt := if '-' ∈ sv then "%a, %d-%b-%Y %H:%M:%S GMT" else "%a, %d %b %Y %H:%M:%S GMT"
  fromTimeT (mktime zone (getTime fmt.toList {} sv))

/-! ## The text of a date -/

/-- A number below 100 in two digits. -/
def twoDigits (n : Nat) : List Char := [Nat.digitChar (n / 10), Nat.digitChar (n % 10)]

/-- A number below 10000 in four digits. -/
def fourDigits (n : Nat) : List Char := twoDigits (n / 100) ++ twoDigits (n % 100)

/-- The abbreviated name of a day. -/
def weekdayName (i : Fin 7) : List Char := (weekdayNames.getD i ([], [])).1

/-- The abbreviated name of a month. -/
def monthName (i : Fin 12) : List Char := (monthNames.getD i ([], [])).1

/-- The two ways to write a date: with blanks around the month or with hyphens. -/
inductive DateStyle where
  | blanks
  | hyphens
deriving DecidableEq, Repr

/-- The character around the month. -/
def DateStyle.char : DateStyle → Char
  | .blanks => ' '
  | .hyphens => '-'

/-- The text of a date, with the abbreviated name of a day in front: `Www, DD Mon YYYY HH:MM:SS GMT`
or `Www, DD-Mon-YYYY HH:MM:SS GMT`. -/
def dateText (style : DateStyle) (wday : Fin 7) (d : DateTime) : List Char :=
  weekdayName wday ++ ',' :: ' ' :: (twoDigits d.day ++ style.char ::
    (monthName d.month ++ style.char :: (fourDigits d.year ++ ' ' ::
      (twoDigits d.hour ++ ':' :: (twoDigits d.minute ++ ':' :: (twoDigits d.second ++
        " GMT".toList))))))

/-! ## The date is read back -/

section

variable {n : Nat} {rest : List Char}

theorem digitChar_isDigit {a : Nat} (h : a < 10) : (Nat.digitChar a).isDigit = true := by
  rw [Nat.isDigit_digitChar]
  exact decide_eq_true h

/-- Digits that fill the width are read as their number. -/
theorem extractNum_append {low high : Nat} {ds : List Char} (hne : ds ≠ [])
    (hds : ∀ c ∈ ds, c.isDigit = true) (hn : Nat.ofDigitChars 10 ds 0 = n)
    (hlow : low ≤ n) (hhigh : n ≤ high) :
    extractNum low high ds.length (ds ++ rest) = some (n, rest) := by
  have htake : (ds ++ rest).take ds.length = ds := List.take_left
  have hwhile : ds.takeWhile Char.isDigit = ds := List.takeWhile_eq_self_iff.2 hds
  simp only [extractNum, htake, hwhile, hn]
  rw [if_neg hne, if_pos ⟨hlow, hhigh⟩, List.drop_left]

theorem twoDigits_isDigit (hn : n < 100) : ∀ c ∈ twoDigits n, c.isDigit = true := by
  intro c hc
  rcases List.mem_cons.1 hc with rfl | hc
  · exact digitChar_isDigit (by omega)
  · rw [List.mem_singleton.1 hc]
    exact digitChar_isDigit (by omega)

theorem fourDigits_isDigit (hn : n < 10000) : ∀ c ∈ fourDigits n, c.isDigit = true := by
  intro c hc
  rcases List.mem_append.1 hc with hc | hc
  · exact twoDigits_isDigit (by omega) c hc
  · exact twoDigits_isDigit (by omega) c hc

theorem ofDigitChars_twoDigits (hn : n < 100) (init : Nat) :
    Nat.ofDigitChars 10 (twoDigits n) init = 100 * init + n := by
  rw [twoDigits, Nat.ofDigitChars_cons_digitChar_of_lt_ten (by omega),
    Nat.ofDigitChars_cons_digitChar_of_lt_ten (by omega), Nat.ofDigitChars_nil]
  omega

theorem extractNum_twoDigits {low high : Nat} (hlow : low ≤ n) (hhigh : n ≤ high)
    (hn : high < 100) : extractNum low high 2 (twoDigits n ++ rest) = some (n, rest) := by
  have hvalue := ofDigitChars_twoDigits (n := n) (by omega) 0
  exact extractNum_append (List.cons_ne_nil _ _) (twoDigits_isDigit (by omega))
    (hvalue.trans (by omega)) hlow hhigh

theorem extractNum_fourDigits (hn : n ≤ 9999) :
    extractNum 0 9999 4 (fourDigits n ++ rest) = some (n, rest) := by
  have hne : fourDigits n ≠ [] := List.cons_ne_nil _ _
  have hvalue : Nat.ofDigitChars 10 (fourDigits n) 0 = n := by
    rw [fourDigits, Nat.ofDigitChars_append, ofDigitChars_twoDigits (by omega),
      ofDigitChars_twoDigits (by omega)]
    omega
  exact extractNum_append hne (fourDigits_isDigit (by omega)) hvalue (Nat.zero_le n) hn

/-- The abbreviated name of a day in front of a comma. -/
theorem extractName_weekday (i : Fin 7) :
    extractName weekdayNames (weekdayName i ++ ',' :: rest) = some (i.val, ',' :: rest) := by
  obtain ⟨i, hi⟩ := i
  interval_cases i <;> rfl

/-- The abbreviated name of a month in front of a blank or a hyphen. -/
theorem extractName_month (i : Fin 12) (style : DateStyle) :
    extractName monthNames (monthName i ++ style.char :: rest) =
      some (i.val, style.char :: rest) := by
  obtain ⟨i, hi⟩ := i
  cases style with
  | blanks => interval_cases i <;> rfl
  | hyphens => interval_cases i <;> rfl

/-- White space is skipped up to a digit. -/
theorem dropWhile_twoDigits (hn : n < 100) :
    (twoDigits n ++ rest).dropWhile isspace = twoDigits n ++ rest := by
  have hspace : isspace (Nat.digitChar (n / 10)) = false :=
    isspace_of_isDigit (digitChar_isDigit (by omega))
  rw [twoDigits, List.cons_append, List.dropWhile_cons, hspace, if_neg Bool.false_ne_true]

theorem dropWhile_fourDigits (hn : n < 10000) :
    (fourDigits n ++ rest).dropWhile isspace = fourDigits n ++ rest := by
  rw [fourDigits, List.append_assoc]
  exact dropWhile_twoDigits (by omega)

theorem dropWhile_weekday (i : Fin 7) :
    (weekdayName i ++ rest).dropWhile isspace = weekdayName i ++ rest := by
  obtain ⟨i, hi⟩ := i
  interval_cases i <;> rfl

theorem dropWhile_month (i : Fin 12) :
    (monthName i ++ rest).dropWhile isspace = monthName i ++ rest := by
  obtain ⟨i, hi⟩ := i
  interval_cases i <;> rfl

end

section

variable {fmt it it' : List Char} {tm tm' : Tm} {c : Char}

/-- A conversion that matches. -/
theorem getTimeLoop_conversion (h : extract c tm it = some (tm', it')) :
    getTimeLoop ('%' :: c :: fmt) tm it = getTimeLoop fmt tm' it' := by
  rw [getTimeLoop, h]

/-- A character that matches itself. -/
theorem getTimeLoop_char (hc : c ≠ '%') (hspace : isspace c = false) :
    getTimeLoop (c :: fmt) tm (c :: it) = getTimeLoop fmt tm it := by
  rw [getTimeLoop]
  · simp [hspace]
  · intro _ _ heq
    exact absurd heq hc

/-- A blank in front of something else. -/
theorem getTimeLoop_blank (hit : it.dropWhile isspace = it) :
    getTimeLoop (' ' :: fmt) tm (' ' :: it) = getTimeLoop fmt tm it := by
  have hspace : isspace ' ' = true := rfl
  rw [getTimeLoop, if_pos hspace, List.dropWhile_cons, if_pos hspace, hit]
  intro _ _ heq
  cases heq

/-- The character around the month. -/
theorem getTimeLoop_style (style : DateStyle) (hit : it.dropWhile isspace = it) :
    getTimeLoop (style.char :: fmt) tm (style.char :: it) = getTimeLoop fmt tm it := by
  cases style with
  | blanks => exact getTimeLoop_blank hit
  | hyphens => exact getTimeLoop_char (by decide) rfl

end

/-! ## One conversion after the other -/

section

variable {n : Nat} {tm : Tm} {rest : List Char}

theorem extract_weekday (i : Fin 7) :
    extract 'a' tm (weekdayName i ++ ',' :: rest) =
      some ({ tm with wday := i }, ',' :: rest) := by
  rw [extract, extractName_weekday, Option.map_some]

theorem extract_month (i : Fin 12) (style : DateStyle) :
    extract 'b' tm (monthName i ++ style.char :: rest) =
      some ({ tm with mon := i }, style.char :: rest) := by
  rw [extract, extractName_month, Option.map_some]

theorem extract_day (hpos : 1 ≤ n) (hn : n ≤ 31) :
    extract 'd' tm (twoDigits n ++ rest) = some ({ tm with mday := n }, rest) := by
  rw [extract, extractNum_twoDigits hpos hn (by decide), Option.map_some]

theorem extract_year (hn : n ≤ 9999) :
    extract 'Y' tm (fourDigits n ++ rest) = some ({ tm with year := n - 1900 }, rest) := by
  rw [extract, extractNum_fourDigits hn, Option.map_some]

theorem extract_hour (hn : n < 24) :
    extract 'H' tm (twoDigits n ++ rest) = some ({ tm with hour := n }, rest) := by
  rw [extract, extractNum_twoDigits (Nat.zero_le n) (Nat.le_of_lt_succ hn) (by decide),
    Option.map_some]

theorem extract_minute (hn : n < 60) :
    extract 'M' tm (twoDigits n ++ rest) = some ({ tm with min := n }, rest) := by
  rw [extract, extractNum_twoDigits (Nat.zero_le n) (Nat.le_of_lt_succ hn) (by decide),
    Option.map_some]

theorem extract_second (hn : n < 60) :
    extract 'S' tm (twoDigits n ++ rest) = some ({ tm with sec := n }, rest) := by
  rw [extract, extractNum_twoDigits (Nat.zero_le n) (Nat.le_of_lt hn) (by decide),
    Option.map_some]

/-- The time of day and what follows it. -/
theorem getTimeLoop_timeOfDay {hour minute second : Nat} (hhour : hour < 24) (hminute : minute < 60)
    (hsecond : second < 60) :
    getTimeLoop ('%' :: 'H' :: ':' :: '%' :: 'M' :: ':' :: '%' :: 'S' :: " GMT".toList) tm
        (twoDigits hour ++ ':' :: (twoDigits minute ++ ':' :: (twoDigits second ++
          " GMT".toList))) =
      { tm with hour, min := minute, sec := second } := by
  rw [getTimeLoop_conversion (extract_hour hhour), getTimeLoop_char (by decide) rfl,
    getTimeLoop_conversion (extract_minute hminute), getTimeLoop_char (by decide) rfl,
    getTimeLoop_conversion (extract_second hsecond)]
  rfl

end

/-- The format of a style. -/
def DateStyle.format (style : DateStyle) : List Char :=
  '%' :: 'a' :: ',' :: ' ' :: '%' :: 'd' :: style.char :: '%' :: 'b' :: style.char :: '%' :: 'Y' ::
    ' ' :: '%' :: 'H' :: ':' :: '%' :: 'M' :: ':' :: '%' :: 'S' :: " GMT".toList

/-- The members of `tm` for a date. -/
def dateTm (wday : Fin 7) (d : DateTime) : Tm where
  sec := d.second
  min := d.minute
  hour := d.hour
  mday := d.day
  mon := d.month
  year := d.year - 1900
  wday := wday

/-- The text of a date is read as the date, in both styles. -/
theorem getTime_text (style : DateStyle) (wday : Fin 7) (d : DateTime) (hyear : d.year ≤ 9999) :
    getTime style.format {} (dateText style wday d) = dateTm wday d := by
  have hday : d.day ≤ 31 := le_trans d.day_le (monthLength_le d.year d.month)
  have hhour := d.hour_lt
  rw [getTime, dateText, dropWhile_weekday, DateStyle.format]
  rw [getTimeLoop_conversion (extract_weekday wday), getTimeLoop_char (by decide) rfl,
    getTimeLoop_blank (dropWhile_twoDigits (by omega)),
    getTimeLoop_conversion (extract_day d.day_pos hday),
    getTimeLoop_style style (dropWhile_month d.month),
    getTimeLoop_conversion (extract_month d.month style),
    getTimeLoop_style style (dropWhile_fourDigits (by omega)),
    getTimeLoop_conversion (extract_year hyear),
    getTimeLoop_blank (dropWhile_twoDigits (by omega)),
    getTimeLoop_timeOfDay hhour d.minute_lt d.second_lt]
  rfl

/-- The members of `tm` for a date are as many seconds as are counted day by day. -/
theorem tmSeconds_dateTm (wday : Fin 7) (d : DateTime) :
    tmSeconds (dateTm wday d) = d.unixSeconds := by
  have hyear : ((d.year : Int) - 1900 + 1900).toNat = d.year := by omega
  have hmonth : daysBeforeMonth d.year d.month = monthStart (isLeap d.year) d.month :=
    daysBeforeMonth_eq d.year d.month
  have hdays := daysBeforeYear_eq d.year
  have hepoch := daysBeforeYear_eq 1970
  have hday := d.day_pos
  simp only [tmSeconds, dateTm, hyear, DateTime.unixSeconds, DateTime.dayNumber, hmonth]
  omega

/-! ## The instant of a date -/

theorem hyphen_notMem_of_isDigit {ds : List Char} (h : ∀ c ∈ ds, c.isDigit = true) : '-' ∉ ds :=
  fun hmem => absurd (h '-' hmem) (by decide)

theorem hyphen_notMem_weekday (i : Fin 7) : '-' ∉ weekdayName i := by
  decide +revert

theorem hyphen_notMem_month (i : Fin 12) : '-' ∉ monthName i := by
  decide +revert

/-- A date has a hyphen exactly in the style with hyphens. -/
theorem hyphen_mem_dateText_iff {style : DateStyle} (wday : Fin 7) (d : DateTime)
    (hyear : d.year ≤ 9999) : '-' ∈ dateText style wday d ↔ style = .hyphens := by
  have hday : d.day ≤ 31 := le_trans d.day_le (monthLength_le d.year d.month)
  have htwo : ∀ n, n < 100 → '-' ∉ twoDigits n := fun n hn =>
    hyphen_notMem_of_isDigit (twoDigits_isDigit hn)
  have hfour : '-' ∉ fourDigits d.year :=
    hyphen_notMem_of_isDigit (fourDigits_isDigit (by omega))
  have hminute := d.minute_lt
  have hsecond := d.second_lt
  have hhour := d.hour_lt
  cases style with
  | hyphens => simp [dateText, DateStyle.char]
  | blanks =>
    simp [dateText, DateStyle.char, hyphen_notMem_weekday, hyphen_notMem_month, hfour,
      htwo d.day (by omega), htwo d.hour (by omega), htwo d.minute (by omega),
      htwo d.second (by omega)]

/-- The instant that `parse_date` makes of the text of a date. -/
theorem parseDate_text (zone : Zone) (style : DateStyle) (wday : Fin 7) (d : DateTime)
    (hyear : d.year ≤ 9999) :
    parseDate zone (dateText style wday d) =
      int64 ((d.unixSeconds - zone d.unixSeconds) * second) := by
  have hformat : (if '-' ∈ dateText style wday d then "%a, %d-%b-%Y %H:%M:%S GMT"
      else "%a, %d %b %Y %H:%M:%S GMT").toList = style.format := by
    cases style with
    | blanks =>
      rw [if_neg fun hmem => DateStyle.noConfusion ((hyphen_mem_dateText_iff wday d hyear).1 hmem)]
      rfl
    | hyphens =>
      rw [if_pos ((hyphen_mem_dateText_iff wday d hyear).2 rfl)]
      rfl
  simp only [parseDate, hformat, getTime_text style wday d hyear, mktime, tmSeconds_dateTm,
    fromTimeT]

theorem int64_eq_some_iff {x y : Int} :
    int64 x = some y ↔ x = y ∧ -0x8000000000000000 ≤ y ∧ y < 0x8000000000000000 := by
  unfold int64
  split
  · next h =>
    constructor
    · intro hx
      obtain rfl := Option.some.inj hx
      exact ⟨rfl, h⟩
    · exact fun hx => congrArg some hx.1
  · next h =>
    constructor
    · intro hx
      cases hx
    · rintro ⟨rfl, hrange⟩
      exact absurd hrange h

/-- The date of a cookie is the instant that is meant, in UTC, exactly if local time is not ahead of
or behind UTC and the instant is one that the clock can represent. -/
theorem parseDate_text_iff (zone : Zone) (style : DateStyle) (wday : Fin 7) (d : DateTime)
    (hyear : d.year ≤ 9999) :
    parseDate zone (dateText style wday d) = some (d.unixSeconds * second) ↔
      zone d.unixSeconds = 0 ∧ -0x8000000000000000 ≤ d.unixSeconds * second ∧
        d.unixSeconds * second < 0x8000000000000000 := by
  have hzone : (d.unixSeconds - zone d.unixSeconds) * second = d.unixSeconds * second ↔
      zone d.unixSeconds = 0 := by
    unfold second
    omega
  rw [parseDate_text zone style wday d hyear, int64_eq_some_iff, hzone]

/-- Noon of the first day of 2030. -/
def newYear : DateTime where
  year := 2030
  month := 0
  day := 1
  hour := 12
  minute := 0
  second := 0
  day_pos := Nat.le_refl 1
  day_le := by decide
  hour_lt := by decide
  minute_lt := by decide
  second_lt := by decide

theorem unixSeconds_newYear : newYear.unixSeconds = 1893499200 :=
  (tmSeconds_dateTm 2 newYear).symm.trans rfl

theorem newYear_atGreenwich :
    parseDate (fun _ => 0) (dateText .blanks 2 newYear) = some (newYear.unixSeconds * second) := by
  refine (parseDate_text_iff (fun _ => 0) .blanks 2 newYear (by decide)).2 ⟨rfl, ?_⟩
  rw [unixSeconds_newYear]
  decide

/-- An hour to the east the date is taken for an instant that is an hour earlier. -/
theorem newYear_oneHourEast :
    parseDate (fun _ => 3600) (dateText .hyphens 2 newYear) ≠
      some (newYear.unixSeconds * second) := by
  rw [parseDate_text _ _ _ _ (by decide), unixSeconds_newYear]
  decide

end Beast2.Burl
