import WnajOS.Kernel

/-!
# The clock in the status bar (`print_time` of `rtc.c`)

`print_time` reads the time from the CMOS, takes six hours off and writes the digits to the
status bar.  When the hour borrows from the day and the day was the first of its month, the day
becomes zero, and the tests for the further borrows ask for less than zero.
-/

namespace WnajOS

/-! ### The calendar -/

/-- A leap year of the Gregorian calendar. -/
def isLeap (year : ℕ) : Bool := year % 4 = 0 && (year % 100 ≠ 0 || year % 400 = 0)

/-- The length of a month. -/
def daysInMonth (year month : ℕ) : ℕ :=
  if month = 2 then if isLeap year then 29 else 28
  else if month = 4 ∨ month = 6 ∨ month = 9 ∨ month = 11 then 30
  else 31

/-- A date of the calendar. -/
structure Date where
  year : ℕ
  month : ℕ
  day : ℕ
  month_pos : 1 ≤ month
  month_le : month ≤ 12
  day_pos : 1 ≤ day
  day_le : day ≤ daysInMonth year month

/-- The number of a day, counted from the first day of the year 0. -/
def Date.number (d : Date) : ℕ :=
  ∑ y ∈ Finset.range d.year, ∑ i ∈ Finset.range 12, daysInMonth y (i + 1) +
    ∑ i ∈ Finset.range (d.month - 1), daysInMonth d.year (i + 1) + d.day

/-- A second of a date. -/
structure Moment extends Date where
  hour : ℕ
  minute : ℕ
  second : ℕ
  hour_lt : hour < 24
  minute_lt : minute < 60
  second_lt : second < 60

/-- The seconds up to a moment. -/
def Moment.seconds (m : Moment) : ℕ :=
  ((m.toDate.number * 24 + m.hour) * 60 + m.minute) * 60 + m.second

/-- A moment of the years 2000 to 2099. -/
structure Reading extends Moment where
  century : year / 100 = 20

/-! ### The CMOS -/

/-- The registers that `print_time` reads. -/
structure Cmos where
  sec : UInt8
  min : UInt8
  hr : UInt8
  day : UInt8
  mon : UInt8
  yr : UInt8

/-- Two decimal digits in a byte. -/
def toBcd (n : ℕ) : UInt8 := UInt8.ofNat (n / 10 * 16 + n % 10)

/-- The registers at a moment. -/
def Reading.cmos (m : Reading) : Cmos :=
  ⟨toBcd m.second, toBcd m.minute, toBcd m.hour, toBcd m.day, toBcd m.month, toBcd (m.year % 100)⟩

/-! ### `itoa` -/

/-- The table `lookup` of `itoa`. -/
def itoaLookup : Str :=
  [0x30, 0x31, 0x32, 0x33, 0x34, 0x35, 0x36, 0x37, 0x38, 0x39, 0x41, 0x42, 0x43, 0x44, 0x45, 0x46,
    0x47, 0x48, 0x49, 0x4A, 0x4B, 0x4C, 0x4D, 0x4E, 0x4F, 0x50, 0x51, 0x52, 0x53, 0x54, 0x55, 0x56,
    0x57, 0x58, 0x59, 0x5A]

/-- The loop of `itoa`, with `n` digits left. -/
def itoaFrom (radix : ℕ) : (n newval : ℕ) → Str
  | 0, _ => []
  | n + 1, newval =>
    if newval > 0 then itoaLookup.getD (newval % radix) 0 :: itoaFrom radix n (newval / radix)
    else []

/-- `itoa`, up to the `NUL`.  A 32-bit number has at most 32 digits. -/
def itoa (value radix : ℕ) : Str :=
  if value = 0 then [0x30] else (itoaFrom radix 32 value).reverse

/-! ### `print_time` -/

/-- The variables of `print_time`. -/
structure TimeVars where
  sec : ℤ
  min : ℤ
  hr : ℤ
  day : ℤ
  mon : ℤ
  yr : ℤ

/-- `(v / 16) * 10 + (v & 0x0f)`. -/
def fromBcd (v : UInt8) : ℤ := (v.toNat / 16 * 10 + (v.toNat &&& 0x0F) : ℕ)

/-- The variables after they have been decoded. -/
def Cmos.decode (c : Cmos) : TimeVars :=
  ⟨fromBcd c.sec, fromBcd c.min, fromBcd c.hr, fromBcd c.day, fromBcd c.mon, fromBcd c.yr⟩

/-- `month_day_lookup`. -/
def monthDayLookup (yr : ℤ) : List ℤ :=
  let months := [31, 28, 31, 30, 31, 30, 31, 31, 30, 31, 30, 31]
  let months := if yr % 4 = 0 then months.set 1 29 else months
  let months := if yr % 100 = 0 then months.set 1 28 else months
  if yr % 400 = 0 then months.set 1 29 else months

namespace TimeVars

/-- `randomizer`; `none` for the divide error. -/
def randomizer (v : TimeVars) : Option ℤ :=
  if v.day = 0 then none else some (((v.sec * 20 + v.min * 10 + v.hr).tdiv v.day).tmod 10)

/-- The three borrows. -/
def sixHoursBack (v : TimeVars) : TimeVars :=
  let v := if v.hr - 6 < 0 then { v with hr := v.hr + 18, day := v.day - 1 }
    else { v with hr := v.hr - 6 }
  let v := if v.day < 0 then
      { v with day := v.day + (monthDayLookup v.yr).getD (v.mon - 1).toNat 0, mon := v.mon - 1 }
    else v
  if v.mon < 0 then { v with mon := v.mon + 12, yr := v.yr - 1 } else v

/-- A number with at least two digits, for which `itoa` gets the number as an unsigned one. -/
def twoDigits (v : ℤ) : Str :=
  if v > 9 then itoa (v % 2 ^ 32).toNat 10 else 0x30 :: itoa (v % 2 ^ 32).toNat 10

/-- The stores of `print_time` to the status bar, by column. -/
def stores (v : TimeVars) : List (ℕ × UInt8) :=
  [(78, (twoDigits v.sec).byteAt 0), (79, (twoDigits v.sec).byteAt 1), (77, 0x3A),
    (75, (twoDigits v.min).byteAt 0), (76, (twoDigits v.min).byteAt 1), (74, 0x3A),
    (72, (twoDigits v.hr).byteAt 0), (73, (twoDigits v.hr).byteAt 1), (71, 0x20),
    (69, (twoDigits v.yr).byteAt 0), (70, (twoDigits v.yr).byteAt 1), (68, 0x2F),
    (66, (twoDigits v.mon).byteAt 0), (67, (twoDigits v.mon).byteAt 1), (65, 0x2F),
    (63, (twoDigits v.day).byteAt 0), (64, (twoDigits v.day).byteAt 1)]

end TimeVars

namespace Display

/-- A character in the status bar. -/
def statusStore (x : ℕ × UInt8) (d : Display) : Display :=
  let mem := d.frame physVidmem
  let page := Function.update (d.vram mem) ((24 * 80 + x.1) * 2) x.2
  { d with vram := Function.update d.vram mem page }

/-- The character at a column of the status bar. -/
def statusByte (d : Display) (col : ℕ) : UInt8 := d.vram (d.frame physVidmem) ((24 * 80 + col) * 2)

/-- `print_time`, with the registers as they are read: the new `randomizer` and the display. -/
def printTime (c : Cmos) (d : Display) : Option (ℤ × Display) :=
  c.decode.randomizer.map fun r =>
    (r, c.decode.sixHoursBack.stores.foldl (fun d x => statusStore x d) d)

/-! ### What the status bar shows -/

/-- Two digits of the status bar, from a column on. -/
def ShowsNumber (d : Display) (col n : ℕ) : Prop :=
  d.statusByte col = 0x30 + UInt8.ofNat (n / 10) ∧
    d.statusByte (col + 1) = 0x30 + UInt8.ofNat (n % 10)

/-- The status bar shows a moment. -/
structure ShowsMoment (d : Display) (m : Moment) : Prop where
  day : d.ShowsNumber 63 m.day
  month : d.ShowsNumber 66 m.month
  year : d.ShowsNumber 69 (m.year % 100)
  hour : d.ShowsNumber 72 m.hour
  minute : d.ShowsNumber 75 m.minute
  second : d.ShowsNumber 78 m.second

/-- `print_time` returns, and the status bar then shows the moment six hours before the one of
the registers. -/
def TimeShown (m : Reading) (d : Display) : Prop :=
  ∃ r d', d.printTime m.cmos = some (r, d') ∧
    ∃ t : Moment, t.seconds + 6 * 3600 = m.toMoment.seconds ∧ d'.ShowsMoment t

end Display

/-! ### Digits -/

lemma fromBcd_toBcd (n : Fin 100) : fromBcd (toBcd n) = n.val := by
  revert n
  decide

lemma twoDigits_byteAt (n : Fin 100) :
    (TimeVars.twoDigits n.val).byteAt 0 = 0x30 + UInt8.ofNat (n / 10) ∧
      (TimeVars.twoDigits n.val).byteAt 1 = 0x30 + UInt8.ofNat (n % 10) := by
  revert n
  decide +kernel

/-- Two digits determine the number. -/
lemma digits_inj {m n : ℕ} (hm : m < 100) (hn : n < 100)
    (h : (0x30 : UInt8) + UInt8.ofNat (m / 10) = 0x30 + UInt8.ofNat (n / 10))
    (h' : (0x30 : UInt8) + UInt8.ofNat (m % 10) = 0x30 + UInt8.ofNat (n % 10)) : m = n := by
  have hinj : ∀ {i j : ℕ}, i < 10 → j < 10 →
      (0x30 : UInt8) + UInt8.ofNat i = 0x30 + UInt8.ofNat j → i = j := by
    intro i j hi hj hij
    have hval := congrArg UInt8.toNat hij
    rw [UInt8.toNat_add, UInt8.toNat_add, UInt8.toNat_ofNat_of_lt' (by change i < 256; omega),
      UInt8.toNat_ofNat_of_lt' (by change j < 256; omega)] at hval
    change (48 + i) % 256 = (48 + j) % 256 at hval
    omega
  have hten := hinj (by omega) (by omega) h
  have hone := hinj (by omega) (by omega) h'
  omega

/-! ### The variables at a moment -/

lemma daysInMonth_le (year month : ℕ) : daysInMonth year month ≤ 31 := by
  rw [daysInMonth]
  split
  · split <;> omega
  split <;> omega

lemma Date.day_le_31 (d : Date) : d.day ≤ 31 := d.day_le.trans (daysInMonth_le ..)

lemma Reading.decode_cmos (m : Reading) :
    m.cmos.decode = ⟨m.second, m.minute, m.hour, m.day, m.month, (m.year % 100 : ℕ)⟩ := by
  have hbcd : ∀ {n : ℕ}, n < 100 → fromBcd (toBcd n) = n := fun {n} hn => fromBcd_toBcd ⟨n, hn⟩
  have hsecond := m.second_lt
  have hminute := m.minute_lt
  have hhour := m.hour_lt
  have hday := m.day_le_31
  have hmonth := m.month_le
  rw [Cmos.decode, Reading.cmos]
  dsimp only
  rw [hbcd (by omega), hbcd (by omega), hbcd (by omega), hbcd (by omega), hbcd (by omega),
    hbcd (by omega)]

/-- In a month the number of a day is the day and a constant. -/
lemma Date.number_add {d d' : Date} (hyear : d'.year = d.year) (hmonth : d'.month = d.month) :
    d'.number + d.day = d.number + d'.day := by
  rw [Date.number, Date.number, hyear, hmonth]
  omega

/-- The borrow from the day, which is the only one that is ever made. -/
lemma TimeVars.sixHoursBack_eq (v : TimeVars) (hday : 1 ≤ v.day) (hmon : 1 ≤ v.mon) :
    v.sixHoursBack = if v.hr < 6 then { v with hr := v.hr + 18, day := v.day - 1 }
      else { v with hr := v.hr - 6 } := by
  rw [sixHoursBack]
  by_cases hhr : v.hr < 6
  · have hborrow : v.hr - 6 < 0 := by omega
    have hno : ¬v.day - 1 < 0 := by omega
    simp only [if_pos hborrow, if_pos hhr, if_neg hno, if_neg (not_lt.2 (zero_le_one.trans hmon))]
  · have hborrow : ¬v.hr - 6 < 0 := by omega
    simp only [if_neg hborrow, if_neg hhr, if_neg (not_lt.2 (zero_le_one.trans hday)),
      if_neg (not_lt.2 (zero_le_one.trans hmon))]

/-- The variables after the borrows. -/
lemma Reading.decode_back (m : Reading) : m.cmos.decode.sixHoursBack =
    if m.hour < 6 then ⟨m.second, m.minute, m.hour + 18, m.day - 1, m.month, (m.year % 100 : ℕ)⟩
    else ⟨m.second, m.minute, m.hour - 6, m.day, m.month, (m.year % 100 : ℕ)⟩ := by
  have hday : (1 : ℤ) ≤ m.day := by exact_mod_cast m.day_pos
  have hmon : (1 : ℤ) ≤ m.month := by exact_mod_cast m.month_pos
  rw [m.decode_cmos, TimeVars.sixHoursBack_eq _ hday hmon]
  dsimp only
  by_cases hhour : m.hour < 6
  · rw [if_pos hhour, if_pos (by exact_mod_cast hhour)]
  · rw [if_neg hhour, if_neg (by exact_mod_cast hhour)]

namespace Display

/-! ### The stores -/

lemma statusByte_statusStore (x : ℕ × UInt8) (d : Display) (col : ℕ) :
    (statusStore x d).statusByte col = if col = x.1 then x.2 else d.statusByte col := by
  have hframe : (statusStore x d).frame physVidmem = d.frame physVidmem := rfl
  rw [statusByte, hframe, statusStore]
  dsimp only
  rw [Function.update_self, statusByte]
  by_cases hcol : col = x.1
  · rw [if_pos hcol, hcol, Function.update_self]
  · rw [if_neg hcol, Function.update_of_ne (by omega)]

/-- The status bar shows the variables, as far as they have two digits. -/
lemma showsNumber_stores (v : TimeVars) (d : Display) {n : ℕ} (hn : n < 100) :
    let d' := v.stores.foldl (fun d x => statusStore x d) d
    (v.day = n → d'.ShowsNumber 63 n) ∧ (v.mon = n → d'.ShowsNumber 66 n) ∧
    (v.yr = n → d'.ShowsNumber 69 n) ∧ (v.hr = n → d'.ShowsNumber 72 n) ∧
    (v.min = n → d'.ShowsNumber 75 n) ∧ (v.sec = n → d'.ShowsNumber 78 n) := by
  obtain ⟨hten, hone⟩ := twoDigits_byteAt ⟨n, hn⟩
  dsimp only at hten hone
  simp only [ShowsNumber, TimeVars.stores, List.foldl_cons, List.foldl_nil, statusByte_statusStore]
  refine ⟨?_, ?_, ?_, ?_, ?_, ?_⟩ <;>
  · intro hv
    rw [hv]
    exact ⟨hten, hone⟩

/-- `print_time` shows a moment whose fields are the variables after the borrows. -/
lemma printTime_shows (m : Reading) (d : Display) : ∃ r d', d.printTime m.cmos = some (r, d') ∧
    ∀ n : ℕ, n < 100 →
      ((m.cmos.decode.sixHoursBack).day = n → d'.ShowsNumber 63 n) ∧
      ((m.cmos.decode.sixHoursBack).mon = n → d'.ShowsNumber 66 n) ∧
      ((m.cmos.decode.sixHoursBack).yr = n → d'.ShowsNumber 69 n) ∧
      ((m.cmos.decode.sixHoursBack).hr = n → d'.ShowsNumber 72 n) ∧
      ((m.cmos.decode.sixHoursBack).min = n → d'.ShowsNumber 75 n) ∧
      ((m.cmos.decode.sixHoursBack).sec = n → d'.ShowsNumber 78 n) := by
  have hday : m.cmos.decode.day ≠ 0 := by
    have hpos := m.day_pos
    rw [m.decode_cmos]
    dsimp only
    omega
  have hrandom : m.cmos.decode.randomizer = some _ := if_neg hday
  rw [printTime, hrandom]
  exact ⟨_, _, rfl, fun n hn => showsNumber_stores _ d hn⟩

/-- A moment before a reading, from the same month and with the same minute and second. -/
lemma timeShown_of {m : Reading} {d : Display} {t : Moment} (hyear : t.year = m.year)
    (hmonth : t.month = m.month) (hminute : t.minute = m.minute) (hsecond : t.second = m.second)
    (hback : m.cmos.decode.sixHoursBack =
      ⟨m.second, m.minute, t.hour, t.day, m.month, (m.year % 100 : ℕ)⟩)
    (hnumber : t.day * 24 + t.hour + 6 = m.day * 24 + m.hour) : TimeShown m d := by
  obtain ⟨r, d', hprint, hshows⟩ := printTime_shows m d
  rw [hback] at hshows
  refine ⟨r, d', hprint, t, ?_, ?_⟩
  · have hdate : t.toDate.number + m.day = m.toDate.number + t.day := Date.number_add hyear hmonth
    rw [Moment.seconds, Moment.seconds, hminute, hsecond]
    omega
  · have hday := t.day_le_31
    have hmon := t.month_le
    have hhour := t.hour_lt
    have hmin := t.minute_lt
    have hsec := t.second_lt
    exact {
      day := (hshows t.day (by omega)).1 rfl
      month := (hshows t.month (by omega)).2.1 (by rw [hmonth])
      year := (hshows (t.year % 100) (Nat.mod_lt _ (by norm_num))).2.2.1 (by rw [hyear])
      hour := (hshows t.hour (by omega)).2.2.2.1 rfl
      minute := (hshows t.minute (by omega)).2.2.2.2.1 (by rw [hminute])
      second := (hshows t.second (by omega)).2.2.2.2.2 (by rw [hsecond]) }

/-- The day is shown as zero when the hour borrows from the first day of a month. -/
lemma not_timeShown {m : Reading} (hday : m.day = 1) (hhour : m.hour < 6) (d : Display) :
    ¬TimeShown m d := by
  rintro ⟨r, d₁, hprint, t, -, ht⟩
  obtain ⟨r', d', hprint', hshows⟩ := printTime_shows m d
  obtain rfl := (Prod.mk.inj (Option.some.inj (hprint'.symm.trans hprint))).2
  have hzero : m.cmos.decode.sixHoursBack.day = (0 : ℕ) := by
    rw [m.decode_back, if_pos hhour, hday]
    rfl
  have hshown := (hshows 0 (by omega)).1 hzero
  have hle := t.day_le_31
  have hpos := t.day_pos
  have hsame := digits_inj (by omega) (by omega) (ht.day.1.symm.trans hshown.1)
    (ht.day.2.symm.trans hshown.2)
  omega

/-- **The clock is six hours back** exactly when the reading is not from the first six hours of a
month. -/
theorem clock_six_hours_back (m : Reading) (d : Display) :
    TimeShown m d ↔ ¬(m.day = 1 ∧ m.hour < 6) := by
  constructor
  · rintro hshown ⟨hday, hhour⟩
    exact not_timeShown hday hhour d hshown
  · intro hnot
    have hlt := m.hour_lt
    by_cases hhour : m.hour < 6
    · -- the day before, in the same month
      have hday : 1 ≤ m.day - 1 := by
        have hpos := m.day_pos
        omega
      let t : Moment := { m.toMoment with
        day := m.day - 1, hour := m.hour + 18, day_pos := hday,
        day_le := (Nat.sub_le ..).trans m.day_le, hour_lt := by omega }
      refine timeShown_of (t := t) rfl rfl rfl rfl ?_ ?_
      · rw [m.decode_back, if_pos hhour]
        simp only [t]
        congr 1
        omega
      · simp only [t]
        omega
    · let t : Moment := { m.toMoment with hour := m.hour - 6, hour_lt := by omega }
      refine timeShown_of (t := t) rfl rfl rfl rfl ?_ ?_
      · rw [m.decode_back, if_neg hhour]
        simp only [t]
        congr 1
        omega
      · simp only [t]
        omega

/-- The first second of March 2024. -/
def firstOfMarch : Reading where
  year := 2024
  month := 3
  day := 1
  hour := 0
  minute := 0
  second := 0
  month_pos := by decide
  month_le := by decide
  day_pos := by decide
  day_le := by decide
  hour_lt := by decide
  minute_lt := by decide
  second_lt := by decide
  century := by decide

/-- Then the status bar shows the day 0 of March. -/
theorem clock_day_zero : ¬∀ (m : Reading) (d : Display), TimeShown m d :=
  fun h => not_timeShown rfl (by decide) _ (h firstOfMarch sampleBoot.toDisplay)

end Display

end WnajOS
