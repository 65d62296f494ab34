import CtiLog.Decimal
import CtiLog.Path
/-
# The time of a record

| here | there |
| --- | --- |
| `fmtInt`      | `%0wd` of `snprintf` |
| `Clock`       | what `clock_gettime` and `localtime_r` answer (log.cpp:680-697) |
| `logRealTime` | `LogRealTime` (log.cpp:677) |

The zone comes first, in whole hours and as a byte: the zones west of Greenwich are 244 to 255. So only
times of one zone sort as their texts do.

* `logRealTime_lt_iff` — within one zone and the years 0 to 9999, texts compare as the times they tell.
* `logRealTime_eq_iff` — a text tells one zone and one time.
-/

namespace CtiLog

open Decimal

/-! ## Texts of numbers -/

theorem str_ofList (cs : List Char) : str (String.ofList cs) = cs.flatMap String.utf8EncodeChar := by
  simp [str, List.utf8Encode]

/-- `std::to_string`. -/
theorem str_toString (n : Nat) : str (toString n) = digits n := by
  have h : ∀ cs : List Char, (∀ c ∈ cs, c.isDigit = true) →
      cs.flatMap String.utf8EncodeChar = cs.map fun c => c.val.toUInt8 := by
    intro cs
    induction cs with
    | nil => simp
    | cons c cs ih =>
      intro hcs
      have hle : c.toNat ≤ 57 := by
        have hc := hcs c List.mem_cons_self
        simp only [Char.isDigit, Bool.and_eq_true, decide_eq_true_eq] at hc
        exact hc.2
      have hsize : c.utf8Size = 1 := Char.utf8Size_eq_one_iff.2 (UInt32.le_iff_toNat_le.2 (show c.toNat ≤ 127 by omega))
      rw [List.flatMap_cons, String.utf8EncodeChar_eq_singleton hsize, List.map_cons,
        ih fun x hx => hcs x (List.mem_cons_of_mem c hx)]
      rfl
  rw [Nat.toString_eq_ofList_toDigits, str_ofList,
    h _ fun c hc => Nat.isDigit_of_mem_toDigits (by decide) (by decide) hc,
    digits]

/-- `%0wd`: the sign counts. -/
def fmtInt (w : Nat) (n : Int) : Str :=
  let sign := if n < 0 then str "-" else []
  sign ++ padded (w - sign.length) n.natAbs

theorem fmtInt_natCast (w n : Nat) : fmtInt w n = padded w n := by
  have h : ¬ (n : Int) < 0 := by omega
  simp [fmtInt, h]

/-- `%d`. -/
theorem fmtInt_zero (n : Int) : fmtInt 0 n = if n < 0 then 45 :: digits n.natAbs else digits n.natAbs := by
  have hminus : str "-" = [45] := by decide
  unfold fmtInt
  rw [hminus]
  split <;> simp [padded]

theorem fmtInt_inj {m n : Int} : fmtInt 0 m = fmtInt 0 n ↔ m = n := by
  have hclean : ∀ (k : Nat) (ds : Str), 45 :: ds = digits k → False := by
    intro k ds h
    exact not_mem_of_isDigit (isDigit_digits k) (by decide) (h ▸ List.mem_cons_self)
  constructor
  · intro h
    rw [fmtInt_zero, fmtInt_zero] at h
    split at h
    · split at h
      · have habs := digits_inj.1 (List.cons.inj h).2
        omega
      · exact (hclean _ _ h).elim
    · split at h
      · exact (hclean _ _ h.symm).elim
      · have habs := digits_inj.1 h
        omega
  · rintro rfl
    rfl

theorem mem_fmtInt {n : Int} {b : UInt8} (h : b ∈ fmtInt 0 n) : b = 45 ∨ IsDigit b := by
  rw [fmtInt_zero] at h
  split at h
  · rcases List.mem_cons.1 h with hb | hb
    · exact .inl hb
    · exact .inr (isDigit_digits _ b hb)
  · exact .inr (isDigit_digits _ b h)

/-! ## `LogRealTime` -/

/-- `struct tm`, in the ranges that `localtime_r` and `memset` keep to. -/
structure Tm where
  tm_gmtoff : Int
  tm_year : Int
  tm_mon : Nat
  tm_mday : Nat
  tm_hour : Nat
  tm_min : Nat
  tm_sec : Nat
  mon_lt : tm_mon < 12
  mday_lt : tm_mday < 32
  hour_lt : tm_hour < 24
  min_lt : tm_min < 60
  sec_lt : tm_sec < 61

/-- After `memset`. -/
def Tm.zero : Tm := ⟨0, 0, 0, 0, 0, 0, 0, by decide, by decide, by decide, by decide, by decide⟩

/-- Whether `clock_gettime` fails, what `localtime_r` makes of its answer, and `tv_nsec`. -/
structure Clock where
  fails : Bool
  localctm : Option Tm
  tv_nsec : Nat
  nsec_lt : tv_nsec < 10 ^ 9

namespace Clock

def tm (c : Clock) : Tm :=
  let t := c.localctm.getD .zero
  if t.tm_mday = 0 then { t with tm_mday := 1, mday_lt := by decide } else t

/-- `int(int64_t(tm_gmtoff / 3600.0)) & 0xff`. -/
def tz (c : Clock) : Nat := ((c.tm.tm_gmtoff.tdiv 3600) % 256).toNat

end Clock

/-- `sizeof(buf)`. -/
def kTimeBuf : Nat := 40

def logRealTime (c : Clock) : Str :=
  if c.fails then str "0000 00-00-00 00:00:00.000000000"
  else
    let tm := c.tm
    (fmtInt 2 c.tz ++ str " " ++ fmtInt 4 (tm.tm_year + 1900) ++ str "-" ++ fmtInt 2 (tm.tm_mon + 1) ++ str "-" ++
      fmtInt 2 tm.tm_mday ++ str " " ++ fmtInt 2 tm.tm_hour ++ str ":" ++ fmtInt 2 tm.tm_min ++ str ":" ++
      fmtInt 2 tm.tm_sec ++ str "." ++ fmtInt 9 c.tv_nsec).take (kTimeBuf - 1)

/-! ## What the text tells -/

namespace Clock

/-- The clock answers, and its year has four digits. -/
structure Tells (c : Clock) (year : Nat) : Prop where
  answers : c.fails = false
  date : c.tm.tm_year + 1900 = year
  lt : year < 10 ^ 4

/-- The time, from the year down. -/
def time (c : Clock) (year : Nat) : List Nat :=
  [year, c.tm.tm_mon + 1, c.tm.tm_mday, c.tm.tm_hour, c.tm.tm_min, c.tm.tm_sec, c.tv_nsec]

/-- The text behind the zone. -/
def timeText (c : Clock) (year : Nat) : Str :=
  padded 4 year ++ 45 :: (padded 2 (c.tm.tm_mon + 1) ++ 45 :: (padded 2 c.tm.tm_mday ++ 32 :: (padded 2 c.tm.tm_hour ++
    58 :: (padded 2 c.tm.tm_min ++ 58 :: (padded 2 c.tm.tm_sec ++ 46 :: padded 9 c.tv_nsec)))))

variable {c c' : Clock} {year year' : Nat}

theorem tz_lt (c : Clock) : c.tz < 256 := by
  have := Int.emod_lt_of_pos (c.tm.tm_gmtoff.tdiv 3600) (show (0 : Int) < 256 by decide)
  have := Int.emod_nonneg (c.tm.tm_gmtoff.tdiv 3600) (show (256 : Int) ≠ 0 by decide)
  unfold tz
  omega

/-- Every field fits its digits. -/
theorem fits (c : Clock) : c.tm.tm_mon + 1 < 10 ^ 2 ∧ c.tm.tm_mday < 10 ^ 2 ∧ c.tm.tm_hour < 10 ^ 2 ∧
    c.tm.tm_min < 10 ^ 2 ∧ c.tm.tm_sec < 10 ^ 2 := by
  have := c.tm.mon_lt
  have := c.tm.mday_lt
  have := c.tm.hour_lt
  have := c.tm.min_lt
  have := c.tm.sec_lt
  omega

theorem length_timeText (h : year < 10 ^ 4) : (c.timeText year).length = 29 := by
  obtain ⟨hmon, hday, hhour, hmin, hsec⟩ := c.fits
  simp only [timeText, List.length_append, List.length_cons, length_padded (by decide : 0 < 4) h,
    length_padded (by decide : 0 < 2) hmon, length_padded (by decide : 0 < 2) hday,
    length_padded (by decide : 0 < 2) hhour, length_padded (by decide : 0 < 2) hmin,
    length_padded (by decide : 0 < 2) hsec, length_padded (by decide : 0 < 9) c.nsec_lt]

/-- The buffer holds it all. -/
theorem logRealTime_eq (h : c.Tells year) : logRealTime c = padded 2 c.tz ++ 32 :: c.timeText year := by
  have hmon : (c.tm.tm_mon : Int) + 1 = ((c.tm.tm_mon + 1 : Nat) : Int) := by omega
  have htz : (padded 2 c.tz).length ≤ 3 := length_padded_le (by decide) (by decide) (c.tz_lt.trans (by decide))
  have hlen := length_timeText (c := c) h.lt
  have htext : logRealTime c = (padded 2 c.tz ++ 32 :: c.timeText year).take (kTimeBuf - 1) := by
    unfold logRealTime timeText
    rw [if_neg (by simp [h.answers])]
    dsimp only
    rw [h.date, hmon]
    simp only [fmtInt_natCast, List.append_assoc]
    rfl
  rw [htext, List.take_of_length_le]
  rw [List.length_append, List.length_cons, hlen]
  have : kTimeBuf = 40 := rfl
  omega

/-- The times that two texts tell compare as the texts behind their zones. -/
theorem timeText_lt_iff (h : year < 10 ^ 4) (h' : year' < 10 ^ 4) :
    c.timeText year < c'.timeText year' ↔ c.time year < c'.time year' := by
  obtain ⟨hmon, hday, hhour, hmin, hsec⟩ := c.fits
  obtain ⟨hmon', hday', hhour', hmin', hsec'⟩ := c'.fits
  have hnsec : padded 9 c.tv_nsec < padded 9 c'.tv_nsec ↔ c.tv_nsec < c'.tv_nsec := by
    have h : padded 9 c.tv_nsec ++ [] < padded 9 c'.tv_nsec ++ [] ↔ _ :=
      padded_append_lt_iff (by decide) c.nsec_lt c'.nsec_lt
    simpa using h
  unfold timeText time
  rw [padded_append_lt_iff (by decide) h h', List.cons_lt_cons_iff, padded_append_lt_iff (by decide) hmon hmon',
    List.cons_lt_cons_iff, padded_append_lt_iff (by decide) hday hday', List.cons_lt_cons_iff,
    padded_append_lt_iff (by decide) hhour hhour', List.cons_lt_cons_iff, padded_append_lt_iff (by decide) hmin hmin',
    List.cons_lt_cons_iff, padded_append_lt_iff (by decide) hsec hsec', List.cons_lt_cons_iff, hnsec]
  simp [List.cons_lt_cons_iff]

theorem timeText_eq_iff (h : year < 10 ^ 4) (h' : year' < 10 ^ 4) :
    c.timeText year = c'.timeText year' ↔ c.time year = c'.time year' := by
  obtain ⟨hmon, hday, hhour, hmin, hsec⟩ := c.fits
  obtain ⟨hmon', hday', hhour', hmin', hsec'⟩ := c'.fits
  unfold timeText time
  rw [padded_append_eq_iff (by decide) h h', List.cons.injEq, padded_append_eq_iff (by decide) hmon hmon',
    List.cons.injEq, padded_append_eq_iff (by decide) hday hday', List.cons.injEq,
    padded_append_eq_iff (by decide) hhour hhour', List.cons.injEq, padded_append_eq_iff (by decide) hmin hmin',
    List.cons.injEq, padded_append_eq_iff (by decide) hsec hsec', List.cons.injEq, padded_inj]
  simp

end Clock

/-- A zone and a time, then nothing. -/
theorem zone_append_inj {c c' : Clock} {as bs : Str} (h : padded 2 c.tz ++ 32 :: as = padded 2 c'.tz ++ 32 :: bs) :
    c.tz = c'.tz ∧ as = bs := by
  have hspace : ¬ IsDigit 32 := by decide
  obtain ⟨hz, hrest⟩ := append_cons_inj (not_mem_of_isDigit (isDigit_padded 2 c.tz) hspace)
    (not_mem_of_isDigit (isDigit_padded 2 c'.tz) hspace) h
  exact ⟨padded_inj.1 hz, hrest⟩

/-- **A text tells one zone and one time.** -/
theorem logRealTime_eq_iff {c c' : Clock} {year year' : Nat} (h : c.Tells year) (h' : c'.Tells year') :
    logRealTime c = logRealTime c' ↔ c.tz = c'.tz ∧ c.time year = c'.time year' := by
  rw [c.logRealTime_eq h, c'.logRealTime_eq h', ← Clock.timeText_eq_iff h.lt h'.lt]
  constructor
  · exact zone_append_inj
  · rintro ⟨hz, ht⟩
    rw [hz, ht]

/-- **Within one zone texts compare as the times they tell.** -/
theorem logRealTime_lt_iff {c c' : Clock} {year year' : Nat} (h : c.Tells year) (h' : c'.Tells year')
    (htz : c.tz = c'.tz) :
    (logRealTime c < logRealTime c' ↔ c.time year < c'.time year') ∧
      (logRealTime c = logRealTime c' ↔ c.time year = c'.time year') := by
  constructor
  · rw [c.logRealTime_eq h, c'.logRealTime_eq h', htz, append_lt_append_iff rfl, List.cons_lt_cons_iff,
      Clock.timeText_lt_iff h.lt h'.lt]
    simp
  · rw [logRealTime_eq_iff h h']
    simp [htz]

/-- The last second of 1999 and the first of 2000, at Greenwich. -/
def lastSecond : Clock :=
  ⟨false, some ⟨0, 99, 11, 31, 23, 59, 59, by decide, by decide, by decide, by decide, by decide⟩, 0, by decide⟩

def firstSecond : Clock :=
  ⟨false, some ⟨0, 100, 0, 1, 0, 0, 0, by decide, by decide, by decide, by decide, by decide⟩, 0, by decide⟩

theorem logRealTime_lt_iff_millennium :
    (logRealTime lastSecond < logRealTime firstSecond ↔ lastSecond.time 1999 < firstSecond.time 2000) ∧
      (logRealTime lastSecond = logRealTime firstSecond ↔ lastSecond.time 1999 = firstSecond.time 2000) :=
  logRealTime_lt_iff ⟨rfl, by decide, by decide⟩ ⟨rfl, by decide, by decide⟩ rfl

end CtiLog
