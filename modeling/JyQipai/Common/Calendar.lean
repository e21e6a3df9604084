import JyQipai.Common.Date

/-!
# Days and weeks

The days of `chk_same_date` and of `day_diff` begin at the same hour, counted from different
epochs.  The weeks of `is_double_week` begin a second after Monday 0:00:00.
-/

namespace JyQipai.Common.Calendar

def chkSameDate (lastTime curTime : Int) (point : ℚ) : Bool :=
  let t1 := if curTime < lastTime then curTime else lastTime
  let t2 := if curTime < lastTime then lastTime else curTime
  ⌊(t2 - (57600 + point * 3600)) / 86400⌋ = ⌊(t1 - (57600 + point * 3600)) / 86400⌋

def dayDiff (time1 time2 : Int) (dayBegin : ℚ) : Int :=
  let t0 := ⌊946656000 + 3600 * dayBegin⌋
  ⌊((time2 - t0 : Int) : ℚ) / 86400⌋ - ⌊((time1 - t0 : Int) : ℚ) / 86400⌋

def isDoubleWeek (time : Int) : Bool := ⌈((time - 316800 : Int) : ℚ) / 604800⌉ % 2 = 0

def week (time : Int) : Int := (time - 316800) / 604800

def Monday (time : Int) : Prop := 604800 ∣ time - 316800

def Whole (point : ℚ) : Prop := ∃ seconds : Int, 3600 * point = seconds

variable {t t1 t2 : Int} {point : ℚ}

/-! ## Days -/

theorem floor_day (time : Int) (point : ℚ) : ⌊(time - (57600 + point * 3600)) / 86400⌋ =
    (time - 57600 - ⌈3600 * point⌉) / 86400 := by
  have hsub : (time : ℚ) - (57600 + point * 3600) = (time - 57600 : Int) - 3600 * point := by
    push_cast
    ring
  have hfloor : ⌊((time - 57600 : Int) : ℚ) - 3600 * point⌋ = time - 57600 - ⌈3600 * point⌉ := by
    rw [sub_eq_add_neg, Int.floor_intCast_add, Int.floor_neg, sub_eq_add_neg (time - 57600)]
  have hdiv := Int.floor_div_natCast (((time - 57600 : Int) : ℚ) - 3600 * point) 86400
  rw [hfloor] at hdiv
  rw [hsub]
  exact_mod_cast hdiv

theorem chkSameDate_iff (t1 t2 : Int) (point : ℚ) : chkSameDate t1 t2 point = true ↔
    (t1 - 57600 - ⌈3600 * point⌉) / 86400 = (t2 - 57600 - ⌈3600 * point⌉) / 86400 := by
  unfold chkSameDate
  simp only [floor_day, decide_eq_true_eq]
  split
  · rfl
  · exact eq_comm

theorem chkSameDate_intCast (t1 t2 point : Int) :
    chkSameDate t1 t2 point = Common.chkSameDate t1 t2 point := by
  have hceil : ⌈3600 * (point : ℚ)⌉ = point * 3600 := by
    rw [mul_comm]
    exact_mod_cast Int.ceil_intCast (point * 3600)
  rw [Bool.eq_iff_iff, chkSameDate_iff, Common.chkSameDate_iff, hceil, serviceDay, serviceDay,
    sub_sub, sub_sub]

theorem dayDiff_eq (t1 t2 : Int) (point : ℚ) : dayDiff t1 t2 point =
    (t2 - 57600 - ⌊3600 * point⌋) / 86400 - (t1 - 57600 - ⌊3600 * point⌋) / 86400 := by
  have hfloor : ⌊(946656000 : ℚ) + 3600 * point⌋ = 946656000 + ⌊3600 * point⌋ := by
    exact_mod_cast Int.floor_intCast_add 946656000 (3600 * point)
  have hday (time : Int) : ⌊((time : Int) : ℚ) / 86400⌋ = time / 86400 := by
    exact_mod_cast Rat.floor_intCast_div_natCast time 86400
  unfold dayDiff
  simp only [hfloor, hday]
  omega

theorem agree_iff (point : ℚ) :
    (∀ t1 t2, chkSameDate t1 t2 point = true ↔ dayDiff t1 t2 point = 0) ↔ Whole point := by
  constructor
  · intro h
    by_contra hwhole
    have hceil : ⌈3600 * point⌉ = ⌊3600 * point⌋ + 1 := by
      rw [Int.ceil_eq_floor_add_one_iff_notMem]
      rintro ⟨seconds, hseconds⟩
      exact hwhole ⟨seconds, hseconds.symm⟩
    -- the last second before the day of `chk_same_date` and the first of it
    have hsecond := h (57600 + ⌊3600 * point⌋) (57600 + ⌊3600 * point⌋ + 1)
    rw [chkSameDate_iff, dayDiff_eq, hceil] at hsecond
    omega
  · rintro ⟨seconds, hseconds⟩ t1 t2
    rw [chkSameDate_iff, dayDiff_eq, hseconds, Int.ceil_intCast, Int.floor_intCast]
    omega

theorem chkSameDate_equivalence (point : ℚ) :
    Equivalence fun t1 t2 => chkSameDate t1 t2 point = true where
  refl t := (chkSameDate_iff t t point).mpr rfl
  symm h := (chkSameDate_iff _ _ point).mpr ((chkSameDate_iff _ _ point).mp h).symm
  trans h h' := (chkSameDate_iff _ _ point).mpr
    (((chkSameDate_iff _ _ point).mp h).trans ((chkSameDate_iff _ _ point).mp h'))

/-! ## Weeks -/

theorem isDoubleWeek_iff (t : Int) :
    isDoubleWeek t = true ↔ ((week t % 2 = 0) ↔ Monday t) := by
  have hceil : ⌈((t - 316800 : Int) : ℚ) / 604800⌉ = -(-(t - 316800) / 604800) := by
    exact_mod_cast Rat.ceil_intCast_div_natCast (t - 316800) 604800
  rw [isDoubleWeek, hceil, decide_eq_true_eq, week, Monday, Int.dvd_iff_emod_eq_zero]
  omega

theorem isDoubleWeek_eq_iff (hweek : week t1 = week t2) :
    isDoubleWeek t1 = isDoubleWeek t2 ↔ (Monday t1 ↔ Monday t2) := by
  rw [Bool.eq_iff_iff, isDoubleWeek_iff, isDoubleWeek_iff, hweek]
  tauto

theorem isDoubleWeek_ne_iff (hweek : week t2 = week t1 + 1) :
    isDoubleWeek t1 ≠ isDoubleWeek t2 ↔ (Monday t1 ↔ Monday t2) := by
  have hnext : (week t2 % 2 = 0) ↔ ¬week t1 % 2 = 0 := by omega
  rw [Ne, Bool.eq_iff_iff, isDoubleWeek_iff, isDoubleWeek_iff, hnext]
  tauto

/-- Days agree where they begin at a whole second, and the weeks are right but for the second
in which one of them begins. -/
theorem calendar_iff (point : ℚ) (t1 t2 : Int) :
    ((∀ u1 u2, chkSameDate u1 u2 point = true ↔ dayDiff u1 u2 point = 0) ↔ Whole point) ∧
      (Equivalence fun u1 u2 => chkSameDate u1 u2 point = true) ∧
      (week t1 = week t2 →
        (isDoubleWeek t1 = isDoubleWeek t2 ↔ (Monday t1 ↔ Monday t2))) ∧
      (week t2 = week t1 + 1 →
        (isDoubleWeek t1 ≠ isDoubleWeek t2 ↔ (Monday t1 ↔ Monday t2))) :=
  ⟨agree_iff point, chkSameDate_equivalence point, isDoubleWeek_eq_iff, isDoubleWeek_ne_iff⟩

/-- Two times of a Tuesday and of the next one. -/
theorem calendar_iff_tuesday :
    ((∀ u1 u2, chkSameDate u1 u2 6 = true ↔ dayDiff u1 u2 6 = 0) ↔ Whole 6) ∧
      (isDoubleWeek 403200 = isDoubleWeek 403300 ↔ (Monday 403200 ↔ Monday 403300)) ∧
      (isDoubleWeek 403200 ≠ isDoubleWeek 1008000 ↔ (Monday 403200 ↔ Monday 1008000)) :=
  ⟨(calendar_iff 6 403200 403300).1, (calendar_iff 6 403200 403300).2.2.1 rfl,
    (calendar_iff 6 403200 1008000).2.2.2 rfl⟩

/-- The first second of a week is taken for the week before. -/
theorem double_week_at_monday :
    ¬∀ t1 t2, week t1 = week t2 → isDoubleWeek t1 = isDoubleWeek t2 := by
  intro h
  have hweek : week 316800 = week 316801 := rfl
  have hsame := (isDoubleWeek_eq_iff hweek).mp (h 316800 316801 hweek)
  exact absurd (hsame.mp ⟨0, rfl⟩) (by unfold Monday; decide)

end JyQipai.Common.Calendar
