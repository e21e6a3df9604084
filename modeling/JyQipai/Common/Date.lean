import Mathlib

/-!
# Service days

A day of a service starts at an hour of its own, here on the clock of `basefunc.lua`,
whose first day starts at 57600.
-/

namespace JyQipai.Common

/-- The number of the day of a time, when days start at the hour `point`. -/
def serviceDay (point time : Int) : Int := (time - (57600 + point * 3600)) / 86400

def chkSameDate (lastTime curTime point : Int) : Bool :=
  if curTime < lastTime then serviceDay point lastTime = serviceDay point curTime
  else serviceDay point curTime = serviceDay point lastTime

theorem chkSameDate_iff (lastTime curTime point : Int) :
    chkSameDate lastTime curTime point = true ↔
      serviceDay point lastTime = serviceDay point curTime := by
  unfold chkSameDate
  split <;> simp [eq_comm]

theorem serviceDay_mono (point : Int) {lastTime curTime : Int} (h : lastTime ≤ curTime) :
    serviceDay point lastTime ≤ serviceDay point curTime :=
  Int.ediv_le_ediv (by decide) (by omega)

end JyQipai.Common
