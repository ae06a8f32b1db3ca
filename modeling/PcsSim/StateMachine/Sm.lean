import Mathlib.Data.Rat.Defs
import PcsSim.Lib.CString

/-!
# The state machine record

`struct statemachine_t` and the functions of `sm.c`.  A `double` is taken as
an exact rational.
-/

/-- `struct state_t` and `struct err_t`. -/
structure CodeText where
  code : ℤ
  szstr : Bytes

structure StateMachine where
  states : List CodeText
  errs : List CodeText
  state : ℤ
  szstate : Bytes
  step : ℤ
  count : ℤ
  szerrcode : Bytes
  tick : UInt8
  tickTimer : ℤ
  tickPrd : ℤ
  timingTimer : ℤ
  timingPrd : ℤ
  timingTslastrun : ℚ
  timingTotalcnt : ℚ
  timingTotaltime : ℚ
  timingAve : ℚ
  timingMax : ℚ
  timingCur : ℚ

namespace StateMachine

def resetTiming (sm : StateMachine) (timingPrd tickPrd : ℤ) : StateMachine :=
  { sm with
    timingTimer := -1
    timingPrd := timingPrd
    timingAve := -1
    timingMax := -1
    timingCur := -1
    tickTimer := 0
    tick := 0
    tickPrd := tickPrd }

def closeWindow (sm : StateMachine) (ts : ℚ) : StateMachine :=
  let tseclipsed := ts - sm.timingTslastrun
  let totalcnt := sm.timingTotalcnt + sm.timingPrd
  let totaltime := sm.timingTotaltime + tseclipsed
  let cur := tseclipsed / sm.timingPrd
  { sm with
    timingTimer := if totalcnt > 8640000 then -1 else 0
    timingTotalcnt := totalcnt
    timingTotaltime := totaltime
    timingTslastrun := ts
    timingAve := totaltime / totalcnt
    timingCur := cur
    timingMax := if cur > sm.timingMax then cur else sm.timingMax }

/-- `now` is what `sm_get_timeofday` returns in this call, in milliseconds. -/
def calTiming (sm : StateMachine) (now : ℚ) : StateMachine :=
  let sm :=
    if sm.timingTimer < 0 then
      { sm with
        timingTimer := 0
        timingTslastrun := now
        timingTotalcnt := 0
        timingTotaltime := 0
        timingAve := -1
        timingMax := -1
        timingCur := -1 }
    else
      let sm := { sm with timingTimer := sm.timingTimer + 1 }
      if sm.timingTimer ≥ sm.timingPrd then sm.closeWindow now else sm
  if sm.tickTimer ≥ sm.tickPrd then
    { sm with tickTimer := 0, tick := sm.tick + 1 }
  else
    { sm with tickTimer := sm.tickTimer + 1 }

/-- The loop over a table copies the text of every entry with the code, so the
last one stays. -/
def textOf (table : List CodeText) (code : ℤ) : Bytes :=
  match (table.filter fun entry ↦ code = entry.code).getLast? with
  | some entry => entry.szstr
  | none => ascii "unknown"

def setState (sm : StateMachine) (state err : ℤ) : StateMachine :=
  { sm with
    state := state
    step := 0
    count := 0
    szstate := textOf sm.states state
    szerrcode := textOf sm.errs err }

def setStep (sm : StateMachine) (step : ℤ) : StateMachine := { sm with step := step }

def setCount (sm : StateMachine) (val : ℤ) : StateMachine := { sm with count := val }

def incCount (sm : StateMachine) : StateMachine := { sm with count := sm.count + 1 }

/-- What the windows leave alone. -/
theorem calTiming_apart (sm : StateMachine) (now : ℚ) :
    (sm.calTiming now).state = sm.state ∧ (sm.calTiming now).step = sm.step ∧
      (sm.calTiming now).timingPrd = sm.timingPrd ∧ (sm.calTiming now).tickPrd = sm.tickPrd ∧
        (sm.calTiming now).tickTimer =
          (if sm.tickTimer ≥ sm.tickPrd then 0 else sm.tickTimer + 1) ∧
          (sm.calTiming now).tick = if sm.tickTimer ≥ sm.tickPrd then sm.tick + 1 else sm.tick := by
  simp only [calTiming, closeWindow]
  split_ifs <;> exact ⟨rfl, rfl, rfl, rfl, rfl, rfl⟩

@[simp] theorem state_calTiming (sm : StateMachine) (now : ℚ) :
    (sm.calTiming now).state = sm.state := (calTiming_apart sm now).1

@[simp] theorem step_calTiming (sm : StateMachine) (now : ℚ) :
    (sm.calTiming now).step = sm.step := (calTiming_apart sm now).2.1

@[simp] theorem state_setState (sm : StateMachine) (state err : ℤ) :
    (sm.setState state err).state = state := rfl

@[simp] theorem step_setState (sm : StateMachine) (state err : ℤ) :
    (sm.setState state err).step = 0 := rfl

@[simp] theorem state_setStep (sm : StateMachine) (step : ℤ) :
    (sm.setStep step).state = sm.state := rfl

@[simp] theorem step_setStep (sm : StateMachine) (step : ℤ) :
    (sm.setStep step).step = step := rfl

@[simp] theorem state_setCount (sm : StateMachine) (val : ℤ) :
    (sm.setCount val).state = sm.state := rfl

@[simp] theorem step_setCount (sm : StateMachine) (val : ℤ) :
    (sm.setCount val).step = sm.step := rfl

@[simp] theorem state_incCount (sm : StateMachine) : sm.incCount.state = sm.state := rfl

@[simp] theorem step_incCount (sm : StateMachine) : sm.incCount.step = sm.step := rfl

end StateMachine
