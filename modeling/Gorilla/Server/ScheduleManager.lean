import Gorilla.Basic

/-!
# The memory ledger

`m_avaliableMem` is an unsigned counter that wraps.
-/

namespace Gorilla

structure ScheduleManager where
  m_avaliableMem : UInt64 := 0
  deriving DecidableEq, Repr

namespace ScheduleManager

/-- The constructor. `gigabytes` is `ceil(std::stod(subStr) * 1024 * 1024 * 1024)`. -/
def ofMemLimit (gigabytes : String → Except Stop UInt64) (memLimit : String) :
    Except Stop ScheduleManager :=
  match memLimit.toList.reverse with
  | [] => .error (.undefined "back of an empty string")
  | unit :: subStr =>
    if unit ≠ 'G' then .error (.runtime_error "the unit should be G for the memlimit")
    else do
      let m_avaliableMem ← gigabytes (String.ofList subStr.reverse)
      return { m_avaliableMem }

def oktoPutMem (m : ScheduleManager) (objSize : UInt64) : Bool :=
  !decide (m.m_avaliableMem < objSize)

def releaseMem (m : ScheduleManager) (memSize : UInt64) : ScheduleManager :=
  ⟨m.m_avaliableMem + memSize⟩

def assignMem (m : ScheduleManager) (memSize : UInt64) : ScheduleManager :=
  ⟨m.m_avaliableMem - memSize⟩

end ScheduleManager

end Gorilla
