import Mathlib.Data.List.GetD
import PcsSim.Lib.WordMemory
import PcsSim.Modbus.Holding

/-!
# The context of a Modbus slave

`Fmodbus` is the `fmodbus_t` that `eMBInit` allocates.  Pointers into
`ucRTUBuf` are indices of it.  The buffer is not cleared between frames, so
behind a frame stand the bytes of earlier ones.
-/

namespace Mbs

inductive MbException
  | none
  | illegalFunction
  | illegalDataAddress
  | illegalDataValue
  | slaveDeviceFailure
  | acknowledge
  | slaveBusy
  | memoryParityError
  | gatewayPathFailed
  | gatewayTgtFailed
  deriving DecidableEq

def MbException.code : MbException → UInt8
  | none => 0x00
  | illegalFunction => 0x01
  | illegalDataAddress => 0x02
  | illegalDataValue => 0x03
  | slaveDeviceFailure => 0x04
  | acknowledge => 0x05
  | slaveBusy => 0x06
  | memoryParityError => 0x08
  | gatewayPathFailed => 0x0A
  | gatewayTgtFailed => 0x0B

inductive MbEvent
  | ready
  | frameReceived
  | execute
  | frameSent
  deriving DecidableEq

inductive MbRcvState
  | init
  | idle
  | rcv
  | error
  deriving DecidableEq

/-- Memory that was never written may hold another number. -/
inductive MbSndState
  | idle
  | xmit
  | other (n : ℕ)
  deriving DecidableEq

inductive MbState
  | enabled
  | disabled
  | notInitialized
  deriving DecidableEq

structure Fmodbus where
  mbsidx : ℤ
  ucMBAddress : UInt8
  bRxEnabled : Bool
  bTxEnabled : Bool
  ucBuffer : ℕ → UInt8
  uiRxBufferPos : ℕ
  uiTxBufferPos : ℕ
  bTimeoutEnable : Bool
  ucMBSlaveID : ℕ → UInt8
  usMBSlaveIDLen : UInt16
  eMBState : MbState
  ucMBFrame : ℕ
  ucRcvAddress : UInt8
  ucFunctionCode : UInt8
  usLength : UInt16
  eException : MbException
  eQueuedEvent : MbEvent
  xEventInQueue : Bool
  eSndState : MbSndState
  eRcvState : MbRcvState
  ucRTUBuf : ℕ → UInt8
  pucSndBufferCur : ℕ
  usSndBufferCount : UInt16
  usRcvBufferPos : UInt16

/-- The bytes stored into a buffer from an index on. -/
def storeBytes (buf : ℕ → UInt8) (start : ℕ) (bytes : List UInt8) : ℕ → UInt8 := fun i ↦
  if start ≤ i then bytes.getD (i - start) (buf i) else buf i

namespace Fmodbus

/-- `pucFrame[i]` -/
def pucFrame (ctx : Fmodbus) (i : ℕ) : UInt8 := ctx.ucRTUBuf (ctx.ucMBFrame + i)

/-- The word at `pucFrame[i]`, high byte first. -/
def frameWord (ctx : Fmodbus) (i : ℕ) : UInt16 :=
  (ctx.pucFrame i).toUInt16 <<< 8 ||| (ctx.pucFrame (i + 1)).toUInt16

def setFrame (ctx : Fmodbus) (i : ℕ) (bytes : List UInt8) : Fmodbus :=
  { ctx with ucRTUBuf := storeBytes ctx.ucRTUBuf (ctx.ucMBFrame + i) bytes }

/-- The first `usLength` bytes of the frame. -/
def pdu (ctx : Fmodbus) : List UInt8 := (List.range ctx.usLength.toNat).map ctx.pucFrame

end Fmodbus

section Bytes

variable {buf : ℕ → UInt8} {start i : ℕ} {bytes : List UInt8}

theorem storeBytes_of_lt (h : i < bytes.length) :
    storeBytes buf start bytes (start + i) = bytes[i] := by
  have hle : start ≤ start + i := by omega
  rw [storeBytes, if_pos hle, Nat.add_sub_cancel_left, List.getD_eq_getElem _ _ h]

theorem storeBytes_of_not_mem (h : i < start ∨ start + bytes.length ≤ i) :
    storeBytes buf start bytes i = buf i := by
  unfold storeBytes
  split_ifs with hle
  · exact List.getD_eq_default _ _ (by omega)
  · rfl

theorem storeBytes_nil (buf : ℕ → UInt8) (start : ℕ) : storeBytes buf start [] = buf := by
  funext i
  exact storeBytes_of_not_mem (by simp; omega)

theorem storeBytes_append (bytes' : List UInt8) :
    storeBytes (storeBytes buf start bytes) (start + bytes.length) bytes' =
      storeBytes buf start (bytes ++ bytes') := by
  funext i
  rcases Nat.lt_or_ge i (start + bytes.length) with hlt | hge
  · rw [storeBytes_of_not_mem (.inl hlt)]
    unfold storeBytes
    split_ifs with hle
    · rw [List.getD_append _ _ _ _ (by omega)]
    · rfl
  · have hle : start ≤ i := by omega
    rw [storeBytes, if_pos hge, storeBytes_of_not_mem (.inr hge), storeBytes, if_pos hle,
      List.getD_append_right _ _ _ _ (by omega), Nat.sub_sub]

theorem storeBytes_cons (b : UInt8) :
    storeBytes (Function.update buf start b) (start + 1) bytes =
      storeBytes buf start (b :: bytes) := by
  have hupdate : Function.update buf start b = storeBytes buf start [b] := by
    funext i
    by_cases hi : i = start
    · subst hi
      rw [Function.update_self]
      exact (@storeBytes_of_lt buf i 0 [b] (by simp)).symm
    · rw [Function.update_of_ne hi, storeBytes_of_not_mem (by simp; omega)]
  rw [hupdate]
  exact storeBytes_append bytes

end Bytes

end Mbs
