import PcsSim.Modbus.Functions

/-!
# The serial line

The slave as `mbs_start_MDL` starts it, and `eMBPoll`, with what it calls to
receive, to send and for its timer.  An assertion that does not hold is an
error.  What comes from outside during one poll is its `PollInput`; what goes
out is the list of bytes written.
-/

namespace Mbs

inductive Assertion
  /-- `eSndState` is idle when a byte is received -/
  | senderIdle
  /-- the receive position is below 256 when a frame is taken -/
  | receivePosition
  /-- the receiver is idle when a byte is sent -/
  | receiverIdle
  | receiveBuffer
  | transmitBuffer
  /-- the state of the receiver is legal when the timer expires -/
  | timerState
  /-- not both directions are enabled -/
  | direction
  deriving DecidableEq

/-- `prvbMBPortSerialRead` of at most 256 bytes, or a read that failed. -/
inductive SerialRead
  | chunk (bytes : { l : List UInt8 // l ≠ [] ∧ l.length ≤ 256 })
  | failed

/-- The reads before one that times out, and whether the time is over when the
timer is polled. -/
structure PollInput where
  reads : List SerialRead
  expired : Bool

/-- The number of bytes that the read returns. -/
def SerialRead.size : SerialRead → ℕ
  | chunk bytes => bytes.1.length
  | failed => 0

section Checksum

def aucCRCHi : Array UInt8 := #[
  0x00, 0xC1, 0x81, 0x40, 0x01, 0xC0, 0x80, 0x41, 0x01, 0xC0, 0x80, 0x41, 0x00, 0xC1, 0x81, 0x40,
  0x01, 0xC0, 0x80, 0x41, 0x00, 0xC1, 0x81, 0x40, 0x00, 0xC1, 0x81, 0x40, 0x01, 0xC0, 0x80, 0x41,
  0x01, 0xC0, 0x80, 0x41, 0x00, 0xC1, 0x81, 0x40, 0x00, 0xC1, 0x81, 0x40, 0x01, 0xC0, 0x80, 0x41,
  0x00, 0xC1, 0x81, 0x40, 0x01, 0xC0, 0x80, 0x41, 0x01, 0xC0, 0x80, 0x41, 0x00, 0xC1, 0x81, 0x40,
  0x01, 0xC0, 0x80, 0x41, 0x00, 0xC1, 0x81, 0x40, 0x00, 0xC1, 0x81, 0x40, 0x01, 0xC0, 0x80, 0x41,
  0x00, 0xC1, 0x81, 0x40, 0x01, 0xC0, 0x80, 0x41, 0x01, 0xC0, 0x80, 0x41, 0x00, 0xC1, 0x81, 0x40,
  0x00, 0xC1, 0x81, 0x40, 0x01, 0xC0, 0x80, 0x41, 0x01, 0xC0, 0x80, 0x41, 0x00, 0xC1, 0x81, 0x40,
  0x01, 0xC0, 0x80, 0x41, 0x00, 0xC1, 0x81, 0x40, 0x00, 0xC1, 0x81, 0x40, 0x01, 0xC0, 0x80, 0x41,
  0x01, 0xC0, 0x80, 0x41, 0x00, 0xC1, 0x81, 0x40, 0x00, 0xC1, 0x81, 0x40, 0x01, 0xC0, 0x80, 0x41,
  0x00, 0xC1, 0x81, 0x40, 0x01, 0xC0, 0x80, 0x41, 0x01, 0xC0, 0x80, 0x41, 0x00, 0xC1, 0x81, 0x40,
  0x00, 0xC1, 0x81, 0x40, 0x01, 0xC0, 0x80, 0x41, 0x01, 0xC0, 0x80, 0x41, 0x00, 0xC1, 0x81, 0x40,
  0x01, 0xC0, 0x80, 0x41, 0x00, 0xC1, 0x81, 0x40, 0x00, 0xC1, 0x81, 0x40, 0x01, 0xC0, 0x80, 0x41,
  0x00, 0xC1, 0x81, 0x40, 0x01, 0xC0, 0x80, 0x41, 0x01, 0xC0, 0x80, 0x41, 0x00, 0xC1, 0x81, 0x40,
  0x01, 0xC0, 0x80, 0x41, 0x00, 0xC1, 0x81, 0x40, 0x00, 0xC1, 0x81, 0x40, 0x01, 0xC0, 0x80, 0x41,
  0x01, 0xC0, 0x80, 0x41, 0x00, 0xC1, 0x81, 0x40, 0x00, 0xC1, 0x81, 0x40, 0x01, 0xC0, 0x80, 0x41,
  0x00, 0xC1, 0x81, 0x40, 0x01, 0xC0, 0x80, 0x41, 0x01, 0xC0, 0x80, 0x41, 0x00, 0xC1, 0x81, 0x40]

def aucCRCLo : Array UInt8 := #[
  0x00, 0xC0, 0xC1, 0x01, 0xC3, 0x03, 0x02, 0xC2, 0xC6, 0x06, 0x07, 0xC7, 0x05, 0xC5, 0xC4, 0x04,
  0xCC, 0x0C, 0x0D, 0xCD, 0x0F, 0xCF, 0xCE, 0x0E, 0x0A, 0xCA, 0xCB, 0x0B, 0xC9, 0x09, 0x08, 0xC8,
  0xD8, 0x18, 0x19, 0xD9, 0x1B, 0xDB, 0xDA, 0x1A, 0x1E, 0xDE, 0xDF, 0x1F, 0xDD, 0x1D, 0x1C, 0xDC,
  0x14, 0xD4, 0xD5, 0x15, 0xD7, 0x17, 0x16, 0xD6, 0xD2, 0x12, 0x13, 0xD3, 0x11, 0xD1, 0xD0, 0x10,
  0xF0, 0x30, 0x31, 0xF1, 0x33, 0xF3, 0xF2, 0x32, 0x36, 0xF6, 0xF7, 0x37, 0xF5, 0x35, 0x34, 0xF4,
  0x3C, 0xFC, 0xFD, 0x3D, 0xFF, 0x3F, 0x3E, 0xFE, 0xFA, 0x3A, 0x3B, 0xFB, 0x39, 0xF9, 0xF8, 0x38,
  0x28, 0xE8, 0xE9, 0x29, 0xEB, 0x2B, 0x2A, 0xEA, 0xEE, 0x2E, 0x2F, 0xEF, 0x2D, 0xED, 0xEC, 0x2C,
  0xE4, 0x24, 0x25, 0xE5, 0x27, 0xE7, 0xE6, 0x26, 0x22, 0xE2, 0xE3, 0x23, 0xE1, 0x21, 0x20, 0xE0,
  0xA0, 0x60, 0x61, 0xA1, 0x63, 0xA3, 0xA2, 0x62, 0x66, 0xA6, 0xA7, 0x67, 0xA5, 0x65, 0x64, 0xA4,
  0x6C, 0xAC, 0xAD, 0x6D, 0xAF, 0x6F, 0x6E, 0xAE, 0xAA, 0x6A, 0x6B, 0xAB, 0x69, 0xA9, 0xA8, 0x68,
  0x78, 0xB8, 0xB9, 0x79, 0xBB, 0x7B, 0x7A, 0xBA, 0xBE, 0x7E, 0x7F, 0xBF, 0x7D, 0xBD, 0xBC, 0x7C,
  0xB4, 0x74, 0x75, 0xB5, 0x77, 0xB7, 0xB6, 0x76, 0x72, 0xB2, 0xB3, 0x73, 0xB1, 0x71, 0x70, 0xB0,
  0x50, 0x90, 0x91, 0x51, 0x93, 0x53, 0x52, 0x92, 0x96, 0x56, 0x57, 0x97, 0x55, 0x95, 0x94, 0x54,
  0x9C, 0x5C, 0x5D, 0x9D, 0x5F, 0x9F, 0x9E, 0x5E, 0x5A, 0x9A, 0x9B, 0x5B, 0x99, 0x59, 0x58, 0x98,
  0x88, 0x48, 0x49, 0x89, 0x4B, 0x8B, 0x8A, 0x4A, 0x4E, 0x8E, 0x8F, 0x4F, 0x8D, 0x4D, 0x4C, 0x8C,
  0x44, 0x84, 0x85, 0x45, 0x87, 0x47, 0x46, 0x86, 0x82, 0x42, 0x43, 0x83, 0x41, 0x81, 0x80, 0x40]

def usMBCRC16Loop (pucFrame : ℕ → UInt8) (ucCRCHi ucCRCLo : UInt8) : ℕ → ℕ → UInt16
  | _, 0 => ucCRCHi.toUInt16 <<< 8 ||| ucCRCLo.toUInt16
  | i, usLen + 1 =>
      let iIndex := (ucCRCLo ^^^ pucFrame i).toNat
      usMBCRC16Loop pucFrame (aucCRCLo.getD iIndex 0) (ucCRCHi ^^^ aucCRCHi.getD iIndex 0)
        (i + 1) usLen

def usMBCRC16 (pucFrame : ℕ → UInt8) (usLen : UInt16) : UInt16 :=
  usMBCRC16Loop pucFrame 0xFF 0xFF 0 usLen.toNat

end Checksum

section Ports

def check (condition : Bool) (assertion : Assertion) : Except Assertion Unit :=
  if condition then .ok () else .error assertion

def vMBPortSerialEnable (ctx : Fmodbus) (bEnableRx bEnableTx : Bool) :
    Except Assertion Fmodbus := do
  check (!bEnableRx || !bEnableTx) .direction
  let ctx :=
    if bEnableRx then { ctx with uiRxBufferPos := 0, bRxEnabled := true }
    else { ctx with bRxEnabled := false }
  return if bEnableTx then { ctx with bTxEnabled := true, uiTxBufferPos := 0 }
    else { ctx with bTxEnabled := false }

def xMBPortSerialPutByte (ctx : Fmodbus) (ucByte : UInt8) : Except Assertion Fmodbus := do
  check (ctx.uiTxBufferPos < 256) .transmitBuffer
  return { ctx with
    ucBuffer := Function.update ctx.ucBuffer ctx.uiTxBufferPos ucByte
    uiTxBufferPos := ctx.uiTxBufferPos + 1 }

def xMBPortSerialGetByte (ctx : Fmodbus) : Except Assertion (Fmodbus × UInt8) := do
  check (ctx.uiRxBufferPos < 256) .receiveBuffer
  return ({ ctx with uiRxBufferPos := ctx.uiRxBufferPos + 1 }, ctx.ucBuffer ctx.uiRxBufferPos)

def vMBPortTimersEnable (ctx : Fmodbus) : Fmodbus := { ctx with bTimeoutEnable := true }

def vMBPortTimersDisable (ctx : Fmodbus) : Fmodbus := { ctx with bTimeoutEnable := false }

def xMBPortEventPost (ctx : Fmodbus) (eEvent : MbEvent) : Fmodbus :=
  { ctx with xEventInQueue := true, eQueuedEvent := eEvent }

end Ports

section StateMachines

def xMBRTUReceiveFSM (ctx : Fmodbus) : Except Assertion Fmodbus := do
  check (ctx.eSndState = .idle) .senderIdle
  let (ctx, ucByte) ← xMBPortSerialGetByte ctx
  match ctx.eRcvState with
  | .init => return vMBPortTimersEnable ctx
  | .error => return vMBPortTimersEnable ctx
  | .idle =>
      return vMBPortTimersEnable { ctx with
        ucRTUBuf := Function.update ctx.ucRTUBuf 0 ucByte
        usRcvBufferPos := 1
        eRcvState := .rcv }
  | .rcv =>
      if ctx.usRcvBufferPos < 256 then
        return vMBPortTimersEnable { ctx with
          ucRTUBuf := Function.update ctx.ucRTUBuf ctx.usRcvBufferPos.toNat ucByte
          usRcvBufferPos := ctx.usRcvBufferPos + 1 }
      else return vMBPortTimersEnable { ctx with eRcvState := .error }

def xMBRTUTransmitFSM (ctx : Fmodbus) : Except Assertion Fmodbus := do
  check (ctx.eRcvState = .idle) .receiverIdle
  match ctx.eSndState with
  | .idle => vMBPortSerialEnable ctx true false
  | .xmit =>
      if ctx.usSndBufferCount ≠ 0 then do
        let ctx ← xMBPortSerialPutByte ctx (ctx.ucRTUBuf ctx.pucSndBufferCur)
        return { ctx with
          pucSndBufferCur := ctx.pucSndBufferCur + 1
          usSndBufferCount := ctx.usSndBufferCount - 1 }
      else do
        let ctx ← vMBPortSerialEnable (xMBPortEventPost ctx .frameSent) true false
        return { ctx with eSndState := .idle }
  | .other _ => return ctx

def xMBRTUTimerT35Expired (ctx : Fmodbus) : Except Assertion Fmodbus := do
  let ctx ← match ctx.eRcvState with
    | .init => .ok (xMBPortEventPost ctx .ready)
    | .rcv => .ok (xMBPortEventPost ctx .frameReceived)
    | .error => .ok ctx
    | .idle => .error .timerState
  return { vMBPortTimersDisable ctx with eRcvState := .idle }

end StateMachines

section Polls

/-- The `for` loop of `xMBPortSerialPoll`. -/
def receiveBytes : ℕ → Fmodbus → Except Assertion Fmodbus
  | 0, ctx => .ok ctx
  | n + 1, ctx => do receiveBytes n (← xMBRTUReceiveFSM ctx)

/-- `while (ctx->bRxEnabled)`; it is left when a read times out. -/
def serialReads : List SerialRead → Fmodbus → Except Assertion Fmodbus
  | [], ctx => .ok ctx
  | r :: reads, ctx =>
      if ctx.bRxEnabled then
        match r with
        | .chunk bytes => do
            let ctx := { ctx with ucBuffer := storeBytes ctx.ucBuffer 0 bytes.1 }
            let ctx ← receiveBytes bytes.1.length ctx
            serialReads reads { ctx with uiRxBufferPos := 0 }
        | .failed => serialReads reads ctx
      else .ok ctx

/-- `while (ctx->bTxEnabled)` -/
def transmitLoop : ℕ → Fmodbus → Except Assertion Fmodbus
  | 0, ctx => .ok ctx
  | fuel + 1, ctx =>
      if ctx.bTxEnabled then do transmitLoop fuel (← xMBRTUTransmitFSM ctx) else .ok ctx

/-- The loop of the transmitter has one round for each byte, and one more. -/
def xMBPortSerialPoll (ctx : Fmodbus) (reads : List SerialRead) :
    Except Assertion (Fmodbus × List UInt8) := do
  let ctx ← serialReads reads ctx
  if ctx.bTxEnabled then
    let ctx ← transmitLoop (ctx.usSndBufferCount.toNat + 1) ctx
    return (ctx, (List.range ctx.uiTxBufferPos).map ctx.ucBuffer)
  else return (ctx, [])

def vMBPortTimerPoll (ctx : Fmodbus) (expired : Bool) : Except Assertion Fmodbus :=
  if ctx.bTimeoutEnable && expired then
    xMBRTUTimerT35Expired { ctx with bTimeoutEnable := false }
  else .ok ctx

/-- The event taken from the queue, if there is one, and the bytes written.
Address 255 is that of TCP, which `eMBInit` refuses. -/
def xMBPortEventGet (ctx : Fmodbus) (input : PollInput) :
    Except Assertion (Fmodbus × Option MbEvent × List UInt8) :=
  if ctx.xEventInQueue then
    .ok ({ ctx with xEventInQueue := false }, some ctx.eQueuedEvent, [])
  else if ctx.ucMBAddress = 255 then .ok (ctx, none, [])
  else do
    let (ctx, written) ← xMBPortSerialPoll ctx input.reads
    let ctx ← vMBPortTimerPoll ctx input.expired
    return (ctx, none, written)

/-- Whether a frame was received. -/
def eMBRTUReceive (ctx : Fmodbus) : Except Assertion (Fmodbus × Bool) := do
  check (ctx.usRcvBufferPos < 256) .receivePosition
  if 4 ≤ ctx.usRcvBufferPos ∧ usMBCRC16 ctx.ucRTUBuf ctx.usRcvBufferPos = 0 then
    return ({ ctx with
      ucRcvAddress := ctx.ucRTUBuf 0
      usLength := ctx.usRcvBufferPos - 1 - 2
      ucMBFrame := 1 }, true)
  else return (ctx, false)

/-- The frame is not sent if the receiver is not idle. -/
def eMBRTUSend (ctx : Fmodbus) : Except Assertion Fmodbus :=
  if ctx.eRcvState = .idle then
    let cur := ctx.ucMBFrame - 1
    let buf := Function.update ctx.ucRTUBuf cur ctx.ucMBAddress
    let count := 1 + ctx.usLength
    let usCRC16 := usMBCRC16 (fun i ↦ buf (cur + i)) count
    let buf := Function.update buf count.toNat (usCRC16 &&& 0xFF).toUInt8
    let buf := Function.update buf (count + 1).toNat (usCRC16 >>> 8).toUInt8
    vMBPortSerialEnable { ctx with
      ucRTUBuf := buf
      pucSndBufferCur := cur
      usSndBufferCount := count + 2
      eSndState := .xmit } false true
  else .ok ctx

variable {D : Type}

def handleEvent (ops : Doubles D) (t : Tables D) (ctx : Fmodbus) :
    MbEvent → Except Assertion (Tables D × Fmodbus)
  | .ready => .ok (t, ctx)
  | .frameReceived => do
      let (ctx, received) ← eMBRTUReceive ctx
      if received ∧ (ctx.ucRcvAddress = ctx.ucMBAddress ∨ ctx.ucRcvAddress = 0) then
        return (t, xMBPortEventPost ctx .execute)
      else return (t, ctx)
  | .execute => do
      let (t, ctx) := execute ops t ctx
      if ctx.ucRcvAddress ≠ 0 then return (t, ← eMBRTUSend ctx) else return (t, ctx)
  | .frameSent => .ok (t, ctx)

/-- The tables and the context of the slave. -/
abbrev SlaveState (D : Type) := Tables D × Fmodbus

/-- The state after a poll and the bytes written; nothing is done unless the
stack is enabled. -/
def eMBPoll (ops : Doubles D) (s : SlaveState D) (input : PollInput) :
    Except Assertion (SlaveState D × List UInt8) :=
  if s.2.eMBState ≠ .enabled then .ok (s, [])
  else do
    let (ctx, eEvent, written) ← xMBPortEventGet s.2 input
    match eEvent with
    | none => return ((s.1, ctx), written)
    | some eEvent => return (← handleEvent ops s.1 ctx eEvent, written)

end Polls

section Start

/-- There is no context for an address that is not 1 to 247.  Whether the port
could be opened or not, the initialisation succeeds. -/
def eMBInit (ctx : Fmodbus) (ucSlaveAddress : UInt8) (opened : Bool) :
    Except Assertion (Option Fmodbus) := do
  if ucSlaveAddress = 0 ∨ ucSlaveAddress < 1 ∨ 247 < ucSlaveAddress then return none
  else
    let ctx := { ctx with ucMBAddress := ucSlaveAddress, eMBState := .notInitialized }
    let ctx ← if opened then vMBPortSerialEnable ctx false false else .ok ctx
    return some { ctx with xEventInQueue := false, eMBState := .disabled }

def eMBSetSlaveID (ctx : Fmodbus) (ucSlaveID : UInt8) (xIsRunning : Bool)
    (pucAdditional : List UInt8) : Fmodbus :=
  if pucAdditional.length + 2 < 32 then
    { ctx with
      ucMBSlaveID := storeBytes ctx.ucMBSlaveID 0
        (ucSlaveID :: (if xIsRunning then 0xFF else 0x00) :: pucAdditional)
      usMBSlaveIDLen := (2 + pucAdditional.length).toUInt16 }
  else ctx

def eMBRTUStart (ctx : Fmodbus) : Except Assertion Fmodbus := do
  let ctx ← vMBPortSerialEnable { ctx with eRcvState := .init } true false
  return vMBPortTimersEnable ctx

def eMBEnable (ctx : Fmodbus) : Except Assertion Fmodbus :=
  if ctx.eMBState = .disabled then do
    let ctx ← eMBRTUStart ctx
    return { ctx with eMBState := .enabled }
  else .ok ctx

/-- The context that the polling thread starts with, from the one allocated. -/
def mbsStartMDL (ctx : Fmodbus) (adr : UInt8) (opened : Bool) :
    Except Assertion (Option Fmodbus) := do
  match ← eMBInit ctx adr opened with
  | none => return none
  | some ctx =>
      let ctx := eMBSetSlaveID ctx 0x34 true [0xAA, 0xBB, 0xCC]
      return some (← eMBEnable { ctx with mbsidx := mbsidxMdl })

end Start

end Mbs
