import PcsSim.Modbus.Context

/-!
# The function handlers

A handler finds its request in the frame of the context and puts the reply
over it.  `execute` is the event `EV_EXECUTE` of `eMBPoll` up to the sending:
it calls the handler of the function code and replaces a reply that failed by
an exception.
-/

namespace Mbs

def regInputNregs : ℕ := 0x5400

/-- The tables of `mbs.c` and `MDL`. -/
structure Tables (D : Type) where
  slave : Slave D
  usInputRegisters : ℕ → UInt16

abbrev Handler (D : Type) := Tables D → Fmodbus → Tables D × Fmodbus × MbException

/-- The tables after a callback, its status, and the bytes stored into the
buffer. -/
abbrev Callback (D : Type) := Tables D → Tables D × MbErrorCode × List UInt8

variable {D : Type}

section Callbacks

def on04ReadInputRegisters (ops : Doubles D) (t : Tables D) : Tables D :=
  { t with
    usInputRegisters :=
      Function.update (Function.update t.usInputRegisters 0 (ops.toUShort t.slave.mdl.ua))
        1 (ops.toUShort t.slave.mdl.ub) }

def eMBRegInputCB (ops : Doubles D) (mbsidx : ℤ) (usAddress usNRegs : UInt16) : Callback D :=
  fun t ↦
    if mbsidx = mbsidxMdl then
      -- the sum is computed in int
      if usAddress.toNat + usNRegs.toNat ≤ regInputNregs then
        let t := on04ReadInputRegisters ops t
        (t, .enoerr, readLoop t.usInputRegisters usAddress.toNat usNRegs.toNat)
      else (t, .enoreg, [])
    else (t, .enoreg, [])

/-- Where `eMBRegHoldingCB` falls off its end, what is taken for its status is
`MB_ENOERR`. -/
def regHoldingCB (ops : Doubles D) (mbsidx : ℤ) (pucRegBuffer : ℕ → UInt8)
    (usAddress usNRegs : UInt16) (eMode : MbRegisterMode) : Callback D := fun t ↦
  let (slave, reply) := eMBRegHoldingCB ops mbsidx t.slave pucRegBuffer usAddress usNRegs eMode
  ({ t with slave := slave }, reply.eStatus.getD .enoerr, reply.bytes)

/-- The callbacks return no other code. -/
def prveMBError2Exception : MbErrorCode → MbException
  | .enoerr => .none
  | .enoreg => .illegalDataAddress

end Callbacks

section Handlers

def eMBFuncReportSlaveID : Handler D := fun t ctx ↦
  let ucMBSlaveID := (List.range ctx.usMBSlaveIDLen.toNat).map ctx.ucMBSlaveID
  (t, { ctx.setFrame 1 ucMBSlaveID with usLength := 1 + ctx.usMBSlaveIDLen }, .none)

/-- What the two handlers of reads share; `valid` is their check of the
count. -/
def readRegisters (ucFunctionCode : UInt8) (usRegCount : UInt16) (valid : Bool)
    (callback : Callback D) : Handler D := fun t ctx ↦
  if ctx.usLength = 4 + 1 then
    if valid then
      let ctx :=
        { ctx.setFrame 0 [ucFunctionCode, (usRegCount * 2).toUInt8] with usLength := 2 }
      let (t, eRegStatus, bytes) := callback t
      let ctx := ctx.setFrame 2 bytes
      if eRegStatus = .enoerr then
        (t, { ctx with usLength := ctx.usLength + usRegCount * 2 }, .none)
      else (t, ctx, prveMBError2Exception eRegStatus)
    else (t, ctx, .illegalDataValue)
  else (t, ctx, .illegalDataValue)

def eMBFuncReadInputRegister (ops : Doubles D) : Handler D := fun t ctx ↦
  let usRegAddress := ctx.frameWord 1 + 1
  let usRegCount := ctx.frameWord 3
  readRegisters 4 usRegCount (1 ≤ usRegCount ∧ usRegCount < 0x7D)
    (eMBRegInputCB ops ctx.mbsidx usRegAddress usRegCount) t ctx

def eMBFuncReadHoldingRegister (ops : Doubles D) : Handler D := fun t ctx ↦
  let usRegAddress := ctx.frameWord 1
  -- the second assignment drops the high byte
  let usRegCount := (ctx.pucFrame 4).toUInt16
  readRegisters 3 usRegCount (1 ≤ usRegCount ∧ usRegCount ≤ 0x7D)
    (regHoldingCB ops ctx.mbsidx (fun i ↦ ctx.pucFrame (2 + i)) usRegAddress usRegCount .read)
    t ctx

def eMBFuncWriteHoldingRegister (ops : Doubles D) : Handler D := fun t ctx ↦
  if ctx.usLength = 4 + 1 then
    let usRegAddress := ctx.frameWord 1
    let (t, eRegStatus, _) := regHoldingCB ops ctx.mbsidx (fun i ↦ ctx.pucFrame (3 + i))
      usRegAddress 1 .write t
    (t, ctx, prveMBError2Exception eRegStatus)
  else (t, ctx, .illegalDataValue)

def eMBFuncWriteMultipleHoldingRegister (ops : Doubles D) : Handler D := fun t ctx ↦
  if 5 + 1 ≤ ctx.usLength then
    let usRegAddress := ctx.frameWord 1
    let usRegCount := ctx.frameWord 3
    let ucRegByteCount := ctx.pucFrame 5
    if 1 ≤ usRegCount ∧ usRegCount ≤ 0x78 ∧ ucRegByteCount = (2 * usRegCount).toUInt8 then
      let (t, eRegStatus, _) := regHoldingCB ops ctx.mbsidx (fun i ↦ ctx.pucFrame (6 + i))
        usRegAddress usRegCount .write t
      if eRegStatus = .enoerr then (t, { ctx with usLength := 5 }, .none)
      else (t, ctx, prveMBError2Exception eRegStatus)
    else (t, ctx, .illegalDataValue)
  else (t, ctx, .illegalDataValue)

def xFuncHandlers (ops : Doubles D) : List (UInt8 × Handler D) := [
  (17, eMBFuncReportSlaveID),
  (4, eMBFuncReadInputRegister ops),
  (3, eMBFuncReadHoldingRegister ops),
  (16, eMBFuncWriteMultipleHoldingRegister ops),
  (6, eMBFuncWriteHoldingRegister ops)]

end Handlers

/-- The frame of an exception. -/
def Fmodbus.exceptionFrame (ctx : Fmodbus) : Fmodbus :=
  { ctx.setFrame 0 [ctx.ucFunctionCode ||| 128, ctx.eException.code] with usLength := 2 }

def Fmodbus.executing (ctx : Fmodbus) : Fmodbus :=
  { ctx with ucFunctionCode := ctx.pucFrame 0, eException := .illegalFunction }

def callHandler (ops : Doubles D) (t : Tables D) (ctx : Fmodbus) : Tables D × Fmodbus :=
  match (xFuncHandlers ops).lookup ctx.ucFunctionCode with
  | none => (t, ctx)
  | some pxHandler =>
      let (t, ctx, eException) := pxHandler t ctx
      (t, { ctx with eException := eException })

/-- Requests to the broadcast address 0 are not answered. -/
def execute (ops : Doubles D) (t : Tables D) (ctx : Fmodbus) : Tables D × Fmodbus :=
  let (t, ctx) := callHandler ops t ctx.executing
  if ctx.ucRcvAddress ≠ 0 ∧ ctx.eException ≠ .none then (t, ctx.exceptionFrame) else (t, ctx)

def Fmodbus.sends (ctx : Fmodbus) (reply : List UInt8) : Option (List UInt8) :=
  if ctx.ucRcvAddress ≠ 0 then some reply else none

/-- The tables after a request, and the reply if there is one. -/
def answer (ops : Doubles D) (t : Tables D) (ctx : Fmodbus) : Tables D × Option (List UInt8) :=
  let (t, ctx) := execute ops t ctx
  (t, ctx.sends ctx.pdu)

section Requests

variable {ctx : Fmodbus}

/-- The context of the slave of `MDL` once `eMBRTUReceive` has taken a frame
with this PDU. -/
structure Fmodbus.Received (ctx : Fmodbus) (pdu : List UInt8) : Prop where
  mbsidx : ctx.mbsidx = mbsidxMdl
  usLength : ctx.usLength.toNat = pdu.length
  pucFrame : ∀ i b, pdu[i]? = some b → ctx.pucFrame i = b

theorem Fmodbus.Received.executing {pdu : List UInt8} (h : ctx.Received pdu) :
    ctx.executing.Received pdu :=
  ⟨h.mbsidx, h.usLength, h.pucFrame⟩

/-- A context of the slave at address 1 that has taken a frame with this PDU;
the rest of its buffer is `leftover`. -/
def Fmodbus.taken (pdu : List UInt8) (leftover : ℕ → UInt8) : Fmodbus where
  mbsidx := mbsidxMdl
  ucMBAddress := 1
  bRxEnabled := true
  bTxEnabled := false
  ucBuffer _ := 0
  uiRxBufferPos := 0
  uiTxBufferPos := 0
  bTimeoutEnable := false
  ucMBSlaveID _ := 0
  usMBSlaveIDLen := 5
  eMBState := .enabled
  ucMBFrame := 1
  ucRcvAddress := 1
  ucFunctionCode := 0
  usLength := pdu.length.toUInt16
  eException := .none
  eQueuedEvent := .execute
  xEventInQueue := false
  eSndState := .idle
  eRcvState := .idle
  ucRTUBuf := storeBytes leftover 1 pdu
  pucSndBufferCur := 0
  usSndBufferCount := 0
  usRcvBufferPos := (pdu.length + 3).toUInt16

theorem received_taken {pdu : List UInt8} (hlength : pdu.length < 65536)
    (leftover : ℕ → UInt8) : (Fmodbus.taken pdu leftover).Received pdu := by
  refine ⟨rfl, Nat.mod_eq_of_lt hlength, fun i b hb ↦ ?_⟩
  obtain ⟨hi, rfl⟩ := List.getElem?_eq_some_iff.mp hb
  exact storeBytes_of_lt hi

theorem unicast_taken {pdu : List UInt8} {leftover : ℕ → UInt8} :
    (Fmodbus.taken pdu leftover).ucRcvAddress ≠ 0 := by
  have haddress : (1 : UInt8) ≠ 0 := by decide
  exact haddress

end Requests

section Answers

variable {ops : Doubles D} {t t' : Tables D} {ctx : Fmodbus}

def Fmodbus.withFrame (ctx : Fmodbus) (ucRTUBuf : ℕ → UInt8) (usLength : UInt16) : Fmodbus :=
  { ctx with ucRTUBuf := ucRTUBuf, usLength := usLength }

theorem pdu_storeBytes {buf : ℕ → UInt8} {bytes : List UInt8} {len : UInt16}
    (hlen : len.toNat = bytes.length) :
    (ctx.withFrame (storeBytes buf ctx.ucMBFrame bytes) len).pdu = bytes := by
  have hlength : (ctx.withFrame (storeBytes buf ctx.ucMBFrame bytes) len).pdu.length =
      bytes.length := by
    simp [Fmodbus.pdu, Fmodbus.withFrame, hlen]
  apply List.ext_getElem hlength
  intro i _ hi
  simp only [Fmodbus.pdu, List.getElem_map, List.getElem_range]
  exact storeBytes_of_lt hi

theorem sends_of_unicast (h : ctx.ucRcvAddress ≠ 0) (reply : List UInt8) :
    ctx.sends reply = some reply :=
  if_pos h

def exceptionReply (ucFunctionCode : UInt8) (eException : MbException) : List UInt8 :=
  [ucFunctionCode ||| 128, eException.code]

/-- What the answer to a request is, once its handler has returned. -/
theorem answer_of_handler {pxHandler : Handler D} {buf : ℕ → UInt8} {len : UInt16}
    {eException : MbException}
    (hlookup : (xFuncHandlers ops).lookup (ctx.pucFrame 0) = some pxHandler)
    (hcall : pxHandler t ctx.executing = (t', ctx.executing.withFrame buf len, eException)) :
    answer ops t ctx = (t', ctx.sends (
      if eException = .none then (ctx.withFrame buf len).pdu
      else exceptionReply (ctx.pucFrame 0) eException)) := by
  -- the context that the handler leaves
  obtain ⟨c, hcalled, haddress, hexception, hpdu, hfailed⟩ : ∃ c : Fmodbus,
      callHandler ops t ctx.executing = (t', c) ∧ c.ucRcvAddress = ctx.ucRcvAddress ∧
        c.eException = eException ∧ c.pdu = (ctx.withFrame buf len).pdu ∧
        c.exceptionFrame.pdu = exceptionReply (ctx.pucFrame 0) eException := by
    refine ⟨{ ctx.executing.withFrame buf len with eException := eException }, ?_, rfl, rfl, rfl,
      ?_⟩
    · have hcode : ctx.executing.ucFunctionCode = ctx.pucFrame 0 := rfl
      rw [callHandler, hcode, hlookup]
      simp only [hcall]
    · exact @pdu_storeBytes ctx buf (exceptionReply (ctx.pucFrame 0) eException) 2 rfl
  have hsends (reply : List UInt8) : c.sends reply = ctx.sends reply := by
    rw [Fmodbus.sends, haddress, ← Fmodbus.sends]
  have hsends' (reply : List UInt8) : c.exceptionFrame.sends reply = ctx.sends reply :=
    hsends reply
  simp only [answer, execute, hcalled, haddress, hexception]
  by_cases hnone : eException = .none
  · rw [if_neg fun h ↦ h.2 hnone, if_pos hnone]
    simp only [hsends, hpdu]
  · rw [if_neg hnone]
    by_cases hunicast : ctx.ucRcvAddress ≠ 0
    · rw [if_pos ⟨hunicast, hnone⟩]
      simp only [hsends', hfailed]
    · rw [if_neg fun h ↦ hunicast h.1]
      simp only [Fmodbus.sends, haddress, if_neg hunicast]

end Answers

section Frames

variable {ops : Doubles D} {t : Tables D} {ctx : Fmodbus}

/-- The context differs in its frame only, which is no longer than 252 bytes. -/
def Fmodbus.Reframed (ctx ctx' : Fmodbus) : Prop :=
  ∃ ucRTUBuf usLength, ctx' = ctx.withFrame ucRTUBuf usLength ∧ usLength.toNat ≤ 252

theorem reframed_self (hlen : ctx.usLength.toNat ≤ 252) : ctx.Reframed ctx :=
  ⟨ctx.ucRTUBuf, ctx.usLength, rfl, hlen⟩

theorem reframed_readRegisters {ucFunctionCode : UInt8} {usRegCount : UInt16} {valid : Bool}
    {callback : Callback D} (hvalid : valid → usRegCount.toNat ≤ 125)
    (hlen : ctx.usLength.toNat ≤ 252) :
    ctx.Reframed (readRegisters ucFunctionCode usRegCount valid callback t ctx).2.1 := by
  unfold readRegisters
  split_ifs with hlength hcheck
  · rcases callback t with ⟨t', eRegStatus, bytes⟩
    have hcount := hvalid hcheck
    cases eRegStatus with
    | enoerr =>
        refine ⟨_, 2 + usRegCount * 2, rfl, ?_⟩
        rw [UInt16.toNat_add, UInt16.toNat_mul]
        change (2 + usRegCount.toNat * 2 % 2 ^ 16) % 2 ^ 16 ≤ 252
        omega
    | enoreg => exact ⟨_, 2, rfl, by decide⟩
  · exact reframed_self hlen
  · exact reframed_self hlen

theorem reframed_writeMultiple (hlen : ctx.usLength.toNat ≤ 252) :
    ctx.Reframed (eMBFuncWriteMultipleHoldingRegister ops t ctx).2.1 := by
  simp only [eMBFuncWriteMultipleHoldingRegister]
  split_ifs with hlength hcheck hstatus
  · exact ⟨ctx.ucRTUBuf, 5, rfl, by decide⟩
  · exact reframed_self hlen
  · exact reframed_self hlen
  · exact reframed_self hlen

theorem reframed_writeSingle (hlen : ctx.usLength.toNat ≤ 252) :
    ctx.Reframed (eMBFuncWriteHoldingRegister ops t ctx).2.1 := by
  unfold eMBFuncWriteHoldingRegister
  split_ifs with hlength
  · exact reframed_self hlen
  · exact reframed_self hlen

theorem reframed_handler {code : UInt8} {pxHandler : Handler D}
    (hlookup : (xFuncHandlers ops).lookup code = some pxHandler)
    (hlen : ctx.usLength.toNat ≤ 252) (hid : ctx.usMBSlaveIDLen.toNat ≤ 251) :
    ctx.Reframed (pxHandler t ctx).2.1 := by
  have hmem : pxHandler ∈ (xFuncHandlers ops).map Prod.snd := by
    obtain ⟨before, after, hsplit, -⟩ := List.lookup_eq_some_iff.mp hlookup
    rw [hsplit]
    simp
  simp only [xFuncHandlers, List.map_cons, List.map_nil, List.mem_cons, List.not_mem_nil,
    or_false] at hmem
  rcases hmem with rfl | rfl | rfl | rfl | rfl
  · refine ⟨_, 1 + ctx.usMBSlaveIDLen, rfl, ?_⟩
    rw [UInt16.toNat_add]
    change (1 + ctx.usMBSlaveIDLen.toNat) % 2 ^ 16 ≤ 252
    omega
  · apply reframed_readRegisters _ hlen
    intro hvalid
    have hlt : (ctx.frameWord 3).toNat < 125 := (of_decide_eq_true hvalid).2
    exact hlt.le
  · apply reframed_readRegisters _ hlen
    intro hvalid
    exact (of_decide_eq_true hvalid).2
  · exact reframed_writeMultiple hlen
  · exact reframed_writeSingle hlen

theorem execute_context (hlen : ctx.usLength.toNat ≤ 252) (hid : ctx.usMBSlaveIDLen.toNat ≤ 251) :
    ∃ ucRTUBuf usLength ucFunctionCode eException, usLength.toNat ≤ 252 ∧
      (execute ops t ctx).2 =
        { ctx.withFrame ucRTUBuf usLength with
          ucFunctionCode := ucFunctionCode, eException := eException } := by
  have hcalled : ∃ ucRTUBuf usLength eException, usLength.toNat ≤ 252 ∧
      (callHandler ops t ctx.executing).2 =
        { ctx.executing.withFrame ucRTUBuf usLength with eException := eException } := by
    unfold callHandler
    cases hlookup : (xFuncHandlers ops).lookup ctx.executing.ucFunctionCode with
    | none => exact ⟨ctx.ucRTUBuf, ctx.usLength, _, hlen, rfl⟩
    | some pxHandler =>
        obtain ⟨buf, len, hframe, hle⟩ := @reframed_handler D ops t ctx.executing _ _ hlookup
          hlen hid
        refine ⟨buf, len, (pxHandler t ctx.executing).2.2, hle, ?_⟩
        simp only [hframe]
  obtain ⟨buf, len, eException, hle, hframe⟩ := hcalled
  simp only [execute]
  split_ifs with hfailed
  · refine ⟨storeBytes buf ctx.ucMBFrame (exceptionReply (ctx.pucFrame 0) eException), 2,
      ctx.executing.ucFunctionCode, eException, by decide, ?_⟩
    simp only [hframe, Fmodbus.exceptionFrame]
    rfl
  · refine ⟨buf, len, ctx.executing.ucFunctionCode, eException, hle, ?_⟩
    simp only [hframe]
    rfl

end Frames

end Mbs
