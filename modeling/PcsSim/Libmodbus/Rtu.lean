import PcsSim.Modbus.Rtu

/-!
# Requests of libmodbus over RTU

The requests that a channel makes of a slave, with the backend of RTU.  No
channel turns on the error recovery; the debug output, which `chan_set_dbg` and
`chan_enable_dbg` turn on, only logs and is left out.  What `write` returns and
what the line brings are given.
-/

namespace Libmodbus

/-- The values of `errno` that a request sets, and those of the system. -/
inductive Errno
  | einval
  | econnreset
  | etimedout
  | embBadCrc
  | embBadData
  | embBadExc
  | embMData
  /-- `MODBUS_ENOBASE + exception_code` -/
  | exception (exceptionCode : UInt8)
  | system (errno : ℕ)
  deriving DecidableEq

/-- Why a request does not succeed. -/
inductive Failure
  /-- `assert(ctx->slave != -1)` -/
  | assertion
  | errno (errno : Errno)
  deriving DecidableEq

/-- `modbus_t`; there is no slave before `modbus_set_slave`. -/
structure Modbus where
  slave : ℤ
  deriving DecidableEq

section Frames

/-- The conversion of an int to `uint8_t`. -/
def byte (n : ℤ) : UInt8 := (n % 256).toNat.toUInt8

def modbusSetSlave (ctx : Modbus) (slave : ℤ) : Except Errno Modbus :=
  if 0 ≤ slave ∧ slave ≤ 254 then .ok { ctx with slave := slave } else .error .einval

def modbusRtuBuildRequestBasis (ctx : Modbus) (function addr nb : ℤ) :
    Except Failure (List UInt8) :=
  if ctx.slave = -1 then .error .assertion
  else .ok [byte ctx.slave, byte function, byte (addr / 256), byte addr, byte (nb / 256), byte nb]

def tableCrcHi : Array UInt8 := #[
  0x00, 0xC1, 0x81, 0x40, 0x01, 0xC0, 0x80, 0x41, 0x01, 0xC0, 0x80, 0x41, 0x00, 0xC1, 0x81, 0x40,
  0x01, 0xC0, 0x80, 0x41, 0x00, 0xC1, 0x81, 0x40, 0x00, 0xC1, 0x81, 0x40, 0x01, 0xC0, 0x80, 0x41,
  0x01, 0xC0, 0x80, 0x41, 0x00, 0xC1, 0x81, 0x40, 0x00, 0xC1, 0x81, 0x40, 0x01, 0xC0, 0x80, 0x41,
  0x00, 0xC1, 0x81, 0x40, 0x01, 0xC0, 0x80, 0x41, 0x01, 0xC0, 0x80, 0x41, 0x00, 0xC1, 0x81, 0x40,
  0x01, 0xC0, 0x80, 0x41, 0x00, 0xC1, 0x81, 0x40, 0x00, 0xC1, 0x81, 0x40, 0x01, 0xC0, 0x80, 0x41,
  0x00, 0xC1, 0x81, 0x40, 0x01, 0xC0, 0x80, 0x41, 0x01, 0xC0, 0x80, 0x41, 0x00, 0xC1, 0x81, 0x40,
  0x00, 0xC1, 0x81, 0x40, 0x01, 0xC0, 0x80, 0x41, 0x01, 0xC0, 0x80, 0x41, 0x00, 0xC1, 0x81, 0x40,
  0x01, 0xC0, 0x80, 0x41, 0x00, 0xC1, 0x81, 0x40, 0x00, 0xC1, 0x81, 0x40, 0x01, 0xC0, 0x80, 0x41,
  0x01, 0xC0, 0x80, 0x41, 0x00, 0xC1, 0x81, 0x40, 0x00, 0xC1, 0x81, 0x40, 0x01, 0xC0, 0x80, 0x41,
  0x00, 0xC1, 0x81, 0x40, 0x01, 0xC0, 0x80, 0x41, 0x01, 0xC0, 0x80, 0x41, 0x00, 0xC1, 0x81, 0x40,
  0x00, 0xC1, 0x81, 0x40, 0x01, 0xC0, 0x80, 0x41, 0x01, 0xC0, 0x80, 0x41, 0x00, 0xC1, 0x81, 0x40,
  0x01, 0xC0, 0x80, 0x41, 0x00, 0xC1, 0x81, 0x40, 0x00, 0xC1, 0x81, 0x40, 0x01, 0xC0, 0x80, 0x41,
  0x00, 0xC1, 0x81, 0x40, 0x01, 0xC0, 0x80, 0x41, 0x01, 0xC0, 0x80, 0x41, 0x00, 0xC1, 0x81, 0x40,
  0x01, 0xC0, 0x80, 0x41, 0x00, 0xC1, 0x81, 0x40, 0x00, 0xC1, 0x81, 0x40, 0x01, 0xC0, 0x80, 0x41,
  0x01, 0xC0, 0x80, 0x41, 0x00, 0xC1, 0x81, 0x40, 0x00, 0xC1, 0x81, 0x40, 0x01, 0xC0, 0x80, 0x41,
  0x00, 0xC1, 0x81, 0x40, 0x01, 0xC0, 0x80, 0x41, 0x01, 0xC0, 0x80, 0x41, 0x00, 0xC1, 0x81, 0x40]

def tableCrcLo : Array UInt8 := #[
  0x00, 0xC0, 0xC1, 0x01, 0xC3, 0x03, 0x02, 0xC2, 0xC6, 0x06, 0x07, 0xC7, 0x05, 0xC5, 0xC4, 0x04,
  0xCC, 0x0C, 0x0D, 0xCD, 0x0F, 0xCF, 0xCE, 0x0E, 0x0A, 0xCA, 0xCB, 0x0B, 0xC9, 0x09, 0x08, 0xC8,
  0xD8, 0x18, 0x19, 0xD9, 0x1B, 0xDB, 0xDA, 0x1A, 0x1E, 0xDE, 0xDF, 0x1F, 0xDD, 0x1D, 0x1C, 0xDC,
  0x14, 0xD4, 0xD5, 0x15, 0xD7, 0x17, 0x16, 0xD6, 0xD2, 0x12, 0x13, 0xD3, 0x11, 0xD1, 0xD0, 0x10,
  0xF0, 0x30, 0x31, 0xF1, 0x33, 0xF3, 0xF2, 0x32, 0x36, 0xF6, 0xF7, 0x37, 0xF5, 0x35, 0x34, 0xF4,
  0x3C, 0xFC, 0xFD, 0x3D, 0xFF, 0x3F, 0x3E, 0xFE, 0xFA, 0x3A, 0x3B, 0xFB, 0x39, 0xF9, 0xF8, 0x38,
  0x28, 0xE8, 0xE9, 0x29, 0xEB, 0x2B, 0x2A, 0xEA, 0xEE, 0x2E, 0x2F, 0xEF, 0x2D, 0xED, 0xEC, 0x2C,
  0xE4, 0x24, 0x25, 0xE5, 0x27, 0xE7, 0xE6, 0x26, 0x22, 0xE2, 0xE3, 0x23, 0xE1, 0x21, 0x20, 0xE0,
  0xA0, 0x60, 0x61, 0xA1, 0x63, 0xA3, 0xA2, 0x62, 0x66, 0xA6, 0xA7, 0x67, 0xA5, 0x65, 0x64, 0xA4,
  0x6C, 0xAC, 0xAD, 0x6D, 0xAF, 0x6F, 0x6E, 0xAE, 0xAA, 0x6A, 0x6B, 0xAB, 0x69, 0xA9, 0xA8, 0x68,
  0x78, 0xB8, 0xB9, 0x79, 0xBB, 0x7B, 0x7A, 0xBA, 0xBE, 0x7E, 0x7F, 0xBF, 0x7D, 0xBD, 0xBC, 0x7C,
  0xB4, 0x74, 0x75, 0xB5, 0x77, 0xB7, 0xB6, 0x76, 0x72, 0xB2, 0xB3, 0x73, 0xB1, 0x71, 0x70, 0xB0,
  0x50, 0x90, 0x91, 0x51, 0x93, 0x53, 0x52, 0x92, 0x96, 0x56, 0x57, 0x97, 0x55, 0x95, 0x94, 0x54,
  0x9C, 0x5C, 0x5D, 0x9D, 0x5F, 0x9F, 0x9E, 0x5E, 0x5A, 0x9A, 0x9B, 0x5B, 0x99, 0x59, 0x58, 0x98,
  0x88, 0x48, 0x49, 0x89, 0x4B, 0x8B, 0x8A, 0x4A, 0x4E, 0x8E, 0x8F, 0x4F, 0x8D, 0x4D, 0x4C, 0x8C,
  0x44, 0x84, 0x85, 0x45, 0x87, 0x47, 0x46, 0x86, 0x82, 0x42, 0x43, 0x83, 0x41, 0x81, 0x80, 0x40]

/-- The tables are those of freemodbus. -/
theorem tableCrcHi_eq : tableCrcHi = Mbs.aucCRCHi := rfl

theorem tableCrcLo_eq : tableCrcLo = Mbs.aucCRCLo := rfl

def crc16Loop (crcHi crcLo : UInt8) : List UInt8 → UInt16
  | [] => crcHi.toUInt16 <<< 8 ||| crcLo.toUInt16
  | b :: buffer =>
      let i := (crcHi ^^^ b).toNat
      crc16Loop (crcLo ^^^ tableCrcHi.getD i 0) (tableCrcLo.getD i 0) buffer

def crc16 (buffer : List UInt8) : UInt16 := crc16Loop 0xFF 0xFF buffer

def modbusRtuSendMsgPre (req : List UInt8) : List UInt8 :=
  req ++ [(crc16 req >>> 8).toUInt8, (crc16 req &&& 0xFF).toUInt8]

/-- The message itself if its checksum is right. -/
def modbusRtuCheckIntegrity (msg : List UInt8) : Except Errno (List UInt8) :=
  let crcCalculated := crc16 (msg.take (msg.length - 2))
  let crcReceived : UInt16 :=
    (msg.getD (msg.length - 2) 0).toUInt16 <<< 8 ||| (msg.getD (msg.length - 1) 0).toUInt16
  if crcCalculated = crcReceived then .ok msg else .error .embBadCrc

end Frames

section Receiving

/-- What a read finds on the line; one that finds an empty segment is at the
end of the file.  The bytes come in time: `select` times out only when nothing
is left, not because of a pause between two bytes. -/
inductive Arrival
  | segment (bytes : List UInt8)
  | failed (errno : ℕ)
  deriving DecidableEq

/-- `select` and `recv` of at most `lengthToRead` bytes, and the line after it;
what is left of a segment is read next. -/
def recv (lengthToRead : ℕ) : List Arrival → Except Errno (List UInt8) × List Arrival
  | [] => (.error .etimedout, [])
  | .failed errno :: line => (.error (.system errno), line)
  | .segment [] :: line => (.error .econnreset, line)
  | .segment (b :: bytes) :: line =>
      if (b :: bytes).length ≤ lengthToRead then (.ok (b :: bytes), line)
      else (.ok ((b :: bytes).take lengthToRead),
        .segment ((b :: bytes).drop lengthToRead) :: line)

inductive Step
  | stepFunction
  | stepMeta
  | stepData
  deriving DecidableEq

structure Receiving where
  msg : List UInt8
  step : Step
  lengthToRead : ℕ
  deriving DecidableEq

/-- Of a confirmation. -/
def computeMetaLengthAfterFunction (function : UInt8) : ℕ :=
  if function = 0x05 ∨ function = 0x06 ∨ function = 0x0F ∨ function = 0x10 then 4 else 1

def computeDataLengthAfterMeta (msg : List UInt8) : ℕ :=
  let function := msg.getD 1 0
  (if function ≤ 0x04 ∨ function = 0x11 ∨ function = 0x17 then (msg.getD 2 0).toNat else 0) + 2

/-- The body of the loop after a read that has left nothing to read. -/
def nextStep (r : Receiving) : Except Errno Receiving :=
  match r.step with
  | .stepFunction =>
      .ok { r with
        step := .stepMeta
        lengthToRead := computeMetaLengthAfterFunction (r.msg.getD 1 0) }
  | .stepMeta =>
      let lengthToRead := computeDataLengthAfterMeta r.msg
      if 256 < r.msg.length + lengthToRead then .error .embBadData
      else .ok { r with step := .stepData, lengthToRead := lengthToRead }
  | .stepData => .ok r

def receiveBody (r : Receiving) (bytes : List UInt8) : Except Errno Receiving :=
  let r :=
    { r with msg := r.msg ++ bytes, lengthToRead := r.lengthToRead - bytes.length }
  if r.lengthToRead = 0 then nextStep r else .ok r

/-- `while (length_to_read != 0)`; a round reads a byte or more. -/
def receiveLoop : ℕ → Receiving → List Arrival → Except Errno (List UInt8) × List Arrival
  | 0, _, line => (.error .etimedout, line)
  | fuel + 1, r, line =>
      if r.lengthToRead = 0 then (.ok r.msg, line)
      else
        match recv r.lengthToRead line with
        | (.error e, line) => (.error e, line)
        | (.ok bytes, line) =>
            match receiveBody r bytes with
            | .error e => (.error e, line)
            | .ok r => receiveLoop fuel r line

def Arrival.size : Arrival → ℕ
  | segment bytes => bytes.length
  | failed _ => 0

/-- The confirmation of a request, and the line after it. -/
def receiveMsg (line : List Arrival) : Except Errno (List UInt8) × List Arrival :=
  let (msg, line) := receiveLoop ((line.map Arrival.size).sum + 1) ⟨[], .stepFunction, 2⟩ line
  (msg.bind modbusRtuCheckIntegrity, line)

end Receiving

section Requests

/-- The word at `msg[i]`, high byte first. -/
def wordAt (msg : List UInt8) (i : ℕ) : ℕ := (msg.getD i 0).toNat * 256 + (msg.getD (i + 1) 0).toNat

/-- There is none for a report of the slave's id. -/
def computeResponseLengthFromRequest (req : List UInt8) : Option ℕ :=
  let function := req.getD 1 0
  if function = 0x01 ∨ function = 0x02 then
    let nb := wordAt req 4
    some (1 + (2 + nb / 8 + if nb % 8 ≠ 0 then 1 else 0) + 2)
  else if function = 0x17 ∨ function = 0x03 ∨ function = 0x04 then
    some (1 + (2 + 2 * wordAt req 4) + 2)
  else if function = 0x07 then some (1 + 3 + 2)
  else if function = 0x11 then none
  else some (1 + 5 + 2)

/-- The number of values that is asked for, and that of the reply. -/
def numberOfValues (function : UInt8) (req rsp : List UInt8) : ℕ × ℕ :=
  if function = 0x01 ∨ function = 0x02 then
    (wordAt req 4 / 8 + (if wordAt req 4 % 8 ≠ 0 then 1 else 0), (rsp.getD 2 0).toNat)
  else if function = 0x17 ∨ function = 0x03 ∨ function = 0x04 then
    (wordAt req 4, (rsp.getD 2 0).toNat / 2)
  else if function = 0x0F ∨ function = 0x10 then (wordAt req 4, wordAt rsp 4)
  else if function = 0x11 then ((rsp.getD 2 0).toNat, (rsp.getD 2 0).toNat)
  else (1, 1)

/-- `MODBUS_EXCEPTION_MAX` -/
def modbusExceptionMax : ℕ := 12

/-- The number of values. -/
def checkConfirmation (req rsp : List UInt8) : Except Errno ℕ :=
  let rspLengthComputed := computeResponseLengthFromRequest req
  if rspLengthComputed = some rsp.length ∨ rspLengthComputed = none then
    let function := rsp.getD 1 0
    if function ≠ req.getD 1 0 then .error .embBadData
    else
      let (reqNbValue, rspNbValue) := numberOfValues function req rsp
      if reqNbValue = rspNbValue then .ok rspNbValue else .error .embBadData
  else if rsp.length = 1 + 2 + 2 ∧ ((req.getD 1 0).toNat : ℤ) = (rsp.getD 1 0).toNat - 0x80 then
    let exceptionCode := rsp.getD 2 0
    if exceptionCode.toNat < modbusExceptionMax then .error (.exception exceptionCode)
    else .error .embBadExc
  else .error .embBadData

/-- The return value of `write`, unless it fails. -/
abbrev Written := Except ℕ ℕ

def sendMsg (msg : List UInt8) : Written → Except Errno ℕ
  | .error errno => .error (.system errno)
  | .ok rc => if 0 < rc ∧ rc ≠ msg.length then .error .embBadData else .ok rc

/-- What the requests share after the frame is built: `rc` of the confirmation
and the confirmation, or nothing if `write` returned 0. -/
def exchange (req : List UInt8) (written : Written) (line : List Arrival) :
    Except Errno (Option (ℕ × List UInt8)) × List Arrival :=
  match sendMsg (modbusRtuSendMsgPre req) written with
  | .error e => (.error e, line)
  | .ok rc =>
      if 0 < rc then
        let (rsp, line) := receiveMsg line
        (rsp.bind fun rsp ↦ (checkConfirmation req rsp).map fun rc ↦ some (rc, rsp), line)
      else (.ok none, line)

/-- A request that is built, exchanged, and made into what is returned. -/
def request {α : Type} (req : Except Failure (List UInt8)) (written : Written)
    (line : List Arrival) (result : Option (ℕ × List UInt8) → α) :
    Except Failure α × List Arrival :=
  match req with
  | .error e => (.error e, line)
  | .ok req =>
      let (rsp, line) := exchange req written line
      match rsp with
      | .error e => (.error (.errno e), line)
      | .ok rsp => (.ok (result rsp), line)

def modbusMaxReadRegisters : ℤ := 125

def modbusMaxWriteRegisters : ℤ := 123

/-- The words of a reply with `rc` registers. -/
def registersOf (rc : ℕ) (rsp : List UInt8) : List UInt16 := (List.range rc).map fun i ↦
  (rsp.getD (3 + 2 * i) 0).toUInt16 <<< 8 ||| (rsp.getD (4 + 2 * i) 0).toUInt16

/-- The registers stored into `dest`; `rc` is their number. -/
def readRegisters (ctx : Modbus) (function addr nb : ℤ) (written : Written)
    (line : List Arrival) : Except Failure (List UInt16) × List Arrival :=
  if modbusMaxReadRegisters < nb then (.error (.errno .embMData), line)
  else request (modbusRtuBuildRequestBasis ctx function addr nb) written line fun
    | none => []
    | some (rc, rsp) => registersOf rc rsp

def modbusReadRegisters (ctx : Modbus) (addr nb : ℤ) (written : Written) (line : List Arrival) :
    Except Failure (List UInt16) × List Arrival :=
  if modbusMaxReadRegisters < nb then (.error (.errno .embMData), line)
  else readRegisters ctx 0x03 addr nb written line

def modbusReadInputRegisters (ctx : Modbus) (addr nb : ℤ) (written : Written)
    (line : List Arrival) : Except Failure (List UInt16) × List Arrival :=
  if modbusMaxReadRegisters < nb then (.error (.errno .embMData), line)
  else readRegisters ctx 0x04 addr nb written line

/-- `rc` of a write; it is 0 if `write` returned 0. -/
def rcOf (rsp : Option (ℕ × List UInt8)) : ℕ := (rsp.map Prod.fst).getD 0

def writeSingle (ctx : Modbus) (function addr value : ℤ) (written : Written)
    (line : List Arrival) : Except Failure ℕ × List Arrival :=
  request (modbusRtuBuildRequestBasis ctx function addr value) written line rcOf

def modbusWriteBit (ctx : Modbus) (addr : ℤ) (status : Bool) (written : Written)
    (line : List Arrival) : Except Failure ℕ × List Arrival :=
  writeSingle ctx 0x05 addr (if status then 0xFF00 else 0) written line

def modbusWriteRegister (ctx : Modbus) (addr value : ℤ) (written : Written)
    (line : List Arrival) : Except Failure ℕ × List Arrival :=
  writeSingle ctx 0x06 addr value written line

/-- The request up to its checksum; `src` has `nb` words. -/
def writeRegistersRequest (ctx : Modbus) (addr nb : ℤ) (src : ℕ → UInt16) :
    Except Failure (List UInt8) := do
  let req ← modbusRtuBuildRequestBasis ctx 0x10 addr nb
  return req ++ [byte (nb * 2)] ++ (List.range nb.toNat).flatMap fun i ↦
    [(src i >>> 8).toUInt8, (src i &&& 0xFF).toUInt8]

def modbusWriteRegisters (ctx : Modbus) (addr nb : ℤ) (src : ℕ → UInt16) (written : Written)
    (line : List Arrival) : Except Failure ℕ × List Arrival :=
  if modbusMaxWriteRegisters < nb then (.error (.errno .embMData), line)
  else request (writeRegistersRequest ctx addr nb src) written line rcOf

end Requests

end Libmodbus
