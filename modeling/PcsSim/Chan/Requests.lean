import PcsSim.Libmodbus.Session

/-!
# The operations of a channel

Five functions of `chan.c` make one request each, of the slave of their
argument.  They take the result of `modbus_set_slave` for granted, and report
a broadcast as a failure.  Their registers and numbers of registers are `int`s,
here only those of 16 bits without a sign; the slave is any `int`.
-/

namespace Chan

open Libmodbus (Modbus Op Written Arrival Failure Brings End AtRest addressed serve byte
  modbusSetSlave)
open Mbs (Tables SlaveState PollInput Delivers Quiet)

variable {D : Type} {ops : Doubles D}

/-- What the requests use of `chan[idx]`. -/
structure Client where
  ctx : Option Modbus
  errcnt : UInt32

/-- What has come and is not read is discarded. -/
def modbusFlush (_line : List Arrival) : List Arrival := []

/-- The context after `modbus_set_slave`, whatever that returns. -/
def setSlave (ctx : Modbus) (slaveaddr : ℤ) : Modbus :=
  match modbusSetSlave ctx slaveaddr with
  | .ok ctx => ctx
  | .error _ => ctx

/-- The channel, `ret` and what is stored, and the line after it. -/
abbrev Request :=
  Written → Client → List Arrival → Except Failure (Client × ℤ × List UInt16) × List Arrival

/-- What the operations share; `good` is their check of `rc`. -/
def makeRequest (slaveaddr : ℤ) (op : Op) (good : ℕ → Bool) (fail : ℤ) : Request :=
  fun written ch line ↦
  match ch.ctx with
  | none => (.ok (ch, -1, []), line)
  | some ctx =>
      let ctx := setSlave ctx slaveaddr
      let (result, line) := op.run ctx written line
      let line := modbusFlush line
      match result with
      | .error .assertion => (.error .assertion, line)
      | .error (.errno _) => (.ok (⟨some ctx, ch.errcnt + 1⟩, fail, []), line)
      | .ok (rc, dest) =>
          if good rc then (.ok (⟨some ctx, ch.errcnt⟩, 0, dest), line)
          else (.ok (⟨some ctx, ch.errcnt + 1⟩, fail, dest), line)

def chanWriteSingleRegister (slaveaddr : ℤ) (regaddr regval : UInt16) : Request :=
  makeRequest slaveaddr (.write regaddr regval) (fun rc ↦ rc = 1) (-3)

def chanWriteMultiRegisters (slaveaddr : ℤ) (regaddr nb : UInt16) (regval : ℕ → UInt16) : Request :=
  makeRequest slaveaddr (.writes regaddr nb regval) (fun rc ↦ rc = nb.toNat) (-2)

def chanReadInputRegisters (slaveaddr : ℤ) (regaddr nb : UInt16) : Request :=
  makeRequest slaveaddr (.readInput regaddr nb) (fun rc ↦ rc = nb.toNat) (-2)

def chanWriteBit (slaveaddr : ℤ) (addr : UInt16) (status : Bool) : Request :=
  makeRequest slaveaddr (.writeBit addr status) (fun rc ↦ ¬rc ≤ 0) (-2)

def chanReadHoldingregisters (slaveaddr : ℤ) (regaddr nb : UInt16) : Request :=
  makeRequest slaveaddr (.read regaddr nb) (fun rc ↦ rc = nb.toNat) (-2)

/-- An operation and the slave that it is for. -/
def call (slaveaddr : ℤ) : Op → Request
  | .read a n => chanReadHoldingregisters slaveaddr a n
  | .readInput a n => chanReadInputRegisters slaveaddr a n
  | .write a value => chanWriteSingleRegister slaveaddr a value
  | .writeBit a status => chanWriteBit slaveaddr a status
  | .writes a n src => chanWriteMultiRegisters slaveaddr a n src

/-- What is returned for a request that fails. -/
def fail : Op → ℤ
  | .write _ _ => -3
  | _ => -2

def good : Op → ℕ → Bool
  | .read _ n, rc => rc = n.toNat
  | .readInput _ n, rc => rc = n.toNat
  | .write _ _, rc => rc = 1
  | .writeBit _ _, rc => ¬rc ≤ 0
  | .writes _ n _, rc => rc = n.toNat

section Slaves

/-- A slave has been set. -/
def SlaveSet (ctx : Modbus) : Prop := 0 ≤ ctx.slave ∧ ctx.slave ≤ 254

theorem setSlave_slave (ctx : Modbus) (slaveaddr : ℤ) : (setSlave ctx slaveaddr).slave =
    if 0 ≤ slaveaddr ∧ slaveaddr ≤ 254 then slaveaddr else ctx.slave := by
  unfold setSlave modbusSetSlave
  split_ifs <;> rfl

theorem set_setSlave {ctx : Modbus} (h : SlaveSet ctx) (slaveaddr : ℤ) :
    SlaveSet (setSlave ctx slaveaddr) := by
  unfold SlaveSet
  rw [setSlave_slave]
  split_ifs with hvalid
  · exact hvalid
  · exact h

end Slaves

section Serving

/-- A call, with the slave that hears what is sent and replies on the line. -/
inductive Calls (ops : Doubles D) :
    Client × End D → ℤ × Op → Client × End D → ℤ × List UInt16 → Prop
  | unsent {ch ch' : Client} {slaveaddr : ℤ} {op : Op} {s : SlaveState D}
      {line line' : List Arrival} {written : Written} {ret : ℤ} {dest : List UInt16}
      (h : ch.ctx = none ∨ op.TooMany)
      (hcall : call slaveaddr op written ch line = (.ok (ch', ret, dest), line')) :
      Calls ops (ch, s, line) (slaveaddr, op) (ch', s, line') (ret, dest)
  | sent {ch ch' : Client} {ctx : Modbus} {slaveaddr : ℤ} {op : Op} {adr : UInt8}
      {s s' : SlaveState D} {line line' reply : List Arrival} {written : List UInt8}
      {inputs quiet : List PollInput} {ret : ℤ} {dest : List UInt16} (hctx : ch.ctx = some ctx)
      (h : ¬op.TooMany) (hadr : adr = byte (setSlave ctx slaveaddr).slave)
      (hdelivers : Delivers (op.frame adr) inputs) (hquiet : Quiet quiet)
      (hfour : 4 ≤ quiet.length) (hpolls : Mbs.polls ops s (inputs ++ quiet) = .ok (s', written))
      (hreply : Brings written reply)
      (hcall : call slaveaddr op (.ok (op.frame adr).length) ch (line ++ reply) =
        (.ok (ch', ret, dest), line')) :
      Calls ops (ch, s, line) (slaveaddr, op) (ch', s', line') (ret, dest)

variable {t t' : Tables D} {own adr : UInt8} {op : Op}

variable {ch ch' : Client} {ctx : Modbus} {slaveaddr : ℤ}

/-- The slave of a channel, unless none has been set. -/
def Client.Set (ch : Client) : Prop := ∀ ctx, ch.ctx = some ctx → SlaveSet ctx

theorem Client.Set.setSlave (h : ch.Set) (hctx : ch.ctx = some ctx) (slaveaddr : ℤ)
    (errcnt : UInt32) : Client.Set ⟨some (setSlave ctx slaveaddr), errcnt⟩ := by
  rintro ctx' hctx'
  cases hctx'
  exact set_setSlave (h ctx hctx) slaveaddr

end Serving

end Chan
