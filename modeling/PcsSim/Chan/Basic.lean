import Mathlib.Data.Rat.Defs
import PcsSim.Lib.CCalls
import PcsSim.Lib.Handles

/-!
# Channels

`chan_start` and `chan_reset` on one channel and the contexts that libmodbus
has handed out.  What the branches of the other modes do is left open; they
leave the context alone.  `modbus_set_debug` writes through its argument.
-/

namespace Chan

inductive Mode
  | unknown
  | serial
  | socketCan
  | tcpservCan
  | modbusRtu
  | modbusTcp
  | di
  | do_
  deriving DecidableEq

def chanModeStr2nbr (szmode : Bytes) : Mode :=
  if szmode = ascii "serial" then .serial
  else if szmode = ascii "socket_can" then .socketCan
  else if szmode = ascii "tcp_can" then .tcpservCan
  else if szmode = ascii "modbus_rtu" then .modbusRtu
  else if szmode = ascii "modbus_tcp" then .modbusTcp
  else if szmode = ascii "di" then .di
  else if szmode = ascii "do" then .do_
  else .unknown

/-- The fields of `struct chan_t` that the modelled functions use. -/
structure Fields where
  szmode : Bytes
  mode : Mode
  ctx : Option ℕ
  started : ℤ
  rstcnt : ℚ
  errcnt : UInt32
  restartTimes : ℤ
  retryTimes : ℤ

structure State where
  ch : Fields
  /-- ghost -/
  lib : Handles

/-- Whether `modbus_new_…` and `modbus_connect` succeed, and what the branches
that open no context return. -/
structure Outcome where
  created : Bool
  connected : Bool
  ret : ℤ

namespace State

def setCtx (s : State) (ctx : Option ℕ) : State := { s with ch := { s.ch with ctx := ctx } }

def setStarted (s : State) (started : ℤ) : State :=
  { s with ch := { s.ch with started := started } }

def modbusFree (s : State) (c : ℕ) : State := { s with lib := s.lib.free c }

/-- `ch->ctx = modbus_new_…` -/
def modbusNew (s : State) (o : Outcome) : State :=
  if o.created then { s.setCtx (some s.lib.next) with lib := s.lib.create } else s.setCtx none

/-- `modbus_connect(ch->ctx)`, as far as it succeeds. -/
def modbusConnected (s : State) (c : ℕ) : State := { s with lib := s.lib.markOpened c }

/-- `if (ch->ctx != NULL) { modbus_close(ch->ctx); modbus_free(ch->ctx); }` -/
def freeHeld (s : State) : State :=
  match s.ch.ctx with
  | none => s
  | some c => s.modbusFree c

end State

def chanStartRtu (o : Outcome) (s : State) : Except Fault (ℤ × State) :=
  let s := (s.freeHeld.setCtx none).modbusNew o
  match s.ch.ctx with
  | none => .error .nullPointer -- modbus_set_debug(ch->ctx, 1)
  | some c =>
    if ¬o.connected then .ok (0, (s.modbusFree c).setCtx none)
    else .ok (0, s.modbusConnected c)

/-- The modes `modbus_rtu_udp` and `modbus_rtu_tcp`. -/
def chanStartRtuOver (retNew retConnect : ℤ) (o : Outcome) (s : State) : ℤ × State :=
  let s := s.modbusNew o
  match s.ch.ctx with
  | none => (retNew, s)
  | some c =>
    if ¬o.connected then (retConnect, s.modbusFree c)
    else (0, s.modbusConnected c)

def chanStartRtuUdp : Outcome → State → ℤ × State := chanStartRtuOver (-3) (-4)

def chanStartRtuTcp : Outcome → State → ℤ × State := chanStartRtuOver (-5) (-6)

def chanStartTcp (o : Outcome) (s : State) : ℤ × State :=
  let s := (s.freeHeld.setCtx none).modbusNew o
  match s.ch.ctx with
  | none => (0, s.setStarted 0)
  | some c =>
    if ¬o.connected then (0, ((s.modbusFree c).setCtx none).setStarted 0)
    else (0, (s.modbusConnected c).setStarted 1)

def chanStart (o : Outcome) (s : State) : Except Fault (ℤ × State) :=
  let s := s.setStarted 0
  if s.ch.mode = .serial ∨ s.ch.mode = .socketCan ∨ s.ch.mode = .tcpservCan then .ok (o.ret, s)
  else if s.ch.mode = .modbusRtu then chanStartRtu o s
  else if s.ch.szmode = ascii "modbus_rtu_udp" then .ok (chanStartRtuUdp o s)
  else if s.ch.szmode = ascii "modbus_rtu_tcp" then .ok (chanStartRtuTcp o s)
  else if s.ch.mode = .modbusTcp then .ok (chanStartTcp o s)
  else if s.ch.mode = .di ∨ s.ch.mode = .do_ then .ok (o.ret, s)
  else .ok (-1, s)

def chanResetTcp (o : Outcome) (s : State) : ℤ × State :=
  let s := { s with ch := { s.ch with rstcnt := s.ch.rstcnt + 1 } }
  let s := s.freeHeld.modbusNew o
  match s.ch.ctx with
  | none => (-1, s)
  | some c =>
    if ¬o.connected then (-2, (s.modbusFree c).setCtx none)
    else (0, s.modbusConnected c)

def chanReset (o : Outcome) (s : State) : ℤ × State :=
  if s.ch.szmode = ascii "modbus_tcp" then chanResetTcp o s else (-10, s)

/-- The channel of a row of the table `chan`, as `chan_init` leaves it before
it starts it. -/
def State.start (szmode : Bytes) (restartTimes retryTimes : ℤ) : State where
  ch :=
    { szmode := szmode, mode := chanModeStr2nbr szmode, ctx := none, started := 0, rstcnt := 0
      errcnt := 0, restartTimes := restartTimes, retryTimes := retryTimes }
  lib := .initial

end Chan
