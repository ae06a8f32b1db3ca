import PcsSim.CJson.Parse
import PcsSim.Lib.CCalls
import PcsSim.Mqtt.World

/-!
# Commands from ThingsBoard

`tbProcRecv` is `tb_proc_recv`.  The elements of its buffers have the fields
of those of the MQTT buffers.
-/

namespace Tb

open CJson Mqtt

structure State (D : Type) where
  tbLock : ℤ
  tbLockTimer : ℤ
  tbLockIntv : ℤ
  /-- the static `init` of `tb_proc_recv` -/
  init : ℤ
  tmpaps : ℤ
  tmpapsReceived : ℤ
  /-- the messages handed to `tbmqtt_queue_txbuf` -/
  queued : List Element
  /-- the trees handed to `cJSON_Delete` -/
  deleted : List (CJson D)

variable {D : Type}

/-- After `tb_init`. -/
def tbInit : State D where
  tbLock := 1
  tbLockTimer := 0
  tbLockIntv := 15
  init := 0
  tmpaps := 0
  tmpapsReceived := 0
  queued := []
  deleted := []

def tbUpdateAttributes (payload : Bytes) (dev : State D) : State D :=
  { dev with
    queued := dev.queued ++ [{
      cmd := cmdMqttSendkv
      sztopic := ascii "v1/devices/me/attributes"
      szpayload := ascii "\x7b" ++ payload ++ ascii "\x7d" }] }

def announce (dev : State D) : State D :=
  if dev.init = 0 then tbUpdateAttributes (ascii "'TbLock':true") { dev with init := 1 } else dev

/-- Unlocked, it counts the calls and locks again. -/
def relock (dev : State D) : State D :=
  if dev.tbLock = 0 then
    if dev.tbLockTimer ≥ dev.tbLockIntv then
      tbUpdateAttributes (ascii "'TbLock':true") { dev with tbLockTimer := 0, tbLock := 1 }
    else { dev with tbLockTimer := dev.tbLockTimer + 1 }
  else dev

def setLock (nullText : Option Bytes) (root : CJson D) (dev : State D) :
    Except Fault (State D) :=
  match root.getObjectItem (ascii "params") with
  | none => .ok dev
  | some item => do
    logDbg nullText [item.valuestring]
    let lock ← strcmpZero item.valuestring (ascii "lock")
    return { dev with tbLock := if lock then 1 else 0 }

def setAps (root : CJson D) (dev : State D) : State D :=
  match root.getObjectItem (ascii "params") with
  | none => dev
  | some item => { dev with tmpaps := item.valueint, tmpapsReceived := 1 }

def unlockedMethod (nullText : Option Bytes) (root item : CJson D) (dev : State D) :
    Except Fault (State D) := do
  let stdby ← strcmpZero item.valuestring (ascii "stdby")
  if stdby then
    return dev
  else do
    let aps ← strcmpZero item.valuestring (ascii "set_aps")
    if aps then
      return setAps root dev
    else do
      logDbg nullText [item.valuestring]
      return dev

def procMethod (nullText : Option Bytes) (root item : CJson D) (dev : State D) :
    Except Fault (State D) := do
  logDbg nullText [item.valuestring]
  let lock ← strcmpZero item.valuestring (ascii "set_lock")
  if lock then
    setLock nullText root dev
  else if dev.tbLock ≠ 0 then
    return dev
  else
    unlockedMethod nullText root item dev

def procRoot (nullText : Option Bytes) (root : CJson D) (dev : State D) :
    Except Fault (State D) :=
  match root.getObjectItem (ascii "method") with
  | none => .ok dev
  | some item => procMethod nullText root item dev

/-- `received` is what `tbmqtt_dequeue_rxbuf` stored, if it returned 1. -/
def tbProcRecv (numbers : Numbers D) (nullText : Option Bytes) (received : Option Element)
    (dev : State D) : Except Fault (State D) :=
  let dev := relock (announce dev)
  match received with
  | none => .ok dev
  | some e =>
    match parse numbers e.szpayload with
    | none => .ok dev
    | some root => do
      let dev ← procRoot nullText root dev
      return { dev with deleted := dev.deleted ++ [root] }

end Tb
