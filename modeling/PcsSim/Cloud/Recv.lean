import PcsSim.CJson.Parse
import PcsSim.Lib.CCalls
import PcsSim.Mdl
import PcsSim.Mqtt.World

/-!
# Commands from the cloud

`cloudProcRecv` is `cloud_proc_recv`.  The state is what it changes: `MDL`, the
messages handed to `mqtt_queue_txbuf`, and the trees handed to `cJSON_Delete`,
these two in the order of the calls.
-/

namespace Cloud

open CJson Mqtt

structure Env (D : Type) where
  numbers : Numbers D
  szDevName : Bytes
  /-- what `%s` prints for NULL, if anything -/
  nullText : Option Bytes

structure State (D : Type) where
  mdl : Mdl D
  queued : List Element
  deleted : List (CJson D)

def State.setMdl {D : Type} (c : State D) (mdl : Mdl D) : State D := { c with mdl := mdl }

def State.queue {D : Type} (c : State D) (e : Element) : State D :=
  { c with queued := c.queued ++ [e] }

def State.delete {D : Type} (c : State D) (root : CJson D) : State D :=
  { c with deleted := c.deleted ++ [root] }

def State.start : State ℚ where
  mdl := simInit Doubles.rational
  queued := []
  deleted := []

/-- A device named `pcs`, with a library that prints `nullText` for NULL. -/
def Env.pcs (nullText : Option Bytes) : Env ℚ where
  numbers := Numbers.rational
  szDevName := ascii "pcs"
  nullText := nullText

def message (szpayload : Bytes) : Element where
  cmd := 0
  sztopic := ascii "pcs-ctl"
  szpayload := szpayload

variable {D : Type}

/-- `time` is `time(NULL)`. -/
def cloudGetTimezonets (time : Int64) : ℤ := (time * 1000).toInt

def textCommand (env : Env D) (root cmd : CJson D) (mdl : Mdl D) :
    Except Fault (Bytes × Mdl D) := do
  let text ← formatString env.nullText cmd.valuestring
  let szResponse := snprintf 128 (ascii "cloud_proc_recv get cmd:" ++ text)
  let setUab ← strcmpZero cmd.valuestring (ascii "set uab")
  if setUab then do
    let param ← deref (root.getObjectItem (ascii "param"))
    return (szResponse, { mdl with uab := param.valuedouble })
  else
    return (szResponse, mdl)

def setCtnCmd (subCmd : CJson D) : Except Fault Unit := do
  let _ ← strcmpZero subCmd.valuestring (ascii "stdby")
  return ()

/-- Neither the numbers scanned nor the comparisons are used. -/
def meterSendCmd (subCmd : CJson D) : Except Fault Unit := do
  sscanf subCmd.valuestring
  let stdby ← strcmpZero subCmd.valuestring (ascii "stdby")
  if stdby then return ()
  let stop ← strcmpZero subCmd.valuestring (ascii "stop")
  if stop then return ()
  let _ ← strcmpZero subCmd.valuestring (ascii "ready")
  return ()

def procSubCmd (env : Env D) (subCmd : CJson D) : Except Fault Unit := do
  let setCtn ← strcmpZero subCmd.string (ascii "set_ctn_cmd")
  if setCtn then
    setCtnCmd subCmd
  else do
    let meterSend ← strcmpZero subCmd.string (ascii "meter_send_cmd")
    if meterSend then
      meterSendCmd subCmd
    else
      logDbg env.nullText [subCmd.string, subCmd.valuestring]

/-- `cmd` is no text and `subCmd` is its first child. -/
def ctnCommand (env : Env D) (cmd subCmd : CJson D) : Except Fault Bytes := do
  let name ← formatString env.nullText subCmd.string
  let szResponse := snprintf 128 (ascii "ctn cmd " ++ name ++ ascii " received")
  logDbg env.nullText [subCmd.string, cmd.valuestring]
  procSubCmd env subCmd
  return szResponse

/-- One of the quantities of an update, which is only logged. -/
def updateQuantity (env : Env D) (upd : CJson D) (name : Bytes) : Except Fault Unit := do
  let item ← deref (upd.getObjectItem name)
  logDbg env.nullText [item.string]

def update (env : Env D) (upd : CJson D) : Except Fault Unit := do
  logDbg env.nullText [upd.valuestring]
  updateQuantity env upd (ascii "uab")
  updateQuantity env upd (ascii "uca")
  updateQuantity env upd (ascii "ubc")

/-- The branches up to `if (needRespond)`: `szResponse` where that is reached
with `needRespond` set. -/
def procRoot (env : Env D) (root : CJson D) (mdl : Mdl D) :
    Except Fault (Option Bytes × Mdl D) :=
  match root.getObjectItem (ascii "cmd") with
  | some cmd =>
    if cmd.isString then do
      let (szResponse, mdl) ← textCommand env root cmd mdl
      return (some szResponse, mdl)
    else
      match cmd.child.head? with
      | none => return (none, mdl) -- goto JSON_DONE
      | some subCmd => do
        let szResponse ← ctnCommand env cmd subCmd
        return (some szResponse, mdl)
  | none =>
    match root.getObjectItem (ascii "update") with
    | some upd => do
      update env upd
      return (none, mdl)
    | none => return (none, mdl)

def responsePayload (timestamp : ℤ) (szResponse : Bytes) : Bytes :=
  ascii "\x7b\"type\":\"response\",\"timestamp\":" ++ decimal timestamp ++ ascii ",\"data\":\"" ++
    szResponse ++ ascii "\"\x7d"

def respond (env : Env D) (time : Int64) (szResponse : Bytes) (c : State D) :
    Except Fault (State D) := do
  let szpayload ← sprintf 8000 (responsePayload (cloudGetTimezonets time) szResponse)
  let sztopic ← sprintf 128 (env.szDevName ++ ascii "-ctl")
  return c.queue { cmd := cmdMqttSendkv, sztopic := sztopic, szpayload := szpayload }

def respondIfNeeded (env : Env D) (time : Int64) (szResponse : Option Bytes) (c : State D) :
    Except Fault (State D) :=
  match szResponse with
  | some szResponse => respond env time szResponse c
  | none => .ok c

/-- `received` is what `mqtt_dequeue_rxbuf` stored, if it returned 1. -/
def cloudProcRecv (env : Env D) (time : Int64) (received : Option Element) (c : State D) :
    Except Fault (State D) :=
  match received with
  | none => .ok c
  | some e =>
    match parse env.numbers e.szpayload with
    | none => .ok c
    | some root => do
      let r ← procRoot env root c.mdl
      let c ← respondIfNeeded env time r.1 (c.setMdl r.2)
      return c.delete root

end Cloud
