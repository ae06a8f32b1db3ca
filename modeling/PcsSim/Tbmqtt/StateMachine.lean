import PcsSim.Mqtt.StateMachine

/-!
# The ThingsBoard state machine

The thread of `tbmqtt_thrd_main` runs `tbmqtt_sm` for ever.  It is a copy of
the MQTT thread with a record of its own.  What the other threads do to the
shared part of the state is left open, so the mutexes need no state.
-/

namespace Tbmqtt

open Mqtt (smstOffline smstReady cmdSmDone cmdSmOffline cmdSmReady mqttclientSuccess
  mqttclientFailure Element ClientId Library Outcome)

def tbmqtterrNone : ℤ := 0
def tbmqtterrOfflinePwrup : ℤ := 1

/-- What `tbmqtt_init` reads from the table `tbmqtt`. -/
structure Settings where
  szservip : Bytes
  servport : ℤ
  szclientid : Bytes

/-- The fields of `struct tbmqtt_t` that only the thread writes. -/
structure Dev where
  cli : Option ClientId
  token : ℤ
  txbufUsage : ℚ
  rxbufUsage : ℚ
  pubStarttime : ℚ
  pubEndtime : ℚ
  pubTotalTime : ℚ
  pubTotalCnt : ℚ
  pubFailed : ℤ
  pubTotalFailcnt : ℚ
  pubMaxFailcnt : ℚ
  pubMax : ℚ
  pubAvg : ℚ
  sm : StateMachine

structure Owned where
  dev : Dev
  lib : Library

structure World where
  settings : Settings
  owned : Owned
  cmd : ℤ
  enable : ℤ
  connlost : ℤ
  txbuf : RingBuffer Element
  rxbuf : RingBuffer Element

def World.setOwned (w : World) (k : Owned) : World := { w with owned := k }

@[simp] theorem World.owned_setOwned (w : World) (k : Owned) : (w.setOwned k).owned = k := rfl

/-! ## The actions of the thread -/

/-- What is passed as the first argument of `MQTTClient_create`. -/
inductive Handle
  /-- `&dev->cli` -/
  | addressOfCli
  /-- a client, or NULL, taken for an address -/
  | value (p : Option ClientId)

inductive Op
  | getDev
  | modifyDev (f : Dev → Dev)
  | getSettings
  | gettimeofday
  | getTxbufUsed
  | getRxbufUsed
  | getCmd
  | resetCmd
  | getEnable
  | getConnlost
  | setConnlost (val : ℤ)
  | clientCreate (handle : Handle) (serverURI clientId : Bytes)
  | clientSetCallbacks
  | clientConnect
  | clientSubscribe (topic : Bytes) (qos : ℤ)
  | clientDisconnect
  | clientDestroy
  | publishMessage (topic payload : Bytes)
  | waitForCompletion
  | lockTxbuf
  | unlockTxbuf
  | peekTxbuf
  | dequeueTxbuf

@[reducible] def Op.Reply : Op → Type
  | .getDev => Dev
  | .getSettings => Settings
  | .gettimeofday => ℚ
  | .getTxbufUsed | .getRxbufUsed | .getCmd | .getEnable | .getConnlost => ℤ
  | .clientCreate .. | .clientConnect | .clientSubscribe .. => ℤ
  | .publishMessage .. | .waitForCompletion => ℤ
  | .peekTxbuf | .dequeueTxbuf => ℤ × Option Element
  | _ => Unit

namespace Owned

def modifyDev (k : Owned) (f : Dev → Dev) : Owned := { k with dev := f k.dev }

def modifySm (k : Owned) (f : StateMachine → StateMachine) : Owned :=
  k.modifyDev fun dev ↦ { dev with sm := f dev.sm }

/-- A fresh client in `dev->cli`. -/
def clientCreate (k : Owned) : Owned where
  dev := { k.dev with cli := some k.lib.next }
  lib := { k.lib with next := k.lib.next + 1 }

def clientConnect (k : Owned) (c : ClientId) (rc : ℤ) : Owned :=
  if rc = mqttclientSuccess then
    { k with lib := { k.lib with connected := c :: k.lib.connected } }
  else k

def clientSubscribe (k : Owned) (c : ClientId) (qos rc : ℤ) : Owned :=
  if rc = mqttclientSuccess ∨ rc = qos then
    { k with lib := { k.lib with subscribed := c :: k.lib.subscribed } }
  else k

def clientDestroy (k : Owned) : Owned where
  dev := { k.dev with cli := none }
  lib := { k.lib with destroyed := k.dev.cli.toList ++ k.lib.destroyed }

end Owned

/-- An action that cannot be performed has no result: a client created through
what is not the address of a handle, a call that dereferences a null client. -/
def exec : (op : Op) → Outcome → World → Option (op.Reply × World)
  | .getDev, _, w => some (w.owned.dev, w)
  | .modifyDev f, _, w => some ((), w.setOwned (w.owned.modifyDev f))
  | .getSettings, _, w => some (w.settings, w)
  | .gettimeofday, i, w => some (i.clock, w)
  | .getTxbufUsed, _, w => some (tbmqttRingbufferNumItems w.txbuf, w)
  | .getRxbufUsed, _, w => some (tbmqttRingbufferNumItems w.rxbuf, w)
  | .getCmd, _, w => some (w.cmd, w)
  | .resetCmd, _, w => some ((), { w with cmd := cmdSmDone })
  | .getEnable, _, w => some (w.enable, w)
  | .getConnlost, _, w => some (w.connlost, w)
  | .setConnlost val, _, w => some ((), { w with connlost := val })
  | .clientCreate handle _ _, i, w =>
      if i.rc = mqttclientSuccess then
        match handle with
        | .addressOfCli => some (i.rc, w.setOwned w.owned.clientCreate)
        | .value _ => none
      else some (i.rc, w)
  | .clientSetCallbacks, _, w => some ((), w)
  | .clientConnect, i, w =>
      w.owned.dev.cli.map fun c ↦ (i.rc, w.setOwned (w.owned.clientConnect c i.rc))
  | .clientSubscribe _ qos, i, w =>
      w.owned.dev.cli.map fun c ↦ (i.rc, w.setOwned (w.owned.clientSubscribe c qos i.rc))
  | .clientDisconnect, _, w => some ((), w)
  | .clientDestroy, _, w => some ((), w.setOwned w.owned.clientDestroy)
  | .publishMessage _ _, i, w =>
      w.owned.dev.cli.map fun _ ↦
        (i.rc, w.setOwned (w.owned.modifyDev fun dev ↦ { dev with token := i.token }))
  | .waitForCompletion, i, w =>
      some (if w.owned.dev.cli = none then mqttclientFailure else i.rc, w)
  | .lockTxbuf, _, w => some ((), w)
  | .unlockTxbuf, _, w => some ((), w)
  | .peekTxbuf, _, w => some (tbmqttRingbufferPeek w.txbuf 0, w)
  | .dequeueTxbuf, _, w =>
      let (txbuf, r) := tbmqttRingbufferDequeue w.txbuf
      some (r, { w with txbuf := txbuf })

/-! ## The actions of the others -/

inductive Event
  | tbmqttSendSmCmd (cmd : ℤ)
  | setEnable (val : ℤ)
  | setConnlost (val : ℤ)
  | setTxbuf (b : RingBuffer Element)
  | setRxbuf (b : RingBuffer Element)

def env : Event → World → Option World
  | .tbmqttSendSmCmd cmd, w => some { w with cmd := cmd }
  | .setEnable val, w => some { w with enable := val }
  | .setConnlost val, w => some { w with connlost := val }
  | .setTxbuf b, w => some { w with txbuf := b }
  | .setRxbuf b, w => some { w with rxbuf := b }

abbrev TbmqttCode := Threads.Code Op Op.Reply

abbrev perform (op : Op) : TbmqttCode op.Reply := .perform op

abbrev modifyDev (f : Dev → Dev) : TbmqttCode Unit := perform (.modifyDev f)

def modifySm (f : StateMachine → StateMachine) : TbmqttCode Unit :=
  modifyDev fun dev ↦ { dev with sm := f dev.sm }

/-! ## tbmqtt.c -/

def tbmqttConnect : TbmqttCode ℤ := do
  let qos := 2
  let settings ← perform .getSettings
  let buf := ascii "tcp://" ++ settings.szservip ++ ascii ":" ++ decimal settings.servport
  let mqtt ← perform .getDev
  let rc ← perform (.clientCreate (.value mqtt.cli) buf settings.szclientid)
  if rc ≠ mqttclientSuccess then return -1
  else
    perform .clientSetCallbacks
    let rc ← perform .clientConnect
    if rc ≠ mqttclientSuccess then return -1
    else
      let rc ← perform (.clientSubscribe (ascii "v1/devices/me/rpc/request/+") qos)
      return if rc ≠ mqttclientSuccess ∧ rc ≠ qos then -2 else 0

/-- The statistics of a message that was delivered at `now`. -/
def Dev.pubDelivered (dev : Dev) (now : ℚ) : Dev :=
  let pubTime := now - dev.pubStarttime
  let totalCnt := dev.pubTotalCnt + 1
  let totalTime := dev.pubTotalTime + pubTime
  let max := if pubTime > dev.pubMax then pubTime else dev.pubMax
  let reset := totalCnt > 1000000
  { dev with
    pubEndtime := now
    pubTotalCnt := if reset then 0 else totalCnt
    pubTotalTime := if reset then 0 else totalTime
    pubAvg := if reset then 0 else totalTime / totalCnt
    pubMax := if reset then 0 else max
    pubMaxFailcnt := if dev.pubFailed > dev.pubMaxFailcnt then dev.pubFailed
      else dev.pubMaxFailcnt
    pubTotalFailcnt := dev.pubTotalFailcnt + dev.pubFailed
    pubFailed := 0 }

def Dev.pubFail (dev : Dev) : Dev := { dev with pubFailed := dev.pubFailed + 1 }

def tbmqttPub (sztopic szpayload : Bytes) : TbmqttCode ℤ := do
  let starttime ← perform .gettimeofday
  modifyDev fun dev ↦ { dev with pubStarttime := starttime }
  let rc ← perform (.publishMessage sztopic szpayload)
  if rc ≠ mqttclientSuccess then
    modifyDev Dev.pubFail
    return -1
  else
    let rc ← perform .waitForCompletion
    if rc ≠ mqttclientSuccess then
      modifyDev Dev.pubFail
      return -2
    else
      let endtime ← perform .gettimeofday
      modifyDev fun dev ↦ dev.pubDelivered endtime
      return 0

/-! ## tbmqtt_sm.c -/

def tbmqttStates : List CodeText :=
  [⟨smstOffline, ascii "offline"⟩, ⟨smstReady, ascii "ready"⟩]

def tbmqttErrs : List CodeText :=
  [⟨tbmqtterrNone, ascii "none"⟩, ⟨tbmqtterrOfflinePwrup, ascii "pwrup"⟩]

def tbmqttSmInit (sm : StateMachine) : StateMachine :=
  StateMachine.setState
    { sm.resetTiming 20 20 with states := tbmqttStates, errs := tbmqttErrs }
    smstOffline tbmqtterrOfflinePwrup

/-- `if (dev->cli != NULL) MQTTClient_destroy(&dev->cli);` -/
def destroyHeld : TbmqttCode Unit := do
  let dev ← perform .getDev
  if dev.cli ≠ none then perform .clientDestroy

def disconnectHeld : TbmqttCode Unit := do
  let dev ← perform .getDev
  if dev.cli ≠ none then
    perform .clientDisconnect
    perform .clientDestroy

/-- The two connect paths of the offline state, which do the same. -/
def tbmqttSmTryConnect : TbmqttCode Unit := do
  let ret ← tbmqttConnect
  if ret < 0 then
    destroyHeld
    perform (.setConnlost 1)
    modifySm (·.setCount 0)
  else
    perform (.setConnlost 0)
    modifySm (·.setState smstReady tbmqtterrNone)

def tbmqttSmOffline : TbmqttCode Unit := do
  let dev ← perform .getDev
  if dev.sm.step = 0 then
    perform .resetCmd
    modifySm (·.setStep 10)
    modifySm (·.setCount 0)
  else if dev.sm.step = 10 then
    let cmd ← perform .getCmd
    if cmd = cmdSmReady then
      perform .resetCmd
      tbmqttSmTryConnect
    else
      modifySm StateMachine.incCount
      let dev ← perform .getDev
      if dev.sm.count ≥ 2000 then
        modifySm (·.setCount 0)
        let enable ← perform .getEnable
        if enable ≠ 0 then tbmqttSmTryConnect

def tbmqttSmSend : TbmqttCode Unit := do
  perform .lockTxbuf
  let (rc, data) ← perform .peekTxbuf
  perform .unlockTxbuf
  if rc = 1 then
    -- `e` is left as it was where the peek stores nothing
    let e := data.getD default
    let ret ← tbmqttPub e.sztopic e.szpayload
    if ret = 0 then
      perform .lockTxbuf
      let _ ← perform .dequeueTxbuf
      perform .unlockTxbuf

def tbmqttSmReady : TbmqttCode Unit := do
  let dev ← perform .getDev
  if dev.sm.step = 0 then
    perform .resetCmd
    modifySm (·.setStep 10)
  else if dev.sm.step = 10 then
    let cmd ← perform .getCmd
    if cmd = cmdSmOffline then
      perform .resetCmd
      disconnectHeld
      modifySm (·.setState smstOffline tbmqtterrNone)
    else
      let connlost ← perform .getConnlost
      if connlost ≠ 0 then
        destroyHeld
        modifySm (·.setState smstOffline tbmqtterrNone)
      else
        tbmqttSmSend

def tbmqttSm : TbmqttCode Unit := do
  let now ← perform .gettimeofday
  modifySm (·.calTiming now)
  let used ← perform .getTxbufUsed
  modifyDev fun dev ↦ { dev with txbufUsage := used / tbmqttRingbufferSIZE * 100 }
  let used ← perform .getRxbufUsed
  modifyDev fun dev ↦ { dev with rxbufUsage := used / tbmqttRingbufferSIZE * 100 }
  let dev ← perform .getDev
  if dev.sm.state = smstOffline then tbmqttSmOffline
  else if dev.sm.state = smstReady then tbmqttSmReady

/-! ## The running system -/

def system : Threads.System Op Op.Reply World Outcome Event := ⟨exec, env, tbmqttSm⟩

abbrev Config := Threads.Config Op Op.Reply World

/-- The zero-initialised `tbmqtt` with the settings read, after
`tbmqtt_sm_init`. -/
def Config.start (settings : Settings) (tx rx : RingBuffer Element) : Config where
  code := .done ()
  state :=
    { settings := settings
      owned :=
        { dev :=
            { cli := none, token := 0, txbufUsage := 0, rxbufUsage := 0, pubStarttime := 0
              pubEndtime := 0, pubTotalTime := 0, pubTotalCnt := 0, pubFailed := 0
              pubTotalFailcnt := 0, pubMaxFailcnt := 0, pubMax := 0, pubAvg := 0
              sm := tbmqttSmInit
                { states := [], errs := [], state := 0, szstate := [], step := 0, count := 0
                  szerrcode := [], tick := 0, tickTimer := 0, tickPrd := 0, timingTimer := 0
                  timingPrd := 0, timingTslastrun := 0, timingTotalcnt := 0
                  timingTotaltime := 0, timingAve := 0, timingMax := 0, timingCur := 0 } }
          lib := { next := 0, connected := [], subscribed := [], destroyed := [] } }
      cmd := 0, enable := 0, connlost := 0, txbuf := tx, rxbuf := rx }

end Tbmqtt
