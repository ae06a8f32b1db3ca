import PcsSim.Mqtt.World

/-!
# The MQTT state machine

`mqtt_sm` with what it calls, as the text of the thread.  Logging is left out.
-/

namespace Mqtt

/-! ## One action each -/

abbrev getDev : MqttCode Dev := perform .getDev
abbrev modifyDev (f : Dev → Dev) : MqttCode Unit := perform (.modifyDev f)
def modifySm (f : StateMachine → StateMachine) : MqttCode Unit :=
  modifyDev fun dev ↦ { dev with sm := f dev.sm }
abbrev getSettings : MqttCode Settings := perform .getSettings
/-- `sm_get_timeofday` and `mqtt_get_timeofday`, in milliseconds. -/
abbrev gettimeofday : MqttCode ℚ := perform .gettimeofday
abbrev uuid4 : MqttCode (Bool × Bytes) := perform .uuid4
abbrev sprintf (size : ℕ) (text : Bytes) : MqttCode Unit := perform (.sprintf size text)
abbrev mqttGetTxbufUsed : MqttCode ℤ := perform .mqttGetTxbufUsed
abbrev mqttGetRxbufUsed : MqttCode ℤ := perform .mqttGetRxbufUsed
abbrev mqttGetCmd : MqttCode ℤ := perform .mqttGetCmd
abbrev mqttResetCmd : MqttCode Unit := perform .mqttResetCmd
abbrev getEnable : MqttCode ℤ := perform .getEnable
abbrev getConnlost : MqttCode ℤ := perform .getConnlost
abbrev clearConnlost : MqttCode Unit := perform .clearConnlost
abbrev clientCreate (serverURI clientId : Bytes) : MqttCode Unit :=
  perform (.clientCreate serverURI clientId)
abbrev clientSetCallbacks : MqttCode Unit := perform .clientSetCallbacks
abbrev clientConnect : MqttCode ℤ := perform .clientConnect
abbrev clientSubscribe (topic : Bytes) (qos : ℤ) : MqttCode ℤ :=
  perform (.clientSubscribe topic qos)
abbrev clientDisconnect : MqttCode Unit := perform .clientDisconnect
abbrev clientDestroy : MqttCode Unit := perform .clientDestroy
abbrev publishMessage (topic payload : Bytes) : MqttCode ℤ :=
  perform (.publishMessage topic payload)
abbrev waitForCompletion : MqttCode ℤ := perform .waitForCompletion
/-- ghost: notes what `mqtt_pub` returned for the message. -/
abbrev mqttPubReturned (m : Message) (ret : ℤ) : MqttCode Unit :=
  perform (.mqttPubReturned m ret)
abbrev mqttLockTxbuf : MqttCode Unit := perform .mqttLockTxbuf
abbrev mqttUnlockTxbuf : MqttCode Unit := perform .mqttUnlockTxbuf
abbrev mqttPeekTxbuf : MqttCode (ℤ × Option Message) := perform .mqttPeekTxbuf
abbrev mqttDequeueTxbuf : MqttCode (ℤ × Option Message) := perform .mqttDequeueTxbuf

/-! ## mqtt.c -/

/-- The topic on which commands arrive, `%s-ctl` of the device name. -/
def ctlTopic (szDevName : Bytes) : Bytes := szDevName ++ ascii "-ctl"

/-- What `mqtt_connect` asks of the library, up to the creation of the
client. -/
def mqttConnectCreate (mdl : Settings) (bufUuid : Bytes) : MqttCode Unit := do
  let szclientid := mdl.szDevName ++ ascii "-" ++ decimal mdl.adr ++ ascii "-" ++ bufUuid
  sprintf 150 szclientid
  modifyDev fun dev ↦ { dev with szclientid := szclientid }
  sprintf 32 mdl.szmqttServip
  modifyDev fun dev ↦
    { dev with szservip := mdl.szmqttServip, servport := mdl.mqttServport }
  let buf := mdl.szmqttServip ++ ascii ":" ++ decimal mdl.mqttServport
  sprintf 256 buf
  clientCreate buf szclientid
  clientSetCallbacks

def mqttConnect : MqttCode ℤ := do
  let qos := 2
  let (ok, bufUuid) ← uuid4
  let ret : ℤ := if ok then 0 else -1
  let mdl ← getSettings
  mqttConnectCreate mdl bufUuid
  let rc ← clientConnect
  let ret := if rc ≠ mqttclientSuccess then -1 else ret
  let buf := ctlTopic mdl.szDevName
  sprintf 256 buf
  let rc ← clientSubscribe buf qos
  return if rc ≠ mqttclientSuccess ∧ rc ≠ qos then -2 else ret

/-- The statistics of a message that was delivered at `now`. -/
def Dev.pubDelivered (dev : Dev) (now : ℚ) : Dev :=
  let pubTime := now - dev.pubStarttime
  let totalcnt := dev.pubTotalcnt + 1
  let totaltime := dev.pubTotaltime + pubTime
  let max := if pubTime > dev.pubMax then pubTime else dev.pubMax
  let reset := totalcnt > 1000000
  { dev with
    pubEndtime := now
    pubTotalcnt := if reset then 0 else totalcnt
    pubTotaltime := if reset then 0 else totaltime
    pubAve := if reset then 0 else totaltime / totalcnt
    pubMax := if reset then 0 else max
    pubMaxFailcnt := if dev.pubFailed > dev.pubMaxFailcnt then dev.pubFailed
      else dev.pubMaxFailcnt
    pubTotalFailcnt := dev.pubTotalFailcnt + dev.pubFailed
    pubFailed := 0 }

def Dev.pubFail (dev : Dev) : Dev := { dev with pubFailed := dev.pubFailed + 1 }

def mqttPub (sztopic szpayload : Bytes) : MqttCode ℤ := do
  let starttime ← gettimeofday
  modifyDev fun dev ↦ { dev with pubStarttime := starttime }
  let rc ← publishMessage sztopic szpayload
  if rc ≠ mqttclientSuccess then
    modifyDev Dev.pubFail
    return -2
  else
    let rc ← waitForCompletion
    if rc ≠ mqttclientSuccess then
      modifyDev Dev.pubFail
      return -2
    else
      let endtime ← gettimeofday
      modifyDev fun dev ↦ dev.pubDelivered endtime
      return 0

/-! ## mqtt_sm.c -/

def mqttStates : List CodeText :=
  [⟨smstOffline, ascii "offline"⟩, ⟨smstReady, ascii "ready"⟩]

def mqttErrs : List CodeText :=
  [⟨mqtterrNone, ascii "none"⟩, ⟨mqtterrOfflinePwrup, ascii "pwrup"⟩]

def mqttSmInit (sm : StateMachine) : StateMachine :=
  StateMachine.setState
    { sm.resetTiming 100 25 with states := mqttStates, errs := mqttErrs }
    smstOffline mqtterrOfflinePwrup

/-- `if (dev->cli != NULL) MQTTClient_destroy(&dev->cli);` -/
def destroyHeld : MqttCode Unit := do
  let dev ← getDev
  if dev.cli ≠ none then clientDestroy

def disconnectHeld : MqttCode Unit := do
  let dev ← getDev
  if dev.cli ≠ none then
    clientDisconnect
    clientDestroy

/-- The two connect paths of the offline state, which do the same. -/
def mqttSmTryConnect : MqttCode Unit := do
  let ret ← mqttConnect
  if ret < 0 then
    destroyHeld
    modifySm (·.setCount 0)
  else
    clearConnlost
    modifySm (·.setState smstReady mqtterrNone)

def mqttSmOffline : MqttCode Unit := do
  let dev ← getDev
  if dev.sm.step = 0 then
    mqttResetCmd
    modifySm (·.setStep 10)
  else if dev.sm.step = 10 then
    let cmd ← mqttGetCmd
    if cmd = cmdSmReady then
      mqttResetCmd
      mqttSmTryConnect
    else
      modifySm StateMachine.incCount
      let dev ← getDev
      if dev.sm.count ≥ 10 then
        modifySm (·.setCount 0)
        let enable ← getEnable
        if enable ≠ 0 then mqttSmTryConnect

def mqttSmSend : MqttCode Unit := do
  mqttLockTxbuf
  let (rc, data) ← mqttPeekTxbuf
  mqttUnlockTxbuf
  if rc = 1 then
    -- `e` is left as it was where the peek stores nothing
    let e := data.getD default
    let ret ← mqttPub e.element.sztopic e.element.szpayload
    mqttPubReturned e ret
    if ret = 0 then
      mqttLockTxbuf
      let _ ← mqttDequeueTxbuf
      mqttUnlockTxbuf

def mqttSmReady : MqttCode Unit := do
  let dev ← getDev
  if dev.sm.step = 0 then
    mqttResetCmd
    modifySm (·.setStep 10)
  else if dev.sm.step = 10 then
    let cmd ← mqttGetCmd
    if cmd = cmdSmOffline then
      mqttResetCmd
      disconnectHeld
      modifySm (·.setState smstOffline mqtterrNone)
    else
      let connlost ← getConnlost
      if connlost ≠ 0 then
        destroyHeld
        modifySm (·.setState smstOffline mqtterrNone)
      else
        mqttSmSend

def mqttSm : MqttCode Unit := do
  let now ← gettimeofday
  modifySm (·.calTiming now)
  let used ← mqttGetTxbufUsed
  modifyDev fun dev ↦ { dev with txbufUsage := used / mqttRingBufferSize * 100 }
  let used ← mqttGetRxbufUsed
  modifyDev fun dev ↦ { dev with rxbufUsage := used / mqttRingBufferSize * 100 }
  let dev ← getDev
  if dev.sm.state = smstOffline then mqttSmOffline
  else if dev.sm.state = smstReady then mqttSmReady

/-! ## The running system -/

/-- What `mqtt_thrd_main` does before its loop. -/
def Dev.thrdMain (dev : Dev) : Dev :=
  { dev with
    pubTotalcnt := 0
    pubTotaltime := 0
    pubAve := 0
    pubMax := 0
    sm := mqttSmInit dev.sm }

/-- The zero-initialised `MDL` with the settings `mdl`, after the start of
`mqtt_thrd_main`; the arrays of the two ring buffers hold anything. -/
def World.start (mdl : Settings) (tx : RingBuffer Message) (rx : RingBuffer Element) : World where
  mdl := mdl
  owned :=
    { dev := Dev.thrdMain
        { cli := none, szservip := [], servport := 0, szclientid := [], token := 0
          txbufUsage := 0, rxbufUsage := 0, pubStarttime := 0, pubEndtime := 0
          pubTotaltime := 0, pubTotalcnt := 0, pubMax := 0, pubAve := 0, pubFailed := 0
          pubTotalFailcnt := 0, pubMaxFailcnt := 0
          sm :=
            { states := [], errs := [], state := 0, szstate := [], step := 0, count := 0
              szerrcode := [], tick := 0, tickTimer := 0, tickPrd := 0, timingTimer := 0
              timingPrd := 0, timingTslastrun := 0, timingTotalcnt := 0
              timingTotaltime := 0, timingAve := 0, timingMax := 0, timingCur := 0 } }
      lib := { next := 0, connected := [], subscribed := [], destroyed := [] }
      phase := .idle, handed := ([], []), published := [], dequeued := [] }
  cmd := cmdSmDone
  enable := 1
  connlost := 0
  lost := []
  txbuf := mqttRingbufferInit tx
  txbufMutex := none
  rxbuf := mqttRingbufferInit rx
  enqueued := []
  evicted := []
  evictedSincePeek := false

def systemWith {ε : Type} (env : ε → World → Option World) :
    Threads.System Op Op.Reply World Outcome ε :=
  ⟨exec, env, mqttSm⟩

/-- The thread with the other threads of the program. -/
def system : Threads.System Op Op.Reply World Outcome Event := systemWith env

abbrev Config := Threads.Config Op Op.Reply World

def Config.start (mdl : Settings) (tx : RingBuffer Message) (rx : RingBuffer Element) : Config :=
  ⟨.done (), .start mdl tx rx⟩

/-! ## A device whose calls all succeed -/

def steps {ε : Type} (n : ℕ) : List (Threads.Label Outcome ε) :=
  .replicate n (.own ⟨mqttclientSuccess, true, .replicate 36 0x61, 0, 1⟩)

/-- A device named `pcs` that talks to a broker on the same machine, before its
first round. -/
def Config.local : Config :=
  .start ⟨ascii "pcs", 1, ascii "127.0.0.1", 1883⟩ ⟨fun _ ↦ default, 0, 0⟩
    ⟨fun _ ↦ default, 0, 0⟩

end Mqtt
