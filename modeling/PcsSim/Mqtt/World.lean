import Mathlib.Data.Rat.Defs
import PcsSim.Lib.Threads
import PcsSim.RingBuffer.Basic
import PcsSim.StateMachine.Sm

/-!
# The MQTT thread and what is around it

The thread of `mqtt_thrd_main` runs `mqtt_sm` for ever.  Around it are the
producers of the transmit buffer, which lock, queue and unlock, the threads
that post commands and set `enable`, and the callbacks of the MQTT library.

`World` is the state they share.  `Owned` is the part that only the thread
writes.  `Op` lists the atomic actions of the thread and `Event` those of the
others.  Fields marked ghost are not in the program: they record the history
that the properties speak of, and no action looks at them.
-/

namespace Mqtt

def smstOffline : ℤ := 11
def smstReady : ℤ := 19

def cmdSmDone : ℤ := 0
def cmdSmOffline : ℤ := 1
def cmdSmReady : ℤ := 9

def mqtterrNone : ℤ := 0
def mqtterrOfflinePwrup : ℤ := 1

def cmdMqttSendkv : ℤ := 802

def mqttclientSuccess : ℤ := 0
def mqttclientFailure : ℤ := -1

/-- The fields of `mqtt_ringbuffer_element_t` that the program uses. -/
structure Element where
  cmd : ℤ
  sztopic : Bytes
  szpayload : Bytes
  deriving DecidableEq, Inhabited

/-- An element and, as a ghost, the number of its enqueue, which is copied
along with it. -/
structure Message where
  serial : ℕ
  element : Element
  deriving DecidableEq, Inhabited

def Message.texts (m : Message) : Bytes × Bytes := (m.element.sztopic, m.element.szpayload)

/-- The library hands out a fresh client for each `MQTTClient_create`. -/
abbrev ClientId := ℕ

structure Settings where
  szDevName : Bytes
  adr : ℤ
  szmqttServip : Bytes
  mqttServport : ℤ

/-- The fields of `struct mqtt_t` that only the thread writes. -/
structure Dev where
  cli : Option ClientId
  szservip : Bytes
  servport : ℤ
  szclientid : Bytes
  token : ℤ
  txbufUsage : ℚ
  rxbufUsage : ℚ
  pubStarttime : ℚ
  pubEndtime : ℚ
  pubTotaltime : ℚ
  pubTotalcnt : ℚ
  pubMax : ℚ
  pubAve : ℚ
  pubFailed : ℤ
  pubTotalFailcnt : ℚ
  pubMaxFailcnt : ℚ
  sm : StateMachine

/-- The clients of the library: those below `next` have been created. -/
structure Library where
  next : ClientId
  connected : List ClientId
  subscribed : List ClientId
  destroyed : List ClientId

/-- How far the thread is with the message it has peeked. -/
inductive Phase
  | idle
  | peeked (m : Message)
  | published (m : Message)

structure Owned where
  dev : Dev
  lib : Library
  /-- ghost -/
  phase : Phase
  /-- ghost: the texts that `MQTTClient_publishMessage` was given last -/
  handed : Bytes × Bytes
  /-- ghost: the messages for which `mqtt_pub` returned 0, in that order, with
  the texts that the library was given -/
  published : List Message
  /-- ghost: the messages removed by `mqtt_dequeue_txbuf`, in that order -/
  dequeued : List Message

inductive Holder
  | sm
  | producer (i : ℕ)
  deriving DecidableEq

structure World where
  mdl : Settings
  owned : Owned
  cmd : ℤ
  enable : ℤ
  connlost : ℤ
  /-- ghost: the clients for which `mqtt_connlost` has been called -/
  lost : List ClientId
  txbuf : RingBuffer Message
  txbufMutex : Option Holder
  rxbuf : RingBuffer Element
  /-- ghost: the messages queued, in that order -/
  enqueued : List Message
  /-- ghost: the messages overwritten by an enqueue into the full buffer -/
  evicted : List Message
  /-- ghost: a message has been evicted since the last peek -/
  evictedSincePeek : Bool

namespace World

def setOwned (w : World) (k : Owned) : World := { w with owned := k }

@[simp] theorem owned_setOwned (w : World) (k : Owned) : (w.setOwned k).owned = k := rfl

def mqttQueueTxbuf (w : World) (data : Element) : World :=
  let m : Message := ⟨w.enqueued.length, data⟩
  let full := mqttRingbufferIsFull w.txbuf ≠ 0
  { w with
    txbuf := mqttRingbufferQueue w.txbuf m
    enqueued := w.enqueued ++ [m]
    evicted := if full then w.evicted ++ (mqttRingbufferPeek w.txbuf 0).2.toList else w.evicted
    evictedSincePeek := w.evictedSincePeek || decide full }

end World

/-! ## The actions of the thread -/

inductive Op
  | getDev
  | modifyDev (f : Dev → Dev)
  | getSettings
  | gettimeofday
  | uuid4
  | sprintf (size : ℕ) (text : Bytes)
  | mqttGetTxbufUsed
  | mqttGetRxbufUsed
  | mqttGetCmd
  | mqttResetCmd
  | getEnable
  | getConnlost
  | clearConnlost
  | clientCreate (serverURI clientId : Bytes)
  | clientSetCallbacks
  | clientConnect
  | clientSubscribe (topic : Bytes) (qos : ℤ)
  | clientDisconnect
  | clientDestroy
  | publishMessage (topic payload : Bytes)
  | waitForCompletion
  | mqttPubReturned (m : Message) (ret : ℤ)
  | mqttLockTxbuf
  | mqttUnlockTxbuf
  | mqttPeekTxbuf
  | mqttDequeueTxbuf

@[reducible] def Op.Reply : Op → Type
  | .getDev => Dev
  | .getSettings => Settings
  | .gettimeofday => ℚ
  | .uuid4 => Bool × Bytes
  | .mqttGetTxbufUsed | .mqttGetRxbufUsed | .mqttGetCmd | .getEnable | .getConnlost => ℤ
  | .clientConnect | .clientSubscribe .. | .publishMessage .. | .waitForCompletion => ℤ
  | .mqttPeekTxbuf | .mqttDequeueTxbuf => ℤ × Option Message
  | _ => Unit

/-- What the library and the system answer, where the state does not decide
it. -/
structure Outcome where
  rc : ℤ
  ok : Bool
  text : Bytes
  clock : ℚ
  token : ℤ

namespace Owned

def modifyDev (k : Owned) (f : Dev → Dev) : Owned := { k with dev := f k.dev }

def modifySm (k : Owned) (f : StateMachine → StateMachine) : Owned :=
  k.modifyDev fun dev ↦ { dev with sm := f dev.sm }

/-- `MQTTClient_create` stores a fresh client in `dev->cli`, or fails. -/
def clientCreate (k : Owned) (rc : ℤ) : Owned :=
  if rc = mqttclientSuccess then
    { k with
      dev := { k.dev with cli := some k.lib.next }
      lib := { k.lib with next := k.lib.next + 1 } }
  else k

def clientConnect (k : Owned) (c : ClientId) (rc : ℤ) : Owned :=
  if rc = mqttclientSuccess then
    { k with lib := { k.lib with connected := c :: k.lib.connected } }
  else k

/-- The granted level of service counts as a success, as it does for
`mqtt_connect`. -/
def clientSubscribe (k : Owned) (c : ClientId) (qos rc : ℤ) : Owned :=
  if rc = mqttclientSuccess ∨ rc = qos then
    { k with lib := { k.lib with subscribed := c :: k.lib.subscribed } }
  else k

def clientDestroy (k : Owned) : Owned :=
  { k with
    dev := { k.dev with cli := none }
    lib := { k.lib with destroyed := k.dev.cli.toList ++ k.lib.destroyed } }

def publishMessage (k : Owned) (topic payload : Bytes) (token : ℤ) : Owned :=
  { k with dev := { k.dev with token := token }, handed := (topic, payload) }

def afterPub (k : Owned) (m : Message) (ret : ℤ) : Owned :=
  if ret = 0 then
    { k with
      phase := .published m
      published := k.published ++ [⟨m.serial, ⟨m.element.cmd, k.handed.1, k.handed.2⟩⟩] }
  else { k with phase := .idle }

theorem afterPub_of_handed {k : Owned} {m : Message} (h : k.handed = m.texts) :
    k.afterPub m 0 = { k with phase := .published m, published := k.published ++ [m] } := by
  rw [afterPub, if_pos rfl, h]
  rfl

theorem afterPub_of_ne_zero {ret : ℤ} (hret : ret ≠ 0) (k : Owned) (m : Message) :
    k.afterPub m ret = { k with phase := .idle } := by
  rw [afterPub, if_neg hret]

def afterPeek (k : Owned) (data : Option Message) : Owned :=
  { k with phase := match data with | some m => .peeked m | none => .idle }

def afterDequeue (k : Owned) (data : Option Message) : Owned :=
  { k with phase := .idle, dequeued := k.dequeued ++ data.toList }

end Owned

/-- An action that cannot be performed has no result: a mutex that is held, a
text that does not fit its array, a call that dereferences a null client. -/
def exec : (op : Op) → Outcome → World → Option (op.Reply × World)
  | .getDev, _, w => some (w.owned.dev, w)
  | .modifyDev f, _, w => some ((), w.setOwned (w.owned.modifyDev f))
  | .getSettings, _, w => some (w.mdl, w)
  | .gettimeofday, i, w => some (i.clock, w)
  | .uuid4, i, w => if i.text.length = 36 then some ((i.ok, i.text), w) else none
  | .sprintf size text, _, w => if text.length < size then some ((), w) else none
  | .mqttGetTxbufUsed, _, w => some (mqttRingbufferNumItems w.txbuf, w)
  | .mqttGetRxbufUsed, _, w => some (mqttRingbufferNumItems w.rxbuf, w)
  | .mqttGetCmd, _, w => some (w.cmd, w)
  | .mqttResetCmd, _, w => some ((), { w with cmd := cmdSmDone })
  | .getEnable, _, w => some (w.enable, w)
  | .getConnlost, _, w => some (w.connlost, w)
  | .clearConnlost, _, w => some ((), { w with connlost := 0 })
  | .clientCreate _ _, i, w => some ((), w.setOwned (w.owned.clientCreate i.rc))
  | .clientSetCallbacks, _, w => some ((), w)
  | .clientConnect, i, w =>
      w.owned.dev.cli.map fun c ↦ (i.rc, w.setOwned (w.owned.clientConnect c i.rc))
  | .clientSubscribe _ qos, i, w =>
      w.owned.dev.cli.map fun c ↦ (i.rc, w.setOwned (w.owned.clientSubscribe c qos i.rc))
  | .clientDisconnect, _, w => some ((), w)
  | .clientDestroy, _, w => some ((), w.setOwned w.owned.clientDestroy)
  | .publishMessage topic payload, i, w =>
      w.owned.dev.cli.map fun _ ↦
        (i.rc, w.setOwned (w.owned.publishMessage topic payload i.token))
  | .waitForCompletion, i, w =>
      some (if w.owned.dev.cli = none then mqttclientFailure else i.rc, w)
  | .mqttPubReturned m ret, _, w => some ((), w.setOwned (w.owned.afterPub m ret))
  | .mqttLockTxbuf, _, w =>
      if w.txbufMutex = none then some ((), { w with txbufMutex := some .sm }) else none
  | .mqttUnlockTxbuf, _, w => some ((), { w with txbufMutex := none })
  | .mqttPeekTxbuf, _, w =>
      -- whatever index is asked for, the function peeks at 0
      let r := mqttRingbufferPeek w.txbuf 0
      some (r, { w.setOwned (w.owned.afterPeek r.2) with evictedSincePeek := false })
  | .mqttDequeueTxbuf, _, w =>
      let (txbuf, r) := mqttRingbufferDequeue w.txbuf
      some (r, { w.setOwned (w.owned.afterDequeue r.2) with txbuf := txbuf })

/-! ## The actions of the others -/

/-- A producer is any caller of `mqtt_lock_txbuf`, `mqtt_queue_txbuf` and
`mqtt_unlock_txbuf` in that order. -/
inductive Event
  | lockTxbuf (i : ℕ)
  | queueTxbuf (i : ℕ) (data : Element)
  | unlockTxbuf (i : ℕ)
  | queueRxbuf (data : Element)
  | dequeueRxbuf
  | mqttSendSmCmd (cmd : ℤ)
  | setEnable (val : ℤ)
  | mqttConnlost (c : ClientId)

/-- The library may call `mqtt_connlost` for any client that was connected, at
any time and any number of times. -/
def env : Event → World → Option World
  | .lockTxbuf i, w =>
      if w.txbufMutex = none then some { w with txbufMutex := some (.producer i) } else none
  | .queueTxbuf i data, w =>
      if w.txbufMutex = some (.producer i) then some (w.mqttQueueTxbuf data) else none
  | .unlockTxbuf i, w =>
      if w.txbufMutex = some (.producer i) then some { w with txbufMutex := none } else none
  | .queueRxbuf data, w => some { w with rxbuf := mqttRingbufferQueue w.rxbuf data }
  | .dequeueRxbuf, w => some { w with rxbuf := (mqttRingbufferDequeue w.rxbuf).1 }
  | .mqttSendSmCmd cmd, w => some { w with cmd := cmd }
  | .setEnable val, w => some { w with enable := val }
  | .mqttConnlost c, w =>
      if c ∈ w.owned.lib.connected then
        some { w with connlost := 1, lost := c :: w.lost }
      else none

abbrev MqttCode := Threads.Code Op Op.Reply

abbrev perform (op : Op) : MqttCode op.Reply := .perform op

end Mqtt
