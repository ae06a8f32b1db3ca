import PcsSim.Cloud.Recv
import PcsSim.Lib.CharArray

/-!
# Messages that arrive

`mqtt_msgarrvd` and `tbmqtt_msgarrvd` compose an element on their stack, which
holds what was left there, and queue it to the receive buffer.
-/

namespace Mqtt

/-- The element as it lies in memory. -/
structure RawElement where
  cmd : ℤ
  sztopic : CharArray 128
  szpayload : CharArray 8000

/-- What is queued, if there is a message.  `MQTTClient_receive` fails in the
thread of the library that calls back, and leaves its arguments alone. -/
def mqttMsgarrvd (e : RawElement) (topicName : Bytes) (message : Option Bytes) :
    Except Fault (Option RawElement) :=
  match message with
  | none => .ok none
  | some payload => do
    let sztopic ← e.sztopic.strcpy topicName
    let szpayload ← e.szpayload.strncpy payload payload.length
    let _ ← szpayload.string -- log_dbg("%s, payload:%s", __func__, e.szpayload)
    return some { e with sztopic := sztopic, szpayload := szpayload }

def tbmqttMsgarrvd (dbg : Bool) (e : RawElement) (topicName : Bytes) (message : Option Bytes) :
    Except Fault (Option RawElement) :=
  match message with
  | none => .ok none
  | some payload => do
    let sztopic ← e.sztopic.strcpy topicName
    let szpayload ← e.szpayload.strncpy payload payload.length
    if dbg then
      let _ ← szpayload.string
    return some { e with sztopic := sztopic, szpayload := szpayload }

/-- `cloud_proc_recv` on the element dequeued, which it reads the payload of. -/
def cloudProcRecvRaw {D : Type} (env : Cloud.Env D) (time : Int64) (e : RawElement)
    (c : Cloud.State D) : Except Fault (Cloud.State D) := do
  let szpayload ← e.szpayload.string
  Cloud.cloudProcRecv env time (some ⟨e.cmd, [], szpayload⟩) c

/-- The element that is queued reads as the payload, and `cloud_proc_recv` does
with it what it does with the message. -/
def QueuedAsArrived (queued : Except Fault (Option RawElement)) (payload : Bytes) : Prop :=
  ∃ e, queued = .ok (some e) ∧ e.szpayload.string = .ok payload ∧
    ∀ (D : Type) (env : Cloud.Env D) (time : Int64) (c : Cloud.State D),
      cloudProcRecvRaw env time e c = Cloud.cloudProcRecv env time (some ⟨0, [], payload⟩) c

section

variable {e : RawElement} {payload : Bytes}

theorem queuedAsArrived_iff_string {queued : Except Fault (Option RawElement)} :
    QueuedAsArrived queued payload ↔
      ∃ e, queued = .ok (some e) ∧ e.szpayload.string = .ok payload := by
  refine exists_congr fun e ↦ and_congr_right fun _ ↦ and_iff_left_of_imp fun hstring ↦ ?_
  intro D env time c
  rw [cloudProcRecvRaw, hstring]
  rfl

/-- Whether or not the payload is logged before the element is queued. -/
theorem queuedAsArrived_iff_of_copied {szpayload : CharArray 8000} {queued : RawElement}
    {logged : Except Fault Bytes} (hnul : 0 ∉ payload)
    (hbytes : szpayload.bytes = payload ++ e.szpayload.bytes.drop payload.length)
    (hqueued : queued.szpayload = szpayload)
    (hlogged : logged = szpayload.string ∨ ∃ s, logged = .ok s) :
    QueuedAsArrived (logged >>= fun _ ↦ .ok (some queued)) payload ↔
      e.szpayload.bytes[payload.length]? = some 0 := by
  have hread : szpayload.string = .ok payload ↔ e.szpayload.bytes[payload.length]? = some 0 := by
    rw [CharArray.string_eq_ok_iff hnul hbytes, List.head?_drop]
  rw [queuedAsArrived_iff_string, ← hread]
  constructor
  · rintro ⟨e', hok, hstring⟩
    obtain ⟨_, -, hsome⟩ := Except.bind_eq_ok_iff.mp hok
    obtain rfl := Option.some.inj (Except.ok.inj hsome)
    exact hqueued ▸ hstring
  · intro hstring
    refine ⟨queued, ?_, hqueued ▸ hstring⟩
    rcases hlogged with rfl | ⟨s, rfl⟩
    · rw [hstring]
      rfl
    · rfl

variable {topicName : Bytes}

theorem mqttMsgarrvd_queued_iff (htopic : topicName.length < 128)
    (hpayload : payload.length < 8000) (hnul : 0 ∉ payload) :
    QueuedAsArrived (mqttMsgarrvd e topicName (some payload)) payload ↔
      e.szpayload.bytes[payload.length]? = some 0 := by
  obtain ⟨sztopic, hsztopic, -⟩ := e.sztopic.strcpy_eq_ok htopic
  obtain ⟨szpayload, hszpayload, hbytes⟩ := e.szpayload.strncpy_eq_ok hpayload.le hnul
  simp only [mqttMsgarrvd, hsztopic, hszpayload, Except.ok_bind_eq]
  exact queuedAsArrived_iff_of_copied hnul hbytes rfl (.inl rfl)

theorem tbmqttMsgarrvd_queued_iff {dbg : Bool} (htopic : topicName.length < 128)
    (hpayload : payload.length < 8000) (hnul : 0 ∉ payload) :
    QueuedAsArrived (tbmqttMsgarrvd dbg e topicName (some payload)) payload ↔
      e.szpayload.bytes[payload.length]? = some 0 := by
  obtain ⟨sztopic, hsztopic, -⟩ := e.sztopic.strcpy_eq_ok htopic
  obtain ⟨szpayload, hszpayload, hbytes⟩ := e.szpayload.strncpy_eq_ok hpayload.le hnul
  simp only [tbmqttMsgarrvd, hsztopic, hszpayload, Except.ok_bind_eq]
  cases dbg with
  | true => exact queuedAsArrived_iff_of_copied hnul hbytes rfl (.inl rfl)
  | false =>
      have hunlogged : (Except.ok [] : Except Fault Bytes) = szpayload.string ∨
          ∃ s, (Except.ok [] : Except Fault Bytes) = .ok s := .inr ⟨[], rfl⟩
      exact queuedAsArrived_iff_of_copied hnul hbytes rfl hunlogged

/-- Both call-backs leave the text without an end, so it ends where it should
only if the leftover has a NUL there. -/
theorem queuedAsArrived_iff_leftover (e : RawElement) (topicName payload : Bytes) (dbg : Bool)
    (htopic : topicName.length < 128) (hpayload : payload.length < 8000) (hnul : 0 ∉ payload) :
    (QueuedAsArrived (mqttMsgarrvd e topicName (some payload)) payload ↔
      e.szpayload.bytes[payload.length]? = some 0) ∧
    (QueuedAsArrived (tbmqttMsgarrvd dbg e topicName (some payload)) payload ↔
      e.szpayload.bytes[payload.length]? = some 0) :=
  ⟨mqttMsgarrvd_queued_iff htopic hpayload hnul, tbmqttMsgarrvd_queued_iff htopic hpayload hnul⟩

end

/-- An element whose arrays hold one character throughout. -/
def RawElement.filled (b : UInt8) : RawElement where
  cmd := 0
  sztopic := ⟨.replicate 128 b, List.length_replicate⟩
  szpayload := ⟨.replicate 8000 b, List.length_replicate⟩

theorem getElem?_filled (b : UInt8) {i : ℕ} (hi : i < 8000) :
    (RawElement.filled b).szpayload.bytes[i]? = some b :=
  List.getElem?_replicate_of_lt hi

/-- A first message on a stack of zeros. -/
theorem queuedAsArrived_zeros :
    QueuedAsArrived (mqttMsgarrvd (.filled 0) (ascii "pcs-ctl") (some (ascii "\x7b\x7d")))
        (ascii "\x7b\x7d") ∧
      QueuedAsArrived (tbmqttMsgarrvd true (.filled 0) (ascii "pcs-ctl")
        (some (ascii "\x7b\x7d"))) (ascii "\x7b\x7d") := by
  have h := queuedAsArrived_iff_leftover (.filled 0) (ascii "pcs-ctl") (ascii "\x7b\x7d") true
    (by decide) (by decide) (by decide)
  exact ⟨h.1.mpr (getElem?_filled 0 (by decide)), h.2.mpr (getElem?_filled 0 (by decide))⟩

/-- The same message over an `x` that was left behind it. -/
theorem not_queuedAsArrived_leftover :
    ¬QueuedAsArrived (mqttMsgarrvd (.filled 0x78) (ascii "pcs-ctl") (some (ascii "\x7b\x7d")))
        (ascii "\x7b\x7d") ∧
      ¬QueuedAsArrived (tbmqttMsgarrvd false (.filled 0x78) (ascii "pcs-ctl")
        (some (ascii "\x7b\x7d"))) (ascii "\x7b\x7d") := by
  have hleft : (RawElement.filled 0x78).szpayload.bytes[(ascii "\x7b\x7d").length]? ≠ some 0 := by
    rw [getElem?_filled 0x78 (by decide)]
    decide
  constructor
  · rwa [mqttMsgarrvd_queued_iff (by decide) (by decide) (by decide)]
  · rwa [tbmqttMsgarrvd_queued_iff (by decide) (by decide) (by decide)]

end Mqtt
