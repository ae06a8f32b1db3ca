import PcsSim.Cloud.Handled
import PcsSim.Mqtt.CacheRoundTrip

/-!
# Composed names

The topics and the client id are composed from the name of the device, into
arrays of different sizes.
-/

namespace Cloud

open Mqtt hiding sprintf
open Threads

variable {D : Type}

/-- The message of `cloud_update`; the text that `cJSON_PrintUnformatted` gives
is `ostr`. -/
def queueUpdate (env : Env D) (tsBuf ostr : Bytes) (c : State D) : Except Fault (State D) := do
  let szpayload ← sprintf 8000 (MqttCache.cloudUpdatePayload tsBuf ostr)
  let sztopic ← sprintf 128 env.szDevName
  return c.queue { cmd := cmdMqttSendkv, sztopic := sztopic, szpayload := szpayload }

def cloudUpdate (env : Env D) (tsBuf ostr : Bytes) (sysTimer sysIntv : ℤ) (c : State D) :
    Except Fault (ℤ × State D) :=
  if sysTimer ≥ sysIntv then do
    let c ← queueUpdate env tsBuf ostr c
    return (0, c)
  else
    return (sysTimer + 1, c)

/-- Each text fits its array.  A UUID has 36 characters; the other replies are
left open. -/
def composeRule : Rule Op Op.Reply Settings where
  pre
    | .sprintf size text, _ => text.length < size
    | _, _ => True
  post
    | .getSettings, mdl, P => P mdl mdl
    | .uuid4, mdl, P => ∀ r : Bool × Bytes, r.2.length = 36 → P r mdl
    | _, mdl, P => ∀ r, P r mdl

/-- Nothing that is composed from the name of the device is cut off or runs over
the end of its array. -/
structure IdentifiersFit (env : Env D) (mdl : Settings) : Prop where
  connect : wp composeRule mqttConnect (fun _ _ ↦ True) mdl
  update : ∀ tsBuf ostr sysTimer sysIntv c,
    (MqttCache.cloudUpdatePayload tsBuf ostr).length < 8000 → sysTimer ≥ sysIntv →
      cloudUpdate env tsBuf ostr sysTimer sysIntv c =
        .ok (0, c.queue ⟨cmdMqttSendkv, mdl.szDevName, MqttCache.cloudUpdatePayload tsBuf ostr⟩)
  respond : ∀ time szResponse c, szResponse.length ≤ 127 →
    respond env time szResponse c = .ok (c.queue ⟨cmdMqttSendkv, mdl.szDevName ++ ascii "-ctl",
      responsePayload (cloudGetTimezonets time) szResponse⟩)

section Connect

variable {mdl : Settings}

theorem length_clientId {szDevName bufUuid : Bytes} (adr : ℤ) (huuid : bufUuid.length = 36) :
    (szDevName ++ ascii "-" ++ decimal adr ++ ascii "-" ++ bufUuid).length =
      szDevName.length + (decimal adr).length + 38 := by
  have hdash : (ascii "-").length = 1 := by decide
  simp only [List.length_append, hdash, huuid]
  omega

theorem length_ctlTopic (szDevName : Bytes) :
    (ctlTopic szDevName).length = szDevName.length + 4 := by
  have hctl : (ascii "-ctl").length = 4 := by decide
  rw [ctlTopic, List.length_append, hctl]

theorem length_serverUri (servip : Bytes) (servport : ℤ) :
    (servip ++ ascii ":" ++ decimal servport).length =
      servip.length + 1 + (decimal servport).length := by
  have hcolon : (ascii ":").length = 1 := by decide
  simp only [List.length_append, hcolon]

theorem wp_mqttConnect_iff :
    wp composeRule mqttConnect (fun _ _ ↦ True) mdl ↔
      mdl.szDevName.length + (decimal mdl.adr).length + 38 < 150 ∧ mdl.szmqttServip.length < 32 ∧
        mdl.szmqttServip.length + 1 + (decimal mdl.mqttServport).length < 256 ∧
          mdl.szDevName.length + 4 < 256 := by
  simp only [mqttConnect, mqttConnectCreate, uuid4, getSettings, Mqtt.sprintf, modifyDev,
    clientCreate, clientSetCallbacks, clientConnect, clientSubscribe, perform, Code.perform,
    Code.call_bind, Code.done_bind, Code.pure_eq, wp, composeRule, true_and, length_serverUri,
    length_ctlTopic]
  constructor
  · intro h
    obtain ⟨hid, hrest⟩ := h (true, List.replicate 36 0) (List.length_replicate ..)
    obtain ⟨hip, hrest⟩ := hrest () ()
    obtain ⟨huri, hrest⟩ := hrest () ()
    obtain ⟨htopic, -⟩ := hrest () () () 0
    rw [length_clientId mdl.adr (List.length_replicate ..)] at hid
    exact ⟨hid, hip, huri, htopic⟩
  · rintro ⟨hid, hip, huri, htopic⟩ ⟨ok, bufUuid⟩ huuid
    rw [length_clientId mdl.adr huuid]
    exact ⟨hid, fun _ _ ↦ ⟨hip, fun _ _ ↦ ⟨huri, fun _ _ _ _ ↦ ⟨htopic, fun _ _ ↦ trivial⟩⟩⟩⟩

end Connect

variable {env : Env D} {mdl : Settings}

theorem queueUpdate_of_fits {tsBuf ostr : Bytes} (c : State D)
    (hpayload : (MqttCache.cloudUpdatePayload tsBuf ostr).length < 8000)
    (hname : env.szDevName.length < 128) : queueUpdate env tsBuf ostr c =
      .ok (c.queue ⟨cmdMqttSendkv, env.szDevName, MqttCache.cloudUpdatePayload tsBuf ostr⟩) := by
  rw [queueUpdate, sprintf, if_pos hpayload, Except.ok_bind_eq, sprintf, if_pos hname]
  rfl

theorem cloudUpdate_of_fits {tsBuf ostr : Bytes} {sysTimer sysIntv : ℤ} (c : State D)
    (hpayload : (MqttCache.cloudUpdatePayload tsBuf ostr).length < 8000)
    (hname : env.szDevName.length < 128) (htimer : sysTimer ≥ sysIntv) :
    cloudUpdate env tsBuf ostr sysTimer sysIntv c = .ok (0, c.queue ⟨cmdMqttSendkv,
      env.szDevName, MqttCache.cloudUpdatePayload tsBuf ostr⟩) := by
  rw [cloudUpdate, if_pos htimer, queueUpdate_of_fits c hpayload hname]
  rfl

/-- The client id has 39 bytes beside the name and the address, and the array
150. -/
theorem identifiersFit_iff (hdev : env.szDevName = mdl.szDevName)
    (hname : mdl.szDevName.length ≤ 127) (hservip : mdl.szmqttServip.length ≤ 15)
    (hport : -2 ^ 31 ≤ mdl.mqttServport ∧ mdl.mqttServport < 2 ^ 31) :
    IdentifiersFit env mdl ↔ mdl.szDevName.length + (decimal mdl.adr).length ≤ 111 := by
  constructor
  · intro h
    have hid := (wp_mqttConnect_iff.mp h.connect).1
    omega
  · intro hid
    have hport' : (decimal mdl.mqttServport).length ≤ 20 :=
      length_decimal_le (by omega) (by omega)
    constructor
    · exact wp_mqttConnect_iff.mpr ⟨by omega, by omega, by omega, by omega⟩
    · intro tsBuf ostr sysTimer sysIntv c hpayload htimer
      rw [← hdev]
      exact cloudUpdate_of_fits c hpayload (by rw [hdev]; omega) htimer
    · intro time szResponse c hresponse
      have htopic : env.szDevName.length + 4 < 128 := by
        rw [hdev]
        omega
      rw [(respond_eq_ok_iff (Nat.lt_succ_of_le hresponse)).mpr ⟨htopic, rfl⟩, answer, hdev]

/-- A device named `pcs` with the address 1. -/
def pcsSettings : Settings := ⟨ascii "pcs", 1, ascii "127.0.0.1", 1883⟩

theorem identifiersFit_pcs : IdentifiersFit (Env.pcs none) pcsSettings := by
  have hiff : IdentifiersFit (Env.pcs none) pcsSettings ↔ _ :=
    identifiersFit_iff rfl (by decide) (by decide) (by decide)
  exact hiff.mpr (by decide +kernel)

def longName : Env ℚ := { Env.pcs none with szDevName := List.replicate 127 97 }

/-- The longest name that fits `szDevName`. -/
theorem not_identifiersFit_longName :
    ¬IdentifiersFit longName { pcsSettings with szDevName := List.replicate 127 97 } := by
  intro h
  have hid := (wp_mqttConnect_iff.mp h.connect).1
  exact absurd hid (by decide +kernel)

end Cloud
