import PcsSim.Cloud.Handled
import PcsSim.Mqtt.StateMachine

/-!
# One command, one answer

A command that is neither a text nor has a child is dropped without an answer;
every other one is answered exactly once, and nothing else is answered.
-/

namespace Cloud

open CJson Mqtt

variable {D : Type} {env : Env D} {time : Int64} {e : Element} {c c' : State D}

/-- The member `cmd` of a payload that parses. -/
def command (numbers : Numbers D) (szpayload : Bytes) : Option (CJson D) :=
  (parse numbers szpayload).bind fun root ↦ root.getObjectItem (ascii "cmd")

/-- Exactly one message for a command, to the topic of the device and with the
outcome in its data, and none for anything else. -/
structure OneAnswer (env : Env D) (time : Int64) (e : Element) (c c' : State D) : Prop where
  answered : ∀ cmd ∈ command env.numbers e.szpayload, ∃ szResponse, Outcome cmd szResponse ∧
    c'.queued = c.queued ++ [{
      cmd := cmdMqttSendkv
      sztopic := ctlTopic env.szDevName
      szpayload := responsePayload (cloudGetTimezonets time) szResponse }]
  silent : command env.numbers e.szpayload = none → c'.queued = c.queued

/-- A command that is a text or has a sub-command. -/
def Answerable (cmd : CJson D) : Prop := cmd.isString ∨ cmd.child ≠ []

instance (cmd : CJson D) : Decidable (Answerable cmd) :=
  inferInstanceAs (Decidable (_ ∨ _))

theorem command_of_parse {root : CJson D} (hparse : parse env.numbers e.szpayload = some root) :
    command env.numbers e.szpayload = root.getObjectItem (ascii "cmd") := by
  simp [command, hparse]

theorem oneAnswer_iff (h : cloudProcRecv env time (some e) c = .ok c') :
    OneAnswer env time e c c' ↔
      ∀ cmd ∈ command env.numbers e.szpayload, Answerable cmd := by
  cases cloudProcRecv_eq_ok_iff.mp h with
  | unparsed hparse =>
      have hcommand : command env.numbers e.szpayload = none := by simp [command, hparse]
      constructor
      · intro _ cmd hcmd
        simp [hcommand] at hcmd
      · intro _
        exact ⟨by simp [hcommand], fun _ ↦ rfl⟩
  | @silent root mdl hparse hproc =>
      have hcommand := command_of_parse hparse
      constructor
      · intro hone cmd hcmd
        obtain ⟨szResponse, -, hqueued⟩ := hone.answered cmd hcmd
        simp [State.delete, State.setMdl] at hqueued
      · intro hanswerable
        refine ⟨fun cmd hcmd ↦ ?_, fun _ ↦ rfl⟩
        have hitem : root.getObjectItem (ascii "cmd") = some cmd := hcommand ▸ hcmd
        rcases procRoot_of_command hitem hproc with ⟨htext, hchild, -⟩ | ⟨-, s, hs, -⟩
        · rcases hanswerable cmd hcmd with h | h
          · exact absurd h htext
          · exact absurd hchild h
        · cases hs
  | @answered root mdl szResponse hparse hproc hfits =>
      have hcommand := command_of_parse hparse
      constructor
      · intro _ cmd hcmd
        rcases procRoot_of_command (hcommand ▸ hcmd) hproc with ⟨-, -, hs⟩ | ⟨hanswerable, -⟩
        · cases hs
        · exact hanswerable
      · intro _
        refine ⟨fun cmd hcmd ↦ ?_, fun hnone ↦ ?_⟩
        · rcases procRoot_of_command (hcommand ▸ hcmd) hproc with ⟨-, -, hs⟩ | ⟨-, s, hs, houtcome⟩
          · cases hs
          · cases hs
            exact ⟨szResponse, houtcome, rfl⟩
        · obtain ⟨hs, -⟩ := procRoot_of_noCommand (hcommand ▸ hnone) hproc
          cases hs

theorem oneAnswer_text :
    ∃ c', cloudProcRecv (Env.pcs none) 0 (some (message (ascii "\x7b\"cmd\":\"ready\"\x7d")))
        State.start = .ok c' ∧
      OneAnswer (Env.pcs none) 0 (message (ascii "\x7b\"cmd\":\"ready\"\x7d")) State.start c' := by
  have hok : (cloudProcRecv (Env.pcs none) 0 (some (message (ascii "\x7b\"cmd\":\"ready\"\x7d")))
      State.start).isOk = true := by decide +kernel
  obtain ⟨c', h⟩ := Except.exists_of_isOk hok
  exact ⟨c', h, (oneAnswer_iff h).mpr (by decide +kernel)⟩

theorem not_oneAnswer_number :
    ∃ c', cloudProcRecv (Env.pcs none) 0 (some (message (ascii "\x7b\"cmd\":5\x7d"))) State.start =
        .ok c' ∧
      ¬OneAnswer (Env.pcs none) 0 (message (ascii "\x7b\"cmd\":5\x7d")) State.start c' := by
  have hok : (cloudProcRecv (Env.pcs none) 0 (some (message (ascii "\x7b\"cmd\":5\x7d")))
      State.start).isOk = true := by decide +kernel
  have hrun : ((cloudProcRecv (Env.pcs none) 0 (some (message (ascii "\x7b\"cmd\":5\x7d")))
      State.start).toOption.map State.queued) = some [] := by decide +kernel
  have hcommand : (command (Env.pcs none).numbers (ascii "\x7b\"cmd\":5\x7d")).isSome := by
    decide +kernel
  obtain ⟨cmd, hcmd⟩ := Option.isSome_iff_exists.mp hcommand
  obtain ⟨c', h⟩ := Except.exists_of_isOk hok
  rw [h] at hrun
  have hqueued : c'.queued = [] := Option.some.inj hrun
  refine ⟨c', h, fun hone ↦ ?_⟩
  obtain ⟨szResponse, -, hmessage⟩ := hone.answered cmd hcmd
  rw [hqueued] at hmessage
  exact absurd (congrArg List.length hmessage) (by simp [State.start])

end Cloud
