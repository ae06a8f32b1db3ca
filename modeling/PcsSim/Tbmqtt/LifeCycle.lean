import PcsSim.Mqtt.Outline
import PcsSim.Tbmqtt.StateMachine

/-!
# The life cycle of the ThingsBoard client

`tbmqtt_connect` hands the value of `dev->cli` to `MQTTClient_create` where it
should hand its address, so the client has a proper life cycle only in the
runs that never try to connect.
-/

namespace Tbmqtt

open Threads
open Mqtt (smstOffline smstReady cmdSmReady Element Outcome)

def Config.Boundary (c : Config) : Prop := ∃ a, c.code = .done a

def Config.Calls (c : Config) (op : Op) : Prop := ∃ next, c.code = .call op next

/-- The client in `dev->cli` is connected and has not been destroyed. -/
def Owned.HoldsClient (k : Owned) : Prop :=
  ∃ c, k.dev.cli = some c ∧ k.lib.Alive c ∧ c ∈ k.lib.connected

structure LifeCycle (c : Config) : Prop where
  create : ∀ handle uri id, c.Calls (.clientCreate handle uri id) → handle = .addressOfCli
  offline : c.Boundary → c.state.owned.dev.sm.state = smstOffline →
    c.state.owned.dev.cli = none
  ready : c.Boundary → c.state.owned.dev.sm.state = smstReady → c.state.owned.HoldsClient

/-- The tick does not try to connect: neither does it find the ready command
offline nor, having counted to 2000, `enable`. -/
def StaysOffline : Op → World → Prop
  | .getCmd, w => w.owned.dev.sm.state = smstOffline → w.cmd ≠ cmdSmReady
  | .getEnable, w => w.enable = 0
  | _, _ => True

instance (op : Op) (w : World) : Decidable (StaysOffline op w) :=
  match op with
  | .getCmd => decidable_of_iff (w.owned.dev.sm.state ≠ smstOffline ∨ w.cmd ≠ cmdSmReady)
      imp_iff_not_or.symm
  | .getEnable => inferInstanceAs (Decidable (w.enable = 0))
  | .getDev | .modifyDev _ | .getSettings | .gettimeofday | .getTxbufUsed | .getRxbufUsed
  | .resetCmd | .getConnlost | .setConnlost _ | .clientCreate .. | .clientSetCallbacks
  | .clientConnect | .clientSubscribe .. | .clientDisconnect | .clientDestroy
  | .publishMessage .. | .waitForCompletion | .lockTxbuf | .unlockTxbuf | .peekTxbuf
  | .dequeueTxbuf => inferInstanceAs (Decidable True)

/-! ## The thread offline -/

structure Owned.Offline (k : Owned) : Prop where
  state : k.dev.sm.state = smstOffline
  cli : k.dev.cli = none

theorem Owned.Offline.modifySm {k : Owned} (h : k.Offline) {f : StateMachine → StateMachine}
    (hf : (f k.dev.sm).state = k.dev.sm.state) : (k.modifySm f).Offline :=
  ⟨hf.trans h.state, h.cli⟩

/-- Offline the thread calls nothing of the library. -/
def rulePre : Op → Owned → Prop
  | .getDev, _ | .modifyDev _, _ | .gettimeofday, _ | .getTxbufUsed, _ | .getRxbufUsed, _
  | .getCmd, _ | .resetCmd, _ | .getEnable, _ => True
  | _, _ => False

def rulePost : (op : Op) → Owned → (op.Reply → Owned → Prop) → Prop
  | .getDev, k, P => P k.dev k
  | .modifyDev f, k, P => P () (k.modifyDev f)
  | .gettimeofday, k, P => ∀ now, P now k
  | .getTxbufUsed, k, P | .getRxbufUsed, k, P => ∀ val, P val k
  | .getCmd, k, P => ∀ val, (k.dev.sm.state = smstOffline → val ≠ cmdSmReady) → P val k
  | .resetCmd, k, P => P () k
  | .getEnable, k, P => P 0 k
  | _, _, _ => False

def rule : Rule Op Op.Reply Owned := ⟨rulePre, rulePost⟩

theorem wp_action {α : Type} (op : Op) (next : op.Reply → TbmqttCode α) (P : α → Owned → Prop)
    (k : Owned) : wp rule (.call op next) P k ↔
      rulePre op k ∧ rulePost op k fun r k ↦ wp rule (next r) P k := Iff.rfl

theorem wp_modifySm {α : Type} (f : StateMachine → StateMachine) (next : Unit → TbmqttCode α)
    (P : α → Owned → Prop) (k : Owned) :
    wp rule (modifySm f >>= next) P k ↔ wp rule (next ()) P (k.modifySm f) := by
  simp only [modifySm, Code.perform, Code.call_bind, Code.done_bind, wp_action, rulePre,
    rulePost, true_and]
  rfl

theorem wp_modifySm_last (f : StateMachine → StateMachine) (P : Unit → Owned → Prop)
    (k : Owned) : wp rule (modifySm f) P k ↔ P () (k.modifySm f) := by
  simp only [modifySm, Code.perform, wp_action, rulePre, rulePost, true_and]
  rfl

theorem wp_tbmqttSmOffline {k : Owned} (hk : k.Offline) :
    wp rule tbmqttSmOffline (fun _ ↦ Owned.Offline) k := by
  simp only [tbmqttSmOffline, Code.perform, Code.call_bind, Code.done_bind, wp_action, rulePre,
    rulePost, true_and]
  by_cases hzero : k.dev.sm.step = 0
  · simp only [if_pos hzero, wp_action, wp_modifySm, wp_modifySm_last, rulePre, rulePost,
      true_and]
    apply Owned.Offline.modifySm _ (StateMachine.state_setCount _ _)
    exact hk.modifySm (StateMachine.state_setStep _ _)
  by_cases hten : k.dev.sm.step = 10
  · simp only [if_neg hzero, if_pos hten, wp_action, rulePre, rulePost, true_and]
    intro cmd hcmd
    have hcounted := hk.modifySm (StateMachine.state_incCount k.dev.sm)
    simp only [if_neg (hcmd hk.state), wp_modifySm, wp_action, rulePre, rulePost, true_and]
    split
    · simp only [wp_modifySm, wp_action, rulePre, rulePost, true_and, ne_eq, not_true_eq_false,
        if_false]
      exact hcounted.modifySm (StateMachine.state_setCount _ _)
    · exact hcounted
  · simp only [if_neg hzero, if_neg hten]
    exact hk

theorem wp_tbmqttSm {k : Owned} (hk : k.Offline) :
    wp rule tbmqttSm (fun _ ↦ Owned.Offline) k := by
  simp only [tbmqttSm, Code.perform, Code.call_bind, Code.done_bind, wp_action, wp_modifySm,
    rulePre, rulePost, true_and]
  intro now tx rx
  have hmeasured : Owned.Offline (((k.modifySm (·.calTiming now)).modifyDev
      fun dev ↦ { dev with txbufUsage := tx / tbmqttRingbufferSIZE * 100 }).modifyDev
      fun dev ↦ { dev with rxbufUsage := rx / tbmqttRingbufferSIZE * 100 }) :=
    ⟨(StateMachine.state_calTiming _ now).trans hk.state, hk.cli⟩
  rw [if_pos hmeasured.state]
  exact wp_tbmqttSmOffline hmeasured

theorem rule_sound (op : Op) (i : Outcome) (w : World) (r : op.Reply) (w' : World)
    (P : op.Reply → Owned → Prop) (hpost : rule.post op w.owned P)
    (hexec : (system.guard StaysOffline).exec op i w = some (r, w')) : P r w'.owned := by
  simp only [System.guard, Option.ite_none_right_eq_some] at hexec
  obtain ⟨hguard, hexec⟩ := hexec
  cases op with
  | getCmd =>
      obtain ⟨rfl, rfl⟩ := Prod.mk.inj (Option.some.inj hexec)
      exact hpost _ hguard
  | getEnable =>
      obtain ⟨rfl, rfl⟩ := Prod.mk.inj (Option.some.inj hexec)
      have henable : w.enable = 0 := hguard
      rw [henable]
      exact hpost
  | getDev | modifyDev | resetCmd =>
      obtain ⟨rfl, rfl⟩ := Prod.mk.inj (Option.some.inj hexec)
      exact hpost
  | gettimeofday | getTxbufUsed | getRxbufUsed =>
      obtain ⟨rfl, rfl⟩ := Prod.mk.inj (Option.some.inj hexec)
      exact hpost _
  | _ => exact hpost.elim

theorem env_owned (e : Event) (w w' : World) (h : env e w = some w') : w'.owned = w.owned := by
  cases e <;> cases h <;> rfl

theorem outline : Outline (system.guard StaysOffline) World.owned rule Owned.Offline where
  env_own := env_owned
  sound := rule_sound
  body _ hk := wp_tbmqttSm hk

/-- In a run that never tries to connect. -/
theorem lifeCycle_of_staysOffline {settings : Settings} {tx rx : RingBuffer Element}
    {ls : List (Label Outcome Event)} {c : Config}
    (hok : Runs.Always system.step (Outline.Allowed StaysOffline fun _ _ ↦ True)
      (Config.start settings tx rx) ls)
    (hrun : Runs.run system.step (Config.start settings tx rx) ls = some c) : LifeCycle c := by
  have hstart : Outline.Fit World.owned rule Owned.Offline (Config.start settings tx rx) :=
    ⟨rfl, rfl⟩
  have hfit := outline.fit_of_guarded_run hok hstart hrun
  have hoffline : c.Boundary → c.state.owned.Offline := fun ⟨_, hcode⟩ ↦ hfit.boundary hcode
  constructor
  case create =>
    rintro handle uri id ⟨next, hcode⟩
    exact (hfit.pre hcode).elim
  case offline => exact fun h _ ↦ (hoffline h).cli
  case ready =>
    intro h hready
    exact absurd ((hoffline h).state.symm.trans hready) (by decide)

/-- A client named `pcs` of a server on the same machine. -/
def Config.local : Config :=
  .start ⟨ascii "127.0.0.1", 1883, ascii "pcs"⟩ ⟨fun _ ↦ default, 0, 0⟩ ⟨fun _ ↦ default, 0, 0⟩

/-- Two ticks, and the offline command between them. -/
theorem lifeCycle_twoTicks : ∃ c : Config, Runs.run system.step Config.local
    (Mqtt.steps 12 ++ .env (.tbmqttSendSmCmd Mqtt.cmdSmOffline) :: Mqtt.steps 12) = some c ∧
    c.state.owned.dev.sm.count = 1 ∧ LifeCycle c := by
  obtain ⟨c, hrun, hcount⟩ : ∃ c : Config, Runs.run system.step Config.local
      (Mqtt.steps 12 ++ .env (.tbmqttSendSmCmd Mqtt.cmdSmOffline) :: Mqtt.steps 12) = some c ∧
      c.state.owned.dev.sm.count = 1 := ⟨_, rfl, rfl⟩
  exact ⟨c, hrun, hcount, lifeCycle_of_staysOffline (by decide +kernel) hrun⟩

/-- The ready command between two ticks: the second one creates a client
through NULL. -/
theorem not_lifeCycle_ready : ∃ c : Config, Runs.run system.step Config.local
    (Mqtt.steps 12 ++ .env (.tbmqttSendSmCmd cmdSmReady) :: Mqtt.steps 13) = some c ∧
    ¬LifeCycle c := by
  refine ⟨_, rfl, fun h ↦ ?_⟩
  exact nomatch h.create (.value none) _ _ ⟨_, rfl⟩

end Tbmqtt
