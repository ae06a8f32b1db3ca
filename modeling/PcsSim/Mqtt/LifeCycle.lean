import PcsSim.Mqtt.Outline

/-!
# The life cycle of the MQTT client

From start, with any commands, any setting of `enable` and `connlost` and any
outcome of the library calls, the client in `dev->cli` follows the state of the
machine, and no library call is made on a client it must not be made on.
-/

namespace Mqtt

open Threads

/-- The other threads of the program, and beside them anybody who sets
`connlost` to anything. -/
inductive FreeEvent
  | program (e : Event)
  | setConnlost (val : ℤ)

def freeEnv : FreeEvent → World → Option World
  | .program e, w => env e w
  | .setConnlost val, w => some { w with connlost := val }

theorem freeEnv_owned (e : FreeEvent) (w w' : World) (h : freeEnv e w = some w') :
    w'.owned = w.owned := by
  cases e with
  | program e => exact env_owned e w w' h
  | setConnlost val =>
      obtain rfl : { w with connlost := val } = w' := by simpa [freeEnv] using h
      rfl

def Config.Boundary (c : Config) : Prop := ∃ a, c.code = .done a

def Config.Calls (c : Config) (op : Op) : Prop := ∃ next, c.code = .call op next

structure LifeCycle (c : Config) : Prop where
  state : c.Boundary → c.state.owned.dev.sm.state = smstOffline ∨
    c.state.owned.dev.sm.state = smstReady
  step : c.Boundary → c.state.owned.dev.sm.step = 0 ∨ c.state.owned.dev.sm.step = 10
  offline : c.Boundary → c.state.owned.dev.sm.state = smstOffline →
    c.state.owned.dev.cli = none
  ready : c.Boundary → c.state.owned.dev.sm.state = smstReady → c.state.owned.HoldsClient
  create : ∀ uri id, c.Calls (.clientCreate uri id) →
    ∀ held, c.state.owned.dev.cli = some held → ¬ c.state.owned.lib.Alive held
  destroy : c.Calls .clientDestroy →
    ∃ held, c.state.owned.dev.cli = some held ∧ c.state.owned.lib.Alive held
  destroyedOnce : c.state.owned.lib.destroyed.Nodup
  publish : ∀ topic payload, c.Calls (.publishMessage topic payload) → c.state.owned.Ready
  wait : c.Calls .waitForCompletion → c.state.owned.Ready

theorem nodup_destroyed_exec {op : Op} {i : Outcome} {w w' : World} {r : op.Reply}
    (hpre : rulePre op w.owned) (h : w.owned.lib.destroyed.Nodup)
    (hexec : exec op i w = some (r, w')) : w'.owned.lib.destroyed.Nodup := by
  refine rule_sound op i w r w' (fun _ k ↦ k.lib.destroyed.Nodup) ?_ hexec
  cases op with
  | clientCreate uri id =>
      intro rc
      unfold Owned.clientCreate
      split <;> exact h
  | clientConnect =>
      intro c rc _
      unfold Owned.clientConnect
      split <;> exact h
  | clientSubscribe topic qos =>
      intro c rc _
      unfold Owned.clientSubscribe
      split <;> exact h
  | clientDestroy =>
      obtain ⟨c, hcli, -, hnot⟩ := hpre
      simpa [rule, rulePost, Owned.clientDestroy, hcli] using ⟨hnot, h⟩
  | mqttPubReturned m ret =>
      simp only [rule, rulePost, Owned.afterPub]
      split <;> exact h
  | _ =>
      simp [rule, rulePost, Owned.modifyDev, Owned.publishMessage, Owned.afterPeek,
        Owned.afterDequeue, h]

theorem lifeCycle_of_run {mdl : Settings} {tx : RingBuffer Message} {rx : RingBuffer Element}
    {ls : List (Label Outcome FreeEvent)} {c : Config}
    (hrun : Runs.run (systemWith freeEnv).step (Config.start mdl tx rx) ls = some c) :
    LifeCycle c := by
  obtain ⟨hfit, hnodup⟩ := (outline freeEnv_owned).run_invariant
    (I := fun w ↦ w.owned.lib.destroyed.Nodup)
    (fun op i w r w' hpre h hexec ↦ nodup_destroyed_exec hpre h hexec)
    (fun e w w' h hstep ↦ by rwa [freeEnv_owned e w w' hstep])
    (c := Config.start mdl tx rx) (boundary_start mdl tx rx) List.nodup_nil hrun
  have hboundary : c.Boundary → c.state.owned.Boundary := fun ⟨_, hcode⟩ ↦ hfit.boundary hcode
  have hpre : ∀ {op}, c.Calls op → rulePre op c.state.owned := fun ⟨_, hcode⟩ ↦ hfit.pre hcode
  have hne : smstOffline ≠ smstReady := by decide
  constructor
  case state => exact fun h ↦ (hboundary h).state.imp And.left And.left
  case step => exact fun h ↦ (hboundary h).step
  case offline =>
    intro h hoffline
    rcases (hboundary h).state with ⟨-, hnone⟩ | ⟨hready, -⟩
    · exact hnone
    · exact absurd (hoffline.symm.trans hready) hne
  case ready =>
    intro h hready
    rcases (hboundary h).state with ⟨hoffline, -⟩ | ⟨-, hholds⟩
    · exact absurd (hoffline.symm.trans hready) hne
    · exact hholds
  case create =>
    intro uri id h held hheld
    have hnone : c.state.owned.dev.cli = none := hpre h
    simp [hnone] at hheld
  case destroy => exact fun h ↦ hpre h
  case destroyedOnce => exact hnodup
  case publish => exact fun topic payload h ↦ hpre h
  case wait => exact fun h ↦ hpre h

/-- A first tick, the posting of the ready command and a second tick, which
connects. -/
theorem lifeCycle_connected : ∃ c : Config, Runs.run (systemWith freeEnv).step Config.local
      (steps 11 ++ .env (.program (.mqttSendSmCmd cmdSmReady)) :: steps 25) = some c ∧
    c.state.owned.dev.cli = some 0 ∧ LifeCycle c := by
  obtain ⟨c, hrun, hcli⟩ : ∃ c : Config, Runs.run (systemWith freeEnv).step Config.local
      (steps 11 ++ .env (.program (.mqttSendSmCmd cmdSmReady)) :: steps 25) = some c ∧
      c.state.owned.dev.cli = some 0 := ⟨_, rfl, rfl⟩
  exact ⟨c, hrun, hcli, lifeCycle_of_run hrun⟩

end Mqtt
