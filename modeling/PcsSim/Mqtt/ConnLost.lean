import PcsSim.Mqtt.Outline

/-!
# A lost connection and the flag `connlost`

`mqtt_connlost` sets the flag, `mqtt_sm` clears it after a connect, and a ready
tick that sees it set goes offline.  The clearing comes after the connect call
has returned, and a callback that has come in between is forgotten.
-/

namespace Mqtt

open Threads

/-- In the ready state the flag is set if the callback has been called for the
client that is held. -/
def NeverForgotten (w : World) : Prop :=
  w.owned.dev.sm.state = smstReady →
    ∀ c, w.owned.dev.cli = some c → c ∈ w.lost → w.connlost = 1

/-- The flag is not cleared when the callback has already been called for the
client that is held. -/
def ClearsInTime : Op → World → Prop
  | .clearConnlost, w => ∀ c ∈ w.owned.dev.cli, c ∉ w.lost
  | _, _ => True

def Op.isClearConnlost : Op → Bool
  | .clearConnlost => true
  | _ => false

theorem clearsInTime_iff (op : Op) (w : World) :
    ClearsInTime op w ↔ (op.isClearConnlost = true → ∀ c ∈ w.owned.dev.cli, c ∉ w.lost) := by
  cases op with
  | clearConnlost => exact ⟨fun h _ ↦ h, fun h ↦ h rfl⟩
  | _ => exact iff_of_true trivial (fun h ↦ nomatch h)

instance (op : Op) (w : World) : Decidable (ClearsInTime op w) :=
  decidable_of_iff _ (clearsInTime_iff op w).symm

/-- Only connected clients are lost, and only created ones are connected or
held; a held client that is lost has left its mark. -/
structure ConnlostInv (w : World) : Prop where
  lost : ∀ c ∈ w.lost, c ∈ w.owned.lib.connected
  connected : ∀ c ∈ w.owned.lib.connected, c < w.owned.lib.next
  held : ∀ c, w.owned.dev.cli = some c → c < w.owned.lib.next
  marked : ∀ c, w.owned.dev.cli = some c → c ∈ w.lost → w.connlost = 1

namespace ConnlostInv

variable {w w' : World}

theorem frame (h : ConnlostInv w) (hcli : w'.owned.dev.cli = w.owned.dev.cli)
    (hconnected : w'.owned.lib.connected = w.owned.lib.connected)
    (hnext : w'.owned.lib.next = w.owned.lib.next) (hlost : w'.lost = w.lost)
    (hconnlost : w'.connlost = w.connlost) : ConnlostInv w' := by
  constructor
  · rw [hlost, hconnected]
    exact h.lost
  · rw [hconnected, hnext]
    exact h.connected
  · rw [hcli, hnext]
    exact h.held
  · rw [hcli, hlost, hconnlost]
    exact h.marked

theorem clientCreate (h : ConnlostInv w) (rc : ℤ) :
    ConnlostInv (w.setOwned (w.owned.clientCreate rc)) := by
  unfold Owned.clientCreate
  split
  · refine ⟨h.lost, fun c hc ↦ (h.connected c hc).trans (Nat.lt_succ_self _), ?_, ?_⟩
    · rintro c hc
      obtain rfl : w.owned.lib.next = c := by simpa using hc
      exact Nat.lt_succ_self _
    · -- the fresh client has not been connected yet
      rintro c hc hlost
      obtain rfl : w.owned.lib.next = c := by simpa using hc
      exact absurd (h.connected _ (h.lost _ hlost)) (lt_irrefl _)
  · exact h

theorem clientConnect (h : ConnlostInv w) {c : ClientId} (hc : w.owned.dev.cli = some c)
    (rc : ℤ) : ConnlostInv (w.setOwned (w.owned.clientConnect c rc)) := by
  unfold Owned.clientConnect
  split
  · refine ⟨fun d hd ↦ List.mem_cons_of_mem _ (h.lost d hd), ?_, h.held, h.marked⟩
    intro d hd
    rcases List.mem_cons.mp hd with rfl | hd
    · exact h.held d hc
    · exact h.connected d hd
  · exact h

theorem mqttConnlost (h : ConnlostInv w) {c : ClientId} (hc : c ∈ w.owned.lib.connected) :
    ConnlostInv { w with connlost := 1, lost := c :: w.lost } := by
  refine ⟨?_, h.connected, h.held, fun _ _ _ ↦ rfl⟩
  intro d hd
  rcases List.mem_cons.mp hd with rfl | hd
  · exact hc
  · exact h.lost d hd

theorem exec (h : ConnlostInv w) {op : Op} {i : Outcome} {r : op.Reply}
    (hok : ClearsInTime op w) (hpre : rulePre op w.owned)
    (hexec : exec op i w = some (r, w')) : ConnlostInv w' := by
  cases op with
  | modifyDev f =>
      obtain ⟨rfl, rfl⟩ := by simpa only [Mqtt.exec, Option.some.injEq] using hexec
      exact h.frame hpre rfl rfl rfl rfl
  | clearConnlost =>
      obtain ⟨rfl, rfl⟩ := by simpa only [Mqtt.exec, Option.some.injEq] using hexec
      exact ⟨h.lost, h.connected, h.held, fun c hc hlost ↦ absurd hlost (hok c hc)⟩
  | clientCreate uri id =>
      obtain ⟨rfl, rfl⟩ := by simpa only [Mqtt.exec, Option.some.injEq] using hexec
      exact h.clientCreate i.rc
  | clientConnect =>
      obtain ⟨c, hc, rfl, rfl⟩ := by simpa only [Mqtt.exec, Option.map_eq_some_iff] using hexec
      exact h.clientConnect hc i.rc
  | clientSubscribe topic qos =>
      obtain ⟨c, hc, rfl, rfl⟩ := by simpa only [Mqtt.exec, Option.map_eq_some_iff] using hexec
      refine h.frame ?_ ?_ ?_ rfl rfl <;>
        simp only [Owned.clientSubscribe, World.owned_setOwned] <;> split <;> rfl
  | clientDestroy =>
      obtain ⟨rfl, rfl⟩ := by simpa only [Mqtt.exec, Option.some.injEq] using hexec
      exact ⟨h.lost, h.connected, fun c hc ↦ by simp [Owned.clientDestroy] at hc,
        fun c hc ↦ by simp [Owned.clientDestroy] at hc⟩
  | publishMessage topic payload =>
      obtain ⟨c, hc, rfl, rfl⟩ := by simpa only [Mqtt.exec, Option.map_eq_some_iff] using hexec
      exact h.frame rfl rfl rfl rfl rfl
  | mqttPubReturned m ret =>
      obtain ⟨rfl, rfl⟩ := by simpa only [Mqtt.exec, Option.some.injEq] using hexec
      refine h.frame ?_ ?_ ?_ rfl rfl <;>
        simp only [Owned.afterPub, World.owned_setOwned] <;> split <;> rfl
  | uuid4 | sprintf | mqttLockTxbuf =>
      obtain ⟨-, rfl, rfl⟩ := by
        simpa only [Mqtt.exec, Option.ite_none_right_eq_some, Option.some.injEq] using hexec
      exact h.frame rfl rfl rfl rfl rfl
  | _ =>
      obtain ⟨rfl, rfl⟩ := by simpa only [Mqtt.exec, Option.some.injEq] using hexec
      exact h.frame rfl rfl rfl rfl rfl

theorem env (h : ConnlostInv w) {e : Event} (hstep : env e w = some w') : ConnlostInv w' := by
  cases e with
  | mqttConnlost c =>
      obtain ⟨hc, rfl⟩ := by
        simpa only [Mqtt.env, Option.ite_none_right_eq_some, Option.some.injEq] using hstep
      exact h.mqttConnlost hc
  | lockTxbuf | unlockTxbuf | queueTxbuf =>
      obtain ⟨-, rfl⟩ := by
        simpa only [Mqtt.env, Option.ite_none_right_eq_some, Option.some.injEq] using hstep
      exact h.frame rfl rfl rfl rfl rfl
  | _ =>
      obtain rfl := by simpa only [Mqtt.env, Option.some.injEq] using hstep
      exact h.frame rfl rfl rfl rfl rfl

end ConnlostInv

theorem neverForgotten_of_clearsInTime {mdl : Settings} {tx : RingBuffer Message}
    {rx : RingBuffer Element} {ls : List (Label Outcome Event)} {c : Config}
    (hok : Runs.Always system.step (Outline.Allowed ClearsInTime fun _ _ ↦ True)
      (Config.start mdl tx rx) ls)
    (hrun : Runs.run system.step (Config.start mdl tx rx) ls = some c) :
    NeverForgotten c.state := by
  obtain ⟨-, hinv⟩ := (outline env_owned).run_invariant_of_allowed
    (I := ConnlostInv) (E := fun _ _ ↦ True)
    (fun op i w r w' hclear hpre h hexec ↦ h.exec hclear hpre hexec)
    (fun e w w' _ h hstep ↦ h.env hstep) hok (boundary_start mdl tx rx)
    ⟨by simp [Config.start, World.start], by simp [Config.start, World.start],
      by simp [Config.start, World.start, Dev.thrdMain],
      by simp [Config.start, World.start]⟩ hrun
  exact fun _ ↦ hinv.marked

/-- The connection is lost in the ready state, and the flag says so. -/
theorem neverForgotten_lostReady :
    let ls := steps 11 ++ .env (.mqttSendSmCmd cmdSmReady) :: (steps 25 ++ [.env (.mqttConnlost 0)])
    ∃ c : Config, Runs.run system.step Config.local ls = some c ∧
      c.state.lost = [0] ∧ c.state.owned.dev.cli = some 0 ∧ NeverForgotten c.state := by
  intro ls
  obtain ⟨c, hrun, hlost, hcli⟩ : ∃ c : Config, Runs.run system.step Config.local ls = some c ∧
      c.state.lost = [0] ∧ c.state.owned.dev.cli = some 0 := ⟨_, rfl, rfl, rfl⟩
  exact ⟨c, hrun, hlost, hcli, neverForgotten_of_clearsInTime (by decide) hrun⟩

/-- The connection is lost between the return of `MQTTClient_connect` and the
clearing of the flag: the machine is ready, and the loss is forgotten. -/
theorem not_neverForgotten_lostConnecting : ∃ (ls : List (Label Outcome Event)) (c : Config),
    Runs.run system.step Config.local ls = some c ∧ ¬ NeverForgotten c.state := by
  refine ⟨steps 11 ++ .env (.mqttSendSmCmd cmdSmReady) ::
    (steps 21 ++ .env (.mqttConnlost 0) :: steps 4), _, rfl, fun h ↦ ?_⟩
  exact absurd (h rfl 0 rfl (List.mem_cons_self ..)) (by decide)

end Mqtt
