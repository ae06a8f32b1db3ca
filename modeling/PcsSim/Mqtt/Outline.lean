import PcsSim.Mqtt.StateMachine

/-!
# A proof outline of the MQTT state machine

`rule` says what each action asks of the owned part of the state and what it
leaves there.  `Boundary` is the loop invariant: it holds whenever the thread
is between two ticks.  There is one lemma for each function of the state
machine, from `mqttConnect` up to `mqttSm`.
-/

namespace Mqtt

open Threads

def Library.Alive (lib : Library) (c : ClientId) : Prop :=
  c < lib.next ∧ c ∉ lib.destroyed

/-- The client in `dev->cli` is alive, and its connect and subscribe both
succeeded. -/
def Owned.HoldsClient (k : Owned) : Prop :=
  ∃ c, k.dev.cli = some c ∧ k.lib.Alive c ∧ c ∈ k.lib.connected ∧ c ∈ k.lib.subscribed

def Owned.Ready (k : Owned) : Prop := k.dev.sm.state = smstReady ∧ k.HoldsClient

/-- Clients yet to be created have not been destroyed. -/
def Library.Fresh (lib : Library) : Prop := ∀ c ∈ lib.destroyed, c < lib.next

structure Owned.Boundary (k : Owned) : Prop where
  idle : k.phase = .idle
  fresh : k.lib.Fresh
  step : k.dev.sm.step = 0 ∨ k.dev.sm.step = 10
  state : (k.dev.sm.state = smstOffline ∧ k.dev.cli = none) ∨ k.Ready

/-! ## The rule of each action -/

def rulePre : Op → Owned → Prop
  | .modifyDev f, k => (f k.dev).cli = k.dev.cli
  | .clientCreate .., k => k.dev.cli = none
  | .clientDestroy, k => ∃ c, k.dev.cli = some c ∧ k.lib.Alive c
  | .publishMessage .., k | .waitForCompletion, k => k.Ready
  | .mqttPeekTxbuf, k => k.phase = .idle
  | .mqttPubReturned m ret, k => k.phase = .peeked m ∧ (ret = 0 → k.handed = m.texts)
  | .mqttDequeueTxbuf, k => ∃ m, k.phase = .published m
  | _, _ => True

def rulePost : (op : Op) → Owned → (op.Reply → Owned → Prop) → Prop
  | .getDev, k, P => P k.dev k
  | .modifyDev f, k, P => P () (k.modifyDev f)
  | .getSettings, k, P => ∀ mdl, P mdl k
  | .gettimeofday, k, P => ∀ now, P now k
  | .uuid4, k, P => ∀ ok text, P (ok, text) k
  | .sprintf .., k, P => P () k
  | .mqttGetTxbufUsed, k, P | .mqttGetRxbufUsed, k, P | .mqttGetCmd, k, P
  | .getEnable, k, P | .getConnlost, k, P => ∀ val, P val k
  | .mqttResetCmd, k, P | .clearConnlost, k, P => P () k
  | .clientCreate .., k, P => ∀ rc, P () (k.clientCreate rc)
  | .clientSetCallbacks, k, P | .clientDisconnect, k, P => P () k
  | .clientConnect, k, P => ∀ c rc, k.dev.cli = some c → P rc (k.clientConnect c rc)
  | .clientSubscribe _ qos, k, P =>
      ∀ c rc, k.dev.cli = some c → P rc (k.clientSubscribe c qos rc)
  | .clientDestroy, k, P => P () k.clientDestroy
  | .publishMessage topic payload, k, P =>
      ∀ rc token, P rc (k.publishMessage topic payload token)
  | .waitForCompletion, k, P => ∀ rc, P rc k
  | .mqttPubReturned m ret, k, P => P () (k.afterPub m ret)
  | .mqttLockTxbuf, k, P | .mqttUnlockTxbuf, k, P => P () k
  | .mqttPeekTxbuf, k, P =>
      P (0, none) (k.afterPeek none) ∧ ∀ m, P (1, some m) (k.afterPeek (some m))
  | .mqttDequeueTxbuf, k, P => ∀ rc data, P (rc, data) (k.afterDequeue data)

def rule : Rule Op Op.Reply Owned := ⟨rulePre, rulePost⟩

theorem peek_eq_zero_or_one (b : RingBuffer Message) :
    mqttRingbufferPeek b 0 = (0, none) ∨ ∃ m, mqttRingbufferPeek b 0 = (1, some m) := by
  simp only [mqttRingbufferPeek, RingBuffer.peek]
  split
  · exact .inl rfl
  · exact .inr ⟨_, rfl⟩

theorem rule_sound (op : Op) (i : Outcome) (w : World) (r : op.Reply) (w' : World)
    (P : op.Reply → Owned → Prop) (hpost : rule.post op w.owned P)
    (hexec : exec op i w = some (r, w')) : P r w'.owned := by
  cases op with
  | mqttPeekTxbuf =>
      obtain ⟨hnone, hsome⟩ := hpost
      simp only [exec, Option.some.injEq] at hexec
      obtain ⟨rfl, rfl⟩ := hexec
      rcases peek_eq_zero_or_one w.txbuf with h | ⟨m, h⟩ <;> rw [h]
      · exact hnone
      · exact hsome m
  | clientConnect | clientSubscribe | publishMessage =>
      simp only [exec, Option.map_eq_some_iff] at hexec
      obtain ⟨c, hc, rfl, rfl⟩ := hexec
      first
        | exact hpost c _ hc
        | exact hpost _ _
  | uuid4 | sprintf | mqttLockTxbuf =>
      simp only [exec, Option.ite_none_right_eq_some, Option.some.injEq] at hexec
      obtain ⟨-, rfl, rfl⟩ := hexec
      first
        | exact hpost
        | exact hpost _ _
  | _ =>
      simp only [exec, Option.some.injEq] at hexec
      obtain ⟨rfl, rfl⟩ := hexec
      first
        | exact hpost
        | exact hpost _
        | exact hpost _ _

theorem wp_action {α : Type} (op : Op) (next : op.Reply → MqttCode α) (P : α → Owned → Prop)
    (k : Owned) : wp rule (.call op next) P k ↔
      rulePre op k ∧ rulePost op k fun r k ↦ wp rule (next r) P k := Iff.rfl

theorem wp_modifySm {α : Type} (f : StateMachine → StateMachine) (next : Unit → MqttCode α)
    (P : α → Owned → Prop) (k : Owned) :
    wp rule (modifySm f >>= next) P k ↔ wp rule (next ()) P (k.modifySm f) := by
  simp only [modifySm, Code.perform, Code.call_bind, Code.done_bind, wp_action, rulePre,
    rulePost, true_and]
  rfl

theorem wp_modifySm_last (f : StateMachine → StateMachine) (P : Unit → Owned → Prop)
    (k : Owned) : wp rule (modifySm f) P k ↔ P () (k.modifySm f) := by
  simp only [modifySm, Code.perform, wp_action, rulePre, rulePost, true_and]
  rfl

/-! ## The functions of the state machine -/

/-- While a connect is tried the machine keeps its state and step, and what
is in `dev->cli` is nothing or a client that is alive. -/
structure Owned.Connecting (k : Owned) : Prop where
  idle : k.phase = .idle
  fresh : k.lib.Fresh
  step : k.dev.sm.step = 10
  state : k.dev.sm.state = smstOffline
  alive : ∀ c, k.dev.cli = some c → k.lib.Alive c

namespace Owned.Connecting

variable {k : Owned}

theorem modifyDev (h : k.Connecting) {f : Dev → Dev} (hcli : (f k.dev).cli = k.dev.cli)
    (hstep : (f k.dev).sm.step = k.dev.sm.step) (hstate : (f k.dev).sm.state = k.dev.sm.state) :
    (k.modifyDev f).Connecting where
  idle := h.idle
  fresh := h.fresh
  step := hstep.trans h.step
  state := hstate.trans h.state
  alive c hc := h.alive c (hcli.symm.trans hc)

theorem clientCreate (h : k.Connecting) (rc : ℤ) : (k.clientCreate rc).Connecting := by
  unfold Owned.clientCreate
  split
  · refine ⟨h.idle, fun c hc ↦ (h.fresh c hc).trans (Nat.lt_succ_self _), h.step, h.state, ?_⟩
    rintro c hc
    obtain rfl : k.lib.next = c := by simpa using hc
    exact ⟨Nat.lt_succ_self _, fun hd ↦ (h.fresh _ hd).false⟩
  · exact h

theorem clientConnect (h : k.Connecting) (c : ClientId) (rc : ℤ) :
    (k.clientConnect c rc).Connecting := by
  unfold Owned.clientConnect
  split
  · exact ⟨h.idle, h.fresh, h.step, h.state, h.alive⟩
  · exact h

theorem clientSubscribe (h : k.Connecting) (c : ClientId) (qos rc : ℤ) :
    (k.clientSubscribe c qos rc).Connecting := by
  unfold Owned.clientSubscribe
  split
  · exact ⟨h.idle, h.fresh, h.step, h.state, h.alive⟩
  · exact h

end Owned.Connecting

@[simp] theorem cli_clientConnect (k : Owned) (c : ClientId) (rc : ℤ) :
    (k.clientConnect c rc).dev.cli = k.dev.cli := by
  unfold Owned.clientConnect
  split <;> rfl

theorem wp_mqttConnectCreate {k : Owned} {mdl : Settings} {bufUuid : Bytes}
    {P : Unit → Owned → Prop} (hk : k.Connecting) (hcli : k.dev.cli = none)
    (hP : ∀ k', k'.Connecting → P () k') : wp rule (mqttConnectCreate mdl bufUuid) P k := by
  simp only [mqttConnectCreate, Code.perform, Code.call_bind, Code.done_bind, wp_action,
    wp_done, rulePre, rulePost, true_and]
  refine ⟨hcli, fun rc ↦ hP _ ?_⟩
  exact ((hk.modifyDev rfl rfl rfl).modifyDev rfl rfl rfl).clientCreate rc

/-- `mqtt_connect` leaves a client that is alive or none, and one that is
connected and subscribed when it does not report a failure. -/
theorem wp_mqttConnect {k : Owned} {P : ℤ → Owned → Prop} (hk : k.Connecting)
    (hcli : k.dev.cli = none)
    (hP : ∀ ret k', k'.Connecting → (0 ≤ ret → k'.HoldsClient) → P ret k') :
    wp rule mqttConnect P k := by
  simp only [mqttConnect, Code.perform, Code.call_bind, Code.done_bind, wp_action, wp_bind,
    rulePre, rulePost, true_and]
  intro ok bufUuid mdl
  apply wp_mqttConnectCreate hk hcli
  intro k₁ hk₁
  simp only [wp_action, rulePre, rulePost, true_and]
  intro c rcConnect hc c' rcSubscribe hc'
  rw [cli_clientConnect, hc] at hc'
  obtain rfl : c = c' := Option.some.inj hc'
  apply hP _ _ ((hk₁.clientConnect c rcConnect).clientSubscribe c 2 rcSubscribe)
  intro hret
  -- a return code that is not negative says that no step failed
  have hsubscribe : rcSubscribe = mqttclientSuccess ∨ rcSubscribe = 2 := by
    by_contra h
    rw [if_pos (not_or.mp h)] at hret
    exact absurd hret (by decide)
  have hconnect : rcConnect = mqttclientSuccess := by
    by_contra h
    rw [if_neg (by tauto), if_pos h] at hret
    exact absurd hret (by decide)
  obtain ⟨hlt, hnot⟩ := hk₁.alive c hc
  refine ⟨c, ?_, ?_, ?_, ?_⟩ <;>
    simp [Owned.clientSubscribe, Owned.clientConnect, hsubscribe, hconnect, hc, Library.Alive,
      hlt, hnot]

theorem Library.Fresh.clientDestroy {k : Owned} {c : ClientId} (h : k.lib.Fresh)
    (hcli : k.dev.cli = some c) (hlt : c < k.lib.next) : k.clientDestroy.lib.Fresh := by
  intro d hd
  have hd' : d = c ∨ d ∈ k.lib.destroyed := by
    simpa [Owned.clientDestroy, hcli] using hd
  rcases hd' with rfl | hd'
  · exact hlt
  · exact h d hd'

theorem wp_destroyHeld {k : Owned} {P : Unit → Owned → Prop} (hfresh : k.lib.Fresh)
    (halive : ∀ c, k.dev.cli = some c → k.lib.Alive c)
    (hP : ∀ k', k'.dev.cli = none → k'.dev.sm = k.dev.sm → k'.phase = k.phase →
      k'.lib.Fresh → P () k') : wp rule destroyHeld P k := by
  simp only [destroyHeld, Code.perform, Code.call_bind, Code.done_bind, wp_action, rulePre,
    rulePost, true_and]
  cases hcli : k.dev.cli with
  | none => exact hP k hcli rfl rfl hfresh
  | some c =>
      have hc := halive c hcli
      exact ⟨⟨c, hcli, hc⟩, hP _ rfl rfl rfl (hfresh.clientDestroy hcli hc.1)⟩

theorem wp_disconnectHeld {k : Owned} {P : Unit → Owned → Prop} (hfresh : k.lib.Fresh)
    (halive : ∀ c, k.dev.cli = some c → k.lib.Alive c)
    (hP : ∀ k', k'.dev.cli = none → k'.phase = k.phase → k'.lib.Fresh → P () k') :
    wp rule disconnectHeld P k := by
  simp only [disconnectHeld, Code.perform, Code.call_bind, Code.done_bind, wp_action, rulePre,
    rulePost, true_and]
  cases hcli : k.dev.cli with
  | none => exact hP k hcli rfl hfresh
  | some c =>
      have hc := halive c hcli
      exact ⟨trivial, ⟨c, hcli, hc⟩, hP _ rfl rfl (hfresh.clientDestroy hcli hc.1)⟩

theorem wp_mqttSmTryConnect {k : Owned} (hk : k.Connecting) (hcli : k.dev.cli = none) :
    wp rule mqttSmTryConnect (fun _ ↦ Owned.Boundary) k := by
  simp only [mqttSmTryConnect, wp_bind]
  apply wp_mqttConnect hk hcli
  intro ret k₁ hk₁ hholds
  by_cases hret : ret < 0
  · rw [if_pos hret, wp_bind]
    apply wp_destroyHeld hk₁.fresh hk₁.alive
    intro k₂ hcli₂ hsm hphase hfresh
    rw [wp_modifySm_last]
    refine ⟨hphase.trans hk₁.idle, hfresh, .inr ?_, .inl ⟨?_, hcli₂⟩⟩
    · simpa [Owned.modifySm, Owned.modifyDev, hsm] using hk₁.step
    · simpa [Owned.modifySm, Owned.modifyDev, hsm] using hk₁.state
  · obtain ⟨c, hheld⟩ := hholds (not_lt.mp hret)
    simp only [if_neg hret, Code.perform, Code.call_bind, Code.done_bind, wp_action,
      wp_modifySm_last, rulePre, rulePost, true_and]
    exact ⟨hk₁.idle, hk₁.fresh, .inl rfl, .inr ⟨rfl, c, hheld⟩⟩

theorem wp_mqttSmOffline {k : Owned} (hk : k.Boundary) (hstate : k.dev.sm.state = smstOffline)
    (hcli : k.dev.cli = none) : wp rule mqttSmOffline (fun _ ↦ Owned.Boundary) k := by
  simp only [mqttSmOffline, Code.perform, Code.call_bind, Code.done_bind, wp_action, rulePre,
    rulePost, true_and]
  by_cases hzero : k.dev.sm.step = 0
  · simp only [if_pos hzero, wp_action, wp_modifySm_last, rulePre, rulePost, true_and]
    exact ⟨hk.idle, hk.fresh, .inr rfl, .inl ⟨hstate, hcli⟩⟩
  have hten : k.dev.sm.step = 10 := hk.step.resolve_left hzero
  have hconnecting : ∀ f : StateMachine → StateMachine, (f k.dev.sm).step = k.dev.sm.step →
      (f k.dev.sm).state = k.dev.sm.state → (k.modifySm f).Connecting :=
    fun f hstep hsame ↦ ⟨hk.idle, hk.fresh, hstep.trans hten, hsame.trans hstate,
      fun c hc ↦ by simp [Owned.modifySm, Owned.modifyDev, hcli] at hc⟩
  simp only [if_neg hzero, if_pos hten, wp_action, rulePre, rulePost, true_and]
  intro cmd
  by_cases hcmd : cmd = cmdSmReady
  · simp only [if_pos hcmd, wp_action, rulePre, rulePost, true_and]
    exact wp_mqttSmTryConnect (hconnecting id rfl rfl) hcli
  simp only [if_neg hcmd, wp_modifySm, wp_action, rulePre, rulePost, true_and]
  split
  · simp only [wp_modifySm, wp_action, rulePre, rulePost, true_and]
    intro enable
    split
    · exact wp_mqttSmTryConnect
        (hconnecting (fun sm ↦ sm.incCount.setCount 0) rfl rfl) hcli
    · exact ⟨hk.idle, hk.fresh, .inr hten, .inl ⟨hstate, hcli⟩⟩
  · exact ⟨hk.idle, hk.fresh, .inr hten, .inl ⟨hstate, hcli⟩⟩

/-- The machine is ready at step 10 and the message peeked, if there is one,
has got as far as `phase`. -/
structure Owned.Polling (phase : Phase) (k : Owned) : Prop where
  phase : k.phase = phase
  fresh : k.lib.Fresh
  step : k.dev.sm.step = 10
  ready : k.Ready

theorem Owned.Polling.modifyDev {phase : Phase} {k : Owned} (h : k.Polling phase)
    {f : Dev → Dev} (hcli : (f k.dev).cli = k.dev.cli) (hsm : (f k.dev).sm = k.dev.sm) :
    (k.modifyDev f).Polling phase := by
  obtain ⟨hstate, c, hc, hrest⟩ := h.ready
  exact ⟨h.phase, h.fresh, (congrArg StateMachine.step hsm).trans h.step,
    (congrArg StateMachine.state hsm).trans hstate, c, hcli.trans hc, hrest⟩

theorem Owned.Polling.publishMessage {phase : Phase} {k : Owned} (h : k.Polling phase)
    (topic payload : Bytes) (token : ℤ) : (k.publishMessage topic payload token).Polling phase :=
  ⟨h.phase, h.fresh, h.step, h.ready⟩

theorem Owned.Polling.boundary {k : Owned} (h : k.Polling .idle) : k.Boundary :=
  ⟨h.phase, h.fresh, .inr h.step, .inr h.ready⟩

/-- The library is given the texts that `mqtt_pub` is called with. -/
theorem wp_mqttPub {phase : Phase} {k : Owned} {sztopic szpayload : Bytes}
    {P : ℤ → Owned → Prop} (hk : k.Polling phase)
    (hP : ∀ ret k', k'.Polling phase → k'.handed = (sztopic, szpayload) → P ret k') :
    wp rule (mqttPub sztopic szpayload) P k := by
  simp only [mqttPub, Code.perform, Code.call_bind, Code.done_bind, wp_action, rulePre,
    rulePost, true_and]
  intro starttime
  have hstarted := hk.modifyDev
    (f := fun dev ↦ { dev with pubStarttime := starttime }) rfl rfl
  refine ⟨hstarted.ready, fun rc token ↦ ?_⟩
  have hsent := hstarted.publishMessage sztopic szpayload token
  by_cases hrc : rc ≠ mqttclientSuccess
  · simp only [if_pos hrc, wp_action, rulePre, rulePost]
    exact ⟨rfl, hP _ _ (hsent.modifyDev rfl rfl) rfl⟩
  simp only [if_neg hrc, wp_action, rulePre, rulePost]
  refine ⟨hsent.ready, fun rc ↦ ?_⟩
  by_cases hrc : rc ≠ mqttclientSuccess
  · simp only [if_pos hrc, wp_action, rulePre, rulePost]
    exact ⟨rfl, hP _ _ (hsent.modifyDev rfl rfl) rfl⟩
  · simp only [if_neg hrc, wp_action, rulePre, rulePost, true_and]
    exact fun endtime ↦ ⟨rfl, hP _ _ (hsent.modifyDev rfl rfl) rfl⟩

theorem wp_mqttSmSend {k : Owned} (hk : k.Polling .idle) :
    wp rule mqttSmSend (fun _ ↦ Owned.Boundary) k := by
  simp only [mqttSmSend, Code.perform, Code.call_bind, Code.done_bind, wp_action, rulePre,
    rulePost, true_and]
  refine ⟨hk.phase, ?_, fun m ↦ ?_⟩
  · -- the buffer was empty
    exact ⟨rfl, hk.fresh, .inr hk.step, .inr hk.ready⟩
  simp only [if_true, Option.getD_some, wp_bind]
  have hpeeked : (k.afterPeek (some m)).Polling (.peeked m) :=
    ⟨rfl, hk.fresh, hk.step, hk.ready⟩
  apply wp_mqttPub hpeeked
  intro ret k₁ hk₁ hhanded
  simp only [wp_action, rulePre, rulePost]
  refine ⟨⟨hk₁.phase, fun _ ↦ hhanded⟩, ?_⟩
  by_cases hret : ret = 0
  · have hpublished : (k₁.afterPub m ret).Polling (.published m) := by
      rw [hret, Owned.afterPub_of_handed hhanded]
      exact ⟨rfl, hk₁.fresh, hk₁.step, hk₁.ready⟩
    simp only [if_pos hret, wp_action, rulePre, rulePost, true_and]
    refine ⟨⟨m, hpublished.phase⟩, fun rc data ↦ ?_⟩
    exact ⟨rfl, hpublished.fresh, .inr hpublished.step, .inr hpublished.ready⟩
  · have hfailed : (k₁.afterPub m ret).Polling .idle := by
      rw [Owned.afterPub_of_ne_zero hret]
      exact ⟨rfl, hk₁.fresh, hk₁.step, hk₁.ready⟩
    simp only [if_neg hret]
    exact hfailed.boundary

theorem wp_mqttSmReady {k : Owned} (hk : k.Boundary) (hready : k.Ready) :
    wp rule mqttSmReady (fun _ ↦ Owned.Boundary) k := by
  obtain ⟨hstate, c, hcli, halive, hrest⟩ := id hready
  have hheld : ∀ d, k.dev.cli = some d → k.lib.Alive d := by
    intro d hd
    obtain rfl : c = d := Option.some.inj (hcli.symm.trans hd)
    exact halive
  simp only [mqttSmReady, Code.perform, Code.call_bind, Code.done_bind, wp_action, rulePre,
    rulePost, true_and]
  by_cases hzero : k.dev.sm.step = 0
  · simp only [if_pos hzero, wp_action, wp_modifySm_last, rulePre, rulePost, true_and]
    exact ⟨hk.idle, hk.fresh, .inr rfl, .inr ⟨hstate, c, hcli, halive, hrest⟩⟩
  have hten : k.dev.sm.step = 10 := hk.step.resolve_left hzero
  simp only [if_neg hzero, if_pos hten, wp_action, rulePre, rulePost, true_and]
  intro cmd
  by_cases hcmd : cmd = cmdSmOffline
  · simp only [if_pos hcmd, wp_action, wp_bind, rulePre, rulePost, true_and]
    apply wp_disconnectHeld hk.fresh hheld
    intro k₁ hcli₁ hphase hfresh
    rw [wp_modifySm_last]
    exact ⟨hphase.trans hk.idle, hfresh, .inl rfl, .inl ⟨rfl, hcli₁⟩⟩
  simp only [if_neg hcmd, wp_action, rulePre, rulePost, true_and]
  intro connlost
  by_cases hlost : connlost ≠ 0
  · rw [if_pos hlost, wp_bind]
    apply wp_destroyHeld hk.fresh hheld
    intro k₁ hcli₁ _ hphase hfresh
    rw [wp_modifySm_last]
    exact ⟨hphase.trans hk.idle, hfresh, .inl rfl, .inl ⟨rfl, hcli₁⟩⟩
  · simp only [if_neg hlost]
    exact wp_mqttSmSend ⟨hk.idle, hk.fresh, hten, hready⟩

theorem Owned.Boundary.modifyDev {k : Owned} (h : k.Boundary) {f : Dev → Dev}
    (hcli : (f k.dev).cli = k.dev.cli) (hstep : (f k.dev).sm.step = k.dev.sm.step)
    (hstate : (f k.dev).sm.state = k.dev.sm.state) : (k.modifyDev f).Boundary where
  idle := h.idle
  fresh := h.fresh
  step := h.step.imp hstep.trans hstep.trans
  state := by
    rcases h.state with ⟨hoffline, hnone⟩ | ⟨hready, c, hc, hrest⟩
    · exact .inl ⟨hstate.trans hoffline, hcli.trans hnone⟩
    · exact .inr ⟨hstate.trans hready, c, hcli.trans hc, hrest⟩

theorem wp_mqttSm {k : Owned} (hk : k.Boundary) :
    wp rule mqttSm (fun _ ↦ Owned.Boundary) k := by
  simp only [mqttSm, Code.perform, Code.call_bind, Code.done_bind, wp_action, wp_modifySm,
    rulePre, rulePost, true_and]
  intro now tx rx
  have htimed : (k.modifySm (·.calTiming now)).Boundary :=
    hk.modifyDev rfl (StateMachine.step_calTiming _ _) (StateMachine.state_calTiming _ _)
  have hmeasured := (htimed.modifyDev
    (f := fun dev ↦ { dev with txbufUsage := tx / mqttRingBufferSize * 100 })
    rfl rfl rfl).modifyDev
    (f := fun dev ↦ { dev with rxbufUsage := rx / mqttRingBufferSize * 100 }) rfl rfl rfl
  have hne : smstOffline ≠ smstReady := by decide
  rcases hmeasured.state with ⟨hoffline, hcli⟩ | hready
  · rw [if_pos hoffline]
    exact wp_mqttSmOffline hmeasured hoffline hcli
  · rw [if_neg (fun h ↦ hne (h.symm.trans hready.1)), if_pos hready.1]
    exact wp_mqttSmReady hmeasured hready

/-- The outline of the thread, whatever the others do to the part of the state
that the thread does not own. -/
theorem outline {ε : Type} {env : ε → World → Option World}
    (henv : ∀ e w w', env e w = some w' → w'.owned = w.owned) :
    Outline (systemWith env) World.owned rule Owned.Boundary where
  env_own := henv
  sound := rule_sound
  body _ hk := wp_mqttSm hk

theorem env_owned (e : Event) (w w' : World) (h : env e w = some w') : w'.owned = w.owned := by
  cases e <;>
    simp only [env, World.mqttQueueTxbuf, Option.ite_none_right_eq_some,
      Option.some.injEq] at h <;> grind

theorem boundary_start (mdl : Settings) (tx : RingBuffer Message) (rx : RingBuffer Element) :
    (World.start mdl tx rx).owned.Boundary where
  idle := rfl
  fresh := fun _ hc ↦ absurd hc List.not_mem_nil
  step := .inl rfl
  state := .inl ⟨rfl, rfl⟩

end Mqtt
