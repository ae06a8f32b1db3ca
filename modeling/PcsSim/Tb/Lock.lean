import PcsSim.Cloud.Safety
import PcsSim.Lib.Runs
import PcsSim.Lib.TimedLock

/-!
# The lock of the remote control

`tb_lock` and `tb_lock_timer` are a `TimedLock` that takes its orders from the
`set_lock` messages.
-/

namespace Tb

open CJson Mqtt Runs

variable {D : Type}

/-- What `tb_exe` finds and what it hands over in one call. -/
structure Tick where
  /-- what `tbmqtt_dequeue_rxbuf` stored, if it returned 1 -/
  received : Option Element
  /-- what the uploads queued; they print buffers that nothing has filled -/
  uploads : List Element

def tbExe (numbers : Numbers D) (nullText : Option Bytes) (tick : Tick) (dev : State D) :
    Except Fault (State D) := do
  let dev ← tbProcRecv numbers nullText tick.received dev
  return { dev with queued := dev.queued ++ tick.uploads }

def step (numbers : Numbers D) (nullText : Option Bytes) (dev : State D) (tick : Tick) :
    Option (State D) :=
  (tbExe numbers nullText tick dev).toOption

/-- When the message of the tick is processed. -/
def atMessage (dev : State D) : State D := relock (announce dev)

/-- The tick starts with an automatic relock. -/
def Relocks (dev : State D) : Prop := dev.tbLock = 0 ∧ dev.tbLockTimer ≥ dev.tbLockIntv

/-- The document that the tick processes. -/
def Tick.root (numbers : Numbers D) (tick : Tick) : Option (CJson D) :=
  tick.received.bind fun e ↦ parse numbers e.szpayload

def Tick.WellTyped (numbers : Numbers D) (tick : Tick) : Prop :=
  ∀ root ∈ tick.root numbers, Accepts root

/-- The text of the method `name` of the document, if that is its method. -/
def IsMethod (name : String) (root : CJson D) : Prop :=
  ∃ item, root.getObjectItem (ascii "method") = some item ∧ item.valuestring = some (ascii name)

instance (name : String) (root : CJson D) : Decidable (IsMethod name root) :=
  decidable_of_iff (∃ item ∈ root.getObjectItem (ascii "method"),
    item.valuestring = some (ascii name)) (by simp [IsMethod])

def lockText (root : CJson D) : Option Bytes :=
  if IsMethod "set_lock" root then
    (root.getObjectItem (ascii "params")).bind CJson.valuestring
  else none

def Tick.lockText (numbers : Numbers D) (tick : Tick) : Option Bytes :=
  (tick.root numbers).bind Tb.lockText

/-- A `set_lock` message that is `lock`. -/
def Tick.Locks (numbers : Numbers D) (tick : Tick) : Prop :=
  tick.lockText numbers = some (ascii "lock")

/-- A `set_lock` message other than `lock`. -/
def Tick.Unlocks (numbers : Numbers D) (tick : Tick) : Prop :=
  ∃ s, tick.lockText numbers = some s ∧ s ≠ ascii "lock"

def Tick.SetsAps (numbers : Numbers D) (tick : Tick) : Prop :=
  ∃ root, tick.root numbers = some root ∧ IsMethod "set_aps" root

variable {numbers : Numbers D} {nullText : Option Bytes} {root : CJson D} {dev dev' : State D}
  {tick : Tick}

section Messages

/-- What a `set_lock` leaves of the state. -/
def obeyLock : Option Bytes → State D → State D
  | none, dev => dev
  | some s, dev => { dev with tbLock := if s = ascii "lock" then 1 else 0 }

@[simp] theorem obeyLock_none (dev : State D) : obeyLock none dev = dev := rfl

theorem setLock_eq_ok (h : setLock nullText root dev = .ok dev') :
    dev' = obeyLock ((root.getObjectItem (ascii "params")).bind CJson.valuestring) dev := by
  unfold setLock at h
  cases hparams : root.getObjectItem (ascii "params") with
  | none =>
      simp only [hparams, Except.ok.injEq] at h
      exact h.symm
  | some params =>
      simp only [hparams, Except.bind_eq_ok_iff] at h
      obtain ⟨_, -, lock, hlock, h⟩ := h
      obtain ⟨s, hs, rfl⟩ := strcmpZero_eq_ok.mp hlock
      rw [Option.bind_some, hs]
      cases h
      simp [obeyLock]

theorem unlockedMethod_eq_ok {item : CJson D}
    (h : unlockedMethod nullText root item dev = .ok dev') :
    dev' = dev ∨ item.valuestring = some (ascii "set_aps") ∧ dev' = setAps root dev := by
  simp only [unlockedMethod, Except.bind_eq_ok_iff] at h
  obtain ⟨stdby, -, h⟩ := h
  split_ifs at h
  · cases h
    exact .inl rfl
  · obtain ⟨aps, haps, h⟩ := Except.bind_eq_ok_iff.mp h
    obtain ⟨s, hs, rfl⟩ := strcmpZero_eq_ok.mp haps
    split_ifs at h with hset
    · cases h
      exact .inr ⟨by simpa [hs] using hset, rfl⟩
    · obtain ⟨_, -, h⟩ := Except.bind_eq_ok_iff.mp h
      cases h
      exact .inl rfl

/-- A document orders the lock, sets `tmpaps`, or does nothing. -/
theorem procRoot_cases (h : procRoot nullText root dev = .ok dev') :
    dev' = obeyLock (lockText root) dev ∨
      lockText root = none ∧ IsMethod "set_aps" root ∧ dev.tbLock = 0 ∧
        dev' = setAps root dev := by
  unfold procRoot at h
  cases hmethod : root.getObjectItem (ascii "method") with
  | none =>
      have hnot : ¬IsMethod "set_lock" root := by simp [IsMethod, hmethod]
      simp only [hmethod, Except.ok.injEq] at h
      simp [lockText, hnot, h]
  | some item =>
      simp only [hmethod, procMethod, Except.bind_eq_ok_iff] at h
      obtain ⟨_, -, lock, hlock, h⟩ := h
      obtain ⟨s, hs, rfl⟩ := strcmpZero_eq_ok.mp hlock
      have hmethod_iff : ∀ name, IsMethod name root ↔ s = ascii name := by
        simp [IsMethod, hmethod, hs]
      by_cases hset : s = ascii "set_lock"
      · rw [if_pos (decide_eq_true hset)] at h
        rw [lockText, if_pos ((hmethod_iff _).mpr hset)]
        exact .inl (setLock_eq_ok h)
      · rw [if_neg (by simpa using hset)] at h
        rw [lockText, if_neg (mt (hmethod_iff _).mp hset)]
        split_ifs at h with hlocked
        · cases h
          exact .inl rfl
        · rcases unlockedMethod_eq_ok h with rfl | ⟨haps, rfl⟩
          · exact .inl rfl
          · refine .inr ⟨rfl, (hmethod_iff _).mpr ?_, not_not.mp hlocked, rfl⟩
            exact Option.some.inj (hs.symm.trans haps)

/-- What a tick leaves of the lock and of `tmpaps`. -/
structure Ticked (numbers : Numbers D) (tick : Tick) (dev dev' : State D) : Prop where
  tbLock : dev'.tbLock = (obeyLock (tick.lockText numbers) (atMessage dev)).tbLock
  tbLockTimer : dev'.tbLockTimer = (atMessage dev).tbLockTimer
  tbLockIntv : dev'.tbLockIntv = (atMessage dev).tbLockIntv
  tmpaps : dev'.tmpaps = dev.tmpaps ∧ dev'.tmpapsReceived = dev.tmpapsReceived ∨
    tick.SetsAps numbers ∧ (atMessage dev).tbLock = 0

@[simp] theorem tmpaps_atMessage (dev : State D) :
    (atMessage dev).tmpaps = dev.tmpaps ∧ (atMessage dev).tmpapsReceived = dev.tmpapsReceived := by
  unfold atMessage relock announce tbUpdateAttributes
  split_ifs <;> exact ⟨rfl, rfl⟩

theorem ticked_obeyLock {s : Option Bytes} (hs : tick.lockText numbers = s)
    (hdev : dev'.tbLock = (obeyLock s (atMessage dev)).tbLock)
    (hrest : dev'.tbLockTimer = (atMessage dev).tbLockTimer ∧
      dev'.tbLockIntv = (atMessage dev).tbLockIntv ∧
      dev'.tmpaps = (atMessage dev).tmpaps ∧
      dev'.tmpapsReceived = (atMessage dev).tmpapsReceived) : Ticked numbers tick dev dev' := by
  obtain ⟨htimer, hintv, haps, hreceived⟩ := hrest
  obtain ⟨haps', hreceived'⟩ := tmpaps_atMessage dev
  exact ⟨hs ▸ hdev, htimer, hintv, .inl ⟨haps.trans haps', hreceived.trans hreceived'⟩⟩

theorem rest_obeyLock (s : Option Bytes) (dev : State D) :
    (obeyLock s dev).tbLockTimer = dev.tbLockTimer ∧
      (obeyLock s dev).tbLockIntv = dev.tbLockIntv ∧
      (obeyLock s dev).tmpaps = dev.tmpaps ∧
      (obeyLock s dev).tmpapsReceived = dev.tmpapsReceived := by
  cases s with
  | none => exact ⟨rfl, rfl, rfl, rfl⟩
  | some s => exact ⟨rfl, rfl, rfl, rfl⟩

theorem tbLock_setAps (root : CJson D) (dev : State D) :
    (setAps root dev).tbLock = dev.tbLock ∧ (setAps root dev).tbLockTimer = dev.tbLockTimer ∧
      (setAps root dev).tbLockIntv = dev.tbLockIntv := by
  unfold setAps
  split <;> exact ⟨rfl, rfl, rfl⟩

theorem step_ticked (h : step numbers nullText dev tick = some dev') :
    Ticked numbers tick dev dev' := by
  rw [step, Except.toOption_eq_some_iff, tbExe, Except.bind_eq_ok_iff] at h
  obtain ⟨mid, hmid, h⟩ := h
  cases h
  unfold tbProcRecv at hmid
  cases hreceived : tick.received with
  | none =>
      simp only [hreceived, Except.ok.injEq] at hmid
      cases hmid
      exact ticked_obeyLock (s := none) (by simp [Tick.lockText, Tick.root, hreceived]) rfl
        ⟨rfl, rfl, rfl, rfl⟩
  | some e =>
      cases hparse : parse numbers e.szpayload with
      | none =>
          simp only [hreceived, hparse, Except.ok.injEq] at hmid
          cases hmid
          exact ticked_obeyLock (s := none)
            (by simp [Tick.lockText, Tick.root, hreceived, hparse]) rfl ⟨rfl, rfl, rfl, rfl⟩
      | some root =>
          have hroot : tick.root numbers = some root := by simp [Tick.root, hreceived, hparse]
          simp only [hreceived, hparse, Except.bind_eq_ok_iff] at hmid
          obtain ⟨proc, hproc, hmid⟩ := hmid
          cases hmid
          rcases procRoot_cases hproc with rfl | ⟨hnone, haps, hopen, rfl⟩
          · exact ticked_obeyLock (s := lockText root) (by simp [Tick.lockText, hroot]) rfl
              (rest_obeyLock _ _)
          · have hkeep := tbLock_setAps root (atMessage dev)
            have htext : tick.lockText numbers = none := by simp [Tick.lockText, hroot, hnone]
            refine ⟨?_, hkeep.2.1, hkeep.2.2, .inr ⟨⟨root, hroot, haps⟩, hopen⟩⟩
            rw [htext, obeyLock_none]
            exact hkeep.1

end Messages

section Refinement

/-- The lock that `tb_lock` and its counter are. -/
def timedLock (dev : State D) : TimedLock where
  isOpen := decide (dev.tbLock = 0)
  count := dev.tbLockTimer.toNat

/-- The counter has not started below 0, and counts to `limit`. -/
structure Counts (limit : ℕ) (dev : State D) : Prop where
  timer : 0 ≤ dev.tbLockTimer
  intv : dev.tbLockIntv = limit

def Tick.order (numbers : Numbers D) (tick : Tick) : Option TimedLock.Order :=
  (tick.lockText numbers).map fun s ↦ if s = ascii "lock" then .lock else .unlock

theorem order_eq_lock : tick.order numbers = some .lock ↔ tick.Locks numbers := by
  unfold Tick.order Tick.Locks
  cases tick.lockText numbers with
  | none => simp
  | some s => by_cases hs : s = ascii "lock" <;> simp [hs]

theorem order_eq_unlock : tick.order numbers = some .unlock ↔ tick.Unlocks numbers := by
  unfold Tick.order Tick.Unlocks
  cases tick.lockText numbers with
  | none => simp
  | some s => by_cases hs : s = ascii "lock" <;> simp [hs]

theorem counts_tbInit : Counts 15 (tbInit : State D) := ⟨le_rfl, rfl⟩

theorem timedLock_announce (dev : State D) : timedLock (announce dev) = timedLock dev := by
  unfold announce
  split <;> rfl

theorem Counts.announce {limit : ℕ} (h : Counts limit dev) : Counts limit (announce dev) := by
  unfold Tb.announce
  split
  · exact ⟨h.timer, h.intv⟩
  · exact h

theorem relocks_iff {limit : ℕ} (h : Counts limit dev) :
    Relocks dev ↔ (timedLock dev).Expired limit := by
  obtain ⟨htimer, hintv⟩ := h
  simp only [Relocks, TimedLock.Expired, timedLock, hintv, decide_eq_true_eq]
  omega

theorem Counts.relock {limit : ℕ} (h : Counts limit dev) :
    Counts limit (relock dev) ∧ timedLock (relock dev) = (timedLock dev).tick limit := by
  have hexp := relocks_iff h
  obtain ⟨htimer, hintv⟩ := h
  unfold Tb.relock
  by_cases hopen : dev.tbLock = 0
  · have hisOpen : (timedLock dev).isOpen = true := decide_eq_true hopen
    rw [if_pos hopen, TimedLock.tick, if_pos hisOpen]
    by_cases hlimit : dev.tbLockTimer ≥ dev.tbLockIntv
    · rw [if_pos hlimit, if_pos (hexp.mp ⟨hopen, hlimit⟩).2]
      exact ⟨⟨le_rfl, hintv⟩, rfl⟩
    · rw [if_neg hlimit, if_neg fun hle ↦ hlimit (hexp.mpr ⟨hisOpen, hle⟩).2]
      refine ⟨⟨Int.add_nonneg htimer (by decide), hintv⟩, ?_⟩
      ext
      · exact hisOpen
      · exact Int.toNat_add htimer (by decide)
  · have hisOpen : ¬(timedLock dev).isOpen = true := by simpa [timedLock] using hopen
    rw [if_neg hopen, TimedLock.tick, if_neg hisOpen]
    exact ⟨⟨htimer, hintv⟩, rfl⟩

theorem Counts.atMessage {limit : ℕ} (h : Counts limit dev) :
    Counts limit (atMessage dev) ∧
      timedLock (atMessage dev) = (timedLock dev).tick limit := by
  obtain ⟨hcounts, hlock⟩ := h.announce.relock
  exact ⟨hcounts, hlock.trans (congrArg _ (timedLock_announce dev))⟩

theorem timedLock_obeyLock (s : Option Bytes) (dev : State D) :
    timedLock (obeyLock s dev) =
      TimedLock.obey (s.map fun s ↦ if s = ascii "lock" then .lock else .unlock)
        (timedLock dev) := by
  cases s with
  | none => rfl
  | some s =>
      by_cases hs : s = ascii "lock"
      · simp [obeyLock, timedLock, TimedLock.obey, hs]
      · simp [obeyLock, timedLock, TimedLock.obey, hs]

theorem Ticked.timedLock {limit : ℕ} (h : Ticked numbers tick dev dev') (hdev : Counts limit dev) :
    Counts limit dev' ∧
      timedLock dev' = ((timedLock dev).tick limit).obey (tick.order numbers) := by
  obtain ⟨hcounts, hlock⟩ := hdev.atMessage
  have htimer := (rest_obeyLock (tick.lockText numbers) (atMessage dev)).1
  refine ⟨⟨h.tbLockTimer ▸ hcounts.timer, h.tbLockIntv.trans hcounts.intv⟩, ?_⟩
  calc Tb.timedLock dev'
      = Tb.timedLock (obeyLock (tick.lockText numbers) (atMessage dev)) := by
        simp only [Tb.timedLock, h.tbLock, h.tbLockTimer, htimer]
    _ = ((Tb.timedLock dev).tick limit).obey (tick.order numbers) := by
        rw [timedLock_obeyLock, hlock, Tick.order]

end Refinement

section Run

variable {ticks : ℕ → Tick} {devs : ℕ → State D} {t u : ℕ}

/-- An endless run of `tb_exe` after `tb_init`: `devs t` is what tick `t` finds. -/
structure TbRun (numbers : Numbers D) (nullText : Option Bytes) (ticks : ℕ → Tick)
    (devs : ℕ → State D) : Prop where
  start : devs 0 = tbInit
  isRun : IsRun (step numbers nullText) ticks devs

theorem exists_setLock (nullText : Option Bytes) (dev : State D) (hroot : WellFormed root)
    (hparams : ∀ params ∈ root.getObjectItem (ascii "params"), params.isString) :
    ∃ dev', setLock nullText root dev = .ok dev' := by
  unfold setLock
  cases h : root.getObjectItem (ascii "params") with
  | none => exact ⟨dev, rfl⟩
  | some params =>
      obtain ⟨s, hs⟩ := (hroot.of_getObjectItem h).exists_valuestring (hparams params h)
      simp [hs, logDbg, pure, Except.pure]

theorem exists_procRoot (nullText : Option Bytes) (dev : State D) (hroot : WellFormed root)
    (haccepts : Accepts root) : ∃ dev', procRoot nullText root dev = .ok dev' := by
  unfold procRoot
  cases hmethod : root.getObjectItem (ascii "method") with
  | none => exact ⟨dev, rfl⟩
  | some item =>
      obtain ⟨htext, hparams⟩ := haccepts item hmethod
      obtain ⟨s, hs⟩ := (hroot.of_getObjectItem hmethod).exists_valuestring htext
      by_cases hset : s = ascii "set_lock"
      · rw [hset] at hs
        simp only [procMethod_setLock hs]
        exact exists_setLock nullText dev hroot (hparams hs)
      · obtain ⟨dev', hproc, -⟩ := procMethod_other nullText root dev hs hset
        exact ⟨dev', hproc⟩

theorem step_isSome (hwell : tick.WellTyped numbers) (dev : State D) :
    (step numbers nullText dev tick).isSome := by
  obtain ⟨mid, hmid⟩ : ∃ mid, tbProcRecv numbers nullText tick.received dev = .ok mid := by
    unfold tbProcRecv
    cases hreceived : tick.received with
    | none => exact ⟨_, rfl⟩
    | some e =>
        cases hparse : parse numbers e.szpayload with
        | none => exact ⟨relock (announce dev), by simp [hparse]⟩
        | some root =>
            have hroot : tick.root numbers = some root := by
              simp [Tick.root, hreceived, hparse]
            obtain ⟨dev', hproc⟩ := exists_procRoot nullText (relock (announce dev))
              (wellFormed_of_parse hparse) (hwell root hroot)
            simp [hparse, hproc, pure, Except.pure]
  simp [step, tbExe, hmid, pure, Except.pure, Except.toOption]

theorem exists_tbRun (nullText : Option Bytes) (hwell : ∀ t, (ticks t).WellTyped numbers) :
    ∃ devs, TbRun numbers nullText ticks devs := by
  obtain ⟨devs, hstart, hrun⟩ := exists_isRun (fun dev t ↦ step_isSome (hwell t) dev) tbInit
  exact ⟨devs, hstart, hrun⟩

theorem TbRun.run_range (hrun : TbRun numbers nullText ticks devs) (n : ℕ) :
    run (step numbers nullText) tbInit ((List.range n).map ticks) = some (devs n) :=
  hrun.start ▸ hrun.isRun.run_range n

theorem TbRun.counts (hrun : TbRun numbers nullText ticks devs) (t : ℕ) :
    Counts 15 (devs t) := by
  apply hrun.isRun.invariant
  · intro dev tick dev' hdev hstep
    exact ((step_ticked hstep).timedLock hdev).1
  · rw [hrun.start]
    exact counts_tbInit

/-- The run refines the timed lock. -/
theorem TbRun.timedLock_eq (hrun : TbRun numbers nullText ticks devs) (t : ℕ) :
    timedLock (devs t) = TimedLock.after 15 (fun t ↦ (ticks t).order numbers) t := by
  induction t with
  | zero => rw [hrun.start]; rfl
  | succ t ih =>
      rw [TimedLock.after_succ, ← ih]
      exact ((step_ticked (hrun.isRun t)).timedLock (hrun.counts t)).2

theorem TbRun.relocks_iff (hrun : TbRun numbers nullText ticks devs) (t : ℕ) :
    Relocks (devs t) ↔
      (TimedLock.after 15 (fun t ↦ (ticks t).order numbers) t).Expired 15 := by
  rw [← hrun.timedLock_eq]
  exact Tb.relocks_iff (hrun.counts t)

theorem TbRun.tbLock_atMessage (hrun : TbRun numbers nullText ticks devs) (t : ℕ) :
    (atMessage (devs t)).tbLock = 0 ↔
      ((TimedLock.after 15 (fun t ↦ (ticks t).order numbers) t).tick 15).isOpen = true := by
  rw [← hrun.timedLock_eq, ← (hrun.counts t).atMessage.2]
  simp [timedLock]

theorem TbRun.tbLockTimer_atMessage (hrun : TbRun numbers nullText ticks devs) (t : ℕ) :
    (atMessage (devs t)).tbLockTimer =
      ((TimedLock.after 15 (fun t ↦ (ticks t).order numbers) t).tick 15).count := by
  rw [← hrun.timedLock_eq, ← (hrun.counts t).atMessage.2]
  exact (Int.toNat_of_nonneg (hrun.counts t).atMessage.1.timer).symm

theorem TbRun.tbLockTimer_le (hrun : TbRun numbers nullText ticks devs) (t : ℕ) :
    (devs t).tbLockTimer ≤ 15 := by
  have hle := @TimedLock.count_after_le 15 (fun t ↦ (ticks t).order numbers) t
  rw [← hrun.timedLock_eq] at hle
  exact Int.toNat_le.mp hle

/-- How tick `t` of a run may act. -/
structure Gated (numbers : Numbers D) (ticks : ℕ → Tick) (devs : ℕ → State D) (t : ℕ) : Prop where
  aps : (devs (t + 1)).tmpaps ≠ (devs t).tmpaps ∨
      (devs (t + 1)).tmpapsReceived ≠ (devs t).tmpapsReceived →
    (ticks t).SetsAps numbers ∧ (atMessage (devs t)).tbLock = 0
  /-- An earlier tick, at most the window away, has opened the lock, and no
  message and no automatic relock has locked it since. -/
  window : (ticks t).SetsAps numbers → (atMessage (devs t)).tbLock = 0 →
    ∃ u < t, ((t - u : ℕ) : ℤ) ≤ (devs t).tbLockIntv ∧ (ticks u).Unlocks numbers ∧
      (∀ v, u < v → v < t → ¬(ticks v).Locks numbers) ∧
      ∀ v, u < v → v ≤ t → ¬Relocks (devs v)
  timer : 0 ≤ (devs t).tbLockTimer ∧ (devs t).tbLockTimer ≤ (devs t).tbLockIntv

theorem TbRun.gated (hrun : TbRun numbers nullText ticks devs) (t : ℕ) :
    Gated numbers ticks devs t where
  aps := by
    intro hchange
    rcases (step_ticked (hrun.isRun t)).tmpaps with ⟨htmpaps, hreceived⟩ | haps
    · rcases hchange with hchange | hchange
      · exact absurd htmpaps hchange
      · exact absurd hreceived hchange
    · exact haps
  window := by
    intro _ hopen
    obtain ⟨u, hu, hage, hsince⟩ :=
      TimedLock.exists_openSince ((hrun.tbLock_atMessage t).mp hopen)
    refine ⟨u, hu, ?_, order_eq_unlock.mp hsince.unlocked, ?_, ?_⟩
    · rw [(hrun.counts t).intv]
      exact_mod_cast hage
    · intro v huv hvt
      exact mt order_eq_lock.mpr (hsince.not_locked v huv hvt)
    · intro v huv hvt
      exact mt (hrun.relocks_iff v).mp (hsince.not_expired v huv hvt)
  timer := by
    refine ⟨(hrun.counts t).timer, ?_⟩
    rw [(hrun.counts t).intv]
    exact hrun.tbLockTimer_le t

/-- Whatever well-typed messages come, `tb_exe` goes on for ever, and the lock
gates `set_aps` in every tick. -/
theorem lockGates (numbers : Numbers D) (nullText : Option Bytes) (ticks : ℕ → Tick)
    (hwell : ∀ t, (ticks t).WellTyped numbers) :
    (∃ devs, TbRun numbers nullText ticks devs) ∧
      ∀ devs, TbRun numbers nullText ticks devs → ∀ t, Gated numbers ticks devs t :=
  ⟨exists_tbRun nullText hwell, fun _ hrun t ↦ hrun.gated t⟩

/-- The messages of `payloads`, one in each tick, and then none. -/
def script (payloads : List Bytes) (t : ℕ) : Tick where
  received := payloads[t]?.map Cloud.message
  uploads := []

theorem wellTyped_script {payloads : List Bytes}
    (h : ∀ payload ∈ payloads, ∀ root ∈ parse numbers payload, Accepts root) (t : ℕ) :
    (script payloads t).WellTyped numbers := by
  intro root hroot
  obtain ⟨e, he, hparse⟩ := Option.bind_eq_some_iff.mp hroot
  obtain ⟨payload, hpayload, rfl⟩ := Option.map_eq_some_iff.mp he
  exact h payload (List.mem_of_getElem? hpayload) root hparse

instance (root : CJson D) : Decidable (Accepts root) :=
  inferInstanceAs (Decidable (∀ method ∈ root.getObjectItem (ascii "method"), method.isString ∧
    (method.valuestring = some (ascii "set_lock") →
      ∀ params ∈ root.getObjectItem (ascii "params"), params.isString)))

def unlockPayload : Bytes := ascii "\x7b\"method\":\"set_lock\",\"params\":\"unlock\"\x7d"

def lockPayload : Bytes := ascii "\x7b\"method\":\"set_lock\",\"params\":\"lock\"\x7d"

def apsPayload : Bytes := ascii "\x7b\"method\":\"set_aps\",\"params\":5\x7d"

theorem accepts_payloads : ∀ payload ∈ [unlockPayload, lockPayload, apsPayload],
    ∀ root ∈ parse Numbers.rational payload, Accepts root := by
  decide +kernel

theorem wellTyped_script_of_subset {payloads : List Bytes}
    (h : payloads ⊆ [unlockPayload, lockPayload, apsPayload]) (t : ℕ) :
    (script payloads t).WellTyped Numbers.rational :=
  wellTyped_script (fun payload hpayload ↦ accepts_payloads payload (h hpayload)) t

/-- A `set_aps` that the lock lets through. -/
theorem lockGates_two : ∃ devs,
    TbRun Numbers.rational none (script [unlockPayload, apsPayload]) devs ∧
      (∀ t, Gated Numbers.rational (script [unlockPayload, apsPayload]) devs t) ∧
      (devs 1).tmpaps = 0 ∧ (devs 2).tmpaps = 5 := by
  obtain ⟨⟨devs, hrun⟩, hgates⟩ := lockGates Numbers.rational none
    (script [unlockPayload, apsPayload]) (wellTyped_script_of_subset (by simp))
  refine ⟨devs, hrun, hgates devs hrun, ?_, ?_⟩
  · have hone : (run (step Numbers.rational none) tbInit ((List.range 1).map
        (script [unlockPayload, apsPayload]))).map State.tmpaps = some 0 := by decide +kernel
    rw [hrun.run_range 1] at hone
    exact Option.some.inj hone
  · have htwo : (run (step Numbers.rational none) tbInit ((List.range 2).map
        (script [unlockPayload, apsPayload]))).map State.tmpaps = some 5 := by decide +kernel
    rw [hrun.run_range 2] at htwo
    exact Option.some.inj htwo

end Run

section Windows

variable {ticks : ℕ → Tick} {devs : ℕ → State D} {t u : ℕ}

/-- The message turns `tb_lock` from 1 to 0. -/
def Reopens (numbers : Numbers D) (dev : State D) (tick : Tick) : Prop :=
  (atMessage dev).tbLock = 1 ∧ tick.Unlocks numbers

/-- `tb_lock` is 0 for the messages of the `tb_lock_intv` ticks after `u`, up
to a `lock`. -/
def FullWindow (numbers : Numbers D) (ticks : ℕ → Tick) (devs : ℕ → State D) (u : ℕ) : Prop :=
  ∀ t, u < t → (t : ℤ) ≤ u + (devs u).tbLockIntv →
    (∀ v, u < v → v < t → ¬(ticks v).Locks numbers) → (atMessage (devs t)).tbLock = 0

def FullWindows (numbers : Numbers D) (ticks : ℕ → Tick) (devs : ℕ → State D) : Prop :=
  ∀ u, Reopens numbers (devs u) (ticks u) → FullWindow numbers ticks devs u

/-- The counter stands at 0, or a `lock` comes before what it has counted of
the window is missed. -/
def Spared (numbers : Numbers D) (ticks : ℕ → Tick) (dev : State D) (u : ℕ) : Prop :=
  (atMessage dev).tbLockTimer = 0 ∨
    ∃ v, u < v ∧ v + (atMessage dev).tbLockTimer ≤ u + dev.tbLockIntv ∧
      (ticks v).Locks numbers

theorem TbRun.fullWindow_iff (hrun : TbRun numbers nullText ticks devs)
    (hunlocks : (ticks u).Unlocks numbers) :
    FullWindow numbers ticks devs u ↔ Spared numbers ticks (devs u) u := by
  have hwindow : FullWindow numbers ticks devs u ↔
      TimedLock.StaysOpen 15 (fun t ↦ (ticks t).order numbers) u := by
    unfold FullWindow TimedLock.StaysOpen
    rw [(hrun.counts u).intv]
    refine forall₂_congr fun t _ ↦ ?_
    simp only [hrun.tbLock_atMessage, ne_eq, order_eq_lock]
    norm_cast
  have hspared := @TimedLock.staysOpen_iff 15 (fun t ↦ (ticks t).order numbers) u
    (order_eq_unlock.mpr hunlocks)
  rw [hwindow, hspared, Spared, hrun.tbLockTimer_atMessage, (hrun.counts u).intv]
  simp only [order_eq_lock]
  norm_cast

/-- The windows of a run are full exactly when every message that opens the
lock finds the counter at 0 or is overtaken by a `lock` in time. -/
theorem fullWindows_iff (hrun : TbRun numbers nullText ticks devs) :
    FullWindows numbers ticks devs ↔
      ∀ u, Reopens numbers (devs u) (ticks u) → Spared numbers ticks (devs u) u :=
  forall₂_congr fun _ hreopens ↦ hrun.fullWindow_iff hreopens.2

theorem lockText_script {payloads : List Bytes} (h : payloads.length ≤ t) :
    (script payloads t).lockText numbers = none := by
  have hnone : payloads[t]? = none := List.getElem?_eq_none h
  simp [Tick.lockText, Tick.root, script, hnone]

/-- The first unlock finds the counter at 0. -/
theorem fullWindows_one : ∃ devs, TbRun Numbers.rational none (script [unlockPayload]) devs ∧
    FullWindows Numbers.rational (script [unlockPayload]) devs := by
  have hwell : ∀ t, (script [unlockPayload] t).WellTyped Numbers.rational :=
    wellTyped_script_of_subset (by simp)
  obtain ⟨devs, hrun⟩ := exists_tbRun none hwell
  refine ⟨devs, hrun, (fullWindows_iff hrun).mpr fun u hreopens ↦ ?_⟩
  cases u with
  | zero =>
      rw [hrun.start]
      exact .inl rfl
  | succ u =>
      obtain ⟨-, s, hs, -⟩ := hreopens
      rw [lockText_script (by simp)] at hs
      cases hs

/-- Opened, locked and opened again, the lock has counted a tick of the first
window, and the second is that much shorter. -/
theorem not_fullWindows : ∃ devs,
    (∀ t, (script [unlockPayload, lockPayload, unlockPayload] t).WellTyped Numbers.rational) ∧
      TbRun Numbers.rational none (script [unlockPayload, lockPayload, unlockPayload]) devs ∧
      ¬FullWindows Numbers.rational (script [unlockPayload, lockPayload, unlockPayload])
        devs := by
  have hwell : ∀ t, (script [unlockPayload, lockPayload, unlockPayload] t).WellTyped
      Numbers.rational := wellTyped_script_of_subset (by simp)
  obtain ⟨devs, hrun⟩ := exists_tbRun none hwell
  refine ⟨devs, hwell, hrun, fun hfull ↦ ?_⟩
  have htwo : (run (step Numbers.rational none) tbInit ((List.range 2).map
      (script [unlockPayload, lockPayload, unlockPayload]))).map
        (fun dev ↦ ((atMessage dev).tbLock, dev.tbLockIntv)) = some (1, 15) := by
    decide +kernel
  have hlate : (run (step Numbers.rational none) tbInit ((List.range 17).map
      (script [unlockPayload, lockPayload, unlockPayload]))).map
        (fun dev ↦ (atMessage dev).tbLock) = some 1 := by
    decide +kernel
  rw [hrun.run_range, Option.map_some, Option.some.injEq] at htwo hlate
  obtain ⟨hlocked, hintv⟩ := Prod.mk.inj htwo
  have hunlocks : (script [unlockPayload, lockPayload, unlockPayload] 2).Unlocks
      Numbers.rational := order_eq_unlock.mp (by decide +kernel)
  have hquiet : ∀ v, 2 < v → v < 17 →
      ¬(script [unlockPayload, lockPayload, unlockPayload] v).Locks Numbers.rational := by
    intro v hv _ hlocks
    rw [Tick.Locks, lockText_script hv] at hlocks
    cases hlocks
  have hopen := hfull 2 ⟨hlocked, hunlocks⟩ 17 (by decide) (by rw [hintv]; decide) hquiet
  rw [hlate] at hopen
  exact absurd hopen (by decide)

end Windows

end Tb
