import PcsSim.Lib.Runs
import PcsSim.Modbus.Line

/-!
# Assertions of the serial line

`Inv` holds between polls if the sender was idle when the context was
allocated, and a poll keeps it unless the timer expires on a frame of 256
bytes: one more than `eMBRTUReceive` asserts, while the receiver has room for
it.  If the sender was not idle, the first byte aborts.
-/

namespace Mbs

variable {D : Type} {ops : Doubles D} {t : Tables D} {ctx ctx' : Fmodbus} {n : ℕ}

section Invariant

/-- The part of the invariant that is not about the queued event. -/
structure Core (ctx : Fmodbus) : Prop where
  eMBState : ctx.eMBState = .enabled
  ucMBAddress : ctx.ucMBAddress ≠ 255
  usMBSlaveIDLen : ctx.usMBSlaveIDLen.toNat ≤ 251
  direction : Listening ctx ∨ Sending ctx
  timer : ctx.bTimeoutEnable = true ↔ ctx.eRcvState ≠ .idle
  fits : ctx.eRcvState = .rcv → ctx.usRcvBufferPos.toNat ≤ 256

/-- What holds between polls. -/
structure Inv (ctx : Fmodbus) : Prop where
  core : Core ctx
  frame : ctx.xEventInQueue = true → ctx.eQueuedEvent = .frameReceived →
    ctx.usRcvBufferPos.toNat < 256
  request : ctx.xEventInQueue = true → ctx.eQueuedEvent = .execute → ctx.usLength.toNat ≤ 252

theorem Core.other {mbsidx : ℤ} {ucBuffer : ℕ → UInt8} {ucMBSlaveID : ℕ → UInt8} {ucMBFrame : ℕ}
    {ucRcvAddress ucFunctionCode : UInt8} {usLength : UInt16} {eException : MbException}
    {eQueuedEvent : MbEvent} {xEventInQueue : Bool} {ucRTUBuf : ℕ → UInt8}
    {pucSndBufferCur : ℕ} (h : Core ctx) :
    Core { ctx with
      mbsidx := mbsidx
      ucBuffer := ucBuffer
      ucMBSlaveID := ucMBSlaveID
      ucMBFrame := ucMBFrame
      ucRcvAddress := ucRcvAddress
      ucFunctionCode := ucFunctionCode
      usLength := usLength
      eException := eException
      eQueuedEvent := eQueuedEvent
      xEventInQueue := xEventInQueue
      ucRTUBuf := ucRTUBuf
      pucSndBufferCur := pucSndBufferCur } := by
  refine ⟨h.eMBState, h.ucMBAddress, h.usMBSlaveIDLen, ?_, h.timer, h.fits⟩
  rcases h.direction with hdir | hdir
  · exact .inl ⟨hdir.eSndState, hdir.bRxEnabled, hdir.bTxEnabled, hdir.uiRxBufferPos⟩
  · exact .inr ⟨hdir.eSndState, hdir.bRxEnabled, hdir.bTxEnabled, hdir.eRcvState, hdir.room⟩

theorem Core.inv (h : Core ctx) (hqueue : ctx.xEventInQueue = false) : Inv ctx := by
  refine ⟨h, fun hevent ↦ ?_, fun hevent ↦ ?_⟩
  · rw [hqueue] at hevent
    cases hevent
  · rw [hqueue] at hevent
    cases hevent

def Fmodbus.dequeued (ctx : Fmodbus) : Fmodbus := { ctx with xEventInQueue := false }

theorem inv_frameReceived (h : Core ctx) (hqueue : ctx.xEventInQueue = false)
    (hpos : ctx.usRcvBufferPos.toNat < 256) :
    ∃ ctx', handleEvent ops t ctx .frameReceived = .ok (t, ctx') ∧ Inv ctx' := by
  have hbound : ctx.usRcvBufferPos < 256 := hpos
  simp only [handleEvent, eMBRTUReceive, check_of_true (decide_eq_true hbound), bind, Except.bind]
  by_cases hframe : 4 ≤ ctx.usRcvBufferPos ∧ usMBCRC16 ctx.ucRTUBuf ctx.usRcvBufferPos = 0
  · rw [if_pos hframe]
    simp only [pure, Except.pure]
    split_ifs with haddress
    · refine ⟨_, rfl, h.other, fun _ hevent ↦ ?_, fun _ _ ↦ ?_⟩
      · cases hevent
      · have hfour : 4 ≤ ctx.usRcvBufferPos.toNat := hframe.1
        change (ctx.usRcvBufferPos - 1 - 2).toNat ≤ 252
        rw [UInt16.toNat_sub, UInt16.toNat_sub]
        change (2 ^ 16 - 2 + (2 ^ 16 - 1 + ctx.usRcvBufferPos.toNat) % 2 ^ 16) % 2 ^ 16 ≤ 252
        omega
    · exact ⟨_, rfl, h.other.inv hqueue⟩
  · rw [if_neg hframe]
    exact ⟨ctx, if_neg (by simp), h.inv hqueue⟩

/-- The event of a request: its reply starts to be sent, unless the receiver
has heard something in the meantime. -/
theorem inv_execute (h : Core ctx) (hqueue : ctx.xEventInQueue = false)
    (hlen : ctx.usLength.toNat ≤ 252) :
    ∃ t' ctx', handleEvent ops t ctx .execute = .ok (t', ctx') ∧ Inv ctx' := by
  obtain ⟨buf, len, code, eException, hle, hexecuted⟩ :=
    @execute_context D ops t ctx hlen h.usMBSlaveIDLen
  rcases hresult : execute ops t ctx with ⟨t', ctx'⟩
  simp only [hresult] at hexecuted
  have hcore : Core ctx' := by
    rw [hexecuted]
    exact h.other
  have hqueue' : ctx'.xEventInQueue = false := by
    rw [hexecuted]
    exact hqueue
  have hlen' : ctx'.usLength.toNat ≤ 252 := by
    rw [hexecuted]
    exact hle
  simp only [handleEvent, hresult]
  split_ifs with hunicast
  · simp only [eMBRTUSend]
    split_ifs with hidle
    · have hcount : (1 + ctx'.usLength + 2).toNat = ctx'.usLength.toNat + 3 := by
        rw [UInt16.toNat_add, UInt16.toNat_add]
        change ((1 + ctx'.usLength.toNat) % 2 ^ 16 + 2) % 2 ^ 16 = _
        omega
      refine ⟨t', _, rfl, Core.inv ⟨hcore.eMBState, hcore.ucMBAddress, hcore.usMBSlaveIDLen,
        .inr ⟨rfl, rfl, rfl, hidle, ?_⟩, hcore.timer, hcore.fits⟩ hqueue'⟩
      change 0 + (1 + ctx'.usLength + 2).toNat ≤ 256
      omega
    · exact ⟨t', ctx', rfl, hcore.inv hqueue'⟩
  · exact ⟨t', ctx', rfl, hcore.inv hqueue'⟩

/-- The timer expires when exactly 256 bytes of a frame have been received. -/
def FullFrame (ctx : Fmodbus) (input : PollInput) : Prop :=
  ctx.xEventInQueue = false ∧ ctx.bRxEnabled = true ∧ input.expired = true ∧
    (ctx.eRcvState = .idle ∧ received input.reads = 256 ∨
      ctx.eRcvState = .rcv ∧ ctx.usRcvBufferPos.toNat + received input.reads = 256)

instance (ctx : Fmodbus) (input : PollInput) : Decidable (FullFrame ctx input) :=
  inferInstanceAs (Decidable (_ ∧ _))

/-- A frame of 256 bytes waits to be taken. -/
structure TooLong (ctx : Fmodbus) : Prop where
  eMBState : ctx.eMBState = .enabled
  xEventInQueue : ctx.xEventInQueue = true
  eQueuedEvent : ctx.eQueuedEvent = .frameReceived
  usRcvBufferPos : ctx.usRcvBufferPos.toNat = 256

theorem eMBPoll_of_tooLong (h : TooLong ctx) (input : PollInput) :
    eMBPoll ops (t, ctx) input = .error .receivePosition := by
  have hbound : ¬ctx.dequeued.usRcvBufferPos < 256 := by
    change ¬ctx.usRcvBufferPos.toNat < 256
    rw [h.usRcvBufferPos]
    decide
  have hget : xMBPortEventGet ctx input = .ok (ctx.dequeued, some ctx.eQueuedEvent, []) :=
    if_pos h.xEventInQueue
  rw [eMBPoll, if_neg (not_not_intro h.eMBState)]
  simp only [hget, h.eQueuedEvent, handleEvent, eMBRTUReceive, check, decide_eq_false hbound,
    bind, Except.bind]
  rfl

theorem Core.of_heard (h : Core ctx) (hlistening : Listening ctx) (hheard : Heard n ctx ctx')
    (hpos : ctx'.uiRxBufferPos = 0) : Core ctx' := by
  have hkept := hheard.kept
  refine ⟨(congrArg (·.deaf.eMBState) hkept).trans h.eMBState, ?_, ?_, .inl ⟨?_, ?_, ?_, hpos⟩,
    ?_, ?_⟩
  · rw [show ctx'.ucMBAddress = ctx.ucMBAddress from congrArg (·.deaf.ucMBAddress) hkept]
    exact h.ucMBAddress
  · rw [show ctx'.usMBSlaveIDLen = ctx.usMBSlaveIDLen from
      congrArg (·.deaf.usMBSlaveIDLen) hkept]
    exact h.usMBSlaveIDLen
  · exact hheard.eSndState.trans hlistening.eSndState
  · exact (congrArg (·.deaf.bRxEnabled) hkept).trans hlistening.bRxEnabled
  · exact (congrArg (·.deaf.bTxEnabled) hkept).trans hlistening.bTxEnabled
  · -- a byte starts the timer and ends the idleness
    have hline := congrArg Prod.fst hheard.line
    rw [hheard.bTimeoutEnable]
    cases n with
    | zero =>
        have hsame : ctx'.eRcvState = ctx.eRcvState := hline
        simpa [hsame] using h.timer
    | succ n =>
        rw [Function.iterate_succ_apply'] at hline
        have hne : ctx'.eRcvState ≠ .idle := fun hidle ↦ hear_ne_idle _ (hline.symm.trans hidle)
        simp [hne]
  · have hfits := @iterate_hear_fits ctx.line h.fits n
    rw [← hheard.line] at hfits
    exact hfits

theorem Core.of_sent (h : Core ctx) (hsending : Sending ctx) (hsent : Sent n ctx ctx') :
    Core ctx' := by
  have hkept := hsent.kept
  have hrcv : ctx'.eRcvState = ctx.eRcvState := congrArg (·.mute.eRcvState) hkept
  refine ⟨(congrArg (·.mute.eMBState) hkept).trans h.eMBState, ?_, ?_, .inl hsent.listening,
    ?_, ?_⟩
  · rw [show ctx'.ucMBAddress = ctx.ucMBAddress from congrArg (·.mute.ucMBAddress) hkept]
    exact h.ucMBAddress
  · rw [show ctx'.usMBSlaveIDLen = ctx.usMBSlaveIDLen from
      congrArg (·.mute.usMBSlaveIDLen) hkept]
    exact h.usMBSlaveIDLen
  · rw [hrcv, show ctx'.bTimeoutEnable = ctx.bTimeoutEnable from
      congrArg (·.mute.bTimeoutEnable) hkept]
    exact h.timer
  · rw [hrcv, hsending.eRcvState]
    intro hidle
    cases hidle

theorem xMBPortSerialPoll_eq (h : Core ctx) (hqueue : ctx.xEventInQueue = false)
    (reads : List SerialRead) :
    ∃ ctx' written, xMBPortSerialPoll ctx reads = .ok (ctx', written) ∧ Core ctx' ∧
      (ctx'.xEventInQueue = true → ctx'.eQueuedEvent = .frameSent) ∧
      (ctx'.line = (.rcv, 256) ↔ ctx.bRxEnabled = true ∧
        (ctx.eRcvState = .idle ∧ received reads = 256 ∨
          ctx.eRcvState = .rcv ∧ ctx.usRcvBufferPos.toNat + received reads = 256)) := by
  rcases h.direction with hdir | hdir
  · obtain ⟨ctx', hreads, hheard, hpos⟩ :=
      serialReads_eq hdir.eSndState hdir.bRxEnabled hdir.uiRxBufferPos reads
    have hcore := h.of_heard hdir hheard hpos
    have htx : ctx'.bTxEnabled = false :=
      (congrArg (·.deaf.bTxEnabled) hheard.kept).trans hdir.bTxEnabled
    have hqueue' : ctx'.xEventInQueue = false :=
      (congrArg (·.deaf.xEventInQueue) hheard.kept).trans hqueue
    refine ⟨ctx', [], ?_, hcore, by simp [hqueue'], ?_⟩
    · simp only [xMBPortSerialPoll, hreads, bind, Except.bind]
      rw [if_neg (by simp [htx])]
      rfl
    · rw [hheard.line, @iterate_hear_full_iff ctx.line h.fits]
      exact (and_iff_right hdir.bRxEnabled).symm
  · obtain ⟨ctx', hloop, hsent⟩ := transmitLoop_eq hdir rfl
    have hcore := h.of_sent hdir hsent
    refine ⟨ctx', (List.range ctx'.uiTxBufferPos).map ctx'.ucBuffer, ?_, hcore,
      fun _ ↦ hsent.eQueuedEvent, iff_of_false ?_ ?_⟩
    · simp only [xMBPortSerialPoll, serialReads_of_disabled hdir.bRxEnabled, bind, Except.bind]
      rw [if_pos hdir.bTxEnabled]
      simp only [hloop]
      rfl
    · intro hline
      have hsame : ctx'.eRcvState = ctx.eRcvState := congrArg (·.mute.eRcvState) hsent.kept
      cases (congrArg Prod.fst hline).symm.trans (hsame.trans hdir.eRcvState)
    · simp [hdir.bRxEnabled]

theorem Core.expired {eQueuedEvent : MbEvent} {xEventInQueue : Bool} (h : Core ctx)
    (hrcv : ctx.eRcvState ≠ .idle) :
    Core { ctx with
      bTimeoutEnable := false
      eRcvState := .idle
      eQueuedEvent := eQueuedEvent
      xEventInQueue := xEventInQueue } := by
  refine ⟨h.eMBState, h.ucMBAddress, h.usMBSlaveIDLen, ?_, by simp, by simp⟩
  rcases h.direction with hdir | hdir
  · exact .inl ⟨hdir.eSndState, hdir.bRxEnabled, hdir.bTxEnabled, hdir.uiRxBufferPos⟩
  · exact absurd hdir.eRcvState hrcv

theorem vMBPortTimerPoll_eq (h : Core ctx)
    (hevent : ctx.xEventInQueue = true → ctx.eQueuedEvent = .frameSent) (expired : Bool) :
    ∃ ctx', vMBPortTimerPoll ctx expired = .ok ctx' ∧
      (¬(expired = true ∧ ctx.line = (.rcv, 256)) → Inv ctx') ∧
      (expired = true → ctx.line = (.rcv, 256) → TooLong ctx') := by
  unfold vMBPortTimerPoll
  split_ifs with htimer
  · rw [Bool.and_eq_true] at htimer
    have hne := h.timer.mp htimer.1
    let off : Fmodbus := { ctx with bTimeoutEnable := false }
    have hline : ctx.line = (off.eRcvState, ctx.usRcvBufferPos.toNat) := rfl
    suffices hcall : ∃ ctx', xMBRTUTimerT35Expired off = .ok ctx' ∧
        (¬(ctx.line = (.rcv, 256)) → Inv ctx') ∧ (ctx.line = (.rcv, 256) → TooLong ctx') by
      obtain ⟨ctx', hcall, hinv, hlong⟩ := hcall
      exact ⟨ctx', hcall, fun hnot ↦ hinv fun hfull ↦ hnot ⟨htimer.2, hfull⟩, fun _ ↦ hlong⟩
    unfold xMBRTUTimerT35Expired
    cases hrcv : off.eRcvState with
    | init =>
        rw [hrcv] at hline
        refine ⟨_, rfl, fun _ ↦ ⟨h.expired hne, ?_, ?_⟩, by simp [hline]⟩
        · intro _ hframe
          cases hframe
        · intro _ hrequest
          cases hrequest
    | idle => exact absurd hrcv hne
    | rcv =>
        rw [hrcv] at hline
        refine ⟨_, rfl, fun hnot ↦ ⟨h.expired hne, ?_, ?_⟩, fun hfull ↦ ?_⟩
        · intro _ _
          refine lt_of_le_of_ne (h.fits hrcv) fun hpos ↦ hnot ?_
          exact hline.trans (congrArg (Prod.mk MbRcvState.rcv) hpos)
        · intro _ hrequest
          cases hrequest
        · exact ⟨h.eMBState, rfl, rfl, congrArg Prod.snd hfull⟩
    | error =>
        rw [hrcv] at hline
        refine ⟨_, rfl, fun _ ↦ ⟨h.expired hne, ?_, ?_⟩, by simp [hline]⟩
        · intro hqueue hframe
          cases (hevent hqueue).symm.trans hframe
        · intro hqueue hrequest
          cases (hevent hqueue).symm.trans hrequest
  · refine ⟨ctx, rfl, fun _ ↦ ⟨h, ?_, ?_⟩, fun hexpired hfull ↦ ?_⟩
    · intro hqueue hframe
      cases (hevent hqueue).symm.trans hframe
    · intro hqueue hrequest
      cases (hevent hqueue).symm.trans hrequest
    · -- the timer is on while a frame is received
      have hne : ctx.eRcvState ≠ .idle := by
        rw [show ctx.eRcvState = .rcv from congrArg Prod.fst hfull]
        decide
      simp [h.timer.mpr hne, hexpired] at htimer

/-- A poll does not abort; it keeps the invariant unless a full frame is
received, and then the next poll aborts. -/
theorem eMBPoll_eq (h : Inv ctx) (input : PollInput) :
    ∃ s written, eMBPoll ops (t, ctx) input = .ok (s, written) ∧
      (¬FullFrame ctx input → Inv s.2) ∧ (FullFrame ctx input → TooLong s.2) := by
  rw [eMBPoll, if_neg (not_not_intro h.core.eMBState)]
  by_cases hqueue : ctx.xEventInQueue = true
  · -- an event is taken
    have hget : xMBPortEventGet ctx input = .ok (ctx.dequeued, some ctx.eQueuedEvent, []) :=
      if_pos hqueue
    have hcore : Core ctx.dequeued := h.core.other
    have hnone : ¬FullFrame ctx input := by
      simp [FullFrame, hqueue]
    simp only [hget, bind, Except.bind]
    cases hevent : ctx.eQueuedEvent with
    | ready => exact ⟨_, _, rfl, fun _ ↦ hcore.inv rfl, fun hfull ↦ absurd hfull hnone⟩
    | frameSent => exact ⟨_, _, rfl, fun _ ↦ hcore.inv rfl, fun hfull ↦ absurd hfull hnone⟩
    | frameReceived =>
        obtain ⟨ctx', hhandle, hinv⟩ :=
          @inv_frameReceived D ops t ctx.dequeued hcore rfl (h.frame hqueue hevent)
        simp only [hhandle]
        exact ⟨_, _, rfl, fun _ ↦ hinv, fun hfull ↦ absurd hfull hnone⟩
    | execute =>
        obtain ⟨t', ctx', hhandle, hinv⟩ :=
          @inv_execute D ops t ctx.dequeued hcore rfl (h.request hqueue hevent)
        simp only [hhandle]
        exact ⟨_, _, rfl, fun _ ↦ hinv, fun hfull ↦ absurd hfull hnone⟩
  · rw [Bool.not_eq_true] at hqueue
    obtain ⟨ctx₁, written, hserial, hcore, hevent, hfull⟩ :=
      xMBPortSerialPoll_eq h.core hqueue input.reads
    obtain ⟨ctx₂, htimer, hinv, hlong⟩ := vMBPortTimerPoll_eq hcore hevent input.expired
    have hget : xMBPortEventGet ctx input = .ok (ctx₂, none, written) := by
      rw [xMBPortEventGet, if_neg (by simp [hqueue]), if_neg h.core.ucMBAddress]
      simp only [hserial, htimer, bind, Except.bind]
      rfl
    simp only [hget, bind, Except.bind]
    refine ⟨_, written, rfl, fun hnot ↦ hinv fun hline ↦ hnot ?_, fun hframe ↦ ?_⟩
    · obtain ⟨hrx, hbytes⟩ := hfull.mp hline.2
      exact ⟨hqueue, hrx, hline.1, hbytes⟩
    · obtain ⟨-, hrx, hexpired, hbytes⟩ := hframe
      exact hlong hexpired (hfull.mpr ⟨hrx, hbytes⟩)

end Invariant

section Unread

/-- What holds between polls, as long as no byte is read, if the sender was not
idle when the context was allocated. -/
structure Unread (ctx : Fmodbus) : Prop where
  eMBState : ctx.eMBState = .enabled
  ucMBAddress : ctx.ucMBAddress ≠ 255
  eSndState : ctx.eSndState ≠ .idle
  bRxEnabled : ctx.bRxEnabled = true
  bTxEnabled : ctx.bTxEnabled = false
  timer : ctx.bTimeoutEnable = true → ctx.eRcvState = .init
  event : ctx.xEventInQueue = true → ctx.eQueuedEvent = .ready

theorem serialReads_of_not_idle (hsnd : ctx.eSndState ≠ .idle) (hrx : ctx.bRxEnabled = true)
    (reads : List SerialRead) :
    serialReads reads ctx = if received reads = 0 then .ok ctx else .error .senderIdle := by
  induction reads with
  | nil => rfl
  | cons r reads ih =>
      cases r with
      | failed =>
          have hsame : received (.failed :: reads) = received reads := Nat.zero_add _
          rw [serialReads, if_pos hrx, ih, hsame]
      | chunk bytes =>
          obtain ⟨l, hne, hle⟩ := bytes
          cases l with
          | nil => exact absurd rfl hne
          | cons b l =>
              have hread : received (.chunk ⟨b :: l, hne, hle⟩ :: reads) ≠ 0 := by
                simp [received, SerialRead.size]
              rw [serialReads, if_pos hrx, if_neg hread]
              simp only [List.length_cons, receiveBytes, xMBRTUReceiveFSM, check,
                decide_eq_false hsnd, bind, Except.bind]
              rfl

theorem eMBPoll_of_unread (h : Unread ctx) (input : PollInput) :
    ((eMBPoll ops (t, ctx) input).isOk = true ↔
      ctx.xEventInQueue = true ∨ received input.reads = 0) ∧
    ∀ s written, eMBPoll ops (t, ctx) input = .ok (s, written) → Unread s.2 := by
  rw [eMBPoll, if_neg (not_not_intro h.eMBState)]
  by_cases hqueue : ctx.xEventInQueue = true
  · have hget : xMBPortEventGet ctx input = .ok (ctx.dequeued, some .ready, []) := by
      rw [← h.event hqueue]
      exact if_pos hqueue
    simp only [hget, bind, Except.bind]
    refine ⟨iff_of_true rfl (.inl hqueue), fun s written hpoll ↦ ?_⟩
    cases hpoll
    refine ⟨h.eMBState, h.ucMBAddress, h.eSndState, h.bRxEnabled, h.bTxEnabled, h.timer, ?_⟩
    intro hqueue'
    cases hqueue'
  · have hserial : xMBPortSerialPoll ctx input.reads =
        if received input.reads = 0 then .ok (ctx, []) else .error .senderIdle := by
      simp only [xMBPortSerialPoll, serialReads_of_not_idle h.eSndState h.bRxEnabled, bind,
        Except.bind]
      split_ifs with hread
      · simp only [h.bTxEnabled]
        rfl
      · rfl
    rw [xMBPortEventGet, if_neg hqueue, if_neg h.ucMBAddress]
    simp only [hserial, bind, Except.bind]
    by_cases hread : received input.reads = 0
    · -- the timer may expire, in the initial state
      have htimer : ∃ ctx', vMBPortTimerPoll ctx input.expired = .ok ctx' ∧ Unread ctx' := by
        unfold vMBPortTimerPoll
        split_ifs with hexpired
        · rw [Bool.and_eq_true] at hexpired
          have hinit := h.timer hexpired.1
          unfold xMBRTUTimerT35Expired
          simp only [hinit]
          refine ⟨_, rfl, h.eMBState, h.ucMBAddress, h.eSndState, h.bRxEnabled, h.bTxEnabled, ?_,
            fun _ ↦ rfl⟩
          intro hon
          cases hon
        · exact ⟨ctx, rfl, h⟩
      obtain ⟨ctx', htimer, hunread⟩ := htimer
      simp only [if_pos hread, htimer]
      refine ⟨iff_of_true rfl (.inr hread), fun s written hpoll ↦ ?_⟩
      cases hpoll
      exact hunread
    · simp only [if_neg hread]
      refine ⟨iff_of_false (by simp [Except.isOk, Except.toBool]) (by simp [hqueue, hread]), ?_⟩
      intro s written hpoll
      cases hpoll

end Unread

section Runs

def pollStep (ops : Doubles D) (s : SlaveState D) (input : PollInput) : Option (SlaveState D) :=
  (eMBPoll ops s input).toOption.map Prod.fst

/-- No poll of the run violates an assertion. -/
def NeverAborts (ops : Doubles D) (s : SlaveState D) (inputs : List PollInput) : Prop :=
  Runs.Always (pollStep ops) (fun s input ↦ (eMBPoll ops s input).isOk = true) s inputs

/-- The timer never expires on 256 bytes. -/
def NoFullFrame (ops : Doubles D) (s : SlaveState D) (inputs : List PollInput) : Prop :=
  Runs.Always (pollStep ops) (fun s input ↦ ¬FullFrame s.2 input) s inputs

instance (ops : Doubles D) (s : SlaveState D) (inputs : List PollInput) :
    Decidable (NeverAborts ops s inputs) :=
  Runs.decidableAlways _ _ s inputs

instance (ops : Doubles D) (s : SlaveState D) (inputs : List PollInput) :
    Decidable (NoFullFrame ops s inputs) :=
  Runs.decidableAlways _ _ s inputs

/-- The polls that read the line read no byte. -/
def NothingRead (ops : Doubles D) (s : SlaveState D) (inputs : List PollInput) : Prop :=
  Runs.Always (pollStep ops)
    (fun s input ↦ s.2.xEventInQueue = true ∨ received input.reads = 0) s inputs

theorem eMBInit_eq {adr : UInt8} (hadr : ¬(adr = 0 ∨ adr < 1 ∨ 247 < adr)) (opened : Bool) :
    ∃ ctx', eMBInit ctx adr opened = .ok (some ctx') ∧ ctx'.eMBState = .disabled ∧
      ctx'.ucMBAddress = adr ∧ ctx'.xEventInQueue = false ∧ ctx'.eSndState = ctx.eSndState := by
  rw [eMBInit, if_neg hadr]
  cases opened with
  | false => exact ⟨_, rfl, rfl, rfl, rfl, rfl⟩
  | true => exact ⟨_, rfl, rfl, rfl, rfl, rfl⟩

/-- The invariant that the polling thread starts with depends on what the
allocated memory held. -/
theorem eMBEnable_eq (hdisabled : ctx.eMBState = .disabled) (haddress : ctx.ucMBAddress ≠ 255)
    (hid : ctx.usMBSlaveIDLen.toNat ≤ 251) (hqueue : ctx.xEventInQueue = false) :
    ∃ ctx', eMBEnable ctx = .ok ctx' ∧ (ctx.eSndState = .idle → Inv ctx') ∧
      (ctx.eSndState ≠ .idle → Unread ctx') := by
  rw [eMBEnable, if_pos hdisabled]
  refine ⟨_, rfl, fun hidle ↦ ?_, fun hbusy ↦ ?_⟩
  · refine Core.inv ⟨rfl, haddress, hid, .inl ⟨hidle, rfl, rfl, rfl⟩, ?_, ?_⟩ hqueue
    · simp [vMBPortTimersEnable]
    · intro hrcv
      cases hrcv
  · refine ⟨rfl, haddress, hbusy, rfl, rfl, fun _ ↦ rfl, fun hevent ↦ ?_⟩
    cases hqueue.symm.trans hevent

/-- The start does not abort; it fails for an address that is not allowed. -/
theorem mbsStartMDL_eq (ctx : Fmodbus) (adr : UInt8) (opened : Bool) :
    mbsStartMDL ctx adr opened = .ok none ∨
      ∃ ctx', mbsStartMDL ctx adr opened = .ok (some ctx') ∧
        (ctx.eSndState = .idle → Inv ctx') ∧ (ctx.eSndState ≠ .idle → Unread ctx') := by
  by_cases hadr : adr = 0 ∨ adr < 1 ∨ 247 < adr
  · left
    rw [mbsStartMDL, eMBInit, if_pos hadr]
    rfl
  · right
    have haddress : adr ≠ 255 := by
      rintro rfl
      exact hadr (by decide)
    obtain ⟨ctx₁, hinit, hdisabled, hadr₁, hqueue, hsnd⟩ := @eMBInit_eq ctx adr hadr opened
    obtain ⟨ctx', henable, hinv⟩ := @eMBEnable_eq
      { eMBSetSlaveID ctx₁ 0x34 true [0xAA, 0xBB, 0xCC] with mbsidx := mbsidxMdl }
      hdisabled (hadr₁.trans_ne haddress) (by decide : 5 ≤ 251) hqueue
    refine ⟨ctx', ?_, hsnd ▸ hinv⟩
    simp only [mbsStartMDL, hinit, bind, Except.bind]
    rw [henable]
    rfl

/-- A poll that waits for no full frame is followed by one that does not abort. -/
theorem neverAborts_append_iff {s : SlaveState D} (h : Inv s.2) (inputs : List PollInput)
    (last : PollInput) : NeverAborts ops s (inputs ++ [last]) ↔ NoFullFrame ops s inputs := by
  induction inputs generalizing s with
  | nil =>
      obtain ⟨s', written, hpoll, -⟩ := @eMBPoll_eq D ops s.1 s.2 h last
      exact iff_of_true ⟨congrArg Except.isOk hpoll, fun _ _ ↦ trivial⟩ trivial
  | cons input inputs ih =>
      obtain ⟨s', written, hpoll, hinv, hlong⟩ := @eMBPoll_eq D ops s.1 s.2 h input
      have hstep (u : SlaveState D) : pollStep ops s input = some u ↔ s' = u := by
        rw [pollStep, hpoll]
        exact Option.some_inj
      have hok : (eMBPoll ops s input).isOk = true := by
        rw [hpoll]
        rfl
      rw [NeverAborts, NoFullFrame, List.cons_append, Runs.Always, Runs.Always, and_iff_right hok]
      simp only [hstep, forall_eq']
      by_cases hfull : FullFrame s.2 input
      · -- the poll after it aborts
        refine iff_of_false (fun hnever ↦ ?_) fun hno ↦ hno.1 hfull
        have hnext : NeverAborts ops s' (inputs ++ [last]) := hnever
        obtain ⟨next, rest, hsplit⟩ : ∃ next rest, inputs ++ [last] = next :: rest := by
          cases inputs with
          | nil => exact ⟨last, [], rfl⟩
          | cons next rest => exact ⟨next, rest ++ [last], rfl⟩
        rw [hsplit] at hnext
        have habort := hnext.1
        rw [show s' = (s'.1, s'.2) from rfl, eMBPoll_of_tooLong (hlong hfull)] at habort
        cases habort
      · rw [and_iff_right hfull]
        exact ih (hinv hfull)

theorem neverAborts_iff_of_unread {s : SlaveState D} (h : Unread s.2) (inputs : List PollInput) :
    NeverAborts ops s inputs ↔ NothingRead ops s inputs := by
  refine Runs.always_iff_of_invariant (P := fun s : SlaveState D ↦ Unread s.2) ?_ h
  intro s input hunread
  obtain ⟨hiff, hnext⟩ := @eMBPoll_of_unread D ops s.1 s.2 hunread input
  refine ⟨hiff, fun _ s' hstep ↦ ?_⟩
  cases hpoll : eMBPoll ops s input with
  | error assertion =>
      rw [pollStep, hpoll] at hstep
      cases hstep
  | ok r =>
      rw [pollStep, hpoll] at hstep
      cases hstep
      exact hnext r.1 r.2 hpoll

/-- A run of one poll or more never aborts exactly when the timer does not
expire on 256 bytes before its last poll, if the sender was idle in the memory
allocated, and when no byte is read, if it was not. -/
theorem neverAborts_iff {adr : UInt8} {opened : Bool}
    (hstart : mbsStartMDL ctx adr opened = .ok (some ctx')) (inputs : List PollInput)
    (last : PollInput) :
    NeverAborts ops (t, ctx') (inputs ++ [last]) ↔
      if ctx.eSndState = .idle then NoFullFrame ops (t, ctx') inputs
      else NothingRead ops (t, ctx') (inputs ++ [last]) := by
  rcases mbsStartMDL_eq ctx adr opened with hnone | ⟨ctx'', hsome, hidle, hbusy⟩
  · cases hnone.symm.trans hstart
  · cases hsome.symm.trans hstart
    split_ifs with hsnd
    · exact @neverAborts_append_iff D ops (t, ctx') (hidle hsnd) inputs last
    · exact @neverAborts_iff_of_unread D ops (t, ctx') (hbusy hsnd) (inputs ++ [last])

/-- What the memory allocated may hold. -/
def Fmodbus.allocated (eSndState : MbSndState) : Fmodbus :=
  { Fmodbus.taken [] fun _ ↦ 0xA5 with eSndState := eSndState }

def Fmodbus.started (eSndState : MbSndState) : Fmodbus :=
  { Fmodbus.allocated eSndState with
    ucMBAddress := 1
    bRxEnabled := true
    bTimeoutEnable := true
    ucMBSlaveID := storeBytes (Fmodbus.allocated eSndState).ucMBSlaveID 0
      [0x34, 0xFF, 0xAA, 0xBB, 0xCC]
    eRcvState := .init }

def tablesStart : Tables ℚ := ⟨⟨simInit .rational, fun _ ↦ 0⟩, fun _ ↦ 0⟩

/-- So many bytes are read, and then the timer expires. -/
def silenceAfter (n : ℕ) (h : List.replicate n (0 : UInt8) ≠ [] ∧ n ≤ 256) : PollInput :=
  ⟨[.chunk ⟨List.replicate n 0, h.1, by simpa using h.2⟩], true⟩

def silence : PollInput := ⟨[], true⟩

theorem mbsStartMDL_allocated (eSndState : MbSndState) :
    mbsStartMDL (.allocated eSndState) 1 true = .ok (some (.started eSndState)) := rfl

/-- A frame of 255 bytes is taken. -/
theorem neverAborts_short :
    NeverAborts .rational (tablesStart, .started .idle)
      ([silence, silence, silenceAfter 255 (by decide)] ++ [silence]) := by
  have hidle : (Fmodbus.allocated .idle).eSndState = .idle := rfl
  apply (neverAborts_iff (mbsStartMDL_allocated .idle) _ _).mpr
  rw [if_pos hidle]
  decide +kernel

/-- A frame of 256 bytes aborts, and so does the first byte if the sender is
not idle in the memory allocated. -/
theorem not_neverAborts :
    ¬NeverAborts .rational (tablesStart, .started .idle)
        [silence, silence, silenceAfter 256 (by decide), silence] ∧
      ¬NeverAborts .rational (tablesStart, .started .xmit) [silenceAfter 1 (by decide)] := by
  constructor
  · decide +kernel
  · decide +kernel

end Runs

end Mbs
