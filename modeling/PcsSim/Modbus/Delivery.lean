import PcsSim.Modbus.Poll

/-!
# Delivery of a frame

However the bytes of a frame are divided into reads and polls, the receiver has
them in its buffer, in order, when the line falls silent.
-/

namespace Mbs

variable {D : Type} {ops : Doubles D} {t : Tables D} {ctx ctx₀ ctx' : Fmodbus}
  {bytes frame : List UInt8}

section Reading

/-- The bytes have come since the context was `ctx₀`. -/
structure Collected (ctx₀ : Fmodbus) (bytes : List UInt8) (ctx : Fmodbus) : Prop where
  eRcvState : ctx.eRcvState = if bytes = [] then .idle else .rcv
  usRcvBufferPos : bytes ≠ [] → ctx.usRcvBufferPos.toNat = bytes.length
  ucRTUBuf : ctx.ucRTUBuf = storeBytes ctx₀.ucRTUBuf 0 bytes
  bTimeoutEnable : ctx.bTimeoutEnable = decide (bytes ≠ [])
  kept : ctx.deaf = ctx₀.deaf

theorem Collected.eSndState (h : Collected ctx₀ bytes ctx) : ctx.eSndState = ctx₀.eSndState :=
  congrArg (·.deaf.eSndState) h.kept

theorem Collected.bRxEnabled (h : Collected ctx₀ bytes ctx) :
    ctx.bRxEnabled = ctx₀.bRxEnabled :=
  congrArg (·.deaf.bRxEnabled) h.kept

theorem update_eq_storeBytes (buf : ℕ → UInt8) (start : ℕ) (b : UInt8) :
    Function.update buf start b = storeBytes buf start [b] := by
  rw [← storeBytes_cons, storeBytes_nil]

theorem update_storeBytes (buf : ℕ → UInt8) (bytes : List UInt8) (b : UInt8) :
    Function.update (storeBytes buf 0 bytes) bytes.length b = storeBytes buf 0 (bytes ++ [b]) := by
  have happend := @storeBytes_append buf 0 bytes [b]
  rw [Nat.zero_add] at happend
  rw [update_eq_storeBytes, happend]

/-- A byte is put behind those that have come. -/
theorem xMBRTUReceiveFSM_collected (h : Collected ctx₀ bytes ctx) (hsnd : ctx₀.eSndState = .idle)
    (hroom : bytes.length < 256) (hrx : ctx.uiRxBufferPos < 256) :
    ∃ ctx', xMBRTUReceiveFSM ctx = .ok ctx' ∧
      Collected ctx₀ (bytes ++ [ctx.ucBuffer ctx.uiRxBufferPos]) ctx' ∧
      ctx'.uiRxBufferPos = ctx.uiRxBufferPos + 1 ∧ ctx'.ucBuffer = ctx.ucBuffer := by
  have hbyte : xMBPortSerialGetByte ctx =
      .ok (ctx.gotByte, ctx.ucBuffer ctx.uiRxBufferPos) := by
    rw [xMBPortSerialGetByte, check_of_true (decide_eq_true hrx)]
    rfl
  have hstate : ctx.gotByte.eRcvState = if bytes = [] then .idle else .rcv := h.eRcvState
  unfold xMBRTUReceiveFSM
  rw [check_of_true (decide_eq_true (h.eSndState.trans hsnd))]
  simp only [hbyte, bind, Except.bind]
  rw [hstate]
  by_cases hnil : bytes = []
  · subst hnil
    refine ⟨_, rfl, ⟨rfl, fun _ ↦ rfl, ?_, rfl, h.kept⟩, rfl, rfl⟩
    have hbuf : ctx.gotByte.ucRTUBuf = storeBytes ctx₀.ucRTUBuf 0 [] := h.ucRTUBuf
    change Function.update ctx.gotByte.ucRTUBuf 0 _ = _
    rw [hbuf]
    exact update_storeBytes _ [] _
  · rw [if_neg hnil]
    have hpos := h.usRcvBufferPos hnil
    have hbuf : ctx.gotByte.ucRTUBuf = storeBytes ctx₀.ucRTUBuf 0 bytes := h.ucRTUBuf
    have hbound : ctx.gotByte.usRcvBufferPos < 256 := by
      change ctx.usRcvBufferPos.toNat < 256
      omega
    refine ⟨_, if_pos hbound, ⟨?_, fun _ ↦ ?_, ?_, ?_, h.kept⟩, rfl, rfl⟩
    · change MbRcvState.rcv = _
      rw [if_neg (by simp)]
    · change (ctx.usRcvBufferPos + 1).toNat = _
      rw [UInt16.toNat_add, hpos, List.length_append]
      exact Nat.mod_eq_of_lt (by change bytes.length + 1 < 2 ^ 16; omega)
    · change Function.update ctx.gotByte.ucRTUBuf ctx.usRcvBufferPos.toNat _ = _
      rw [hbuf, hpos]
      exact update_storeBytes _ _ _
    · change true = _
      rw [decide_eq_true (by simp)]

theorem receiveBytes_collected {xs : List UInt8} (h : Collected ctx₀ bytes ctx)
    (hsnd : ctx₀.eSndState = .idle) (hroom : (bytes ++ xs).length ≤ 256)
    (hrx : ctx.uiRxBufferPos + xs.length ≤ 256)
    (hread : ∀ i (hi : i < xs.length), ctx.ucBuffer (ctx.uiRxBufferPos + i) = xs[i]) :
    ∃ ctx', receiveBytes xs.length ctx = .ok ctx' ∧ Collected ctx₀ (bytes ++ xs) ctx' := by
  induction xs generalizing bytes ctx with
  | nil => exact ⟨ctx, rfl, by simpa using h⟩
  | cons b xs ih =>
      simp only [List.length_append, List.length_cons] at hroom hrx
      obtain ⟨ctx₁, hstep, hcollected, hpos, hbuffer⟩ :=
        xMBRTUReceiveFSM_collected h hsnd (by omega) (by omega)
      have hfirst : ctx.ucBuffer ctx.uiRxBufferPos = b := hread 0 (by simp)
      rw [hfirst] at hcollected
      obtain ⟨ctx', hloop, hcollected'⟩ := ih hcollected (by simp; omega) (by omega) (by
        intro i hi
        rw [hpos, hbuffer, Nat.add_assoc, Nat.add_comm 1 i]
        exact hread (i + 1) (Nat.succ_lt_succ hi))
      refine ⟨ctx', ?_, by simpa using hcollected'⟩
      simp only [List.length_cons, receiveBytes, hstep, bind, Except.bind, hloop]

def SerialRead.content : SerialRead → List UInt8
  | chunk bytes => bytes.1
  | failed => []

/-- What one poll reads. -/
def PollInput.content (input : PollInput) : List UInt8 := input.reads.flatMap SerialRead.content

theorem serialReads_collected {reads : List SerialRead} (h : Collected ctx₀ bytes ctx)
    (hready : Listening ctx₀) (hrx : ctx.uiRxBufferPos = 0)
    (hroom : (bytes ++ reads.flatMap SerialRead.content).length ≤ 256) :
    ∃ ctx', serialReads reads ctx = .ok ctx' ∧
      Collected ctx₀ (bytes ++ reads.flatMap SerialRead.content) ctx' ∧ ctx'.uiRxBufferPos = 0 := by
  have henabled := h.bRxEnabled.trans hready.bRxEnabled
  induction reads generalizing bytes ctx with
  | nil => exact ⟨ctx, rfl, by simpa using h, hrx⟩
  | cons r reads ih =>
      cases r with
      | failed =>
          rw [serialReads, if_pos henabled]
          exact ih h hrx hroom henabled
      | chunk chunk =>
          have hsplit : bytes ++ (SerialRead.chunk chunk :: reads).flatMap SerialRead.content =
              bytes ++ chunk.1 ++ reads.flatMap SerialRead.content := by
            rw [List.flatMap_cons, List.append_assoc]
            rfl
          rw [hsplit] at hroom ⊢
          rw [serialReads, if_pos henabled]
          let filled : Fmodbus := { ctx with ucBuffer := storeBytes ctx.ucBuffer 0 chunk.1 }
          have hfilled : Collected ctx₀ bytes filled :=
            ⟨h.eRcvState, h.usRcvBufferPos, h.ucRTUBuf, h.bTimeoutEnable, h.kept⟩
          have hfits : (bytes ++ chunk.1).length ≤ 256 := by
            rw [List.length_append] at hroom
            omega
          have hstart : filled.uiRxBufferPos = 0 := hrx
          have hread : ∀ i (hi : i < chunk.1.length),
              filled.ucBuffer (filled.uiRxBufferPos + i) = chunk.1[i] := by
            intro i hi
            rw [hstart]
            exact @storeBytes_of_lt ctx.ucBuffer 0 i chunk.1 hi
          obtain ⟨ctx₁, hchunk, hcollected⟩ := receiveBytes_collected hfilled hready.eSndState
            hfits (by rw [hstart, Nat.zero_add]; exact chunk.2.2) hread
          let rewound : Fmodbus := { ctx₁ with uiRxBufferPos := 0 }
          have hrewound : Collected ctx₀ (bytes ++ chunk.1) rewound :=
            ⟨hcollected.eRcvState, hcollected.usRcvBufferPos, hcollected.ucRTUBuf,
              hcollected.bTimeoutEnable, hcollected.kept⟩
          obtain ⟨ctx', hreads, hcollected', hpos⟩ := ih hrewound rfl hroom
            (hrewound.bRxEnabled.trans hready.bRxEnabled)
          refine ⟨ctx', ?_, hcollected', hpos⟩
          simp only [bind, Except.bind]
          rw [hchunk]
          exact hreads

end Reading

section Polls

/-- Between two exchanges the slave listens and has heard nothing. -/
structure Ready (ctx : Fmodbus) : Prop where
  mbsidx : ctx.mbsidx = mbsidxMdl
  eMBState : ctx.eMBState = .enabled
  unicast : ctx.ucMBAddress ≠ 0
  ucMBAddress : ctx.ucMBAddress ≠ 255
  usMBSlaveIDLen : ctx.usMBSlaveIDLen.toNat ≤ 251
  listening : Listening ctx
  eRcvState : ctx.eRcvState = .idle
  bTimeoutEnable : ctx.bTimeoutEnable = false
  xEventInQueue : ctx.xEventInQueue = false

/-- What no exchange changes. -/
structure SameSlave (ctx₀ ctx : Fmodbus) : Prop where
  mbsidx : ctx.mbsidx = ctx₀.mbsidx
  eMBState : ctx.eMBState = ctx₀.eMBState
  ucMBAddress : ctx.ucMBAddress = ctx₀.ucMBAddress
  ucMBSlaveID : ctx.ucMBSlaveID = ctx₀.ucMBSlaveID
  usMBSlaveIDLen : ctx.usMBSlaveIDLen = ctx₀.usMBSlaveIDLen

theorem SameSlave.refl (ctx : Fmodbus) : SameSlave ctx ctx := ⟨rfl, rfl, rfl, rfl, rfl⟩

theorem SameSlave.trans {ctx'' : Fmodbus} (h : SameSlave ctx ctx') (h' : SameSlave ctx' ctx'') :
    SameSlave ctx ctx'' :=
  ⟨h'.mbsidx.trans h.mbsidx, h'.eMBState.trans h.eMBState, h'.ucMBAddress.trans h.ucMBAddress,
    h'.ucMBSlaveID.trans h.ucMBSlaveID, h'.usMBSlaveIDLen.trans h.usMBSlaveIDLen⟩

theorem Collected.sameSlave (h : Collected ctx₀ bytes ctx) : SameSlave ctx₀ ctx :=
  ⟨congrArg (·.deaf.mbsidx) h.kept, congrArg (·.deaf.eMBState) h.kept,
    congrArg (·.deaf.ucMBAddress) h.kept, congrArg (·.deaf.ucMBSlaveID) h.kept,
    congrArg (·.deaf.usMBSlaveIDLen) h.kept⟩

theorem Ready.collected (h : Ready ctx) : Collected ctx [] ctx :=
  ⟨h.eRcvState, fun hnil ↦ absurd rfl hnil, (storeBytes_nil _ _).symm, h.bTimeoutEnable, rfl⟩

/-- The frame waits to be taken. -/
structure Waiting (ctx₀ : Fmodbus) (frame : List UInt8) (ctx : Fmodbus) : Prop where
  sameSlave : SameSlave ctx₀ ctx
  listening : Listening ctx
  eRcvState : ctx.eRcvState = .idle
  bTimeoutEnable : ctx.bTimeoutEnable = false
  xEventInQueue : ctx.xEventInQueue = true
  eQueuedEvent : ctx.eQueuedEvent = .frameReceived
  usRcvBufferPos : ctx.usRcvBufferPos.toNat = frame.length
  ucRTUBuf : ctx.ucRTUBuf = storeBytes ctx₀.ucRTUBuf 0 frame

/-- The polls of a thread, and all that they write. -/
def polls (ops : Doubles D) :
    SlaveState D → List PollInput → Except Assertion (SlaveState D × List UInt8)
  | s, [] => .ok (s, [])
  | s, input :: inputs => do
      let (s, written) ← eMBPoll ops s input
      let (s, rest) ← polls ops s inputs
      return (s, written ++ rest)

/-- The bytes come during these polls, and only at the end is the line silent
for long enough. -/
inductive Delivers : List UInt8 → List PollInput → Prop
  | silent {input : PollInput} (h : input.expired = true) : Delivers input.content [input]
  | more {input : PollInput} {inputs : List PollInput} {frame : List UInt8}
      (h : input.expired = false) (hrest : Delivers frame inputs) :
      Delivers (input.content ++ frame) (input :: inputs)

theorem serialPoll_collected {input : PollInput} (h : Collected ctx₀ bytes ctx)
    (hready : Ready ctx₀) (hrx : ctx.uiRxBufferPos = 0)
    (hroom : (bytes ++ input.content).length ≤ 256) :
    ∃ ctx', xMBPortSerialPoll ctx input.reads = .ok (ctx', []) ∧
      Collected ctx₀ (bytes ++ input.content) ctx' ∧ ctx'.uiRxBufferPos = 0 := by
  obtain ⟨ctx', hreads, hcollected, hpos⟩ := serialReads_collected h hready.listening hrx hroom
  have htx : ctx'.bTxEnabled = false :=
    (congrArg (·.deaf.bTxEnabled) hcollected.kept).trans hready.listening.bTxEnabled
  refine ⟨ctx', ?_, hcollected, hpos⟩
  rw [xMBPortSerialPoll]
  simp only [hreads, bind, Except.bind]
  rw [if_neg (by simp [htx])]
  rfl

theorem eMBPoll_collected {input : PollInput} (h : Collected ctx₀ bytes ctx) (hready : Ready ctx₀)
    (hrx : ctx.uiRxBufferPos = 0) (hroom : (bytes ++ input.content).length ≤ 256) :
    ∃ ctx', Collected ctx₀ (bytes ++ input.content) ctx' ∧ ctx'.uiRxBufferPos = 0 ∧
      eMBPoll ops (t, ctx) input =
        (vMBPortTimerPoll ctx' input.expired).map fun c ↦ ((t, c), []) := by
  obtain ⟨ctx', hserial, hcollected, hpos⟩ := serialPoll_collected h hready hrx hroom
  refine ⟨ctx', hcollected, hpos, ?_⟩
  have hqueue : ctx.xEventInQueue = false :=
    (congrArg (·.deaf.xEventInQueue) h.kept).trans hready.xEventInQueue
  have hstate := h.sameSlave.eMBState.trans hready.eMBState
  have haddress := h.sameSlave.ucMBAddress.trans_ne hready.ucMBAddress
  rw [eMBPoll, if_neg (not_not_intro hstate), xMBPortEventGet, if_neg (by simp [hqueue]),
    if_neg haddress]
  simp only [hserial, bind, Except.bind]
  cases vMBPortTimerPoll ctx' input.expired <;> rfl

theorem eMBPoll_more {input : PollInput} (h : Collected ctx₀ bytes ctx) (hready : Ready ctx₀)
    (hrx : ctx.uiRxBufferPos = 0) (hroom : (bytes ++ input.content).length ≤ 256)
    (hexpired : input.expired = false) :
    ∃ ctx', eMBPoll ops (t, ctx) input = .ok ((t, ctx'), []) ∧
      Collected ctx₀ (bytes ++ input.content) ctx' ∧ ctx'.uiRxBufferPos = 0 := by
  obtain ⟨ctx', hcollected, hpos, hpoll⟩ := @eMBPoll_collected D ops t _ _ _ _ h hready hrx hroom
  refine ⟨ctx', ?_, hcollected, hpos⟩
  rw [hpoll, hexpired, vMBPortTimerPoll, if_neg (by simp)]
  rfl

theorem eMBPoll_silent {input : PollInput} (h : Collected ctx₀ bytes ctx) (hready : Ready ctx₀)
    (hrx : ctx.uiRxBufferPos = 0) (hroom : (bytes ++ input.content).length ≤ 256)
    (hexpired : input.expired = true) (hframe : bytes ++ input.content ≠ []) :
    ∃ ctx', eMBPoll ops (t, ctx) input = .ok ((t, ctx'), []) ∧
      Waiting ctx₀ (bytes ++ input.content) ctx' := by
  obtain ⟨ctx', hcollected, hpos, hpoll⟩ := @eMBPoll_collected D ops t _ _ _ _ h hready hrx hroom
  have htimer : ctx'.bTimeoutEnable = true := by
    rw [hcollected.bTimeoutEnable, decide_eq_true hframe]
  have hrcv : ctx'.eRcvState = .rcv := by
    rw [hcollected.eRcvState, if_neg hframe]
  have hlistening : Listening ctx' :=
    ⟨hcollected.eSndState.trans hready.listening.eSndState,
      hcollected.bRxEnabled.trans hready.listening.bRxEnabled,
      (congrArg (·.deaf.bTxEnabled) hcollected.kept).trans hready.listening.bTxEnabled, hpos⟩
  rw [hpoll, hexpired, vMBPortTimerPoll, htimer, Bool.and_self, if_pos rfl,
    xMBRTUTimerT35Expired]
  simp only [hrcv, bind, Except.bind]
  refine ⟨_, rfl, ?_⟩
  obtain ⟨hmbsidx, hstate, haddress, hid, hidlen⟩ := hcollected.sameSlave
  exact ⟨⟨hmbsidx, hstate, haddress, hid, hidlen⟩,
    ⟨hlistening.eSndState, hlistening.bRxEnabled, hlistening.bTxEnabled, hpos⟩, rfl, rfl, rfl, rfl,
    hcollected.usRcvBufferPos hframe, hcollected.ucRTUBuf⟩

theorem polls_append {s s' : SlaveState D} {inputs inputs' : List PollInput}
    {written : List UInt8} (h : polls ops s inputs = .ok (s', written)) :
    polls ops s (inputs ++ inputs') =
      (polls ops s' inputs').map fun r ↦ (r.1, written ++ r.2) := by
  induction inputs generalizing s written with
  | nil =>
      obtain ⟨rfl, rfl⟩ : s = s' ∧ [] = written := by simpa [polls] using h
      rw [List.nil_append]
      cases polls ops s inputs' <;> rfl
  | cons input inputs ih =>
      simp only [polls, bind, Except.bind] at h
      split at h
      case h_1 => cases h
      case h_2 r hpoll =>
        split at h
        case h_1 => cases h
        case h_2 r' hpolls =>
          obtain ⟨rfl, rfl⟩ : r'.1 = s' ∧ r.2 ++ r'.2 = written := by
            simpa [pure, Except.pure] using h
          simp only [List.cons_append, polls, hpoll, bind, Except.bind]
          rw [ih hpolls]
          cases polls ops r'.1 inputs' with
          | error assertion => rfl
          | ok r'' => simp [Except.map, pure, Except.pure]

theorem polls_delivers {inputs : List PollInput} (h : Collected ctx₀ bytes ctx)
    (hready : Ready ctx₀) (hrx : ctx.uiRxBufferPos = 0) (hdelivers : Delivers frame inputs)
    (hroom : (bytes ++ frame).length ≤ 256) (hframe : bytes ++ frame ≠ []) :
    ∃ ctx', polls ops (t, ctx) inputs = .ok ((t, ctx'), []) ∧
      Waiting ctx₀ (bytes ++ frame) ctx' := by
  induction hdelivers generalizing bytes ctx with
  | silent hexpired =>
      obtain ⟨ctx', hpoll, hwaiting⟩ :=
        @eMBPoll_silent D ops t _ _ _ _ h hready hrx hroom hexpired hframe
      refine ⟨ctx', ?_, hwaiting⟩
      simp only [polls, hpoll, bind, Except.bind]
      rfl
  | more hexpired _ ih =>
      rw [← List.append_assoc] at hroom hframe ⊢
      obtain ⟨ctx₁, hpoll, hcollected, hpos⟩ := @eMBPoll_more D ops t _ _ _ _ h hready hrx
        (by rw [List.length_append] at hroom; omega) hexpired
      obtain ⟨ctx', hpolls, hwaiting⟩ := ih hcollected hpos hroom hframe
      refine ⟨ctx', ?_, hwaiting⟩
      simp only [polls, hpoll, bind, Except.bind, hpolls]
      rfl

end Polls

end Mbs
