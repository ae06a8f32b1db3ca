import PcsSim.Modbus.Rtu

/-!
# Bytes received and sent

`hear` is what one byte does to the receiver, as a counter.  The loops of
`xMBPortSerialPoll` are described by it and by the bytes that they store.
-/

namespace Mbs

variable {ctx ctx' : Fmodbus} {n : ℕ}

section Receiver

/-- The state of the receiver and the number of bytes it has stored. -/
def Fmodbus.line (ctx : Fmodbus) : MbRcvState × ℕ := (ctx.eRcvState, ctx.usRcvBufferPos.toNat)

/-- What a byte does. -/
def hear : MbRcvState × ℕ → MbRcvState × ℕ
  | (.init, pos) => (.init, pos)
  | (.error, pos) => (.error, pos)
  | (.idle, _) => (.rcv, 1)
  | (.rcv, pos) => if pos < 256 then (.rcv, pos + 1) else (.error, pos)

theorem hear_ne_idle (line : MbRcvState × ℕ) : (hear line).1 ≠ .idle := by
  fun_cases hear line <;> simp

theorem hear_fits {line : MbRcvState × ℕ} (h : (hear line).1 = .rcv) : (hear line).2 ≤ 256 := by
  fun_cases hear line with
  | case3 => simp
  | case4 pos hroom => exact hroom
  | case5 pos hfull =>
      rw [hear, if_neg hfull] at h
      cases h
  | case1 | case2 => simp [hear] at h

theorem iterate_hear_rcv {pos : ℕ} (hpos : pos ≤ 256) (n : ℕ) :
    hear^[n] (.rcv, pos) = if pos + n ≤ 256 then (.rcv, pos + n) else (.error, 256) := by
  induction n with
  | zero => simp [hpos]
  | succ n ih =>
      rw [Function.iterate_succ_apply', ih]
      by_cases hroom : pos + n < 256
      · rw [if_pos hroom.le, if_pos (by omega), hear, if_pos hroom, Nat.add_assoc]
      · rw [if_neg (c := pos + (n + 1) ≤ 256) (by omega)]
        by_cases hfull : pos + n ≤ 256
        · rw [if_pos hfull, hear, if_neg hroom]
          congr
          omega
        · rw [if_neg hfull, hear]

theorem iterate_hear_idle (pos n : ℕ) :
    hear^[n + 1] (.idle, pos) = if n + 1 ≤ 256 then (.rcv, n + 1) else (.error, 256) := by
  rw [Function.iterate_succ_apply, hear, iterate_hear_rcv (by omega), Nat.add_comm 1 n]

theorem iterate_hear_of_deaf {line : MbRcvState × ℕ} (h : hear line = line) (n : ℕ) :
    hear^[n] line = line :=
  Function.iterate_fixed h n

theorem iterate_hear_full_iff {line : MbRcvState × ℕ} (hfits : line.1 = .rcv → line.2 ≤ 256)
    (n : ℕ) : hear^[n] line = (.rcv, 256) ↔
      line.1 = .idle ∧ n = 256 ∨ line.1 = .rcv ∧ line.2 + n = 256 := by
  rcases line with ⟨_ | _ | _ | _, pos⟩
  case init =>
    rw [iterate_hear_of_deaf rfl]
    simp
  case error =>
    rw [iterate_hear_of_deaf rfl]
    simp
  case idle =>
    cases n with
    | zero => simp
    | succ n =>
        rw [iterate_hear_idle]
        split_ifs
        · simp
        · simp
          omega
  case rcv =>
    rw [iterate_hear_rcv (hfits rfl)]
    split_ifs <;> simp
    omega

theorem iterate_hear_fits {line : MbRcvState × ℕ} (hfits : line.1 = .rcv → line.2 ≤ 256)
    (n : ℕ) : (hear^[n] line).1 = .rcv → (hear^[n] line).2 ≤ 256 := by
  cases n with
  | zero => exact hfits
  | succ n =>
      rw [Function.iterate_succ_apply']
      exact hear_fits

end Receiver

section Receiving

/-- A context without what receiving changes. -/
def Fmodbus.deaf (ctx : Fmodbus) : Fmodbus :=
  { ctx with
    ucBuffer := fun _ ↦ 0
    uiRxBufferPos := 0
    bTimeoutEnable := false
    eRcvState := .init
    ucRTUBuf := fun _ ↦ 0
    usRcvBufferPos := 0 }

/-- The context after `n` more bytes. -/
structure Heard (n : ℕ) (ctx ctx' : Fmodbus) : Prop where
  line : ctx'.line = hear^[n] ctx.line
  bTimeoutEnable : ctx'.bTimeoutEnable = (ctx.bTimeoutEnable || decide (0 < n))
  kept : ctx'.deaf = ctx.deaf

theorem Heard.refl (ctx : Fmodbus) : Heard 0 ctx ctx := by
  refine ⟨rfl, ?_, rfl⟩
  simp

theorem Heard.trans {m : ℕ} {ctx'' : Fmodbus} (h : Heard n ctx ctx') (h' : Heard m ctx' ctx'') :
    Heard (n + m) ctx ctx'' := by
  refine ⟨?_, ?_, h'.kept.trans h.kept⟩
  · rw [h'.line, h.line, Nat.add_comm, Function.iterate_add_apply]
  · rw [h'.bTimeoutEnable, h.bTimeoutEnable, Bool.or_assoc]
    congr 1
    rw [← Bool.decide_or]
    exact decide_eq_decide.mpr (by omega)

theorem check_of_true {condition : Bool} (h : condition = true) (assertion : Assertion) :
    check condition assertion = .ok () :=
  if_pos h

def Fmodbus.gotByte (ctx : Fmodbus) : Fmodbus :=
  { ctx with uiRxBufferPos := ctx.uiRxBufferPos + 1 }

theorem xMBRTUReceiveFSM_eq (hsnd : ctx.eSndState = .idle) (hrx : ctx.uiRxBufferPos < 256) :
    ∃ ctx', xMBRTUReceiveFSM ctx = .ok ctx' ∧ Heard 1 ctx ctx' ∧
      ctx'.uiRxBufferPos = ctx.uiRxBufferPos + 1 := by
  have hbyte : xMBPortSerialGetByte ctx =
      .ok (ctx.gotByte, ctx.ucBuffer ctx.uiRxBufferPos) := by
    rw [xMBPortSerialGetByte, check_of_true (decide_eq_true hrx)]
    rfl
  have hbound : ctx.gotByte.usRcvBufferPos < 256 ↔ ctx.usRcvBufferPos.toNat < 256 := Iff.rfl
  have hline : ctx.line = (ctx.gotByte.eRcvState, ctx.usRcvBufferPos.toNat) := rfl
  have htimer (b : Bool) : true = (b || decide (0 < 1)) := by simp
  rw [xMBRTUReceiveFSM, check_of_true (decide_eq_true hsnd)]
  simp only [hbyte, Except.bind, bind]
  cases hrcv : ctx.gotByte.eRcvState with
  | init =>
      refine ⟨_, rfl, ⟨?_, htimer _, rfl⟩, rfl⟩
      rw [hline, hrcv]
      exact hline.trans (congrArg (·, _) hrcv)
  | error =>
      refine ⟨_, rfl, ⟨?_, htimer _, rfl⟩, rfl⟩
      rw [hline, hrcv]
      exact hline.trans (congrArg (·, _) hrcv)
  | idle =>
      refine ⟨_, rfl, ⟨?_, htimer _, rfl⟩, rfl⟩
      rw [hline, hrcv]
      rfl
  | rcv =>
      by_cases hroom : ctx.usRcvBufferPos.toNat < 256
      · refine ⟨_, if_pos (hbound.mpr hroom), ⟨?_, htimer _, rfl⟩, rfl⟩
        have hnext : (ctx.usRcvBufferPos + 1).toNat = ctx.usRcvBufferPos.toNat + 1 := by
          rw [UInt16.toNat_add]
          exact Nat.mod_eq_of_lt (by change ctx.usRcvBufferPos.toNat + 1 < 2 ^ 16; omega)
        rw [hline, hrcv]
        change (MbRcvState.rcv, (ctx.usRcvBufferPos + 1).toNat) = hear (.rcv, _)
        rw [hnext, hear, if_pos hroom]
      · refine ⟨_, if_neg (mt hbound.mp hroom), ⟨?_, htimer _, rfl⟩, rfl⟩
        rw [hline, hrcv]
        change (MbRcvState.error, ctx.usRcvBufferPos.toNat) = hear (.rcv, _)
        rw [hear, if_neg hroom]

theorem Heard.eSndState (h : Heard n ctx ctx') : ctx'.eSndState = ctx.eSndState :=
  congrArg (·.deaf.eSndState) h.kept

theorem receiveBytes_eq (hsnd : ctx.eSndState = .idle) (hrx : ctx.uiRxBufferPos + n ≤ 256) :
    ∃ ctx', receiveBytes n ctx = .ok ctx' ∧ Heard n ctx ctx' := by
  induction n generalizing ctx with
  | zero => exact ⟨ctx, rfl, .refl ctx⟩
  | succ n ih =>
      obtain ⟨ctx₁, hstep, hheard, hpos⟩ := xMBRTUReceiveFSM_eq hsnd (by omega)
      obtain ⟨ctx₂, hloop, hheard'⟩ := ih (hheard.eSndState.trans hsnd) (by omega)
      refine ⟨ctx₂, ?_, Nat.add_comm 1 n ▸ hheard.trans hheard'⟩
      simp only [receiveBytes, hstep, bind, Except.bind, hloop]

/-- The number of bytes read. -/
def received (reads : List SerialRead) : ℕ := (reads.map SerialRead.size).sum

theorem serialReads_of_disabled (h : ctx.bRxEnabled = false) (reads : List SerialRead) :
    serialReads reads ctx = .ok ctx := by
  cases reads with
  | nil => rfl
  | cons r reads => cases r <;> rw [serialReads, if_neg (by simp [h])]

/-- A chunk is received whole, and the next read starts at the front of the
buffer again. -/
theorem serialReads_eq (hsnd : ctx.eSndState = .idle) (henabled : ctx.bRxEnabled = true)
    (hrx : ctx.uiRxBufferPos = 0) (reads : List SerialRead) :
    ∃ ctx', serialReads reads ctx = .ok ctx' ∧ Heard (received reads) ctx ctx' ∧
      ctx'.uiRxBufferPos = 0 := by
  induction reads generalizing ctx with
  | nil => exact ⟨ctx, rfl, .refl ctx, hrx⟩
  | cons r reads ih =>
      cases r with
      | failed =>
          rw [serialReads, if_pos henabled]
          obtain ⟨ctx', hreads, hheard, hpos⟩ := ih hsnd henabled hrx
          refine ⟨ctx', hreads, ?_, hpos⟩
          simpa [received, SerialRead.size] using hheard
      | chunk bytes =>
          rw [serialReads, if_pos henabled]
          let filled : Fmodbus := { ctx with ucBuffer := storeBytes ctx.ucBuffer 0 bytes.1 }
          have hroom : filled.uiRxBufferPos + bytes.1.length ≤ 256 := by
            have hle := bytes.2.2
            change ctx.uiRxBufferPos + _ ≤ 256
            omega
          obtain ⟨ctx₁, hchunk, hheard⟩ := @receiveBytes_eq filled _ hsnd hroom
          have hrx₁ : ctx₁.bRxEnabled = true :=
            (congrArg (·.deaf.bRxEnabled) hheard.kept).trans henabled
          let rewound : Fmodbus := { ctx₁ with uiRxBufferPos := 0 }
          obtain ⟨ctx', hreads, hheard', hpos⟩ :=
            @ih rewound (hheard.eSndState.trans hsnd) hrx₁ rfl
          refine ⟨ctx', ?_, ?_, hpos⟩
          · simp only [bind, Except.bind]
            rw [hchunk]
            exact hreads
          · -- neither the buffer nor its position counts
            have hfirst : Heard bytes.1.length ctx rewound :=
              ⟨hheard.line, hheard.bTimeoutEnable, hheard.kept⟩
            exact hfirst.trans hheard'

end Receiving

section Sending

structure Listening (ctx : Fmodbus) : Prop where
  eSndState : ctx.eSndState = .idle
  bRxEnabled : ctx.bRxEnabled = true
  bTxEnabled : ctx.bTxEnabled = false
  uiRxBufferPos : ctx.uiRxBufferPos = 0

structure Sending (ctx : Fmodbus) : Prop where
  eSndState : ctx.eSndState = .xmit
  bRxEnabled : ctx.bRxEnabled = false
  bTxEnabled : ctx.bTxEnabled = true
  eRcvState : ctx.eRcvState = .idle
  room : ctx.uiTxBufferPos + ctx.usSndBufferCount.toNat ≤ 256

/-- A context without what sending changes. -/
def Fmodbus.mute (ctx : Fmodbus) : Fmodbus :=
  { ctx with
    bRxEnabled := false
    bTxEnabled := false
    ucBuffer := fun _ ↦ 0
    uiRxBufferPos := 0
    uiTxBufferPos := 0
    eQueuedEvent := .ready
    xEventInQueue := false
    eSndState := .idle
    pucSndBufferCur := 0
    usSndBufferCount := 0 }

/-- The context after its `n` bytes have been sent. -/
structure Sent (n : ℕ) (ctx ctx' : Fmodbus) : Prop where
  listening : Listening ctx'
  xEventInQueue : ctx'.xEventInQueue = true
  eQueuedEvent : ctx'.eQueuedEvent = .frameSent
  kept : ctx'.mute = ctx.mute
  uiTxBufferPos : ctx'.uiTxBufferPos = ctx.uiTxBufferPos + n
  ucBuffer : ctx'.ucBuffer = storeBytes ctx.ucBuffer ctx.uiTxBufferPos
    ((List.range n).map fun i ↦ ctx.ucRTUBuf (ctx.pucSndBufferCur + i))

def Fmodbus.putByte (ctx : Fmodbus) : Fmodbus :=
  { ctx with
    ucBuffer := Function.update ctx.ucBuffer ctx.uiTxBufferPos (ctx.ucRTUBuf ctx.pucSndBufferCur)
    uiTxBufferPos := ctx.uiTxBufferPos + 1
    pucSndBufferCur := ctx.pucSndBufferCur + 1
    usSndBufferCount := ctx.usSndBufferCount - 1 }

theorem xMBRTUTransmitFSM_byte (h : Sending ctx) (hcount : ctx.usSndBufferCount ≠ 0)
    (hroom : ctx.uiTxBufferPos < 256) : xMBRTUTransmitFSM ctx = .ok ctx.putByte := by
  unfold Fmodbus.putByte xMBRTUTransmitFSM xMBPortSerialPutByte
  simp [check, h.eSndState, h.eRcvState, hcount, hroom, bind, Except.bind, pure, Except.pure]

theorem xMBRTUTransmitFSM_end (h : Sending ctx) (hcount : ctx.usSndBufferCount = 0) :
    ∃ ctx', xMBRTUTransmitFSM ctx = .ok ctx' ∧ Sent 0 ctx ctx' := by
  unfold xMBRTUTransmitFSM
  simp only [check, h.eSndState, h.eRcvState, hcount, bind, Except.bind, decide_true, if_true]
  refine ⟨_, rfl, ⟨⟨rfl, rfl, rfl, rfl⟩, rfl, rfl, ?_, rfl, ?_⟩⟩
  · simp [Fmodbus.mute, xMBPortEventPost]
  · exact (storeBytes_nil _ _).symm

/-- As many rounds as there are bytes, and one more, end the loop. -/
theorem transmitLoop_eq (h : Sending ctx) (hcount : ctx.usSndBufferCount.toNat = n) :
    ∃ ctx', transmitLoop (n + 1) ctx = .ok ctx' ∧ Sent n ctx ctx' := by
  induction n generalizing ctx with
  | zero =>
      obtain ⟨ctx', hstep, hsent⟩ := xMBRTUTransmitFSM_end h (UInt16.toNat_inj.mp hcount)
      refine ⟨ctx', ?_, hsent⟩
      simp only [transmitLoop, if_pos h.bTxEnabled, hstep, bind, Except.bind]
  | succ n ih =>
      have hne : ctx.usSndBufferCount ≠ 0 := by
        intro hzero
        rw [hzero] at hcount
        cases hcount
      have hroom := h.room
      have hless : ctx.putByte.usSndBufferCount.toNat = n := by
        have hle : 1 ≤ ctx.usSndBufferCount := by
          change 1 ≤ ctx.usSndBufferCount.toNat
          omega
        change (ctx.usSndBufferCount - 1).toNat = n
        rw [UInt16.toNat_sub_of_le _ _ hle, hcount]
        rfl
      have hsending : Sending ctx.putByte :=
        ⟨h.eSndState, h.bRxEnabled, h.bTxEnabled, h.eRcvState, by
          rw [hless]
          change ctx.uiTxBufferPos + 1 + n ≤ 256
          omega⟩
      obtain ⟨ctx', hloop, hsent⟩ := ih hsending hless
      refine ⟨ctx', ?_, ⟨hsent.listening, hsent.xEventInQueue, hsent.eQueuedEvent, hsent.kept,
        ?_, ?_⟩⟩
      · rw [transmitLoop, if_pos h.bTxEnabled, xMBRTUTransmitFSM_byte h hne (by omega)]
        exact hloop
      · rw [hsent.uiTxBufferPos]
        change ctx.uiTxBufferPos + 1 + n = _
        omega
      · have hbytes : (List.range n).map (fun i ↦ ctx.putByte.ucRTUBuf
            (ctx.putByte.pucSndBufferCur + i)) =
              (List.range n).map fun i ↦ ctx.ucRTUBuf (ctx.pucSndBufferCur + (i + 1)) := by
          apply List.map_congr_left
          intro i _
          exact congrArg ctx.ucRTUBuf (by change ctx.pucSndBufferCur + 1 + i = _; omega)
        rw [hsent.ucBuffer, hbytes, List.range_succ_eq_map, List.map_cons, List.map_map,
          ← storeBytes_cons]
        rfl

/-- What goes out is the frame that was to be sent. -/
theorem xMBPortSerialPoll_of_sending (h : Sending ctx) (hstart : ctx.uiTxBufferPos = 0)
    (reads : List SerialRead) :
    ∃ ctx', xMBPortSerialPoll ctx reads = .ok (ctx',
      (List.range ctx.usSndBufferCount.toNat).map fun i ↦ ctx.ucRTUBuf (ctx.pucSndBufferCur + i)) ∧
      Sent ctx.usSndBufferCount.toNat ctx ctx' := by
  obtain ⟨ctx', hloop, hsent⟩ := transmitLoop_eq h rfl
  have hwritten : (List.range ctx'.uiTxBufferPos).map ctx'.ucBuffer =
      (List.range ctx.usSndBufferCount.toNat).map fun i ↦
        ctx.ucRTUBuf (ctx.pucSndBufferCur + i) := by
    apply List.ext_getElem
    · simp [hsent.uiTxBufferPos, hstart]
    · intro i _ hi
      have hstored := @storeBytes_of_lt ctx.ucBuffer 0 i _ hi
      rw [Nat.zero_add] at hstored
      rw [List.getElem_map, List.getElem_range, hsent.ucBuffer, hstart]
      exact hstored
  refine ⟨ctx', ?_, hsent⟩
  simp only [xMBPortSerialPoll, serialReads_of_disabled h.bRxEnabled, bind, Except.bind]
  rw [if_pos h.bTxEnabled]
  simp only [hloop, hwritten]
  rfl

end Sending

end Mbs
