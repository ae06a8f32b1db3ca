import PcsSim.Modbus.Crc
import PcsSim.Modbus.Delivery

/-!
# Exchanges

A frame that is delivered to the slave is answered by the frame of `answer`, if
it is undamaged and for this slave, and by nothing otherwise; either way the
slave is ready for the next one.
-/

namespace Mbs

variable {D : Type} {ops : Doubles D} {t t' : Tables D} {ctx ctx₀ ctx' : Fmodbus}
  {frame pdu : List UInt8} {ucRcvAddress : UInt8}

section Taking

theorem map_storeBytes (buf : ℕ → UInt8) (frame : List UInt8) :
    (List.range frame.length).map (storeBytes buf 0 frame) = frame := by
  apply List.ext_getElem
  · simp
  · intro i _ hi
    have hstored := @storeBytes_of_lt buf 0 i frame hi
    rw [Nat.zero_add] at hstored
    rw [List.getElem_map, List.getElem_range, hstored]

def Undamaged (frame : List UInt8) : Prop := 4 ≤ frame.length ∧ checksum frame = 0

instance (frame : List UInt8) : Decidable (Undamaged frame) :=
  inferInstanceAs (Decidable (_ ∧ _))

def Fmodbus.take (ctx : Fmodbus) : Fmodbus :=
  { ctx with
    ucRcvAddress := ctx.ucRTUBuf 0
    usLength := ctx.usRcvBufferPos - 1 - 2
    ucMBFrame := 1 }

theorem usMBCRC16_waiting (h : Waiting ctx₀ frame ctx) :
    usMBCRC16 ctx.ucRTUBuf ctx.usRcvBufferPos = 0 ↔ checksum frame = 0 := by
  have hsum := usMBCRC16_eq ctx.ucRTUBuf ctx.usRcvBufferPos
  rw [h.usRcvBufferPos, h.ucRTUBuf, map_storeBytes, ← h.ucRTUBuf] at hsum
  rw [← hsum, ← UInt16.toBitVec_inj]
  rfl

theorem eMBRTUReceive_eq (h : Waiting ctx₀ frame ctx) (hlength : frame.length < 256) :
    (Undamaged frame → eMBRTUReceive ctx.dequeued = .ok (ctx.dequeued.take, true)) ∧
      (¬Undamaged frame → eMBRTUReceive ctx.dequeued = .ok (ctx.dequeued, false)) := by
  have hbound : ctx.dequeued.usRcvBufferPos < 256 := by
    change ctx.usRcvBufferPos.toNat < 256
    rw [h.usRcvBufferPos]
    exact hlength
  have hfour : 4 ≤ ctx.dequeued.usRcvBufferPos ↔ 4 ≤ frame.length := by
    change 4 ≤ ctx.usRcvBufferPos.toNat ↔ _
    rw [h.usRcvBufferPos]
  have hsum : usMBCRC16 ctx.dequeued.ucRTUBuf ctx.dequeued.usRcvBufferPos = 0 ↔
      checksum frame = 0 := (usMBCRC16_waiting h :)
  rw [eMBRTUReceive, check_of_true (decide_eq_true hbound)]
  simp only [bind, Except.bind, hfour, hsum]
  exact ⟨fun hwhole ↦ if_pos hwhole, fun hdamaged ↦ if_neg hdamaged⟩

/-- The slave has heard the frame and does nothing about it. -/
structure Idle (ctx₀ : Fmodbus) (ctx : Fmodbus) : Prop where
  sameSlave : SameSlave ctx₀ ctx
  listening : Listening ctx
  eRcvState : ctx.eRcvState = .idle
  bTimeoutEnable : ctx.bTimeoutEnable = false
  xEventInQueue : ctx.xEventInQueue = false

theorem Idle.ready (h : Idle ctx₀ ctx) (hready : Ready ctx₀) : Ready ctx := by
  obtain ⟨hmbsidx, hstate, haddress, -, hidlen⟩ := h.sameSlave
  exact ⟨hmbsidx.trans hready.mbsidx, hstate.trans hready.eMBState,
    haddress.trans_ne hready.unicast, haddress.trans_ne hready.ucMBAddress,
    hidlen ▸ hready.usMBSlaveIDLen, h.listening, h.eRcvState, h.bTimeoutEnable, h.xEventInQueue⟩

theorem Ready.idle (h : Ready ctx) : Idle ctx ctx :=
  ⟨.refl ctx, h.listening, h.eRcvState, h.bTimeoutEnable, h.xEventInQueue⟩

/-- A request waits to be executed. -/
structure Requested (ctx₀ : Fmodbus) (ucRcvAddress : UInt8) (pdu : List UInt8) (ctx : Fmodbus) :
    Prop where
  sameSlave : SameSlave ctx₀ ctx
  listening : Listening ctx
  eRcvState : ctx.eRcvState = .idle
  bTimeoutEnable : ctx.bTimeoutEnable = false
  received : ctx.Received pdu
  ucMBFrame : ctx.ucMBFrame = 1
  ucRcvAddress : ctx.ucRcvAddress = ucRcvAddress

/-- The two parts of a frame without its checksum. -/
def frameAddress (frame : List UInt8) : UInt8 := frame.getD 0 0

def framePdu (frame : List UInt8) : List UInt8 := (frame.drop 1).take (frame.length - 3)

def ForSlave (ucMBAddress : UInt8) (frame : List UInt8) : Prop :=
  Undamaged frame ∧ (frameAddress frame = ucMBAddress ∨ frameAddress frame = 0)

theorem Waiting.dequeued (h : Waiting ctx₀ frame ctx) : Idle ctx₀ ctx.dequeued := by
  obtain ⟨hmbsidx, hstate, haddress, hid, hidlen⟩ := h.sameSlave
  obtain ⟨hsnd, hrx, htx, hpos⟩ := h.listening
  exact ⟨⟨hmbsidx, hstate, haddress, hid, hidlen⟩, ⟨hsnd, hrx, htx, hpos⟩, h.eRcvState,
    h.bTimeoutEnable, rfl⟩

theorem Idle.take (h : Idle ctx₀ ctx) : Idle ctx₀ ctx.take := by
  obtain ⟨hmbsidx, hstate, haddress, hid, hidlen⟩ := h.sameSlave
  obtain ⟨hsnd, hrx, htx, hpos⟩ := h.listening
  exact ⟨⟨hmbsidx, hstate, haddress, hid, hidlen⟩, ⟨hsnd, hrx, htx, hpos⟩, h.eRcvState,
    h.bTimeoutEnable, h.xEventInQueue⟩

theorem storeBytes_zero (buf : ℕ → UInt8) {i : ℕ} (hi : i < frame.length) :
    storeBytes buf 0 frame i = frame[i] := by
  have hstored := @storeBytes_of_lt buf 0 i frame hi
  rwa [Nat.zero_add] at hstored

theorem requested_take (h : Waiting ctx₀ frame ctx) (hready : Ready ctx₀)
    (hfour : 4 ≤ frame.length) :
    Requested ctx₀ (frameAddress frame) (framePdu frame)
      (xMBPortEventPost ctx.dequeued.take .execute).dequeued := by
  obtain ⟨⟨hmbsidx, hstate, haddress, hid, hidlen⟩, ⟨hsnd, hrx, htx, hpos⟩, hrcv, htimer, -⟩ :=
    h.dequeued
  refine ⟨⟨hmbsidx, hstate, haddress, hid, hidlen⟩, ⟨hsnd, hrx, htx, hpos⟩, hrcv, htimer,
    ⟨hmbsidx.trans hready.mbsidx, ?_, ?_⟩, rfl, ?_⟩
  · have hcount := h.usRcvBufferPos
    have hbound := ctx.usRcvBufferPos.toNat_lt
    change (ctx.usRcvBufferPos - 1 - 2).toNat = _
    rw [framePdu, List.length_take, List.length_drop, UInt16.toNat_sub, UInt16.toNat_sub]
    change (2 ^ 16 - 2 + (2 ^ 16 - 1 + ctx.usRcvBufferPos.toNat) % 2 ^ 16) % 2 ^ 16 = _
    omega
  · intro i b hb
    obtain ⟨hi, rfl⟩ := List.getElem?_eq_some_iff.mp hb
    have hlt : 1 + i < frame.length := by
      simp only [framePdu, List.length_take, List.length_drop] at hi
      omega
    change ctx.ucRTUBuf (1 + i) = _
    rw [h.ucRTUBuf, storeBytes_zero _ hlt]
    simp only [framePdu, List.getElem_take, List.getElem_drop]
  · change ctx.ucRTUBuf 0 = _
    rw [h.ucRTUBuf, storeBytes_zero _ (by omega), frameAddress, List.getD_eq_getElem]

theorem eMBPoll_event (hstate : ctx.eMBState = .enabled) (hqueue : ctx.xEventInQueue = true)
    {eEvent : MbEvent} (hevent : ctx.eQueuedEvent = eEvent) (input : PollInput) :
    eMBPoll ops (t, ctx) input =
      (handleEvent ops t ctx.dequeued eEvent).map fun s ↦ (s, []) := by
  have hget : xMBPortEventGet ctx input = .ok (ctx.dequeued, some eEvent, []) :=
    hevent ▸ if_pos hqueue
  rw [eMBPoll, if_neg (not_not_intro hstate)]
  simp only [hget, bind, Except.bind]
  cases handleEvent ops t ctx.dequeued eEvent <;> rfl

theorem addressed_take (h : Waiting ctx₀ frame ctx) (hready : Ready ctx₀)
    (hfour : 4 ≤ frame.length) :
    (ctx.dequeued.take.ucRcvAddress = ctx.dequeued.take.ucMBAddress ∨
        ctx.dequeued.take.ucRcvAddress = 0) ↔
      (frameAddress frame = ctx₀.ucMBAddress ∨ frameAddress frame = 0) := by
  have htaken : ctx.dequeued.take.ucRcvAddress = frameAddress frame :=
    (requested_take h hready hfour).ucRcvAddress
  have hsame : ctx.dequeued.take.ucMBAddress = ctx₀.ucMBAddress := h.sameSlave.ucMBAddress
  rw [htaken, hsame]

/-- A frame that is damaged or for another slave is left alone. -/
theorem eMBPoll_ignored (h : Waiting ctx₀ frame ctx) (hready : Ready ctx₀)
    (hlength : frame.length < 256) (hother : ¬ForSlave ctx₀.ucMBAddress frame)
    (input : PollInput) :
    ∃ ctx', eMBPoll ops (t, ctx) input = .ok ((t, ctx'), []) ∧ Idle ctx₀ ctx' := by
  have hstate := h.sameSlave.eMBState.trans hready.eMBState
  have hreceive := eMBRTUReceive_eq h hlength
  rw [eMBPoll_event hstate h.xEventInQueue h.eQueuedEvent, handleEvent]
  by_cases hwhole : Undamaged frame
  · have haddress := mt (addressed_take h hready hwhole.1).mp fun hmine ↦ hother ⟨hwhole, hmine⟩
    simp only [hreceive.1 hwhole, bind, Except.bind]
    rw [if_neg fun hboth ↦ haddress hboth.2]
    exact ⟨ctx.dequeued.take, rfl, h.dequeued.take⟩
  · simp only [hreceive.2 hwhole, bind, Except.bind]
    exact ⟨ctx.dequeued, rfl, h.dequeued⟩

theorem eMBPoll_requested (h : Waiting ctx₀ frame ctx) (hready : Ready ctx₀)
    (hlength : frame.length < 256) (hmine : ForSlave ctx₀.ucMBAddress frame)
    (input : PollInput) :
    ∃ ctx', eMBPoll ops (t, ctx) input = .ok ((t, ctx'), []) ∧ ctx'.xEventInQueue = true ∧
      ctx'.eQueuedEvent = .execute ∧
      Requested ctx₀ (frameAddress frame) (framePdu frame) ctx'.dequeued := by
  have hstate := h.sameSlave.eMBState.trans hready.eMBState
  have hreceive := (eMBRTUReceive_eq h hlength).1 hmine.1
  have haddress := (addressed_take h hready hmine.1.1).mpr hmine.2
  rw [eMBPoll_event hstate h.xEventInQueue h.eQueuedEvent, handleEvent]
  simp only [hreceive, bind, Except.bind]
  rw [if_pos ⟨trivial, haddress⟩]
  exact ⟨_, rfl, rfl, rfl, requested_take h hready hmine.1.1⟩

end Taking

section Replying

/-- The reply stands in the buffer and is to be sent. -/
structure Replying (ctx₀ : Fmodbus) (reply : List UInt8) (ctx : Fmodbus) : Prop where
  sameSlave : SameSlave ctx₀ ctx
  sending : Sending ctx
  bTimeoutEnable : ctx.bTimeoutEnable = false
  xEventInQueue : ctx.xEventInQueue = false
  uiTxBufferPos : ctx.uiTxBufferPos = 0
  bytes : (List.range ctx.usSndBufferCount.toNat).map
    (fun i ↦ ctx.ucRTUBuf (ctx.pucSndBufferCur + i)) = reply

theorem map_frame (buf : ℕ → UInt8) (a lo hi : UInt8) (n : ℕ) :
    (List.range (n + 3)).map (Function.update (Function.update (Function.update buf 0 a)
        (n + 1) lo) (n + 2) hi) =
      a :: (List.range n).map (fun i ↦ buf (1 + i)) ++ [lo, hi] := by
  rw [List.range_succ, List.range_succ, List.range_succ_eq_map]
  have hrest : (List.range n).map (Function.update (Function.update (Function.update buf 0 a)
      (n + 1) lo) (n + 2) hi ∘ Nat.succ) = (List.range n).map fun i ↦ buf (1 + i) := by
    apply List.map_congr_left
    intro i hi
    have hlt := List.mem_range.mp hi
    rw [Function.comp_apply, Function.update_of_ne (by omega), Function.update_of_ne (by omega),
      Function.update_of_ne (by omega), Nat.succ_eq_one_add]
  simp only [List.map_append, List.map_cons, List.map_map, List.map_nil, hrest]
  simp

theorem map_address (buf : ℕ → UInt8) (a : UInt8) (n : ℕ) :
    (List.range (1 + n)).map (Function.update buf 0 a) =
      a :: (List.range n).map (fun i ↦ buf (1 + i)) := by
  rw [Nat.add_comm, List.range_succ_eq_map, List.map_cons, List.map_map, Function.update_self]
  congr 1
  apply List.map_congr_left
  intro i _
  simp [Nat.add_comm 1 i]

theorem vMBPortSerialEnable_transmit (ctx : Fmodbus) : vMBPortSerialEnable ctx false true =
    .ok { ctx with bRxEnabled := false, bTxEnabled := true, uiTxBufferPos := 0 } := rfl

theorem eMBRTUSend_eq (hrcv : ctx.eRcvState = .idle) (hframe : ctx.ucMBFrame = 1)
    (hlen : ctx.usLength.toNat ≤ 252) :
    ∃ ctx', eMBRTUSend ctx = .ok ctx' ∧ SameSlave ctx ctx' ∧ Sending ctx' ∧
      ctx'.bTimeoutEnable = ctx.bTimeoutEnable ∧ ctx'.xEventInQueue = ctx.xEventInQueue ∧
      ctx'.uiTxBufferPos = 0 ∧
      (List.range ctx'.usSndBufferCount.toNat).map
        (fun i ↦ ctx'.ucRTUBuf (ctx'.pucSndBufferCur + i)) = rtuFrame ctx.ucMBAddress ctx.pdu := by
  have hcur : ctx.ucMBFrame - 1 = 0 := by omega
  have hcount : (1 + ctx.usLength).toNat = 1 + ctx.usLength.toNat := by
    rw [UInt16.toNat_add]
    exact Nat.mod_eq_of_lt (by change 1 + _ < 2 ^ 16; omega)
  have hnext : (1 + ctx.usLength + 1).toNat = ctx.usLength.toNat + 2 := by
    rw [UInt16.toNat_add, hcount]
    change (1 + ctx.usLength.toNat + 1) % 2 ^ 16 = _
    omega
  have htotal : (1 + ctx.usLength + 2).toNat = ctx.usLength.toNat + 3 := by
    rw [UInt16.toNat_add, hcount]
    change (1 + ctx.usLength.toNat + 2) % 2 ^ 16 = _
    omega
  have hpdu : ctx.pdu = (List.range ctx.usLength.toNat).map fun i ↦ ctx.ucRTUBuf (1 + i) := by
    rw [Fmodbus.pdu, ← hframe]
    rfl
  have hsum : usMBCRC16 (Function.update ctx.ucRTUBuf 0 ctx.ucMBAddress) (1 + ctx.usLength) =
      UInt16.ofBitVec (checksum (ctx.ucMBAddress :: ctx.pdu)) := by
    apply UInt16.toBitVec_inj.mp
    rw [usMBCRC16_eq, hcount, map_address, hpdu]
  have hbytes (usCRC16 : UInt16) : (List.range (1 + ctx.usLength + 2).toNat).map
      (Function.update (Function.update (Function.update ctx.ucRTUBuf 0 ctx.ucMBAddress)
        (1 + ctx.usLength).toNat (usCRC16 &&& 0xFF).toUInt8)
        (1 + ctx.usLength + 1).toNat (usCRC16 >>> 8).toUInt8) =
      ctx.ucMBAddress :: ctx.pdu ++ crcBytes usCRC16 := by
    rw [htotal, hnext, hcount, Nat.add_comm 1, map_frame, hpdu]
    rfl
  rw [eMBRTUSend, if_pos hrcv]
  simp only [hcur, Nat.zero_add, vMBPortSerialEnable_transmit]
  refine ⟨_, rfl, ⟨rfl, rfl, rfl, rfl, rfl⟩, ⟨rfl, rfl, rfl, hrcv, ?_⟩, rfl, rfl, rfl, ?_⟩
  · change 0 + (1 + ctx.usLength + 2).toNat ≤ 256
    omega
  · simp only [Nat.zero_add, hsum]
    exact hbytes _

/-- The poll that executes a request. -/
theorem eMBPoll_execute (h : Requested ctx₀ ucRcvAddress pdu ctx.dequeued)
    (hready : Ready ctx₀) (hpdu : pdu.length ≤ 252) (hqueue : ctx.xEventInQueue = true)
    (hevent : ctx.eQueuedEvent = .execute) (input : PollInput) :
    ∃ ctx', eMBPoll ops (t, ctx) input =
        .ok (((answer ops t ctx.dequeued).1, ctx'), []) ∧
      match (answer ops t ctx.dequeued).2 with
      | none => Idle ctx₀ ctx'
      | some reply => Replying ctx₀ (rtuFrame ctx₀.ucMBAddress reply) ctx' := by
  have hstate : ctx.eMBState = .enabled := h.sameSlave.eMBState.trans hready.eMBState
  have hlen : ctx.dequeued.usLength.toNat ≤ 252 := h.received.usLength.trans_le hpdu
  have hid : ctx.dequeued.usMBSlaveIDLen.toNat ≤ 251 :=
    h.sameSlave.usMBSlaveIDLen ▸ hready.usMBSlaveIDLen
  obtain ⟨buf, len, code, eException, hle, hexecuted⟩ :=
    @execute_context D ops t ctx.dequeued hlen hid
  rcases hresult : execute ops t ctx.dequeued with ⟨t', c⟩
  simp only [hresult] at hexecuted
  -- executing changes nothing but the frame
  have hidle : Idle ctx₀ c := by
    obtain ⟨hmbsidx, hstate, haddress, hid, hidlen⟩ := h.sameSlave
    obtain ⟨hsnd, hrx, htx, hpos⟩ := h.listening
    rw [hexecuted]
    exact ⟨⟨hmbsidx, hstate, haddress, hid, hidlen⟩, ⟨hsnd, hrx, htx, hpos⟩, h.eRcvState,
      h.bTimeoutEnable, rfl⟩
  have hframe : c.ucMBFrame = 1 := by
    rw [hexecuted]
    exact h.ucMBFrame
  have hlen' : c.usLength.toNat ≤ 252 := by
    rw [hexecuted]
    exact hle
  rw [eMBPoll_event hstate hqueue hevent, handleEvent]
  simp only [answer, hresult, Fmodbus.sends]
  by_cases hunicast : c.ucRcvAddress ≠ 0
  · obtain ⟨ctx', hsend, hsame, hsending, htimer, hqueue', hpos, hbytes⟩ :=
      eMBRTUSend_eq hidle.eRcvState hframe hlen'
    rw [if_pos hunicast, if_pos hunicast]
    simp only [hsend, bind, Except.bind]
    refine ⟨ctx', rfl, ⟨hidle.sameSlave.trans hsame, hsending, htimer.trans hidle.bTimeoutEnable,
      hqueue'.trans hidle.xEventInQueue, hpos, ?_⟩⟩
    rw [hbytes, hidle.sameSlave.ucMBAddress]
  · rw [if_neg hunicast, if_neg hunicast]
    exact ⟨c, rfl, hidle⟩

/-- The reply goes out in one poll. -/
theorem eMBPoll_replying {reply : List UInt8} (h : Replying ctx₀ reply ctx) (hready : Ready ctx₀)
    (input : PollInput) :
    ∃ ctx', eMBPoll ops (t, ctx) input = .ok ((t, ctx'), reply) ∧ ctx'.xEventInQueue = true ∧
      ctx'.eQueuedEvent = .frameSent ∧ Idle ctx₀ ctx'.dequeued := by
  have hstate := h.sameSlave.eMBState.trans hready.eMBState
  have haddress := h.sameSlave.ucMBAddress.trans_ne hready.ucMBAddress
  obtain ⟨ctx', hserial, hsent⟩ :=
    xMBPortSerialPoll_of_sending h.sending h.uiTxBufferPos input.reads
  rw [h.bytes] at hserial
  have htimer : ctx'.bTimeoutEnable = false :=
    (congrArg (·.mute.bTimeoutEnable) hsent.kept).trans h.bTimeoutEnable
  have hsilent : vMBPortTimerPoll ctx' input.expired = .ok ctx' := by
    rw [vMBPortTimerPoll, if_neg (by simp [htimer])]
  have hsame : SameSlave ctx ctx' :=
    ⟨congrArg (·.mute.mbsidx) hsent.kept, congrArg (·.mute.eMBState) hsent.kept,
      congrArg (·.mute.ucMBAddress) hsent.kept, congrArg (·.mute.ucMBSlaveID) hsent.kept,
      congrArg (·.mute.usMBSlaveIDLen) hsent.kept⟩
  refine ⟨ctx', ?_, hsent.xEventInQueue, hsent.eQueuedEvent, ?_⟩
  · rw [eMBPoll, if_neg (not_not_intro hstate), xMBPortEventGet,
      if_neg (by simp [h.xEventInQueue]), if_neg haddress]
    simp only [hserial, hsilent, bind, Except.bind]
    rfl
  · obtain ⟨hmbsidx, hstate, haddress, hid, hidlen⟩ := h.sameSlave.trans hsame
    obtain ⟨hsnd, hrx, htx, hpos⟩ := hsent.listening
    exact ⟨⟨hmbsidx, hstate, haddress, hid, hidlen⟩, ⟨hsnd, hrx, htx, hpos⟩,
      (congrArg (·.mute.eRcvState) hsent.kept).trans h.sending.eRcvState, htimer, rfl⟩

/-- The last event of an exchange. -/
theorem eMBPoll_frameSent (h : Idle ctx₀ ctx.dequeued) (hready : Ready ctx₀)
    (hqueue : ctx.xEventInQueue = true) (hevent : ctx.eQueuedEvent = .frameSent)
    (input : PollInput) :
    eMBPoll ops (t, ctx) input = .ok ((t, ctx.dequeued), []) := by
  have hstate : ctx.eMBState = .enabled := h.sameSlave.eMBState.trans hready.eMBState
  rw [eMBPoll_event hstate hqueue hevent]
  rfl

end Replying

section Exchanges

/-- What comes of a frame: the tables after it, and what the slave writes. -/
inductive Exchange (ops : Doubles D) (ctx₀ : Fmodbus) (t : Tables D) (frame : List UInt8) :
    Tables D → List UInt8 → Prop
  | ignored (h : ¬ForSlave ctx₀.ucMBAddress frame) : Exchange ops ctx₀ t frame t []
  | silent {ctx : Fmodbus} {t' : Tables D} (h : ForSlave ctx₀.ucMBAddress frame)
      (hsame : SameSlave ctx₀ ctx) (hreceived : ctx.Received (framePdu frame))
      (haddress : ctx.ucRcvAddress = frameAddress frame)
      (hanswer : answer ops t ctx = (t', none)) : Exchange ops ctx₀ t frame t' []
  | answered {ctx : Fmodbus} {t' : Tables D} {reply : List UInt8}
      (h : ForSlave ctx₀.ucMBAddress frame)
      (hsame : SameSlave ctx₀ ctx) (hreceived : ctx.Received (framePdu frame))
      (haddress : ctx.ucRcvAddress = frameAddress frame)
      (hanswer : answer ops t ctx = (t', some reply)) :
      Exchange ops ctx₀ t frame t' (rtuFrame ctx₀.ucMBAddress reply)

/-- Polls that read no byte. -/
def Quiet (inputs : List PollInput) : Prop := ∀ input ∈ inputs, input.content = []

theorem Idle.collected (h : Idle ctx₀ ctx) : Collected ctx [] ctx :=
  ⟨h.eRcvState, fun hnil ↦ absurd rfl hnil, (storeBytes_nil _ _).symm, h.bTimeoutEnable, rfl⟩

theorem eMBPoll_quiet {input : PollInput} (h : Idle ctx₀ ctx) (hready : Ready ctx₀)
    (hquiet : input.content = []) :
    ∃ ctx', eMBPoll ops (t, ctx) input = .ok ((t, ctx'), []) ∧ Idle ctx₀ ctx' := by
  obtain ⟨ctx', hcollected, hpos, hpoll⟩ := @eMBPoll_collected D ops t _ _ _ _ h.collected
    (h.ready hready) h.listening.uiRxBufferPos (by rw [hquiet]; decide)
  rw [hquiet] at hcollected
  have htimer : ctx'.bTimeoutEnable = false := hcollected.bTimeoutEnable
  refine ⟨ctx', ?_, h.sameSlave.trans hcollected.sameSlave, ⟨?_, ?_, ?_, hpos⟩,
    hcollected.eRcvState, htimer, ?_⟩
  · rw [hpoll, vMBPortTimerPoll, htimer]
    rfl
  · exact hcollected.eSndState.trans h.listening.eSndState
  · exact hcollected.bRxEnabled.trans h.listening.bRxEnabled
  · exact (congrArg (·.deaf.bTxEnabled) hcollected.kept).trans h.listening.bTxEnabled
  · exact (congrArg (·.deaf.xEventInQueue) hcollected.kept).trans h.xEventInQueue

theorem polls_quiet {inputs : List PollInput} (h : Idle ctx₀ ctx) (hready : Ready ctx₀)
    (hquiet : Quiet inputs) :
    ∃ ctx', polls ops (t, ctx) inputs = .ok ((t, ctx'), []) ∧ Idle ctx₀ ctx' := by
  induction inputs generalizing ctx with
  | nil => exact ⟨ctx, rfl, h⟩
  | cons input inputs ih =>
      obtain ⟨ctx₁, hpoll, hidle⟩ :=
        @eMBPoll_quiet D ops t _ _ _ h hready (hquiet input List.mem_cons_self)
      obtain ⟨ctx', hpolls, hidle'⟩ :=
        ih hidle fun input hinput ↦ hquiet input (List.mem_cons_of_mem _ hinput)
      refine ⟨ctx', ?_, hidle'⟩
      simp only [polls, hpoll, bind, Except.bind, hpolls]
      rfl

/-- A poll at the head of a run. -/
theorem polls_cons {s s' : SlaveState D} {input : PollInput} {inputs : List PollInput}
    {written : List UInt8} (h : eMBPoll ops s input = .ok (s', written)) :
    polls ops s (input :: inputs) = (polls ops s' inputs).map fun r ↦ (r.1, written ++ r.2) := by
  simp only [polls, h, bind, Except.bind]
  cases polls ops s' inputs <;> rfl

/-- Four polls are enough to take a frame, to execute it, to send the reply and
to learn that it is sent. -/
theorem polls_waiting {quiet : List PollInput} (h : Waiting ctx₀ frame ctx) (hready : Ready ctx₀)
    (hlength : frame.length < 256) (hquiet : Quiet quiet) (hfour : 4 ≤ quiet.length) :
    ∃ t' ctx' written, polls ops (t, ctx) quiet = .ok ((t', ctx'), written) ∧
      Idle ctx₀ ctx' ∧ Exchange ops ctx₀ t frame t' written := by
  obtain ⟨i₁, i₂, i₃, i₄, rest, rfl⟩ :
      ∃ i₁ i₂ i₃ i₄ rest, quiet = i₁ :: i₂ :: i₃ :: i₄ :: rest := by
    match quiet, hfour with
    | i₁ :: i₂ :: i₃ :: i₄ :: rest, _ => exact ⟨i₁, i₂, i₃, i₄, rest, rfl⟩
  simp only [Quiet, List.forall_mem_cons] at hquiet
  obtain ⟨hquiet₁, hquiet₂, hquiet₃, hquiet₄, hrest⟩ := hquiet
  by_cases hmine : ForSlave ctx₀.ucMBAddress frame
  · obtain ⟨ctx₁, htaken, hqueue, hevent, hrequested⟩ :=
      @eMBPoll_requested D ops t _ _ _ h hready hlength hmine i₁
    have hpdu : (framePdu frame).length ≤ 252 := by
      rw [framePdu, List.length_take]
      omega
    obtain ⟨ctx₂, hexecuted, hresult⟩ :=
      @eMBPoll_execute D ops t _ _ _ _ hrequested hready hpdu hqueue hevent i₂
    rcases hanswer : answer ops t ctx₁.dequeued with ⟨t', reply⟩
    rw [hanswer] at hexecuted hresult
    cases reply with
    | none =>
        obtain ⟨ctx', hpolls, hidle⟩ := @polls_quiet D ops t' _ _ (i₃ :: i₄ :: rest) hresult hready
          (by simp [Quiet, hquiet₃, hquiet₄]; exact hrest)
        refine ⟨t', ctx', [], ?_, hidle, .silent hmine hrequested.sameSlave hrequested.received
          hrequested.ucRcvAddress hanswer⟩
        rw [polls_cons htaken, polls_cons hexecuted, hpolls]
        rfl
    | some reply =>
        obtain ⟨ctx₃, hsent, hqueue₃, hevent₃, hidle₃⟩ :=
          @eMBPoll_replying D ops t' _ _ _ hresult hready i₃
        have hlast := @eMBPoll_frameSent D ops t' _ _ hidle₃ hready hqueue₃ hevent₃ i₄
        obtain ⟨ctx', hpolls, hidle⟩ := @polls_quiet D ops t' _ _ rest hidle₃ hready hrest
        refine ⟨t', ctx', rtuFrame ctx₀.ucMBAddress reply, ?_, hidle, .answered hmine
          hrequested.sameSlave hrequested.received hrequested.ucRcvAddress hanswer⟩
        rw [polls_cons htaken, polls_cons hexecuted, polls_cons hsent, polls_cons hlast, hpolls]
        simp [Except.map]
  · obtain ⟨ctx₁, hignored, hidle₁⟩ :=
      @eMBPoll_ignored D ops t _ _ _ h hready hlength hmine i₁
    obtain ⟨ctx', hpolls, hidle⟩ := @polls_quiet D ops t _ _ (i₂ :: i₃ :: i₄ :: rest) hidle₁ hready
      (by simp [Quiet, hquiet₂, hquiet₃, hquiet₄]; exact hrest)
    refine ⟨t, ctx', [], ?_, hidle, .ignored hmine⟩
    rw [polls_cons hignored, hpolls]
    rfl

/-- One frame after another, each followed by enough polls in silence. -/
inductive Conversation : List (List UInt8) → List PollInput → Prop
  | nil : Conversation [] []
  | cons {frame : List UInt8} {frames : List (List UInt8)} {inputs quiet rest : List PollInput}
      (hdelivers : Delivers frame inputs) (hquiet : Quiet quiet) (hfour : 4 ≤ quiet.length)
      (hrest : Conversation frames rest) : Conversation (frame :: frames) (inputs ++ quiet ++ rest)

inductive Exchanges (ops : Doubles D) (ctx₀ : Fmodbus) :
    Tables D → List (List UInt8) → Tables D → List UInt8 → Prop
  | nil {t : Tables D} : Exchanges ops ctx₀ t [] t []
  | cons {t t₁ t₂ : Tables D} {frame : List UInt8} {frames : List (List UInt8)}
      {written rest : List UInt8} (h : Exchange ops ctx₀ t frame t₁ written)
      (hrest : Exchanges ops ctx₀ t₁ frames t₂ rest) :
      Exchanges ops ctx₀ t (frame :: frames) t₂ (written ++ rest)

/-- The buffer has 256 bytes, but `eMBRTUReceive` asserts that a frame has
fewer. -/
def BelowMaximum (frame : List UInt8) : Prop := frame ≠ [] ∧ frame.length < 256

theorem polls_exchange {inputs quiet : List PollInput} (h : Idle ctx₀ ctx) (hready : Ready ctx₀)
    (hdelivers : Delivers frame inputs) (hfits : BelowMaximum frame) (hquiet : Quiet quiet)
    (hfour : 4 ≤ quiet.length) :
    ∃ t' ctx' written, polls ops (t, ctx) (inputs ++ quiet) = .ok ((t', ctx'), written) ∧
      Idle ctx₀ ctx' ∧ Exchange ops ctx t frame t' written := by
  have hready' := h.ready hready
  obtain ⟨ctx₁, hdelivered, hwaiting⟩ := @polls_delivers D ops t _ _ [] _ _ h.collected hready'
    h.listening.uiRxBufferPos hdelivers hfits.2.le hfits.1
  obtain ⟨t', ctx', written, hpolls, hidle, hexchange⟩ :=
    @polls_waiting D ops t _ _ _ _ hwaiting hready' hfits.2 hquiet hfour
  refine ⟨t', ctx', written, ?_, ?_, hexchange⟩
  · rw [polls_append hdelivered, hpolls]
    rfl
  · exact ⟨h.sameSlave.trans hidle.sameSlave, hidle.listening, hidle.eRcvState,
      hidle.bTimeoutEnable, hidle.xEventInQueue⟩

theorem Exchange.of_sameSlave {written : List UInt8} (hsame : SameSlave ctx₀ ctx)
    (h : Exchange ops ctx t frame t' written) : Exchange ops ctx₀ t frame t' written := by
  cases h with
  | ignored h => exact .ignored (hsame.ucMBAddress ▸ h)
  | silent h hsame' hreceived haddress hanswer =>
      exact .silent (hsame.ucMBAddress ▸ h) (hsame.trans hsame') hreceived haddress hanswer
  | answered h hsame' hreceived haddress hanswer =>
      rw [hsame.ucMBAddress] at h ⊢
      exact .answered h (hsame.trans hsame') hreceived haddress hanswer

theorem Exchanges.of_sameSlave {frames : List (List UInt8)} {written : List UInt8}
    (hsame : SameSlave ctx₀ ctx) (h : Exchanges ops ctx t frames t' written) :
    Exchanges ops ctx₀ t frames t' written := by
  induction h with
  | nil => exact .nil
  | cons h _ ih => exact .cons (h.of_sameSlave hsame) ih

/-- The slave serves a conversation frame by frame, however its bytes come. -/
theorem polls_conversation {frames : List (List UInt8)} {inputs : List PollInput}
    (hready : Ready ctx) (hfits : ∀ frame ∈ frames, BelowMaximum frame)
    (h : Conversation frames inputs) :
    ∃ t' ctx' written, polls ops (t, ctx) inputs = .ok ((t', ctx'), written) ∧
      Ready ctx' ∧ SameSlave ctx ctx' ∧ Exchanges ops ctx t frames t' written := by
  -- the invariant is that the slave is idle, relative to the first context
  suffices hrun : ∀ c, Idle ctx c → ∃ t' c' written,
      polls ops (t, c) inputs = .ok ((t', c'), written) ∧ Idle ctx c' ∧
        Exchanges ops ctx t frames t' written by
    obtain ⟨t', c', written, hpolls, hidle', hexchanges⟩ := hrun ctx hready.idle
    exact ⟨t', c', written, hpolls, hidle'.ready hready, hidle'.sameSlave, hexchanges⟩
  induction h generalizing t with
  | nil => exact fun c hidle ↦ ⟨t, c, [], rfl, hidle, .nil⟩
  | cons hdelivers hquiet hfour _ ih =>
      intro c hidle
      obtain ⟨hfirst, hothers⟩ := List.forall_mem_cons.mp hfits
      obtain ⟨t₁, c₁, written, hpolls, hidle₁, hexchange⟩ :=
        @polls_exchange D ops t _ _ _ _ _ hidle hready hdelivers hfirst hquiet hfour
      obtain ⟨t', c', rest, hpolls', hidle', hexchanges⟩ := @ih t₁ hothers c₁ hidle₁
      refine ⟨t', c', written ++ rest, ?_, hidle',
        .cons (hexchange.of_sameSlave hidle.sameSlave) hexchanges⟩
      rw [polls_append hpolls, hpolls']
      rfl

end Exchanges

section Start

/-- Before the line has been silent for the first time. -/
structure Starting (ctx : Fmodbus) : Prop where
  mbsidx : ctx.mbsidx = mbsidxMdl
  eMBState : ctx.eMBState = .enabled
  unicast : ctx.ucMBAddress ≠ 0
  ucMBAddress : ctx.ucMBAddress ≠ 255
  usMBSlaveIDLen : ctx.usMBSlaveIDLen.toNat ≤ 251
  listening : Listening ctx
  eRcvState : ctx.eRcvState = .init
  bTimeoutEnable : ctx.bTimeoutEnable = true
  xEventInQueue : ctx.xEventInQueue = false

theorem starting_of_start {adr : UInt8} {opened : Bool} (hidle : ctx.eSndState = .idle)
    (hstart : mbsStartMDL ctx adr opened = .ok (some ctx')) : Starting ctx' := by
  by_cases hadr : adr = 0 ∨ adr < 1 ∨ 247 < adr
  · simp only [mbsStartMDL, eMBInit, if_pos hadr] at hstart
    cases hstart
  · have hzero : adr ≠ 0 := fun h ↦ hadr (.inl h)
    have htcp : adr ≠ 255 := by
      rintro rfl
      exact hadr (by decide)
    have hid : 5 ≤ 251 := by decide
    simp only [mbsStartMDL, eMBInit, if_neg hadr] at hstart
    cases opened with
    | false =>
        cases hstart
        exact ⟨rfl, rfl, hzero, htcp, hid, ⟨hidle, rfl, rfl, rfl⟩, rfl, rfl, rfl⟩
    | true =>
        cases hstart
        exact ⟨rfl, rfl, hzero, htcp, hid, ⟨hidle, rfl, rfl, rfl⟩, rfl, rfl, rfl⟩

theorem eMBPoll_starting (h : Starting ctx) (input : PollInput) :
    ∃ ctx', Starting ctx' ∧ SameSlave ctx ctx' ∧ eMBPoll ops (t, ctx) input =
      (vMBPortTimerPoll ctx' input.expired).map fun c ↦ ((t, c), []) := by
  obtain ⟨ctx', hreads, hheard, hpos⟩ := serialReads_eq h.listening.eSndState
    h.listening.bRxEnabled h.listening.uiRxBufferPos input.reads
  have hdeaf : hear ctx.line = ctx.line := by
    rw [Fmodbus.line, h.eRcvState, hear]
  have hline : ctx'.eRcvState = .init := by
    have hsame := congrArg Prod.fst (hheard.line.trans (iterate_hear_of_deaf hdeaf _))
    exact hsame.trans h.eRcvState
  have htimer : ctx'.bTimeoutEnable = true := by
    rw [hheard.bTimeoutEnable, h.bTimeoutEnable, Bool.true_or]
  have hsame : SameSlave ctx ctx' :=
    ⟨congrArg (·.deaf.mbsidx) hheard.kept, congrArg (·.deaf.eMBState) hheard.kept,
      congrArg (·.deaf.ucMBAddress) hheard.kept, congrArg (·.deaf.ucMBSlaveID) hheard.kept,
      congrArg (·.deaf.usMBSlaveIDLen) hheard.kept⟩
  have htx : ctx'.bTxEnabled = false :=
    (congrArg (·.deaf.bTxEnabled) hheard.kept).trans h.listening.bTxEnabled
  have hlistening : Listening ctx' :=
    ⟨hheard.eSndState.trans h.listening.eSndState,
      (congrArg (·.deaf.bRxEnabled) hheard.kept).trans h.listening.bRxEnabled, htx, hpos⟩
  refine ⟨ctx', ⟨hsame.mbsidx.trans h.mbsidx, hsame.eMBState.trans h.eMBState,
    hsame.ucMBAddress.trans_ne h.unicast, hsame.ucMBAddress.trans_ne h.ucMBAddress,
    hsame.usMBSlaveIDLen ▸ h.usMBSlaveIDLen, hlistening, hline, htimer,
    (congrArg (·.deaf.xEventInQueue) hheard.kept).trans h.xEventInQueue⟩, hsame, ?_⟩
  have hserial : xMBPortSerialPoll ctx input.reads = .ok (ctx', []) := by
    rw [xMBPortSerialPoll]
    simp only [hreads, bind, Except.bind]
    rw [if_neg (by simp [htx])]
    rfl
  rw [eMBPoll, if_neg (not_not_intro h.eMBState), xMBPortEventGet,
    if_neg (by simp [h.xEventInQueue]), if_neg h.ucMBAddress]
  simp only [hserial, bind, Except.bind]
  cases vMBPortTimerPoll ctx' input.expired <;> rfl

/-- Bytes that come before the first silence are not heard. -/
theorem polls_starting {noise : List PollInput} {silent next : PollInput} (h : Starting ctx)
    (hnoise : ∀ input ∈ noise, input.expired = false) (hsilent : silent.expired = true) :
    ∃ ctx', polls ops (t, ctx) (noise ++ [silent, next]) = .ok ((t, ctx'), []) ∧ Ready ctx' ∧
      SameSlave ctx ctx' := by
  induction noise generalizing ctx with
  | nil =>
      obtain ⟨ctx₁, hstarting, hsame, hpoll⟩ := @eMBPoll_starting D ops t _ h silent
      let posted : Fmodbus := { ctx₁ with
        bTimeoutEnable := false
        eRcvState := .idle
        eQueuedEvent := .ready
        xEventInQueue := true }
      have hposted : eMBPoll ops (t, ctx) silent = .ok ((t, posted), []) := by
        rw [hpoll, hsilent, vMBPortTimerPoll, hstarting.bTimeoutEnable, Bool.and_self, if_pos rfl,
          xMBRTUTimerT35Expired]
        simp only [hstarting.eRcvState, bind, Except.bind]
        rfl
      have hnext : eMBPoll ops (t, posted) next = .ok ((t, posted.dequeued), []) :=
        @eMBPoll_event D ops t posted hstarting.eMBState rfl .ready rfl next
      obtain ⟨hmbsidx, hstate, haddress, hid, hidlen⟩ := hsame
      obtain ⟨hsnd, hrx, htx, hpos⟩ := hstarting.listening
      refine ⟨posted.dequeued, ?_, ⟨hstarting.mbsidx, hstarting.eMBState, hstarting.unicast,
        hstarting.ucMBAddress, hstarting.usMBSlaveIDLen, ⟨hsnd, hrx, htx, hpos⟩, rfl, rfl, rfl⟩,
        ⟨hmbsidx, hstate, haddress, hid, hidlen⟩⟩
      rw [List.nil_append, polls_cons hposted, polls_cons hnext]
      rfl
  | cons input noise ih =>
      obtain ⟨hfirst, hothers⟩ := List.forall_mem_cons.mp hnoise
      obtain ⟨ctx₁, hstarting, hsame, hpoll⟩ := @eMBPoll_starting D ops t _ h input
      rw [hfirst, vMBPortTimerPoll, if_neg (by simp)] at hpoll
      obtain ⟨ctx', hpolls, hready, hsame'⟩ := ih hstarting hothers
      refine ⟨ctx', ?_, hready, hsame.trans hsame'⟩
      rw [List.cons_append, polls_cons hpoll, hpolls]
      rfl

/-- The slave from its start on: once the line has been silent, every frame is
served. -/
theorem slave_serves {adr : UInt8} {opened : Bool} {noise inputs : List PollInput}
    {silent next : PollInput} {frames : List (List UInt8)} (hidle : ctx.eSndState = .idle)
    (hstart : mbsStartMDL ctx adr opened = .ok (some ctx₀))
    (hnoise : ∀ input ∈ noise, input.expired = false) (hsilent : silent.expired = true)
    (hfits : ∀ frame ∈ frames, BelowMaximum frame) (h : Conversation frames inputs) :
    ∃ t' ctx' written,
      polls ops (t, ctx₀) (noise ++ [silent, next] ++ inputs) = .ok ((t', ctx'), written) ∧
      Ready ctx' ∧ SameSlave ctx₀ ctx' ∧ Exchanges ops ctx₀ t frames t' written := by
  obtain ⟨ctx₁, hpolls, hready, hsame⟩ :=
    @polls_starting D ops t _ _ _ next (starting_of_start hidle hstart) hnoise hsilent
  obtain ⟨t', ctx', written, hpolls', hready', hsame', hexchanges⟩ :=
    @polls_conversation D ops t _ _ _ hready hfits h
  refine ⟨t', ctx', written, ?_, hready', hsame.trans hsame', hexchanges.of_sameSlave hsame⟩
  rw [polls_append hpolls, hpolls']
  rfl

/-- A read of one register, in two parts. -/
def readInputs : List PollInput :=
  [⟨[.chunk ⟨[1, 3, 0x60], by decide⟩], false⟩,
    ⟨[.chunk ⟨[0x20, 0, 1, 0x9B, 0xC0], by decide⟩], true⟩]

theorem slave_serves_read : ∃ t' ctx' written,
    polls .rational (tablesStart, .started .idle)
      ([] ++ [silence, silence] ++ (readInputs ++ List.replicate 4 silence ++ [])) =
        .ok ((t', ctx'), written) ∧
      Ready ctx' ∧ SameSlave (.started .idle) ctx' ∧
      Exchanges .rational (.started .idle) tablesStart
        [[1, 3, 0x60, 0x20, 0, 1, 0x9B, 0xC0]] t' written := by
  have hread : Delivers _ readInputs := .more rfl (.silent rfl)
  have hquiet : Quiet (List.replicate 4 silence) := by
    intro input hinput
    rw [List.eq_of_mem_replicate hinput]
    rfl
  exact slave_serves rfl (mbsStartMDL_allocated .idle) (by simp) rfl (by simp [BelowMaximum])
    (.cons hread hquiet (by decide) .nil)

end Start

section Damage

theorem not_undamaged_of_caught {frame' : List UInt8} (hframe : Undamaged frame)
    (hlength : frame'.length = frame.length) (hfits : frame.length ≤ 256)
    (hcaught : Crc.Caught 16 (Crc.difference (lineBits frame) (lineBits frame'))) :
    ¬Undamaged frame' := by
  intro hframe'
  have hbits : (lineBits frame).length = (lineBits frame').length := by
    rw [length_lineBits, length_lineBits, hlength]
  have hshort : (lineBits frame).length ≤ 2048 := by
    rw [length_lineBits]
    omega
  exact detects_polynomial.remainder_ne hbits hshort hcaught (hframe.2.trans hframe'.2.symm)

/-- A frame damaged in an odd number of bits, in two, or within sixteen bits in
a row has no effect and no answer. -/
theorem polls_damaged {frame' : List UInt8} {inputs quiet : List PollInput} (hready : Ready ctx)
    (hframe : Undamaged frame) (hlength : frame'.length = frame.length)
    (hfits : frame.length < 256)
    (hcaught : Crc.Caught 16 (Crc.difference (lineBits frame) (lineBits frame')))
    (hdelivers : Delivers frame' inputs) (hquiet : Quiet quiet) (hfour : 4 ≤ quiet.length) :
    ∃ ctx', polls ops (t, ctx) (inputs ++ quiet) = .ok ((t, ctx'), []) ∧ Ready ctx' ∧
      SameSlave ctx ctx' := by
  have hfits' : BelowMaximum frame' := by
    refine ⟨fun hnil ↦ ?_, hlength ▸ hfits⟩
    have hfour := hframe.1
    rw [← hlength, hnil] at hfour
    cases hfour
  obtain ⟨t', ctx', written, hpolls, hidle', hexchange⟩ :=
    @polls_exchange D ops t _ _ _ _ _ hready.idle hready hdelivers hfits' hquiet hfour
  have hdamaged : ¬ForSlave ctx.ucMBAddress frame' := fun hmine ↦
    not_undamaged_of_caught hframe hlength hfits.le hcaught hmine.1
  cases hexchange with
  | ignored _ => exact ⟨ctx', hpolls, hidle'.ready hready, hidle'.sameSlave⟩
  | silent hmine => exact absurd hmine hdamaged
  | answered hmine => exact absurd hmine hdamaged

/-- The slave once the line has been silent. -/
def Fmodbus.ready : Fmodbus :=
  { Fmodbus.started .idle with
    eRcvState := .idle
    bTimeoutEnable := false }

theorem ready_ready : Ready .ready :=
  ⟨rfl, rfl, by decide, by decide, by decide, ⟨rfl, rfl, rfl, rfl⟩, rfl, rfl, rfl⟩

def flippedInput : PollInput := ⟨[.chunk ⟨[1, 3, 0x60, 0x21, 0, 1, 0x9B, 0xC0], by decide⟩], true⟩

/-- The request of `readInputs` with one bit of its address flipped. -/
theorem polls_damaged_read : ∃ ctx',
    polls .rational (tablesStart, .ready) ([flippedInput] ++ List.replicate 4 silence) =
        .ok ((tablesStart, ctx'), []) ∧
      Ready ctx' ∧ SameSlave .ready ctx' := by
  have hquiet : Quiet (List.replicate 4 silence) := by
    intro input hinput
    rw [List.eq_of_mem_replicate hinput]
    rfl
  have hframe : Undamaged [1, 3, 0x60, 0x20, 0, 1, 0x9B, 0xC0] := by
    decide +kernel
  have hflipped : Delivers flippedInput.content [flippedInput] := .silent rfl
  exact polls_damaged ready_ready hframe (by rfl) (by decide) (.odd (by decide +kernel)) hflipped
    hquiet (by decide)

end Damage

end Mbs
