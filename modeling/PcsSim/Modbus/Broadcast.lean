import PcsSim.Modbus.Functions

/-!
# Requests to every slave

What a request does to the tables does not depend on the address that it came
to; only the reply does.
-/

namespace Mbs

variable {D : Type} {ops : Doubles D} {t : Tables D} {ctx : Fmodbus}

theorem answer_fst : (answer ops t ctx).1 = (callHandler ops t ctx.executing).1 := by
  simp only [answer, execute]
  split_ifs <;> rfl

theorem answer_of_unknown
    (hlookup : (xFuncHandlers ops).lookup (ctx.pucFrame 0) = none) :
    answer ops t ctx = (t, ctx.sends (exceptionReply (ctx.pucFrame 0) .illegalFunction)) := by
  have hcalled : callHandler ops t ctx.executing = (t, ctx.executing) := by
    have hcode : ctx.executing.ucFunctionCode = ctx.pucFrame 0 := rfl
    rw [callHandler, hcode, hlookup]
  have hfailed : ctx.executing.exceptionFrame.pdu =
      exceptionReply (ctx.pucFrame 0) .illegalFunction :=
    @pdu_storeBytes ctx ctx.ucRTUBuf (exceptionReply (ctx.pucFrame 0) .illegalFunction) 2 rfl
  simp only [answer, execute, hcalled]
  by_cases hunicast : ctx.ucRcvAddress ≠ 0
  · have hboth : ctx.executing.ucRcvAddress ≠ 0 ∧ ctx.executing.eException ≠ .none :=
      ⟨hunicast, by change MbException.illegalFunction ≠ .none; decide⟩
    rw [if_pos hboth]
    simp only [hfailed]
    rfl
  · have hnone (c : Fmodbus) (hc : c.ucRcvAddress = ctx.ucRcvAddress) (reply : List UInt8) :
        c.sends reply = none := by
      rw [Fmodbus.sends, hc, if_neg hunicast]
    have hunsent : ¬(ctx.executing.ucRcvAddress ≠ 0 ∧ ctx.executing.eException ≠ .none) :=
      fun hboth ↦ hunicast hboth.1
    rw [if_neg hunsent]
    simp only [hnone ctx.executing rfl, hnone ctx rfl]

theorem readRegisters_fst {ucFunctionCode : UInt8} {usRegCount : UInt16} {valid : Bool}
    {callback : Callback D} :
    (readRegisters ucFunctionCode usRegCount valid callback t ctx).1 =
      if ctx.usLength = 4 + 1 ∧ valid then (callback t).1 else t := by
  unfold readRegisters
  by_cases hlength : ctx.usLength = 4 + 1
  · cases valid with
    | false =>
        rw [if_pos hlength, if_neg (by simp), if_neg (by simp)]
    | true =>
        rcases hcall : callback t with ⟨t', eRegStatus, bytes⟩
        rw [if_pos hlength, if_pos rfl, if_pos ⟨hlength, rfl⟩]
        cases eRegStatus <;> rfl
  · rw [if_neg hlength, if_neg fun h ↦ hlength h.1]

theorem writeHoldingRegister_fst : (eMBFuncWriteHoldingRegister ops t ctx).1 =
    if ctx.usLength = 4 + 1 then
      (regHoldingCB ops ctx.mbsidx (fun i ↦ ctx.pucFrame (3 + i)) (ctx.frameWord 1) 1 .write t).1
    else t := by
  unfold eMBFuncWriteHoldingRegister
  split_ifs <;> rfl

theorem writeMultipleHoldingRegister_fst : (eMBFuncWriteMultipleHoldingRegister ops t ctx).1 =
    if 5 + 1 ≤ ctx.usLength ∧ 1 ≤ ctx.frameWord 3 ∧ ctx.frameWord 3 ≤ 0x78 ∧
        ctx.pucFrame 5 = (2 * ctx.frameWord 3).toUInt8 then
      (regHoldingCB ops ctx.mbsidx (fun i ↦ ctx.pucFrame (6 + i)) (ctx.frameWord 1)
        (ctx.frameWord 3) .write t).1
    else t := by
  simp only [eMBFuncWriteMultipleHoldingRegister]
  by_cases hlength : 5 + 1 ≤ ctx.usLength
  · by_cases hfields : 1 ≤ ctx.frameWord 3 ∧ ctx.frameWord 3 ≤ 0x78 ∧
        ctx.pucFrame 5 = (2 * ctx.frameWord 3).toUInt8
    · have hall : 5 + 1 ≤ ctx.usLength ∧ 1 ≤ ctx.frameWord 3 ∧ ctx.frameWord 3 ≤ 0x78 ∧
          ctx.pucFrame 5 = (2 * ctx.frameWord 3).toUInt8 := ⟨hlength, hfields⟩
      rw [if_pos hlength, if_pos hfields, if_pos hall]
      split_ifs <;> rfl
    · rw [if_pos hlength, if_neg hfields, if_neg fun h ↦ hfields h.2]
  · rw [if_neg hlength, if_neg fun h ↦ hlength h.1]

/-- The address that a request came to makes no difference to the tables. -/
theorem answer_fst_readdressed (address : UInt8) :
    (answer ops t { ctx with ucRcvAddress := address }).1 = (answer ops t ctx).1 := by
  rw [answer_fst, answer_fst]
  have hcode : ({ ctx with ucRcvAddress := address } : Fmodbus).executing.ucFunctionCode =
      ctx.executing.ucFunctionCode := rfl
  rw [callHandler, callHandler, hcode]
  cases hlookup : (xFuncHandlers ops).lookup ctx.executing.ucFunctionCode with
  | none => rfl
  | some pxHandler =>
      have hmem : pxHandler ∈ (xFuncHandlers ops).map Prod.snd := by
        obtain ⟨before, after, hsplit, -⟩ := List.lookup_eq_some_iff.mp hlookup
        rw [hsplit]
        simp
      simp only [xFuncHandlers, List.map_cons, List.map_nil, List.mem_cons, List.not_mem_nil,
        or_false] at hmem
      rcases hmem with rfl | rfl | rfl | rfl | rfl
      · rfl
      · simp only [eMBFuncReadInputRegister, readRegisters_fst]
        rfl
      · simp only [eMBFuncReadHoldingRegister, readRegisters_fst]
        rfl
      · rw [writeMultipleHoldingRegister_fst, writeMultipleHoldingRegister_fst]
        rfl
      · rw [writeHoldingRegister_fst, writeHoldingRegister_fst]
        rfl

theorem answer_snd_of_broadcast (hlen : ctx.usLength.toNat ≤ 252)
    (hid : ctx.usMBSlaveIDLen.toNat ≤ 251) (h : ctx.ucRcvAddress = 0) :
    (answer ops t ctx).2 = none := by
  obtain ⟨buf, len, code, eException, -, hexecuted⟩ := @execute_context D ops t ctx hlen hid
  have haddress : (execute ops t ctx).2.ucRcvAddress = 0 := by
    rw [hexecuted]
    exact h
  exact if_neg (not_not_intro haddress)

end Mbs
