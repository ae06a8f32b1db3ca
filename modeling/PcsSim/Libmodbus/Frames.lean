import PcsSim.Libmodbus.Receive
import PcsSim.Modbus.Crc

/-!
# Frames of both sides

`crc16` keeps the halves of the register the other way round, and sends the
high byte first: the frames are those of the slave.
-/

namespace Libmodbus

open Mbs (lineBits checksum register rtuFrame crcBytes polynomial)

section Checksum

theorem crc16Loop_cons (crcHi crcLo b : UInt8) (buffer : List UInt8) :
    crc16Loop crcHi crcLo (b :: buffer) =
      crc16Loop (crcLo ^^^ Mbs.aucCRCHi.getD (crcHi ^^^ b).toNat 0)
        (Mbs.aucCRCLo.getD (crcHi ^^^ b).toNat 0) buffer := by
  rw [crc16Loop, tableCrcHi_eq, tableCrcLo_eq]

theorem crc16Loop_eq (crcHi crcLo : UInt8) (buffer : List UInt8) :
    ∃ hi lo : UInt8, crc16Loop crcHi crcLo buffer = hi.toUInt16 <<< 8 ||| lo.toUInt16 ∧
      Crc.remainder polynomial (register crcLo crcHi) (lineBits buffer) = register lo hi := by
  induction buffer generalizing crcHi crcLo with
  | nil => exact ⟨crcHi, crcLo, rfl, rfl⟩
  | cons b buffer ih =>
      obtain ⟨hi, lo, hloop, hremainder⟩ := ih
        (crcLo ^^^ Mbs.aucCRCHi.getD (crcHi ^^^ b).toNat 0)
        (Mbs.aucCRCLo.getD (crcHi ^^^ b).toNat 0)
      have hbits : lineBits (b :: buffer) = Crc.unpack b.toBitVec ++ lineBits buffer := rfl
      refine ⟨hi, lo, (crc16Loop_cons crcHi crcLo b buffer).trans hloop, ?_⟩
      rw [hbits, Crc.remainder_append, Mbs.remainder_byte, hremainder]

theorem word_halves (hi lo : UInt8) :
    ((hi.toUInt16 <<< 8 ||| lo.toUInt16) >>> 8).toUInt8 = hi ∧
      ((hi.toUInt16 <<< 8 ||| lo.toUInt16) &&& 0xFF).toUInt8 = lo := by
  have hword := WordMemory.toNat_word hi lo
  have hlow := lo.toNat_lt
  constructor
  · apply UInt8.toNat_inj.mp
    rw [WordMemory.toNat_high, hword]
    omega
  · apply UInt8.toNat_inj.mp
    rw [WordMemory.toNat_low, hword]
    omega

theorem register_injective {hi lo hi' lo' : UInt8} (h : register hi lo = register hi' lo') :
    hi = hi' ∧ lo = lo' := by
  constructor
  · apply UInt8.toBitVec_inj.mp
    apply BitVec.eq_of_getLsbD_eq
    intro i hi
    have hbit := congrArg (·.getLsbD (i + 8)) h
    simpa [Mbs.getLsbD_register] using hbit
  · apply UInt8.toBitVec_inj.mp
    apply BitVec.eq_of_getLsbD_eq
    intro i hi
    have hbit := congrArg (·.getLsbD i) h
    simpa [Mbs.getLsbD_register, hi] using hbit

/-- The bytes that are sent after a message. -/
theorem crc16_bytes (buffer : List UInt8) :
    [(crc16 buffer >>> 8).toUInt8, (crc16 buffer &&& 0xFF).toUInt8] =
      crcBytes (UInt16.ofBitVec (checksum buffer)) := by
  obtain ⟨hi, lo, hloop, hremainder⟩ := crc16Loop_eq 0xFF 0xFF buffer
  have hsum : checksum buffer = register lo hi := hremainder
  obtain ⟨hhigh, hlow⟩ := register_injective
    ((Mbs.register_halves (UInt16.ofBitVec (checksum buffer))).trans hsum)
  rw [crc16, hloop, (word_halves hi lo).1, (word_halves hi lo).2, crcBytes, hhigh, hlow]

theorem modbusRtuSendMsgPre_eq (slave : UInt8) (pdu : List UInt8) :
    modbusRtuSendMsgPre (slave :: pdu) = rtuFrame slave pdu := by
  rw [modbusRtuSendMsgPre, crc16_bytes, rtuFrame]

theorem modbusRtuCheckIntegrity_eq {msg : List UInt8} (hlength : 2 ≤ msg.length) :
    modbusRtuCheckIntegrity msg = if checksum msg = 0 then .ok msg else .error .embBadCrc := by
  obtain ⟨frame, hi, lo, rfl⟩ : ∃ frame hi lo, msg = frame ++ [hi, lo] := by
    have hsplit := List.take_append_drop (msg.length - 2) msg
    have hrest : (msg.drop (msg.length - 2)).length = 2 := by
      rw [List.length_drop]
      omega
    obtain ⟨hi, lo, hpair⟩ := List.length_eq_two.mp hrest
    exact ⟨msg.take (msg.length - 2), hi, lo, by rw [← hpair, hsplit]⟩
  have hbody : (frame ++ [hi, lo]).length - 2 = frame.length := by simp
  have hlast : (frame ++ [hi, lo]).length - 1 = frame.length + 1 := by simp
  obtain ⟨high, low, hloop, hremainder⟩ := crc16Loop_eq 0xFF 0xFF frame
  have hsum : checksum frame = register low high := hremainder
  have hiff : crc16 frame = hi.toUInt16 <<< 8 ||| lo.toUInt16 ↔
      checksum (frame ++ [hi, lo]) = 0 := by
    rw [Mbs.checksum_append_eq_zero_iff, hsum, crc16, hloop]
    constructor
    · intro h
      have hhigh := congrArg (fun n : UInt16 ↦ (n >>> 8).toUInt8) h
      have hlow := congrArg (fun n : UInt16 ↦ (n &&& 0xFF).toUInt8) h
      simp only [(word_halves _ _).1, (word_halves _ _).2] at hhigh hlow
      rw [hhigh, hlow]
    · intro h
      obtain ⟨rfl, rfl⟩ := register_injective h
      rfl
  rw [modbusRtuCheckIntegrity, hbody, hlast, List.take_left]
  simp only [List.getD_append_right, List.getD_cons_zero, Nat.le_refl, Nat.sub_self,
    Nat.le_add_right, Nat.add_sub_cancel_left, List.getD_cons_succ, hiff]

/-- Both tables divide by the same polynomial: each side sends the bytes that
the other expects, and both accept the same frames. -/
theorem checksums_agree (pucFrame : ℕ → UInt8) {usLen : UInt16} (h : 2 ≤ usLen.toNat) :
    let frame := (List.range usLen.toNat).map pucFrame
    (Mbs.usMBCRC16 pucFrame usLen).toBitVec =
        Crc.remainder polynomial (0xFFFF) (lineBits frame) ∧
      modbusRtuSendMsgPre frame = frame ++ crcBytes (Mbs.usMBCRC16 pucFrame usLen) ∧
      (modbusRtuCheckIntegrity frame = .ok frame ↔ Mbs.usMBCRC16 pucFrame usLen = 0) := by
  intro frame
  have hsum : (Mbs.usMBCRC16 pucFrame usLen).toBitVec = checksum frame :=
    Mbs.usMBCRC16_eq pucFrame usLen
  have hword : Mbs.usMBCRC16 pucFrame usLen = UInt16.ofBitVec (checksum frame) :=
    UInt16.toBitVec_inj.mp hsum
  have hlength : 2 ≤ frame.length := by
    rwa [List.length_map, List.length_range]
  refine ⟨hsum, ?_, ?_⟩
  · rw [modbusRtuSendMsgPre, crc16_bytes, hword]
  · rw [modbusRtuCheckIntegrity_eq hlength, ← UInt16.toBitVec_inj, hsum]
    split_ifs with hzero
    · exact ⟨fun _ ↦ hzero, fun _ ↦ rfl⟩
    · refine ⟨fun hok ↦ ?_, fun hsame ↦ absurd hsame hzero⟩
      cases hok

/-- A request for one register, with its checksum. -/
def requestBytes (i : ℕ) : UInt8 := [1, 3, 0x60, 0x20, 0, 1, 0x9B, 0xC0].getD i 0

theorem checksums_agree_request :
    let frame := (List.range (8 : UInt16).toNat).map requestBytes
    (Mbs.usMBCRC16 requestBytes 8).toBitVec =
        Crc.remainder polynomial (0xFFFF) (lineBits frame) ∧
      modbusRtuSendMsgPre frame = frame ++ crcBytes (Mbs.usMBCRC16 requestBytes 8) ∧
      (modbusRtuCheckIntegrity frame = .ok frame ↔ Mbs.usMBCRC16 requestBytes 8 = 0) :=
  checksums_agree requestBytes (by decide)

end Checksum

end Libmodbus
