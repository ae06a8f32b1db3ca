import PcsSim.Lib.Crc
import PcsSim.Modbus.Rtu

/-!
# The checksum of a frame

The two tables are the two halves of eight shifts by the polynomial, so
`usMBCRC16` computes the remainder of the bits as they are on the line.
-/

namespace Mbs

section Polynomial

/-- `x ^ 16 + x ^ 15 + x ^ 2 + 1` without its highest term, the lowest first. -/
def polynomial : BitVec 16 := 0xA001

theorem returns_polynomial :
    Crc.returns polynomial (Crc.unit true) 2047 (Crc.shift polynomial (Crc.unit true)) = false := by
  decide +kernel

theorem detects_polynomial : Crc.Detects polynomial 2048 := by
  refine ⟨by decide, by decide, ?_⟩
  intro k hpos hk
  obtain ⟨k, rfl⟩ := Nat.exists_eq_succ_of_ne_zero hpos.ne'
  rw [Function.iterate_succ_apply]
  exact Crc.iterate_shift_ne_of_returns returns_polynomial (Nat.lt_of_succ_lt_succ hk)

/-- The bits of a byte are sent from the lowest on. -/
def lineBits (frame : List UInt8) : List Bool := frame.flatMap fun b ↦ Crc.unpack b.toBitVec

def checksum (frame : List UInt8) : BitVec 16 :=
  Crc.remainder polynomial 0xFFFF (lineBits frame)

theorem length_lineBits (frame : List UInt8) : (lineBits frame).length = 8 * frame.length := by
  induction frame with
  | nil => rfl
  | cons b frame ih =>
      rw [lineBits] at ih ⊢
      rw [List.flatMap_cons, List.length_append, ih]
      simp [Crc.unpack]
      omega

theorem lineBits_append (frame frame' : List UInt8) :
    lineBits (frame ++ frame') = lineBits frame ++ lineBits frame' :=
  List.flatMap_append

end Polynomial

section Tables

/-- The register with its two halves. -/
def register (ucCRCHi ucCRCLo : UInt8) : BitVec 16 := ucCRCHi.toBitVec ++ ucCRCLo.toBitVec

theorem register_eq (ucCRCHi ucCRCLo : UInt8) :
    (ucCRCHi.toUInt16 <<< 8 ||| ucCRCLo.toUInt16).toBitVec = register ucCRCHi ucCRCLo := by
  have hparts : (ucCRCHi.toBitVec ++ ucCRCLo.toBitVec).setWidth 16 =
      ucCRCHi.toBitVec.setWidth 16 <<< 8 ||| ucCRCLo.toBitVec.setWidth 16 :=
    BitVec.setWidth_append_eq_shiftLeft_setWidth_or
  rw [BitVec.setWidth_eq] at hparts
  exact hparts.symm

theorem getLsbD_register (ucCRCHi ucCRCLo : UInt8) (i : ℕ) :
    (register ucCRCHi ucCRCLo).getLsbD i =
      if i < 8 then ucCRCLo.toBitVec.getLsbD i else ucCRCHi.toBitVec.getLsbD (i - 8) :=
  BitVec.getLsbD_append

theorem register_xor (hi lo hi' lo' : UInt8) :
    register hi lo ^^^ register hi' lo' = register (hi ^^^ hi') (lo ^^^ lo') :=
  BitVec.xor_append

theorem setWidth_eq_register (b : UInt8) : b.toBitVec.setWidth 16 = register 0 b := by
  apply BitVec.eq_of_getLsbD_eq
  intro i _
  rw [getLsbD_register, BitVec.getLsbD_setWidth]
  split_ifs with hlow
  · simp
    omega
  · simp [not_lt.mp hlow]

theorem table_entries : ∀ i : Fin 256,
    register (aucCRCLo.getD i 0) (aucCRCHi.getD i 0) =
      (Crc.shift polynomial)^[8] (BitVec.ofNat 16 i) := by
  decide +kernel

theorem table_entry (b : UInt8) :
    (Crc.shift polynomial)^[8] (b.toBitVec.setWidth 16) =
      register (aucCRCLo.getD b.toNat 0) (aucCRCHi.getD b.toNat 0) := by
  have hword : b.toBitVec.setWidth 16 = BitVec.ofNat 16 b.toNat := by
    apply BitVec.eq_of_toNat_eq
    simp
  rw [hword]
  exact (table_entries ⟨b.toNat, b.toNat_lt⟩).symm

theorem remainder_byte (ucCRCHi ucCRCLo b : UInt8) :
    Crc.remainder polynomial (register ucCRCHi ucCRCLo) (Crc.unpack b.toBitVec) =
      register (aucCRCLo.getD (ucCRCLo ^^^ b).toNat 0)
        (ucCRCHi ^^^ aucCRCHi.getD (ucCRCLo ^^^ b).toNat 0) := by
  have hlow : (register ucCRCHi (ucCRCLo ^^^ b)).setWidth 8 = (ucCRCLo ^^^ b).toBitVec :=
    BitVec.setWidth_append_eq_right
  have hhigh : register ucCRCHi (ucCRCLo ^^^ b) >>> 8 = register 0 ucCRCHi := by
    apply BitVec.eq_of_getLsbD_eq
    intro i _
    rw [BitVec.getLsbD_ushiftRight, getLsbD_register, getLsbD_register, if_neg (by omega),
      Nat.add_sub_cancel_left]
    split_ifs with hlow
    · rfl
    · simp [not_lt.mp hlow]
  rw [Crc.remainder_unpack (by decide), setWidth_eq_register, register_xor, UInt8.xor_zero,
    Crc.iterate_shift_eq, hlow, hhigh, table_entry, register_xor, UInt8.xor_zero,
    UInt8.xor_comm ucCRCHi]

theorem usMBCRC16Loop_zero (pucFrame : ℕ → UInt8) (ucCRCHi ucCRCLo : UInt8) (i : ℕ) :
    usMBCRC16Loop pucFrame ucCRCHi ucCRCLo i 0 =
      ucCRCHi.toUInt16 <<< 8 ||| ucCRCLo.toUInt16 := by
  delta usMBCRC16Loop
  rfl

theorem usMBCRC16Loop_succ (pucFrame : ℕ → UInt8) (ucCRCHi ucCRCLo : UInt8) (i usLen : ℕ) :
    usMBCRC16Loop pucFrame ucCRCHi ucCRCLo i (usLen + 1) =
      usMBCRC16Loop pucFrame (aucCRCLo.getD (ucCRCLo ^^^ pucFrame i).toNat 0)
        (ucCRCHi ^^^ aucCRCHi.getD (ucCRCLo ^^^ pucFrame i).toNat 0) (i + 1) usLen := by
  delta usMBCRC16Loop
  rfl

theorem usMBCRC16Loop_eq (pucFrame : ℕ → UInt8) (ucCRCHi ucCRCLo : UInt8) (i usLen : ℕ) :
    (usMBCRC16Loop pucFrame ucCRCHi ucCRCLo i usLen).toBitVec =
      Crc.remainder polynomial (register ucCRCHi ucCRCLo)
        (lineBits ((List.range usLen).map fun j ↦ pucFrame (i + j))) := by
  induction usLen generalizing ucCRCHi ucCRCLo i with
  | zero =>
      rw [usMBCRC16Loop_zero, register_eq]
      rfl
  | succ n ih =>
      have hbytes : (List.range (n + 1)).map (fun j ↦ pucFrame (i + j)) =
          pucFrame i :: (List.range n).map fun j ↦ pucFrame (i + 1 + j) := by
        rw [List.range_succ_eq_map, List.map_cons, List.map_map, Nat.add_zero]
        congr 1
        apply List.map_congr_left
        intro j _
        rw [Function.comp_apply, Nat.succ_eq_add_one, Nat.add_assoc, Nat.add_comm 1 j]
      rw [usMBCRC16Loop_succ, ih, ← remainder_byte, ← Crc.remainder_append, hbytes]
      rfl

theorem usMBCRC16_eq (pucFrame : ℕ → UInt8) (usLen : UInt16) :
    (usMBCRC16 pucFrame usLen).toBitVec =
      checksum ((List.range usLen.toNat).map pucFrame) := by
  rw [usMBCRC16, usMBCRC16Loop_eq]
  simp only [Nat.zero_add]
  rfl

end Tables

section Frames

variable {frame : List UInt8}

def crcBytes (usCRC16 : UInt16) : List UInt8 :=
  [(usCRC16 &&& 0xFF).toUInt8, (usCRC16 >>> 8).toUInt8]

/-- A frame of the line: its checksum goes last, the low byte first. -/
def rtuFrame (ucAddress : UInt8) (pdu : List UInt8) : List UInt8 :=
  ucAddress :: pdu ++ crcBytes (UInt16.ofBitVec (checksum (ucAddress :: pdu)))

theorem lineBits_pair (lo hi : UInt8) : lineBits [lo, hi] = Crc.unpack (register hi lo) := by
  apply List.ext_getElem
  · simp [lineBits, Crc.unpack]
  · intro i hi₁ hi₂
    have hi : i < 16 := by simpa [Crc.unpack] using hi₂
    simp [lineBits, Crc.unpack, getLsbD_register, List.getElem_append]

/-- The checksum of a frame with its own checksum is zero, and no other two
bytes make it so. -/
theorem checksum_append_eq_zero_iff (frame : List UInt8) (lo hi : UInt8) :
    checksum (frame ++ [lo, hi]) = 0 ↔ checksum frame = register hi lo := by
  rw [checksum, lineBits_append, Crc.remainder_append,
    Crc.remainder_eq_zero_iff (by decide) (by rw [length_lineBits]; rfl), lineBits_pair]
  constructor
  · intro h
    rw [← Crc.pack_unpack (register hi lo), h, Crc.pack_unpack]
    rfl
  · intro h
    rw [← h]
    rfl

theorem toUInt8_low (n : UInt16) : (n &&& 0xFF).toUInt8 = n.toUInt8 := by
  apply UInt8.toNat_inj.mp
  have hmask := Nat.and_two_pow_sub_one_eq_mod n.toNat 8
  simp only [UInt16.toNat_toUInt8, UInt16.toNat_and]
  change (n.toNat &&& (2 ^ 8 - 1)) % 2 ^ 8 = n.toNat % 2 ^ 8
  rw [hmask, Nat.mod_mod]

theorem register_halves (usCRC16 : UInt16) :
    register (usCRC16 >>> 8).toUInt8 (usCRC16 &&& 0xFF).toUInt8 = usCRC16.toBitVec := by
  apply BitVec.eq_of_getLsbD_eq
  intro i hi
  rw [getLsbD_register, toUInt8_low]
  split_ifs with hlow
  · simp [hlow]
  · simp [Nat.add_sub_cancel' (not_lt.mp hlow)]
    omega

theorem checksum_rtuFrame (ucAddress : UInt8) (pdu : List UInt8) :
    checksum (rtuFrame ucAddress pdu) = 0 :=
  (checksum_append_eq_zero_iff _ _ _).mpr (register_halves _).symm

end Frames

end Mbs
