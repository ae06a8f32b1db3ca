import Mathlib.Data.UInt
import PcsSim.Lib.CCalls
import PcsSim.Lib.PaddedReads

/-!
# CAN frames over TCP

The receiving thread takes each `read` for one whole frame.
-/

namespace Chan

def sizeofCanFrame : ℕ := 16

/-- `can_dlc` in the memory of a frame, behind the four bytes of `can_id`. -/
def canDlcAt (image : Bytes) : UInt8 := image.getD 4 0

/-- A `struct can_frame` as it lies in memory and is sent.  Behind `can_dlc` are
three bytes of padding and the eight of `data`. -/
structure CanFrame where
  image : Bytes
  size : image.length = sizeofCanFrame
  deriving DecidableEq

def CanFrame.canDlc (frame : CanFrame) : UInt8 := canDlcAt frame.image

/-- What `read(sock, &frame, sizeof(struct can_frame))` may return. -/
structure ReadResult where
  bytes : Bytes
  nonempty : bytes ≠ []
  size : bytes.length ≤ sizeofCanFrame

/-- `memset(&frame, 0, …)` and the read. -/
def ReadResult.frame (rc : ReadResult) : CanFrame where
  image := rc.bytes.rightpad sizeofCanFrame 0
  size := by rw [List.length_rightpad, Nat.max_eq_left rc.size]

/-- The frames that are queued. -/
def chanTcpservcanRxthrd (dbg : Bool) : List ReadResult → Except Fault (List CanFrame)
  | [] => .ok []
  | rc :: reads =>
    if rc.frame.canDlc ≠ 0 then
      if dbg ∧ 8 < rc.frame.canDlc then .error .overrun -- dump(tmpbuf, frame.data, frame.can_dlc)
      else do
        let queued ← chanTcpservcanRxthrd dbg reads
        return rc.frame :: queued
    else chanTcpservcanRxthrd dbg reads

def hasData (image : Bytes) : Bool := canDlcAt image ≠ 0

theorem hasData_iff {image : Bytes} : hasData image ↔ canDlcAt image ≠ 0 := decide_eq_true_iff

theorem not_zeros_of_hasData {image : Bytes} (h : hasData image) : ¬PaddedReads.Zeros image := by
  intro hzeros
  have hdlc : canDlcAt image = 0 := by
    rw [canDlcAt, hzeros.eq_replicate, List.getD_eq_getElem?_getD]
    cases h : (List.replicate image.length (0 : UInt8))[4]? with
    | none => rfl
    | some b => exact List.eq_of_mem_replicate (List.mem_of_getElem? h)
  exact hasData_iff.mp h hdlc

theorem CanFrame.image_injective : Function.Injective CanFrame.image := by
  rintro ⟨image, _⟩ ⟨image', _⟩ h
  cases h
  rfl

/-- The thread is the reader of records, as long as the debug output has eight
bytes at most to print. -/
theorem chanTcpservcanRxthrd_eq_ok_iff {dbg : Bool} {reads : List ReadResult}
    {frames : List CanFrame} : chanTcpservcanRxthrd dbg reads = .ok frames ↔
      PaddedReads.reads hasData sizeofCanFrame (reads.map ReadResult.bytes) =
          frames.map CanFrame.image ∧
        (dbg → ∀ frame ∈ frames, frame.canDlc ≤ 8) := by
  induction reads generalizing frames with
  | nil =>
      simp only [chanTcpservcanRxthrd, PaddedReads.reads, List.map_nil, List.filter_nil]
      constructor
      · rintro ⟨rfl⟩
        exact ⟨rfl, fun _ _ hmem ↦ absurd hmem List.not_mem_nil⟩
      · rintro ⟨h, -⟩
        rw [List.map_eq_nil_iff.mp h.symm]
  | cons rc reads ih =>
      rw [chanTcpservcanRxthrd, List.map_cons]
      by_cases hdlc : rc.frame.canDlc ≠ 0
      · have hkeep : hasData (rc.bytes.rightpad sizeofCanFrame 0) := hasData_iff.mpr hdlc
        rw [if_pos hdlc, PaddedReads.reads_cons_of_keep hkeep]
        split_ifs with hdump
        · constructor
          · rintro ⟨⟩
          · rintro ⟨hreads, hsmall⟩
            cases frames with
            | nil => cases hreads
            | cons frame frames =>
                obtain ⟨himage, -⟩ := List.cons.inj hreads
                have hframe : frame.canDlc = rc.frame.canDlc := congrArg canDlcAt himage.symm
                have hle := hsmall hdump.1 frame List.mem_cons_self
                exact absurd hle (UInt8.not_le.mpr (hframe ▸ hdump.2))
        · rw [Except.bind_eq_ok_iff]
          constructor
          · rintro ⟨queued, hqueued, ⟨⟩⟩
            obtain ⟨hreads, hsmall⟩ := ih.mp hqueued
            refine ⟨congrArg (rc.frame.image :: ·) hreads, fun hdbg ↦ ?_⟩
            apply List.forall_mem_cons.mpr ⟨?_, hsmall hdbg⟩
            exact UInt8.not_lt.mp fun hlt ↦ hdump ⟨hdbg, hlt⟩
          · rintro ⟨hreads, hsmall⟩
            cases frames with
            | nil => cases hreads
            | cons frame frames =>
                obtain ⟨himage, hrest⟩ := List.cons.inj hreads
                obtain rfl : rc.frame = frame := CanFrame.image_injective himage
                refine ⟨frames, ih.mpr ⟨hrest, fun hdbg f hf ↦ ?_⟩, rfl⟩
                exact hsmall hdbg f (List.mem_cons_of_mem _ hf)
      · have hkeep : ¬hasData (rc.bytes.rightpad sizeofCanFrame 0) := mt hasData_iff.mp hdlc
        rw [if_neg hdlc, PaddedReads.reads_cons_of_not_keep hkeep]
        exact ih

/-- Each frame has data, no read spans two frames, of each frame only zeros come
after its first read, and the debug output can print it. -/
def CutGently (dbg : Bool) (frames : List CanFrame) (reads : List ReadResult) : Prop :=
  PaddedReads.CutAtZeros hasData (reads.map ReadResult.bytes) (frames.map CanFrame.image) ∧
    (dbg → ∀ frame ∈ frames, frame.canDlc ≤ 8)

/-- However the stream of the frames is cut into reads. -/
theorem received_iff_cutGently (dbg : Bool) (frames : List CanFrame) (reads : List ReadResult)
    (hcut : (reads.map ReadResult.bytes).flatten = (frames.map CanFrame.image).flatten) :
    chanTcpservcanRxthrd dbg reads = .ok frames ↔ CutGently dbg frames reads := by
  rw [chanTcpservcanRxthrd_eq_ok_iff, CutGently, PaddedReads.reads_eq_iff]
  · exact fun _ h ↦ not_zeros_of_hasData h
  · intro c hc
    obtain ⟨rc, -, rfl⟩ := List.mem_map.mp hc
    exact rc.nonempty
  · intro r hr
    obtain ⟨frame, -, rfl⟩ := List.mem_map.mp hr
    exact frame.size
  · exact hcut

/-- Identifier 0x123 with the data 7 and 9. -/
def CanFrame.sevenNine : CanFrame := ⟨[0x23, 1, 0, 0, 2, 0, 0, 0, 7, 9, 0, 0, 0, 0, 0, 0], rfl⟩

/-- The frame twice, the first one in two reads, with the zeros at its end in the
second. -/
def ReadResult.withinZeros : List ReadResult :=
  [⟨[0x23, 1, 0, 0, 2, 0, 0, 0, 7, 9], by decide, by decide⟩,
    ⟨[0, 0, 0, 0, 0, 0], by decide, by decide⟩,
    ⟨[0x23, 1, 0, 0, 2, 0, 0, 0, 7, 9, 0, 0, 0, 0, 0, 0], by decide, by decide⟩]

theorem received_withinZeros :
    (ReadResult.withinZeros.map ReadResult.bytes).flatten =
        ([CanFrame.sevenNine, CanFrame.sevenNine].map CanFrame.image).flatten ∧
      chanTcpservcanRxthrd true ReadResult.withinZeros =
        .ok [CanFrame.sevenNine, CanFrame.sevenNine] := by
  refine ⟨by decide, (received_iff_cutGently true _ _ (by decide)).mpr ⟨?_, by decide⟩⟩
  have hnone : ∀ z ∈ ([] : List Bytes), PaddedReads.Zeros z := by decide
  have hlast : PaddedReads.CutAtZeros hasData [CanFrame.sevenNine.image]
      [CanFrame.sevenNine.image] := .cons (List.append_nil _) hnone (by decide) .nil
  have hzeros : ∀ z ∈ ([[0, 0, 0, 0, 0, 0]] : List Bytes), PaddedReads.Zeros z := by decide
  exact .cons rfl hzeros (by decide) hlast

def ReadResult.betweenData : List ReadResult :=
  [⟨[0x23, 1, 0, 0, 2, 0, 0, 0, 7], by decide, by decide⟩,
    ⟨[9, 0, 0, 0, 0, 0, 0], by decide, by decide⟩]

/-- The frame comes with its second datum lost. -/
theorem not_received_betweenData :
    (ReadResult.betweenData.map ReadResult.bytes).flatten =
        ([CanFrame.sevenNine].map CanFrame.image).flatten ∧
      chanTcpservcanRxthrd false ReadResult.betweenData ≠ .ok [CanFrame.sevenNine] := by
  refine ⟨by decide, fun h ↦ ?_⟩
  exact absurd (chanTcpservcanRxthrd_eq_ok_iff.mp h).1 (by decide)

end Chan
