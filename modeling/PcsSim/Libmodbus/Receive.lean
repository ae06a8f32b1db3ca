import PcsSim.Libmodbus.Rtu

/-!
# The segmentation of a confirmation

`receive_msg` reads the function code first, then what is needed to know the
length, and then the rest.  What it makes of the bytes on the line does not
depend on how they are divided, and it never stores more than 256 of them.
-/

namespace Libmodbus

variable {p q bytes stream : List UInt8} {r r' : Receiving}

/-- The length with the bytes that tell the length of the rest. -/
def headLength (msg : List UInt8) : ℕ := 2 + computeMetaLengthAfterFunction (msg.getD 1 0)

def totalLength (msg : List UInt8) : ℕ := headLength msg + computeDataLengthAfterMeta msg

/-- The number of bytes that are read; with fewer on the line it times out. -/
def consumed (stream : List UInt8) : ℕ :=
  if stream.length < 2 then 2
  else if stream.length < headLength stream ∨ 256 < totalLength stream then headLength stream
  else totalLength stream

/-- What the bytes of the line come to. -/
def confirmation (stream : List UInt8) : Except Errno (List UInt8) :=
  if stream.length < 2 ∨ stream.length < headLength stream then .error .etimedout
  else if 256 < totalLength stream then .error .embBadData
  else if stream.length < totalLength stream then .error .etimedout
  else modbusRtuCheckIntegrity (stream.take (totalLength stream))

theorem three_le_headLength (msg : List UInt8) : 3 ≤ headLength msg := by
  unfold headLength computeMetaLengthAfterFunction
  split_ifs <;> omega

theorem headLength_append (h : 2 ≤ p.length) (q : List UInt8) :
    headLength (p ++ q) = headLength p := by
  rw [headLength, headLength, List.getD_append _ _ _ _ (by omega)]

theorem totalLength_append (h : 3 ≤ p.length) (q : List UInt8) :
    totalLength (p ++ q) = totalLength p := by
  simp only [totalLength, computeDataLengthAfterMeta, headLength_append (Nat.le_of_succ_le h)]
  rw [List.getD_append _ _ _ _ (by omega), List.getD_append _ _ _ _ (by omega)]

/-- The state of the loop after the bytes `p`. -/
inductive At (p : List UInt8) : Receiving → Prop
  | function (h : p.length < 2) : At p ⟨p, .stepFunction, 2 - p.length⟩
  | head (h : 2 ≤ p.length) (hhead : p.length < headLength p) :
      At p ⟨p, .stepMeta, headLength p - p.length⟩
  | data (h : headLength p ≤ p.length) (hroom : totalLength p ≤ 256)
      (htotal : p.length ≤ totalLength p) : At p ⟨p, .stepData, totalLength p - p.length⟩

/-- There is room for what is to be read. -/
theorem At.room (h : At p r) : r.msg.length + r.lengthToRead ≤ 256 := by
  cases h with
  | function h =>
      change p.length + (2 - p.length) ≤ 256
      omega
  | head h hhead =>
      have hle : headLength p ≤ 6 := by
        unfold headLength computeMetaLengthAfterFunction
        split_ifs <;> omega
      change p.length + (headLength p - p.length) ≤ 256
      omega
  | data h hroom htotal =>
      change p.length + (totalLength p - p.length) ≤ 256
      omega

/-- A read does not go beyond the next point where the length is looked at. -/
theorem receiveBody_eq (h : At p r) (hbytes : bytes ≠ []) (hle : bytes.length ≤ r.lengthToRead) :
    (∃ r', receiveBody r bytes = .ok r' ∧ At (p ++ bytes) r') ∨
      receiveBody r bytes = .error .embBadData ∧ 2 ≤ (p ++ bytes).length ∧
        headLength (p ++ bytes) = (p ++ bytes).length ∧ 256 < totalLength (p ++ bytes) := by
  have hpos : 0 < bytes.length := List.length_pos_iff.mpr hbytes
  have hlength : (p ++ bytes).length = p.length + bytes.length := List.length_append
  cases h with
  | function h =>
      left
      change bytes.length ≤ 2 - p.length at hle
      unfold receiveBody
      simp only
      split_ifs with hlast
      · have htwo : 2 ≤ (p ++ bytes).length := by omega
        have hthree := three_le_headLength (p ++ bytes)
        refine ⟨_, rfl, ?_⟩
        have hhead := At.head htwo (by omega : (p ++ bytes).length < headLength (p ++ bytes))
        have hneed : headLength (p ++ bytes) - (p ++ bytes).length =
            computeMetaLengthAfterFunction ((p ++ bytes).getD 1 0) := by
          rw [headLength]
          omega
        rwa [hneed] at hhead
      · refine ⟨_, rfl, ?_⟩
        have hfunction := At.function (p := p ++ bytes) (by omega)
        have hneed : 2 - (p ++ bytes).length = 2 - p.length - bytes.length := by omega
        rwa [hneed] at hfunction
  | head h hhead =>
      have hsame := headLength_append h bytes
      change bytes.length ≤ headLength p - p.length at hle
      unfold receiveBody
      simp only
      split_ifs with hlast
      · simp only [nextStep]
        have hneed : (p ++ bytes).length + computeDataLengthAfterMeta (p ++ bytes) =
            totalLength (p ++ bytes) := by
          rw [totalLength, hsame]
          omega
        rw [hneed]
        split_ifs with hlong
        · right
          exact ⟨rfl, by omega, by omega, hlong⟩
        · left
          refine ⟨_, rfl, ?_⟩
          have hdata := At.data (p := p ++ bytes) (by omega) (by omega) (by omega)
          have hrest : totalLength (p ++ bytes) - (p ++ bytes).length =
              computeDataLengthAfterMeta (p ++ bytes) := by
            omega
          rwa [hrest] at hdata
      · left
        refine ⟨_, rfl, ?_⟩
        have hmore := At.head (p := p ++ bytes) (by omega) (by omega)
        have hrest : headLength (p ++ bytes) - (p ++ bytes).length =
            headLength p - p.length - bytes.length := by
          omega
        rwa [hrest] at hmore
  | data h hroom htotal =>
      left
      have hthree := three_le_headLength p
      have hsame := headLength_append (Nat.le_of_succ_le (hthree.trans h)) bytes
      have hsame' := totalLength_append (hthree.trans h) bytes
      change bytes.length ≤ totalLength p - p.length at hle
      have hmore := At.data (p := p ++ bytes) (by omega) (by omega) (by omega)
      have hrest : totalLength (p ++ bytes) - (p ++ bytes).length =
          totalLength p - p.length - bytes.length := by
        omega
      rw [hrest] at hmore
      unfold receiveBody
      simp only [nextStep, ite_self]
      exact ⟨_, rfl, hmore⟩

section Line

/-- The segments of a line on which nothing fails. -/
def arrivals (segments : List (List UInt8)) : List Arrival := segments.map .segment

/-- `line` brings the bytes of `stream`. -/
inductive Brings (stream : List UInt8) : List Arrival → Prop
  | segments {segments : List (List UInt8)} (h : ∀ s ∈ segments, s ≠ [])
      (hflatten : segments.flatten = stream) : Brings stream (arrivals segments)

variable {line : List Arrival} {n : ℕ}

theorem brings_nil : Brings [] [] := @Brings.segments [] [] (by simp) rfl

theorem Brings.eq_nil (h : Brings [] line) : line = [] := by
  cases h with
  | segments h hflatten =>
      rename_i segments
      cases segments with
      | nil => rfl
      | cons segment segments =>
          rw [List.flatten_cons, List.append_eq_nil_iff] at hflatten
          exact absurd hflatten.1 (h segment List.mem_cons_self)

theorem exists_brings (stream : List UInt8) : ∃ line, Brings stream line := by
  by_cases hnil : stream = []
  · exact ⟨[], hnil ▸ brings_nil⟩
  · exact ⟨_, @Brings.segments stream [stream] (by simpa using hnil) (List.append_nil _)⟩

theorem Brings.size (h : Brings stream line) : (line.map Arrival.size).sum = stream.length := by
  cases h with
  | segments h hflatten =>
      rw [arrivals, List.map_map, ← hflatten, List.length_flatten]
      rfl

theorem recv_eq (hn : 0 < n) (h : Brings stream line) (hstream : stream ≠ []) :
    ∃ bytes rest line', recv n line = (.ok bytes, line') ∧ Brings rest line' ∧
      bytes ≠ [] ∧ bytes.length ≤ n ∧ stream = bytes ++ rest := by
  cases h with
  | segments h hflatten =>
      rename_i segments
      cases segments with
      | nil => exact absurd hflatten.symm hstream
      | cons segment segments =>
          obtain ⟨hsegment, hsegments⟩ := List.forall_mem_cons.mp h
          cases segment with
          | nil => exact absurd rfl hsegment
          | cons b bytes =>
              by_cases hle : (b :: bytes).length ≤ n
              · exact ⟨b :: bytes, segments.flatten, arrivals segments, if_pos hle,
                  .segments hsegments rfl, hsegment, hle, hflatten.symm⟩
              · refine ⟨(b :: bytes).take n, (b :: bytes).drop n ++ segments.flatten,
                  arrivals ((b :: bytes).drop n :: segments), if_neg hle, .segments ?_ rfl, ?_,
                  List.length_take_le _ _, ?_⟩
                · refine List.forall_mem_cons.mpr ⟨?_, hsegments⟩
                  simpa [List.drop_eq_nil_iff] using hle
                · simp [hn.ne']
                · rw [← hflatten, List.flatten_cons, ← List.append_assoc, List.take_append_drop]

theorem recv_nil : recv n [] = (.error .etimedout, []) := rfl

/-- What a receive comes to, with the bytes that it leaves. -/
def outcome (stream : List UInt8) : Except Errno (List UInt8) × List UInt8 :=
  (confirmation stream, stream.drop (consumed stream))

theorem outcome_of_short (h : At p r) (hneed : r.lengthToRead ≠ 0) :
    outcome p = (.error .etimedout, []) := by
  cases h with
  | function h =>
      rw [outcome, confirmation, consumed, if_pos (.inl h), if_pos h,
        List.drop_eq_nil_of_le (by omega)]
  | head h hhead =>
      rw [outcome, confirmation, consumed, if_pos (.inr hhead), if_neg (by omega),
        if_pos (.inl hhead), List.drop_eq_nil_of_le hhead.le]
  | data h hroom htotal =>
      have hthree := three_le_headLength p
      change totalLength p - p.length ≠ 0 at hneed
      rw [outcome, confirmation, consumed, if_neg (by omega), if_neg (by omega),
        if_pos (by omega), if_neg (by omega), if_neg (by omega),
        List.drop_eq_nil_of_le htotal]

theorem outcome_of_whole (h : At p r) (hneed : r.lengthToRead = 0) (q : List UInt8) :
    outcome (p ++ q) = (modbusRtuCheckIntegrity p, q) := by
  cases h with
  | function h =>
      change 2 - p.length = 0 at hneed
      omega
  | head h hhead =>
      change headLength p - p.length = 0 at hneed
      omega
  | data h hroom htotal =>
      change totalLength p - p.length = 0 at hneed
      have hthree := three_le_headLength p
      have hsame := headLength_append (Nat.le_of_succ_le (hthree.trans h)) q
      have hsame' := totalLength_append (hthree.trans h) q
      have hlength : (p ++ q).length = p.length + q.length := List.length_append
      rw [outcome, confirmation, consumed, if_neg (by omega), if_neg (by omega),
        if_neg (by omega), if_neg (by omega), if_neg (by omega), hsame',
        List.take_left' (by omega), List.drop_left' (by omega)]

/-- The reply that is too long is given up when its length is known. -/
theorem outcome_of_long (h : 2 ≤ p.length) (hhead : headLength p = p.length)
    (hlong : 256 < totalLength p) (q : List UInt8) :
    outcome (p ++ q) = (.error .embBadData, q) := by
  have hthree := three_le_headLength p
  have hsame := headLength_append h q
  have hsame' := totalLength_append (hthree.trans hhead.le) q
  have hlength : (p ++ q).length = p.length + q.length := List.length_append
  rw [outcome, confirmation, consumed, if_neg (by omega), if_pos (by omega), if_neg (by omega),
    if_pos (by omega), hsame, List.drop_left' hhead.symm]

theorem receiveLoop_eq {fuel : ℕ} (h : At p r) (hline : Brings q line)
    (hfuel : q.length < fuel) :
    ∃ line', ((receiveLoop fuel r line).1.bind modbusRtuCheckIntegrity,
        (receiveLoop fuel r line).2) = ((outcome (p ++ q)).1, line') ∧
      Brings (outcome (p ++ q)).2 line' := by
  induction fuel generalizing p q r line with
  | zero => cases hfuel
  | succ fuel ih =>
      by_cases hneed : r.lengthToRead = 0
      · have hmsg : r.msg = p := by
          cases h <;> rfl
        rw [receiveLoop, if_pos hneed, outcome_of_whole h hneed, hmsg]
        exact ⟨line, rfl, hline⟩
      · rw [receiveLoop, if_neg hneed]
        by_cases hq : q = []
        · subst hq
          rw [hline.eq_nil, recv_nil, List.append_nil, outcome_of_short h hneed]
          exact ⟨[], rfl, brings_nil⟩
        · obtain ⟨bytes, rest, line', hrecv, hrest, hbytes, hle, rfl⟩ :=
            recv_eq (Nat.pos_of_ne_zero hneed) hline hq
          have hpos := List.length_pos_iff.mpr hbytes
          rw [List.length_append] at hfuel
          rw [hrecv, ← List.append_assoc]
          simp only
          rcases receiveBody_eq h hbytes hle with ⟨r', hbody, hat⟩ | ⟨hbody, htwo, hhead, hlong⟩
          · simp only [hbody]
            exact ih hat hrest (by omega)
          · simp only [hbody, outcome_of_long htwo hhead hlong]
            exact ⟨line', rfl, hrest⟩

/-- However the bytes of the line are divided, they come to the same, and the
same of them are left. -/
theorem receiveMsg_eq (h : Brings stream line) :
    ∃ line', receiveMsg line = ((outcome stream).1, line') ∧ Brings (outcome stream).2 line' := by
  have hloop := receiveLoop_eq (At.function (p := []) (by decide)) h
    (Nat.lt_succ_self stream.length)
  rw [← h.size] at hloop
  exact hloop

theorem recv_ok {bytes : List UInt8} {line' : List Arrival} (hn : n ≠ 0)
    (h : recv n line = (.ok bytes, line')) : bytes ≠ [] ∧ bytes.length ≤ n := by
  match line with
  | [] => cases h
  | .failed errno :: line => cases h
  | .segment [] :: line => cases h
  | .segment (b :: segment) :: line =>
      rw [recv] at h
      split_ifs at h with hle
      · cases h
        exact ⟨List.cons_ne_nil _ _, hle⟩
      · cases h
        refine ⟨?_, List.length_take_le _ _⟩
        simp [hn]

/-- The states at the head of the loop, whatever the line does. -/
inductive LoopHead (line₀ : List Arrival) : Receiving → List Arrival → Prop
  | start : LoopHead line₀ ⟨[], .stepFunction, 2⟩ line₀
  | round {r r' : Receiving} {line line' : List Arrival} {bytes : List UInt8}
      (h : LoopHead line₀ r line) (hneed : r.lengthToRead ≠ 0)
      (hrecv : recv r.lengthToRead line = (.ok bytes, line'))
      (hbody : receiveBody r bytes = .ok r') : LoopHead line₀ r' line'

theorem LoopHead.at {line₀ : List Arrival} (h : LoopHead line₀ r line) : At r.msg r := by
  have hmsg {p : List UInt8} {r : Receiving} (h : At p r) : At r.msg r := by
    cases h with
    | function h => exact .function h
    | head h hhead => exact .head h hhead
    | data h hroom htotal => exact .data h hroom htotal
  induction h with
  | start => exact .function (by decide)
  | round h hneed hrecv hbody ih =>
      obtain ⟨hbytes, hle⟩ := recv_ok hneed hrecv
      rcases receiveBody_eq ih hbytes hle with ⟨r', hbody', hat⟩ | ⟨hbody', -⟩
      · rw [hbody] at hbody'
        cases hbody'
        exact hmsg hat
      · rw [hbody] at hbody'
        cases hbody'

/-- One confirmation after another. -/
def receives : ℕ → List Arrival → List (Except Errno (List UInt8))
  | 0, _ => []
  | n + 1, line => (receiveMsg line).1 :: receives n (receiveMsg line).2

def outcomes : ℕ → List UInt8 → List (Except Errno (List UInt8))
  | 0, _ => []
  | n + 1, stream => (outcome stream).1 :: outcomes n (outcome stream).2

/-- What any number of receives return depends on the bytes of the line alone,
and none of them stores more than 256 bytes. -/
theorem receives_eq (h : Brings stream line) :
    (∀ n, receives n line = outcomes n stream) ∧
      ∀ r line', LoopHead line r line' → r.msg.length + r.lengthToRead ≤ 256 := by
  refine ⟨fun n ↦ ?_, fun r line' hr ↦ hr.at.room⟩
  induction n generalizing stream line with
  | zero => rfl
  | succ n ih =>
      obtain ⟨line', hreceived, hleft⟩ := receiveMsg_eq h
      rw [receives, outcomes, hreceived, ih hleft]

/-- Two exceptions that come in three reads. -/
theorem receives_exceptions :
    (∀ n, receives n (arrivals [[1], [0x83, 2, 0xC0, 0xF1, 1], [0x83, 2, 0xC0, 0xF1]]) =
        outcomes n [1, 0x83, 2, 0xC0, 0xF1, 1, 0x83, 2, 0xC0, 0xF1]) ∧
      ∀ r line', LoopHead (arrivals [[1], [0x83, 2, 0xC0, 0xF1, 1], [0x83, 2, 0xC0, 0xF1]]) r
          line' → r.msg.length + r.lengthToRead ≤ 256 :=
  receives_eq (.segments (by simp) rfl)

end Line

end Libmodbus
