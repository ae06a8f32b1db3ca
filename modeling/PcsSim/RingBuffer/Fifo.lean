import PcsSim.RingBuffer.Contents

/-!
# Every ring buffer is a bounded drop-oldest queue

`Api` collects the entry points of one component.  A component started by its
`init` on any memory is simulated by the abstract queue whose capacity is one
less than the array size, for every sequence of calls.
-/

open DropOldest (Call Reply)

/-- The entry points of one ring buffer component. -/
structure RingBufferApi (α : Type*) where
  size : ℤ
  init : RingBuffer α → RingBuffer α
  queue : RingBuffer α → α → RingBuffer α
  queueArr : RingBuffer α → (ℕ → α) → ℤ → RingBuffer α
  dequeue : RingBuffer α → RingBuffer α × ℤ × Option α
  dequeueArr : RingBuffer α → ℤ → RingBuffer α × ℤ × List α
  peek : RingBuffer α → ℤ → ℤ × Option α
  numItems : RingBuffer α → ℤ
  isEmpty : RingBuffer α → ℤ
  isFull : RingBuffer α → ℤ

namespace RingBufferApi

variable {α : Type*}

def exec (api : RingBufferApi α) (b : RingBuffer α) : Call α → RingBuffer α × Reply α
  | .queue data => (api.queue b data, .unit)
  | .queueArr data size => (api.queueArr b data size, .unit)
  | .dequeue =>
      let (b, rc, data) := api.dequeue b
      (b, .item rc data)
  | .dequeueArr len =>
      let (b, rc, data) := api.dequeueArr b len
      (b, .items rc data)
  | .peek index =>
      let (rc, data) := api.peek b index
      (b, .item rc data)
  | .numItems => (b, .number (api.numItems b))
  | .isEmpty => (b, .number (api.isEmpty b))
  | .isFull => (b, .number (api.isFull b))

def mqtt : RingBufferApi α :=
  ⟨mqttRingBufferSize, mqttRingbufferInit, mqttRingbufferQueue, mqttRingbufferQueueArr,
    mqttRingbufferDequeue, mqttRingbufferDequeueArr, mqttRingbufferPeek,
    mqttRingbufferNumItems, mqttRingbufferIsEmpty, mqttRingbufferIsFull⟩

def tbmqtt : RingBufferApi α :=
  ⟨tbmqttRingbufferSIZE, tbmqttRingbufferInit, tbmqttRingbufferQueue,
    tbmqttRingbufferQueueArr, tbmqttRingbufferDequeue, tbmqttRingbufferDequeueArr,
    tbmqttRingbufferPeek, tbmqttRingbufferNumItems, tbmqttRingbufferIsEmpty,
    tbmqttRingbufferIsFull⟩

def chan : RingBufferApi α :=
  ⟨chanRingBufferSize, chanRingBufferInit, chanRingBufferQueue, chanRingBufferQueueArr,
    chanRingBufferDequeue, chanRingBufferDequeueArr, chanRingBufferPeek,
    chanRingBufferNumItems, chanRingBufferIsEmpty, chanRingBufferIsFull⟩

def chanSerial : RingBufferApi α :=
  ⟨chanSerialRingbufferSize, chanSerialRingbufferInit, chanSerialRingbufferQueue,
    chanSerialRingbufferQueueArr, chanSerialRingbufferDequeue,
    chanSerialRingbufferDequeueArr, chanSerialRingbufferPeek,
    chanSerialRingbufferNumItems, chanSerialRingbufferIsEmpty,
    chanSerialRingbufferIsFull⟩

def chanSocketcan : RingBufferApi α :=
  ⟨chanSocketcanRingbufferSize, chanSocketcanRingbufferInit, chanSocketcanRingbufferQueue,
    chanSocketcanRingbufferQueueArr, chanSocketcanRingbufferDequeue,
    chanSocketcanRingbufferDequeueArr, chanSocketcanRingbufferPeek,
    chanSocketcanRingbufferNumItems, chanSocketcanRingbufferIsEmpty,
    chanSocketcanRingbufferIsFull⟩

def chanTcpservcan : RingBufferApi α :=
  ⟨chanTcpservcanRingbufferSize, chanTcpservcanRingbufferInit,
    chanTcpservcanRingbufferQueue, chanTcpservcanRingbufferQueueArr,
    chanTcpservcanRingbufferDequeue, chanTcpservcanRingbufferDequeueArr,
    chanTcpservcanRingbufferPeek, chanTcpservcanRingbufferNumItems,
    chanTcpservcanRingbufferIsEmpty, chanTcpservcanRingbufferIsFull⟩

def all : List (RingBufferApi α) :=
  [mqtt, tbmqtt, chan, chanSerial, chanSocketcan, chanTcpservcan]

def IsGeneric (api : RingBufferApi α) (k : ℕ) : Prop :=
  api = ⟨2 ^ k, RingBuffer.init, RingBuffer.queue (2 ^ k - 1),
    RingBuffer.queueArr (2 ^ k - 1), RingBuffer.dequeue (2 ^ k - 1),
    RingBuffer.dequeueArr (2 ^ k - 1), RingBuffer.peek (2 ^ k - 1),
    RingBuffer.numItems (2 ^ k - 1), RingBuffer.isEmpty, RingBuffer.isFull (2 ^ k - 1)⟩

theorem isGeneric_of_mem_all {api : RingBufferApi α} (h : api ∈ all) :
    ∃ k, 0 < k ∧ api.IsGeneric k := by
  simp only [all, List.mem_cons, List.not_mem_nil, or_false] at h
  rcases h with rfl | rfl | rfl | rfl | rfl | rfl
  · exact ⟨8, by decide, rfl⟩
  · exact ⟨9, by decide, rfl⟩
  · exact ⟨7, by decide, rfl⟩
  · exact ⟨7, by decide, rfl⟩
  · exact ⟨7, by decide, rfl⟩
  · exact ⟨7, by decide, rfl⟩

/-- The simulation relation: the indices are in range and the array holds the
abstract queue. -/
def Holds (api : RingBufferApi α) (b : RingBuffer α) (q : List α) : Prop :=
  b.InRange api.size ∧ b.contents api.size = q

section Simulation

variable {api : RingBufferApi α} {k : ℕ}

theorem capacity_eq (hapi : api.IsGeneric k) : (api.size - 1).toNat = 2 ^ k - 1 := by
  have hcast : (api.size - 1) = ((2 ^ k - 1 : ℕ) : ℤ) := by
    rw [hapi, Nat.cast_sub Nat.one_le_two_pow]
    simp
  rw [hcast, Int.toNat_natCast]

theorem holds_init (hapi : api.IsGeneric k) (b : RingBuffer α) :
    api.Holds (api.init b) [] := by
  obtain rfl := hapi
  exact ⟨RingBuffer.inRange_init b, RingBuffer.contents_init b⟩

theorem length_le_of_holds (hapi : api.IsGeneric k) {b : RingBuffer α} {q : List α}
    (h : api.Holds b q) : (q.length : ℤ) ≤ api.size - 1 := by
  obtain rfl := hapi
  have hlt := RingBuffer.count_lt (k := k) b
  rw [← h.2, RingBuffer.length_contents]
  exact Int.le_sub_one_of_lt hlt

theorem isFull_reply (hk : 0 < k) (b : RingBuffer α) :
    b.isFull (2 ^ k - 1) =
      if (b.contents (2 ^ k)).length = 2 ^ k - 1 then 1 else 0 := by
  have hsize := RingBuffer.one_lt_two_pow hk
  have hcap : ((2 ^ k - 1 : ℕ) : ℤ) = 2 ^ k - 1 := by
    simp [Nat.cast_sub Nat.one_le_two_pow]
  have hiff : (b.contents (2 ^ k)).length = 2 ^ k - 1 ↔ (b.count (2 ^ k) : ℤ) = 2 ^ k - 1 := by
    rw [RingBuffer.length_contents]
    omega
  rw [RingBuffer.isFull, Circular.land_two_pow_sub_one, ← RingBuffer.cast_count]
  exact if_congr hiff.symm rfl rfl

theorem isEmpty_reply {b : RingBuffer α} (h : b.InRange (2 ^ k)) :
    b.isEmpty = if (b.contents (2 ^ k)).length = 0 then 1 else 0 := by
  have hiff := RingBuffer.isEmpty_ne_zero_iff h
  rw [RingBuffer.length_contents]
  by_cases hzero : b.count (2 ^ k) = 0
  · have hne := hiff.mpr hzero
    rw [if_pos hzero]
    unfold RingBuffer.isEmpty at hne ⊢
    split at hne <;> simp_all
  · rw [if_neg hzero]
    exact not_not.mp (mt hiff.mp hzero)

/-- Every call keeps the relation and is answered as the abstract queue
answers it: one case for each entry point. -/
theorem simulates (hk : 0 < k) (hapi : api.IsGeneric k) :
    Objects.Simulates api.Holds api.exec (DropOldest.exec (api.size - 1).toNat) := by
  rintro b q c ⟨hrange, rfl⟩
  rw [capacity_eq hapi]
  obtain rfl := hapi
  cases c with
  | queue data =>
      exact ⟨⟨hrange.queue data, RingBuffer.contents_queue hk hrange data⟩, rfl⟩
  | queueArr data size =>
      have hfold := RingBuffer.contents_foldl_queue hk ((List.range size.toNat).map data) hrange
      simp only [exec, DropOldest.exec, Holds, RingBuffer.queueArr_eq]
      exact ⟨hfold, trivial⟩
  | dequeue =>
      obtain ⟨hcontents, hreply⟩ := RingBuffer.dequeue_spec hrange
      refine ⟨⟨hrange.dequeue, hcontents⟩, ?_⟩
      simp only [exec, DropOldest.exec, hreply]
  | dequeueArr len =>
      obtain ⟨hrange', hcontents, hreply⟩ := RingBuffer.dequeueArr_spec hrange len
      refine ⟨⟨hrange', hcontents⟩, ?_⟩
      simp only [exec, DropOldest.exec, hreply]
  | peek index =>
      refine ⟨⟨hrange, rfl⟩, ?_⟩
      simp only [exec, DropOldest.exec, RingBuffer.peek_spec]
  | numItems =>
      refine ⟨⟨hrange, rfl⟩, ?_⟩
      simp only [exec, DropOldest.exec, RingBuffer.numItems_eq, RingBuffer.length_contents]
  | isEmpty =>
      refine ⟨⟨hrange, rfl⟩, ?_⟩
      simp only [exec, DropOldest.exec, isEmpty_reply hrange]
  | isFull =>
      refine ⟨⟨hrange, rfl⟩, ?_⟩
      simp only [exec, DropOldest.exec, isFull_reply hk]

end Simulation

/-- What it means for a component to implement the bounded drop-oldest queue:
after any calls from `init` on any memory, the replies are those of the
abstract queue of capacity `size - 1`, and the buffer holds that queue. -/
structure ImplementsFifo (api : RingBufferApi α) : Prop where
  replies : ∀ b calls, Objects.replies api.exec (api.init b) calls =
    Objects.replies (DropOldest.exec (api.size - 1).toNat) [] calls
  holds : ∀ b calls, api.Holds (Objects.after api.exec (api.init b) calls)
    (Objects.after (DropOldest.exec (api.size - 1).toNat) [] calls)
  capacity : ∀ b calls,
    let b' := Objects.after api.exec (api.init b) calls
    let q := Objects.after (DropOldest.exec (api.size - 1).toNat) [] calls
    api.numItems b' = q.length ∧ (q.length : ℤ) ≤ api.size - 1
  queueArr : ∀ b data size,
    api.queueArr b data size = ((List.range size.toNat).map data).foldl api.queue b
  dequeue_empty : ∀ b calls,
    let b' := Objects.after api.exec (api.init b) calls
    Objects.after (DropOldest.exec (api.size - 1).toNat) [] calls = [] →
      api.dequeue b' = (b', 0, none)

theorem implementsFifo_of_mem_all {api : RingBufferApi α} (h : api ∈ all) :
    api.ImplementsFifo := by
  obtain ⟨k, hk, hapi⟩ := isGeneric_of_mem_all h
  have hsim := simulates hk hapi
  have hholds := fun b calls ↦ hsim.after (holds_init hapi b) calls
  refine ⟨fun b calls ↦ hsim.replies (holds_init hapi b) calls, hholds, ?_, ?_, ?_⟩
  · intro b calls
    refine ⟨?_, length_le_of_holds hapi (hholds b calls)⟩
    rw [← (hholds b calls).2, RingBuffer.length_contents]
    obtain rfl := hapi
    exact RingBuffer.numItems_eq _
  · intro b data size
    obtain rfl := hapi
    exact RingBuffer.queueArr_eq _ b data size
  · intro b calls b' hnil
    have hb := hholds b calls
    rw [hnil] at hb
    obtain rfl := hapi
    exact RingBuffer.dequeue_of_empty hb.2 hb.1

theorem implementsFifo_mqtt_bool : (mqtt : RingBufferApi Bool).ImplementsFifo :=
  implementsFifo_of_mem_all (List.mem_cons_self)

end RingBufferApi
