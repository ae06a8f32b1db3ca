import PcsSim.Mqtt.Outline
import PcsSim.RingBuffer.Contents

/-!
# The transmit buffer as a list

`World.held` is what the transmit buffer holds, oldest first.  There is one
lemma for each of the three operations on it.
-/

namespace Mqtt

namespace World

variable {w : World}

def held (w : World) : List Message := w.txbuf.contents (2 ^ 8)

def txInRange (w : World) : Prop := w.txbuf.InRange (2 ^ 8)

/-- The message that an enqueue into `w` makes of an element. -/
def stamp (w : World) (data : Element) : Message := ⟨w.enqueued.length, data⟩

theorem mqttRingbufferPeek_zero (b : RingBuffer Message) :
    mqttRingbufferPeek b 0 =
      (if 0 < (b.contents (2 ^ 8)).length then 1 else 0, (b.contents (2 ^ 8))[0]?) :=
  RingBuffer.peek_spec (k := 8) b 0

theorem isFull_iff (b : RingBuffer Message) :
    mqttRingbufferIsFull b ≠ 0 ↔ (b.contents (2 ^ 8)).length = 255 :=
  RingBuffer.isFull_iff_length (k := 8) b

theorem txInRange_queue (h : w.txInRange) (data : Element) :
    (w.mqttQueueTxbuf data).txInRange :=
  RingBuffer.InRange.queue (k := 8) h (w.stamp data)

@[simp] theorem enqueued_queue (data : Element) :
    (w.mqttQueueTxbuf data).enqueued = w.enqueued ++ [w.stamp data] := rfl

@[simp] theorem owned_queue (data : Element) : (w.mqttQueueTxbuf data).owned = w.owned := rfl

theorem held_queue (h : w.txInRange) (data : Element) :
    (w.mqttQueueTxbuf data).held = DropOldest.push 255 w.held (w.stamp data) :=
  RingBuffer.contents_queue (k := 8) (by decide) h (w.stamp data)

theorem queue_of_room (h : w.txInRange) (hroom : w.held.length ≠ 255) (data : Element) :
    (w.mqttQueueTxbuf data).held = w.held ++ [w.stamp data] ∧
      (w.mqttQueueTxbuf data).evicted = w.evicted ∧
      (w.mqttQueueTxbuf data).evictedSincePeek = w.evictedSincePeek := by
  have hfull : ¬ mqttRingbufferIsFull w.txbuf ≠ 0 := mt (isFull_iff w.txbuf).mp hroom
  refine ⟨?_, if_neg hfull, ?_⟩
  · exact RingBuffer.contents_queue_of_room (k := 8) (by decide) h hroom (w.stamp data)
  · simp only [mqttQueueTxbuf, decide_eq_false hfull, Bool.or_false]

theorem queue_of_full (h : w.txInRange) (hfull : w.held.length = 255) (data : Element) :
    ∃ oldest rest, w.held = oldest :: rest ∧
      (w.mqttQueueTxbuf data).held = rest ++ [w.stamp data] ∧
      (w.mqttQueueTxbuf data).evicted = w.evicted ++ [oldest] ∧
      (w.mqttQueueTxbuf data).evictedSincePeek = true := by
  have hisFull : mqttRingbufferIsFull w.txbuf ≠ 0 := (isFull_iff w.txbuf).mpr hfull
  obtain ⟨oldest, rest, hcons, hheld, hoverwritten⟩ :=
    RingBuffer.contents_queue_of_full (k := 8) (by decide) h hfull (w.stamp data)
  have hpeek : (mqttRingbufferPeek w.txbuf 0).2 = some oldest := hoverwritten
  refine ⟨oldest, rest, hcons, hheld, ?_, ?_⟩
  · simp only [mqttQueueTxbuf, if_pos hisFull, hpeek, Option.toList_some]
  · simp only [mqttQueueTxbuf, decide_eq_true hisFull, Bool.or_true]

theorem dequeue_of_cons (h : w.txInRange) {oldest : Message} {rest : List Message}
    (hcons : w.held = oldest :: rest) :
    (mqttRingbufferDequeue w.txbuf).1.InRange (2 ^ 8) ∧
      (mqttRingbufferDequeue w.txbuf).1.contents (2 ^ 8) = rest ∧
      (mqttRingbufferDequeue w.txbuf).2.2 = some oldest := by
  obtain ⟨hcontents, hreply⟩ := RingBuffer.dequeue_spec (k := 8) h
  have hheld : w.txbuf.contents (2 ^ 8) = oldest :: rest := hcons
  rw [hheld] at hcontents hreply
  exact ⟨RingBuffer.InRange.dequeue (k := 8) h, hcontents, congrArg Prod.snd hreply⟩

end World

end Mqtt
