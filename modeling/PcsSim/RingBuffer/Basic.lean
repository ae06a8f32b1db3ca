import PcsSim.Lib.Circular
import PcsSim.Lib.DropOldest

/-!
# The ring buffers

Six components of the program carry the same ring buffer under their own
names: an array of a power of two entries, a tail index for the oldest entry
and a head index for the next free one, both plain `int`s that are masked
after each increment.  The functions are written once over the mask, and each
component has its own functions as instances at its mask.

A function with an output pointer `data` returns what it stored there, `none`
where it stores nothing.  The C functions copy elements and never look into
them, so the element type is a parameter.
-/

structure RingBuffer (α : Type*) where
  buffer : ℤ → α
  tailIndex : ℤ
  headIndex : ℤ

namespace RingBuffer

variable {α : Type*}

/-- The array itself is not touched. -/
def init (b : RingBuffer α) : RingBuffer α :=
  { b with tailIndex := 0, headIndex := 0 }

def isEmpty (b : RingBuffer α) : ℤ :=
  if b.headIndex = b.tailIndex then 1 else 0

def isFull (mask : ℤ) (b : RingBuffer α) : ℤ :=
  if Int.land (b.headIndex - b.tailIndex) mask = mask then 1 else 0

def numItems (mask : ℤ) (b : RingBuffer α) : ℤ :=
  Int.land (b.headIndex - b.tailIndex) mask

def queue (mask : ℤ) (b : RingBuffer α) (data : α) : RingBuffer α :=
  let b :=
    if b.isFull mask ≠ 0 then
      -- overwrites the oldest element
      { b with tailIndex := Int.land (b.tailIndex + 1) mask }
    else b
  { b with
    buffer := Function.update b.buffer b.headIndex data
    headIndex := Int.land (b.headIndex + 1) mask }

/-- `for (i = 0; i < size; i++)`, with `n` rounds to go. -/
def queueArrLoop (mask : ℤ) (data : ℕ → α) : ℕ → ℕ → RingBuffer α → RingBuffer α
  | 0, _, b => b
  | n + 1, i, b => queueArrLoop mask data n (i + 1) (b.queue mask (data i))

def queueArr (mask : ℤ) (b : RingBuffer α) (data : ℕ → α) (size : ℤ) : RingBuffer α :=
  queueArrLoop mask data size.toNat 0 b

def dequeue (mask : ℤ) (b : RingBuffer α) : RingBuffer α × ℤ × Option α :=
  if b.isEmpty ≠ 0 then (b, 0, none)
  else
    ({ b with tailIndex := Int.land (b.tailIndex + 1) mask }, 1,
      some (b.buffer b.tailIndex))

/-- `while ((cnt < len) && dequeue(buffer, data_ptr))`, with `len - cnt` to go
and `data` stored so far. -/
def dequeueArrLoop (mask : ℤ) : ℕ → RingBuffer α → List α → RingBuffer α × List α
  | 0, b, data => (b, data)
  | n + 1, b, data =>
      let (b, rc, item) := b.dequeue mask
      if rc ≠ 0 then dequeueArrLoop mask n b (data ++ item.toList) else (b, data)

/-- The count returned is the number of elements stored. -/
def dequeueArr (mask : ℤ) (b : RingBuffer α) (len : ℤ) : RingBuffer α × ℤ × List α :=
  if b.isEmpty ≠ 0 then (b, 0, [])
  else
    let (b, data) := dequeueArrLoop mask len.toNat b []
    (b, data.length, data)

def peek (mask : ℤ) (b : RingBuffer α) (index : ℤ) : ℤ × Option α :=
  if index ≥ b.numItems mask then (0, none)
  else (1, some (b.buffer (Int.land (b.tailIndex + index) mask)))

end RingBuffer

/-! ## The six components -/

section Components

variable {α : Type*}

def mqttRingBufferSize : ℤ := 0x100
def mqttRingBufferMask : ℤ := mqttRingBufferSize - 1

def mqttRingbufferInit (b : RingBuffer α) : RingBuffer α := b.init
def mqttRingbufferQueue (b : RingBuffer α) (data : α) : RingBuffer α :=
  b.queue mqttRingBufferMask data
def mqttRingbufferQueueArr (b : RingBuffer α) (data : ℕ → α) (size : ℤ) : RingBuffer α :=
  b.queueArr mqttRingBufferMask data size
def mqttRingbufferDequeue (b : RingBuffer α) : RingBuffer α × ℤ × Option α :=
  b.dequeue mqttRingBufferMask
def mqttRingbufferDequeueArr (b : RingBuffer α) (len : ℤ) : RingBuffer α × ℤ × List α :=
  b.dequeueArr mqttRingBufferMask len
def mqttRingbufferPeek (b : RingBuffer α) (index : ℤ) : ℤ × Option α :=
  b.peek mqttRingBufferMask index
def mqttRingbufferNumItems (b : RingBuffer α) : ℤ := b.numItems mqttRingBufferMask
def mqttRingbufferSize (_ : RingBuffer α) : ℤ := mqttRingBufferSize
def mqttRingbufferIsEmpty (b : RingBuffer α) : ℤ := b.isEmpty
def mqttRingbufferIsFull (b : RingBuffer α) : ℤ := b.isFull mqttRingBufferMask

def tbmqttRingbufferSIZE : ℤ := 0x200
def tbmqttRingbufferMask : ℤ := tbmqttRingbufferSIZE - 1

def tbmqttRingbufferInit (b : RingBuffer α) : RingBuffer α := b.init
def tbmqttRingbufferQueue (b : RingBuffer α) (data : α) : RingBuffer α :=
  b.queue tbmqttRingbufferMask data
def tbmqttRingbufferQueueArr (b : RingBuffer α) (data : ℕ → α) (size : ℤ) : RingBuffer α :=
  b.queueArr tbmqttRingbufferMask data size
def tbmqttRingbufferDequeue (b : RingBuffer α) : RingBuffer α × ℤ × Option α :=
  b.dequeue tbmqttRingbufferMask
def tbmqttRingbufferDequeueArr (b : RingBuffer α) (len : ℤ) : RingBuffer α × ℤ × List α :=
  b.dequeueArr tbmqttRingbufferMask len
def tbmqttRingbufferPeek (b : RingBuffer α) (index : ℤ) : ℤ × Option α :=
  b.peek tbmqttRingbufferMask index
def tbmqttRingbufferNumItems (b : RingBuffer α) : ℤ := b.numItems tbmqttRingbufferMask
def tbmqttRingbufferSize (_ : RingBuffer α) : ℤ := tbmqttRingbufferSIZE
def tbmqttRingbufferIsEmpty (b : RingBuffer α) : ℤ := b.isEmpty
def tbmqttRingbufferIsFull (b : RingBuffer α) : ℤ := b.isFull tbmqttRingbufferMask

def chanRingBufferSize : ℤ := 0x80
def chanRingBufferMask : ℤ := chanRingBufferSize - 1

def chanRingBufferInit (b : RingBuffer α) : RingBuffer α := b.init
def chanRingBufferQueue (b : RingBuffer α) (data : α) : RingBuffer α :=
  b.queue chanRingBufferMask data
def chanRingBufferQueueArr (b : RingBuffer α) (data : ℕ → α) (size : ℤ) : RingBuffer α :=
  b.queueArr chanRingBufferMask data size
def chanRingBufferDequeue (b : RingBuffer α) : RingBuffer α × ℤ × Option α :=
  b.dequeue chanRingBufferMask
def chanRingBufferDequeueArr (b : RingBuffer α) (len : ℤ) : RingBuffer α × ℤ × List α :=
  b.dequeueArr chanRingBufferMask len
def chanRingBufferPeek (b : RingBuffer α) (index : ℤ) : ℤ × Option α :=
  b.peek chanRingBufferMask index
def chanRingBufferNumItems (b : RingBuffer α) : ℤ := b.numItems chanRingBufferMask
def chanRingBufferIsEmpty (b : RingBuffer α) : ℤ := b.isEmpty
def chanRingBufferIsFull (b : RingBuffer α) : ℤ := b.isFull chanRingBufferMask

def chanSerialRingbufferSize : ℤ := 0x80
def chanSerialRingbufferMask : ℤ := chanSerialRingbufferSize - 1

def chanSerialRingbufferInit (b : RingBuffer α) : RingBuffer α := b.init
def chanSerialRingbufferQueue (b : RingBuffer α) (data : α) : RingBuffer α :=
  b.queue chanSerialRingbufferMask data
def chanSerialRingbufferQueueArr (b : RingBuffer α) (data : ℕ → α) (size : ℤ) :
    RingBuffer α :=
  b.queueArr chanSerialRingbufferMask data size
def chanSerialRingbufferDequeue (b : RingBuffer α) : RingBuffer α × ℤ × Option α :=
  b.dequeue chanSerialRingbufferMask
def chanSerialRingbufferDequeueArr (b : RingBuffer α) (len : ℤ) :
    RingBuffer α × ℤ × List α :=
  b.dequeueArr chanSerialRingbufferMask len
def chanSerialRingbufferPeek (b : RingBuffer α) (index : ℤ) : ℤ × Option α :=
  b.peek chanSerialRingbufferMask index
def chanSerialRingbufferNumItems (b : RingBuffer α) : ℤ :=
  b.numItems chanSerialRingbufferMask
def chanSerialRingbufferIsEmpty (b : RingBuffer α) : ℤ := b.isEmpty
def chanSerialRingbufferIsFull (b : RingBuffer α) : ℤ := b.isFull chanSerialRingbufferMask

def chanSocketcanRingbufferSize : ℤ := 0x80
def chanSocketcanRingbufferMask : ℤ := chanSocketcanRingbufferSize - 1

def chanSocketcanRingbufferInit (b : RingBuffer α) : RingBuffer α := b.init
def chanSocketcanRingbufferQueue (b : RingBuffer α) (data : α) : RingBuffer α :=
  b.queue chanSocketcanRingbufferMask data
def chanSocketcanRingbufferQueueArr (b : RingBuffer α) (data : ℕ → α) (size : ℤ) :
    RingBuffer α :=
  b.queueArr chanSocketcanRingbufferMask data size
def chanSocketcanRingbufferDequeue (b : RingBuffer α) : RingBuffer α × ℤ × Option α :=
  b.dequeue chanSocketcanRingbufferMask
def chanSocketcanRingbufferDequeueArr (b : RingBuffer α) (len : ℤ) :
    RingBuffer α × ℤ × List α :=
  b.dequeueArr chanSocketcanRingbufferMask len
def chanSocketcanRingbufferPeek (b : RingBuffer α) (index : ℤ) : ℤ × Option α :=
  b.peek chanSocketcanRingbufferMask index
def chanSocketcanRingbufferNumItems (b : RingBuffer α) : ℤ :=
  b.numItems chanSocketcanRingbufferMask
def chanSocketcanRingbufferIsEmpty (b : RingBuffer α) : ℤ := b.isEmpty
def chanSocketcanRingbufferIsFull (b : RingBuffer α) : ℤ :=
  b.isFull chanSocketcanRingbufferMask

def chanTcpservcanRingbufferSize : ℤ := 0x80
def chanTcpservcanRingbufferMask : ℤ := chanTcpservcanRingbufferSize - 1

def chanTcpservcanRingbufferInit (b : RingBuffer α) : RingBuffer α := b.init
def chanTcpservcanRingbufferQueue (b : RingBuffer α) (data : α) : RingBuffer α :=
  b.queue chanTcpservcanRingbufferMask data
def chanTcpservcanRingbufferQueueArr (b : RingBuffer α) (data : ℕ → α) (size : ℤ) :
    RingBuffer α :=
  b.queueArr chanTcpservcanRingbufferMask data size
def chanTcpservcanRingbufferDequeue (b : RingBuffer α) : RingBuffer α × ℤ × Option α :=
  b.dequeue chanTcpservcanRingbufferMask
def chanTcpservcanRingbufferDequeueArr (b : RingBuffer α) (len : ℤ) :
    RingBuffer α × ℤ × List α :=
  b.dequeueArr chanTcpservcanRingbufferMask len
def chanTcpservcanRingbufferPeek (b : RingBuffer α) (index : ℤ) : ℤ × Option α :=
  b.peek chanTcpservcanRingbufferMask index
def chanTcpservcanRingbufferNumItems (b : RingBuffer α) : ℤ :=
  b.numItems chanTcpservcanRingbufferMask
def chanTcpservcanRingbufferIsEmpty (b : RingBuffer α) : ℤ := b.isEmpty
def chanTcpservcanRingbufferIsFull (b : RingBuffer α) : ℤ :=
  b.isFull chanTcpservcanRingbufferMask

end Components
