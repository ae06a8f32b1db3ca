import PcsSim.Chan.TcpservCan
import PcsSim.Lib.Threads
import PcsSim.RingBuffer.Contents

/-!
# The transmitting threads of a channel

`chan_serial_txthrd` and `chan_tcpservcan_txthrd` take a batch out of the ring
buffer under `chan_lock` and write it after they have unlocked.  The entries
carry serial numbers, which the program does not have.
-/

namespace Chan.Tx

open Threads

structure Entry (D : Type) where
  serial : ℕ
  data : D
  deriving DecidableEq

inductive Holder
  | txthrd
  | producer
  deriving DecidableEq

/-- The channel as far as the transmission uses it, and `e_arr`, which stays from
one round of the thread to the next. -/
structure World (D : Type) where
  mutex : Option Holder
  txrb : RingBuffer (Entry D)
  inRange : txrb.InRange (2 ^ 7)
  eArr : ℕ → Entry D
  /-- ghost: the bytes that `write` has taken -/
  accepted : Bytes
  /-- ghost: dequeued and not yet handed to `write` -/
  inFlight : List (Entry D)
  /-- ghost: all entries ever queued -/
  queued : List (Entry D)
  /-- ghost: the entries overwritten in the full buffer -/
  evicted : List ℕ

inductive Op
  | chanLock
  | txrbNumItems
  | txrbDequeueArr (len : ℤ)
  | chanUnlock
  /-- of the entries of `e_arr` from `first` on -/
  | write (first count : ℕ)

@[reducible] def Op.Reply : Op → Type
  | .chanLock | .chanUnlock => Unit
  | .txrbNumItems | .txrbDequeueArr _ | .write .. => ℤ

abbrev TxCode := Code Op Op.Reply

/-- A round of a thread whose `e_arr` has `sizeofArr` entries. -/
def txthrd (sizeofArr : ℤ) (writeOut : ℕ → TxCode Unit) : TxCode Unit := do
  Code.perform Op.chanLock
  let needtowrite ← Code.perform Op.txrbNumItems
  let towrite ←
    if needtowrite > 0 then do
      let towrite := if needtowrite > sizeofArr then sizeofArr else needtowrite
      let _ ← Code.perform (.txrbDequeueArr towrite)
      pure towrite
    else pure 0
  Code.perform Op.chanUnlock
  if towrite > 0 then writeOut towrite.toNat else pure ()

/-- `write(fd, buff, towrite)`, with the entries copied to `buff` -/
def writeBuff (towrite : ℕ) : TxCode Unit := do
  let _ ← Code.perform (.write 0 towrite)

/-- `for (i = 0; i < ntry2write; i++)`, with `n` frames to go -/
def writeFrames : ℕ → ℕ → TxCode Unit
  | _, 0 => pure ()
  | i, n + 1 => do
      let _ ← Code.perform (.write i 1)
      writeFrames (i + 1) n

def chanSerialTxthrd : TxCode Unit := txthrd 128 writeBuff

def chanTcpservcanTxthrd : TxCode Unit := txthrd 32 (writeFrames 0)

inductive Kind
  | serial
  | tcpservCan

namespace Kind

@[reducible] def Data : Kind → Type
  | .serial => UInt8
  | .tcpservCan => CanFrame

/-- What `write` is given of an entry. -/
def image : (kind : Kind) → kind.Data → Bytes
  | .serial, c => [c]
  | .tcpservCan, frame => frame.image

def mask : Kind → ℤ
  | .serial => chanSerialRingbufferMask
  | .tcpservCan => chanTcpservcanRingbufferMask

def thread : Kind → TxCode Unit
  | .serial => chanSerialTxthrd
  | .tcpservCan => chanTcpservcanTxthrd

theorem mask_eq (kind : Kind) : kind.mask = 2 ^ 7 - 1 := by
  cases kind with
  | serial => rfl
  | tcpservCan => rfl

def bytes (kind : Kind) (es : List (Entry kind.Data)) : Bytes :=
  es.flatMap fun e ↦ kind.image e.data

end Kind

variable {kind : Kind}

namespace World

/-- The entries of `e_arr` that a call of `write` is given. -/
def slice {D : Type} (w : World D) (first count : ℕ) : List (Entry D) :=
  (List.range' first count).map w.eArr

def txrbDequeueArr (len : ℤ) (w : World kind.Data) : ℤ × World kind.Data :=
  let result := w.txrb.dequeueArr kind.mask len
  (result.2.1, { w with
    txrb := result.1
    inRange := by
      simp only [result, Kind.mask_eq]
      exact (RingBuffer.dequeueArr_spec w.inRange len).1
    eArr := fun i ↦ result.2.2.getD i (w.eArr i)
    inFlight := w.inFlight ++ result.2.2 })

def stamp {D : Type} (w : World D) (data : D) : Entry D := ⟨w.queued.length, data⟩

/-- One element of `chan_serial_txrb_queue_arr`; the oldest entry is lost when the
buffer is full. -/
def txrbQueue (data : kind.Data) (w : World kind.Data) : World kind.Data :=
  { w with
    txrb := w.txrb.queue kind.mask (w.stamp data)
    inRange := by
      rw [Kind.mask_eq]
      exact w.inRange.queue (w.stamp data)
    queued := w.queued ++ [w.stamp data]
    evicted :=
      if w.txrb.isFull kind.mask ≠ 0 then
        w.evicted ++ ((w.txrb.peek kind.mask 0).2.map Entry.serial).toList
      else w.evicted }

end World

variable (kind)

/-- The outcome is what `write` returns. -/
def exec : (op : Op) → ℤ → World kind.Data → Option (op.Reply × World kind.Data)
  | .chanLock, _, w => if w.mutex = none then some ((), { w with mutex := some .txthrd }) else none
  | .txrbNumItems, _, w => some (w.txrb.numItems kind.mask, w)
  | .txrbDequeueArr len, _, w => some (w.txrbDequeueArr len)
  | .chanUnlock, _, w => some ((), { w with mutex := none })
  | .write first count, rc, w =>
      if -1 ≤ rc ∧ rc ≤ (kind.bytes (w.slice first count)).length then
        some (rc, { w with
          accepted := w.accepted ++ (kind.bytes (w.slice first count)).take rc.toNat
          inFlight := w.inFlight.drop count })
      else none

/-- What the users of the channel do. -/
inductive Event (D : Type)
  | chanLock
  | txrbQueue (data : D)
  | chanUnlock

def env : Event kind.Data → World kind.Data → Option (World kind.Data)
  | .chanLock, w => if w.mutex = none then some { w with mutex := some .producer } else none
  | .txrbQueue data, w =>
      if w.mutex = some .producer then some (w.txrbQueue data) else none
  | .chanUnlock, w =>
      if w.mutex = some .producer then some { w with mutex := none } else none

def system : System Op Op.Reply (World kind.Data) ℤ (Event kind.Data) where
  exec := exec kind
  env := env kind
  body := kind.thread

abbrev Config := Threads.Config Op Op.Reply (World kind.Data)

/-- After `chan_..._txrb_init`; neither array has been written. -/
def World.start {D : Type} (txrb : RingBuffer (Entry D)) (eArr : ℕ → Entry D) : World D :=
  { mutex := none, txrb := txrb.init, inRange := RingBuffer.inRange_init txrb, eArr,
    accepted := [], inFlight := [], queued := [], evicted := [] }

def start (txrb : RingBuffer (Entry kind.Data)) (eArr : ℕ → Entry kind.Data) : Config kind :=
  ⟨.done (), .start txrb eArr⟩

namespace World

variable {D : Type} (w : World D)

def held : List (Entry D) := w.txrb.contents (2 ^ 7)

/-- The entries queued without those evicted. -/
def kept : List (Entry D) := w.queued.filter fun e ↦ e.serial ∉ w.evicted

end World

/-- What `write` has accepted are the entries queued without those evicted, those
in the buffer and those yet to be handed to it. -/
def Faithful (w : World kind.Data) : Prop :=
  ∃ sent, w.kept = sent ++ w.inFlight ++ w.held ∧ w.accepted = kind.bytes sent

/-- A `write` accepts all that it is given. -/
def WritesAll : Op → ℤ → World kind.Data → Prop
  | .write first count, rc, w => rc = (kind.bytes (w.slice first count)).length
  | _, _, _ => True

instance (op : Op) (rc : ℤ) (w : World kind.Data) : Decidable (WritesAll kind op rc w) :=
  match op with
  | .write first count =>
      inferInstanceAs (Decidable (rc = (kind.bytes (w.slice first count)).length))
  | .chanLock | .txrbNumItems | .txrbDequeueArr _ | .chanUnlock => .isTrue trivial

/-! ## What the thread leaves behind -/

variable {kind}

namespace World

theorem numItems_eq (w : World kind.Data) : w.txrb.numItems kind.mask = w.held.length := by
  rw [Kind.mask_eq, RingBuffer.numItems_eq, held, RingBuffer.length_contents]

theorem txrbDequeueArr_spec (len : ℤ) (w : World kind.Data) :
    (w.txrbDequeueArr len).2.held = w.held.drop len.toNat ∧
      (w.txrbDequeueArr len).2.inFlight = w.inFlight ++ w.held.take len.toNat ∧
      (w.txrbDequeueArr len).2.eArr = fun i ↦ (w.held.take len.toNat).getD i (w.eArr i) := by
  obtain ⟨-, hcontents, hreply⟩ := RingBuffer.dequeueArr_spec w.inRange len
  rw [← Kind.mask_eq kind] at hcontents hreply
  have hdata := congrArg Prod.snd hreply
  refine ⟨hcontents, congrArg (w.inFlight ++ ·) hdata, ?_⟩
  exact congrArg (fun data i ↦ List.getD data i (w.eArr i)) hdata

end World

/-- What nobody but the thread writes; the buffer is among it under the lock. -/
structure Owned (D : Type) where
  locked : Option (List (Entry D))
  eArr : ℕ → Entry D
  inFlight : List (Entry D)

section Outline

variable {D : Type}

def World.owned (w : World D) : Owned D :=
  ⟨if w.mutex = some .txthrd then some w.held else none, w.eArr, w.inFlight⟩

/-- Written are the oldest of the entries dequeued. -/
def rulePre : Op → Owned D → Prop
  | .write first count, k => 0 < count ∧ (List.range' first count).map k.eArr <+: k.inFlight
  | _, _ => True

def rulePost : (op : Op) → Owned D → (op.Reply → Owned D → Prop) → Prop
  | .chanLock, k, P => ∀ held, P () { k with locked := some held }
  | .txrbNumItems, k, P => ∃ held, k.locked = some held ∧ P held.length k
  | .txrbDequeueArr len, k, P => ∃ held, k.locked = some held ∧ ∀ cnt : ℤ, P cnt
      { locked := some (held.drop len.toNat)
        eArr := fun i ↦ (held.take len.toNat).getD i (k.eArr i)
        inFlight := k.inFlight ++ held.take len.toNat }
  | .chanUnlock, k, P => P () { k with locked := none }
  | .write _ count, k, P => ∀ rc, P rc { k with inFlight := k.inFlight.drop count }

def rule : Rule Op Op.Reply (Owned D) := ⟨rulePre, rulePost⟩

def Boundary (k : Owned D) : Prop := k.inFlight = []

theorem World.owned_of_locked {w : World D} {held : List (Entry D)}
    (h : w.owned.locked = some held) : w.mutex = some .txthrd ∧ w.held = held := by
  simpa only [owned, Option.ite_none_right_eq_some, Option.some.injEq] using h

theorem World.owned_of_unlocked {w : World D} (h : w.mutex ≠ some .txthrd) :
    w.owned = ⟨none, w.eArr, w.inFlight⟩ := by
  rw [owned, if_neg h]

theorem rule_sound (op : Op) (i : ℤ) (w : World kind.Data) (r : op.Reply) (w' : World kind.Data)
    (P : op.Reply → Owned kind.Data → Prop) (hpost : rule.post op w.owned P)
    (hexec : exec kind op i w = some (r, w')) : P r w'.owned := by
  cases op with
  | chanLock =>
      simp only [exec, Option.ite_none_right_eq_some, Option.some.injEq] at hexec
      obtain ⟨-, rfl, rfl⟩ := hexec
      exact hpost w.held
  | txrbNumItems =>
      simp only [exec, Option.some.injEq] at hexec
      obtain ⟨rfl, rfl⟩ := hexec
      obtain ⟨held, hlocked, hP⟩ := hpost
      rwa [World.numItems_eq, (World.owned_of_locked hlocked).2]
  | txrbDequeueArr len =>
      obtain ⟨held, hlocked, hP⟩ := hpost
      obtain ⟨hmutex, rfl⟩ := World.owned_of_locked hlocked
      obtain ⟨hheld, hinFlight, heArr⟩ := World.txrbDequeueArr_spec len w
      have hlocked' : (w.txrbDequeueArr len).2.mutex = some .txthrd := hmutex
      have hw' : w' = (w.txrbDequeueArr len).2 := (congrArg Prod.snd (Option.some.inj hexec)).symm
      rw [hw', World.owned, if_pos hlocked', hheld, hinFlight, heArr]
      exact hP r
  | chanUnlock =>
      simp only [exec, Option.some.injEq] at hexec
      obtain ⟨rfl, rfl⟩ := hexec
      exact hpost
  | write first count =>
      simp only [exec, Option.ite_none_right_eq_some, Option.some.injEq] at hexec
      obtain ⟨-, rfl, rfl⟩ := hexec
      exact hpost i

theorem env_owned (e : Event kind.Data) (w w' : World kind.Data) (h : env kind e w = some w') :
    w'.owned = w.owned := by
  cases e with
  | chanLock =>
      simp only [env, Option.ite_none_right_eq_some, Option.some.injEq] at h
      obtain ⟨hmutex, rfl⟩ := h
      rw [World.owned_of_unlocked (w := w) (by simp [hmutex]), World.owned_of_unlocked (by simp)]
  | txrbQueue data =>
      simp only [env, Option.ite_none_right_eq_some, Option.some.injEq] at h
      obtain ⟨hmutex, rfl⟩ := h
      rw [World.owned_of_unlocked (w := w) (by simp [hmutex]),
        World.owned_of_unlocked (by simp [World.txrbQueue, hmutex])]
      rfl
  | chanUnlock =>
      simp only [env, Option.ite_none_right_eq_some, Option.some.injEq] at h
      obtain ⟨hmutex, rfl⟩ := h
      rw [World.owned_of_unlocked (w := w) (by simp [hmutex]), World.owned_of_unlocked (by simp)]

theorem map_getD {α : Type} (l : List α) (f : ℕ → α) :
    (List.range' 0 l.length).map (fun i ↦ l.getD i (f i)) = l := by
  apply List.ext_getElem
  · simp
  · intro i _ hi
    simp [List.getElem?_eq_getElem hi]

theorem wp_writeBuff {k : Owned D} {towrite : ℕ} (hpos : 0 < towrite)
    (hk : (List.range' 0 towrite).map k.eArr = k.inFlight) :
    wp rule (writeBuff towrite) (fun _ ↦ Boundary) k := by
  have hlen : k.inFlight.length = towrite := by rw [← hk, List.length_map, List.length_range']
  refine ⟨⟨hpos, hk ▸ List.prefix_rfl⟩, fun rc ↦ ?_⟩
  exact List.drop_eq_nil_of_le hlen.le

theorem wp_writeFrames {k : Owned D} {i n : ℕ}
    (hk : (List.range' i n).map k.eArr = k.inFlight) :
    wp rule (writeFrames i n) (fun _ ↦ Boundary) k := by
  induction n generalizing i k with
  | zero => exact hk.symm
  | succ n ih =>
      rw [List.range'_succ, List.map_cons] at hk
      refine ⟨⟨Nat.one_pos, ?_⟩, fun rc ↦ ih ?_⟩
      · exact ⟨_, hk⟩
      · have htail := congrArg List.tail hk
        rwa [List.tail_cons, ← List.drop_one] at htail

theorem wp_txthrd {sizeofArr : ℤ} {writeOut : ℕ → TxCode Unit} (hsize : 0 < sizeofArr)
    (hwrite : ∀ n (k : Owned D), 0 < n → (List.range' 0 n).map k.eArr = k.inFlight →
      wp rule (writeOut n) (fun _ ↦ Boundary) k) {k : Owned D} (hk : Boundary k) :
    wp rule (txthrd sizeofArr writeOut) (fun _ ↦ Boundary) k := by
  simp only [txthrd, Code.perform, Code.call_bind, Code.done_bind, wp_call]
  refine ⟨trivial, fun held ↦ ⟨trivial, held, rfl, ?_⟩⟩
  beta_reduce
  by_cases hheld : (held.length : ℤ) > 0
  · rw [if_pos hheld]
    generalize htowrite :
      (if (held.length : ℤ) > sizeofArr then sizeofArr else (held.length : ℤ)) = towrite
    have hpos : 0 < towrite := by split_ifs at htowrite <;> omega
    have hle : towrite.toNat ≤ held.length := by split_ifs at htowrite <;> omega
    have hlength : (held.take towrite.toNat).length = towrite.toNat := by
      rw [List.length_take, min_eq_left hle]
    have hmap := map_getD (held.take towrite.toNat) k.eArr
    rw [hlength] at hmap
    refine ⟨trivial, held, rfl, fun cnt ↦ ⟨trivial, ?_⟩⟩
    change wp rule (if towrite > 0 then writeOut towrite.toNat else pure ()) _ _
    rw [if_pos hpos]
    apply hwrite _ _ (by omega)
    exact hmap.trans (by rw [hk, List.nil_append])
  · rw [if_neg hheld]
    exact ⟨trivial, hk⟩

theorem wp_thread (kind : Kind) {k : Owned D} (hk : Boundary k) :
    wp rule kind.thread (fun _ ↦ Boundary) k := by
  cases kind with
  | serial => exact wp_txthrd (by decide) (fun _ _ hpos ↦ wp_writeBuff hpos) hk
  | tcpservCan => exact wp_txthrd (by decide) (fun _ _ _ ↦ wp_writeFrames) hk

theorem outline (kind : Kind) :
    Outline (system kind) (World.owned (D := kind.Data)) rule Boundary where
  env_own := env_owned
  sound := rule_sound
  body _ hk := wp_thread kind hk

end Outline

end Chan.Tx
