import PcsSim.Mqtt.SpoolCall

/-!
# The limit on the file of the data base

The size stays 0 where a query for it fails, and it is a product of two `int`s.
-/

namespace Mqtt

open Threads

variable {ε : Type} {d : Database} {s : Depot}

/-- Both queries for the size find what `d` says. -/
def Database.answer (d : Database) : SpoolOp → SpoolOutcome → SpoolOutcome
  | .mqttCacheGetMemorySize, _ => d.sizeOutcome
  | _, i => i

/-- The thread among others, with a file that has the size in `d`. -/
def sizedThread (env : ε → Depot → Option Depot) (d : Database) :
    System SpoolOp SpoolOp.Reply Depot SpoolOutcome ε where
  exec op i s := spoolExec op (d.answer op i) s
  env := env
  body := mqttDealWithCache

/-- Wherever the thread is about to insert a row, the file is within the limit. -/
def KeepsLimit (env : ε → Depot → Option Depot) (d : Database) : Prop :=
  ∀ (s : Depot) (ls : List (Label SpoolOutcome ε)) (c : Threads.Config SpoolOp SpoolOp.Reply Depot)
    (e : Message) (next : ℤ → SpoolCode Unit),
    Runs.run (sizedThread env d).step ⟨.done (), s⟩ ls = some c →
      c.code = .call (.mqttCacheWriteOnePayload e) next →
        d.pageSize * d.pageCount ≤ cacheFileMemorySizeMax

section Guard

/-- A row is inserted only after a size within the limit. -/
def sizePre (d : Database) : SpoolOp → Unit → Prop
  | .mqttCacheWriteOnePayload _, _ => d.cacheMemorySize ≤ cacheFileMemorySizeMax
  | _, _ => True

def sizePost (d : Database) : (op : SpoolOp) → Unit → (op.Reply → Unit → Prop) → Prop
  | .mqttCacheGetMemorySize, k, P => P d.cacheMemorySize k
  | _, k, P => ∀ r, P r k

def sizeRule (d : Database) : Rule SpoolOp SpoolOp.Reply Unit := ⟨sizePre d, sizePost d⟩

theorem wp_size {α : Type} (op : SpoolOp) (next : op.Reply → SpoolCode α)
    (Q : α → Unit → Prop) (k : Unit) : wp (sizeRule d) (.call op next) Q k ↔
      sizePre d op k ∧ sizePost d op k fun r k ↦ wp (sizeRule d) (next r) Q k := Iff.rfl

theorem wp_size_mqttSpill : wp (sizeRule d) mqttSpill (fun _ _ ↦ True) () := by
  simp only [mqttSpill, Code.perform, Code.call_bind, Code.done_bind, wp_size, sizePre, sizePost]
  refine ⟨trivial, ?_⟩
  split_ifs with hsize
  · simp only [wp_size, sizePre, sizePost, true_and]
    intro _ peeked _
    split_ifs
    · simp only [wp_size, sizePre, sizePost]
      refine ⟨hsize, fun rc ↦ ?_⟩
      split_ifs
      · simp only [wp_size, sizePre, sizePost, true_and]
        exact fun _ _ _ ↦ trivial
      · trivial
    · trivial
  · trivial

theorem wp_size_mqttRefill : wp (sizeRule d) mqttRefill (fun _ _ ↦ True) () := by
  simp only [mqttRefill, Code.perform, Code.call_bind, Code.done_bind, wp_size, sizePre, sizePost,
    true_and]
  intro counted
  split_ifs
  · simp only [wp_size, sizePre, sizePost, true_and]
    intro row _ _ _ _ count
    split_ifs
    · simp only [wp_size, sizePre, sizePost, true_and]
      exact fun _ _ ↦ trivial
    · trivial
  · trivial

theorem wp_size_mqttDealWithCache :
    wp (sizeRule d) mqttDealWithCache (fun _ _ ↦ True) () := by
  simp only [mqttDealWithCache, Code.perform, Code.call_bind, Code.done_bind, wp_size, sizePre,
    sizePost, true_and]
  intro handle
  split_ifs
  · simp only [wp_size, sizePre, sizePost, true_and]
    intro usage
    split_ifs
    · exact wp_size_mqttSpill
    · simp only [wp_size, sizePre, sizePost, true_and]
      intro usage
      split_ifs
      · exact wp_size_mqttRefill
      · trivial
  · trivial

theorem sizeOutline (env : ε → Depot → Option Depot) (d : Database) :
    Outline (sizedThread env d) (fun _ ↦ ()) (sizeRule d) fun _ ↦ True where
  env_own _ _ _ _ := rfl
  sound op i s r t P hpost hexec := by
    cases op with
    | mqttCacheGetMemorySize =>
        obtain ⟨rfl, -⟩ := Prod.mk.inj (Option.some.inj hexec)
        exact hpost
    | _ => exact hpost r
  body _ _ := wp_size_mqttDealWithCache

theorem size_le_of_run {env : ε → Depot → Option Depot} {ls : List (Label SpoolOutcome ε)}
    {c : Threads.Config SpoolOp SpoolOp.Reply Depot} {e : Message} {next : ℤ → SpoolCode Unit}
    (hrun : Runs.run (sizedThread env d).step ⟨.done (), s⟩ ls = some c)
    (hcode : c.code = .call (.mqttCacheWriteOnePayload e) next) :
    d.cacheMemorySize ≤ cacheFileMemorySizeMax := by
  have hstart : Outline.Fit (fun _ ↦ ()) (sizeRule d) (fun _ ↦ True)
      (⟨.done (), s⟩ : Threads.Config SpoolOp SpoolOp.Reply Depot) := trivial
  have hfit := Runs.run_invariant
    (fun _ _ _ hc hstep ↦ (sizeOutline env d).fit_step hc hstep) hstart hrun
  exact hfit.pre hcode

end Guard

section Bypass

theorem exists_run_to_insert (env : ε → Depot → Option Depot) (hspills : s.Spills)
    (hfree : s.world.txbufMutex = none) (hheld : s.world.held ≠ [])
    (hsize : d.cacheMemorySize ≤ cacheFileMemorySizeMax) :
    ∃ ls c e next, Runs.run (sizedThread env d).step ⟨.done (), s⟩ ls = some c ∧
      c.code = .call (.mqttCacheWriteOnePayload e) next := by
  obtain ⟨e, rest, hcons⟩ := List.exists_cons_of_ne_nil hheld
  let i : SpoolOutcome := ⟨0, none, none, .empty⟩
  have hhandle : (sizedThread env d).exec .getHandle i s = some (s.handle, s) := rfl
  have husage : (sizedThread env d).exec .getTxbufUsage i s =
      some (s.world.owned.dev.txbufUsage, s) := rfl
  have hquery : (sizedThread env d).exec .mqttCacheGetMemorySize i s =
      some (d.cacheMemorySize, s) := rfl
  have hlock : (sizedThread env d).exec .mqttLockTxbuf i s =
      some ((), s.hold (some (.producer 0))) := Depot.exec_lock (i := i) hfree
  have hpeek : (sizedThread env d).exec .mqttPeekTxbuf i (s.hold (some (.producer 0))) =
      some ((1, some e), s.hold (some (.producer 0))) := by
    have hpeeked : mqttRingbufferPeek (s.hold (some (.producer 0))).world.txbuf 0 =
        (1, some e) := by
      rw [Depot.txbuf_hold, Depot.peek_eq, hcons]
      rfl
    rw [← hpeeked]
    rfl
  have hunlock : (sizedThread env d).exec .mqttUnlockTxbuf i (s.hold (some (.producer 0))) =
      some ((), (s.hold (some (.producer 0))).hold none) := rfl
  have hbody : (sizedThread env d).body = mqttDealWithCache := rfl
  have hrun : ∃ c, Runs.run (sizedThread env d).step ⟨.done (), s⟩ (List.replicate 7 (.own i)) =
      some c ∧ ∃ e next, c.code = .call (.mqttCacheWriteOnePayload e) next := by
    rw [List.replicate_succ, System.run_done, hbody, mqttDealWithCache]
    simp only [mqttSpill, Code.perform, Code.call_bind, Code.done_bind, List.replicate]
    rw [System.run_call hhandle, if_pos hspills.handle, System.run_call husage,
      if_pos hspills.usage, System.run_call hquery, if_pos hsize, System.run_call hlock,
      System.run_call hpeek, System.run_call hunlock, if_pos rfl]
    exact ⟨_, rfl, e, _, rfl⟩
  obtain ⟨c, hc, e, next, hcode⟩ := hrun
  exact ⟨_, c, e, next, hc, hcode⟩

end Bypass

theorem cacheMemorySize_eq (d : Database) : d.cacheMemorySize =
    if d.pageSizeRc = 0 ∧ d.pageCountRc = 0 then toInt (d.pageSize * d.pageCount) else 0 := by
  unfold Database.cacheMemorySize Database.sizeOutcome
  by_cases hsize : d.pageSizeRc = 0
  · by_cases hcount : d.pageCountRc = 0
    · simp only [hsize, hcount, if_true, and_self, mqttCacheGetMemorySize, Option.getD_some, toInt]
      rw [Int.bmod_mul_bmod, Int.mul_bmod_bmod]
    · simp [hsize, hcount, mqttCacheGetMemorySize]
  · simp [hsize, mqttCacheGetMemorySize]

/-- A handle, an empty table, and a buffer with 193 messages. -/
def Depot.filled : Depot :=
  let start : Depot := .start ⟨ascii "pcs", 1, ascii "127.0.0.1", 1883⟩
    ⟨fun _ ↦ default, 0, 0⟩ ⟨fun _ ↦ default, 0, 0⟩ true .empty
  start.setWorld { start.world with
    txbuf := ⟨fun _ ↦ default, 0, 193⟩
    owned := start.world.owned.modifyDev fun dev ↦ { dev with txbufUsage := 193 / 256 * 100 } }

theorem keepsLimit_iff_size (env : ε → Depot → Option Depot) (d : Database) :
    KeepsLimit env d ↔ (d.cacheMemorySize ≤ cacheFileMemorySizeMax →
      d.pageSize * d.pageCount ≤ cacheFileMemorySizeMax) := by
  constructor
  · intro h hsize
    have hspills : Depot.filled.Spills := ⟨rfl, by decide +kernel⟩
    have hheld : Depot.filled.world.held ≠ [] := by
      apply List.ne_nil_of_length_pos
      rw [World.held, RingBuffer.length_contents]
      decide
    obtain ⟨ls, c, e, next, hrun, hcode⟩ := exists_run_to_insert env hspills rfl hheld hsize
    exact h _ ls c e next hrun hcode
  · intro h s ls c e next hrun hcode
    exact h (size_le_of_run hrun hcode)

theorem keepsLimit_iff (env : ε → Depot → Option Depot) (d : Database) :
    KeepsLimit env d ↔ d.pageSize * d.pageCount ≤ cacheFileMemorySizeMax ∨
      (d.pageSizeRc = 0 ∧ d.pageCountRc = 0 ∧
        cacheFileMemorySizeMax < toInt (d.pageSize * d.pageCount)) := by
  rw [keepsLimit_iff_size, cacheMemorySize_eq]
  by_cases hfound : d.pageSizeRc = 0 ∧ d.pageCountRc = 0
  · rw [if_pos hfound, ← and_assoc, and_iff_right hfound]
    omega
  · have hzero : (0 : ℤ) ≤ cacheFileMemorySizeMax := by decide
    rw [if_neg hfound, ← and_assoc, or_iff_left (fun h ↦ hfound h.1)]
    exact ⟨fun h ↦ h hzero, fun h _ ↦ h⟩

/-- A file of 80 MiB, and a query that fails. -/
theorem not_keepsLimit_unknown :
    ¬KeepsLimit (nofun : Empty → Depot → Option Depot)
      ⟨4096, 20480, 0, 1, 0, 0, 0, 0, 0, .empty⟩ := by
  rw [keepsLimit_iff_size]
  decide

end Mqtt
