import Mathlib.Data.Int.Notation
import Mathlib.Logic.Function.Basic
import PcsSim.Lib.Runs

/-!
# The shared memory of the program and its tool

The program answers the commands that tool processes write into shared
memory.  A call holds the mutex; one semaphore announces a command and the
other its answer.  Both sides name the same two semaphores here.

`log` records what happened; no code reads it.
-/

namespace Shm

/-- What the server reads of `struct shmparam_t`. -/
structure ShmParam where
  idx : ℤ
  val : ℤ
deriving DecidableEq

/-- `struct shm_t`, without its mutex; `I` is the type of the images of `MDL`. -/
structure ShmT (I : Type) where
  cmd : ℤ
  rsp : ℤ
  param : ShmParam
  buf : I

def cmdStaFetch : ℤ := 101
def cmdChanReset : ℤ := 301
def cmdChanSetDbg : ℤ := 302
def cmdChanSetEn : ℤ := 303

/-- The commands that `shm_thrd_main` has a case for. -/
def Handled (cmd : ℤ) : Prop :=
  cmd = cmdStaFetch ∨ cmd = cmdChanReset ∨ cmd = cmdChanSetDbg ∨ cmd = cmdChanSetEn

instance (cmd : ℤ) : Decidable (Handled cmd) := by
  unfold Handled
  infer_instance

def semValueMax : ℕ := 2147483647

/-- `sem_post`, or nothing if it fails. -/
def semPost (count : ℕ) : Option ℕ :=
  if count < semValueMax then some (count + 1) else none

/-- The count after `sem_open`, where `existing` is that of a semaphore of this
name: a new one has 0. -/
def semOpen (existing : Option ℕ) : ℕ := existing.getD 0

/-- The arguments of `tool_send_shmcmd`. -/
structure Call where
  cmd : ℤ
  param : Option ShmParam
deriving DecidableEq

/-- Where `shm_thrd_main` is. -/
inductive ServerPc
  | waitPing
  | drainPing
  | fetchCmd
  | switch (cmd : ℤ)
  | store (rsp : ℤ)
  | postPong
deriving DecidableEq

/-- Where a tool process is in `tool_send_shmcmd`. -/
inductive ToolPc
  | idle
  | lock (call : Call)
  | writeCmd (call : Call)
  | writeParam (call : Call)
  | postPing (call : Call)
  | waitPong (call : Call)
  | copy (call : Call)
  | drainPong (call : Call)
  | unlock (call : Call) (ret : ℤ)
deriving DecidableEq

/-- What the cases of the `switch` do. -/
inductive Work (I : Type)
  /-- the image of `MDL` is copied to the buffer -/
  | fetch (image : I)
  | chanSetDbg (idx val : ℤ)
  | chanSetEn (idx val : ℤ)
  | chanReset (idx : ℤ)
  /-- the command is reported as unknown -/
  | unknown
deriving DecidableEq

inductive Event (I : Type)
  /-- tool `i` has written its command and parameter -/
  | wrote (i : ℕ) (call : Call)
  /-- a case has run, with this command and parameter in shared memory -/
  | executed (cmd : ℤ) (param : ShmParam) (work : Work I)
  /-- the server has stored an answer -/
  | stored (rsp : ℤ)
  /-- tool `i` has copied the shared memory, whose buffer holds `buf` -/
  | copied (i : ℕ) (call : Call) (buf : I)
  /-- a call has returned `ret`, with `rsp` in `SHMBUF` -/
  | returned (i : ℕ) (call : Call) (ret rsp : ℤ)
deriving DecidableEq

structure World (I : Type) where
  mutex : Option ℕ
  ping : ℕ
  pong : ℕ
  shm : ShmT I
  server : ServerPc
  tool : ℕ → ToolPc
  /-- the `SHMBUF` of each tool -/
  shmbuf : ℕ → ShmT I
  log : List (Event I)

variable {I : Type}

def World.goto (w : World I) (i : ℕ) (pc : ToolPc) : World I :=
  { w with tool := Function.update w.tool i pc }

/-- A case that has done `work` goes on at `server`. -/
def World.ran (w : World I) (cmd : ℤ) (work : Work I) (server : ServerPc) : World I :=
  { w with server := server, log := w.log ++ [.executed cmd w.shm.param work] }

/-- The cases of the `switch`.  `image` is what `MDL` holds, and `rsp` what the
function of the channel returns. -/
def serve (image : I) (rsp cmd : ℤ) (w : World I) : World I :=
  let param := w.shm.param
  if cmd = cmdStaFetch then
    { w.ran cmd (.fetch image) (.store 0) with shm := { w.shm with buf := image } }
  else if cmd = cmdChanSetDbg then w.ran cmd (.chanSetDbg param.idx param.val) (.store rsp)
  else if cmd = cmdChanSetEn then w.ran cmd (.chanSetEn param.idx param.val) (.store rsp)
  else if cmd = cmdChanReset then w.ran cmd (.chanReset param.idx) (.store rsp)
  else w.ran cmd .unknown .postPong

/-- The next step of `shm_thrd_main`, unless it waits. -/
def shmThrdMain (image : I) (rsp : ℤ) (w : World I) : Option (World I) :=
  match w.server with
  | .waitPing =>
    match w.ping with
    | 0 => none
    | ping + 1 => some { w with ping := ping, server := .drainPing }
  | .drainPing =>
    match w.ping with
    | 0 => some { w with server := .fetchCmd }
    | ping + 1 => some { w with ping := ping }
  | .fetchCmd => some { w with server := .switch w.shm.cmd }
  | .switch cmd => some (serve image rsp cmd w)
  | .store rsp =>
    some { w with
      shm := { w.shm with rsp := rsp }
      server := .postPong
      log := w.log ++ [.stored rsp] }
  | .postPong =>
    some { w with pong := (semPost w.pong).getD w.pong, server := .waitPing }

/-- The next step of tool `i` in `tool_send_shmcmd`, unless it waits. -/
def toolSendShmcmd (i : ℕ) (w : World I) : Option (World I) :=
  match w.tool i with
  | .idle => none
  | .lock call =>
    if w.mutex = none then some { w.goto i (.writeCmd call) with mutex := some i } else none
  | .writeCmd call =>
    some { w.goto i (.writeParam call) with shm := { w.shm with cmd := call.cmd } }
  | .writeParam call =>
    some { w.goto i (.postPing call) with
      shm := { w.shm with param := call.param.getD w.shm.param }
      log := w.log ++ [.wrote i call] }
  | .postPing call =>
    match semPost w.ping with
    | none => some (w.goto i (.unlock call (-1)))
    | some ping => some { w.goto i (.waitPong call) with ping := ping }
  | .waitPong call =>
    match w.pong with
    | 0 => none
    | pong + 1 => some { w.goto i (.copy call) with pong := pong }
  | .copy call =>
    -- `rc` is still that of `sem_post`, so `ret` stays 0
    some { w.goto i (.drainPong call) with
      shmbuf := Function.update w.shmbuf i w.shm
      log := w.log ++ [.copied i call w.shm.buf] }
  | .drainPong call =>
    match w.pong with
    | 0 => some (w.goto i (.unlock call 0))
    | pong + 1 => some { w with pong := pong }
  | .unlock call ret =>
    some { w.goto i .idle with
      mutex := none
      log := w.log ++ [.returned i call ret (w.shmbuf i).rsp] }

inductive Label (I : Type)
  | server (image : I) (rsp : ℤ)
  | tool (i : ℕ)
  /-- tool `i` calls `tool_send_shmcmd` -/
  | call (i : ℕ) (call : Call)

def step (w : World I) : Label I → Option (World I)
  | .server image rsp => shmThrdMain image rsp w
  | .tool i => toolSendShmcmd i w
  | .call i call =>
    match w.tool i with
    | .idle => some (w.goto i (.lock call))
    | _ => none

/-- After `shm_init`, with the counts of the semaphores that exist already;
`zero` is the buffer after `memset`. -/
def shmInit (zero : I) (ping pong : Option ℕ) : World I where
  mutex := none
  ping := semOpen ping
  pong := semOpen pong
  shm := ⟨0, 0, ⟨0, 0⟩, zero⟩
  server := .waitPing
  tool _ := .idle
  shmbuf _ := ⟨0, 0, ⟨0, 0⟩, zero⟩
  log := []

end Shm
