import Mathlib.Data.List.Forall2
import PcsSim.Lib.Transcript
import PcsSim.Shm.Model

/-!
# One command at a time

From counts of 0 the calls follow one another: each is written, run, copied
and returned before the next is written.
-/

namespace Shm

open Runs Transcripts

variable {I : Type} {w w' : World I} {i : ℕ} {call : Call} {part : List (Event I)}

/-- The case of the command, with the parameter. -/
def Work.Does (cmd : ℤ) (param : ShmParam) : Work I → Prop
  | .fetch _ => cmd = cmdStaFetch
  | .chanSetDbg idx val => cmd = cmdChanSetDbg ∧ idx = param.idx ∧ val = param.val
  | .chanSetEn idx val => cmd = cmdChanSetEn ∧ idx = param.idx ∧ val = param.val
  | .chanReset idx => cmd = cmdChanReset ∧ idx = param.idx
  | .unknown => ¬Handled cmd

/-- A fetch leaves its image in the buffer. -/
def Work.Leaves (buf : I) : Work I → Prop
  | .fetch image => buf = image
  | _ => True

/-- The server had the parameter of the call, did what its case of the command
does, and answered a command that it has a case for. -/
structure Served (call : Call) (param : ShmParam) (work : Work I) (answer : Option ℤ) (rsp : ℤ)
    (buf : I) : Prop where
  given : ∀ p ∈ call.param, param = p
  does : work.Does call.cmd param
  leaves : work.Leaves buf
  answer : Handled call.cmd → answer = some rsp

/-- A call that returned 0, what the server did for it and what the tool has
copied. -/
structure Exchange (I : Type) where
  i : ℕ
  call : Call
  param : ShmParam
  work : Work I
  answer : Option ℤ
  rsp : ℤ
  buf : I

/-- A call and its execution. -/
def served (i : ℕ) (call : Call) (param : ShmParam) (work : Work I) (answer : Option ℤ) :
    List (Event I) :=
  [.wrote i call, .executed call.cmd param work] ++ (answer.map Event.stored).toList

namespace Exchange

def Good (e : Exchange I) : Prop := Served e.call e.param e.work e.answer e.rsp e.buf

def body (e : Exchange I) : List (Event I) :=
  served e.i e.call e.param e.work e.answer ++ [.copied e.i e.call e.buf]

def close (e : Exchange I) : Event I := .returned e.i e.call 0 e.rsp

end Exchange

section Invariant

/-- The command and parameter of the call are in shared memory. -/
structure Asked (shm : ShmT I) (call : Call) : Prop where
  cmd : shm.cmd = call.cmd
  param : ∀ p ∈ call.param, shm.param = p

/-- How far the call of the holder of the mutex is: its place, the two counts,
the place of the server, and the log since the last call. -/
inductive Phase (i : ℕ) (call : Call) (shm shmbuf : ShmT I) :
    ToolPc → ℕ → ℕ → ServerPc → List (Event I) → Prop
  | writeCmd : Phase i call shm shmbuf (.writeCmd call) 0 0 .waitPing []
  | writeParam (hcmd : shm.cmd = call.cmd) :
      Phase i call shm shmbuf (.writeParam call) 0 0 .waitPing []
  | postPing (hasked : Asked shm call) :
      Phase i call shm shmbuf (.postPing call) 0 0 .waitPing [.wrote i call]
  | announced (hasked : Asked shm call) :
      Phase i call shm shmbuf (.waitPong call) 1 0 .waitPing [.wrote i call]
  | drainPing (hasked : Asked shm call) :
      Phase i call shm shmbuf (.waitPong call) 0 0 .drainPing [.wrote i call]
  | fetchCmd (hasked : Asked shm call) :
      Phase i call shm shmbuf (.waitPong call) 0 0 .fetchCmd [.wrote i call]
  | switch (hasked : Asked shm call) :
      Phase i call shm shmbuf (.waitPong call) 0 0 (.switch call.cmd) [.wrote i call]
  | store (param : ShmParam) (work : Work I) (rsp : ℤ)
      (hserved : Served call param work (some rsp) rsp shm.buf) :
      Phase i call shm shmbuf (.waitPong call) 0 0 (.store rsp)
        [.wrote i call, .executed call.cmd param work]
  | postPong (param : ShmParam) (work : Work I) (answer : Option ℤ)
      (hserved : Served call param work answer shm.rsp shm.buf) :
      Phase i call shm shmbuf (.waitPong call) 0 0 .postPong (served i call param work answer)
  | answered (param : ShmParam) (work : Work I) (answer : Option ℤ)
      (hserved : Served call param work answer shm.rsp shm.buf) :
      Phase i call shm shmbuf (.waitPong call) 0 1 .waitPing (served i call param work answer)
  | copy (param : ShmParam) (work : Work I) (answer : Option ℤ)
      (hserved : Served call param work answer shm.rsp shm.buf) :
      Phase i call shm shmbuf (.copy call) 0 0 .waitPing (served i call param work answer)
  | drainPong (param : ShmParam) (work : Work I) (answer : Option ℤ)
      (hserved : Served call param work answer shmbuf.rsp shmbuf.buf) :
      Phase i call shm shmbuf (.drainPong call) 0 0 .waitPing
        (served i call param work answer ++ [.copied i call shmbuf.buf])
  | unlock (param : ShmParam) (work : Work I) (answer : Option ℤ)
      (hserved : Served call param work answer shmbuf.rsp shmbuf.buf) :
      Phase i call shm shmbuf (.unlock call 0) 0 0 .waitPing
        (served i call param work answer ++ [.copied i call shmbuf.buf])

/-- The tool has no part in the exchange. -/
def Outside : ToolPc → Prop
  | .idle => True
  | .lock _ => True
  | _ => False

/-- Nobody holds the mutex and both sides are at rest, or its holder is in some
phase of its call and everybody else outside. -/
inductive Turn (w : World I) : List (Event I) → Prop
  | free (hmutex : w.mutex = none) (hout : ∀ j, Outside (w.tool j)) (hping : w.ping = 0)
      (hpong : w.pong = 0) (hserver : w.server = .waitPing) : Turn w []
  | held (i : ℕ) (call : Call) (part : List (Event I)) (hmutex : w.mutex = some i)
      (hout : ∀ j, j ≠ i → Outside (w.tool j))
      (hphase : Phase i call w.shm (w.shmbuf i) (w.tool i) w.ping w.pong w.server part) :
      Turn w part

theorem Turn.of_phase {pc : ToolPc} (hmutex : w.mutex = some i)
    (hout : ∀ j, j ≠ i → Outside (w.tool j)) (hpc : w.tool i = pc)
    (hphase : Phase i call w.shm (w.shmbuf i) pc w.ping w.pong w.server part) : Turn w part := by
  subst hpc
  exact .held i call part hmutex hout hphase

/-- The holder has gone on without a new entry. -/
theorem Turn.silent (hlog : w'.log = w.log) (hturn : Turn w' part) :
    ∃ new, w'.log = w.log ++ new ∧ Turn w' (part ++ new) :=
  ⟨[], by rw [List.append_nil, hlog], by rwa [List.append_nil]⟩

theorem turn_server {image : I} {rsp : ℤ} (hturn : Turn w part)
    (h : shmThrdMain image rsp w = some w') :
    ∃ new, w'.log = w.log ++ new ∧ Turn w' (part ++ new) := by
  cases hturn with
  | free hmutex hout hping hpong hserver => simp [shmThrdMain, hserver, hping] at h
  | held i call part hmutex hout hphase =>
      obtain ⟨mutex, ping, pong, shm, server, tool, shmbuf, log⟩ := w
      simp only at hmutex hout hphase
      generalize hpc : tool i = pc at hphase
      have hheld : ∀ {ping pong shm server log part},
          Phase i call shm (shmbuf i) pc ping pong server part →
          Turn ⟨mutex, ping, pong, shm, server, tool, shmbuf, log⟩ part := fun hphase ↦
        .of_phase hmutex hout hpc hphase
      cases hphase with
      | writeCmd => simp [shmThrdMain] at h
      | writeParam hcmd => simp [shmThrdMain] at h
      | postPing hasked => simp [shmThrdMain] at h
      | announced hasked =>
          cases h
          exact (hheld (.drainPing hasked)).silent rfl
      | drainPing hasked =>
          cases h
          exact (hheld (.fetchCmd hasked)).silent rfl
      | fetchCmd hasked =>
          cases h
          rw [hasked.cmd]
          exact (hheld (.switch hasked)).silent rfl
      | switch hasked =>
          cases h
          have hstore : ∀ {w'} work rsp, w' = World.ran ⟨mutex, 0, 0, shm, .switch call.cmd, tool,
              shmbuf, log⟩ call.cmd work (.store rsp) → work.Does call.cmd shm.param →
              work.Leaves shm.buf →
              ∃ new, w'.log = log ++ new ∧ Turn w' ([.wrote i call] ++ new) := by
            rintro _ work rsp rfl hdoes hleaves
            exact ⟨_, rfl, hheld (.store shm.param work rsp
              ⟨hasked.param, hdoes, hleaves, fun _ ↦ rfl⟩)⟩
          unfold serve
          split_ifs with hfetch hdbg hen hreset
          · exact ⟨_, rfl, hheld (.store shm.param (.fetch image) 0
              ⟨hasked.param, hfetch, rfl, fun _ ↦ rfl⟩)⟩
          · exact hstore _ _ rfl ⟨hdbg, rfl, rfl⟩ trivial
          · exact hstore _ _ rfl ⟨hen, rfl, rfl⟩ trivial
          · exact hstore _ _ rfl ⟨hreset, rfl⟩ trivial
          · have hunknown : ¬Handled call.cmd := by
              unfold Handled
              tauto
            exact ⟨_, rfl, hheld (.postPong shm.param .unknown none
              ⟨hasked.param, hunknown, trivial, fun hhandled ↦ absurd hhandled hunknown⟩)⟩
      | store param work rsp hserved =>
          cases h
          exact ⟨[.stored rsp], rfl, hheld (.postPong param work (some rsp) hserved)⟩
      | postPong param work answer hserved =>
          cases h
          exact (hheld (.answered param work answer hserved)).silent rfl
      | answered param work answer hserved => simp [shmThrdMain] at h
      | copy param work answer hserved => simp [shmThrdMain] at h
      | drainPong param work answer hserved => simp [shmThrdMain] at h
      | unlock param work answer hserved => simp [shmThrdMain] at h

@[simp] theorem goto_tool_self (w : World I) (i : ℕ) (pc : ToolPc) :
    (w.goto i pc).tool i = pc := Function.update_self ..

theorem goto_tool_of_ne {j : ℕ} (h : j ≠ i) (w : World I) (pc : ToolPc) :
    (w.goto i pc).tool j = w.tool j := Function.update_of_ne h ..

theorem outside_goto {pc : ToolPc} {j : ℕ} (hpc : Outside pc)
    (hj : j ≠ i → Outside (w.tool j)) : Outside ((w.goto i pc).tool j) := by
  by_cases h : j = i
  · rw [h, goto_tool_self]
    exact hpc
  · rw [goto_tool_of_ne h]
    exact hj h

/-- A tool outside moves only to take the mutex that is free. -/
theorem turn_lock {j : ℕ} (hturn : Turn w part) (hout : Outside (w.tool j))
    (h : toolSendShmcmd j w = some w') : w'.log = w.log ∧ Turn w' part := by
  unfold toolSendShmcmd at h
  cases hpc : w.tool j with
  | lock call =>
      simp only [hpc] at h
      split_ifs at h with hmutex
      cases h
      cases hturn with
      | free _ hout hping hpong hserver =>
          have hphase : Phase j call w.shm (w.shmbuf j) (.writeCmd call) w.ping w.pong
              w.server [] := by
            rw [hping, hpong, hserver]
            exact .writeCmd
          refine ⟨rfl, .of_phase rfl (fun k hk ↦ ?_) (goto_tool_self w j _) hphase⟩
          exact goto_tool_of_ne hk w _ ▸ hout k
      | held i call part hheld => simp [hmutex] at hheld
  | _ => simp [hpc, Outside] at h hout

/-- A call from outside joins those who wait for the mutex. -/
theorem turn_call {j : ℕ} {call : Call} (hturn : Turn w part) (hidle : w.tool j = .idle) :
    Turn (w.goto j (.lock call)) part := by
  cases hturn with
  | free hmutex hout hping hpong hserver =>
      exact .free hmutex (fun k ↦ outside_goto trivial fun _ ↦ hout k) hping hpong hserver
  | held i call' part hmutex hout hphase =>
      have hij : i ≠ j := by
        rintro rfl
        rw [hidle] at hphase
        cases hphase
      exact .of_phase hmutex (fun k hki ↦ outside_goto trivial fun _ ↦ hout k hki)
        (goto_tool_of_ne hij w _) hphase

/-- The holder adds to the log of its call, or closes it. -/
theorem turn_holder {pc : ToolPc} (hmutex : w.mutex = some i)
    (hout : ∀ j, j ≠ i → Outside (w.tool j)) (hpc : w.tool i = pc)
    (hphase : Phase i call w.shm (w.shmbuf i) pc w.ping w.pong w.server part)
    (h : toolSendShmcmd i w = some w') :
    (∃ new, w'.log = w.log ++ new ∧ Turn w' (part ++ new)) ∨
      ∃ e : Exchange I, e.Good ∧ part = e.body ∧ w'.log = w.log ++ [e.close] ∧ Turn w' [] := by
  unfold toolSendShmcmd at h
  simp only [hpc] at h
  have hout' : ∀ pc j, j ≠ i → Outside ((w.goto i pc).tool j) := fun pc j hj ↦
    goto_tool_of_ne hj w pc ▸ hout j hj
  obtain ⟨mutex, ping, pong, shm, server, tool, shmbuf, log⟩ := w
  simp only at hphase
  have hself := fun pc ↦ goto_tool_self (World.mk mutex ping pong shm server tool shmbuf log) i pc
  cases hphase with
  | writeCmd =>
      cases h
      exact .inl (Turn.silent rfl (.of_phase hmutex (hout' _) (hself _) (.writeParam rfl)))
  | writeParam hcmd =>
      cases h
      refine .inl ⟨[.wrote i call], rfl, ?_⟩
      refine .of_phase hmutex (hout' _) (hself _) (.postPing ⟨hcmd, fun p hp ↦ ?_⟩)
      change call.param.getD shm.param = p
      rw [Option.mem_def.mp hp, Option.getD_some]
  | postPing hasked =>
      cases h
      exact .inl (Turn.silent rfl (.of_phase hmutex (hout' _) (hself _) (.announced hasked)))
  | announced hasked => cases h
  | drainPing hasked => cases h
  | fetchCmd hasked => cases h
  | switch hasked => cases h
  | store param work rsp hserved => cases h
  | postPong param work answer hserved => cases h
  | answered param work answer hserved =>
      cases h
      exact .inl (Turn.silent rfl
        (.of_phase hmutex (hout' _) (hself _) (.copy param work answer hserved)))
  | copy param work answer hserved =>
      cases h
      refine .inl ⟨[.copied i call shm.buf], rfl, ?_⟩
      have hbuf : Function.update shmbuf i shm i = shm := Function.update_self ..
      have hphase : Phase i call shm (Function.update shmbuf i shm i) (.drainPong call) 0 0
          .waitPing (served i call param work answer ++ [.copied i call shm.buf]) := by
        rw [hbuf]
        exact .drainPong param work answer hserved
      exact .of_phase hmutex (hout' _) (hself _) hphase
  | drainPong param work answer hserved =>
      cases h
      exact .inl (Turn.silent rfl
        (.of_phase hmutex (hout' _) (hself _) (.unlock param work answer hserved)))
  | unlock param work answer hserved =>
      cases h
      refine .inr ⟨⟨i, call, param, work, answer, (shmbuf i).rsp, (shmbuf i).buf⟩, hserved, rfl,
        rfl, ?_⟩
      exact .free rfl (fun j ↦ outside_goto trivial (hout j)) rfl rfl rfl

/-- The log is that of complete exchanges and of the one that is under way. -/
def InTurn (w : World I) : Prop :=
  ∃ es part, (∀ e ∈ es, Exchange.Good e) ∧
    w.log = sections Exchange.body Exchange.close es ++ part ∧ Turn w part

theorem inTurn_of_new {es : List (Exchange I)} (hgood : ∀ e ∈ es, e.Good)
    (hlog : w.log = sections Exchange.body Exchange.close es ++ part)
    (h : ∃ new, w'.log = w.log ++ new ∧ Turn w' (part ++ new)) : InTurn w' := by
  obtain ⟨new, hnew, hturn⟩ := h
  exact ⟨es, part ++ new, hgood, by rw [hnew, hlog, List.append_assoc], hturn⟩

theorem inTurn_tool {j : ℕ} (hw : InTurn w) (h : toolSendShmcmd j w = some w') : InTurn w' := by
  obtain ⟨es, part, hgood, hlog, hturn⟩ := hw
  by_cases hout : Outside (w.tool j)
  · obtain ⟨hlog', hturn'⟩ := turn_lock hturn hout h
    exact ⟨es, part, hgood, hlog'.trans hlog, hturn'⟩
  · cases hturn with
    | free _ hfree => exact absurd (hfree j) hout
    | held i call part hmutex hrest hphase =>
        obtain rfl : j = i := not_not.mp (mt (hrest j) hout)
        rcases turn_holder hmutex hrest rfl hphase h with hnew | ⟨e, he, hpart, hclose, hturn⟩
        · exact inTurn_of_new hgood hlog hnew
        · refine ⟨es ++ [e], [], ?_, ?_, hturn⟩
          · intro e' he'
            rcases List.mem_append.mp he' with hes | hlast
            · exact hgood e' hes
            · exact List.mem_singleton.mp hlast ▸ he
          · rw [hclose, hlog, hpart, sections_concat, List.append_nil]

theorem inTurn_step {l : Label I} (hw : InTurn w) (h : step w l = some w') : InTurn w' := by
  cases l with
  | server image rsp =>
      obtain ⟨es, part, hgood, hlog, hturn⟩ := hw
      exact inTurn_of_new hgood hlog (turn_server hturn h)
  | tool j => exact inTurn_tool hw h
  | call j call =>
      obtain ⟨es, part, hgood, hlog, hturn⟩ := hw
      simp only [step] at h
      split at h
      · cases h
        exact ⟨es, part, hgood, hlog, turn_call hturn ‹_›⟩
      · cases h

theorem inTurn_shmInit {zero : I} {ping pong : Option ℕ} (hping : semOpen ping = 0)
    (hpong : semOpen pong = 0) : InTurn (shmInit zero ping pong) :=
  ⟨[], [], by simp, rfl, .free rfl (fun _ ↦ trivial) hping hpong rfl⟩

theorem inTurn_of_run {zero : I} {ping pong : Option ℕ} {ls : List (Label I)}
    (hping : semOpen ping = 0) (hpong : semOpen pong = 0)
    (hrun : run step (shmInit zero ping pong) ls = some w) : InTurn w :=
  run_invariant (fun _ _ _ ↦ inTurn_step) (inTurn_shmInit hping hpong) hrun

end Invariant

section ExactlyOnce

def Event.written : Event I → Option Call
  | .wrote _ call => some call
  | _ => none

/-- What the server found, and what it did. -/
structure Execution (I : Type) where
  cmd : ℤ
  param : ShmParam
  work : Work I

def Event.execution : Event I → Option (Execution I)
  | .executed cmd param work => some ⟨cmd, param, work⟩
  | _ => none

def Event.Returns : Event I → Prop
  | .returned .. => True
  | _ => False

/-- The server has run the case of the command of the call, with its parameter if
it has one. -/
structure Call.RunAs (call : Call) (x : Execution I) : Prop where
  cmd : x.cmd = call.cmd
  param : ∀ p ∈ call.param, x.param = p
  does : x.work.Does x.cmd x.param

structure ExactlyOnce (log : List (Event I)) : Prop where
  /-- Between the write and the copy of a call that returns 0 the server runs
  one command, its own, and the copy has what a fetch has left. -/
  own : ∀ early i call rsp late, log = early ++ .returned i call 0 rsp :: late →
    ∃ before between buf,
      early = before ++ .wrote i call :: (between ++ [.copied i call buf]) ∧
      between.filterMap Event.written = [] ∧
      ∃ x, between.filterMap Event.execution = [x] ∧ call.RunAs x ∧ x.work.Leaves buf
  /-- The server runs what is written, in the order of writing; one command at
  most is waiting. -/
  inTurn : ∃ done pending, log.filterMap Event.written = done ++ pending ∧
    pending.length ≤ 1 ∧ List.Forall₂ Call.RunAs done (log.filterMap Event.execution)
  returnsZero : ∀ i call ret rsp, .returned i call ret rsp ∈ log → ret = 0

structure Event.Quiet (x : Event I) : Prop where
  written : x.written = none
  execution : x.execution = none
  returns : ¬x.Returns

theorem quiet_copied (i : ℕ) (call : Call) (buf : I) : (Event.copied i call buf).Quiet :=
  ⟨rfl, rfl, id⟩

theorem quiet_answer (answer : Option ℤ) :
    ∀ x ∈ (answer.map (Event.stored (I := I))).toList, x.Quiet := by
  cases answer with
  | none => simp
  | some rsp =>
      intro x hx
      rw [List.mem_singleton.mp hx]
      exact ⟨rfl, rfl, id⟩

theorem quiet_answer_copied (i : ℕ) (call : Call) (answer : Option ℤ) (buf : I) :
    ∀ x ∈ (answer.map Event.stored).toList ++ [.copied i call buf], x.Quiet := by
  intro x hx
  rcases List.mem_append.mp hx with hanswer | hcopied
  · exact quiet_answer answer x hanswer
  · rw [List.mem_singleton.mp hcopied]
    exact quiet_copied i call buf

theorem filterMap_quiet {tail : List (Event I)} (htail : ∀ x ∈ tail, x.Quiet) :
    tail.filterMap Event.written = [] ∧ tail.filterMap Event.execution = [] :=
  ⟨List.filterMap_eq_nil_iff.mpr fun x hx ↦ (htail x hx).written,
    List.filterMap_eq_nil_iff.mpr fun x hx ↦ (htail x hx).execution⟩

/-- What the call under way has put into the log. -/
inductive Part : List (Event I) → Prop
  | nothing : Part []
  | asked (i : ℕ) (call : Call) : Part [.wrote i call]
  | executed (i : ℕ) (call : Call) (param : ShmParam) (work : Work I) (tail : List (Event I))
      (hparam : ∀ p ∈ call.param, param = p) (hdoes : work.Does call.cmd param)
      (htail : ∀ x ∈ tail, x.Quiet) :
      Part (.wrote i call :: .executed call.cmd param work :: tail)

section Parts

variable {answer : Option ℤ} {param : ShmParam} {work : Work I} {rsp : ℤ} {buf : I}

theorem part_served (hserved : Served call param work answer rsp buf) :
    Part (served i call param work answer) :=
  .executed i call param work _ hserved.given hserved.does (quiet_answer answer)

theorem part_copied (hserved : Served call param work answer rsp buf) :
    Part (served i call param work answer ++ [.copied i call buf]) :=
  .executed i call param work _ hserved.given hserved.does
    (quiet_answer_copied i call answer buf)

end Parts

theorem Phase.isPart {shm shmbuf : ShmT I} {pc : ToolPc} {ping pong : ℕ} {server : ServerPc}
    (h : Phase i call shm shmbuf pc ping pong server part) : Part part := by
  cases h with
  | writeCmd | writeParam => exact .nothing
  | postPing | announced | drainPing | fetchCmd | switch => exact .asked i call
  | store param work rsp hserved =>
      exact .executed i call param work [] hserved.given hserved.does (by simp)
  | postPong param work answer hserved => exact part_served hserved
  | answered param work answer hserved => exact part_served hserved
  | copy param work answer hserved => exact part_served hserved
  | drainPong param work answer hserved => exact part_copied hserved
  | unlock param work answer hserved => exact part_copied hserved

theorem Turn.isPart (hturn : Turn w part) : Part part := by
  cases hturn with
  | free => exact .nothing
  | held i call part hmutex hout hphase => exact hphase.isPart

theorem Part.not_returns (h : Part part) : ∀ x ∈ part, ¬x.Returns := by
  cases h with
  | nothing => simp
  | asked i call =>
      intro x hx
      rw [List.mem_singleton.mp hx]
      exact id
  | executed i call param work tail hparam hdoes htail =>
      intro x hx
      rcases List.mem_cons.mp hx with rfl | hx
      · exact id
      rcases List.mem_cons.mp hx with rfl | hx
      · exact id
      exact (htail x hx).returns

theorem Part.inTurn (h : Part part) : ∃ done pending,
    part.filterMap Event.written = done ++ pending ∧ pending.length ≤ 1 ∧
      List.Forall₂ Call.RunAs done (part.filterMap Event.execution) := by
  cases h with
  | nothing => exact ⟨[], [], rfl, by simp, .nil⟩
  | asked i call => exact ⟨[], [call], rfl, Nat.le_refl 1, .nil⟩
  | executed i call param work tail hparam hdoes htail =>
      obtain ⟨hwritten, hexecution⟩ := filterMap_quiet htail
      refine ⟨[call], [], ?_, by simp, ?_⟩
      · exact congrArg (call :: ·) hwritten
      · change List.Forall₂ Call.RunAs [call]
          (⟨call.cmd, param, work⟩ :: tail.filterMap Event.execution)
        rw [hexecution]
        exact .cons ⟨rfl, hparam, hdoes⟩ .nil

def Exchange.execution (e : Exchange I) : Execution I := ⟨e.call.cmd, e.param, e.work⟩

theorem Exchange.Good.runAs {e : Exchange I} (he : e.Good) : e.call.RunAs e.execution :=
  ⟨rfl, he.given, he.does⟩

theorem Exchange.filterMap_body (e : Exchange I) :
    e.body.filterMap Event.written = [e.call] ∧
      e.body.filterMap Event.execution = [e.execution] := by
  obtain ⟨hwritten, hexecution⟩ :=
    filterMap_quiet (quiet_answer_copied e.i e.call e.answer e.buf)
  exact ⟨congrArg (e.call :: ·) hwritten, congrArg (e.execution :: ·) hexecution⟩

theorem forall₂_sections {es : List (Exchange I)} (hes : ∀ e ∈ es, e.Good) :
    List.Forall₂ Call.RunAs
      ((sections Exchange.body Exchange.close es).filterMap Event.written)
      ((sections Exchange.body Exchange.close es).filterMap Event.execution) := by
  induction es with
  | nil => exact .nil
  | cons e es ih =>
      obtain ⟨hwritten, hexecution⟩ := e.filterMap_body
      rw [sections_cons, List.filterMap_append, List.filterMap_append, hwritten, hexecution]
      exact .cons (hes e List.mem_cons_self).runAs
        (ih fun e he ↦ hes e (List.mem_cons_of_mem _ he))

/-- A call that returned 0 closes the exchange before it. -/
theorem InTurn.exists_exchange {early late : List (Event I)} {ret rsp : ℤ} (hw : InTurn w)
    (hlog : w.log = early ++ .returned i call ret rsp :: late) :
    ∃ es e, Exchange.Good e ∧ early = sections Exchange.body Exchange.close es ++ e.body ∧
      .returned i call ret rsp = e.close := by
  obtain ⟨es, part, hgood, hes, hturn⟩ := hw
  have hreturns : Event.Returns (.returned (I := I) i call ret rsp) := trivial
  obtain ⟨done, e, rest, rfl, hearly, hclose⟩ := exists_section
    (fun e he ↦ (part_copied (hgood e he)).not_returns) hturn.isPart.not_returns hreturns
    (hes.symm.trans hlog)
  exact ⟨done, e, hgood e (by simp), hearly, hclose⟩

theorem InTurn.exactlyOnce (hw : InTurn w) : ExactlyOnce w.log where
  own := by
    intro early i call rsp late hlog
    obtain ⟨es, e, he, rfl, hclose⟩ := hw.exists_exchange hlog
    obtain ⟨rfl, rfl, -, rfl⟩ := Event.returned.inj hclose
    obtain ⟨hwritten, hexecution⟩ := filterMap_quiet (quiet_answer (I := I) e.answer)
    refine ⟨sections Exchange.body Exchange.close es,
      .executed e.call.cmd e.param e.work :: (e.answer.map Event.stored).toList, e.buf, rfl,
      hwritten, e.execution, ?_, he.runAs, he.leaves⟩
    exact congrArg (e.execution :: ·) hexecution
  inTurn := by
    obtain ⟨es, part, hgood, hlog, hturn⟩ := hw
    obtain ⟨done, pending, hwritten, hpending, hdone⟩ := hturn.isPart.inTurn
    refine ⟨(sections Exchange.body Exchange.close es).filterMap Event.written ++ done,
      pending, ?_, hpending, ?_⟩
    · rw [hlog, List.filterMap_append, hwritten, List.append_assoc]
    · rw [hlog, List.filterMap_append]
      exact List.rel_append (forall₂_sections hgood) hdone
  returnsZero := by
    intro i call ret rsp hmem
    obtain ⟨early, late, hlog⟩ := List.append_of_mem hmem
    obtain ⟨es, e, -, -, hclose⟩ := hw.exists_exchange hlog
    exact (Event.returned.inj hclose).2.2.1

/-- From counts of 0, in every interleaving of the tools with the server. -/
theorem exactlyOnce_of_run {zero : I} {ping pong : Option ℕ} {ls : List (Label I)}
    (hping : semOpen ping = 0) (hpong : semOpen pong = 0)
    (hrun : run step (shmInit zero ping pong) ls = some w) : ExactlyOnce w.log :=
  (inTurn_of_run hping hpong hrun).exactlyOnce

/-- Tool 1 waits for the mutex while tool 0 is served. -/
def twoCalls : List (Label ℕ) :=
  [.call 0 ⟨cmdChanSetDbg, some ⟨1, 1⟩⟩, .tool 0, .call 1 ⟨cmdStaFetch, none⟩] ++
    List.replicate 3 (.tool 0) ++ List.replicate 6 (.server 7 0) ++
    List.replicate 4 (.tool 0) ++ List.replicate 4 (.tool 1) ++
    List.replicate 6 (.server 8 0) ++ List.replicate 4 (.tool 1)

theorem exactlyOnce_two : ∃ w, run step (shmInit 0 none none) twoCalls = some w ∧
    w.log = [.wrote 0 ⟨302, some ⟨1, 1⟩⟩, .executed 302 ⟨1, 1⟩ (.chanSetDbg 1 1), .stored 0,
      .copied 0 ⟨302, some ⟨1, 1⟩⟩ 0, .returned 0 ⟨302, some ⟨1, 1⟩⟩ 0 0,
      .wrote 1 ⟨101, none⟩, .executed 101 ⟨1, 1⟩ (.fetch 8), .stored 0,
      .copied 1 ⟨101, none⟩ 8, .returned 1 ⟨101, none⟩ 0 0] ∧ ExactlyOnce w.log := by
  have hlog : (run step (shmInit 0 none none) twoCalls).map World.log =
      some [.wrote 0 ⟨302, some ⟨1, 1⟩⟩, .executed 302 ⟨1, 1⟩ (.chanSetDbg 1 1), .stored 0,
        .copied 0 ⟨302, some ⟨1, 1⟩⟩ 0, .returned 0 ⟨302, some ⟨1, 1⟩⟩ 0 0,
        .wrote 1 ⟨101, none⟩, .executed 101 ⟨1, 1⟩ (.fetch 8), .stored 0,
        .copied 1 ⟨101, none⟩ 8, .returned 1 ⟨101, none⟩ 0 0] := by decide +kernel
  obtain ⟨w, hrun, hw⟩ := Option.map_eq_some_iff.mp hlog
  exact ⟨w, hrun, hw, exactlyOnce_of_run rfl rfl hrun⟩

end ExactlyOnce

end Shm
