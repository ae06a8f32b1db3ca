import Mathlib.Data.Set.Basic
import PcsSim.Shm.Exchange

/-!
# Whose answer the tool reports

`shm_init` keeps the counts of semaphores that exist, and a command without a
case leaves `rsp` as it is.
-/

namespace Shm

open Runs Transcripts

variable {I : Type} {w w' : World I} {i : ℕ} {rsp : ℤ} {early : List (Event I)} {H : Set ℤ}

/-- Since tool `i` last wrote a command the server has run it, and stored `rsp`
as the last answer before the copy. -/
def Produced (early : List (Event I)) (i : ℕ) (call : Call) (rsp : ℤ) : Prop :=
  ∃ before between buf after,
    early = before ++ .wrote i call :: (between ++ .copied i call buf :: after) ∧
      (∀ c, .wrote i c ∉ between ++ .copied i call buf :: after) ∧
      ∃ a param work b, between = a ++ .executed call.cmd param work :: .stored rsp :: b ∧
        (∀ p ∈ call.param, param = p) ∧ work.Does call.cmd param ∧ ∀ r, .stored r ∉ b

/-- Every call that returns 0 has in `SHMBUF` the answer to itself. -/
def Fresh (log : List (Event I)) : Prop :=
  ∀ early i call rsp late, log = early ++ .returned i call 0 rsp :: late →
    Produced early i call rsp

/-- The tools send no other commands. -/
def Label.Sends (H : Set ℤ) : Label I → Prop
  | .call _ c => c.cmd ∈ H
  | _ => True

/-- However the tools and the server interleave. -/
def NeverOld (zero : I) (ping pong : Option ℕ) (H : Set ℤ) : Prop :=
  ∀ w, Reaches step (Label.Sends H) (shmInit zero ping pong) w → Fresh w.log

section Commands

def ToolPc.call : ToolPc → Option Call
  | .idle => none
  | .lock call | .writeCmd call | .writeParam call | .postPing call | .waitPong call
  | .copy call | .drainPong call | .unlock call _ => some call

def Event.call : Event I → Option Call
  | .wrote _ call | .copied _ call _ | .returned _ call _ _ => some call
  | _ => none

/-- All calls so far sent commands of `H`. -/
structure Within (H : Set ℤ) (w : World I) : Prop where
  tool : ∀ j, ∀ call ∈ (w.tool j).call, call.cmd ∈ H
  log : ∀ x ∈ w.log, ∀ call ∈ x.call, call.cmd ∈ H

/-- A step of a tool is about the call that it is in. -/
theorem toolSendShmcmd_cases {j : ℕ} (h : toolSendShmcmd j w = some w') :
    ∃ call pc new, (w.tool j).call = some call ∧ (pc.call = none ∨ pc.call = some call) ∧
      w'.tool = Function.update w.tool j pc ∧ w'.log = w.log ++ new ∧
      ∀ x ∈ new, x.call = some call := by
  unfold toolSendShmcmd at h
  cases hpc : w.tool j with
  | idle => simp [hpc] at h
  | lock call =>
      simp only [hpc] at h
      split_ifs at h
      cases h
      exact ⟨call, _, [], rfl, .inr rfl, rfl, by simp [World.goto], by simp⟩
  | writeCmd call =>
      simp only [hpc] at h
      cases h
      exact ⟨call, _, [], rfl, .inr rfl, rfl, by simp [World.goto], by simp⟩
  | writeParam call =>
      simp only [hpc] at h
      cases h
      exact ⟨call, _, [.wrote j call], rfl, .inr rfl, rfl, rfl, by simp [Event.call]⟩
  | postPing call =>
      simp only [hpc] at h
      split at h
      · cases h
        exact ⟨call, _, [], rfl, .inr rfl, rfl, by simp [World.goto], by simp⟩
      · cases h
        exact ⟨call, _, [], rfl, .inr rfl, rfl, by simp [World.goto], by simp⟩
  | waitPong call =>
      simp only [hpc] at h
      split at h
      · cases h
      · cases h
        exact ⟨call, _, [], rfl, .inr rfl, rfl, by simp [World.goto], by simp⟩
  | copy call =>
      simp only [hpc] at h
      cases h
      exact ⟨call, _, [.copied j call w.shm.buf], rfl, .inr rfl, rfl, rfl, by simp [Event.call]⟩
  | drainPong call =>
      simp only [hpc] at h
      split at h
      · cases h
        exact ⟨call, _, [], rfl, .inr rfl, rfl, by simp [World.goto], by simp⟩
      · cases h
        exact ⟨call, .drainPong call, [], rfl, .inr rfl, by simp [← hpc], by simp, by simp⟩
  | unlock call ret =>
      simp only [hpc] at h
      cases h
      exact ⟨call, _, [.returned j call ret (w.shmbuf j).rsp], rfl, .inl rfl, rfl, rfl,
        by simp [Event.call]⟩

/-- The server has no part in the calls. -/
theorem shmThrdMain_cases {image : I} (h : shmThrdMain image rsp w = some w') :
    w'.tool = w.tool ∧ ∃ new, w'.log = w.log ++ new ∧ ∀ x ∈ new, x.call = none := by
  unfold shmThrdMain at h
  split at h
  · split at h
    · cases h
    · cases h
      exact ⟨rfl, [], by simp, by simp⟩
  · split at h
    · cases h
      exact ⟨rfl, [], by simp, by simp⟩
    · cases h
      exact ⟨rfl, [], by simp, by simp⟩
  · cases h
    exact ⟨rfl, [], by simp, by simp⟩
  · cases h
    unfold serve
    split_ifs <;> exact ⟨rfl, [.executed _ w.shm.param _], rfl, by simp [Event.call]⟩
  · cases h
    exact ⟨rfl, [.stored _], rfl, by simp [Event.call]⟩
  · cases h
    exact ⟨rfl, [], by simp, by simp⟩

theorem Within.update {j : ℕ} {pc : ToolPc} {new : List (Event I)} (hw : Within H w)
    (hpc : ∀ call ∈ pc.call, call.cmd ∈ H) (hnew : ∀ x ∈ new, ∀ call ∈ x.call, call.cmd ∈ H)
    (htool : w'.tool = Function.update w.tool j pc) (hlog : w'.log = w.log ++ new) :
    Within H w' where
  tool k call hcall := by
    rw [htool] at hcall
    by_cases hk : k = j
    · rw [hk, Function.update_self] at hcall
      exact hpc call hcall
    · rw [Function.update_of_ne hk] at hcall
      exact hw.tool k call hcall
  log x hx call hcall := by
    rw [hlog] at hx
    rcases List.mem_append.mp hx with hx | hx
    · exact hw.log x hx call hcall
    · exact hnew x hx call hcall

theorem within_step {l : Label I} (hl : l.Sends H) (hw : Within H w) (h : step w l = some w') :
    Within H w' := by
  cases l with
  | server image rsp =>
      obtain ⟨htool, new, hlog, hnew⟩ := shmThrdMain_cases h
      refine hw.update (j := 0) (hw.tool 0) (fun x hx call hcall ↦ ?_) (by simp [htool]) hlog
      rw [hnew x hx] at hcall
      cases hcall
  | tool j =>
      obtain ⟨call, pc, new, hcall, hpc, htool, hlog, hnew⟩ := toolSendShmcmd_cases h
      have hmem : call.cmd ∈ H := hw.tool j call hcall
      refine hw.update (fun call' hcall' ↦ ?_) (fun x hx call' hcall' ↦ ?_) htool hlog
      · rcases hpc with hnone | hsome
        · rw [hnone] at hcall'
          cases hcall'
        · rw [hsome] at hcall'
          cases hcall'
          exact hmem
      · rw [hnew x hx] at hcall'
        cases hcall'
        exact hmem
  | call j call =>
      simp only [step] at h
      split at h
      · cases h
        have hlog : (w.goto j (.lock call)).log = w.log ++ [] := (List.append_nil _).symm
        refine hw.update (fun call' hcall' ↦ ?_) (by simp) rfl hlog
        cases hcall'
        exact hl
      · cases h

theorem within_of_reaches {zero : I} {ping pong : Option ℕ}
    (h : Reaches step (Label.Sends H) (shmInit zero ping pong) w) : Within H w := by
  obtain ⟨ls, hls, hrun⟩ := h
  refine run_invariant_of_always (fun _ _ _ ↦ within_step) (always_of_forall hls _) ?_ hrun
  exact ⟨by simp [shmInit, ToolPc.call], by simp [shmInit]⟩

end Commands

section Fresh

theorem fresh_of_inTurn (hw : InTurn w) (hwithin : Within H w) (hH : ∀ cmd ∈ H, Handled cmd) :
    Fresh w.log := by
  intro early i call rsp late hlog
  have hmem : .returned i call 0 rsp ∈ w.log := by simp [hlog]
  have hcmd : call.cmd ∈ H := hwithin.log _ hmem call rfl
  obtain ⟨es, e, he, rfl, hclose⟩ := hw.exists_exchange hlog
  obtain ⟨rfl, rfl, -, rfl⟩ := Event.returned.inj hclose
  have hanswer := he.answer (hH _ hcmd)
  refine ⟨sections Exchange.body Exchange.close es,
    [.executed e.call.cmd e.param e.work, .stored e.rsp], e.buf, [], ?_, by simp, [], e.param,
    e.work, [], rfl, he.given, he.does, by simp⟩
  simp [Exchange.body, served, hanswer]

theorem fresh_of_within_empty (hwithin : Within ∅ w) : Fresh w.log := by
  intro early i call rsp late hlog
  have hmem : .returned i call 0 rsp ∈ w.log := by simp [hlog]
  exact absurd (hwithin.log _ hmem call rfl) (Set.notMem_empty _)

theorem neverOld_of_handled {zero : I} {ping pong : Option ℕ}
    (h : ∀ cmd ∈ H, semOpen ping = 0 ∧ semOpen pong = 0 ∧ Handled cmd) :
    NeverOld zero ping pong H := by
  intro w hw
  have hwithin := within_of_reaches hw
  rcases H.eq_empty_or_nonempty with rfl | ⟨cmd, hcmd⟩
  · exact fresh_of_within_empty hwithin
  · obtain ⟨hping, hpong, -⟩ := h cmd hcmd
    obtain ⟨ls, -, hrun⟩ := hw
    exact fresh_of_inTurn (inTurn_of_run hping hpong hrun) hwithin fun cmd hcmd ↦ (h cmd hcmd).2.2

end Fresh

section Stale

theorem Produced.stored_mem {call : Call} (h : Produced early i call rsp) :
    .stored rsp ∈ early := by
  obtain ⟨before, between, buf, after, rfl, -, a, param, work, b, rfl, -⟩ := h
  simp

/-- A call returns 0 and no answer was ever stored. -/
theorem not_fresh_of_log {call : Call} (hlog : w.log = early ++ [.returned i call 0 rsp])
    (hstored : ∀ r, .stored r ∉ early) : ¬Fresh w.log := fun hfresh ↦
  hstored rsp (hfresh early i call rsp [] hlog).stored_mem

theorem reaches_drainPing (n : ℕ) :
    Reaches step (Label.Sends H) { w with server := .drainPing, ping := n }
      { w with server := .fetchCmd, ping := 0 } := by
  induction n with
  | zero => exact .single (l := .server w.shm.buf 0) trivial rfl
  | succ n ih => exact .trans (.single (l := .server w.shm.buf 0) trivial rfl) ih

theorem exists_semPost (count : ℕ) : ∃ n, (semPost count).getD count = n + 1 := by
  unfold semPost
  split_ifs with h
  · exact ⟨count, rfl⟩
  · refine ⟨count - 1, ?_⟩
    have hpos : 0 < count := Nat.lt_of_lt_of_le (by decide) (Nat.le_of_not_lt h)
    simp only [Option.getD_none]
    omega

/-- The server takes all pings for one, and answers a command that it has no
case for with a pong alone. -/
theorem reaches_unhandled {n : ℕ} (hserver : w.server = .waitPing) (hping : w.ping = n + 1)
    (hcmd : ¬Handled w.shm.cmd) :
    ∃ w', Reaches step (Label.Sends H) w w' ∧ w'.mutex = w.mutex ∧ w'.tool = w.tool ∧
      w'.ping = 0 ∧ (∃ m, w'.pong = m + 1) ∧
      w'.log = w.log ++ [.executed w.shm.cmd w.shm.param .unknown] := by
  have hwake : Reaches step (Label.Sends H) w { w with server := .drainPing, ping := n } :=
    .single (l := .server w.shm.buf 0) trivial (by simp [step, shmThrdMain, hserver, hping])
  have hserve : Reaches step (Label.Sends H) { w with server := .fetchCmd, ping := 0 }
      { w with
        ping := 0
        pong := (semPost w.pong).getD w.pong
        log := w.log ++ [.executed w.shm.cmd w.shm.param .unknown] } := by
    refine ⟨List.replicate 3 (.server w.shm.buf 0), by simp [Label.Sends], ?_⟩
    unfold Handled at hcmd
    simp only [not_or] at hcmd
    obtain ⟨hfetch, hreset, hdbg, hen⟩ := hcmd
    simp [List.replicate, step, shmThrdMain, serve, World.ran, hfetch, hreset, hdbg, hen,
      ← hserver]
  exact ⟨_, (hwake.trans (reaches_drainPing n)).trans hserve, rfl, rfl, rfl,
    exists_semPost w.pong, rfl⟩

theorem reaches_asked {call : Call} (hcmd : call.cmd ∈ H) (hmutex : w.mutex = none)
    (htool : w.tool 0 = .idle) (hping : w.ping = 0) :
    ∃ w', Reaches step (Label.Sends H) w w' ∧ w'.tool 0 = .waitPong call ∧ w'.ping = 1 ∧
      w'.pong = w.pong ∧ w'.server = w.server ∧ w'.shm.cmd = call.cmd ∧
      w'.log = w.log ++ [.wrote 0 call] := by
  have hrun : ∃ w', run step w (.call 0 call :: List.replicate 4 (.tool 0)) = some w' ∧
      w'.tool 0 = .waitPong call ∧ w'.ping = 1 ∧ w'.pong = w.pong ∧ w'.server = w.server ∧
      w'.shm.cmd = call.cmd ∧ w'.log = w.log ++ [.wrote 0 call] := by
    simp [List.replicate, step, toolSendShmcmd, World.goto, htool, hmutex, hping, semPost,
      semValueMax]
  obtain ⟨w', hrun, hw'⟩ := hrun
  refine ⟨w', ⟨_, ?_, hrun⟩, hw'⟩
  simpa [Label.Sends] using hcmd

theorem reaches_drainPong {call : Call} (htool : w.tool 0 = .drainPong call) :
    ∃ w', Reaches step (Label.Sends H) w w' ∧ w'.tool 0 = .unlock call 0 ∧ w'.log = w.log := by
  induction hpong : w.pong generalizing w with
  | zero =>
      refine ⟨w.goto 0 (.unlock call 0), .single (l := .tool 0) trivial ?_, by simp, rfl⟩
      simp [step, toolSendShmcmd, htool, hpong]
  | succ pong ih =>
      obtain ⟨w', hreach, htool', hlog⟩ := @ih { w with pong := pong } htool rfl
      refine ⟨w', .trans (.single (l := .tool 0) trivial ?_) hreach, htool', hlog⟩
      simp [step, toolSendShmcmd, htool, hpong]

/-- A pong, whoever posted it and why, makes the call return 0. -/
theorem reaches_stale {call : Call} {n : ℕ} (htool : w.tool 0 = .waitPong call)
    (hpong : w.pong = n + 1) (hlog : ∀ r, .stored r ∉ w.log) :
    ∃ w', Reaches step (Label.Sends H) w w' ∧ ¬Fresh w'.log := by
  have hcopied : ∃ w', run step w [.tool 0, .tool 0] = some w' ∧
      w'.tool 0 = .drainPong call ∧ w'.log = w.log ++ [.copied 0 call w.shm.buf] := by
    simp [step, toolSendShmcmd, World.goto, htool, hpong]
  obtain ⟨w₁, hrun, htool₁, hlog₁⟩ := hcopied
  obtain ⟨w₂, hdrain, htool₂, hlog₂⟩ := @reaches_drainPong I w₁ H call htool₁
  have hunlock : step w₂ (.tool 0) = some { w₂.goto 0 .idle with
      mutex := none
      log := w₂.log ++ [.returned 0 call 0 (w₂.shmbuf 0).rsp] } := by
    simp [step, toolSendShmcmd, htool₂]
  have hlast : Reaches step (Label.Sends H) w₂ _ := .single (l := .tool 0) trivial hunlock
  refine ⟨_, .trans ⟨_, by simp [Label.Sends], hrun⟩ (hdrain.trans hlast), ?_⟩
  exact not_fresh_of_log rfl (by simpa [hlog₂, hlog₁] using hlog)

section NeverOld

variable {zero : I} {ping pong : Option ℕ} {cmd : ℤ}

/-- With a pong in store a call returns before the server has run it. -/
theorem NeverOld.pong_eq_zero (h : NeverOld zero ping pong H) (hcmd : cmd ∈ H)
    (hreach : Reaches step (Label.Sends H) (shmInit zero ping pong) w) (hmutex : w.mutex = none)
    (htool : w.tool 0 = .idle) (hping : w.ping = 0) (hlog : ∀ r, .stored r ∉ w.log) :
    w.pong = 0 := by
  by_contra hpong
  obtain ⟨n, hn⟩ := Nat.exists_eq_succ_of_ne_zero hpong
  obtain ⟨w₁, hasked, htool₁, -, hpong₁, -, -, hlog₁⟩ :=
    @reaches_asked I w H ⟨cmd, none⟩ hcmd hmutex htool hping
  obtain ⟨w₂, hstale, hnot⟩ := @reaches_stale I w₁ H _ n htool₁ (hpong₁.trans hn)
    (by simpa [hlog₁] using hlog)
  exact hnot (h w₂ ((hreach.trans hasked).trans hstale))

theorem NeverOld.semOpen_ping (h : NeverOld zero ping pong H) (hcmd : cmd ∈ H) :
    semOpen ping = 0 := by
  by_contra hping
  obtain ⟨n, hn⟩ := Nat.exists_eq_succ_of_ne_zero hping
  obtain ⟨w₁, hstray, hmutex, htool, hping₁, ⟨m, hm⟩, hlog⟩ :=
    @reaches_unhandled I (shmInit zero ping pong) H n rfl hn (show ¬Handled 0 by decide)
  have hpong := h.pong_eq_zero hcmd hstray hmutex (by rw [htool]; rfl) hping₁
    (by simp [hlog, shmInit])
  omega

theorem NeverOld.semOpen_pong (h : NeverOld zero ping pong H) (hcmd : cmd ∈ H) :
    semOpen pong = 0 :=
  h.pong_eq_zero hcmd (.refl _) rfl rfl (h.semOpen_ping hcmd) (by simp [shmInit])

/-- A command without a case returns with the answer that was there. -/
theorem NeverOld.handled (h : NeverOld zero ping pong H) (hcmd : cmd ∈ H) : Handled cmd := by
  by_contra hnot
  obtain ⟨w₁, hasked, htool₁, hping₁, hpong₁, hserver₁, hcmd₁, hlog₁⟩ :=
    @reaches_asked I (shmInit zero ping pong) H ⟨cmd, none⟩ hcmd rfl rfl (h.semOpen_ping hcmd)
  obtain ⟨w₂, hserved, -, htool₂, -, ⟨n, hn⟩, hlog₂⟩ :=
    @reaches_unhandled I w₁ H 0 hserver₁ hping₁ (hcmd₁ ▸ hnot)
  obtain ⟨w₃, hstale, hold⟩ := @reaches_stale I w₂ H _ n (htool₂ ▸ htool₁) hn
    (by simp [hlog₂, hlog₁, shmInit])
  exact hold (h w₃ ((hasked.trans hserved).trans hstale))

/-- The tool reports no old answer exactly when every command that it sends
finds both counts at 0 at the start and has a case in the server. -/
theorem neverOld_iff (zero : I) (ping pong : Option ℕ) (H : Set ℤ) :
    NeverOld zero ping pong H ↔
      ∀ cmd ∈ H, semOpen ping = 0 ∧ semOpen pong = 0 ∧ Handled cmd :=
  ⟨fun h _ hcmd ↦ ⟨h.semOpen_ping hcmd, h.semOpen_pong hcmd, h.handled hcmd⟩,
    neverOld_of_handled⟩

end NeverOld

/-- The answer was stored after some write of this call. -/
theorem Produced.exists_drop {call : Call} (h : Produced early i call rsp) :
    ∃ k < early.length, early[k]? = some (.wrote i call) ∧ .stored rsp ∈ early.drop (k + 1) := by
  obtain ⟨before, between, buf, after, rfl, -, a, param, work, b, rfl, -⟩ := h
  refine ⟨before.length, by simp, by simp, ?_⟩
  rw [List.drop_append]
  simp

/-- A reset fails and is answered, and then a command without a case is sent. -/
def afterReset : List (Label Unit) :=
  .call 0 ⟨cmdChanReset, some ⟨1, 0⟩⟩ :: List.replicate 4 (.tool 0) ++
    List.replicate 6 (.server () (-1)) ++ List.replicate 4 (.tool 0) ++
    .call 0 ⟨102, none⟩ :: List.replicate 4 (.tool 0) ++
    List.replicate 5 (.server () 0) ++ List.replicate 4 (.tool 0)

/-- The second call reports the answer to the first; and a call that finds a
pong returns before the server has run. -/
theorem not_neverOld :
    (∃ w, run step (shmInit () none none) afterReset = some w ∧
      w.log = [.wrote 0 ⟨301, some ⟨1, 0⟩⟩, .executed 301 ⟨1, 0⟩ (.chanReset 1), .stored (-1),
        .copied 0 ⟨301, some ⟨1, 0⟩⟩ (), .returned 0 ⟨301, some ⟨1, 0⟩⟩ 0 (-1),
        .wrote 0 ⟨102, none⟩, .executed 102 ⟨1, 0⟩ .unknown, .copied 0 ⟨102, none⟩ (),
        .returned 0 ⟨102, none⟩ 0 (-1)] ∧ ¬Fresh w.log) ∧
    ∃ w, run step (shmInit () none (some 1)) (.call 0 ⟨302, none⟩ :: List.replicate 8 (.tool 0)) =
        some w ∧
      w.log = [.wrote 0 ⟨302, none⟩, .copied 0 ⟨302, none⟩ (), .returned 0 ⟨302, none⟩ 0 0] ∧
      ¬Fresh w.log := by
  constructor
  · have hlog : (run step (shmInit () none none) afterReset).map World.log =
        some [.wrote 0 ⟨301, some ⟨1, 0⟩⟩, .executed 301 ⟨1, 0⟩ (.chanReset 1), .stored (-1),
          .copied 0 ⟨301, some ⟨1, 0⟩⟩ (), .returned 0 ⟨301, some ⟨1, 0⟩⟩ 0 (-1),
          .wrote 0 ⟨102, none⟩, .executed 102 ⟨1, 0⟩ .unknown, .copied 0 ⟨102, none⟩ (),
          .returned 0 ⟨102, none⟩ 0 (-1)] := by decide +kernel
    obtain ⟨w, hrun, hw⟩ := Option.map_eq_some_iff.mp hlog
    refine ⟨w, hrun, hw, fun hfresh ↦ ?_⟩
    have hproduced := (hfresh [.wrote 0 ⟨301, some ⟨1, 0⟩⟩, .executed 301 ⟨1, 0⟩ (.chanReset 1),
      .stored (-1), .copied 0 ⟨301, some ⟨1, 0⟩⟩ (), .returned 0 ⟨301, some ⟨1, 0⟩⟩ 0 (-1),
      .wrote 0 ⟨102, none⟩, .executed 102 ⟨1, 0⟩ .unknown, .copied 0 ⟨102, none⟩ ()]
      _ _ _ _ hw).exists_drop
    revert hproduced
    decide
  · have hlog : (run step (shmInit () none (some 1))
        (.call 0 ⟨302, none⟩ :: List.replicate 8 (.tool 0))).map World.log =
        some [.wrote 0 ⟨302, none⟩, .copied 0 ⟨302, none⟩ (), .returned 0 ⟨302, none⟩ 0 0] := by
      decide +kernel
    obtain ⟨w, hrun, hw⟩ := Option.map_eq_some_iff.mp hlog
    refine ⟨w, hrun, hw, fun hfresh ↦ ?_⟩
    have hproduced :=
      (hfresh [.wrote 0 ⟨302, none⟩, .copied 0 ⟨302, none⟩ ()] _ _ _ _ hw).exists_drop
    revert hproduced
    decide

end Stale

end Shm
