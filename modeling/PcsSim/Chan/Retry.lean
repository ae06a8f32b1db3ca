import PcsSim.Chan.Context

/-!
# The operations that retry

Four operations try a request `retry_times` times, start the channel again and
repeat that `restart_times` times.  The log of a call holds its attempts and
restarts, and `Rounds` says which logs the policy allows.
-/

namespace Chan

inductive Event
  /-- a request that returned `rc` -/
  | attempt (rc : ℤ)
  | restart
  deriving DecidableEq

/-- A channel with what the next requests and starts will meet. -/
structure Device where
  state : State
  rcs : ℕ → ℤ
  starts : ℕ → Outcome
  /-- ghost -/
  log : List Event

namespace Device

def incErrcnt (d : Device) : Device :=
  { d with state := { d.state with ch := { d.state.ch with errcnt := d.state.ch.errcnt + 1 } } }

/-- `modbus_set_slave`, the request, `modbus_flush`. -/
def request (d : Device) : ℤ × Device :=
  (d.rcs 0, { d with rcs := fun n ↦ d.rcs (n + 1), log := d.log ++ [.attempt (d.rcs 0)] })

def restart (d : Device) : Except Fault Device :=
  (chanStart (d.starts 0) d.state).map fun r ↦
    { d with state := r.2, starts := fun n ↦ d.starts (n + 1), log := d.log ++ [.restart] }

end Device

/-- `while (retry_times-- > 0)`, and whether the attempt with the result `good`
left the loop. -/
def attempts (request : Device → ℤ × Device) (good : ℤ) : ℕ → Device → Bool × Device
  | 0, d => (false, d)
  | n + 1, d =>
    if d.state.ch.ctx ≠ none then
      let (rc, d) := request d
      if rc ≠ good then attempts request good n d.incErrcnt else (true, d)
    else attempts request good n d

/-- `while (restart_times-- > 0)` -/
def rounds (request : Device → ℤ × Device) (good : ℤ) :
    ℕ → ℕ → Device → Except Fault (Bool × Device)
  | 0, _, d => .ok (false, d)
  | n + 1, retryTimes, d =>
    match attempts request good retryTimes d with
    | (true, d) => .ok (true, d)
    | (false, d) => do
      let d ← d.restart
      rounds request good n d.state.ch.retryTimes.toNat d

/-- The body that the four operations share. -/
def withRetry (request : Device → ℤ × Device) (good : ℤ) (d : Device) :
    Except Fault (ℤ × Device) := do
  let (ok, d) ← rounds request good d.state.ch.restartTimes.toNat d.state.ch.retryTimes.toNat d
  return (if ok then 0 else -1, d)

def chanWriteSingleRegisterWithRetry (d : Device) : Except Fault (ℤ × Device) :=
  if d.state.ch.ctx = none then .ok (-2, d) else withRetry Device.request 1 d

/-- `rc` is not set where there is no context. -/
def chanReadInputBits (rc nb : ℤ) (d : Device) : ℤ × Device :=
  if d.state.ch.ctx = none then (rc, d)
  else
    let (rc, d) := d.request
    (rc, if rc ≠ nb then d.incErrcnt else d)

def chanReadInputBitsWithRetry (rc nb : ℤ) : Device → Except Fault (ℤ × Device) :=
  withRetry (chanReadInputBits rc nb) nb

def chanReadInputRegistersWithRetry (nb : ℤ) : Device → Except Fault (ℤ × Device) :=
  withRetry Device.request nb

def chanReadHoldingregistersWithRetry (nb : ℤ) : Device → Except Fault (ℤ × Device) :=
  withRetry Device.request nb

inductive Operation
  | writeSingleRegister
  | readInputBits (rc nb : ℤ)
  | readInputRegisters (nb : ℤ)
  | readHoldingregisters (nb : ℤ)

def Operation.call : Operation → Device → Except Fault (ℤ × Device)
  | .writeSingleRegister => chanWriteSingleRegisterWithRetry
  | .readInputBits rc nb => chanReadInputBitsWithRetry rc nb
  | .readInputRegisters nb => chanReadInputRegistersWithRetry nb
  | .readHoldingregisters nb => chanReadHoldingregistersWithRetry nb

/-- What a request returns that succeeds. -/
def Operation.good : Operation → ℤ
  | .writeSingleRegister => 1
  | .readInputBits _ nb | .readInputRegisters nb | .readHoldingregisters nb => nb

/-! ## The policy -/

/-- The failed attempts of one round. -/
def Failed (good : ℤ) (log : List Event) : Prop := ∀ e ∈ log, ∃ rc, e = .attempt rc ∧ rc ≠ good

/-- At most `s` rounds of at most `r` attempts: a round ends with the first
attempt that succeeds, and then there is nothing more, or with one restart. -/
inductive Rounds (good : ℤ) (r : ℕ) : ℕ → List Event → Bool → Prop
  | exhausted (s : ℕ) : Rounds good r s [] false
  | succeeded (s : ℕ) {failed : List Event} (hfailed : Failed good failed)
      (hlength : failed.length < r) :
      Rounds good r (s + 1) (failed ++ [.attempt good]) true
  | restarted (s : ℕ) {failed rest : List Event} {ok : Bool} (hfailed : Failed good failed)
      (hlength : failed.length ≤ r) (hrest : Rounds good r s rest ok) :
      Rounds good r (s + 1) (failed ++ .restart :: rest) ok

def failures (good : ℤ) (log : List Event) : ℕ :=
  log.countP fun e ↦ match e with
    | .attempt rc => rc ≠ good
    | .restart => false

/-- The requests that fail before the first that succeeds, of `n` of them. -/
def failedBefore (good : ℤ) : ℕ → (ℕ → ℤ) → ℕ
  | 0, _ => 0
  | n + 1, rcs => if rcs 0 = good then 0 else failedBefore good n (fun k ↦ rcs (k + 1)) + 1

/-- The requests that a round makes if none succeeds. -/
def State.tries (s : State) (r : ℕ) : ℕ := if s.ch.ctx = none then 0 else r

/-- The requests that fail before the first that succeeds, where `s` rounds are
left and the channel is started after each; nothing if one of these starts does
not return. -/
def failedRequests (good : ℤ) (r : ℕ) : ℕ → (ℕ → ℤ) → (ℕ → Outcome) → State → Option ℕ
  | 0, _, _, _ => some 0
  | n + 1, rcs, starts, s =>
    if failedBefore good (s.tries r) rcs < s.tries r then
      some (failedBefore good (s.tries r) rcs)
    else
      match chanStart (starts 0) s with
      | .error _ => none
      | .ok (_, t) =>
        (failedRequests good r n (fun k ↦ rcs (k + s.tries r)) (fun k ↦ starts (k + 1)) t).map
          (s.tries r + ·)

def Device.failedRequests (d : Device) (good : ℤ) : Option ℕ :=
  Chan.failedRequests good d.state.ch.retryTimes.toNat d.state.ch.restartTimes.toNat d.rcs
    d.starts d.state

/-! ## Logs of the policy -/

theorem Failed.nil (good : ℤ) : Failed good [] := fun _ he ↦ absurd he List.not_mem_nil

theorem Failed.cons {good rc : ℤ} {log : List Event} (hrc : rc ≠ good) (h : Failed good log) :
    Failed good (.attempt rc :: log) := by
  intro e he
  rcases List.mem_cons.mp he with rfl | he
  · exact ⟨rc, rfl, hrc⟩
  · exact h e he

@[simp]
theorem failures_append (good : ℤ) (log log' : List Event) :
    failures good (log ++ log') = failures good log + failures good log' :=
  List.countP_append

theorem failures_attempt (good rc : ℤ) (log : List Event) :
    failures good (.attempt rc :: log) = (if rc ≠ good then 1 else 0) + failures good log := by
  unfold failures
  rw [List.countP_cons]
  simp only [decide_eq_true_eq]
  exact Nat.add_comm _ _

theorem failures_restart (good : ℤ) (log : List Event) :
    failures good (.restart :: log) = failures good log := by
  unfold failures
  rw [List.countP_cons]
  simp

theorem Failed.failures {good : ℤ} {log : List Event} (h : Failed good log) :
    failures good log = log.length := by
  rw [Chan.failures, List.countP_eq_length]
  intro e he
  obtain ⟨rc, rfl, hrc⟩ := h e he
  simpa using hrc

/-! ## Starts and the counter -/

def State.setErrcnt (s : State) (errcnt : UInt32) : State :=
  { s with ch := { s.ch with errcnt := errcnt } }

/-- A start neither reads the counter nor changes it. -/
theorem chanStart_setErrcnt (o : Outcome) (s : State) (errcnt : UInt32) :
    chanStart o (s.setErrcnt errcnt) =
      (chanStart o s).map fun r ↦ (r.1, r.2.setErrcnt errcnt) := by
  obtain ⟨⟨szmode, mode, ctx, started, rstcnt, errcnt', restartTimes, retryTimes⟩, lib⟩ := s
  obtain ⟨created, connected, ret⟩ := o
  unfold chanStart State.setStarted State.setErrcnt
  dsimp only
  split_ifs
  · rfl
  · cases ctx <;> cases created <;> cases connected <;> rfl
  · cases created <;> cases connected <;> rfl
  · cases created <;> cases connected <;> rfl
  · cases ctx <;> cases created <;> cases connected <;> rfl
  · rfl
  · rfl

/-- With a context the request is the plain one, and it counts a failure `extra`
times itself. -/
def Counts (request : Device → ℤ × Device) (good : ℤ) (extra : ℕ) : Prop :=
  ∀ d : Device, d.state.ch.ctx ≠ none → request d =
    (d.rcs 0, if d.rcs 0 ≠ good then Device.incErrcnt^[extra] d.request.2 else d.request.2)

/-- What a part of a call does to the log and the counter. -/
structure Advanced (good : ℤ) (extra : ℕ) (d d' : Device) (events : List Event) : Prop where
  log : d'.log = d.log ++ events
  errcnt : d'.state.ch.errcnt =
    d.state.ch.errcnt + .ofNat ((1 + extra) * failures good events)
  retryTimes : d'.state.ch.retryTimes = d.state.ch.retryTimes

/-- After `n` requests with the context that there was. -/
structure Requested (n : ℕ) (d d' : Device) : Prop where
  rcs : d'.rcs = fun k ↦ d.rcs (k + n)
  starts : d'.starts = d.starts
  state : ∃ errcnt, d'.state = d.state.setErrcnt errcnt

theorem Requested.refl (d : Device) : Requested 0 d d := ⟨rfl, rfl, d.state.ch.errcnt, rfl⟩

theorem Requested.succ {n : ℕ} {d d' d'' : Device} (h : Requested 1 d d')
    (h' : Requested n d' d'') : Requested (n + 1) d d'' where
  rcs := by
    rw [h'.rcs, h.rcs]
    rfl
  starts := h'.starts.trans h.starts
  state := by
    obtain ⟨errcnt, hstate⟩ := h.state
    obtain ⟨errcnt', hstate'⟩ := h'.state
    exact ⟨errcnt', by rw [hstate', hstate]; rfl⟩

/-- After a restart that has left `s`. -/
def Device.started (d : Device) (s : State) : Device :=
  { d with
    state := s.setErrcnt d.state.ch.errcnt
    starts := fun n ↦ d.starts (n + 1)
    log := d.log ++ [.restart] }

/-- A restart does not see how many failures were counted before it. -/
theorem Requested.restart {n : ℕ} {d d' : Device} (h : Requested n d d') :
    d'.restart = (chanStart (d.starts 0) d.state).map fun r ↦ d'.started r.2 := by
  obtain ⟨errcnt, hstate⟩ := h.state
  have herrcnt : d'.state.ch.errcnt = errcnt := by
    rw [hstate]
    rfl
  have hstart := chanStart_setErrcnt (d.starts 0) d.state errcnt
  rw [← hstate] at hstart
  rw [Device.restart, h.starts, hstart]
  cases chanStart (d.starts 0) d.state with
  | error fault => rfl
  | ok r => simp only [Except.map, Device.started, herrcnt, h.starts]

theorem Device.iterate_incErrcnt (n : ℕ) (d : Device) : Device.incErrcnt^[n] d =
    { d with state := d.state.setErrcnt (d.state.ch.errcnt + .ofNat n) } := by
  induction n with
  | zero =>
      have hzero : d.state.ch.errcnt + .ofNat 0 = d.state.ch.errcnt := UInt32.add_zero _
      rw [hzero]
      rfl
  | succ n ih =>
      rw [Function.iterate_succ_apply', ih, UInt32.ofNat_add, ← UInt32.add_assoc]
      rfl

namespace Advanced

variable {good : ℤ} {extra : ℕ} {d d' d'' : Device} {events events' : List Event}

theorem refl (d : Device) : Advanced good extra d d [] where
  log := (List.append_nil _).symm
  errcnt := (UInt32.add_zero _).symm
  retryTimes := rfl

theorem trans (h : Advanced good extra d d' events) (h' : Advanced good extra d' d'' events') :
    Advanced good extra d d'' (events ++ events') where
  log := by rw [h'.log, h.log, List.append_assoc]
  errcnt := by
    rw [h'.errcnt, h.errcnt, failures_append, Nat.mul_add, UInt32.ofNat_add, UInt32.add_assoc]
  retryTimes := h'.retryTimes.trans h.retryTimes

theorem succeeded (hrc : d.rcs 0 = good) :
    Advanced good extra d d.request.2 [.attempt good] where
  log := by
    rw [← hrc]
    rfl
  errcnt := by
    rw [failures_attempt, if_neg (not_not_intro rfl)]
    exact (UInt32.add_zero _).symm
  retryTimes := rfl

/-- The request counts a failed attempt `extra` times, the caller once. -/
theorem failed (hrc : d.rcs 0 ≠ good) :
    Advanced good extra d (Device.incErrcnt^[extra + 1] d.request.2) [.attempt (d.rcs 0)] := by
  rw [Device.iterate_incErrcnt]
  constructor
  · rfl
  · have hfailures : (1 + extra) * failures good [.attempt (d.rcs 0)] = extra + 1 := by
      rw [failures_attempt, if_pos hrc]
      change (1 + extra) * (1 + 0) = extra + 1
      omega
    rw [hfailures]
    rfl
  · rfl

theorem started {s : State} (hs : s.ch.retryTimes = d.state.ch.retryTimes) :
    Advanced good extra d (d.started s) [.restart] where
  log := rfl
  errcnt := by
    rw [failures_restart]
    exact (UInt32.add_zero _).symm
  retryTimes := hs

end Advanced

section

variable {request : Device → ℤ × Device} {good : ℤ} {extra : ℕ} {d : Device}

/-- The rounds go on as the requests and the starts that they meet say. -/
def Follows (request : Device → ℤ × Device) (good : ℤ) (extra r s : ℕ) (d : Device) :
    Option ℕ → Prop
  | none => ∃ fault, rounds request good s r d = .error fault
  | some n => ∃ ok d' events, rounds request good s r d = .ok (ok, d') ∧
      Rounds good r s events ok ∧ Advanced good extra d d' events ∧ failures good events = n

/-- A round that fails and is followed by a restart comes before the other
rounds. -/
theorem Follows.restarted {r s : ℕ} {e : Device} {failed : List Event} {n : Option ℕ}
    (hrounds : rounds request good (s + 1) r d = rounds request good s r e)
    (hfailed : Failed good failed) (hlength : failed.length ≤ r)
    (hadvanced : Advanced good extra d e (failed ++ [.restart]))
    (h : Follows request good extra r s e n) :
    Follows request good extra r (s + 1) d (n.map (failed.length + ·)) := by
  cases n with
  | none =>
      obtain ⟨fault, hfault⟩ := h
      exact ⟨fault, hrounds.trans hfault⟩
  | some n =>
      obtain ⟨ok, d', events, hok, hpolicy, hrest, hfailures⟩ := h
      have hlog := hadvanced.trans hrest
      rw [List.append_assoc, List.singleton_append] at hlog
      refine ⟨ok, d', failed ++ .restart :: events, hrounds.trans hok, ?_, hlog, ?_⟩
      · exact .restarted s hfailed hlength hpolicy
      · rw [failures_append, failures_restart, hfailed.failures, hfailures]

end

/-! ## The four operations -/

/-- How often the request of an operation counts its own failures. -/
def Operation.extra : Operation → ℕ
  | .readInputBits _ _ => 1
  | _ => 0

end Chan
