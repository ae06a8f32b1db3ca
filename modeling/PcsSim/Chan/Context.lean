import PcsSim.Chan.Basic
import PcsSim.Lib.Runs

/-!
# Who owns a channel's context

The branches for `modbus_rtu` and `modbus_tcp` free the context they hold
before they ask for another one, and let go of one that they have freed.  The
branches for `modbus_rtu_udp` and `modbus_rtu_tcp` do neither, and the branch
for `modbus_rtu` does not survive that it gets none.
-/

namespace Chan

/-- What the modelled calls leave alone. -/
structure SameSettings (s t : State) : Prop where
  szmode : t.ch.szmode = s.ch.szmode
  mode : t.ch.mode = s.ch.mode
  errcnt : t.ch.errcnt = s.ch.errcnt
  restartTimes : t.ch.restartTimes = s.ch.restartTimes
  retryTimes : t.ch.retryTimes = s.ch.retryTimes

namespace SameSettings

variable {s t u : State}

theorem refl (s : State) : SameSettings s s := ⟨rfl, rfl, rfl, rfl, rfl⟩

theorem trans (hst : SameSettings s t) (htu : SameSettings t u) : SameSettings s u :=
  ⟨htu.szmode.trans hst.szmode, htu.mode.trans hst.mode, htu.errcnt.trans hst.errcnt,
    htu.restartTimes.trans hst.restartTimes, htu.retryTimes.trans hst.retryTimes⟩

theorem modbusNew (s : State) (o : Outcome) : SameSettings s (s.modbusNew o) := by
  unfold State.modbusNew
  split <;> exact ⟨rfl, rfl, rfl, rfl, rfl⟩

theorem freeHeld (s : State) : SameSettings s s.freeHeld := by
  unfold State.freeHeld
  split <;> exact ⟨rfl, rfl, rfl, rfl, rfl⟩

theorem renew (s : State) (o : Outcome) :
    SameSettings s ((s.freeHeld.setCtx none).modbusNew o) := by
  have hclear : SameSettings s.freeHeld (s.freeHeld.setCtx none) := ⟨rfl, rfl, rfl, rfl, rfl⟩
  exact ((freeHeld s).trans hclear).trans (modbusNew _ o)

theorem chanStartRtu {o : Outcome} {s : State} {r : ℤ × State}
    (h : chanStartRtu o s = .ok r) : SameSettings s r.2 := by
  apply (renew s o).trans
  simp only [Chan.chanStartRtu] at h
  split at h
  · cases h
  · split at h <;> cases h <;> exact ⟨rfl, rfl, rfl, rfl, rfl⟩

theorem chanStartRtuOver (a b : ℤ) (o : Outcome) (s : State) :
    SameSettings s (chanStartRtuOver a b o s).2 := by
  apply (modbusNew s o).trans
  simp only [Chan.chanStartRtuOver]
  split
  · exact ⟨rfl, rfl, rfl, rfl, rfl⟩
  · split <;> exact ⟨rfl, rfl, rfl, rfl, rfl⟩

theorem chanStartTcp (o : Outcome) (s : State) : SameSettings s (chanStartTcp o s).2 := by
  apply (renew s o).trans
  simp only [Chan.chanStartTcp]
  split
  · exact ⟨rfl, rfl, rfl, rfl, rfl⟩
  · split <;> exact ⟨rfl, rfl, rfl, rfl, rfl⟩

theorem chanStart {o : Outcome} {s : State} {r : ℤ × State} (h : chanStart o s = .ok r) :
    SameSettings s r.2 := by
  have hstarted : SameSettings s (s.setStarted 0) := ⟨rfl, rfl, rfl, rfl, rfl⟩
  apply hstarted.trans
  simp only [Chan.chanStart] at h
  split_ifs at h
  · cases h
    exact refl _
  · exact chanStartRtu h
  · cases h
    exact chanStartRtuOver _ _ o _
  · cases h
    exact chanStartRtuOver _ _ o _
  · cases h
    exact chanStartTcp o _
  · cases h
    exact refl _
  · cases h
    exact refl _

theorem chanReset (o : Outcome) (s : State) : SameSettings s (chanReset o s).2 := by
  unfold Chan.chanReset
  split_ifs
  · have hcounted : SameSettings s { s with ch := { s.ch with rstcnt := s.ch.rstcnt + 1 } } :=
      ⟨rfl, rfl, rfl, rfl, rfl⟩
    apply hcounted.trans
    apply ((freeHeld _).trans (modbusNew _ o)).trans
    simp only [chanResetTcp]
    split
    · exact ⟨rfl, rfl, rfl, rfl, rfl⟩
    · split <;> exact ⟨rfl, rfl, rfl, rfl, rfl⟩
  · exact refl s

end SameSettings

/-! ## One call -/

/-- The context held is connected and has not been freed, no context has been
freed twice and none is left unfreed without being held. -/
def State.Tidy (s : State) : Prop := s.lib.Tidy s.ch.ctx

def State.Sole (s : State) : Prop := s.lib.Sole s.ch.ctx

namespace State

variable {s : State} {o : Outcome}

theorem Sole.freeHeld (h : s.Sole) : s.freeHeld.lib.Sole none := by
  unfold Sole at h
  cases hctx : s.ch.ctx with
  | none =>
      rw [hctx] at h
      simpa only [State.freeHeld, hctx] using h
  | some c =>
      rw [hctx] at h
      simp only [State.freeHeld, hctx]
      exact h.free

theorem ctx_modbusNew (s : State) (o : Outcome) :
    (s.modbusNew o).ch.ctx = if o.created then some s.lib.next else none := by
  unfold modbusNew
  split <;> rfl

theorem sole_modbusNew (h : s.lib.Sole none) : (s.modbusNew o).Sole := by
  unfold modbusNew
  split
  · exact h.create
  · exact h

/-- After a new context has been asked for with none left over: there is none,
or it is connected, or it is freed and let go. -/
theorem tidy_of_connect (h : s.Sole) (connected : Bool) {t : State}
    (hnone : s.ch.ctx = none → t.lib = s.lib ∧ t.ch.ctx = none)
    (hfail : ∀ c, s.ch.ctx = some c → ¬connected → t.lib = s.lib.free c ∧ t.ch.ctx = none)
    (hconnect : ∀ c, s.ch.ctx = some c → connected →
      t.lib = s.lib.markOpened c ∧ t.ch.ctx = some c) : t.Tidy := by
  unfold Sole at h
  unfold Tidy
  cases hctx : s.ch.ctx with
  | none =>
      obtain ⟨hlib, hheld⟩ := hnone hctx
      rw [hctx] at h
      rw [hlib, hheld]
      exact h.tidy_none
  | some c =>
      rw [hctx] at h
      by_cases hok : connected
      · obtain ⟨hlib, hheld⟩ := hconnect c hctx hok
        rw [hlib, hheld]
        exact h.markOpened
      · obtain ⟨hlib, hheld⟩ := hfail c hctx hok
        rw [hlib, hheld]
        exact h.free.tidy_none

end State

variable {s : State} {o : Outcome}

theorem chanStartRtu_of_not_created (h : o.created = false) :
    chanStartRtu o s = .error .nullPointer := by
  simp [chanStartRtu, State.ctx_modbusNew, h]

theorem chanStartRtu_returns (h : o.created = true) : ∃ r, chanStartRtu o s = .ok r := by
  have hctx : ((s.freeHeld.setCtx none).modbusNew o).ch.ctx = some s.freeHeld.lib.next := by
    rw [State.ctx_modbusNew, if_pos h]
    rfl
  simp only [chanStartRtu, hctx]
  split
  · exact ⟨_, rfl⟩
  · exact ⟨_, rfl⟩

theorem chanStart_returns (h : s.ch.mode = .modbusRtu → o.created = true) :
    ∃ r, chanStart o s = .ok r := by
  simp only [chanStart]
  split_ifs with _ hrtu
  · exact ⟨_, rfl⟩
  · exact chanStartRtu_returns (h hrtu)
  all_goals exact ⟨_, rfl⟩

theorem tidy_chanStartRtu (h : s.Sole) (hcreated : o.created = true) :
    ∃ r, chanStartRtu o s = .ok r ∧ r.2.Tidy := by
  have hnew : ((s.freeHeld.setCtx none).modbusNew o).Sole := State.sole_modbusNew h.freeHeld
  have hctx : ((s.freeHeld.setCtx none).modbusNew o).ch.ctx = some s.freeHeld.lib.next := by
    rw [State.ctx_modbusNew, if_pos hcreated]
    rfl
  by_cases hok : o.connected
  · have hstart : chanStartRtu o s = .ok (0,
        ((s.freeHeld.setCtx none).modbusNew o).modbusConnected s.freeHeld.lib.next) := by
      simp only [chanStartRtu, hctx, if_neg (not_not_intro hok)]
    refine ⟨_, hstart, ?_⟩
    apply State.tidy_of_connect hnew o.connected
    · exact fun hnone ↦ absurd (hctx.symm.trans hnone) (by simp)
    · exact fun c _ hfail ↦ absurd hok hfail
    · intro c hc _
      obtain rfl := Option.some.inj (hctx.symm.trans hc)
      exact ⟨rfl, hctx⟩
  · have hstart : chanStartRtu o s = .ok (0,
        (((s.freeHeld.setCtx none).modbusNew o).modbusFree s.freeHeld.lib.next).setCtx none) := by
      simp only [chanStartRtu, hctx, if_pos hok]
    refine ⟨_, hstart, ?_⟩
    apply State.tidy_of_connect hnew o.connected
    · exact fun hnone ↦ absurd (hctx.symm.trans hnone) (by simp)
    · intro c hc _
      obtain rfl := Option.some.inj (hctx.symm.trans hc)
      exact ⟨rfl, rfl⟩
    · exact fun c _ hconnect ↦ absurd hconnect hok

theorem tidy_chanStartTcp (h : s.Sole) : (chanStartTcp o s).2.Tidy := by
  have hnew : ((s.freeHeld.setCtx none).modbusNew o).Sole := State.sole_modbusNew h.freeHeld
  apply State.tidy_of_connect hnew o.connected
  · intro hctx
    simp only [chanStartTcp, hctx]
    exact ⟨rfl, hctx⟩
  · intro c hctx hok
    simp only [chanStartTcp, hctx, if_pos hok]
    exact ⟨rfl, rfl⟩
  · intro c hctx hok
    simp only [chanStartTcp, hctx, if_neg (not_not_intro hok)]
    exact ⟨rfl, hctx⟩

theorem tidy_chanResetTcp (h : s.Sole) : (chanResetTcp o s).2.Tidy := by
  have hfree : State.Sole { s with ch := { s.ch with rstcnt := s.ch.rstcnt + 1 } } := h
  have hnew := State.sole_modbusNew (o := o) hfree.freeHeld
  apply State.tidy_of_connect hnew o.connected
  · intro hctx
    simp only [chanResetTcp, hctx, true_and]
  · intro c hctx hok
    simp only [chanResetTcp, hctx, if_pos hok]
    exact ⟨rfl, rfl⟩
  · intro c hctx hok
    simp only [chanResetTcp, hctx, if_neg (not_not_intro hok)]
    exact ⟨rfl, hctx⟩

/-- Without a free before and without letting go after, only a start that finds
no context, and connects the one it gets, leaves things in order. -/
theorem tidy_chanStartRtuOver_iff (a b : ℤ) (h : s.Tidy) :
    (chanStartRtuOver a b o s).2.Tidy ↔ s.ch.ctx = none ∧ (o.created → o.connected) := by
  unfold State.Tidy at h ⊢
  cases hcreated : o.created with
  | false =>
      have hresult : (chanStartRtuOver a b o s).2 = s.setCtx none := by
        simp [chanStartRtuOver, State.modbusNew, hcreated, State.setCtx]
      rw [hresult]
      constructor
      · intro ht
        refine ⟨?_, by simp⟩
        by_contra hctx
        obtain ⟨c, hctx⟩ := Option.ne_none_iff_exists'.mp hctx
        obtain ⟨hnext, hfreed⟩ := h.live c hctx
        exact Handles.not_tidy_of_live hnext hfreed (by simp [State.setCtx]) ht
      · rintro ⟨hctx, -⟩
        exact hctx ▸ h
  | true =>
      cases hconnected : o.connected with
      | false =>
          have hresult : (chanStartRtuOver a b o s).2 =
              ⟨{ s.ch with ctx := some s.lib.next }, s.lib.create.free s.lib.next⟩ := by
            simp [chanStartRtuOver, State.modbusNew, hcreated, hconnected, State.setCtx,
              State.modbusFree]
          rw [hresult]
          exact iff_of_false (Handles.not_tidy_free _ _) (by simp)
      | true =>
          have hresult : (chanStartRtuOver a b o s).2 =
              ⟨{ s.ch with ctx := some s.lib.next }, s.lib.create.markOpened s.lib.next⟩ := by
            simp [chanStartRtuOver, State.modbusNew, hcreated, hconnected, State.setCtx,
              State.modbusConnected]
          rw [hresult]
          constructor
          · intro ht
            refine ⟨?_, by simp⟩
            by_contra hctx
            obtain ⟨c, hctx⟩ := Option.ne_none_iff_exists'.mp hctx
            obtain ⟨hnext, hfreed⟩ := h.live c hctx
            have hnext' : c < (s.lib.create.markOpened s.lib.next).next := Nat.lt_succ_of_lt hnext
            refine Handles.not_tidy_of_live hnext' hfreed ?_ ht
            simpa using hnext.ne'
          · rintro ⟨hctx, -⟩
            rw [hctx] at h
            exact h.toSole.create.markOpened

theorem exists_tidy_chanStartRtuOver_iff (a b : ℤ) (h : s.Tidy) :
    (∃ r, (.ok (chanStartRtuOver a b o s) : Except Fault (ℤ × State)) = .ok r ∧ r.2.Tidy) ↔
      s.ch.ctx = none ∧ (o.created → o.connected) := by
  rw [← tidy_chanStartRtuOver_iff a b h]
  simp only [Except.ok.injEq, exists_eq_left']

/-! ## Sequences of calls -/

inductive Call
  | start (o : Outcome)
  | reset (o : Outcome)

def State.call (s : State) : Call → Except Fault (ℤ × State)
  | .start o => chanStart o s
  | .reset o => .ok (chanReset o s)

/-- There is no state after a call that does not return. -/
def callStep (s : State) (l : Call) : Option State := (s.call l).toOption.map Prod.snd

def modbusModes : List Bytes :=
  [ascii "modbus_rtu", ascii "modbus_tcp", ascii "modbus_rtu_udp", ascii "modbus_rtu_tcp"]

/-- For `modbus_rtu` a context is got, and for the modes that do not free the
context they hold none is held and the one that is got, if any, is connected. -/
def StartsClean (s : State) : Call → Prop
  | .start o =>
    if s.ch.szmode = ascii "modbus_rtu" then o.created = true
    else if s.ch.szmode = ascii "modbus_tcp" then True
    else s.ch.ctx = none ∧ (o.created → o.connected)
  | .reset _ => True

/-- The mode is one of the four, and its number is that of its name. -/
structure IsModbus (s : State) : Prop where
  szmode : s.ch.szmode ∈ modbusModes
  mode : s.ch.mode = chanModeStr2nbr s.ch.szmode

theorem callStep_eq_some_iff {l : Call} {t : State} :
    callStep s l = some t ↔ ∃ r, s.call l = .ok r ∧ r.2 = t := by
  simp [callStep]

theorem IsModbus.callStep (h : IsModbus s) {l : Call} {t : State}
    (hstep : callStep s l = some t) : IsModbus t := by
  obtain ⟨r, hcall, rfl⟩ := callStep_eq_some_iff.mp hstep
  have hsame : SameSettings s r.2 := by
    cases l with
    | start o => exact .chanStart hcall
    | reset o =>
        cases hcall
        exact .chanReset o s
  constructor
  · rw [hsame.szmode]
    exact h.szmode
  · rw [hsame.mode, hsame.szmode]
    exact h.mode

theorem tidy_start_iff (h : IsModbus s) (ht : s.Tidy) (o : Outcome) :
    (∃ r, chanStart o s = .ok r ∧ r.2.Tidy) ↔ StartsClean s (.start o) := by
  have hmode := h.mode
  have hszmode : s.ch.szmode = ascii "modbus_rtu" ∨ s.ch.szmode = ascii "modbus_tcp" ∨
      s.ch.szmode = ascii "modbus_rtu_udp" ∨ s.ch.szmode = ascii "modbus_rtu_tcp" := by
    simpa [modbusModes] using h.szmode
  have hstarted : (s.setStarted 0).Tidy := ht
  rcases hszmode with hname | hname | hname | hname
  · have hstart : chanStart o s = chanStartRtu o (s.setStarted 0) := by
      simp only [chanStart, State.setStarted, hmode, hname]
      rfl
    rw [hstart, StartsClean, if_pos hname]
    constructor
    · rintro ⟨r, hr, -⟩
      by_contra hcreated
      rw [chanStartRtu_of_not_created (by simpa using hcreated)] at hr
      cases hr
    · exact tidy_chanStartRtu hstarted.toSole
  · have hstart : chanStart o s = .ok (chanStartTcp o (s.setStarted 0)) := by
      simp only [chanStart, State.setStarted, hmode, hname]
      rfl
    rw [hstart, StartsClean, hname, if_neg (by decide), if_pos rfl]
    exact iff_of_true ⟨_, rfl, tidy_chanStartTcp hstarted.toSole⟩ trivial
  · have hstart : chanStart o s = .ok (chanStartRtuUdp o (s.setStarted 0)) := by
      simp only [chanStart, State.setStarted, hmode, hname]
      rfl
    rw [hstart, StartsClean, hname, if_neg (by decide), if_neg (by decide)]
    exact exists_tidy_chanStartRtuOver_iff (-3) (-4) hstarted
  · have hstart : chanStart o s = .ok (chanStartRtuTcp o (s.setStarted 0)) := by
      simp only [chanStart, State.setStarted, hmode, hname]
      rfl
    rw [hstart, StartsClean, hname, if_neg (by decide), if_neg (by decide)]
    exact exists_tidy_chanStartRtuOver_iff (-5) (-6) hstarted

theorem tidy_callStep_iff (h : IsModbus s) (ht : s.Tidy) (l : Call) :
    (∃ t, callStep s l = some t ∧ t.Tidy) ↔ StartsClean s l := by
  have hcall : (∃ t, callStep s l = some t ∧ t.Tidy) ↔ ∃ r, s.call l = .ok r ∧ r.2.Tidy := by
    simp only [callStep_eq_some_iff]
    constructor
    · rintro ⟨t, ⟨r, hr, rfl⟩, htidy⟩
      exact ⟨r, hr, htidy⟩
    · rintro ⟨r, hr, htidy⟩
      exact ⟨r.2, ⟨r, hr, rfl⟩, htidy⟩
  rw [hcall]
  cases l with
  | start o => exact tidy_start_iff h ht o
  | reset o =>
      refine iff_of_true ⟨_, rfl, ?_⟩ trivial
      simp only [chanReset]
      split_ifs
      · exact tidy_chanResetTcp ht.toSole
      · exact ht

/-- Each call returns with the context in order exactly when every start finds
things clean. -/
theorem tidy_iff_startsClean {szmode : Bytes} (hszmode : szmode ∈ modbusModes)
    (restartTimes retryTimes : ℤ) (ls : List Call) :
    (∀ before, before <+: ls → ∃ s,
      Runs.run callStep (.start szmode restartTimes retryTimes) before = some s ∧ s.Tidy) ↔
    Runs.Always callStep StartsClean (.start szmode restartTimes retryTimes) ls :=
  Runs.prefixes_iff_always (I := IsModbus) (fun _ _ _ h hstep ↦ h.callStep hstep)
    (fun _ l h ht ↦ tidy_callStep_iff h ht l) ⟨hszmode, rfl⟩ Handles.tidy_initial

instance (s : State) (l : Call) : Decidable (StartsClean s l) := by
  cases l <;> unfold StartsClean <;> infer_instance

/-- A device that cannot be reached at first. -/
theorem tidy_tcpLater : ascii "modbus_tcp" ∈ modbusModes ∧ ∀ before,
    before <+: [.start ⟨true, false, 0⟩, .start ⟨true, true, 0⟩, .reset ⟨true, true, 0⟩] →
      ∃ s, Runs.run callStep (.start (ascii "modbus_tcp") 3 3) before = some s ∧ s.Tidy :=
  ⟨by decide, (tidy_iff_startsClean (by decide) 3 3 _).mpr (by decide +kernel)⟩

/-- A device over UDP that cannot be reached leaves a context that has been
freed. -/
theorem not_tidy_udpUnreachable : ascii "modbus_rtu_udp" ∈ modbusModes ∧
    ∃ s, Runs.run callStep (.start (ascii "modbus_rtu_udp") 3 3) [.start ⟨true, false, 0⟩] =
      some s ∧ ¬s.Tidy := by
  refine ⟨by decide, _, rfl, fun h ↦ ?_⟩
  exact (h.live 0 (by decide +kernel)).2 (by decide +kernel)

end Chan
