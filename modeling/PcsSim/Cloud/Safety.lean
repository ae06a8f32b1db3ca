import PcsSim.CJson.WellFormed
import PcsSim.Cloud.Handled
import PcsSim.Tb.Recv

/-!
# Which documents the receivers survive

Here `%s` of NULL is a fault, as a NULL text for `strcmp` and `sscanf` is.
-/

namespace Cloud

open CJson Mqtt

variable {D : Type} {numbers : Numbers D} {szDevName : Bytes} {root cmd : CJson D}
  {mdl : Mdl D} {time : Int64} {e : Element} {c : State D}

/-- The call returns, and has deleted the tree that it parsed, once. -/
def Safe (env : Env D) (time : Int64) (e : Element) (c : State D) : Prop :=
  ∃ c', cloudProcRecv env time (some e) c = .ok c' ∧
    c'.deleted = c.deleted ++ (parse env.numbers e.szpayload).toList

/-- A text command, with its parameter where it sets `uab`, whose answer has a
topic that fits; a command of another type without a child; no command and no
update. -/
structure Accepts (szDevName : Bytes) (root : CJson D) : Prop where
  cmd : ∀ cmd ∈ root.getObjectItem (ascii "cmd"),
    cmd.isString ∧ szDevName.length + 4 < 128 ∧
        (cmd.valuestring = some (ascii "set uab") →
          (root.getObjectItem (ascii "param")).isSome) ∨
      ¬cmd.isString ∧ cmd.child = []
  update : root.getObjectItem (ascii "cmd") = none →
    root.getObjectItem (ascii "update") = none

/-- The handler ends, and what it answers has a topic that fits. -/
def Returns (env : Env D) (root : CJson D) (mdl : Mdl D) : Prop :=
  ∃ szResponse mdl', procRoot env root mdl = .ok (szResponse, mdl') ∧
    (szResponse.isSome → env.szDevName.length + 4 < 128)

theorem safe_iff_of_parse {env : Env D} (hparse : parse env.numbers e.szpayload = some root) :
    Safe env time e c ↔ Returns env root c.mdl := by
  unfold Safe Returns
  simp only [cloudProcRecv_eq_ok_iff, hparse, Option.toList_some]
  constructor
  · rintro ⟨c', h, -⟩
    cases h with
    | unparsed h => simp [hparse] at h
    | silent h hproc =>
        cases hparse.symm.trans h
        exact ⟨none, _, hproc, by simp⟩
    | answered h hproc hfits =>
        cases hparse.symm.trans h
        exact ⟨some _, _, hproc, fun _ ↦ hfits⟩
  · rintro ⟨szResponse, mdl, hproc, hfits⟩
    cases szResponse with
    | none => exact ⟨_, .silent hparse hproc, rfl⟩
    | some s => exact ⟨_, .answered hparse hproc (hfits rfl), rfl⟩

theorem textCommand_returns_iff (env : Env D) (mdl : Mdl D) (hcmd : WellFormed cmd)
    (htext : cmd.isString) :
    (∃ r, textCommand env root cmd mdl = .ok r) ↔
      (cmd.valuestring = some (ascii "set uab") →
        (root.getObjectItem (ascii "param")).isSome) := by
  obtain ⟨text, hvalue⟩ := hcmd.exists_valuestring htext
  constructor
  · rintro ⟨⟨s, mdl'⟩, h⟩ huab
    obtain ⟨text', hvalue', -, hparam⟩ := textCommand_eq_ok_iff.mp h
    rw [huab] at hvalue'
    cases hvalue'
    rw [if_pos rfl] at hparam
    obtain ⟨param, hparam, -⟩ := hparam
    simp [hparam]
  · intro h
    by_cases huab : text = ascii "set uab"
    · obtain ⟨param, hparam⟩ := Option.isSome_iff_exists.mp (h (huab ▸ hvalue))
      exact ⟨(_, _), textCommand_eq_ok_iff.mpr
        ⟨text, hvalue, rfl, by rw [if_pos huab]; exact ⟨param, hparam, rfl⟩⟩⟩
    · exact ⟨(_, _), textCommand_eq_ok_iff.mpr ⟨text, hvalue, rfl, by rw [if_neg huab]⟩⟩

/-- The log line of a sub-command prints the text of the command, which has
none. -/
theorem ctnCommand_ne_ok {subCmd : CJson D} {szResponse : Bytes} (hcmd : WellFormed cmd)
    (htext : ¬cmd.isString) (hsub : cmd.child.head? = some subCmd) :
    ctnCommand ⟨numbers, szDevName, none⟩ cmd subCmd ≠ .ok szResponse := by
  intro h
  obtain ⟨-, hlog⟩ := outcome_of_ctnCommand htext hsub h
  have hvalue := hcmd.valuestring_eq_none htext
  simp [logDbg_strict, hvalue] at hlog

/-- An update that is a text has no quantities, and any other prints the text
it does not have. -/
theorem update_ne_ok {upd : CJson D} (hupd : WellFormed upd) :
    update ⟨numbers, szDevName, none⟩ upd ≠ .ok () := by
  intro h
  simp only [update, Except.bind_eq_ok_iff] at h
  obtain ⟨_, hlog, _, huab, -⟩ := h
  have hvalue : upd.valuestring.isSome := by simpa using logDbg_strict.mp hlog
  obtain ⟨s, hs⟩ := Option.isSome_iff_exists.mp hvalue
  have hchild := hupd.child_eq_nil (hupd.isString_of_valuestring hs)
  simp [updateQuantity, getObjectItem, hchild, deref] at huab

theorem returns_noCommand_iff (hroot : WellFormed root)
    (hcmd : root.getObjectItem (ascii "cmd") = none) :
    Returns ⟨numbers, szDevName, none⟩ root mdl ↔
      root.getObjectItem (ascii "update") = none := by
  cases hupd : root.getObjectItem (ascii "update") with
  | none => exact iff_of_true ⟨none, mdl, procRoot_unknown hcmd hupd, by simp⟩ rfl
  | some upd =>
      refine iff_of_false ?_ (by simp)
      rintro ⟨szResponse, mdl', h, -⟩
      rw [procRoot_update hcmd hupd] at h
      cases hu : update ⟨numbers, szDevName, none⟩ upd with
      | error fault => simp [hu, Except.map] at h
      | ok _ => exact update_ne_ok (hroot.of_getObjectItem hupd) hu

theorem returns_text_iff {env : Env D} (hcmd : root.getObjectItem (ascii "cmd") = some cmd)
    (hwf : WellFormed cmd) (htext : cmd.isString) :
    Returns env root mdl ↔
      env.szDevName.length + 4 < 128 ∧
        (cmd.valuestring = some (ascii "set uab") →
          (root.getObjectItem (ascii "param")).isSome) := by
  rw [← textCommand_returns_iff env mdl hwf htext]
  unfold Returns
  rw [procRoot_text hcmd htext]
  constructor
  · rintro ⟨szResponse, mdl', h, hfits⟩
    cases ht : textCommand env root cmd mdl with
    | error fault => simp [ht, Except.map] at h
    | ok r =>
        simp only [ht, Except.map, Except.ok.injEq, Prod.mk.injEq] at h
        exact ⟨hfits (by simp [← h.1]), r, rfl⟩
  · rintro ⟨hfits, r, hr⟩
    exact ⟨some r.1, r.2, by rw [hr]; rfl, fun _ ↦ hfits⟩

theorem returns_subCommand_iff (hcmd : root.getObjectItem (ascii "cmd") = some cmd)
    (hwf : WellFormed cmd) (htext : ¬cmd.isString) :
    Returns ⟨numbers, szDevName, none⟩ root mdl ↔ cmd.child = [] := by
  cases hchild : cmd.child with
  | nil => exact iff_of_true ⟨none, mdl, procRoot_childless hcmd htext hchild, by simp⟩ rfl
  | cons subCmd l =>
      have hsub : cmd.child.head? = some subCmd := by rw [hchild]; rfl
      refine iff_of_false ?_ (List.cons_ne_nil _ _)
      rintro ⟨szResponse, mdl', h, -⟩
      rw [procRoot_subCommand hcmd htext hsub] at h
      cases hc : ctnCommand ⟨numbers, szDevName, none⟩ cmd subCmd with
      | error fault => simp [hc, Except.map] at h
      | ok s => exact ctnCommand_ne_ok hwf htext hsub hc

theorem accepts_iff_of_cmd (hcmd : root.getObjectItem (ascii "cmd") = some cmd) :
    Accepts szDevName root ↔
      cmd.isString ∧ szDevName.length + 4 < 128 ∧
          (cmd.valuestring = some (ascii "set uab") →
            (root.getObjectItem (ascii "param")).isSome) ∨
        ¬cmd.isString ∧ cmd.child = [] := by
  constructor
  · intro h
    exact h.cmd cmd hcmd
  · intro h
    exact ⟨by simpa [hcmd] using h, by simp [hcmd]⟩

theorem returns_iff (hroot : WellFormed root) :
    Returns ⟨numbers, szDevName, none⟩ root mdl ↔ Accepts szDevName root := by
  cases hcmd : root.getObjectItem (ascii "cmd") with
  | none =>
      rw [returns_noCommand_iff hroot hcmd]
      constructor
      · intro h
        exact ⟨by simp [hcmd], fun _ ↦ h⟩
      · intro h
        exact h.update hcmd
  | some cmd =>
      have hwf := hroot.of_getObjectItem hcmd
      rw [accepts_iff_of_cmd hcmd]
      by_cases htext : cmd.isString
      · rw [returns_text_iff hcmd hwf htext]
        simp [htext]
      · rw [returns_subCommand_iff hcmd hwf htext]
        simp [htext]

theorem safe_iff : Safe ⟨numbers, szDevName, none⟩ time e c ↔
    ∀ root ∈ parse numbers e.szpayload, Accepts szDevName root := by
  cases hparse : parse (Env.mk numbers szDevName none).numbers e.szpayload with
  | none =>
      have hsafe : Safe ⟨numbers, szDevName, none⟩ time e c :=
        ⟨c, cloudProcRecv_of_parse_eq_none hparse, by simp [hparse]⟩
      simp [hsafe]
  | some root =>
      rw [safe_iff_of_parse hparse, returns_iff (wellFormed_of_parse hparse)]
      simp

end Cloud

namespace Tb

open CJson Mqtt

variable {D : Type} {numbers : Numbers D} {nullText : Option Bytes} {root item : CJson D}
  {dev : State D} {e : Element}

/-- The call returns, and has deleted the tree that it parsed, once. -/
def Safe (numbers : Numbers D) (nullText : Option Bytes) (e : Element) (dev : State D) : Prop :=
  ∃ dev', tbProcRecv numbers nullText (some e) dev = .ok dev' ∧
    dev'.deleted = dev.deleted ++ (parse numbers e.szpayload).toList

/-- The method, if there is one, is a text, and so are the parameters of
`set_lock`, if it has them. -/
def Accepts (root : CJson D) : Prop :=
  ∀ method ∈ root.getObjectItem (ascii "method"), method.isString ∧
    (method.valuestring = some (ascii "set_lock") →
      ∀ params ∈ root.getObjectItem (ascii "params"), params.isString)

@[simp] theorem deleted_relock_announce : (relock (announce dev)).deleted = dev.deleted := by
  unfold relock announce tbUpdateAttributes
  split_ifs <;> rfl

theorem deleted_setLock {dev' : State D} (h : setLock nullText root dev = .ok dev') :
    dev'.deleted = dev.deleted := by
  unfold setLock at h
  cases hparams : root.getObjectItem (ascii "params") with
  | none =>
      simp only [hparams, Except.ok.injEq] at h
      rw [h]
  | some params =>
      simp only [hparams, Except.bind_eq_ok_iff] at h
      obtain ⟨_, -, lock, -, h⟩ := h
      cases h
      rfl

@[simp] theorem deleted_setAps : (setAps root dev).deleted = dev.deleted := by
  unfold setAps
  cases root.getObjectItem (ascii "params") with
  | none => rfl
  | some params => rfl

theorem setLock_returns_iff (hroot : WellFormed root) :
    (∃ dev', setLock none root dev = .ok dev') ↔
      ∀ params ∈ root.getObjectItem (ascii "params"), params.isString := by
  unfold setLock
  cases hparams : root.getObjectItem (ascii "params") with
  | none => simp
  | some params =>
      have hwf := hroot.of_getObjectItem hparams
      by_cases htext : params.isString
      · obtain ⟨s, hs⟩ := hwf.exists_valuestring htext
        simp [hs, htext, logDbg, pure, Except.pure]
      · have hs := hwf.valuestring_eq_none htext
        simp [hs, htext, logDbg]

theorem procMethod_setLock (hitem : item.valuestring = some (ascii "set_lock")) :
    procMethod nullText root item dev = setLock nullText root dev := by
  simp [procMethod, hitem, logDbg]

theorem procMethod_other (nullText : Option Bytes) (root : CJson D) (dev : State D) {s : Bytes}
    (hitem : item.valuestring = some s) (hs : s ≠ ascii "set_lock") :
    ∃ dev', procMethod nullText root item dev = .ok dev' ∧ dev'.deleted = dev.deleted := by
  simp only [procMethod, unlockedMethod, hitem, logDbg, formatString_some, strcmpZero_some,
    Except.ok_bind_eq, decide_eq_true_eq, if_neg hs]
  split_ifs
  · exact ⟨dev, rfl, rfl⟩
  · exact ⟨dev, rfl, rfl⟩
  · exact ⟨setAps root dev, rfl, deleted_setAps⟩
  · exact ⟨dev, rfl, rfl⟩

theorem procMethod_ne_ok {dev' : State D} (hitem : item.valuestring = none) :
    procMethod none root item dev ≠ .ok dev' := by
  simp [procMethod, hitem, logDbg]

theorem deleted_procRoot {dev' : State D} (h : procRoot none root dev = .ok dev') :
    dev'.deleted = dev.deleted := by
  unfold procRoot at h
  cases hmethod : root.getObjectItem (ascii "method") with
  | none =>
      simp only [hmethod, Except.ok.injEq] at h
      rw [h]
  | some item =>
      simp only [hmethod] at h
      cases hitem : item.valuestring with
      | none => exact absurd h (procMethod_ne_ok hitem)
      | some s =>
          by_cases hs : s = ascii "set_lock"
          · rw [procMethod_setLock (hs ▸ hitem)] at h
            exact deleted_setLock h
          · obtain ⟨dev'', hother, hdeleted⟩ := procMethod_other none root dev hitem hs
            cases hother.symm.trans h
            exact hdeleted

theorem procRoot_returns_iff (dev : State D) (hroot : WellFormed root) :
    (∃ dev', procRoot none root dev = .ok dev') ↔ Accepts root := by
  unfold procRoot Accepts
  cases hmethod : root.getObjectItem (ascii "method") with
  | none => simp
  | some item =>
      have hwf := hroot.of_getObjectItem hmethod
      simp only [Option.mem_some_iff, forall_eq']
      by_cases htext : item.isString
      · obtain ⟨s, hitem⟩ := hwf.exists_valuestring htext
        by_cases hs : s = ascii "set_lock"
        · subst hs
          rw [procMethod_setLock hitem, setLock_returns_iff hroot]
          simp [htext, hitem]
        · obtain ⟨dev', hother, -⟩ := procMethod_other none root dev hitem hs
          simp [htext, hitem, hother, hs]
      · have hnone := hwf.valuestring_eq_none htext
        simp [htext, procMethod_ne_ok hnone]

theorem safe_iff : Safe numbers none e dev ↔
    ∀ root ∈ parse numbers e.szpayload, Accepts root := by
  unfold Safe
  cases hparse : parse numbers e.szpayload with
  | none => simp [tbProcRecv, hparse]
  | some root =>
      have hreturns := procRoot_returns_iff (relock (announce dev)) (wellFormed_of_parse hparse)
      simp only [Option.mem_some_iff, forall_eq', ← hreturns, tbProcRecv, hparse,
        Except.bind_eq_ok_iff, Option.toList_some]
      constructor
      · rintro ⟨dev', ⟨dev₁, hproc, -⟩, -⟩
        exact ⟨dev₁, hproc⟩
      · rintro ⟨dev₁, hproc⟩
        refine ⟨_, ⟨dev₁, hproc, rfl⟩, ?_⟩
        simp [deleted_procRoot hproc]

end Tb

section Receivers

open CJson Mqtt

/-- Each receiver survives exactly the documents that it accepts. -/
theorem receiversSafe_iff {D : Type} (numbers : Numbers D) (szDevName : Bytes) (time : Int64)
    (e e' : Element) (c : Cloud.State D) (dev : Tb.State D) :
    (Cloud.Safe ⟨numbers, szDevName, none⟩ time e c ↔
      ∀ root ∈ parse numbers e.szpayload, Cloud.Accepts szDevName root) ∧
    (Tb.Safe numbers none e' dev ↔ ∀ root ∈ parse numbers e'.szpayload, Tb.Accepts root) :=
  ⟨Cloud.safe_iff, Tb.safe_iff⟩

/-- A `set uab` without its parameter, and a method that is a number. -/
theorem not_receiversSafe :
    ¬Cloud.Safe (Cloud.Env.pcs none) 0
        (Cloud.message (ascii "\x7b\"cmd\":\"set uab\"\x7d")) Cloud.State.start ∧
      ¬Tb.Safe Numbers.rational none (Cloud.message (ascii "\x7b\"method\":5\x7d")) Tb.tbInit := by
  constructor
  · rintro ⟨c', h, -⟩
    have hfault : (Cloud.cloudProcRecv (Cloud.Env.pcs none) 0
        (some (Cloud.message (ascii "\x7b\"cmd\":\"set uab\"\x7d"))) Cloud.State.start).isOk =
          false := by decide +kernel
    rw [h] at hfault
    cases hfault
  · rintro ⟨dev', h, -⟩
    have hfault : (Tb.tbProcRecv Numbers.rational none
        (some (Cloud.message (ascii "\x7b\"method\":5\x7d"))) Tb.tbInit).isOk = false := by
      decide +kernel
    rw [h] at hfault
    cases hfault

end Receivers
