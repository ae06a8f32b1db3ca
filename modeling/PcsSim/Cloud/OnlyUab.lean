import PcsSim.Cloud.Safety
import PcsSim.Cloud.SetUab

/-!
# Invalid commands and `MDL`

`cloud_proc_recv` stores the value of `param` whatever its type, and reads
`param` without a check that it is there.
-/

namespace Cloud

open CJson Mqtt

variable {D : Type} {env : Env D} {root cmd subCmd upd : CJson D} {mdl : Mdl D} {time : Int64}
  {e : Element} {c : State D}

/-- The number that a message asks to be stored, if it is a valid `set uab`. -/
def numberParam (root : CJson D) : Option D :=
  match root.getObjectItem (ascii "cmd") with
  | none => none
  | some cmd =>
    if cmd.isString ∧ cmd.valuestring = some (ascii "set uab") then
      match root.getObjectItem (ascii "param") with
      | none => none
      | some param => if param.type = .number then some param.valuedouble else none
    else none

/-- The call returns, and `MDL` is as before but for the number that a valid
`set uab` stores. -/
def OnlySetsUab (env : Env D) (time : Int64) (e : Element) (c : State D) : Prop :=
  ∃ c', cloudProcRecv env time (some e) c = .ok c' ∧
    c'.mdl = storeUab c.mdl ((parse env.numbers e.szpayload).bind numberParam)

/-- A first sub-command that is handled to the end.  The text of the command
around it, which it has not, is printed. -/
def SurvivesSubCommand (env : Env D) (subCmd : CJson D) : Prop :=
  env.nullText.isSome ∧ subCmd.string.isSome ∧
    (subCmd.string = some (ascii "set_ctn_cmd") ∨ subCmd.string = some (ascii "meter_send_cmd") →
      subCmd.valuestring.isSome)

def SurvivesUpdate (env : Env D) (upd : CJson D) : Prop :=
  env.nullText.isSome ∧ ∀ name ∈ [ascii "uab", ascii "uca", ascii "ubc"],
    (upd.getObjectItem name).isSome

/-- The documents that `cloud_proc_recv` handles to the end. -/
def Survives (env : Env D) (root : CJson D) : Prop :=
  match root.getObjectItem (ascii "cmd") with
  | some cmd =>
    if cmd.isString then
      env.szDevName.length + 4 < 128 ∧
        (cmd.valuestring = some (ascii "set uab") → (root.getObjectItem (ascii "param")).isSome)
    else
      ∀ subCmd ∈ cmd.child.head?,
        env.szDevName.length + 4 < 128 ∧ SurvivesSubCommand env subCmd
  | none => ∀ upd ∈ root.getObjectItem (ascii "update"), SurvivesUpdate env upd

/-- The parameter of a `set uab`, if there is one, is a number, or `MDL.uab`
is 0 already. -/
def ParamHarmless (numbers : Numbers D) (mdl : Mdl D) (root : CJson D) : Prop :=
  ∀ cmd ∈ root.getObjectItem (ascii "cmd"), cmd.valuestring = some (ascii "set uab") →
    ∀ param ∈ root.getObjectItem (ascii "param"), param.type = .number ∨ mdl.uab = numbers.zero

/-! ## Which documents are handled to the end -/

theorem logDbg_of_nullText {l : List (Option Bytes)} (t : Bytes) : logDbg (some t) l = .ok () := by
  induction l with
  | nil => rfl
  | cons s l ih => cases s <;> simpa [logDbg, formatString] using ih

theorem setCtnCmd_eq_ok : setCtnCmd subCmd = .ok () ↔ subCmd.valuestring.isSome := by
  unfold setCtnCmd
  cases subCmd.valuestring with
  | none => simp
  | some s => simp [pure, Except.pure]

theorem meterSendCmd_eq_ok : meterSendCmd subCmd = .ok () ↔ subCmd.valuestring.isSome := by
  unfold meterSendCmd
  cases subCmd.valuestring with
  | none => simp [sscanf]
  | some s => by_cases hstdby : s = ascii "stdby" <;> simp [hstdby, pure, Except.pure]

theorem procSubCmd_eq_ok {t : Bytes} (hnull : env.nullText = some t) :
    procSubCmd env subCmd = .ok () ↔ SurvivesSubCommand env subCmd := by
  unfold procSubCmd SurvivesSubCommand
  cases hname : subCmd.string with
  | none => simp
  | some name =>
      by_cases hctn : name = ascii "set_ctn_cmd"
      · simp [hctn, hnull, setCtnCmd_eq_ok]
      by_cases hmeter : name = ascii "meter_send_cmd"
      · have hne : ascii "meter_send_cmd" ≠ ascii "set_ctn_cmd" := by decide
        simp [hne, hmeter, hnull, meterSendCmd_eq_ok]
      · simp [hctn, hmeter, hnull, logDbg_of_nullText]

theorem ctnCommand_returns_iff (hcmd : WellFormed cmd) (htext : ¬cmd.isString)
    (hsub : cmd.child.head? = some subCmd) :
    (∃ szResponse, ctnCommand env cmd subCmd = .ok szResponse) ↔
      SurvivesSubCommand env subCmd := by
  cases hnull : env.nullText with
  | none =>
      refine iff_of_false ?_ (fun h ↦ by simp [SurvivesSubCommand, hnull] at h)
      rintro ⟨szResponse, h⟩
      obtain ⟨numbers, szDevName, nullText⟩ := env
      cases hnull
      exact ctnCommand_ne_ok hcmd htext hsub h
  | some t =>
      rw [← procSubCmd_eq_ok hnull]
      unfold ctnCommand
      simp only [Except.bind_eq_ok_iff, hnull, logDbg_of_nullText]
      constructor
      · rintro ⟨_, _, _, _, _, _, hproc, _⟩
        exact hproc
      · intro hproc
        cases hname : subCmd.string with
        | none => exact ⟨_, t, rfl, (), trivial, (), hproc, rfl⟩
        | some name => exact ⟨_, name, rfl, (), trivial, (), hproc, rfl⟩

theorem returns_subCommand_iff_survives (hcmd : root.getObjectItem (ascii "cmd") = some cmd)
    (hwf : WellFormed cmd) (htext : ¬cmd.isString) :
    Returns env root mdl ↔ ∀ subCmd ∈ cmd.child.head?,
      env.szDevName.length + 4 < 128 ∧ SurvivesSubCommand env subCmd := by
  cases hchild : cmd.child with
  | nil => exact iff_of_true ⟨none, mdl, procRoot_childless hcmd htext hchild, by simp⟩ (by simp)
  | cons subCmd l =>
      have hsub : cmd.child.head? = some subCmd := by rw [hchild]; rfl
      simp only [List.head?_cons, Option.mem_some_iff, forall_eq']
      rw [← ctnCommand_returns_iff hwf htext hsub]
      unfold Returns
      rw [procRoot_subCommand hcmd htext hsub]
      constructor
      · rintro ⟨szResponse, mdl', h, hfits⟩
        cases hc : ctnCommand env cmd subCmd with
        | error fault => simp [hc, Except.map] at h
        | ok s =>
            simp only [hc, Except.map, Except.ok.injEq, Prod.mk.injEq] at h
            exact ⟨hfits (by simp [← h.1]), s, rfl⟩
      · rintro ⟨hfits, s, hs⟩
        exact ⟨some s, mdl, by rw [hs]; rfl, fun _ ↦ hfits⟩

theorem updateQuantity_eq_ok {t : Bytes} (hnull : env.nullText = some t) {name : Bytes} :
    updateQuantity env upd name = .ok () ↔ (upd.getObjectItem name).isSome := by
  unfold updateQuantity
  cases upd.getObjectItem name with
  | none => simp [deref]
  | some item => simp [deref, hnull, logDbg_of_nullText]

theorem update_eq_ok (hupd : WellFormed upd) :
    update env upd = .ok () ↔ SurvivesUpdate env upd := by
  cases hnull : env.nullText with
  | none =>
      refine iff_of_false ?_ (fun h ↦ by simp [SurvivesUpdate, hnull] at h)
      obtain ⟨numbers, szDevName, nullText⟩ := env
      cases hnull
      exact update_ne_ok hupd
  | some t =>
      simp [update, SurvivesUpdate, Except.bind_eq_ok_iff, hnull, logDbg_of_nullText,
        updateQuantity_eq_ok hnull]

theorem returns_noCommand_iff_survives (hroot : WellFormed root)
    (hcmd : root.getObjectItem (ascii "cmd") = none) :
    Returns env root mdl ↔
      ∀ upd ∈ root.getObjectItem (ascii "update"), SurvivesUpdate env upd := by
  cases hupd : root.getObjectItem (ascii "update") with
  | none => exact iff_of_true ⟨none, mdl, procRoot_unknown hcmd hupd, by simp⟩ (by simp)
  | some upd =>
      simp only [Option.mem_some_iff, forall_eq']
      rw [← update_eq_ok (hroot.of_getObjectItem hupd)]
      unfold Returns
      rw [procRoot_update hcmd hupd]
      constructor
      · rintro ⟨szResponse, mdl', h, -⟩
        cases hu : update env upd with
        | error fault => simp [hu, Except.map] at h
        | ok _ => rfl
      · intro hu
        exact ⟨none, mdl, by rw [hu]; rfl, by simp⟩

theorem returns_iff_survives (hroot : WellFormed root) :
    Returns env root mdl ↔ Survives env root := by
  unfold Survives
  cases hcmd : root.getObjectItem (ascii "cmd") with
  | none => exact returns_noCommand_iff_survives hroot hcmd
  | some cmd =>
      have hwf := hroot.of_getObjectItem hcmd
      by_cases htext : cmd.isString
      · simp only [if_pos htext]
        exact returns_text_iff hcmd hwf htext
      · simp only [if_neg htext]
        exact returns_subCommand_iff_survives hcmd hwf htext

/-! ## What is stored -/

theorem storeUab_eq_self_iff {uab : D} : storeUab mdl (some uab) = mdl ↔ mdl.uab = uab := by
  constructor
  · intro h
    exact (congrArg Mdl.uab h).symm
  · rintro rfl
    rfl

theorem storeUab_eq_iff {numbers : Numbers D} (hwf : WellFormed root)
    (hzero : Everywhere (NumberOrZero numbers) root) :
    storeUab mdl (uabParam root) = storeUab mdl (numberParam root) ↔
      ParamHarmless numbers mdl root := by
  unfold uabParam numberParam ParamHarmless
  cases hcmd : root.getObjectItem (ascii "cmd") with
  | none => simp
  | some cmd =>
      have hcmdwf := hwf.of_getObjectItem hcmd
      by_cases hvalue : cmd.valuestring = some (ascii "set uab")
      · have htext := hcmdwf.isString_of_valuestring hvalue
        cases hparam : root.getObjectItem (ascii "param") with
        | none => simp [htext, hvalue]
        | some param =>
            by_cases hnumber : param.type = .number
            · simp [htext, hvalue, hnumber]
            · have hparamzero := (hzero.of_getObjectItem hparam).here hnumber
              simp only [htext, hvalue, hnumber, hparamzero, and_self, if_true, if_false,
                Option.map_some, Option.mem_some_iff, forall_eq', forall_const, false_or]
              exact storeUab_eq_self_iff
      · simp [hvalue]

theorem safe_of_handled {c' : State D} (h : Handled env time e c c') : Safe env time e c := by
  refine ⟨c', cloudProcRecv_eq_ok_iff.mpr h, ?_⟩
  cases h with
  | unparsed hparse => simp [hparse]
  | silent hparse _ => simp [hparse, State.delete, State.setMdl]
  | answered hparse _ _ => simp [hparse, State.delete, State.queue, State.setMdl]

theorem onlySetsUab_iff (env : Env D) (time : Int64) (e : Element) (c : State D) :
    OnlySetsUab env time e c ↔ ∀ root ∈ parse env.numbers e.szpayload,
      Survives env root ∧ ParamHarmless env.numbers c.mdl root := by
  unfold OnlySetsUab
  simp only [cloudProcRecv_eq_ok_iff]
  cases hparse : parse env.numbers e.szpayload with
  | none =>
      refine iff_of_true ⟨c, .unparsed hparse, ?_⟩ (by simp)
      simp [storeUab]
  | some root =>
      have hwf := wellFormed_of_parse hparse
      simp only [Option.mem_some_iff, forall_eq', Option.bind_some]
      have hsafe : Safe env time e c ↔ Returns env root c.mdl := safe_iff_of_parse hparse
      rw [← returns_iff_survives hwf, ← storeUab_eq_iff hwf (numberOrZero_of_parse hparse),
        ← hsafe]
      have hmdl : ∀ c', Handled env time e c c' → c'.mdl = storeUab c.mdl (uabParam root) := by
        intro c' h
        simpa [storedUab, hparse] using mdl_of_handled h
      constructor
      · rintro ⟨c', h, heq⟩
        exact ⟨safe_of_handled h, (hmdl c' h).symm.trans heq⟩
      · rintro ⟨⟨c', hcall, -⟩, heq⟩
        have h := cloudProcRecv_eq_ok_iff.mp hcall
        exact ⟨c', h, (hmdl c' h).trans heq⟩

def textParam : Element := message (ascii "\x7b\"cmd\":\"set uab\",\"param\":\"400\"\x7d")

/-- A parameter that is a text sets `uab` to 0. -/
theorem not_onlySetsUab_text : ¬OnlySetsUab (Env.pcs none) 0 textParam State.start := by
  rintro ⟨c', h, hmdl⟩
  have hstored : storedUab (Env.pcs none).numbers textParam = some 0 := by decide +kernel
  have hinvalid : (parse (Env.pcs none).numbers textParam.szpayload).bind numberParam = none := by
    decide +kernel
  have huab := mdl_of_handled (cloudProcRecv_eq_ok_iff.mp h)
  rw [hmdl, hstored, hinvalid] at huab
  exact absurd (congrArg Mdl.uab huab) (by decide +kernel)

end Cloud
