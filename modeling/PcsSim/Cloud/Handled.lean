import PcsSim.Cloud.Recv

/-!
# What a call of `cloud_proc_recv` does

One lemma for each function, from the result back to what it met.
-/

namespace Cloud

open CJson Mqtt

variable {D : Type} {env : Env D} {root cmd subCmd : CJson D} {mdl mdl' : Mdl D}

section Branches

/-- What `szResponse` says about a command.  The last text is composed, but
the jump to `JSON_DONE` drops it. -/
inductive Outcome (cmd : CJson D) : Bytes → Prop
  | text {text : Bytes} (hcmd : cmd.isString) (htext : cmd.valuestring = some text) :
      Outcome cmd (snprintf 128 (ascii "cloud_proc_recv get cmd:" ++ text))
  | subCommand {subCmd : CJson D} {name : Bytes} (hcmd : ¬cmd.isString)
      (hsub : cmd.child.head? = some subCmd) (hname : subCmd.string = some name) :
      Outcome cmd (snprintf 128 (ascii "ctn cmd " ++ name ++ ascii " received"))
  | invalid (hcmd : ¬cmd.isString) (hchild : cmd.child = []) :
      Outcome cmd (snprintf 128 (ascii "subcmd is invalid"))

theorem Outcome.length_lt {szResponse : Bytes} (h : Outcome cmd szResponse) :
    szResponse.length < 128 := by
  cases h with
  | text _ _ => exact Nat.lt_of_le_of_lt (List.length_take_le _ _) (by decide)
  | subCommand _ _ _ => exact Nat.lt_of_le_of_lt (List.length_take_le _ _) (by decide)
  | invalid _ _ => exact Nat.lt_of_le_of_lt (List.length_take_le _ _) (by decide)

theorem textCommand_eq_ok_iff {szResponse : Bytes} :
    textCommand env root cmd mdl = .ok (szResponse, mdl') ↔
      ∃ text, cmd.valuestring = some text ∧
        snprintf 128 (ascii "cloud_proc_recv get cmd:" ++ text) = szResponse ∧
        (if text = ascii "set uab" then
          ∃ param, root.getObjectItem (ascii "param") = some param ∧
            { mdl with uab := param.valuedouble } = mdl'
        else mdl = mdl') := by
  unfold textCommand
  cases htext : cmd.valuestring with
  | none => simp [Except.bind_eq_ok_iff]
  | some text =>
      by_cases huab : text = ascii "set uab"
      · simp [huab, Except.bind_eq_ok_iff, pure, Except.pure]
        grind
      · simp [huab, pure, Except.pure]

theorem outcome_of_ctnCommand {szResponse : Bytes} (hcmd : ¬cmd.isString)
    (hsub : cmd.child.head? = some subCmd) (h : ctnCommand env cmd subCmd = .ok szResponse) :
    Outcome cmd szResponse ∧ logDbg env.nullText [subCmd.string, cmd.valuestring] = .ok () := by
  simp only [ctnCommand, Except.bind_eq_ok_iff] at h
  obtain ⟨name, hprint, _, hlog, _, hproc, hresponse⟩ := h
  cases hname : subCmd.string with
  | none => simp [procSubCmd, hname] at hproc
  | some text =>
      rw [hname, formatString_some] at hprint
      cases hprint
      cases hresponse
      exact ⟨.subCommand hcmd hsub hname, by rw [← hname]; exact hlog⟩

theorem procRoot_text (hcmd : root.getObjectItem (ascii "cmd") = some cmd)
    (htext : cmd.isString) :
    procRoot env root mdl = (textCommand env root cmd mdl).map fun r ↦ (some r.1, r.2) := by
  simp only [procRoot, hcmd, htext, if_true]
  cases textCommand env root cmd mdl with
  | error e => rfl
  | ok r => rfl

theorem procRoot_subCommand (hcmd : root.getObjectItem (ascii "cmd") = some cmd)
    (htext : ¬cmd.isString) (hsub : cmd.child.head? = some subCmd) :
    procRoot env root mdl = (ctnCommand env cmd subCmd).map fun r ↦ (some r, mdl) := by
  simp only [procRoot, hcmd, if_neg htext, hsub]
  cases ctnCommand env cmd subCmd with
  | error e => rfl
  | ok r => rfl

theorem procRoot_childless (hcmd : root.getObjectItem (ascii "cmd") = some cmd)
    (htext : ¬cmd.isString) (hchild : cmd.child = []) :
    procRoot env root mdl = .ok (none, mdl) := by
  simp [procRoot, hcmd, htext, hchild, pure, Except.pure]

theorem procRoot_update {upd : CJson D} (hcmd : root.getObjectItem (ascii "cmd") = none)
    (hupd : root.getObjectItem (ascii "update") = some upd) :
    procRoot env root mdl = (update env upd).map fun _ ↦ (none, mdl) := by
  simp only [procRoot, hcmd, hupd]
  cases update env upd with
  | error e => rfl
  | ok r => rfl

theorem procRoot_unknown (hcmd : root.getObjectItem (ascii "cmd") = none)
    (hupd : root.getObjectItem (ascii "update") = none) :
    procRoot env root mdl = .ok (none, mdl) := by
  simp [procRoot, hcmd, hupd, pure, Except.pure]

theorem procRoot_of_noCommand {szResponse : Option Bytes}
    (hcmd : root.getObjectItem (ascii "cmd") = none)
    (h : procRoot env root mdl = .ok (szResponse, mdl')) : szResponse = none ∧ mdl' = mdl := by
  cases hupd : root.getObjectItem (ascii "update") with
  | none =>
      rw [procRoot_unknown hcmd hupd] at h
      cases h
      exact ⟨rfl, rfl⟩
  | some upd =>
      rw [procRoot_update hcmd hupd] at h
      cases hu : update env upd with
      | error e => simp [hu, Except.map] at h
      | ok _ =>
          simp only [hu, Except.map, Except.ok.injEq, Prod.mk.injEq] at h
          exact ⟨h.1.symm, h.2.symm⟩

/-- A command that is no text and has no child is dropped; every other one is
answered with its outcome. -/
theorem procRoot_of_command {szResponse : Option Bytes}
    (hcmd : root.getObjectItem (ascii "cmd") = some cmd)
    (h : procRoot env root mdl = .ok (szResponse, mdl')) :
    (¬cmd.isString ∧ cmd.child = [] ∧ szResponse = none) ∨
      ((cmd.isString ∨ cmd.child ≠ []) ∧ ∃ s, szResponse = some s ∧ Outcome cmd s) := by
  by_cases htext : cmd.isString
  · rw [procRoot_text hcmd htext] at h
    cases ht : textCommand env root cmd mdl with
    | error e => simp [ht, Except.map] at h
    | ok r =>
        obtain ⟨s, mdl''⟩ := r
        obtain ⟨text, hvalue, rfl, -⟩ := textCommand_eq_ok_iff.mp ht
        simp only [ht, Except.map, Except.ok.injEq, Prod.mk.injEq] at h
        exact Or.inr ⟨Or.inl htext, _, h.1.symm, .text htext hvalue⟩
  · cases hchild : cmd.child with
    | nil =>
        rw [procRoot_childless hcmd htext hchild] at h
        cases h
        exact Or.inl ⟨htext, rfl, rfl⟩
    | cons subCmd l =>
        have hsub : cmd.child.head? = some subCmd := by rw [hchild]; rfl
        rw [procRoot_subCommand hcmd htext hsub] at h
        cases hc : ctnCommand env cmd subCmd with
        | error e => simp [hc, Except.map] at h
        | ok s =>
            simp only [hc, Except.map, Except.ok.injEq, Prod.mk.injEq] at h
            exact Or.inr ⟨Or.inr (by simp), s, h.1.symm,
              (outcome_of_ctnCommand htext hsub hc).1⟩

end Branches

section Calls

variable {time : Int64} {e : Element} {c c' : State D}

def answer (env : Env D) (time : Int64) (szResponse : Bytes) : Element where
  cmd := cmdMqttSendkv
  sztopic := env.szDevName ++ ascii "-ctl"
  szpayload := responsePayload (cloudGetTimezonets time) szResponse

theorem length_responsePayload_lt (time : Int64) {szResponse : Bytes}
    (h : szResponse.length < 128) :
    (responsePayload (cloudGetTimezonets time) szResponse).length < 8000 := by
  have htime : (decimal (cloudGetTimezonets time)).length ≤ 20 :=
    length_decimal_le (Int64.le_toInt _) (Int64.toInt_lt _)
  have hopen : (ascii "\x7b\"type\":\"response\",\"timestamp\":").length = 31 := by decide
  have hdata : (ascii ",\"data\":\"").length = 9 := by decide
  have hclose : (ascii "\"\x7d").length = 2 := by decide
  simp only [responsePayload, List.length_append]
  omega

theorem respond_eq_ok_iff {szResponse : Bytes} (h : szResponse.length < 128) :
    respond env time szResponse c = .ok c' ↔
      env.szDevName.length + 4 < 128 ∧ c' = c.queue (answer env time szResponse) := by
  have hpayload := length_responsePayload_lt time h
  have htopic : (env.szDevName ++ ascii "-ctl").length = env.szDevName.length + 4 := by
    simp [ascii]
  unfold respond
  simp only [Except.bind_eq_ok_iff, sprintf_eq_ok, htopic]
  constructor
  · rintro ⟨szpayload, ⟨-, rfl⟩, sztopic, ⟨hfits, rfl⟩, hc⟩
    cases hc
    exact ⟨hfits, rfl⟩
  · rintro ⟨hfits, rfl⟩
    exact ⟨_, ⟨hpayload, rfl⟩, _, ⟨hfits, rfl⟩, rfl⟩

/-- What a call that got a message and returned has done. -/
inductive Handled (env : Env D) (time : Int64) (e : Element) (c : State D) : State D → Prop
  | unparsed (hparse : parse env.numbers e.szpayload = none) : Handled env time e c c
  | silent {root : CJson D} {mdl : Mdl D} (hparse : parse env.numbers e.szpayload = some root)
      (hproc : procRoot env root c.mdl = .ok (none, mdl)) :
      Handled env time e c ((c.setMdl mdl).delete root)
  | answered {root : CJson D} {mdl : Mdl D} {szResponse : Bytes}
      (hparse : parse env.numbers e.szpayload = some root)
      (hproc : procRoot env root c.mdl = .ok (some szResponse, mdl))
      (hfits : env.szDevName.length + 4 < 128) :
      Handled env time e c
        (((c.setMdl mdl).queue (answer env time szResponse)).delete root)

theorem length_lt_of_procRoot {szResponse : Bytes}
    (h : procRoot env root mdl = .ok (some szResponse, mdl')) : szResponse.length < 128 := by
  cases hcmd : root.getObjectItem (ascii "cmd") with
  | none =>
      obtain ⟨hnone, -⟩ := procRoot_of_noCommand hcmd h
      cases hnone
  | some cmd =>
      rcases procRoot_of_command hcmd h with ⟨-, -, hnone⟩ | ⟨-, s, hs, houtcome⟩
      · cases hnone
      · cases hs
        exact houtcome.length_lt

theorem cloudProcRecv_of_parse_eq_none (hparse : parse env.numbers e.szpayload = none) :
    cloudProcRecv env time (some e) c = .ok c := by
  simp [cloudProcRecv, hparse]

theorem cloudProcRecv_of_parse {root : CJson D}
    (hparse : parse env.numbers e.szpayload = some root) :
    cloudProcRecv env time (some e) c =
      procRoot env root c.mdl >>= fun r ↦
        respondIfNeeded env time r.1 (c.setMdl r.2) >>= fun c ↦ .ok (c.delete root) := by
  simp [cloudProcRecv, hparse, pure, Except.pure]

theorem cloudProcRecv_eq_ok_iff :
    cloudProcRecv env time (some e) c = .ok c' ↔ Handled env time e c c' := by
  constructor
  · intro h
    cases hparse : parse env.numbers e.szpayload with
    | none =>
        rw [cloudProcRecv_of_parse_eq_none hparse] at h
        cases h
        exact .unparsed hparse
    | some root =>
        simp only [cloudProcRecv_of_parse hparse, Except.bind_eq_ok_iff] at h
        obtain ⟨⟨szResponse, mdl⟩, hproc, c₁, hrespond, h⟩ := h
        cases h
        cases szResponse with
        | none =>
            cases hrespond
            exact .silent hparse hproc
        | some szResponse =>
            obtain ⟨hfits, rfl⟩ := (respond_eq_ok_iff (length_lt_of_procRoot hproc)).mp hrespond
            exact .answered hparse hproc hfits
  · intro h
    cases h with
    | unparsed hparse => exact cloudProcRecv_of_parse_eq_none hparse
    | silent hparse hproc =>
        rw [cloudProcRecv_of_parse hparse, hproc]
        rfl
    | @answered root mdl szResponse hparse hproc hfits =>
        have hrespond : respond env time szResponse (c.setMdl mdl) =
            .ok ((c.setMdl mdl).queue (answer env time szResponse)) :=
          (respond_eq_ok_iff (length_lt_of_procRoot hproc)).mpr ⟨hfits, rfl⟩
        rw [cloudProcRecv_of_parse hparse, hproc]
        simp [respondIfNeeded, hrespond]

end Calls

end Cloud
