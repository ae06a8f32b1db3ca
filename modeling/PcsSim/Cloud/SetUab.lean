import PcsSim.Cloud.Handled

/-!
# What a message does to `MDL`

A call of `cloud_proc_recv` that returns changes `MDL.uab` if the message is a
`set uab` with a parameter, and nothing else in `MDL`.
-/

namespace Cloud

open CJson Mqtt

variable {D : Type} {env : Env D} {root cmd : CJson D} {mdl mdl' : Mdl D}

def uabParam (root : CJson D) : Option D :=
  match root.getObjectItem (ascii "cmd") with
  | none => none
  | some cmd =>
    if cmd.isString ∧ cmd.valuestring = some (ascii "set uab") then
      (root.getObjectItem (ascii "param")).map (·.valuedouble)
    else none

/-- What a received message stores into `MDL.uab`, if anything. -/
def storedUab (numbers : Numbers D) (e : Element) : Option D :=
  (parse numbers e.szpayload).bind uabParam

def storeUab (mdl : Mdl D) : Option D → Mdl D
  | none => mdl
  | some uab => { mdl with uab := uab }

theorem uabParam_of_text {text : Bytes} (hcmd : root.getObjectItem (ascii "cmd") = some cmd)
    (htext : cmd.isString) (hvalue : cmd.valuestring = some text) :
    uabParam root = if text = ascii "set uab" then
      (root.getObjectItem (ascii "param")).map (·.valuedouble) else none := by
  simp [uabParam, hcmd, htext, hvalue]

theorem uabParam_of_not_text (hcmd : root.getObjectItem (ascii "cmd") = some cmd)
    (htext : ¬cmd.isString) : uabParam root = none := by
  simp [uabParam, hcmd, htext]

theorem mdl_of_procRoot {szResponse : Option Bytes}
    (h : procRoot env root mdl = .ok (szResponse, mdl')) : mdl' = storeUab mdl (uabParam root) := by
  cases hcmd : root.getObjectItem (ascii "cmd") with
  | none =>
      obtain ⟨-, rfl⟩ := procRoot_of_noCommand hcmd h
      simp [uabParam, hcmd, storeUab]
  | some cmd =>
      by_cases htext : cmd.isString
      · rw [procRoot_text hcmd htext] at h
        cases ht : textCommand env root cmd mdl with
        | error fault => simp [ht, Except.map] at h
        | ok r =>
            obtain ⟨s, mdl''⟩ := r
            simp only [ht, Except.map, Except.ok.injEq, Prod.mk.injEq] at h
            obtain ⟨text, hvalue, -, hparam⟩ := textCommand_eq_ok_iff.mp ht
            rw [uabParam_of_text hcmd htext hvalue, ← h.2]
            split_ifs at hparam ⊢ with huab
            · obtain ⟨param, hparam, rfl⟩ := hparam
              simp [hparam, storeUab]
            · exact hparam.symm
      · rw [uabParam_of_not_text hcmd htext]
        cases hchild : cmd.child with
        | nil =>
            rw [procRoot_childless hcmd htext hchild] at h
            cases h
            rfl
        | cons subCmd l =>
            rw [procRoot_subCommand hcmd htext (by rw [hchild]; rfl)] at h
            cases hc : ctnCommand env cmd subCmd with
            | error fault => simp [hc, Except.map] at h
            | ok s =>
                simp only [hc, Except.map, Except.ok.injEq, Prod.mk.injEq] at h
                exact h.2.symm

theorem mdl_of_handled {time : Int64} {e : Element} {c c' : State D}
    (h : Handled env time e c c') : c'.mdl = storeUab c.mdl (storedUab env.numbers e) := by
  cases h with
  | unparsed hparse => simp [storedUab, hparse, storeUab]
  | silent hparse hproc =>
      simp [storedUab, hparse, State.delete, State.setMdl, mdl_of_procRoot hproc]
  | answered hparse hproc _ =>
      simp [storedUab, hparse, State.delete, State.queue, State.setMdl, mdl_of_procRoot hproc]

end Cloud
