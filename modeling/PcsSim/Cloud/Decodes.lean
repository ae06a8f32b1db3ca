import PcsSim.CJson.Plain
import PcsSim.Cloud.Answer
import PcsSim.Cloud.Echo

/-!
# Answers that decode

`cloud_proc_recv` pastes `szResponse` between the quotes as it is, where
`cloud_update` has its payload printed by cJSON.
-/

namespace Cloud

open CJson Mqtt

variable {D : Type} {env : Env D} {numbers : Numbers D} {time : Int64} {e : Element}
  {c c' : State D} {timestamp : ℤ} {text s : Bytes}

structure IsAnswer (numbers : Numbers D) (timestamp : ℤ) (text : Bytes) (root : CJson D) :
    Prop where
  object : root.type = .object
  type : ∃ item, root.getObjectItem (ascii "type") = some item ∧
    item.valuestring = some (ascii "response")
  timestamp : ∃ item, root.getObjectItem (ascii "timestamp") = some item ∧
    item.type = .number ∧ item.valuedouble = numbers.strtod (decimal timestamp)
  data : ∃ item, root.getObjectItem (ascii "data") = some item ∧ item.valuestring = some text

/-- The payload is JSON and is read back as an answer with `text` as its data.
A control character has no place in JSON but within an escape; cJSON lets it
pass. -/
structure Decodes (numbers : Numbers D) (timestamp : ℤ) (text szpayload : Bytes) : Prop where
  answer : ∃ root, parse numbers szpayload = some root ∧ IsAnswer numbers timestamp text root
  noControl : ∀ b ∈ szpayload, 32 ≤ b

/-- The answer to the command text `s` decodes to what was said. -/
def AnswerDecodes (env : Env D) (time : Int64) (s : Bytes) (c c' : State D) : Prop :=
  ∃ a, c'.queued = c.queued ++ [a] ∧
    Decodes env.numbers (cloudGetTimezonets time)
      (snprintf 128 (ascii "cloud_proc_recv get cmd:" ++ s)) a.szpayload

/-- Neither JSON nor cJSON wants an escape for the byte. -/
def Literal (b : UInt8) : Prop := 32 ≤ b ∧ b ≠ quote ∧ b ≠ backslash

instance (b : UInt8) : Decidable (Literal b) := inferInstanceAs (Decidable (_ ∧ _))

section Members

theorem getObjectItem_type (rest : List (CJson D)) :
    getObjectItem { newItem numbers .object with
      child := textMember numbers (ascii "type") (ascii "response") :: rest } (ascii "type") =
        some (textMember numbers (ascii "type") (ascii "response")) := by
  have hname : compareLower (ascii "type") (ascii "type") = 0 := by decide
  simp [getObjectItem, caseInsensitiveStrcmp, textMember, hname]

theorem getObjectItem_timestamp (rest : List (CJson D)) :
    getObjectItem { newItem numbers .object with
      child := textMember numbers (ascii "type") (ascii "response") ::
        numberMember numbers (ascii "timestamp") timestamp :: rest } (ascii "timestamp") =
      some (numberMember numbers (ascii "timestamp") timestamp) := by
  have htype : compareLower (ascii "timestamp") (ascii "type") ≠ 0 := by decide
  have hname : compareLower (ascii "timestamp") (ascii "timestamp") = 0 := by decide
  simp [getObjectItem, caseInsensitiveStrcmp, textMember, numberMember, htype, hname]

theorem getObjectItem_data {x : CJson D} (hx : x.string = some (ascii "data"))
    (rest : List (CJson D)) :
    getObjectItem { newItem numbers .object with
      child := textMember numbers (ascii "type") (ascii "response") ::
        numberMember numbers (ascii "timestamp") timestamp :: x :: rest } (ascii "data") =
      some x := by
  have htype : compareLower (ascii "data") (ascii "type") ≠ 0 := by decide
  have hstamp : compareLower (ascii "data") (ascii "timestamp") ≠ 0 := by decide
  have hname : compareLower (ascii "data") (ascii "data") = 0 := by decide
  simp [getObjectItem, caseInsensitiveStrcmp, textMember, numberMember, htype, hstamp, hname, hx]

theorem isAnswer_responseItem (text : Bytes) :
    IsAnswer numbers timestamp text (responseItem numbers timestamp text) where
  object := rfl
  type := ⟨_, getObjectItem_type _, rfl⟩
  timestamp := ⟨_, getObjectItem_timestamp _, rfl, rfl⟩
  data := ⟨_, getObjectItem_data rfl _, rfl⟩

/-- The data are what is read from the quote before the pasted text on. -/
theorem parseString_of_isAnswer {root : CJson D} (htimestamp : (decimal timestamp).length < 63)
    (hparse : parse numbers (responsePayload timestamp text) = some root)
    (hroot : IsAnswer numbers timestamp s root) :
    ∃ tail, parseString (quote :: (text ++ quote :: [125, 0])) = some (s, tail) := by
  obtain ⟨n, hitems⟩ := parse_responsePayload_eq numbers text htimestamp []
  rw [List.append_nil, hparse] at hitems
  obtain ⟨⟨members, last⟩, hmembers, rfl⟩ := Option.map_eq_some_iff.mp hitems.symm
  obtain ⟨x, rest, b, tail, hx, -, hcase⟩ := Reader.separated_succ hmembers
  obtain ⟨ys, rfl⟩ : ∃ ys, members = x :: ys := by
    rcases hcase with ⟨-, ys, -, rfl⟩ | ⟨-, rfl, -⟩
    · exact ⟨ys, rfl⟩
    · exact ⟨[], rfl⟩
  obtain ⟨array, object, hvalue⟩ := parseValue_eq_parseKinds numbers 999
  rw [skipWhitespace_cons (by decide), parseMember_name (by decide) (by decide) _
    (skipWhitespace_cons (by decide) _), hvalue, parseKinds_quote, Option.map_map,
    Option.map_eq_some_iff] at hx
  obtain ⟨⟨data, rest'⟩, hread, heq⟩ := hx
  obtain ⟨rfl, -⟩ := Prod.mk.inj heq
  obtain ⟨item, hitem, hs⟩ := hroot.data
  rw [getObjectItem_data rfl] at hitem
  obtain rfl := Option.some.inj hitem
  obtain rfl : data = s := Option.some.inj hs
  exact ⟨rest', hread⟩

end Members

section Payloads

theorem noControl_responsePayload :
    (∀ b ∈ responsePayload timestamp text, 32 ≤ b) ↔ ∀ b ∈ text, 32 ≤ b := by
  have hopen : ∀ b ∈ ascii "\x7b\"type\":\"response\",\"timestamp\":", 32 ≤ b := by decide +kernel
  have hdata : ∀ b ∈ ascii ",\"data\":\"", 32 ≤ b := by decide +kernel
  have hclose : ∀ b ∈ ascii "\"\x7d", 32 ≤ b := by decide +kernel
  have hstamp : ∀ b ∈ decimal timestamp, 32 ≤ b := by
    intro b hb
    have hlt : 32 < b := UInt8.not_le.mp (not_space_of_numberByte (numberByte_of_decimal hb))
    exact UInt8.le_of_lt hlt
  simp only [responsePayload, List.forall_mem_append]
  constructor
  · rintro ⟨⟨-, htext⟩, -⟩
    exact htext
  · intro htext
    exact ⟨⟨⟨⟨hopen, hstamp⟩, hdata⟩, htext⟩, hclose⟩

theorem decodes_responsePayload_iff (hzero : 0 ∉ text)
    (htimestamp : (decimal timestamp).length < 63) :
    Decodes numbers timestamp text (responsePayload timestamp text) ↔ ∀ b ∈ text, Literal b := by
  constructor
  · rintro ⟨⟨root, hparse, hroot⟩, hcontrol⟩
    obtain ⟨tail, hread⟩ := parseString_of_isAnswer htimestamp hparse hroot
    have hplain := plain_of_parseString (by decide) hread
    intro b hb
    have hne : b ≠ quote ∧ b ≠ backslash := by simpa using List.all_eq_true.mp hplain b hb
    exact ⟨noControl_responsePayload.mp hcontrol b hb, hne⟩
  · intro h
    have hplain : plain text := by
      rw [plain, List.all_eq_true]
      intro b hb
      simpa using (h b hb).2
    have hparse : parse numbers (responsePayload timestamp text ++ []) =
        (unquoted text).map (responseItem numbers timestamp) :=
      parse_responsePayload (unbroken_of_plain hplain) htimestamp []
    rw [List.append_nil, unquoted_plain hplain hzero] at hparse
    refine ⟨⟨_, hparse, isAnswer_responseItem text⟩, ?_⟩
    exact noControl_responsePayload.mpr fun b hb ↦ (h b hb).1

end Payloads

section TextCommands

def commandText (numbers : Numbers D) (szpayload : Bytes) : Option Bytes :=
  (command numbers szpayload).bind CJson.valuestring

theorem queued_of_commandText (hs : commandText env.numbers e.szpayload = some s)
    (h : cloudProcRecv env time (some e) c = .ok c') :
    c'.queued = c.queued ++
      [answer env time (snprintf 128 (ascii "cloud_proc_recv get cmd:" ++ s))] := by
  obtain ⟨cmd, hcommand, hvalue⟩ := Option.bind_eq_some_iff.mp hs
  obtain ⟨root, hroot, hcmd⟩ := Option.bind_eq_some_iff.mp hcommand
  have htext : cmd.isString :=
    ((wellFormed_of_parse hroot).of_getObjectItem hcmd).isString_of_valuestring hvalue
  cases cloudProcRecv_eq_ok_iff.mp h with
  | unparsed hparse =>
      rw [hroot] at hparse
      cases hparse
  | silent hparse hproc =>
      obtain rfl := Option.some.inj (hroot.symm.trans hparse)
      rcases procRoot_of_command hcmd hproc with ⟨hno, -, -⟩ | ⟨-, t, ht, -⟩
      · exact absurd htext hno
      · cases ht
  | answered hparse hproc _ =>
      obtain rfl := Option.some.inj (hroot.symm.trans hparse)
      rcases procRoot_of_command hcmd hproc with ⟨hno, -, -⟩ | ⟨-, t, ht, houtcome⟩
      · exact absurd htext hno
      · cases ht
        cases houtcome with
        | text _ ht =>
            obtain rfl := Option.some.inj (hvalue.symm.trans ht)
            rfl
        | subCommand hno _ _ => exact absurd htext hno
        | invalid hno _ => exact absurd htext hno

theorem zero_not_mem_commandText (hs : commandText numbers e.szpayload = some s) : 0 ∉ s := by
  obtain ⟨cmd, hcommand, hvalue⟩ := Option.bind_eq_some_iff.mp hs
  obtain ⟨root, hroot, hcmd⟩ := Option.bind_eq_some_iff.mp hcommand
  exact ((zero_not_mem_of_parse hroot).of_getObjectItem hcmd).here s hvalue

theorem answerDecodes_iff (hs : commandText env.numbers e.szpayload = some s)
    (h : cloudProcRecv env time (some e) c = .ok c') :
    AnswerDecodes env time s c c' ↔ ∀ b ∈ s.take 103, Literal b := by
  have hprefix : ∀ b ∈ ascii "cloud_proc_recv get cmd:", Literal b := by decide +kernel
  have hzero : 0 ∉ snprintf 128 (ascii "cloud_proc_recv get cmd:" ++ s) := by
    rw [snprintf_getCmd, List.mem_append, not_or]
    refine ⟨by decide, fun hb ↦ ?_⟩
    exact zero_not_mem_commandText hs (List.mem_of_mem_take hb)
  have htimestamp : (decimal (cloudGetTimezonets time)).length < 63 :=
    (length_decimal_le (Int64.le_toInt _) (Int64.toInt_lt _)).trans_lt (by decide)
  have hliteral : (∀ b ∈ snprintf 128 (ascii "cloud_proc_recv get cmd:" ++ s), Literal b) ↔
      ∀ b ∈ s.take 103, Literal b := by
    rw [snprintf_getCmd, List.forall_mem_append, and_iff_right hprefix]
  rw [← hliteral, ← decodes_responsePayload_iff hzero htimestamp]
  unfold AnswerDecodes
  rw [queued_of_commandText hs h]
  constructor
  · rintro ⟨a, ha, hdec⟩
    obtain rfl : answer env time _ = a := by simpa using ha
    exact hdec
  · intro hdec
    exact ⟨_, rfl, hdec⟩

theorem answerDecodes_ready :
    ∃ c', cloudProcRecv (Env.pcs none) 0 (some (message (ascii "\x7b\"cmd\":\"ready\"\x7d")))
        State.start = .ok c' ∧
      AnswerDecodes (Env.pcs none) 0 (ascii "ready") State.start c' := by
  have hok : (cloudProcRecv (Env.pcs none) 0 (some (message (ascii "\x7b\"cmd\":\"ready\"\x7d")))
      State.start).isOk = true := by decide +kernel
  obtain ⟨c', h⟩ := Except.exists_of_isOk hok
  exact ⟨c', h, (answerDecodes_iff (by decide +kernel) h).mpr (by decide +kernel)⟩

/-- `{"cmd":"say \"hi\""}` -/
def quotedCommand : Element := message (ascii "\x7b\"cmd\":\"say \\\"hi\\\"\"\x7d")

/-- The answer to a command with quotes in its text does not parse. -/
theorem not_answerDecodes_quotedCommand :
    ∃ c', cloudProcRecv (Env.pcs none) 0 (some quotedCommand) State.start = .ok c' ∧
      commandText (Env.pcs none).numbers quotedCommand.szpayload =
        some (ascii "say \"hi\"") ∧
      ¬AnswerDecodes (Env.pcs none) 0 (ascii "say \"hi\"") State.start c' := by
  have hok : (cloudProcRecv (Env.pcs none) 0 (some quotedCommand) State.start).isOk = true := by
    decide +kernel
  have htext : commandText (Env.pcs none).numbers quotedCommand.szpayload =
      some (ascii "say \"hi\"") := by decide +kernel
  have hunparsed : (parse (Env.pcs none).numbers (answer (Env.pcs none) 0 (snprintf 128
      (ascii "cloud_proc_recv get cmd:" ++ ascii "say \"hi\""))).szpayload).isNone := by
    decide +kernel
  obtain ⟨c', h⟩ := Except.exists_of_isOk hok
  refine ⟨c', h, htext, ?_⟩
  rintro ⟨a, ha, ⟨root, hparse, -⟩, -⟩
  rw [queued_of_commandText htext h] at ha
  obtain rfl : answer (Env.pcs none) 0 _ = a := by simpa using ha
  rw [hparse] at hunparsed
  cases hunparsed

end TextCommands

end Cloud
