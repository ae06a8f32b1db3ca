import PcsSim.CJson.Compose
import PcsSim.CJson.WellFormed
import PcsSim.Cloud.Handled
import PcsSim.Lib.Runs
import PcsSim.Mqtt.StateMachine

/-!
# Answers that come back

The program subscribes to the topic on which it answers, so the broker returns
each answer.  `mqtt_msgarrvd` copies it with `strncpy`, which sets no NUL, so
what was in the array before may follow it.
-/

namespace Cloud

open CJson Mqtt

variable {D : Type} {env : Env D} {numbers : Numbers D}

section Answers

/-- The answer as it is read back. -/
def responseItem (numbers : Numbers D) (timestamp : ℤ) (text : Bytes) : CJson D :=
  { newItem numbers .object with
    child := [
      textMember numbers (ascii "type") (ascii "response"),
      numberMember numbers (ascii "timestamp") timestamp,
      textMember numbers (ascii "data") text] }

theorem responsePayload_append (timestamp : ℤ) (szResponse leftover : Bytes) :
    responsePayload timestamp szResponse ++ leftover =
      123 :: quote :: (ascii "type" ++ quote :: colon :: quote :: (ascii "response" ++
        quote :: comma :: quote :: (ascii "timestamp" ++ quote :: colon :: (decimal timestamp ++
          comma :: quote :: (ascii "data" ++ quote :: colon :: quote :: (szResponse ++
            quote :: 125 :: leftover)))))) := by
  have hopen : ascii "\x7b\"type\":\"response\",\"timestamp\":" =
      123 :: quote :: (ascii "type" ++ quote :: colon :: quote :: (ascii "response" ++
        quote :: comma :: quote :: (ascii "timestamp" ++ [quote, colon]))) := by decide
  have hdata : ascii ",\"data\":\"" =
      comma :: quote :: (ascii "data" ++ [quote, colon, quote]) := by decide
  have hclose : ascii "\"\x7d" = [quote, 125] := by decide
  simp [responsePayload, hopen, hdata, hclose]

/-- The first two members of a response are read back whatever its data are. -/
theorem parse_responsePayload_eq (numbers : Numbers D) (szResponse : Bytes) {timestamp : ℤ}
    (htimestamp : (decimal timestamp).length < 63) (leftover : Bytes) :
    ∃ n, parse numbers (responsePayload timestamp szResponse ++ leftover) =
      (Reader.separated comma 125 skipWhitespace (parseMember (parseValue numbers 999)) (n + 1)
        (quote :: (ascii "data" ++ quote :: colon :: quote ::
          (szResponse ++ quote :: 125 :: (leftover ++ [0]))))).map fun r ↦
        { newItem numbers .object with
          child := textMember numbers (ascii "type") (ascii "response") ::
            numberMember numbers (ascii "timestamp") timestamp :: r.1 } := by
  -- the text from the data on, from the timestamp on, and from the type on
  let data := quote :: (ascii "data" ++ quote :: colon :: quote ::
    (szResponse ++ quote :: 125 :: (leftover ++ [0])))
  let stamp := quote :: (ascii "timestamp" ++ quote :: colon ::
    (decimal timestamp ++ comma :: data))
  let type := quote :: (ascii "type" ++ quote :: colon :: quote ::
    (ascii "response" ++ quote :: comma :: stamp))
  let member := parseMember (parseValue numbers 999)
  have htype : member (skipWhitespace type) =
      some (textMember numbers (ascii "type") (ascii "response"), comma :: stamp) := by
    rw [skipWhitespace_cons (by decide)]
    exact parseMember_text (by decide) (by decide) 999 (by decide) _
  have hstamp : member (skipWhitespace stamp) =
      some (numberMember numbers (ascii "timestamp") timestamp, comma :: data) := by
    rw [skipWhitespace_cons (by decide)]
    exact parseMember_decimal (by decide) (by decide) 999 htimestamp (by decide) _
  have htext : responsePayload timestamp szResponse ++ leftover ++ [0] = 123 :: type := by
    rw [List.append_assoc, responsePayload_append]
  have hcomma (l : Bytes) : skipWhitespace (comma :: l) = comma :: l :=
    skipWhitespace_cons (by decide) l
  have hrounds (l : Bytes) : (ascii "type" ++ l).length = l.length + 3 + 1 := by
    rw [List.length_append, Nat.add_comm]
    rfl
  rw [parse_eq_separated htext, Reader.separated_sep htype (hcomma _),
    Reader.separated_sep hstamp (hcomma _), hrounds, Option.map_map, Option.map_map]
  exact ⟨_, rfl⟩

/-- A response whose text stays inside its quotes is read back as the three
members it was composed of, whatever follows it. -/
theorem parse_responsePayload {szResponse : Bytes} (h : unbroken szResponse) {timestamp : ℤ}
    (htimestamp : (decimal timestamp).length < 63) (leftover : Bytes) :
    parse numbers (responsePayload timestamp szResponse ++ leftover) =
      (unquoted szResponse).map (responseItem numbers timestamp) := by
  obtain ⟨n, hparse⟩ := parse_responsePayload_eq numbers szResponse htimestamp leftover
  have hdata : parseMember (parseValue numbers 999) (skipWhitespace (quote :: (ascii "data" ++
      quote :: colon :: quote :: (szResponse ++ quote :: 125 :: (leftover ++ [0]))))) =
      (unquoted szResponse).map fun text ↦
        (textMember numbers (ascii "data") text, 125 :: (leftover ++ [0])) := by
    rw [skipWhitespace_cons (by decide)]
    exact parseMember_text (by decide) (by decide) 999 h _
  rw [hparse]
  cases hunquoted : unquoted szResponse with
  | none =>
      rw [hunquoted] at hdata
      rw [Reader.separated_none hdata]
      rfl
  | some text =>
      rw [hunquoted] at hdata
      have hne : (125 : UInt8) ≠ comma := by decide
      rw [Reader.separated_close hdata (skipWhitespace_cons (by decide) _) hne]
      rfl

theorem getObjectItem_responseItem {name : Bytes}
    (hname : ∀ s ∈ [ascii "type", ascii "timestamp", ascii "data"], compareLower name s ≠ 0)
    (timestamp : ℤ) (text : Bytes) :
    (responseItem numbers timestamp text).getObjectItem name = none := by
  apply getObjectItem_eq_none
  intro item hitem
  simp only [responseItem, List.mem_cons, List.not_mem_nil, or_false] at hitem
  rcases hitem with rfl | rfl | rfl
  · exact hname (ascii "type") (by simp)
  · exact hname (ascii "timestamp") (by simp)
  · exact hname (ascii "data") (by simp)

/-- A payload without commands: what it parses to has neither `cmd` nor
`update` at the top. -/
def Inert (numbers : Numbers D) (szpayload : Bytes) : Prop :=
  ∀ root ∈ parse numbers szpayload,
    root.getObjectItem (ascii "cmd") = none ∧ root.getObjectItem (ascii "update") = none

theorem inert_responsePayload {szResponse : Bytes} (h : unbroken szResponse) {timestamp : ℤ}
    (htimestamp : (decimal timestamp).length < 63) (leftover : Bytes) :
    Inert numbers (responsePayload timestamp szResponse ++ leftover) := by
  intro root hroot
  rw [parse_responsePayload h htimestamp, Option.mem_def, Option.map_eq_some_iff] at hroot
  obtain ⟨text, -, rfl⟩ := hroot
  exact ⟨getObjectItem_responseItem (by decide) _ _, getObjectItem_responseItem (by decide) _ _⟩

end Answers

section Commands

/-- The command text, or the name of the sub-command, as far as it fits into
the answer, stays inside the quotes it is pasted between. -/
def Pasteable (root : CJson D) : Prop :=
  ∀ cmd ∈ root.getObjectItem (ascii "cmd"),
    (∀ text ∈ cmd.valuestring, unbroken (text.take 103)) ∧
      ∀ subCmd ∈ cmd.child.head?, ∀ name ∈ subCmd.string,
        unbroken ((name ++ ascii " received").take 119)

instance (root : CJson D) : Decidable (Pasteable root) :=
  inferInstanceAs (Decidable (∀ _ ∈ _, _))

theorem snprintf_getCmd (s : Bytes) :
    snprintf 128 (ascii "cloud_proc_recv get cmd:" ++ s) =
      ascii "cloud_proc_recv get cmd:" ++ s.take 103 := by
  rw [snprintf, List.take_append, List.take_of_length_le (by decide)]
  rfl

theorem unbroken_of_outcome {cmd : CJson D} {szResponse : Bytes} (h : Outcome cmd szResponse)
    (htext : ∀ text ∈ cmd.valuestring, unbroken (text.take 103))
    (hname : ∀ subCmd ∈ cmd.child.head?, ∀ name ∈ subCmd.string,
      unbroken ((name ++ ascii " received").take 119)) : unbroken szResponse := by
  cases h with
  | @text text hcmd hvalue =>
      rw [snprintf_getCmd, unbroken_append (by decide)]
      exact htext text hvalue
  | @subCommand subCmd name hcmd hsub hstring =>
      have hpaste : snprintf 128 (ascii "ctn cmd " ++ name ++ ascii " received") =
          ascii "ctn cmd " ++ (name ++ ascii " received").take 119 := by
        rw [snprintf, List.append_assoc, List.take_append, List.take_of_length_le (by decide)]
        rfl
      rw [hpaste, unbroken_append (by decide)]
      exact hname subCmd hsub name hstring
  | invalid _ _ => decide

end Commands

section Echoes

structure Exchange (D : Type) where
  cloud : State D
  inbox : List Element

/-- What a step cannot know: the time, and what was in the array that the
message it sends is received into. -/
structure Delivery where
  time : Int64
  leftover : Bytes

/-- What comes back of the messages sent on the topic of `mqtt_connect`. -/
def echoes (env : Env D) (leftover : Bytes) (sent : List Element) : List Element :=
  (sent.filter fun e ↦ e.sztopic = ctlTopic env.szDevName).map fun e ↦
    { e with szpayload := e.szpayload ++ leftover }

/-- The handler takes the next message; there is no step after a fault. -/
def echoStep (env : Env D) (s : Exchange D) (d : Delivery) : Option (Exchange D) :=
  match s.inbox with
  | [] => none
  | e :: inbox =>
    match cloudProcRecv env d.time (some e) s.cloud with
    | .error _ => none
    | .ok c => some {
        cloud := c
        inbox := inbox ++ echoes env d.leftover (c.queued.drop s.cloud.queued.length) }

def Exchange.start (c : State D) (e : Element) : Exchange D where
  cloud := c
  inbox := [e]

theorem echoStep_eq_some {s t : Exchange D} {d : Delivery} (h : echoStep env s d = some t) :
    ∃ e inbox, s.inbox = e :: inbox ∧ Handled env d.time e s.cloud t.cloud ∧
      t.inbox = inbox ++
        echoes env d.leftover (t.cloud.queued.drop s.cloud.queued.length) := by
  unfold echoStep at h
  cases hinbox : s.inbox with
  | nil => simp [hinbox] at h
  | cons e inbox =>
      cases hcall : cloudProcRecv env d.time (some e) s.cloud with
      | error fault => simp [hinbox, hcall] at h
      | ok c =>
          simp only [hinbox, hcall, Option.some.injEq] at h
          subst h
          exact ⟨e, inbox, rfl, cloudProcRecv_eq_ok_iff.mp hcall, rfl⟩

theorem handled_of_inert {time : Int64} {e : Element} {c c' : State D}
    (he : Inert env.numbers e.szpayload) (h : Handled env time e c c') :
    c'.queued = c.queued ∧ c'.mdl = c.mdl := by
  cases h with
  | unparsed _ => exact ⟨rfl, rfl⟩
  | silent hparse hproc =>
      obtain ⟨-, rfl⟩ := procRoot_of_noCommand (he _ hparse).1 hproc
      exact ⟨rfl, rfl⟩
  | answered hparse hproc _ =>
      obtain ⟨hnone, -⟩ := procRoot_of_noCommand (he _ hparse).1 hproc
      cases hnone

def Quiet (env : Env D) (s : Exchange D) : Prop :=
  ∀ e ∈ s.inbox, Inert env.numbers e.szpayload

theorem quiet_step {s t : Exchange D} {d : Delivery} (hs : Quiet env s)
    (h : echoStep env s d = some t) :
    Quiet env t ∧ t.cloud.queued = s.cloud.queued ∧ t.cloud.mdl = s.cloud.mdl := by
  obtain ⟨e, inbox, hinbox, hcall, ht⟩ := echoStep_eq_some h
  have he : Inert env.numbers e.szpayload := hs e (by simp [hinbox])
  obtain ⟨hqueued, hmdl⟩ := handled_of_inert he hcall
  refine ⟨fun e' he' ↦ hs e' ?_, hqueued, hmdl⟩
  have hrest : e' ∈ inbox := by simpa [ht, hqueued, echoes] using he'
  simp [hinbox, hrest]

theorem quiet_run {s t : Exchange D} {ds : List Delivery} (hs : Quiet env s)
    (hrun : Runs.run (echoStep env) s ds = some t) :
    t.cloud.queued = s.cloud.queued ∧ t.cloud.mdl = s.cloud.mdl := by
  have hkeep := Runs.run_invariant
    (P := fun u ↦ Quiet env u ∧ u.cloud.queued = s.cloud.queued ∧ u.cloud.mdl = s.cloud.mdl)
    (fun u d v hu hstep ↦ ?_) ⟨hs, rfl, rfl⟩ hrun
  · exact hkeep.2
  · obtain ⟨hquiet, hqueued, hmdl⟩ := quiet_step hu.1 hstep
    exact ⟨hquiet, hqueued.trans hu.2.1, hmdl.trans hu.2.2⟩

/-- The answers to `e`, if any, are inert and so are their echoes. -/
theorem inert_of_pasteable {time : Int64} {e a : Element} {c c' : State D}
    (hpaste : ∀ root ∈ parse env.numbers e.szpayload, Pasteable root)
    (h : Handled env time e c c') (ha : a ∈ c'.queued.drop c.queued.length) (leftover : Bytes) :
    Inert env.numbers (a.szpayload ++ leftover) := by
  cases h with
  | unparsed _ => simp at ha
  | silent _ _ => simp [State.delete, State.setMdl] at ha
  | @answered root mdl szResponse hparse hproc _ =>
      obtain rfl : a = answer env time szResponse := by
        simpa [State.delete, State.setMdl, State.queue] using ha
      have htime : (decimal (cloudGetTimezonets time)).length < 63 :=
        (length_decimal_le (Int64.le_toInt _) (Int64.toInt_lt _)).trans_lt (by decide)
      cases hcmd : root.getObjectItem (ascii "cmd") with
      | none =>
          obtain ⟨hnone, -⟩ := procRoot_of_noCommand hcmd hproc
          cases hnone
      | some cmd =>
          rcases procRoot_of_command hcmd hproc with ⟨-, -, hnone⟩ | ⟨-, s, hs, houtcome⟩
          · cases hnone
          · cases hs
            obtain ⟨htext, hname⟩ := hpaste root hparse cmd hcmd
            exact inert_responsePayload (unbroken_of_outcome houtcome htext hname) htime leftover

/-- From the state after the message of someone else to a later one: one
answer in all, which is no command however it is received, and `MDL` as that
message left it. -/
structure AtMostOneAnswer (env : Env D) (c : State D) (s t : Exchange D) : Prop where
  answers : t.cloud.queued.length ≤ c.queued.length + 1
  inert : ∀ a ∈ t.cloud.queued.drop c.queued.length, ∀ leftover,
    Inert env.numbers (a.szpayload ++ leftover)
  mdl : t.cloud.mdl = s.cloud.mdl

theorem length_queued_of_handled {time : Int64} {e : Element} {c c' : State D}
    (h : Handled env time e c c') : c'.queued.length ≤ c.queued.length + 1 := by
  cases h with
  | unparsed _ => simp
  | silent _ _ => simp [State.delete, State.setMdl]
  | answered _ _ _ => simp [State.delete, State.setMdl, State.queue]

theorem atMostOneAnswer_of_run {c : State D} {e : Element} {d : Delivery}
    {ds : List Delivery} {s t : Exchange D}
    (hpaste : ∀ root ∈ parse env.numbers e.szpayload, Pasteable root)
    (hstep : echoStep env (.start c e) d = some s)
    (hrun : Runs.run (echoStep env) s ds = some t) : AtMostOneAnswer env c s t := by
  obtain ⟨e', inbox, hinbox, hcall, hs⟩ := echoStep_eq_some hstep
  obtain ⟨rfl, rfl⟩ : e = e' ∧ [] = inbox := by simpa [Exchange.start] using hinbox
  have hinert := fun a ha ↦ inert_of_pasteable hpaste hcall (a := a) ha
  have hquiet : Quiet env s := by
    intro e' he'
    simp only [hs, List.nil_append, echoes, List.mem_map, List.mem_filter] at he'
    obtain ⟨a, ⟨ha, -⟩, rfl⟩ := he'
    exact hinert a ha d.leftover
  obtain ⟨hqueued, hmdl⟩ := quiet_run hquiet hrun
  refine ⟨?_, ?_, hmdl⟩
  · rw [hqueued]
    exact length_queued_of_handled hcall
  · rw [hqueued]
    exact hinert

theorem atMostOneAnswer_ready :
    ∃ s t, echoStep (Env.pcs none)
        (.start State.start (message (ascii "\x7b\"cmd\":\"ready\"\x7d"))) ⟨0, []⟩ = some s ∧
      Runs.run (echoStep (Env.pcs none)) s [⟨1, ascii "\"cmd\":5\x7d"⟩] = some t ∧
      AtMostOneAnswer (Env.pcs none) State.start s t := by
  have hrun : (Runs.run (echoStep (Env.pcs none))
      (.start State.start (message (ascii "\x7b\"cmd\":\"ready\"\x7d")))
      [⟨0, []⟩, ⟨1, ascii "\"cmd\":5\x7d"⟩]).isSome := by decide +kernel
  obtain ⟨t, ht⟩ := Option.isSome_iff_exists.mp hrun
  obtain ⟨s, hs, ht⟩ := Runs.run_cons_eq_some_iff.mp ht
  exact ⟨s, t, hs, ht, atMostOneAnswer_of_run (by decide +kernel) hs ht⟩

/-- `{"cmd":"x\",\"cmd\":\"y"}` -/
def closingQuote : Element :=
  message (ascii "\x7b\"cmd\":\"x\\\",\\\"cmd\\\":\\\"y\"\x7d")

/-- The quote in the text closes the data of the answer and opens a command. -/
theorem not_atMostOneAnswer_closingQuote :
    ∃ s t, echoStep (Env.pcs none) (.start State.start closingQuote) ⟨0, []⟩ = some s ∧
      Runs.run (echoStep (Env.pcs none)) s [⟨1, []⟩] = some t ∧
      ¬AtMostOneAnswer (Env.pcs none) State.start s t := by
  have hrun : (Runs.run (echoStep (Env.pcs none)) (.start State.start closingQuote)
      [⟨0, []⟩, ⟨1, []⟩]).map (fun t ↦ t.cloud.queued.length) = some 2 := by decide +kernel
  obtain ⟨t, ht, hlength⟩ := Option.map_eq_some_iff.mp hrun
  obtain ⟨s, hs, ht⟩ := Runs.run_cons_eq_some_iff.mp ht
  refine ⟨s, t, hs, ht, fun hone ↦ ?_⟩
  have hanswers := hone.answers
  rw [hlength] at hanswers
  exact absurd hanswers (by decide)

end Echoes

end Cloud
