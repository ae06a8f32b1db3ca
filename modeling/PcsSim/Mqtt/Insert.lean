import PcsSim.CJson.Parse
import PcsSim.Lib.DelimitedToken
import PcsSim.Mqtt.World

/-!
# The statement of an insert

`mqtt_cache_write_one_payload` pastes the texts of an element between double
quotes.  A quote in a text ends its token, so the values of the statement need
not be these texts, and it need not be an insert of two values at all.
-/

namespace MqttCache

open CJson (quote comma)
open DelimitedToken (read doubled)
open Mqtt (Element)

/-- The statement up to the first quote. -/
def insertOpening : Bytes := ascii "insert into mqtt_cache values(\""

/-- The statement from behind its first quote on. -/
def insertValues (e : Element) : Bytes :=
  e.sztopic ++ quote :: comma :: quote :: (e.szpayload ++ quote :: ascii ")")

/-- The statement has two quoted tokens as its values so far, and `rest` after
them. -/
def Values (l topic payload rest : Bytes) : Prop :=
  ∃ l', read quote l = some (topic, comma :: quote :: l') ∧ read quote l' = some (payload, rest)

structure NoQuotes (e : Element) : Prop where
  topic : quote ∉ e.sztopic
  payload : quote ∉ e.szpayload

instance (e : Element) : Decidable (NoQuotes e) :=
  decidable_of_iff (quote ∉ e.sztopic ∧ quote ∉ e.szpayload)
    ⟨fun h ↦ ⟨h.1, h.2⟩, fun h ↦ ⟨h.topic, h.payload⟩⟩

/-- The values of a statement that inserts two quoted tokens. -/
def readValues (statement : Bytes) : Option (Bytes × Bytes) :=
  if statement.take 31 = insertOpening then
    match read quote (statement.drop 31) with
    | some (topic, b :: c :: l) =>
      if b = comma ∧ c = quote then
        match read quote l with
        | some (payload, rest) => if rest = ascii ")" then some (topic, payload) else none
        | none => none
      else none
    | _ => none
  else none

variable {e : Element} {l topic payload rest : Bytes}

theorem readValues_of_values (h : Values l topic payload rest) :
    readValues (insertOpening ++ l) =
      if rest = ascii ")" then some (topic, payload) else none := by
  obtain ⟨l', hfirst, hsecond⟩ := h
  have hlength : insertOpening.length = 31 := by decide
  rw [readValues, List.take_left' hlength, List.drop_left' hlength, if_pos rfl, hfirst]
  simp [hsecond]

theorem values_of_readValues (h : readValues (insertOpening ++ l) = some (topic, payload)) :
    Values l topic payload (ascii ")") := by
  have hlength : insertOpening.length = 31 := by decide
  rw [readValues, List.take_left' hlength, List.drop_left' hlength, if_pos rfl] at h
  split at h
  next first b c l' hfirst =>
    split_ifs at h with hbetween
    obtain ⟨rfl, rfl⟩ := hbetween
    split at h
    next second rest hsecond =>
      split_ifs at h with hrest
      obtain ⟨rfl, rfl⟩ := Prod.mk.inj (Option.some.inj h)
      exact ⟨l', hfirst, hrest ▸ hsecond⟩
    next => cases h
  next => cases h

theorem read_insertValues (htopic : quote ∉ e.sztopic) : read quote (insertValues e) =
    some (e.sztopic, comma :: quote :: (e.szpayload ++ quote :: ascii ")")) := by
  apply DelimitedToken.read_append htopic
  rw [List.head?_cons]
  decide

theorem values_of_noQuotes (h : NoQuotes e) :
    Values (insertValues e) e.sztopic e.szpayload (ascii ")") := by
  refine ⟨_, read_insertValues h.topic, ?_⟩
  exact DelimitedToken.read_append h.payload (by decide)

theorem insertValues_of_values (h : Values (insertValues e) topic payload rest) :
    insertValues e = doubled quote topic ++ quote :: comma :: quote ::
      (doubled quote payload ++ quote :: rest) := by
  obtain ⟨l', hfirst, hsecond⟩ := h
  rw [DelimitedToken.eq_of_read hfirst, DelimitedToken.eq_of_read hsecond]

/-- The values are the texts of the element only if these have no quotes. -/
theorem noQuotes_of_values (h : Values (insertValues e) e.sztopic e.szpayload (ascii ")")) :
    NoQuotes e := by
  have hlength := congrArg List.length (insertValues_of_values h)
  simp only [insertValues, List.length_append, List.length_cons, DelimitedToken.length_doubled]
    at hlength
  constructor
  · apply List.count_eq_zero.mp
    omega
  · apply List.count_eq_zero.mp
    omega

theorem noQuotes_iff :
    NoQuotes e ↔ readValues (insertOpening ++ insertValues e) = some (e.sztopic, e.szpayload) := by
  constructor
  · intro h
    rw [readValues_of_values (values_of_noQuotes h), if_pos rfl]
  · intro h
    exact noQuotes_of_values (values_of_readValues h)

end MqttCache
