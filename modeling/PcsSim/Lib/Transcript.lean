import Mathlib.Data.List.Basic
import Mathlib.Tactic.Common

/-!
# Logs in sections

A log made of sections, each a body and an entry that closes it.  Where the
closing entries can be told from the others, an entry that closes one has the
body of its section before it.
-/

namespace Transcripts

variable {E A B : Type*} {body : E → List A} {close : E → A}

def sections (body : E → List A) (close : E → A) (es : List E) : List A :=
  es.flatMap fun e ↦ body e ++ [close e]

@[simp] theorem sections_nil : sections body close [] = [] := rfl

theorem sections_cons (e : E) (es : List E) :
    sections body close (e :: es) = body e ++ close e :: sections body close es := by
  simp [sections]

/-- The entry that closes a section joins it to the sections before. -/
theorem sections_concat (es : List E) (e : E) :
    sections body close (es ++ [e]) = (sections body close es ++ body e) ++ [close e] := by
  simp [sections]

theorem exists_section {closes : A → Prop} {es : List E} {part early late : List A} {x : A}
    (hbody : ∀ e ∈ es, ∀ y ∈ body e, ¬closes y) (hpart : ∀ y ∈ part, ¬closes y) (hx : closes x)
    (h : sections body close es ++ part = early ++ x :: late) :
    ∃ done e rest, es = done ++ e :: rest ∧ early = sections body close done ++ body e ∧
      x = close e := by
  induction es generalizing early with
  | nil =>
      rw [sections_nil, List.nil_append] at h
      exact absurd hx (hpart x (by simp [h]))
  | cons e es ih =>
      rw [sections_cons, List.append_assoc, List.cons_append] at h
      have hnot : x ∉ body e := fun hmem ↦ hbody e List.mem_cons_self x hmem hx
      rcases List.append_eq_append_iff.mp h with ⟨tail, rfl, htail⟩ | ⟨tail, hhead, htail⟩
      · cases tail with
        | nil =>
            obtain ⟨rfl, -⟩ := List.cons.inj htail
            exact ⟨[], e, es, rfl, by simp, rfl⟩
        | cons y tail =>
            obtain ⟨rfl, hrest⟩ := List.cons.inj htail
            obtain ⟨done, e', rest, rfl, rfl, rfl⟩ :=
              ih (fun e he ↦ hbody e (List.mem_cons_of_mem _ he)) hrest
            exact ⟨e :: done, e', rest, rfl, by simp [sections_cons], rfl⟩
      · cases tail with
        | nil =>
            obtain ⟨rfl, -⟩ := List.cons.inj htail
            exact ⟨[], e, es, rfl, by simpa using hhead.symm, rfl⟩
        | cons y tail =>
            obtain ⟨rfl, -⟩ := List.cons.inj htail
            exact absurd (by simp [hhead]) hnot

end Transcripts
