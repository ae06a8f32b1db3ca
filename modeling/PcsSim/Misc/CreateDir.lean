import PcsSim.Lib.CCalls

/-!
# Creating directories

`access` refuses the mode 0755, which has bits beside those of `R_OK`, `W_OK`
and `X_OK`, so every directory on the way counts as missing.
-/

namespace Misc

/-- What the calls report on each state of the file system; `isDir` is the truth. -/
structure FileSystem (S : Type) where
  isDir : S → Bytes → Prop
  access : Bytes → ℕ → S → ℤ
  mkdir : Bytes → ℕ → S → ℤ × S

def slash : UInt8 := 47

section Code

variable {S : Type} (fs : FileSystem S)

/-- `for (i = 1; i < len; i++)`, with the characters before `i` in `seen` and
those from `i` on to go. -/
def createLoop : Bytes → Bytes → S → ℤ × S
  | _, [], s => (0, s)
  | seen, c :: rest, s =>
      if c = slash then
        if fs.access seen 0o755 s ≠ 0 then
          let (ret, s) := fs.mkdir seen 0o755 s
          if ret = -1 then (-1, s) else createLoop (seen ++ [c]) rest s
        else
          createLoop (seen ++ [c]) rest s
      else
        createLoop (seen ++ [c]) rest s

/-- `if (DirName[len - 1] != '/')`; an empty text has no last character. -/
def endWithSlash (dirName : Bytes) : Except Fault Bytes :=
  match dirName.getLast? with
  | none => .error .overrun
  | some last => if last ≠ slash then sprintf 256 (dirName ++ [slash]) else .ok dirName

/-- `strcpy` and `strcat` run over the end of `DirName` as `sprintf` does. -/
def miscCreateDir (sPathName : Bytes) (s : S) : Except Fault (ℤ × S) := do
  let dirName ← sprintf 256 sPathName
  let dirName ← endWithSlash dirName
  return createLoop fs (dirName.take 1) (dirName.drop 1) s

end Code

/-- The rules of the manual: the modes of `access`, and that `mkdir` fails with
`EEXIST` on a directory and keeps those there are. -/
structure Documented {S : Type} (fs : FileSystem S) : Prop where
  access_einval : ∀ p mode s, mode &&& 7 ≠ mode → fs.access p mode s = -1
  mkdir_eexist : ∀ p mode s, fs.isDir s p → fs.mkdir p mode s = (-1, s)
  mkdir_ok : ∀ p mode s, (fs.mkdir p mode s).1 = 0 → fs.isDir (fs.mkdir p mode s).2 p
  mkdir_keeps : ∀ p q mode s, fs.isDir s q → fs.isDir (fs.mkdir p mode s).2 q
  mkdir_ret : ∀ p mode s, (fs.mkdir p mode s).1 = 0 ∨ (fs.mkdir p mode s).1 = -1

/-- `p` names a directory on the way along `path`, or `path` itself. -/
def DirectoryPrefix (p path : Bytes) : Prop :=
  p ≠ [] ∧ ∃ rest, path = p ++ rest ∧ (rest = [] ∨ rest.head? = some slash)

/-- `misc_createDir` creates what is missing, and a second call accepts it. -/
def CreatesDirectories {S : Type} (fs : FileSystem S) (path : Bytes) (s : S) : Prop :=
  ∃ s', miscCreateDir fs path s = .ok (0, s') ∧ (∀ p, DirectoryPrefix p path → fs.isDir s' p) ∧
    miscCreateDir fs path s' = .ok (0, s')

section Prefixes

/-- The texts that the loop cuts off at a slash. -/
def cutOff : Bytes → Bytes → List Bytes
  | _, [] => []
  | seen, c :: rest =>
      if c = slash then seen :: cutOff (seen ++ [c]) rest else cutOff (seen ++ [c]) rest

theorem mem_cutOff_iff {p seen rest : Bytes} :
    p ∈ cutOff seen rest ↔ ∃ a b, rest = a ++ slash :: b ∧ p = seen ++ a := by
  induction rest generalizing seen with
  | nil => simp [cutOff]
  | cons c rest ih =>
      rw [cutOff]
      constructor
      · intro h
        have hcases : c = slash ∧ p = seen ∨ p ∈ cutOff (seen ++ [c]) rest := by
          split_ifs at h with hc
          · rcases List.mem_cons.mp h with rfl | h
            · exact .inl ⟨hc, rfl⟩
            · exact .inr h
          · exact .inr h
        rcases hcases with ⟨rfl, rfl⟩ | h
        · exact ⟨[], rest, rfl, (List.append_nil _).symm⟩
        · obtain ⟨a, b, rfl, rfl⟩ := ih.mp h
          exact ⟨c :: a, b, rfl, by simp⟩
      · rintro ⟨a, b, hrest, rfl⟩
        cases a with
        | nil =>
            obtain ⟨rfl, rfl⟩ := List.cons.inj hrest
            simp
        | cons c' a =>
            obtain ⟨rfl, rfl⟩ := List.cons.inj hrest
            have hmem : seen ++ c :: a ∈ cutOff (seen ++ [c]) (a ++ slash :: b) :=
              ih.mpr ⟨a, b, rfl, by simp⟩
            split_ifs
            · exact List.mem_cons_of_mem _ hmem
            · exact hmem

/-- `DirName` after the `strcat`, without its last slash. -/
structure Ended (path text : Bytes) : Prop where
  ne_nil : text ≠ []
  eq : text = path ∨ text ++ [slash] = path

theorem exists_ended {path dirName : Bytes} (hroot : path ≠ [slash])
    (h : endWithSlash path = .ok dirName) :
    ∃ text, Ended path text ∧ dirName = text ++ [slash] := by
  rw [endWithSlash] at h
  cases hlast : path.getLast? with
  | none =>
      rw [hlast] at h
      cases h
  | some last =>
      rw [hlast] at h
      obtain ⟨text, rfl⟩ := List.getLast?_eq_some_iff.mp hlast
      dsimp only at h
      split_ifs at h with hslash
      · obtain ⟨-, rfl⟩ := sprintf_eq_ok.mp h
        exact ⟨text ++ [last], ⟨by simp, .inl rfl⟩, rfl⟩
      · obtain rfl := not_not.mp hslash
        obtain rfl := Except.ok.inj h
        refine ⟨text, ⟨?_, .inr rfl⟩, rfl⟩
        rintro rfl
        exact hroot rfl

theorem directoryPrefix_of_mem {p path text : Bytes} (h : Ended path text)
    (hp : p ∈ cutOff (text.take 1) (text.drop 1 ++ [slash])) : DirectoryPrefix p path := by
  obtain ⟨a, b, hrest, rfl⟩ := mem_cutOff_iff.mp hp
  have htext : text ++ [slash] = text.take 1 ++ a ++ slash :: b := by
    rw [List.append_assoc, ← hrest, ← List.append_assoc, List.take_append_drop]
  have hne : text.take 1 ++ a ≠ [] := by
    have := h.ne_nil
    cases text with
    | nil => exact absurd rfl this
    | cons c text => simp
  refine ⟨hne, ?_⟩
  rcases h.eq with rfl | hpath
  · refine ⟨(slash :: b).dropLast, ?_, ?_⟩
    · rw [← List.dropLast_append_of_ne_nil (List.cons_ne_nil slash b), ← htext,
        List.dropLast_concat]
    · cases b with
      | nil => exact .inl rfl
      | cons c b => exact .inr rfl
  · exact ⟨slash :: b, by rw [← hpath, htext], .inr rfl⟩

theorem exists_mem_cutOff (text : Bytes) :
    ∃ p, p ∈ cutOff (text.take 1) (text.drop 1 ++ [slash]) :=
  ⟨_, mem_cutOff_iff.mpr ⟨text.drop 1, [], rfl, rfl⟩⟩

end Prefixes

section Calls

variable {S : Type} {fs : FileSystem S}

def createAll (fs : FileSystem S) : List Bytes → S → ℤ × S
  | [], s => (0, s)
  | p :: ps, s =>
      let (ret, s) := fs.mkdir p 0o755 s
      if ret = -1 then (-1, s) else createAll fs ps s

theorem createLoop_eq (h : Documented fs) (seen rest : Bytes) (s : S) :
    createLoop fs seen rest s = createAll fs (cutOff seen rest) s := by
  induction rest generalizing seen s with
  | nil => rfl
  | cons c rest ih =>
      have haccess : fs.access seen 0o755 s ≠ 0 := by
        rw [h.access_einval seen 0o755 s (by decide)]
        decide
      rw [createLoop, cutOff]
      split_ifs with hc
      · simp only [createAll, ih]
      · exact ih (seen ++ [c]) s

theorem createAll_cons_of_isDir (h : Documented fs) {p : Bytes} {s : S} (hp : fs.isDir s p)
    (ps : List Bytes) : createAll fs (p :: ps) s = (-1, s) := by
  rw [createAll, h.mkdir_eexist p 0o755 s hp]
  rfl

/-- One directory that is there already makes the call fail. -/
theorem createAll_of_exists (h : Documented fs) {ps : List Bytes} {s : S} {p : Bytes}
    (hmem : p ∈ ps) (hp : fs.isDir s p) : (createAll fs ps s).1 = -1 := by
  induction ps generalizing s with
  | nil => exact absurd hmem List.not_mem_nil
  | cons q ps ih =>
      rcases List.mem_cons.mp hmem with rfl | hmem
      · rw [createAll_cons_of_isDir h hp]
      · rw [createAll]
        dsimp only
        split_ifs
        · rfl
        · exact ih hmem (h.mkdir_keeps q p 0o755 s hp)

theorem miscCreateDir_root (s : S) : miscCreateDir fs [slash] s = .ok (0, s) := rfl

theorem createLoop_ended (h : Documented fs) {text : Bytes} (hne : text ≠ []) (s : S) :
    createLoop fs ((text ++ [slash]).take 1) ((text ++ [slash]).drop 1) s =
      createAll fs (cutOff (text.take 1) (text.drop 1 ++ [slash])) s := by
  have hlen : 1 ≤ text.length := List.length_pos_iff.mpr hne
  rw [List.take_append_of_le_length hlen, List.drop_append_of_le_length hlen, createLoop_eq h]

theorem miscCreateDir_eq (h : Documented fs) {path : Bytes} {s : S} {r : ℤ × S}
    (hroot : path ≠ [slash]) (hr : miscCreateDir fs path s = .ok r) :
    ∃ text, Ended path text ∧
      r = createAll fs (cutOff (text.take 1) (text.drop 1 ++ [slash])) s := by
  obtain ⟨dirName, hcpy, hr⟩ := Except.bind_eq_ok_iff.mp hr
  obtain ⟨dirName', hended, hr⟩ := Except.bind_eq_ok_iff.mp hr
  obtain ⟨-, rfl⟩ := sprintf_eq_ok.mp hcpy
  obtain ⟨text, htext, rfl⟩ := exists_ended hroot hended
  refine ⟨text, htext, ?_⟩
  rw [← createLoop_ended h htext.ne_nil]
  exact (Except.ok.inj hr).symm

end Calls

variable {S : Type} {fs : FileSystem S} {path : Bytes} {s : S}

/-- A directory that is there already on the way makes the call fail. -/
theorem not_createsDirectories (h : Documented fs) (hroot : path ≠ [slash]) :
    ¬CreatesDirectories fs path s := by
  rintro ⟨s', hfirst, hdirs, hagain⟩
  obtain ⟨text, htext, hr⟩ := miscCreateDir_eq h hroot hagain
  obtain ⟨p, hmem⟩ := exists_mem_cutOff text
  have hp : fs.isDir s' p := hdirs p (directoryPrefix_of_mem htext hmem)
  have hret := createAll_of_exists h hmem hp
  rw [← hr] at hret
  cases hret

/-- A second call finds the directories of the first one and fails. -/
theorem createsDirectories_iff (h : Documented fs) (hslash : fs.isDir s [slash]) :
    CreatesDirectories fs path s ↔ path = [slash] := by
  constructor
  · intro hcreates
    by_contra hroot
    exact not_createsDirectories h hroot hcreates
  · rintro rfl
    refine ⟨s, miscCreateDir_root s, ?_, miscCreateDir_root s⟩
    rintro p ⟨hne, rest, hpath, -⟩
    cases p with
    | nil => exact absurd rfl hne
    | cons c p =>
        obtain ⟨rfl, hrest⟩ := List.cons.inj hpath
        obtain ⟨rfl, -⟩ := List.append_eq_nil_iff.mp hrest.symm
        exact hslash

/-- A path as the names on it, without the empty ones. -/
def names (path : Bytes) : List Bytes := (path.splitOn slash).filter (· ≠ [])

/-- The directories by their names from the root on; the root itself is always there. -/
def directories : FileSystem (List (List Bytes)) where
  isDir dirs p := p ≠ [] ∧ (names p = [] ∨ names p ∈ dirs)
  access p mode dirs :=
    if mode &&& 7 = mode ∧ p ≠ [] ∧ (names p = [] ∨ names p ∈ dirs) then 0 else -1
  mkdir p _ dirs :=
    if p ≠ [] ∧ ¬(names p = [] ∨ names p ∈ dirs) ∧
        ((names p).dropLast = [] ∨ (names p).dropLast ∈ dirs) then
      (0, names p :: dirs)
    else (-1, dirs)

theorem documented_directories : Documented directories where
  access_einval p mode dirs h := if_neg fun hall ↦ h hall.1
  mkdir_eexist p mode dirs h := if_neg fun hall ↦ hall.2.1 h.2
  mkdir_ok p mode dirs h := by
    simp only [directories] at h ⊢
    split_ifs at h ⊢ with hnew
    · exact ⟨hnew.1, .inr List.mem_cons_self⟩
    · cases h
  mkdir_keeps p q mode dirs h := by
    simp only [directories] at h ⊢
    split_ifs
    · exact ⟨h.1, h.2.imp id (List.mem_cons_of_mem _)⟩
    · exact h
  mkdir_ret p mode dirs := by
    simp only [directories]
    split_ifs
    · exact .inl rfl
    · exact .inr rfl

theorem createsDirectories_root : CreatesDirectories directories [slash] [] :=
  (createsDirectories_iff documented_directories ⟨List.cons_ne_nil _ _, .inl (by decide)⟩).mpr rfl

theorem not_createsDirectories_existing :
    Documented directories ∧
      (∀ p, DirectoryPrefix p (ascii "/a") → directories.isDir [[ascii "a"]] p) ∧
        miscCreateDir directories (ascii "/a") [[ascii "a"]] = .ok (-1, [[ascii "a"]]) ∧
          ¬CreatesDirectories directories (ascii "/a") [[ascii "a"]] := by
  have hroot : ascii "/a" ≠ [slash] := by decide
  refine ⟨documented_directories, ?_, ?_, not_createsDirectories documented_directories hroot⟩
  · rintro p ⟨hne, rest, hpath, hend⟩
    have hpath' : [slash, 97] = p ++ rest := hpath
    obtain rfl : p = ascii "/a" := by
      cases p with
      | nil => exact absurd rfl hne
      | cons c p =>
      obtain ⟨rfl, htail⟩ := List.cons.inj hpath'
      cases p with
      | nil =>
          obtain rfl : rest = [97] := htail.symm
          exact absurd hend (by decide)
      | cons c p =>
          obtain ⟨rfl, hnil⟩ := List.cons.inj htail
          obtain ⟨rfl, -⟩ := List.append_eq_nil_iff.mp hnil.symm
          rfl
    exact ⟨by decide, .inr (by decide)⟩
  · rfl

end Misc
