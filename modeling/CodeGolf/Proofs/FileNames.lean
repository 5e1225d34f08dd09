import Mathlib.Data.List.TakeWhile
import CodeGolf.Snapshot.Store

/-!
# Names of files

A path is walked name by name, and most paths are more than a name. A path without slashes that is
not one of the names of folders is a name and nothing else (`Directory.IsFileName`): it leads to its
own place in the directory. Reading, writing and renaming then come to three things: whether files
can have the name at all, whether a folder has it, and what is at its place
(`IsFileName.write_eq`, `IsFileName.rename_eq`).

The temporary file of such a name is again a name, with the extension `tmp`
(`IsFileName.temporaryPath`, `IsFileName.suffix_temporaryPath`).
-/

namespace CodeGolf

/-! ## What is found at a place -/

namespace Directory

variable {place : List String}

/-- Among the entries that are left when a place is erased, every other place has its entry. -/
theorem lookup_filter_ne {α : Type} (entries : List (List String × α))
    (erased place : List String) :
    (entries.filter fun entry => entry.1 != erased).lookup place =
      if erased = place then none else entries.lookup place := by
  induction entries with
  | nil => simp
  | cons entry rest ih =>
    obtain ⟨there, a⟩ := entry
    by_cases herased : there = erased
    · subst herased
      rw [List.filter_cons_of_neg (by simp), ih]
      split
      · rfl
      · next hne => rw [List.lookup_cons, beq_false_of_ne fun heq => hne heq.symm]
    · rw [List.filter_cons_of_pos (by simpa using herased), List.lookup_cons, List.lookup_cons, ih]
      cases hplace : place == there with
      | false => rfl
      | true => exact (if_neg fun heq => herased (heq.trans (beq_iff_eq.mp hplace)).symm).symm

/-- What was erased is gone, and nothing else is. -/
theorem find?_erase (hplace : isAbove place = false) (d : Directory) (erased : List String) :
    (d.erase erased).find? place = if erased = place then none else d.find? place := by
  simp only [find?, hplace, erase, lookup_filter_ne, Bool.false_eq_true, if_false]

/-- What was written is there, and everything else is as before. -/
theorem find?_insert (hplace : isAbove place = false) (d : Directory) (written : List String)
    (entry : Entry) :
    (d.insert written entry).find? place =
      if written = place then some entry else d.find? place := by
  have herase := find?_erase hplace d written
  simp only [find?, hplace, Bool.false_eq_true, if_false] at herase ⊢
  rw [insert, List.lookup_cons]
  by_cases h : written = place
  · simp only [h, beq_self_eq_true, if_true]
  · rw [if_neg h] at herase ⊢
    rw [beq_false_of_ne fun heq => h heq.symm]
    exact herase

/-! ## Names of files -/

/-- A name that is a path of its own: it has no slashes, and it is none of the names that stand for
folders. -/
structure IsFileName (name : String) : Prop where
  nonempty : name ≠ ""
  slashless : '/' ∉ name.toList
  ne_here : name ≠ "."
  ne_above : name ≠ ".."

instance (name : String) : Decidable (IsFileName name) :=
  decidable_of_iff (name ≠ "" ∧ '/' ∉ name.toList ∧ name ≠ "." ∧ name ≠ "..")
    ⟨fun ⟨hempty, hslash, hhere, habove⟩ => ⟨hempty, hslash, hhere, habove⟩,
      fun h => ⟨h.nonempty, h.slashless, h.ne_here, h.ne_above⟩⟩

/-- Why no file can have a name, whatever is in the directory. -/
def nameFault? (name : String) : Option FileFault :=
  if name.toList.contains '\x00' then some .nulInName
  else if 255 < byteLength name then some .nameTooLong
  else none

/-- Whether a folder stands where a file of the name would. -/
def hasFolder (d : Directory) (name : String) : Bool :=
  match d.find? [name] with
  | some .folder => true
  | _ => false

/-- Why a file of a name cannot be written. -/
def writeFault? (d : Directory) (name : String) : Option FileFault :=
  (nameFault? name).or (if d.hasFolder name then some .isFolder else none)

/-- A file of a name can be written if files can have the name and no folder has it. -/
theorem writeFault?_eq_none_iff {d : Directory} {name : String} :
    d.writeFault? name = none ↔ nameFault? name = none ∧ d.find? [name] ≠ some .folder := by
  rw [writeFault?, Option.or_eq_none_iff, hasFolder]
  cases d.find? [name] with
  | none => simp
  | some entry => cases entry <;> simp

namespace IsFileName

variable {d : Directory} {name : String} (h : IsFileName name)
include h

theorem names_eq : names name = [name] := by
  have hsplit : name.toList.splitOn '/' = [name.toList] :=
    List.splitOnP_eq_singleton fun c hc => by
      rw [beq_eq_false_iff_ne]
      rintro rfl
      exact h.slashless hc
  rw [names, hsplit, List.map_singleton, String.ofList_toList]
  simp [h.nonempty]

theorem start_eq : start name = [] := by
  rw [start, if_neg]
  intro hhead
  exact h.slashless (List.mem_of_head? (beq_iff_eq.mp hhead))

theorem endsInSlash_eq : endsInSlash name = false := by
  rw [endsInSlash, beq_eq_false_iff_ne]
  intro hlast
  exact h.slashless (List.mem_of_getLast? hlast)

theorem isAbove_eq : isAbove [name] = false := by
  have hroot : name ≠ "/" := by
    rintro rfl
    exact h.slashless (by decide)
  simp [isAbove, root, h.ne_above, hroot]

/-- What is written under a name is there, and under every other name all is as before. -/
theorem find?_insert (d : Directory) (written : String) (entry : Entry) :
    (d.insert [written] entry).find? [name] =
      if written = name then some entry else d.find? [name] := by
  simp only [Directory.find?_insert h.isAbove_eq, List.singleton_inj]

/-- What is erased under a name is gone, and under every other name all is as before. -/
theorem find?_erase (d : Directory) (erased : String) :
    (d.erase [erased]).find? [name] = if erased = name then none else d.find? [name] := by
  simp only [Directory.find?_erase h.isAbove_eq, List.singleton_inj]

/-- A name leads to its own place, if a file can have it at all. -/
theorem resolve_eq (d : Directory) :
    d.resolve name = (nameFault? name).elim (.ok ([name], d.find? [name])) .error := by
  have hempty : ¬name.isEmpty = true := by simpa using h.nonempty
  rw [resolve, h.start_eq, h.names_eq, if_neg hempty, nameFault?]
  split
  · rfl
  · by_cases hlong : 255 < byteLength name
    · simp [walk, hlong]
    · have hshort : ¬4096 ≤ byteLength name := by omega
      rw [if_neg hshort, if_neg hlong, walk]
      simp only [h.ne_here, h.ne_above, hlong, if_false, List.nil_append]
      cases hthere : d.find? [name] with
      | none => rfl
      | some entry =>
        cases entry with
        | file content => rfl
        | folder =>
          rw [walk, hthere]
          rfl

/-- A file of the name is read as its content. -/
theorem read_of_file (hfault : nameFault? name = none) {content : Bytes}
    (hthere : d.find? [name] = some (.file content)) : d.read name = .ok content := by
  rw [read, h.resolve_eq, h.endsInSlash_eq, hfault, hthere]
  rfl

/-- Where there is nothing, nothing is read. -/
theorem read_of_absent (hfault : nameFault? name = none) (hthere : d.find? [name] = none) :
    d.read name = .error .notFound := by
  rw [read, h.resolve_eq, hfault, hthere]
  rfl

/-- A file is written if its name can be that of a file and no folder has it. -/
theorem write_eq (d : Directory) (content : Bytes) :
    d.write name content =
      (d.writeFault? name).elim (.ok (d.insert [name] (.file content))) .error := by
  rw [write, h.resolve_eq, h.endsInSlash_eq, writeFault?, hasFolder]
  cases nameFault? name with
  | some fault => rfl
  | none =>
    cases d.find? [name] with
    | none => rfl
    | some entry => cases entry <;> rfl

/-- A file takes another name if a file of that name can be written. -/
theorem rename_eq {source : String} (hsource : IsFileName source) {content : Bytes}
    (hfault : nameFault? source = none) (hthere : d.find? [source] = some (.file content)) :
    d.rename source name =
      (d.writeFault? name).elim (.ok ((d.erase [source]).insert [name] (.file content)))
        .error := by
  have hlast : ((names name).getLast? == some ".") = false := by
    rw [h.names_eq]
    simpa using h.ne_here
  rw [rename, hsource.resolve_eq, h.resolve_eq, hfault, hthere, hlast, h.endsInSlash_eq,
    writeFault?, hasFolder]
  cases nameFault? name with
  | some fault => rfl
  | none =>
    cases d.find? [name] with
    | none => rfl
    | some entry => cases entry <;> rfl

end IsFileName

/-! ## Temporary files -/

/-- A reversed path that has no slashes ends in none. -/
theorem trimReversed_eq_self {path : List Char} (h : '/' ∉ path) : trimReversed path = path := by
  unfold trimReversed
  split
  · simp at h
  · simp at h
  · rfl

/-- A stem has no characters of its own. -/
theorem mem_of_mem_stemReversed {name : List Char} {c : Char} (h : c ∈ stemReversed name) :
    c ∈ name := by
  unfold stemReversed at h
  split at h
  · next stem hstem =>
    exact (List.dropWhile_sublist _).mem (hstem ▸ List.mem_cons_of_mem _ h)
  · exact h

section
variable {name : String} (h : IsFileName name)
include h

/-- The temporary file of a file is beside it, under the stem of its name and the extension
`tmp`. -/
theorem IsFileName.temporaryPath_eq :
    temporaryPath name = String.ofList (stemReversed name.toList.reverse).reverse ++ ".tmp" := by
  have hslashless : '/' ∉ name.toList.reverse := by simpa using h.slashless
  have hname : name.toList.reverse.takeWhile (· != '/') = name.toList.reverse :=
    List.takeWhile_eq_self_iff.mpr fun c hc => by
      rw [bne_iff_ne]
      rintro rfl
      exact hslashless hc
  have hfolder : name.toList.reverse.dropWhile (· != '/') = [] := by
    have := List.takeWhile_append_dropWhile (p := (· != '/')) (l := name.toList.reverse)
    rw [hname] at this
    simpa using this
  have hordinary : (name.toList.reverse.isEmpty || name.toList.reverse == ['.'] ||
      name.toList.reverse == ['.', '.']) = false := by
    have hne : ∀ text : String, name ≠ text → name.toList.reverse ≠ text.toList.reverse :=
      fun text hne heq => hne (String.toList_inj.mp (List.reverse_inj.mp heq))
    have := hne "" h.nonempty
    have := hne "." h.ne_here
    have := hne ".." h.ne_above
    simp_all
  rw [temporaryPath, trimReversed_eq_self hslashless, hname, hfolder]
  simp only [hordinary, Bool.false_eq_true, if_false, List.append_nil]

/-- The names of temporary files end in `.tmp`. -/
theorem IsFileName.suffix_temporaryPath : ".tmp".toList <:+ (temporaryPath name).toList := by
  rw [h.temporaryPath_eq, String.toList_append]
  exact List.suffix_append ..

/-- The temporary file has a name that a file can have. -/
theorem IsFileName.temporaryPath : IsFileName (temporaryPath name) := by
  have hsuffix := h.suffix_temporaryPath
  have hlength : 4 ≤ (Directory.temporaryPath name).toList.length := hsuffix.length_le
  have hne : ∀ text : String, text.toList.length < 4 → Directory.temporaryPath name ≠ text := by
    rintro _ hshort rfl
    omega
  refine ⟨hne _ (by decide), ?_, hne _ (by decide), hne _ (by decide)⟩
  rw [h.temporaryPath_eq, String.toList_append, String.toList_ofList, List.mem_append,
    List.mem_reverse]
  rintro (hstem | htmp)
  · exact h.slashless (List.mem_reverse.mp (mem_of_mem_stemReversed hstem))
  · exact absurd htmp (by decide)

end

end Directory

end CodeGolf
