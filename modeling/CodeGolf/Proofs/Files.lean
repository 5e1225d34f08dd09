import CodeGolf.Proofs.FileNames
import CodeGolf.Proofs.RoundTrip

/-!
# What is loaded after many saves

Snapshots are saved under the names of one directory, one after the other. A save has two points of
failure: the temporary file may not be written, and it may not be renamed. `Directory.SaveEffect` is
what it does in each case, and `SaveEffect.find?_eq` reads off it what one save leaves under any one
name (`Saving.leaves`). A run of saves decides each name by itself (`Directory.find?_saveAll`).

One would like to load under every name what was saved under it last. The temporary file stands in
the way: `x.tmp` is the temporary file of `x.dat`, and nothing keeps it from being the name of a
snapshot of its own. A save under `x.dat` then borrows the name `x.tmp` (`Saving.Borrows`), and what
was saved there is lost, whether the save succeeds or fails. `Directory.load_saveAll` says what is
loaded in all cases, and `Directory.not_load_saveAll` has the two saves that break the simple law.
-/

namespace CodeGolf

namespace Directory

/-! ## One save -/

/-- What a save does: it cannot write the temporary file, and nothing changes; or it cannot rename
it, and the temporary file stays; or the temporary file is gone and the file has its content. -/
inductive SaveEffect (d : Directory) (name : String) (s : Snapshot) :
    Except StoreError Unit × Directory → Prop where
  | unwritten {fault : FileFault} (hfault : d.writeFault? (temporaryPath name) = some fault) :
      SaveEffect d name s (.error (.file (temporaryPath name) fault), d)
  | unrenamed {fault : FileFault} (hwritten : d.writeFault? (temporaryPath name) = none)
      (hfault : (d.insert [temporaryPath name] (.file s.encode)).writeFault? name = some fault) :
      SaveEffect d name s
        (.error (.file name fault), d.insert [temporaryPath name] (.file s.encode))
  | saved (hwritten : d.writeFault? (temporaryPath name) = none)
      (hrenamed : (d.insert [temporaryPath name] (.file s.encode)).writeFault? name = none) :
      SaveEffect d name s
        (.ok (),
          ((d.insert [temporaryPath name] (.file s.encode)).erase [temporaryPath name]).insert
            [name] (.file s.encode))

/-- Every save under the name of a file has one of these effects. -/
theorem saveEffect {name : String} (h : IsFileName name) (d : Directory) (s : Snapshot) :
    SaveEffect d name s (d.save name s) := by
  delta save
  simp only [h.temporaryPath.write_eq]
  cases hwritten : d.writeFault? (temporaryPath name) with
  | some fault => exact .unwritten hwritten
  | none =>
    have hthere := h.temporaryPath.find?_insert d (temporaryPath name) (.file s.encode)
    rw [if_pos rfl] at hthere
    simp only [Option.elim_none,
      h.rename_eq h.temporaryPath (writeFault?_eq_none_iff.mp hwritten).1 hthere]
    cases hrenamed : (d.insert [temporaryPath name] (.file s.encode)).writeFault? name with
    | some fault => exact .unrenamed hwritten hrenamed
    | none => exact .saved hwritten hrenamed

end Directory

/-- A save with what it led to. -/
structure Saving where
  name : String
  snapshot : Snapshot
  result : Except StoreError Unit

namespace Saving

/-- Whether a save writes its temporary file where the file of another name would stand. -/
def Borrows (c : Saving) (name : String) : Prop :=
  c.name ≠ name ∧ Directory.temporaryPath c.name = name

instance (c : Saving) (name : String) : Decidable (c.Borrows name) :=
  inferInstanceAs (Decidable (_ ∧ _))

/-- What a save leaves under a name, where something was there before. -/
def leaves (name : String) (there : Option Entry) (c : Saving) : Option Entry :=
  match c.result with
  | .ok _ =>
    if c.name = name then some (.file c.snapshot.encode)
    else if c.Borrows name then none
    else there
  | .error _ => if c.Borrows name then some (.file c.snapshot.encode) else there

section
variable {name : String} {there : Option Entry} {c : Saving}

/-- Where no folder was, a save leaves none. -/
theorem leaves_ne_folder (h : there ≠ some .folder) (c : Saving) :
    c.leaves name there ≠ some .folder := by
  rw [leaves]
  split
  · split
    · simp
    · split
      · simp
      · exact h
  · split
    · simp
    · exact h

/-- A save that neither succeeds under a name nor borrows it leaves there what was there. -/
theorem leaves_of_not_borrows (hother : c.name = name → c.result ≠ .ok ())
    (hborrows : ¬c.Borrows name) : c.leaves name there = there := by
  rw [leaves]
  split
  · next hok => rw [if_neg fun heq => hother heq hok, if_neg hborrows]
  · rw [if_neg hborrows]

/-- A name that was borrowed by a save that succeeded is free. -/
theorem leaves_of_borrows_of_ok (hborrows : c.Borrows name) (hok : c.result = .ok ()) :
    c.leaves name there = none := by
  rw [leaves, hok]
  exact (if_neg hborrows.1).trans (if_pos hborrows)

/-- A name that was borrowed by a save that failed has the content that was to be saved. -/
theorem leaves_of_borrows_of_not_ok (hborrows : c.Borrows name) (hok : c.result ≠ .ok ()) :
    c.leaves name there = some (.file c.snapshot.encode) := by
  rw [leaves]
  split
  · next heq => exact absurd heq hok
  · exact if_pos hborrows

/-- Saves that neither succeed under a name nor borrow it leave there what was there. -/
theorem foldl_leaves_of_not_borrows {l : List Saving}
    (hother : ∀ c ∈ l, c.name = name → c.result ≠ .ok ()) (hborrows : ∀ c ∈ l, ¬c.Borrows name) :
    l.foldl (leaves name) there = there := by
  induction l with
  | nil => rfl
  | cons c rest ih =>
    obtain ⟨hc, hrest⟩ := List.forall_mem_cons.mp hother
    obtain ⟨hc', hrest'⟩ := List.forall_mem_cons.mp hborrows
    rw [List.foldl_cons, leaves_of_not_borrows hc hc', ih hrest hrest']

end

end Saving

namespace Directory

variable {d : Directory} {name n : String} {s : Snapshot}

/-- **One save decides each name by itself.** -/
theorem SaveEffect.find?_eq {outcome : Except StoreError Unit × Directory}
    (he : SaveEffect d name s outcome) (hn : IsFileName n) (hfree : d.writeFault? n = none) :
    outcome.2.find? [n] = Saving.leaves n (d.find? [n]) ⟨name, s, outcome.1⟩ := by
  cases he with
  | unwritten hfault =>
    -- The temporary file is not the file of `n`, which could be written.
    have hother : temporaryPath name ≠ n := by
      rintro rfl
      cases hfault.symm.trans hfree
    simp [Saving.leaves, Saving.Borrows, hother]
  | unrenamed hwritten hfault =>
    have hother : name = n → temporaryPath name ≠ n := by
      rintro rfl htemporary
      rw [htemporary] at hfault
      have := (writeFault?_eq_none_iff.mp hfree).1
      rw [writeFault?_eq_none_iff.mpr ⟨this, by simp [hn.find?_insert]⟩] at hfault
      cases hfault
    show (d.insert _ _).find? [n] = _
    rw [hn.find?_insert]
    by_cases hborrows : temporaryPath name = n
    · have hne : name ≠ n := fun heq => hother heq hborrows
      simp [Saving.leaves, Saving.Borrows, hborrows, hne]
    · simp [Saving.leaves, Saving.Borrows, hborrows]
  | saved hwritten hrenamed =>
    show (Directory.insert _ _ _).find? [n] = _
    rw [hn.find?_insert, hn.find?_erase, hn.find?_insert]
    by_cases hsame : name = n
    · simp [Saving.leaves, hsame]
    · by_cases hborrows : temporaryPath name = n <;>
        simp [Saving.leaves, Saving.Borrows, hsame, hborrows]

/-- A save that succeeds leaves its content under its name. -/
theorem SaveEffect.find?_of_ok {outcome : Except StoreError Unit × Directory}
    (he : SaveEffect d n s outcome) (hn : IsFileName n) (hok : outcome.1 = .ok ()) :
    nameFault? n = none ∧ outcome.2.find? [n] = some (.file s.encode) := by
  cases he with
  | unwritten | unrenamed => cases hok
  | saved _ hrenamed =>
    refine ⟨(writeFault?_eq_none_iff.mp hrenamed).1, ?_⟩
    show (Directory.insert _ _ _).find? [n] = _
    rw [hn.find?_insert, if_pos rfl]

/-- Where a file can be written, one can be written after a save. -/
theorem writeFault?_save (hname : IsFileName name) (hn : IsFileName n)
    (hfree : d.writeFault? n = none) : (d.save name s).2.writeFault? n = none := by
  obtain ⟨hfault, hfolder⟩ := writeFault?_eq_none_iff.mp hfree
  refine writeFault?_eq_none_iff.mpr ⟨hfault, ?_⟩
  rw [(saveEffect hname d s).find?_eq hn hfree]
  exact Saving.leaves_ne_folder hfolder _

/-! ## Many saves -/

-- What follows is about the effects of a save; its steps are not looked into again.
seal save

/-- The directory after saves one after the other. -/
def saveAll (d : Directory) : List (String × Snapshot) → Directory
  | [] => d
  | (name, s) :: rest => (d.save name s).2.saveAll rest

/-- The saves with what they led to. -/
def savings (d : Directory) : List (String × Snapshot) → List Saving
  | [] => []
  | (name, s) :: rest => ⟨name, s, (d.save name s).1⟩ :: (d.save name s).2.savings rest

/-- What is in the log was called. -/
theorem mem_of_mem_savings {calls : List (String × Snapshot)} {c : Saving}
    (h : c ∈ d.savings calls) : (c.name, c.snapshot) ∈ calls := by
  induction calls generalizing d with
  | nil => cases h
  | cons call rest ih =>
    obtain ⟨name, s⟩ := call
    rcases List.mem_cons.mp h with rfl | h
    · exact List.mem_cons_self ..
    · exact List.mem_cons_of_mem _ (ih h)

/-- **What is under a name after many saves** is what they leave there, one after the other. -/
theorem find?_saveAll {calls : List (String × Snapshot)}
    (hnames : ∀ call ∈ calls, IsFileName call.1) (hn : IsFileName n)
    (hfree : d.writeFault? n = none) :
    (d.saveAll calls).find? [n] = (d.savings calls).foldl (Saving.leaves n) (d.find? [n]) := by
  induction calls generalizing d with
  | nil => rfl
  | cons call rest ih =>
    obtain ⟨name, s⟩ := call
    obtain ⟨hname, hrest⟩ := List.forall_mem_cons.mp hnames
    rw [saveAll, savings, List.foldl_cons, ← (saveEffect hname d s).find?_eq hn hfree]
    exact ih hrest (writeFault?_save hname hn hfree)

/-- An entry of the log is one of the saves, after those before it. -/
theorem exists_of_savings_eq_append {calls : List (String × Snapshot)} {before later : List Saving}
    {c : Saving} (h : d.savings calls = before ++ c :: later) :
    ∃ (first : List (String × Snapshot)) (name : String) (s : Snapshot)
      (rest : List (String × Snapshot)) (d' : Directory), calls = first ++ (name, s) :: rest ∧
      c = ⟨name, s, (d'.save name s).1⟩ ∧ later = (d'.save name s).2.savings rest ∧
      d.saveAll calls = (d'.save name s).2.saveAll rest := by
  induction before generalizing d calls with
  | nil =>
    cases calls with
    | nil => cases h
    | cons call rest =>
      obtain ⟨name, s⟩ := call
      cases h
      exact ⟨[], name, s, rest, d, rfl, rfl, rfl, rfl⟩
  | cons x before ih =>
    cases calls with
    | nil => cases h
    | cons call rest =>
      obtain ⟨first, name, s, later, d', rfl, hc, hlater, hafter⟩ := ih (List.cons.inj h).2
      exact ⟨call :: first, name, s, later, d', rfl, hc, hlater, hafter⟩

/-! ## Loading -/

/-- The content of a snapshot is loaded as the snapshot. -/
theorem load_of_file (hn : IsFileName n) (hfault : nameFault? n = none)
    (hsize : (Snapshot.Encode.body s).length < UInt64.size)
    (hthere : d.find? [n] = some (.file s.encode)) : d.load n = .ok s := by
  have hdecode := Snapshot.decode_encode hsize []
  rw [List.append_nil] at hdecode
  rw [load, hn.read_of_file hfault hthere, Snapshot.ofFile, hdecode]
  rfl

/-- Where there is nothing, nothing is loaded. -/
theorem load_of_absent (hn : IsFileName n) (hfault : nameFault? n = none)
    (hthere : d.find? [n] = none) : d.load n = .error (.file n .notFound) := by
  rw [load, hn.read_of_absent hfault hthere]
  rfl

section
variable {calls : List (String × Snapshot)} (hn : IsFileName n) (hfault : nameFault? n = none)
  (hthere : d.find? [n] = some (.file s.encode)) (hnames : ∀ call ∈ calls, IsFileName call.1)
  (hlast : ∀ c ∈ d.savings calls, c.name = n → c.result ≠ .ok ())
include hn hfault hthere hnames hlast

/-- A snapshot in a file stays as long as no save succeeds under its name or borrows it. -/
theorem find?_saveAll_of_not_borrows (hborrows : ∀ c ∈ d.savings calls, ¬c.Borrows n) :
    (d.saveAll calls).find? [n] = some (.file s.encode) := by
  have hfree := writeFault?_eq_none_iff.mpr ⟨hfault, by rw [hthere]; simp⟩
  rw [find?_saveAll hnames hn hfree, hthere]
  exact Saving.foldl_leaves_of_not_borrows hlast hborrows

/-- What is in the place of a snapshot is what was left by the last save that borrowed its name. -/
theorem find?_saveAll_of_borrows {first rest : List Saving} {c : Saving}
    (hsplit : d.savings calls = first ++ c :: rest) (hborrows : c.Borrows n)
    (hrest : ∀ x ∈ rest, ¬x.Borrows n) :
    (c.result = .ok () → (d.saveAll calls).find? [n] = none) ∧
    (c.result ≠ .ok () → (d.saveAll calls).find? [n] = some (.file c.snapshot.encode)) := by
  have hfree := writeFault?_eq_none_iff.mpr ⟨hfault, by rw [hthere]; simp⟩
  rw [hsplit] at hlast
  have hquiet := (List.forall_mem_cons.mp (List.forall_mem_append.mp hlast).2).2
  rw [find?_saveAll hnames hn hfree, hsplit, List.foldl_append, List.foldl_cons,
    Saving.foldl_leaves_of_not_borrows hquiet hrest]
  exact ⟨Saving.leaves_of_borrows_of_ok hborrows, Saving.leaves_of_borrows_of_not_ok hborrows⟩

end

/-- **A name holds what was saved under it last, unless it is borrowed.** From every directory,
saves are called under any names of files, with snapshots whose bytes can be counted with 64 bits,
and each of them may fail. Let the last one that succeeded under a name be given. Then:

* a name that does not end in `.tmp` is loaded as that snapshot;
* so is a name that no later save under another name borrowed for its temporary file;
* after the last later save that borrowed the name, there is nothing under it if this save
  succeeded, and what this save failed to save if it failed. -/
theorem load_saveAll (d : Directory) {calls : List (String × Snapshot)}
    (hnames : ∀ call ∈ calls, IsFileName call.1)
    (hsizes : ∀ call ∈ calls, (Snapshot.Encode.body call.2).length < UInt64.size)
    {before later : List Saving}
    (hsaved : d.savings calls = before ++ ⟨n, s, .ok ()⟩ :: later)
    (hlast : ∀ c ∈ later, c.name = n → c.result ≠ .ok ()) :
    (¬".tmp".toList <:+ n.toList → (d.saveAll calls).load n = .ok s) ∧
    ((∀ c ∈ later, ¬c.Borrows n) → (d.saveAll calls).load n = .ok s) ∧
    ∀ first c rest, later = first ++ c :: rest → c.Borrows n → (∀ x ∈ rest, ¬x.Borrows n) →
      (c.result = .ok () → (d.saveAll calls).load n = .error (.file n .notFound)) ∧
      (c.result ≠ .ok () → (d.saveAll calls).load n = .ok c.snapshot) := by
  obtain ⟨first, name, snapshot, rest, d', rfl, hcall, hlater, hafter⟩ :=
    exists_of_savings_eq_append hsaved
  obtain ⟨rfl, rfl, hok⟩ := Saving.mk.inj hcall
  obtain ⟨hn, hnames⟩ := List.forall_mem_cons.mp (List.forall_mem_append.mp hnames).2
  obtain ⟨hsize, hsizes⟩ := List.forall_mem_cons.mp (List.forall_mem_append.mp hsizes).2
  have hsave := saveEffect hn d' s
  -- From here on only the directory after the save matters, and the saves that come later.
  generalize d'.save n s = outcome at hok hlater hafter hsave
  obtain ⟨hfault, hthere⟩ := hsave.find?_of_ok hn hok.symm
  subst hlater
  rw [hafter]
  have hkept := fun hborrows => load_of_file hn hfault hsize
    (find?_saveAll_of_not_borrows hn hfault hthere hnames hlast hborrows)
  refine ⟨fun hsuffix => hkept fun c hc hborrows => ?_, hkept, ?_⟩
  · have htmp := (hnames _ (mem_of_mem_savings hc)).suffix_temporaryPath
    rw [hborrows.2] at htmp
    exact hsuffix htmp
  · intro first c rest hsplit hborrows hrest
    have hc : c ∈ outcome.2.savings _ :=
      hsplit ▸ List.mem_append_right _ (List.mem_cons_self ..)
    obtain ⟨habsent, hleft⟩ :=
      find?_saveAll_of_borrows hn hfault hthere hnames hlast hsplit hborrows hrest
    exact ⟨fun hok => load_of_absent hn hfault (habsent hok), fun hok =>
      load_of_file hn hfault (hsizes (c.name, c.snapshot) (mem_of_mem_savings hc)) (hleft hok)⟩

/-- A save succeeds if it does not fail. -/
theorem eq_ok_of_isOk {r : Except StoreError Unit} (h : r.isOk = true) : r = .ok () := by
  cases r with
  | ok => rfl
  | error => cases h

end Directory

namespace Sample

/-- A snapshot of a board on which nothing was done yet. -/
def blank (now : Time) : Snapshot := ⟨now, [], [], []⟩

/-- Two saves, the second of which has its temporary file where the first one was saved. -/
def borrowing : List (String × Snapshot) := [("x.tmp", blank 1), ("x.dat", blank 2)]

/-- Both saves succeed. -/
theorem savings_borrowing :
    Directory.empty.savings borrowing =
      [⟨"x.tmp", blank 1, .ok ()⟩, ⟨"x.dat", blank 2, .ok ()⟩] := by
  have hfirst : (Directory.empty.save "x.tmp" (blank 1)).1 = .ok () :=
    Directory.eq_ok_of_isOk (by decide +kernel)
  have hsecond : ((Directory.empty.save "x.tmp" (blank 1)).2.save "x.dat" (blank 2)).1 = .ok () :=
    Directory.eq_ok_of_isOk (by decide +kernel)
  rw [borrowing, Directory.savings, Directory.savings, Directory.savings, hfirst, hsecond]

end Sample

namespace Directory

/-- What was saved last is loaded under its name, and the name that it borrowed is free. -/
theorem load_saveAll_of_borrowing :
    (∀ call ∈ Sample.borrowing, IsFileName call.1) ∧
    (∀ call ∈ Sample.borrowing, (Snapshot.Encode.body call.2).length < UInt64.size) ∧
    (empty.saveAll Sample.borrowing).load "x.dat" = .ok (Sample.blank 2) ∧
    (empty.saveAll Sample.borrowing).load "x.tmp" = .error (.file "x.tmp" .notFound) := by
  have hnames : ∀ call ∈ Sample.borrowing, IsFileName call.1 := by decide +kernel
  have hsizes : ∀ call ∈ Sample.borrowing,
      (Snapshot.Encode.body call.2).length < UInt64.size := by decide +kernel
  have hborrows : Saving.Borrows ⟨"x.dat", Sample.blank 2, .ok ()⟩ "x.tmp" := by decide +kernel
  have hsecond : empty.savings Sample.borrowing =
      [⟨"x.tmp", Sample.blank 1, .ok ()⟩] ++ ⟨"x.dat", Sample.blank 2, .ok ()⟩ :: [] :=
    Sample.savings_borrowing
  have hfirst : empty.savings Sample.borrowing =
      [] ++ ⟨"x.tmp", Sample.blank 1, .ok ()⟩ :: [⟨"x.dat", Sample.blank 2, .ok ()⟩] :=
    Sample.savings_borrowing
  refine ⟨hnames, hsizes, ?_, ?_⟩
  · exact (load_saveAll empty hnames hsizes hsecond (List.forall_mem_nil _)).1 (by decide +kernel)
  · obtain ⟨-, -, hborrowed⟩ := load_saveAll empty hnames hsizes hfirst (by simp)
    exact (hborrowed [] _ [] rfl hborrows (List.forall_mem_nil _)).1 rfl

/-- **A snapshot that was saved is not always loaded again**: a save under another name takes it
away. -/
theorem not_load_saveAll :
    ¬∀ (d : Directory) (calls : List (String × Snapshot)),
      (∀ call ∈ calls, IsFileName call.1) →
      (∀ call ∈ calls, (Snapshot.Encode.body call.2).length < UInt64.size) →
      ∀ before later n s, d.savings calls = before ++ ⟨n, s, .ok ()⟩ :: later →
        (∀ c ∈ later, c.name = n → c.result ≠ .ok ()) → (d.saveAll calls).load n = .ok s := by
  intro h
  have hload := h empty Sample.borrowing (by decide +kernel) (by decide +kernel) [] _ "x.tmp" _
    Sample.savings_borrowing (by simp)
  have hgone : ((empty.saveAll Sample.borrowing).load "x.tmp").isOk = false := by decide +kernel
  rw [hload] at hgone
  cases hgone

end Directory

end CodeGolf
