import BlockSketch.Files.Disk
import BlockSketch.Proofs.Files.Steps
import BlockSketch.Proofs.Graph.Accepted

/-!
Making folders and writing files. What a path leads to is found name by name, and
this is what `Leads` says without the ways in which it fails; single dots are no
steps. To make folders leaves all files and folders as they are and ends with a
folder to which the path leads; to write a file changes this file and nothing
else.
-/

namespace BlockSketch.Disk

/-- A path leads from a folder to what is found there. -/
inductive Leads (disk : Disk) : List String → List String → List String → Prop
  | here (place : List String) : Leads disk place [] place
  | dot {place path found : List String} : disk.isFolder place = true →
      Leads disk place path found → Leads disk place ("." :: path) found
  | up {place path found : List String} : disk.isFolder place = true →
      Leads disk place.dropLast path found → Leads disk place (".." :: path) found
  | down {place path found : List String} {name : String} : disk.isFolder place = true →
      name ≠ "." → name ≠ ".." → name.utf8ByteSize ≤ nameLimit →
      (disk.isFolder (place ++ [name]) = true ∨ (disk.file? (place ++ [name])).isSome = true) →
      Leads disk (place ++ [name]) path found → Leads disk place (name :: path) found

variable {disk disk' : Disk} {place found : List String} {path names : List String}
  {name text : String}

/-! ### Where a path leads -/

theorem resolve_eq_ok : disk.resolve place path = .ok found ↔ Leads disk place path found := by
  constructor
  · intro h
    induction path generalizing place with
    | nil =>
      cases h
      exact .here _
    | cons name rest ih =>
      rw [resolve] at h
      split at h
      · cases h
      have hfolder : disk.isFolder place = true := by simpa using ‹¬ (!disk.isFolder place) = true›
      split at h
      · rename_i hname
        subst hname
        exact .dot hfolder (ih h)
      split at h
      · rename_i hname
        subst hname
        exact .up hfolder (ih h)
      split at h
      · cases h
      split at h
      · rename_i hdot hup hlength hthere
        exact .down hfolder hdot hup (Nat.not_lt.1 hlength) (by simpa using hthere) (ih h)
      · cases h
  · intro h
    induction h with
    | here place => rfl
    | dot hfolder _ ih => simpa [resolve, hfolder] using ih
    | up hfolder _ ih => simpa [resolve, hfolder] using ih
    | down hfolder hdot hup hlength hthere _ ih =>
      rw [resolve, if_neg (by simp [hfolder]), if_neg hdot, if_neg hup,
        if_neg (Nat.not_lt.2 hlength), if_pos (by simpa using hthere)]
      exact ih

namespace Leads

theorem unique {found' : List String} (h : Leads disk place path found)
    (h' : Leads disk place path found') : found' = found :=
  Except.ok.inj ((resolve_eq_ok.2 h').symm.trans (resolve_eq_ok.2 h))

/-- A way that ends in a folder goes through folders. -/
theorem isFolder (h : Leads disk place path found) (hfound : disk.isFolder found = true) :
    disk.isFolder place = true := by
  cases h with
  | here => exact hfound
  | dot hfolder => exact hfolder
  | up hfolder => exact hfolder
  | down hfolder => exact hfolder

theorem append {further : List String} (h : Leads disk place path found)
    (h' : Leads disk found names further) : Leads disk place (path ++ names) further := by
  induction h with
  | here => exact h'
  | dot hfolder _ ih => exact .dot hfolder (ih h')
  | up hfolder _ ih => exact .up hfolder (ih h')
  | down hfolder hdot hup hlength hthere _ ih =>
    exact .down hfolder hdot hup hlength hthere (ih h')

theorem of_append (h : Leads disk place (path ++ names) found) :
    ∃ between, Leads disk place path between ∧ Leads disk between names found := by
  induction path generalizing place with
  | nil => exact ⟨place, .here place, h⟩
  | cons name rest ih =>
    cases h with
    | dot hfolder hrest =>
      obtain ⟨between, hbefore, hafter⟩ := ih hrest
      exact ⟨between, .dot hfolder hbefore, hafter⟩
    | up hfolder hrest =>
      obtain ⟨between, hbefore, hafter⟩ := ih hrest
      exact ⟨between, .up hfolder hbefore, hafter⟩
    | down hfolder hdot hup hlength hthere hrest =>
      obtain ⟨between, hbefore, hafter⟩ := ih hrest
      exact ⟨between, .down hfolder hdot hup hlength hthere hbefore, hafter⟩

/-- Single dots are no steps. -/
theorem filter (h : Leads disk place path found) :
    Leads disk place (path.filter fun name => name ≠ ".") found := by
  induction h with
  | here place => exact .here place
  | dot _ _ ih =>
    rw [List.filter_cons_of_neg (by simp)]
    exact ih
  | up hfolder _ ih =>
    rw [List.filter_cons_of_pos (by decide)]
    exact .up hfolder ih
  | down hfolder hdot hup hlength hthere _ ih =>
    rw [List.filter_cons_of_pos (by simpa using hdot)]
    exact .down hfolder hdot hup hlength hthere ih

theorem of_filter (hfound : disk.isFolder found = true)
    (h : Leads disk place (path.filter fun name => name ≠ ".") found) :
    Leads disk place path found := by
  induction path generalizing place with
  | nil => exact h
  | cons name rest ih =>
    by_cases hname : name = "."
    · subst hname
      rw [List.filter_cons_of_neg (by simp)] at h
      exact .dot (h.isFolder hfound) (ih h)
    · rw [List.filter_cons_of_pos (by simpa using hname)] at h
      cases h with
      | dot => exact absurd rfl hname
      | up hfolder hrest => exact .up hfolder (ih hrest)
      | down hfolder hdot hup hlength hthere hrest =>
        exact .down hfolder hdot hup hlength hthere (ih hrest)

/-- A way stays where no folder and no file is lost. -/
theorem mono (hfolders : ∀ place, disk.isFolder place = true → disk'.isFolder place = true)
    (hfiles : ∀ place, (disk.file? place).isSome = true → (disk'.file? place).isSome = true)
    (h : Leads disk place path found) : Leads disk' place path found := by
  induction h with
  | here place => exact .here place
  | dot hfolder _ ih => exact .dot (hfolders _ hfolder) ih
  | up hfolder _ ih => exact .up (hfolders _ hfolder) ih
  | down hfolder hdot hup hlength hthere _ ih =>
    exact .down (hfolders _ hfolder) hdot hup hlength
      (hthere.imp (hfolders _) (hfiles _)) ih

/-- A path leads to an entry through the folder of which it is one. -/
theorem around {root path name : String} (hentry : Path.IsEntry root path name)
    (h : Leads disk [] (Path.names path) found) :
    ∃ around, Leads disk [] (Path.names root) around ∧ found = around ++ [name] := by
  have hsteps := h.filter
  rw [← Path.steps_eq_filter, hentry.steps_eq] at hsteps
  obtain ⟨around, hway, hlast⟩ := hsteps.of_append
  have hmem : name ∈ Path.steps path :=
    hentry.steps_eq ▸ List.mem_append_right _ (List.mem_singleton_self name)
  rw [Path.steps_eq_filter] at hway
  cases hlast with
  | dot => exact absurd rfl (Path.ne_dots_of_mem_steps hmem).2
  | up => exact absurd rfl hentry.down
  | down hfolder _ _ _ _ hend =>
    cases hend
    exact ⟨around, hway.of_filter hfolder, rfl⟩

end Leads

/-! ### Making folders -/

/-- Nothing is lost, and no file is touched. -/
structure Grown (disk disk' : Disk) : Prop where
  files : disk'.files = disk.files
  folders : ∀ place ∈ disk.folders, place ∈ disk'.folders

namespace Grown

theorem refl (disk : Disk) : Grown disk disk := ⟨rfl, fun _ h => h⟩

theorem trans {disk'' : Disk} (h : Grown disk disk') (h' : Grown disk' disk'') :
    Grown disk disk'' :=
  ⟨h'.files.trans h.files, fun place hplace => h'.folders place (h.folders place hplace)⟩

theorem isFolder (h : Grown disk disk') (hplace : disk.isFolder place = true) :
    disk'.isFolder place = true := by
  simp only [Disk.isFolder, Bool.or_eq_true, List.contains_iff_mem] at hplace ⊢
  exact hplace.imp_right (h.folders place)

theorem leads (h : Grown disk disk') (hway : Leads disk place path found) :
    Leads disk' place path found :=
  hway.mono (fun _ => h.isFolder) fun place hsome => by rwa [file?, h.files]

end Grown

/-- The folder on the way to the entry for the last name of a path, and this entry. -/
theorem entry_ok (h : disk.entry (path ++ [name]) = .ok found) :
    ∃ folder, Leads disk [] path folder ∧ disk.isFolder folder = true ∧
      name.utf8ByteSize ≤ nameLimit ∧
      found = if name = "." then folder else if name = ".." then folder.dropLast
        else folder ++ [name] := by
  simp only [entry, bind_eq_ok, List.dropLast_concat, List.getLast?_concat, guard_eq_ok,
    resolve_eq_ok] at h
  obtain ⟨folder, hway, hfolder, hlength, h⟩ := h
  refine ⟨folder, hway, by simpa using hfolder, Nat.not_lt.1 hlength, ?_⟩
  split at h
  · rw [if_pos ‹_›]
    exact pure_eq_ok.1 h
  · rw [if_neg ‹_›]
    split at h
    · rw [if_pos ‹_›]
      exact pure_eq_ok.1 h
    · rw [if_neg ‹_›]
      exact pure_eq_ok.1 h

/-- Once there is a folder at the entry for a path, the path leads to it. -/
theorem leads_of_entry (h : disk.entry path = .ok found) (hgrown : Grown disk disk')
    (hthere : disk'.isFolder found = true) : Leads disk' [] path found := by
  obtain rfl | ⟨names, name, rfl⟩ := List.eq_nil_or_concat path
  · cases h
    exact .here _
  · rw [List.concat_eq_append] at h ⊢
    obtain ⟨folder, hway, hfolder, hlength, rfl⟩ := entry_ok h
    refine (hgrown.leads hway).append ?_
    have hfolder := hgrown.isFolder hfolder
    by_cases hdot : name = "."
    · rw [if_pos hdot, hdot]
      exact .dot hfolder (.here _)
    by_cases hup : name = ".."
    · rw [if_neg hdot, if_pos hup, hup]
      exact .up hfolder (.here _)
    rw [if_neg hdot, if_neg hup] at hthere ⊢
    exact .down hfolder hdot hup hlength (.inl hthere) (.here _)

def Made (disk : Disk) (path : List String) (disk' : Disk) : Prop :=
  Grown disk disk' ∧ ∃ place, Leads disk' [] path place ∧ disk'.isFolder place = true

theorem makeFolder_ok (h : disk.makeFolder path = .ok disk') : Made disk path disk' := by
  simp only [makeFolder, bind_eq_ok, guard_eq_ok, pure_eq_ok] at h
  obtain ⟨place, hentry, _, rfl⟩ := h
  have hgrown : Grown disk { disk with folders := disk.folders ++ [place] } :=
    ⟨rfl, fun _ => List.mem_append_left _⟩
  have hthere : isFolder { disk with folders := disk.folders ++ [place] } place = true := by
    simp [isFolder]
  exact ⟨hgrown, place, leads_of_entry hentry hgrown hthere, hthere⟩

theorem ensureFolder_ok (h : disk.ensureFolder path = .ok disk') : Made disk path disk' := by
  rw [ensureFolder] at h
  split at h
  · cases h
    exact makeFolder_ok ‹_›
  · split at h
    · rename_i hthere
      cases h
      rw [leadsToFolder] at hthere
      split at hthere
      · exact ⟨.refl disk, _, resolve_eq_ok.1 ‹_›, hthere⟩
      · cases hthere
    · cases h

/-- Folders that are made on the way stay, and the path leads to the last of them. -/
theorem makeFolders_ok (h : disk.makeFolders path = .ok disk') : Made disk path disk' := by
  induction hlength : path.length using Nat.strongRecOn generalizing disk disk' path with
  | ind n ih =>
    rw [makeFolders] at h
    split at h
    · rename_i hpath
      cases h
      subst hpath
      exact ⟨.refl disk, [], .here _, rfl⟩
    · rename_i hpath
      split at h
      · rw [bind_eq_ok] at h
        obtain ⟨between, haround, hlast⟩ := h
        have hshorter : (parent path).length < n := hlength ▸ length_parent_lt hpath
        obtain ⟨hgrown, hway⟩ := ensureFolder_ok hlast
        exact ⟨(ih _ hshorter haround rfl).1.trans hgrown, hway⟩
      · exact ensureFolder_ok h

theorem namesOn_ok {path : String} {found : List String} (h : namesOn path = .ok found) :
    found = Path.names path := by
  rw [namesOn] at h
  split at h
  · cases h
  · split at h
    · cases h
    · exact (Except.ok.inj h).symm

theorem makeFoldersAt_ok {path : String} (h : disk.makeFoldersAt path = .ok disk') :
    Made disk (Path.names path) disk' := by
  rw [makeFoldersAt, bind_eq_ok] at h
  obtain ⟨found, hnames, h⟩ := h
  rw [namesOn_ok hnames] at h
  exact makeFolders_ok h

/-! ### Writing a file -/

theorem lookup_filter_ne {other : List String} (h : other ≠ place)
    (files : List (List String × String)) :
    (files.filter fun f => f.1 != place).lookup other = files.lookup other := by
  induction files with
  | nil => rfl
  | cons file rest ih =>
    by_cases hfile : file.1 = place
    · have hother : (other == file.1) = false := beq_eq_false_iff_ne.2 (hfile ▸ h)
      rw [List.filter_cons_of_neg (by simpa using hfile), ih, List.lookup_cons, hother]
    · rw [List.filter_cons_of_pos (by simpa using hfile), List.lookup_cons, List.lookup_cons, ih]

/-- A file has been written, and nothing else has changed. -/
structure Written (disk : Disk) (target : List String) (text : String) (disk' : Disk) : Prop where
  folders : disk'.folders = disk.folders
  text : disk'.file? target = some text
  others : ∀ other, other ≠ target → disk'.file? other = disk.file? other

namespace Written

variable {target : List String}

theorem isFolder (h : Written disk target text disk') (place : List String) :
    disk'.isFolder place = disk.isFolder place := by
  rw [Disk.isFolder, Disk.isFolder, h.folders]

theorem leads (h : Written disk target text disk') (hway : Leads disk place path found) :
    Leads disk' place path found := by
  refine hway.mono (fun place hplace => (h.isFolder place).trans hplace) fun place hsome => ?_
  by_cases hplace : place = target
  · rw [hplace, h.text]
    rfl
  · rwa [h.others place hplace]

end Written

/-- The file for the last name of a path is written in the folder to which the names
before it lead. -/
theorem write_ok (hdot : name ≠ ".") (hup : name ≠ "..")
    (h : disk.write (path ++ [name]) text = .ok disk') :
    ∃ folder, Leads disk [] path folder ∧ Written disk (folder ++ [name]) text disk' := by
  simp only [write, bind_eq_ok, guard_eq_ok, pure_eq_ok] at h
  obtain ⟨place, hentry, _, rfl⟩ := h
  obtain ⟨folder, hway, _, _, hplace⟩ := entry_ok hentry
  rw [if_neg hdot, if_neg hup] at hplace
  subst hplace
  refine ⟨folder, hway, rfl, ?_, fun other hother => ?_⟩
  · rw [file?, List.lookup_cons_self]
  · have hne : (other == folder ++ [name]) = false := beq_eq_false_iff_ne.2 hother
    rw [file?, List.lookup_cons, hne]
    exact lookup_filter_ne hother disk.files

theorem writeAt_ok {path : String} (hnames : Path.names path = names ++ [name]) (hdot : name ≠ ".")
    (hup : name ≠ "..") (h : disk.writeAt path text = .ok disk') :
    ∃ folder, Leads disk [] names folder ∧ Written disk (folder ++ [name]) text disk' := by
  rw [writeAt, bind_eq_ok] at h
  obtain ⟨found, hfound, h⟩ := h
  rw [namesOn_ok hfound, hnames] at h
  exact write_ok hdot hup h

end BlockSketch.Disk
