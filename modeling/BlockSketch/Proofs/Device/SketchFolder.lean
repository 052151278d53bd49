import BlockSketch.Device.Toolchain
import BlockSketch.Proofs.Files.Writing
import BlockSketch.Proofs.Snapshot.Codec

/-!
Where a sketch is written. The toolchain asks for a file that is named like its
folder, and the name of both is a setting which is put behind the folder around
them as it is. The two paths agree exactly for a plain name, one that is a single
step and ends with it (`wellPlaced_iff`); other names are accepted just the same
(`ofText_compact`), and then the file lies somewhere else or has another name.
Where the paths agree, an upload writes this one file in the sketch folder and no
other, or none (`writeSketch_ok`).
-/

namespace BlockSketch

open BlockSketch.Path

/-- The sketch file is an entry of the sketch folder and named like it, and the sketch
folder is an entry of the folder around it. -/
def WellPlaced (root folder file : String) : Prop :=
  ∃ name entry, IsEntry root folder name ∧ IsEntry folder file entry ∧ stem entry = name

/-- A name that is a single step and ends with it. -/
def IsPlain (name : String) : Prop :=
  isAbsolute name = false ∧ ∃ step, step ≠ ".." ∧ steps name = [step] ∧
    (parts name).getLast? = some step

/-- The whole path of a folder that is named like the bare ending, written with a
separator behind it. The ending alone is then the name of the file. -/
def IsBareFolder (root name : String) : Prop :=
  isAbsolute name = true ∧ isAbsolute root = true ∧ steps name = steps root ++ [".ino"] ∧
    (parts name).getLast? = some ""

variable {root name step : String}

/-! ### Names -/

theorem not_mem_ino : '/' ∉ ".ino".toList := by decide

theorem stem_append_ino (h : name ≠ "") : stem (name ++ ".ino") = name := by
  have hreverse :
      (name ++ ".ino").toList.reverse = ['o', 'n', 'i', '.'] ++ name.toList.reverse := by
    rw [String.toList_append, List.reverse_append]
    rfl
  have htail : ((name ++ ".ino").toList.reverse.dropWhile fun c => c != '.').tail.reverse =
      name.toList := by
    rw [hreverse]
    simp [List.dropWhile]
  rw [stem, htail]
  cases hchars : name.toList with
  | nil => exact absurd (String.toList_eq_nil_iff.1 hchars) h
  | cons c cs =>
    show String.ofList (c :: cs) = name
    rw [← hchars, String.ofList_toList]

theorem append_ino_ne (h : step.toList.getLast? ≠ some 'o') (name : String) :
    name ++ ".ino" ≠ step := by
  rintro rfl
  apply h
  rw [String.toList_append, List.getLast?_append_of_ne_nil _ (by decide)]
  rfl

/-- What the ending does to the steps of a path. -/
theorem exists_steps_ino (path : String) : ∃ before last,
    (parts path).getLast? = some last ∧
      steps path = before ++ (if last = "" ∨ last = "." then [] else [last]) ∧
        steps (path ++ ".ino") = before ++ [last ++ ".ino"] := by
  obtain ⟨before, last, hparts⟩ := exists_parts path
  have hplain : parts path = before ++ [last] := by
    have := hparts "" (by decide)
    rwa [String.append_empty, String.append_empty] at this
  refine ⟨before.filter fun part => part ≠ "" ∧ part ≠ ".", last, ?_, ?_, ?_⟩
  · rw [hplain, List.getLast?_concat]
  · rw [steps, hplain, List.filter_append]
    by_cases hlast : last = "" ∨ last = "."
    · rw [if_pos hlast, List.filter_cons_of_neg (by simpa [or_iff_not_imp_left] using hlast)]
      rfl
    · rw [if_neg hlast, List.filter_cons_of_pos (by simpa [not_or] using hlast)]
      rfl
  · have hne : last ++ ".ino" ≠ "" ∧ last ++ ".ino" ≠ "." :=
      ⟨append_ino_ne (by decide) last, append_ino_ne (by decide) last⟩
    rw [steps, hparts ".ino" not_mem_ino, List.filter_append,
      List.filter_cons_of_pos (by simpa using hne)]
    rfl

theorem isAbsolute_append_ino (name : String) : isAbsolute (name ++ ".ino") = isAbsolute name := by
  by_cases hname : name = ""
  · subst hname
    decide
  · exact isAbsolute_append hname _

/-! ### Where the two paths agree -/

section Agreement

variable (root name)

/-- For a name that is put behind the folder around it. -/
theorem wellPlaced_relative_iff (hname : isAbsolute name = false) :
    WellPlaced root (join root name) (join (join root name) (name ++ ".ino")) ↔ IsPlain name := by
  have hino : isAbsolute (name ++ ".ino") = false := (isAbsolute_append_ino name).trans hname
  obtain ⟨before, last, hlast, hsteps, hstepsIno⟩ := exists_steps_ino name
  constructor
  · rintro ⟨n, entry, ⟨_, hfolder, hdown⟩, ⟨_, hfile, _⟩, rfl⟩
    rw [steps_join hname] at hfolder
    rw [steps_join hino] at hfile
    have hfolder := List.append_cancel_left hfolder
    have hfile := List.append_cancel_left hfile
    rw [hstepsIno] at hfile
    obtain ⟨rfl, rfl⟩ : before = [] ∧ last ++ ".ino" = entry := by
      cases before with
      | nil => exact ⟨rfl, (List.cons.inj hfile).1⟩
      | cons b rest => simp at hfile
    rw [hsteps, List.nil_append] at hfolder
    split at hfolder
    · cases hfolder
    · rename_i hproper
      have hstep : last = stem (last ++ ".ino") := (List.cons.inj hfolder).1
      rw [← hstep] at hdown
      exact ⟨hname, last, hdown, by rw [hsteps, if_neg hproper]; rfl, hlast⟩
  · rintro ⟨_, n, hdown, hsingle, hend⟩
    obtain rfl : last = n := Option.some.inj (hlast.symm.trans hend)
    have hproper := ne_dots_of_mem_steps (hsingle ▸ List.mem_singleton_self last)
    have hbefore : before = [] := by
      rw [hsingle, if_neg (by simpa using hproper)] at hsteps
      simpa using hsteps.symm
    refine ⟨last, last ++ ".ino", ⟨isAbsolute_join hname, ?_, hdown⟩,
      ⟨isAbsolute_join hino, ?_, append_ino_ne (by decide) last⟩, stem_append_ino hproper.1⟩
    · rw [steps_join hname, hsingle]
    · rw [steps_join hino, hstepsIno, hbefore]
      rfl

/-- For a name that is a path of its own. -/
theorem wellPlaced_absolute_iff (hname : isAbsolute name = true) :
    WellPlaced root name (name ++ ".ino") ↔ IsBareFolder root name := by
  obtain ⟨before, last, hlast, hsteps, hstepsIno⟩ := exists_steps_ino name
  constructor
  · rintro ⟨n, entry, ⟨hbase, hfolder, _⟩, ⟨_, hfile, _⟩, rfl⟩
    rw [hstepsIno, hsteps, List.append_assoc] at hfile
    have hfile := List.append_cancel_left hfile
    split at hfile
    · rename_i hnothing
      obtain rfl : last ++ ".ino" = entry := (List.cons.inj hfile).1
      obtain rfl | rfl := hnothing
      · exact ⟨hname, hbase.symm.trans hname, hfolder, hlast⟩
      · -- The stem would be a dot, which is no step.
        have hmem : stem ("." ++ ".ino") ∈ steps name := by
          rw [hfolder]
          exact List.mem_append_right _ (List.mem_singleton_self _)
        exact absurd rfl (ne_dots_of_mem_steps hmem).2
    · simp at hfile
  · rintro ⟨_, hroot, hfolder, hend⟩
    obtain rfl : last = "" := Option.some.inj (hlast.symm.trans hend)
    rw [if_pos (.inl rfl), List.append_nil] at hsteps
    refine ⟨".ino", ".ino", ⟨hname.trans hroot.symm, hfolder, by decide⟩,
      ⟨isAbsolute_append_ino name, ?_, by decide⟩, by decide⟩
    rw [hstepsIno, hsteps]
    rfl

end Agreement

/-- The two paths agree for plain names and for one odd kind of name beside them. -/
theorem wellPlaced_iff (c : Config) :
    WellPlaced root (c.sketchFolderIn root) (c.sketchFileIn root) ↔
      IsPlain c.sketchName ∨ IsBareFolder root c.sketchName := by
  rw [Config.sketchFileIn, Config.sketchFolderIn]
  cases hname : isAbsolute c.sketchName with
  | false =>
    rw [wellPlaced_relative_iff root _ hname]
    refine (or_iff_left fun hbare => ?_).symm
    rw [hbare.1] at hname
    cases hname
  | true =>
    have hino : isAbsolute (c.sketchName ++ ".ino") = true :=
      (isAbsolute_append_ino c.sketchName).trans hname
    rw [join_of_isAbsolute hname, join_of_isAbsolute hino, wellPlaced_absolute_iff root _ hname]
    refine (or_iff_right fun hplain => ?_).symm
    rw [hplain.1] at hname
    cases hname

/-! ### Writing the sketch -/

/-- A sketch has been written: in the folder to which the path of the sketch folder
leads, which lies in the one around it, and nowhere else. -/
def WrittenInside (root folder source : String) (before after : Disk) : Prop :=
  ∃ place name entry, stem entry = name ∧
    after.resolve [] (names root) = .ok place ∧
    after.resolve [] (names folder) = .ok (place ++ [name]) ∧
    after.isFolder (place ++ [name]) = true ∧
    after.file? (place ++ [name, entry]) = some source ∧
    ∀ other, other ≠ place ++ [name, entry] → after.file? other = before.file? other

namespace Bench

variable {b after : Bench} {source : String}

/-- The last name on the path of the sketch file. -/
theorem exists_names_sketchFile (b : Bench) :
    ∃ before entry, names b.sketchFile = before ++ [entry] ∧ entry ≠ "." ∧ entry ≠ ".." := by
  have hfile : b.sketchFile = join b.sketchFolder b.config.sketchName ++ ".ino" :=
    join_append (isAbsolute_append_ino b.config.sketchName)
  obtain ⟨before, last, hparts⟩ := exists_parts (join b.sketchFolder b.config.sketchName)
  refine ⟨before.filter fun part => part ≠ "", last ++ ".ino", ?_,
    append_ino_ne (by decide) last, append_ino_ne (by decide) last⟩
  rw [hfile, names_eq_filter, hparts ".ino" not_mem_ino, List.filter_append,
    List.filter_cons_of_pos (by simp)]
  rfl

/-- A sketch that is written is written in the sketch folder. -/
theorem writeSketch_ok (h : WellPlaced b.root b.sketchFolder b.sketchFile)
    (hwrite : b.writeSketch source = (.ok (), after)) :
    (∀ place ∈ b.disk.folders, place ∈ after.disk.folders) ∧
      WrittenInside b.root b.sketchFolder source b.disk after.disk := by
  unfold writeSketch at hwrite
  split at hwrite
  · cases hwrite
  rename_i between hmade
  split at hwrite
  · cases hwrite
  rename_i written hwritten
  cases hwrite
  obtain ⟨name, entry, hfolder, ⟨_, hfile, _⟩, hstem⟩ := h
  obtain ⟨hgrown, place, hway, hplace⟩ := Disk.makeFoldersAt_ok hmade
  obtain ⟨before, last, hnames, hdot, hup⟩ := b.exists_names_sketchFile
  obtain ⟨place', hway', hfile'⟩ := Disk.writeAt_ok hnames hdot hup hwritten
  obtain ⟨hsteps, rfl⟩ : (before.filter fun name => name ≠ ".") = steps b.sketchFolder ∧
      last = entry := by
    rw [steps_eq_filter, hnames, List.filter_append,
      List.filter_cons_of_pos (by simpa using hdot), List.filter_nil] at hfile
    exact List.append_singleton_inj.1 hfile
  obtain rfl : place' = place := by
    have hthere := hway.filter
    rw [← steps_eq_filter, ← hsteps] at hthere
    exact hthere.unique hway'.filter
  obtain ⟨around, haround, rfl⟩ := hway.around hfolder
  rw [List.append_assoc] at hfile'
  refine ⟨fun place hplace => ?_, around, name, last, hstem,
    Disk.resolve_eq_ok.2 (hfile'.leads haround), Disk.resolve_eq_ok.2 (hfile'.leads hway),
    (hfile'.isFolder _).trans hplace, hfile'.text, fun other hother => ?_⟩
  · rw [hfile'.folders]
    exact hgrown.folders place hplace
  · rw [hfile'.others other hother, Disk.file?, hgrown.files]
    rfl

/-- A sketch that cannot be written leaves all files as they were. -/
theorem writeSketch_error {e : DeviceError} (hwrite : b.writeSketch source = (.error e, after)) :
    (∀ place ∈ b.disk.folders, place ∈ after.disk.folders) ∧ after.disk.files = b.disk.files := by
  unfold writeSketch at hwrite
  split at hwrite
  · cases hwrite
    exact ⟨fun _ h => h, rfl⟩
  rename_i between hmade
  split at hwrite
  · cases hwrite
    have hgrown := (Disk.makeFoldersAt_ok hmade).1
    exact ⟨hgrown.folders, hgrown.files⟩
  · cases hwrite

/-- To run the tool leaves the disk as it is. -/
theorem disk_of_runToEnd {arguments : List String} {result : Except DeviceError ToolRun}
    (h : b.runToEnd arguments = (result, after)) : after.disk = b.disk := by
  simp only [runToEnd, run] at h
  split at h <;> cases h <;> rfl

/-- An upload touches the disk only to write the sketch. -/
theorem disk_upload (b : Bench) (source : String) (board : Board) (port : String) :
    (b.upload source board port).2.disk = (b.writeSketch source).2.disk := by
  unfold upload
  rcases b.writeSketch source with ⟨e | ⟨⟩, b₁⟩
  · rfl
  dsimp only
  rcases hcompile : b₁.runToEnd ["compile", "-b", board.fqbn, b₁.sketchFolder] with
    ⟨e | compiled, b₂⟩
  · exact disk_of_runToEnd hcompile
  have hcompiled := disk_of_runToEnd hcompile
  dsimp only
  split
  · exact hcompiled
  rcases hupload : b₂.runToEnd ["upload", "-b", board.fqbn, "-p", port, b₂.sketchFolder] with
    ⟨e | uploaded, b₃⟩
  · exact (disk_of_runToEnd hupload).trans hcompiled
  have huploaded := (disk_of_runToEnd hupload).trans hcompiled
  dsimp only
  split <;> exact huploaded

end Bench

/-! ### Settings -/

namespace Config

open Json

/-- Any name and any folder around it get through the reader: settings whose board is
known come back from their text. -/
theorem ofText_compact {c : Config} (h : (Board.find? c.defaultBoard).isSome = true) :
    ofText c.toJson.compact = .ok c := by
  have hwhole : c.toJson.Whole := by
    have hroot : (Json.ofOption .string c.sketchRoot).Whole := by
      cases c.sketchRoot <;> trivial
    exact ⟨trivial, trivial, trivial, hroot, trivial, trivial⟩
  have hrecord : (Document.clipped nestingLimit c.toJson).record? names =
      some ⟨false, [some (.string c.defaultBoard), some (.string c.tool),
        some (.string c.sketchName), some (Document.clipped 126 (.ofOption .string c.sketchRoot)),
        some (.number (.nonneg (UInt64.ofNat c.baudRate.toNat)))]⟩ := rfl
  have hread : ofDocument? (Document.clipped nestingLimit c.toJson) = some c := by
    rw [ofDocument?, hrecord]
    simp only [Option.bind_eq_bind, Option.bind_some, defaulted?, Document.string?,
      Document.orNull?_clipped, uint32?_ofNat]
    rfl
  rw [ofText, ofText?_compact hwhole, Option.bind_some, hread]
  exact if_pos h

end Config

/-- With the folder around it in the settings, the sketch file is an entry of the sketch
folder, named like it, and the sketch folder an entry of the one around it exactly if
the name is plain or of the one odd kind. Then an upload writes the file there, and no
other; if it cannot be written, no file is touched. -/
theorem wellPlaced_settings_iff {c : Config} (h : c.sketchRoot = some root) :
    ∃ folder file, c.sketchFolder? = some folder ∧ c.sketchFile? = some file ∧
      (WellPlaced root folder file ↔ IsPlain c.sketchName ∨ IsBareFolder root c.sketchName) ∧
      (WellPlaced root folder file → ∀ b : Bench, b.config = c → b.root = root →
        ∀ source board port,
          let disk := (b.upload source board port).2.disk
          (∀ place ∈ b.disk.folders, place ∈ disk.folders) ∧
            match (b.writeSketch source).1 with
            | .ok () => WrittenInside root folder source b.disk disk
            | .error _ => disk.files = b.disk.files) := by
  refine ⟨c.sketchFolderIn root, c.sketchFileIn root, by rw [Config.sketchFolder?, h]; rfl,
    by rw [Config.sketchFile?, h]; rfl, wellPlaced_iff c, ?_⟩
  rintro hplaced b rfl rfl source board port
  rw [b.disk_upload source board port]
  rcases hwrite : b.writeSketch source with ⟨e | ⟨⟩, after⟩
  · exact Bench.writeSketch_error hwrite
  · exact Bench.writeSketch_ok hplaced hwrite

/-- A sketch is written where the folder for it is missing and there is another file. -/
theorem wellPlaced_settings_iff_of_blink :
    let c : Config := { Config.default with sketchName := "blink", sketchRoot := some "/srv" }
    let b : Bench :=
      ⟨c, "/srv", ⟨[["srv"]], [(["srv", "notes"], "none")]⟩, true, [], [], none⟩
    c.sketchRoot = some "/srv" ∧ IsPlain c.sketchName ∧
      WellPlaced "/srv" "/srv/blink" "/srv/blink/blink.ino" ∧
        WrittenInside "/srv" "/srv/blink" "void setup() \x7b\x7d" b.disk
          (b.upload "void setup() \x7b\x7d" .uno "COM3").2.disk := by
  intro c b
  have hroot : c.sketchRoot = some "/srv" := rfl
  have hplain : IsPlain c.sketchName := ⟨by decide, "blink", by decide, by decide, by decide⟩
  obtain ⟨folder, file, hfolder, hfile, hplaced, hupload⟩ := wellPlaced_settings_iff hroot
  obtain rfl : "/srv/blink" = folder := Option.some.inj ((by decide : _ = _).trans hfolder)
  obtain rfl : "/srv/blink/blink.ino" = file := Option.some.inj ((by decide : _ = _).trans hfile)
  have hthere : WellPlaced "/srv" "/srv/blink" "/srv/blink/blink.ino" := hplaced.2 (.inl hplain)
  have hmade : b.disk.makeFoldersAt "/srv/blink" =
      .ok ⟨[["srv"], ["srv", "blink"]], b.disk.files⟩ := by
    have hnames : Disk.namesOn "/srv/blink" = .ok ["srv", "blink"] := by
      rw [Disk.namesOn, if_neg (by decide), if_neg (by decide)]
      exact congrArg Except.ok (by decide)
    rw [Disk.makeFoldersAt, hnames]
    show b.disk.makeFolders ["srv", "blink"] = _
    rw [Disk.makeFolders]
    rfl
  have hwritten : (b.writeSketch "void setup() \x7b\x7d").1 = .ok () := by
    have hnames : Disk.namesOn "/srv/blink/blink.ino" = .ok ["srv", "blink", "blink.ino"] := by
      rw [Disk.namesOn, if_neg (by decide), if_neg (by decide)]
      exact congrArg Except.ok (by decide)
    have hpaths : b.sketchFolder = "/srv/blink" ∧ b.sketchFile = "/srv/blink/blink.ino" := by
      decide
    unfold Bench.writeSketch
    rw [hpaths.1, hpaths.2, hmade]
    dsimp only
    rw [Disk.writeAt, hnames]
    rfl
  have hdisk := (hupload hthere b rfl rfl "void setup() \x7b\x7d" .uno "COM3").2
  rw [hwritten] at hdisk
  exact ⟨hroot, hplain, hthere, hdisk⟩

/-- A name that is a path of its own, and one with a separator at its end: both are
accepted, and the file of the one lies beside its folder while that of the other lies in
a folder that is not made and has no name. -/
theorem misplaced_of_accepted :
    let beside : Config := { Config.default with sketchName := "/srv/x", sketchRoot := some "/srv" }
    let nameless : Config := { Config.default with sketchName := "x/", sketchRoot := some "/srv" }
    (Config.ofText beside.toJson.compact = .ok beside ∧ beside.sketchFolder? = some "/srv/x" ∧
      beside.sketchFile? = some "/srv/x.ino" ∧ ¬ WellPlaced "/srv" "/srv/x" "/srv/x.ino") ∧
    Config.ofText nameless.toJson.compact = .ok nameless ∧
      nameless.sketchFolder? = some "/srv/x/" ∧ nameless.sketchFile? = some "/srv/x/x/.ino" ∧
        ¬ WellPlaced "/srv" "/srv/x/" "/srv/x/x/.ino" := by
  intro beside nameless
  refine ⟨⟨Config.ofText_compact (by decide), by decide, by decide, fun hplaced => ?_⟩,
    Config.ofText_compact (by decide), by decide, by decide, fun hplaced => ?_⟩
  · have hfolder : beside.sketchFolderIn "/srv" = "/srv/x" := by decide
    have hfile : beside.sketchFileIn "/srv" = "/srv/x.ino" := by decide
    have hiff : WellPlaced "/srv" (beside.sketchFolderIn "/srv") (beside.sketchFileIn "/srv") ↔ _ :=
      wellPlaced_iff beside
    rw [hfolder, hfile] at hiff
    obtain ⟨hrelative, _⟩ | ⟨_, _, _, hend⟩ := hiff.1 hplaced
    · exact absurd hrelative (by decide)
    · exact absurd hend (by decide)
  · have hfolder : nameless.sketchFolderIn "/srv" = "/srv/x/" := by decide
    have hfile : nameless.sketchFileIn "/srv" = "/srv/x/x/.ino" := by decide
    have hiff :
        WellPlaced "/srv" (nameless.sketchFolderIn "/srv") (nameless.sketchFileIn "/srv") ↔ _ :=
      wellPlaced_iff nameless
    rw [hfolder, hfile] at hiff
    obtain ⟨_, step, _, hsteps, hend⟩ | ⟨habsolute, _⟩ := hiff.1 hplaced
    · obtain rfl : "" = step := Option.some.inj ((by decide : _ = _).trans hend)
      exact absurd hsteps (by decide)
    · exact absurd habsolute (by decide)

end BlockSketch
