import BlockSketch.Files.Path
import Mathlib.Data.List.Basic

/-!
Where a path leads. A path is cut at its separators into parts; a part that is
empty or a single dot is no step of the way. Joining puts the steps of the name
behind those of the folder, unless the name is a path of its own
(`steps_join`), and a text without separators that is put behind a path changes
its last part alone (`exists_parts`).
-/

namespace BlockSketch.Path

/-- The texts between the separators of a path, empty ones included. -/
def parts (path : String) : List String :=
  (path.toList.splitOn '/').map String.ofList

def steps (path : String) : List String :=
  (parts path).filter fun part => part ≠ "" ∧ part ≠ "."

/-- A name without what follows its last dot, if there is anything before this dot. -/
def stem (name : String) : String :=
  match (name.toList.reverse.dropWhile fun c => c != '.').tail.reverse with
  | [] => name
  | before => String.ofList before

structure IsEntry (folder path name : String) : Prop where
  sameBase : isAbsolute path = isAbsolute folder
  steps_eq : steps path = steps folder ++ [name]
  down : name ≠ ".."

variable {root name path : String}

/-! ### Parts and steps -/

theorem names_eq_filter (path : String) :
    names path = (parts path).filter fun part => part ≠ "" := by
  rw [names, parts, List.filter_map]
  congr 2
  funext cs
  cases cs <;> simp

theorem steps_eq_filter (path : String) :
    steps path = (names path).filter fun name => name ≠ "." := by
  rw [names_eq_filter, List.filter_filter, steps]
  congr 1
  funext part
  simp [Bool.and_comm]

theorem ne_dots_of_mem_steps {step : String} (h : step ∈ steps path) : step ≠ "" ∧ step ≠ "." := by
  simpa using (List.mem_filter.1 h).2

theorem parts_append {before after : List Char} (h : path.toList = before ++ '/' :: after) :
    parts path = parts (String.ofList before) ++ parts (String.ofList after) := by
  simp only [parts, h, String.toList_ofList, List.splitOn_append_cons_self, List.map_append]

theorem parts_of_not_mem (h : '/' ∉ path.toList) : parts path = [path] := by
  rw [parts, List.splitOn_eq_singleton h, List.map_singleton, String.ofList_toList]

/-- What is put behind a path without a separator becomes the end of its last part. -/
theorem exists_parts (path : String) : ∃ before last, ∀ ending : String,
    '/' ∉ ending.toList → parts (path ++ ending) = before ++ [last ++ ending] := by
  by_cases hmem : '/' ∈ path.toList
  · -- The last part begins at the last separator, which is the first one from behind.
    obtain ⟨last, before, hreverse, hlast⟩ :=
      List.eq_append_cons_of_mem (List.mem_reverse.2 hmem)
    have hpath : path.toList = before.reverse ++ '/' :: last.reverse := by
      rw [← List.reverse_reverse path.toList, hreverse]
      simp
    refine ⟨parts (String.ofList before.reverse), String.ofList last.reverse,
      fun ending hending => ?_⟩
    have hjoined : (path ++ ending).toList =
        before.reverse ++ '/' :: (last.reverse ++ ending.toList) := by
      rw [String.toList_append, hpath, List.append_assoc, List.cons_append]
    have hnot : '/' ∉ (String.ofList (last.reverse ++ ending.toList)).toList := by
      simp [hlast, hending]
    rw [parts_append hjoined, parts_of_not_mem hnot, String.ofList_append, String.ofList_toList]
  · refine ⟨[], path, fun ending hending => ?_⟩
    have hnot : '/' ∉ (path ++ ending).toList := by
      rw [String.toList_append, List.mem_append]
      exact fun h => h.elim hmem hending
    rw [parts_of_not_mem hnot, List.nil_append]

/-! ### Joining -/

theorem steps_append {before after : List Char} (h : path.toList = before ++ '/' :: after) :
    steps path = steps (String.ofList before) ++ steps (String.ofList after) := by
  rw [steps, parts_append h, List.filter_append]
  rfl

/-- The steps of a name that is no path of its own come behind those of the folder. -/
theorem steps_join (h : isAbsolute name = false) :
    steps (join root name) = steps root ++ steps name := by
  have hnothing : steps "" = [] := by decide
  rw [join, h, if_neg Bool.false_ne_true]
  cases hlast : root.toList.getLast? with
  | none =>
    have hroot : root = "" := String.toList_eq_nil_iff.1 (List.getLast?_eq_none_iff.1 hlast)
    have hneeds : needsSeparator root = false := by rw [needsSeparator, hlast]
    rw [hneeds, if_neg Bool.false_ne_true, hroot, hnothing, String.empty_append, List.nil_append]
  | some c =>
    by_cases hc : c = '/'
    · -- The folder ends with a separator: nothing is put between.
      subst hc
      obtain ⟨before, hroot⟩ := List.getLast?_eq_some_iff.1 hlast
      have hneeds : needsSeparator root = false := by rw [needsSeparator, hlast]; rfl
      have hjoined : (root ++ name).toList = before ++ '/' :: name.toList := by
        rw [String.toList_append, hroot, List.append_assoc, List.singleton_append]
      rw [hneeds, if_neg Bool.false_ne_true, steps_append hjoined, steps_append hroot,
        String.ofList_toList, String.ofList_nil, hnothing, List.append_nil]
    · have hneeds : needsSeparator root = true := by
        rw [needsSeparator, hlast]
        exact bne_iff_ne.2 hc
      have hjoined : (root ++ "/" ++ name).toList = root.toList ++ '/' :: name.toList := by
        rw [String.toList_append, String.toList_append, List.append_assoc]
        rfl
      rw [hneeds, if_pos rfl, steps_append hjoined, String.ofList_toList, String.ofList_toList]

theorem isAbsolute_append (hne : root ≠ "") (name : String) :
    isAbsolute (root ++ name) = isAbsolute root := by
  have hne : root.toList ≠ [] := mt String.toList_eq_nil_iff.1 hne
  rw [isAbsolute, isAbsolute, String.toList_append, List.head?_append_of_ne_nil _ hne]

theorem isAbsolute_join (h : isAbsolute name = false) :
    isAbsolute (join root name) = isAbsolute root := by
  rw [join, h, if_neg Bool.false_ne_true]
  by_cases hroot : root = ""
  · subst hroot
    exact h
  · split
    · rw [String.append_assoc, isAbsolute_append hroot]
    · rw [isAbsolute_append hroot]

/-- An ending may be put behind the name or behind the whole path. -/
theorem join_append {ending : String} (h : isAbsolute (name ++ ending) = isAbsolute name) :
    join root (name ++ ending) = join root name ++ ending := by
  simp only [join, h]
  split
  · rfl
  · split <;> simp only [String.append_assoc]

end BlockSketch.Path
