import BlockSketch.Sketch.Indent
import Mathlib.Data.List.Basic

/-!
Pages. A page is a list of lines, each with the level at which it stands, and is
printed line by line. As long as no line has a line break in it, the lines of the
printed text are those of the page, and as long as each begins with something
visible, moving the text in moves in every line.
-/

namespace BlockSketch

/-! ### Text on one line -/

def OneLine (s : String) : Prop :=
  ∀ c ∈ s.toList, c ≠ '\n' ∧ c ≠ '\r'

instance (s : String) : Decidable (OneLine s) :=
  List.decidableBAll _ s.toList

namespace OneLine

@[simp] theorem append_iff {s t : String} : OneLine (s ++ t) ↔ OneLine s ∧ OneLine t := by
  simp only [OneLine, String.toList_append]
  exact List.forall_mem_append

theorem append {s t : String} (hs : OneLine s) (ht : OneLine t) : OneLine (s ++ t) :=
  append_iff.2 ⟨hs, ht⟩

theorem empty : OneLine "" := by
  simp [OneLine]

theorem toString_nat (n : Nat) : OneLine (toString n) := by
  intro c hc
  have hdigits : c ∈ Nat.toDigits 10 n := by
    simpa [toString, Nat.repr] using hc
  have hdigit : c.isDigit := Nat.isDigit_of_mem_toDigits (by decide) (by decide) hdigits
  refine ⟨?_, ?_⟩ <;> rintro rfl <;> exact absurd hdigit (by decide)

end OneLine

/-- Text that begins with something that is not blank. -/
def Visible (s : String) : Prop :=
  ∃ c ∈ s.toList.head?, Text.isBlank c = false

instance (s : String) : Decidable (Visible s) :=
  Option.decidableExistsMem s.toList.head?

theorem Visible.append {s : String} (h : Visible s) (t : String) : Visible (s ++ t) := by
  obtain ⟨c, hc, hblank⟩ := h
  refine ⟨c, ?_, hblank⟩
  rw [String.toList_append, List.head?_append, Option.mem_def.1 hc]
  rfl

namespace Sketch

/-! ### Pages -/

/-- A line of a page: how far in it stands, and what stands on it. -/
structure PageLine where
  level : Nat
  code : String
deriving DecidableEq, Repr

namespace PageLine

/-- The line as it is printed: two blanks for each level, and the code. -/
def chars (l : PageLine) : List Char :=
  List.replicate (2 * l.level) ' ' ++ l.code.toList

def raise (levels : Nat) (l : PageLine) : PageLine :=
  { l with level := l.level + levels }

/-- A line that begins with something visible, and is one line. -/
structure Proper (l : PageLine) : Prop where
  visible : Visible l.code
  oneLine : OneLine l.code

theorem Proper.raise {l : PageLine} (h : l.Proper) (levels : Nat) : (l.raise levels).Proper :=
  ⟨h.visible, h.oneLine⟩

end PageLine

def printed (page : List PageLine) : String :=
  String.ofList (page.flatMap fun l => l.chars ++ ['\n'])

variable {page rest : List PageLine}

theorem toList_printed (page : List PageLine) :
    (printed page).toList = page.flatMap fun l => l.chars ++ ['\n'] :=
  String.toList_ofList

@[simp] theorem printed_nil : printed [] = "" := rfl

@[simp] theorem printed_append (page rest : List PageLine) :
    printed (page ++ rest) = printed page ++ printed rest := by
  simp [printed, String.ofList_append]

/-- A line of its own. -/
theorem printed_singleton (code : String) : printed [⟨0, code⟩] = code ++ "\n" := by
  rw [← String.toList_inj, toList_printed]
  simp [PageLine.chars]

/-! ### Lines of a printed page -/

theorem margin_eq_replicate (levels : Nat) : margin levels = List.replicate (2 * levels) ' ' := by
  induction levels with
  | zero => rfl
  | succ n ih =>
    have hone : margin 1 = List.replicate 2 ' ' := rfl
    rw [margin_add, ih, hone, List.replicate_append_replicate, Nat.mul_succ]

theorem PageLine.chars_eq (l : PageLine) : l.chars = margin l.level ++ l.code.toList := by
  rw [chars, margin_eq_replicate]

theorem PageLine.oneLine_chars {l : PageLine} (h : OneLine l.code) :
    ∀ c ∈ l.chars, c ≠ '\n' ∧ c ≠ '\r' := by
  intro c hc
  rcases List.mem_append.1 hc with hblank | hcode
  · rw [List.eq_of_mem_replicate hblank]
    decide
  · exact h c hcode

/-- The lines of a printed page are those of the page, if none has a line break. -/
theorem lines_printed (h : ∀ l ∈ page, OneLine l.code) :
    Text.lines (printed page).toList = page.map PageLine.chars := by
  rw [toList_printed]
  induction page with
  | nil => rfl
  | cons l page ih =>
    have hl := PageLine.oneLine_chars (h l List.mem_cons_self)
    rw [List.flatMap_cons, List.append_assoc, List.singleton_append, Text.lines_single _ _ hl,
      ih fun x hx => h x (List.mem_cons_of_mem _ hx), List.map_cons]

/-! ### Moving in -/

theorem PageLine.Proper.indentLine_chars {l : PageLine} (h : l.Proper) (levels : Nat) :
    indentLine levels l.chars = (l.raise levels).chars ++ ['\n'] := by
  obtain ⟨c, hc, hvisible⟩ := h.visible
  obtain ⟨rest, hcode⟩ := List.head?_eq_some_iff.1 hc
  have hseen : Text.isBlankLine l.chars = false := by
    simp [chars, hcode, hvisible]
  have hmargin : margin levels ++ margin l.level = margin (l.level + levels) := by
    rw [← margin_add, Nat.add_comm]
  rw [indentLine, hseen, if_neg Bool.false_ne_true, l.chars_eq, ← List.append_assoc, hmargin,
    chars_eq]
  rfl

/-- Moving in a printed page moves in its lines. -/
theorem indent_printed (h : ∀ l ∈ page, l.Proper) (levels : Nat) :
    indent (printed page) levels = printed (page.map (PageLine.raise levels)) := by
  rw [indent, lines_printed fun l hl => (h l hl).oneLine, printed, List.flatMap_map,
    List.flatMap_map]
  congr 1
  exact List.flatMap_congr fun l hl => (h l hl).indentLine_chars levels

end Sketch

end BlockSketch
