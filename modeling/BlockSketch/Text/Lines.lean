/-!
Lines.  A line ends at a line feed, or at a carriage return followed by one;
what stands after the last line feed is a line of its own unless it is empty.
A carriage return anywhere else belongs to its line.  The rule is the same for
characters and for bytes.
-/

namespace BlockSketch.Text

/-- The lines of a sequence in which `feed` ends a line and `carriage` may stand
in front of it, without their ends. -/
def linesBy {α : Type} [DecidableEq α] (feed carriage : α) : List α → List (List α)
  | [] => []
  | c :: rest =>
    if c = feed then [] :: linesBy feed carriage rest
    else if c = carriage ∧ rest.head? = some feed then linesBy feed carriage rest
    else
      match linesBy feed carriage rest with
      | [] => [[c]]
      | line :: more => (c :: line) :: more

def lines (cs : List Char) : List (List Char) :=
  linesBy '\n' '\r' cs

def byteLines (bytes : List UInt8) : List (List UInt8) :=
  linesBy 10 13 bytes

@[simp] theorem lines_nil : lines [] = [] := rfl

@[simp] theorem lines_newline (rest : List Char) :
    lines ('\n' :: rest) = [] :: lines rest := by
  simp [lines, linesBy]

theorem lines_cons {c : Char} (h : c ≠ '\n') (hr : c ≠ '\r') (rest : List Char) :
    lines (c :: rest) =
      match lines rest with
      | [] => [[c]]
      | line :: more => (c :: line) :: more := by
  unfold lines
  rw [linesBy, if_neg h, if_neg (by simp [hr])]
  cases linesBy '\n' '\r' rest <;> rfl

theorem linesBy_eq_nil_iff {α : Type} [DecidableEq α] (feed carriage : α) (cs : List α) :
    linesBy feed carriage cs = [] ↔ cs = [] := by
  induction cs with
  | nil => simp [linesBy]
  | cons c rest ih =>
    unfold linesBy
    split
    · simp
    · split
      · rename_i h
        have : rest ≠ [] := by rintro rfl; simp at h
        simp [ih, this]
      · split <;> simp

theorem lines_eq_nil_iff (cs : List Char) : lines cs = [] ↔ cs = [] :=
  linesBy_eq_nil_iff _ _ _

/-- Text without line feeds and carriage returns is one line. -/
theorem lines_single (line rest : List Char) (h : ∀ c ∈ line, c ≠ '\n' ∧ c ≠ '\r') :
    lines (line ++ '\n' :: rest) = line :: lines rest := by
  induction line with
  | nil => simp
  | cons c line ih =>
    have hc := h c (by simp)
    rw [List.cons_append, lines_cons hc.1 hc.2, ih fun d hd => h d (by simp [hd])]

end BlockSketch.Text
