import BlockSketch.Proofs.Sketch.Lines
import BlockSketch.Proofs.Sketch.Page

/-!
Moving in any text. What comes out is a page: each line of the text some levels in,
and nothing on the lines on which nothing was visible. So the lines that are moved in
again are those that were moved in before, and levels add up (`indent_composes`). All
that matters about the text is that it has no carriage returns: one in front of a line
feed goes with the end of its line, and then the one in front of it would go with the
end the next time.
-/

namespace BlockSketch.Sketch

/-! ### What comes out -/

/-- What stands on a line that has been moved in. -/
def PageLine.movedIn (levels : Nat) (line : List Char) : PageLine :=
  if Text.isBlankLine line then ⟨0, ""⟩ else ⟨levels, String.ofList line⟩

theorem PageLine.chars_movedIn (levels : Nat) (line : List Char) :
    (movedIn levels line).chars =
      if Text.isBlankLine line then [] else List.replicate (2 * levels) ' ' ++ line := by
  unfold movedIn
  split
  · rfl
  · rw [chars, String.toList_ofList]

theorem indentLine_eq (levels : Nat) (line : List Char) :
    indentLine levels line = (PageLine.movedIn levels line).chars ++ ['\n'] := by
  rw [indentLine, PageLine.chars_movedIn, margin_eq_replicate]
  split <;> rfl

theorem indent_eq_printed (code : String) (levels : Nat) :
    indent code levels = printed ((Text.lines code.toList).map (PageLine.movedIn levels)) := by
  rw [indent, printed, List.flatMap_map]
  congr 1
  exact List.flatMap_congr fun line _ => indentLine_eq levels line

theorem toList_indent (code : String) (levels : Nat) :
    (indent code levels).toList =
      (Text.lines code.toList).flatMap fun line =>
        (PageLine.movedIn levels line).chars ++ ['\n'] := by
  rw [indent_eq_printed, toList_printed, List.flatMap_map]

/-! ### Moving in again -/

variable {code : String}

/-- Line by line, a text that has been moved in is the text. -/
theorem lines_indent (h : '\r' ∉ code.toList) (levels : Nat) :
    Text.lines (indent code levels).toList =
      (Text.lines code.toList).map fun line => (PageLine.movedIn levels line).chars := by
  have hone : ∀ l ∈ (Text.lines code.toList).map (PageLine.movedIn levels), OneLine l.code := by
    intro l hl
    obtain ⟨line, hline, rfl⟩ := List.mem_map.1 hl
    rw [PageLine.movedIn]
    split
    · exact .empty
    · intro c hc
      rw [String.toList_ofList] at hc
      obtain ⟨hmem, hfeed⟩ := Text.mem_of_mem_lines hline hc
      exact ⟨hfeed, fun hreturn => h (hreturn ▸ hmem)⟩
  rw [indent_eq_printed, lines_printed hone, List.map_map]
  rfl

/-- A line that has been moved in is moved in further. -/
theorem indentLine_movedIn (a b : Nat) (line : List Char) :
    indentLine b (PageLine.movedIn a line).chars = indentLine (a + b) line := by
  rw [PageLine.chars_movedIn]
  by_cases hblank : Text.isBlankLine line = true
  · rw [if_pos hblank, indentLine_eq_of_blank hblank]
    rfl
  · have hmargin : margin b ++ margin a = margin (a + b) := by
      rw [← margin_add, Nat.add_comm]
    have hvisible : ¬ Text.isBlankLine (margin a ++ line) = true := by
      rw [Text.isBlankLine_append, Bool.and_eq_true]
      exact fun hboth => hblank hboth.2
    rw [if_neg hblank, ← margin_eq_replicate, indentLine, if_neg hvisible, indentLine,
      if_neg hblank, ← List.append_assoc, hmargin]

theorem indent_indent (h : '\r' ∉ code.toList) (a b : Nat) :
    indent (indent code a) b = indent code (a + b) := by
  rw [indent, lines_indent h, List.flatMap_map, indent]
  congr 1
  exact List.flatMap_congr fun line _ => indentLine_movedIn a b line

/-! ### Piece by piece -/

theorem indent_append {rest : String} (h : code = "" ∨ code.toList.getLast? = some '\n')
    (levels : Nat) : indent (code ++ rest) levels = indent code levels ++ indent rest levels := by
  have hended : code.toList = [] ∨ code.toList.getLast? = some '\n' :=
    h.imp_left String.toList_eq_nil_iff.2
  rw [indent, String.toList_append, Text.lines_append hended, List.flatMap_append,
    String.ofList_append]
  rfl

/-! ### Indentation -/

/-- Levels add up. What comes out has the lines of the text, with two blanks a level in
front of those on which something is visible and nothing on the others; each of them
has an end. Pieces that end with their line can be moved in one by one. -/
theorem indent_composes (code : String) (h : '\r' ∉ code.toList) :
    (∀ a b, indent (indent code a) b = indent code (a + b)) ∧
    (∀ levels,
      Text.lines (indent code levels).toList = (Text.lines code.toList).map (fun line =>
          if Text.isBlankLine line then [] else List.replicate (2 * levels) ' ' ++ line) ∧
        (indent code levels).toList =
          (Text.lines (indent code levels).toList).flatMap (fun line => line ++ ['\n'])) ∧
    (∀ rest levels, code = "" ∨ code.toList.getLast? = some '\n' →
      indent (code ++ rest) levels = indent code levels ++ indent rest levels) := by
  refine ⟨indent_indent h, fun levels => ⟨?_, ?_⟩, fun rest levels hended =>
    indent_append hended levels⟩
  · rw [lines_indent h]
    exact List.map_congr_left fun line _ => PageLine.chars_movedIn levels line
  · rw [lines_indent h, toList_indent, List.flatMap_map]

/-- A chain in a loop in a branch, with a line of blanks in it. -/
theorem indent_composes_of_nested :
    let chain := "for (;;) \x7b\n  a();\n \t \n\x7d\n"
    '\r' ∉ chain.toList ∧ chain.toList.getLast? = some '\n' ∧
      indent (indent chain 1) 2 = indent chain 3 ∧
      indent (chain ++ "b();") 1 = indent chain 1 ++ indent "b();" 1 := by
  intro chain
  have hreturn : '\r' ∉ chain.toList := by decide
  have hended : chain.toList.getLast? = some '\n' := by decide
  obtain ⟨hadd, -, happend⟩ := indent_composes chain hreturn
  exact ⟨hreturn, hended, hadd 1 2, happend "b();" 1 (.inr hended)⟩

end BlockSketch.Sketch
