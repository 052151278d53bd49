import BlockSketch.Text.Lines
import Mathlib.Data.List.Basic

/-!
Lines of a text that is put together. A text that ends with its line has the same
lines whatever follows (`lines_append`), and what has no line breaks in it comes to
stand on one line, between a beginning and an end that depend only on what is around
it (`exists_lines_around`). A carriage return makes this less plain than it looks,
because whether it belongs to its line depends on the character behind it.
-/

namespace BlockSketch.Text

variable {cs ds xs line : List Char} {c : Char}

/-! ### One character -/

/-- A carriage return in front of a line feed belongs to the end of the line. -/
theorem lines_carriage (h : cs.head? = some '\n') : lines ('\r' :: cs) = lines cs := by
  rw [lines, linesBy, if_neg (by decide), if_pos ⟨rfl, h⟩]
  rfl

/-- Any other character stands at the front of its line. -/
theorem lines_other (hc : c ≠ '\n') (hr : ¬ (c = '\r' ∧ cs.head? = some '\n')) :
    lines (c :: cs) = (c :: (lines cs).headD []) :: (lines cs).tail := by
  unfold lines
  rw [linesBy, if_neg hc, if_neg hr]
  cases linesBy '\n' '\r' cs <;> rfl

theorem lines_eq_headD_cons (h : cs ≠ []) : lines cs = (lines cs).headD [] :: (lines cs).tail := by
  cases hlines : lines cs with
  | nil => exact absurd ((lines_eq_nil_iff cs).1 hlines) h
  | cons line more => rfl

/-- What stands on a line is part of the text, and no line feed. -/
theorem mem_of_mem_lines (hl : line ∈ lines cs) (hc : c ∈ line) : c ∈ cs ∧ c ≠ '\n' := by
  induction cs generalizing line with
  | nil => cases hl
  | cons d rest ih =>
    by_cases hd : d = '\n'
    · subst hd
      rw [lines_newline] at hl
      rcases List.mem_cons.1 hl with rfl | hl
      · cases hc
      · exact (ih hl hc).imp_left (List.mem_cons_of_mem _)
    · by_cases hr : d = '\r' ∧ rest.head? = some '\n'
      · obtain ⟨rfl, hr⟩ := hr
        rw [lines_carriage hr] at hl
        exact (ih hl hc).imp_left (List.mem_cons_of_mem _)
      · rw [lines_other hd hr] at hl
        rcases List.mem_cons.1 hl with rfl | hl
        · rcases List.mem_cons.1 hc with rfl | hc
          · exact ⟨List.mem_cons_self, hd⟩
          · cases hlines : lines rest with
            | nil =>
              rw [hlines] at hc
              cases hc
            | cons first more =>
              rw [hlines] at hc ih
              exact (ih List.mem_cons_self hc).imp_left (List.mem_cons_of_mem _)
        · exact (ih (List.mem_of_mem_tail hl) hc).imp_left (List.mem_cons_of_mem _)

/-! ### Two texts -/

/-- A text that ends with its line keeps its lines, and so does what follows. -/
theorem lines_append (h : cs = [] ∨ cs.getLast? = some '\n') :
    lines (cs ++ ds) = lines cs ++ lines ds := by
  induction cs with
  | nil => rfl
  | cons c rest ih =>
    have hlast : (c :: rest).getLast? = some '\n' := h.resolve_left (List.cons_ne_nil c rest)
    by_cases hrest : rest = []
    · subst hrest
      obtain rfl := Option.some_inj.1 hlast
      rw [List.cons_append, List.nil_append, lines_newline, lines_newline]
      rfl
    · rw [List.getLast?_cons_of_ne_nil hrest] at hlast
      have hmore := ih (.inr hlast)
      have hhead : (rest ++ ds).head? = rest.head? := List.head?_append_of_ne_nil _ hrest
      rw [List.cons_append]
      by_cases hc : c = '\n'
      · subst hc
        rw [lines_newline, lines_newline, hmore]
        rfl
      · by_cases hr : c = '\r' ∧ rest.head? = some '\n'
        · obtain ⟨rfl, hr⟩ := hr
          rw [lines_carriage hr, lines_carriage (hhead.trans hr), hmore]
        · rw [lines_other hc hr, lines_other hc (hhead ▸ hr), hmore, lines_eq_headD_cons hrest]
          rfl

/-- What has no line breaks stands at the front of the first line behind it. -/
theorem lines_in_front (hxs : xs ≠ []) (h : ∀ c ∈ xs, c ≠ '\n' ∧ c ≠ '\r') :
    lines (xs ++ ds) = (xs ++ (lines ds).headD []) :: (lines ds).tail := by
  induction xs with
  | nil => exact absurd rfl hxs
  | cons c rest ih =>
    obtain ⟨hc, hmore⟩ := List.forall_mem_cons.1 h
    rw [List.cons_append, lines_other hc.1 fun hr => hc.2 hr.1]
    by_cases hrest : rest = []
    · subst hrest
      rfl
    · rw [ih hrest hmore]
      rfl

/-- What does not begin with a line feed is put behind a text: its first line goes on
where the text ends. -/
theorem exists_lines_behind (cs : List Char) :
    ∃ before start, ∀ ds, ds ≠ [] → ds.head? ≠ some '\n' →
      lines (cs ++ ds) = before ++ (start ++ (lines ds).headD []) :: (lines ds).tail := by
  induction cs with
  | nil => exact ⟨[], [], fun ds hds _ => lines_eq_headD_cons hds⟩
  | cons c rest ih =>
    obtain ⟨before, start, h⟩ := ih
    by_cases hc : c = '\n'
    · subst hc
      refine ⟨[] :: before, start, fun ds hds hhead => ?_⟩
      rw [List.cons_append, lines_newline, h ds hds hhead]
      rfl
    · -- A carriage return at the end does not become part of a line break.
      have hsame : ∀ ds : List Char, ds.head? ≠ some '\n' →
          ((rest ++ ds).head? = some '\n' ↔ rest.head? = some '\n') := by
        intro ds hhead
        cases rest with
        | nil => simp [hhead]
        | cons d rest => rfl
      by_cases hr : c = '\r' ∧ rest.head? = some '\n'
      · obtain ⟨rfl, hr⟩ := hr
        refine ⟨before, start, fun ds hds hhead => ?_⟩
        rw [List.cons_append, lines_carriage ((hsame ds hhead).2 hr), h ds hds hhead]
      · have hfront : ∀ ds : List Char, ds.head? ≠ some '\n' → lines (c :: (rest ++ ds)) =
            (c :: (lines (rest ++ ds)).headD []) :: (lines (rest ++ ds)).tail :=
          fun ds hhead => lines_other hc fun hr' => hr (hr'.imp_right (hsame ds hhead).1)
        cases before with
        | nil =>
          refine ⟨[], c :: start, fun ds hds hhead => ?_⟩
          rw [List.cons_append, hfront ds hhead, h ds hds hhead]
          rfl
        | cons first more =>
          refine ⟨(c :: first) :: more, start, fun ds hds hhead => ?_⟩
          rw [List.cons_append, hfront ds hhead, h ds hds hhead]
          rfl

/-- What has no line breaks in it stands on one line, and all that is around it on that
line and on the others depends on what is around it alone. -/
theorem exists_lines_around (cs ds : List Char) :
    ∃ before start finish after, ∀ xs, xs ≠ [] → (∀ c ∈ xs, c ≠ '\n' ∧ c ≠ '\r') →
      lines (cs ++ xs ++ ds) = before ++ (start ++ xs ++ finish) :: after := by
  obtain ⟨before, start, h⟩ := exists_lines_behind cs
  refine ⟨before, start, (lines ds).headD [], (lines ds).tail, fun xs hxs hone => ?_⟩
  have hhead : (xs ++ ds).head? ≠ some '\n' := by
    obtain ⟨c, rest, rfl⟩ := List.exists_cons_of_ne_nil hxs
    exact fun heq => (hone c List.mem_cons_self).1 (Option.some_inj.1 heq)
  rw [List.append_assoc, h _ (List.append_ne_nil_of_left_ne_nil hxs ds) hhead,
    lines_in_front hxs hone, List.append_assoc]
  rfl

end BlockSketch.Text
