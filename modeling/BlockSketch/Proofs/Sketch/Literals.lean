import BlockSketch.Proofs.Sketch.Lines
import BlockSketch.Proofs.Sketch.ReadBack

/-!
Nothing gets out of a string literal. Whatever the text is, a reader that starts at the
opening quote ends at the closing one and has read the text, and no line ends in
between. So whoever reads the code around a literal reads it as if the text were
another one: what follows is the same, and the line is the same but for the literal.
-/

namespace BlockSketch.Text

theorem readLiteral?_literal (s : String) (rest : List Char) :
    readLiteral? ((literal s).toList ++ rest) = some (s.toList, rest) := by
  rw [literal, String.toList_ofList, List.cons_append, List.cons_append, List.append_assoc,
    List.singleton_append, readLiteral?]
  exact readLiteralBody?_literalBody s.toList rest

/-- A text that ends with a quote and a backslash does not end its literal early. -/
example : readLiteral? (literal "a\"\\").toList = some (['a', '"', '\\'], []) := by
  decide

theorem literal_ne_nil (s : String) : (literal s).toList ≠ [] := by
  rw [literal, String.toList_ofList]
  exact List.cons_ne_nil _ _

theorem literal_injective : Function.Injective literal := by
  intro s t h
  have hs := readLiteral?_literal s []
  rw [h, readLiteral?_literal t [], Option.some_inj, Prod.mk.injEq] at hs
  exact String.toList_inj.1 hs.1.symm

/-- A literal stands on one line, whose rest does not depend on the text. -/
theorem exists_lines_literal (cs ds : List Char) :
    ∃ before start finish after, ∀ s,
      lines (cs ++ (literal s).toList ++ ds) =
        before ++ (start ++ (literal s).toList ++ finish) :: after := by
  obtain ⟨before, start, finish, after, h⟩ := exists_lines_around cs ds
  exact ⟨before, start, finish, after, fun s =>
    h _ (literal_ne_nil s) fun c hc => (mem_literal hc).imp_right And.left⟩

/-- A literal is read to its end and no further, whatever follows, and gives the text;
there is no line feed, carriage return or tab in it, and no other text has this
literal. In code it is one token, and it stands on one line; what comes after it, and
what else is on that line and on the others, is the same for every text. The code of
a text block is such a literal. -/
theorem literal_sealed :
    (∀ s rest, readLiteral? ((literal s).toList ++ rest) = some (s.toList, rest)) ∧
    (∀ s, readLiteral? (literal s).toList = some (s.toList, [])) ∧
    (∀ s, ∀ c ∈ (literal s).toList, c ≠ '\n' ∧ c ≠ '\r' ∧ c ≠ '\t') ∧
    (∀ s t, s ≠ t → literal s ≠ literal t) ∧
    (∀ s rest, Sketch.Token.ofChars? ((literal s).toList ++ rest) =
      (Sketch.Token.ofChars? rest).map (.literal s :: ·)) ∧
    (∀ cs ds, ∃ before start finish after, ∀ s,
      lines (cs ++ (literal s).toList ++ ds) =
        before ++ (start ++ (literal s).toList ++ finish) :: after) ∧
    (∃ type, Registry.builtin.get? "text" = some type ∧
      ∀ ctx, type.generator ctx = .value (literal (ctx.field "TEXT")) .atomic) := by
  refine ⟨readLiteral?_literal, fun s => ?_, fun s c => mem_literal,
    fun s t hne heq => hne (literal_injective heq), Sketch.Token.prints_literal,
    exists_lines_literal, ⟨Library.text, rfl, fun ctx => rfl⟩⟩
  simpa using readLiteral?_literal s []

end BlockSketch.Text
