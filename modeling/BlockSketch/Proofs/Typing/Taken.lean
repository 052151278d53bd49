import BlockSketch.Workspace.Fields

/-!
What a field takes when it is read back, said without the reader: a number, or
text that writes one; an entry of a fixed choice; a pin of some board; any text.
-/

namespace BlockSketch

/-! ### Typed numbers -/

namespace Text

def decimal (digits : List Char) : Nat :=
  digits.foldl (fun n c => 10 * n + (c.toNat - '0'.toNat)) 0

/-- The text writes a number of at most sixty-four bits: blanks at the ends, at
most one plus sign, and at least one digit. -/
def WritesWord (s : String) : Prop :=
  ∃ plus digits, dropBlankEnds s.toList = plus ++ digits ∧ (plus = [] ∨ plus = ['+']) ∧
    digits ≠ [] ∧ (∀ c ∈ digits, '0' ≤ c ∧ c ≤ '9') ∧ decimal digits < UInt64.size

theorem readDigits?_eq_some {cs : List Char} {value n : Nat} :
    readDigits? value cs = some n ↔ (∀ c ∈ cs, '0' ≤ c ∧ c ≤ '9') ∧
      n = cs.foldl (fun n c => 10 * n + (c.toNat - '0'.toNat)) value := by
  induction cs generalizing value with
  | nil => simp [readDigits?, eq_comm]
  | cons c rest ih =>
    rw [readDigits?, List.forall_mem_cons, List.foldl_cons, digit?]
    by_cases hc : '0' ≤ c ∧ c ≤ '9'
    · rw [if_pos hc]
      exact ih.trans (by simp only [hc, true_and])
    · rw [if_neg hc]
      exact ⟨fun h => (by cases h), fun h => absurd h.1.1 hc⟩

theorem isSome_word? {cs : List Char} : (word? cs).isSome ↔
    cs ≠ [] ∧ (∀ c ∈ cs, '0' ≤ c ∧ c ≤ '9') ∧ decimal cs < UInt64.size := by
  have hword : (word? cs).isSome ↔ ∃ n, natural? cs = some n ∧ n < UInt64.size := by
    rw [word?]
    cases natural? cs with
    | none => simp
    | some n =>
      show (if n < UInt64.size then some (UInt64.ofNat n) else none).isSome ↔ _
      by_cases hn : n < UInt64.size
      · rw [if_pos hn]
        exact iff_of_true rfl ⟨n, rfl, hn⟩
      · rw [if_neg hn]
        refine iff_of_false (by simp) ?_
        rintro ⟨_, ⟨⟩, hlt⟩
        exact hn hlt
  rw [hword]
  cases cs with
  | nil => simp [natural?]
  | cons c rest =>
    simp only [natural?, readDigits?_eq_some, ne_eq, reduceCtorEq, not_false_eq_true, true_and]
    constructor
    · rintro ⟨_, ⟨hdigits, rfl⟩, hlt⟩
      exact ⟨hdigits, hlt⟩
    · rintro ⟨hdigits, hlt⟩
      exact ⟨_, ⟨hdigits, rfl⟩, hlt⟩

theorem isSome_typedWord? {s : String} : (typedWord? s).isSome ↔ WritesWord s := by
  rw [typedWord?, WritesWord]
  split
  · rename_i rest hs
    rw [isSome_word?, hs]
    constructor
    · exact fun h => ⟨['+'], rest, rfl, .inr rfl, h⟩
    · rintro ⟨plus, digits, heq, rfl | rfl, h⟩
      · -- The plus sign is no digit, so it cannot be the first of them.
        rw [List.nil_append] at heq
        rw [← heq] at h
        exact absurd (h.2.1 '+' (List.mem_cons_self ..)) (by decide)
      · rw [List.singleton_append, List.cons.injEq] at heq
        exact heq.2 ▸ h
  · rename_i hs
    rw [isSome_word?]
    constructor
    · exact fun h => ⟨[], _, rfl, .inl rfl, h⟩
    · rintro ⟨plus, digits, heq, rfl | rfl, h⟩
      · rw [heq]
        exact h
      · exact absurd heq (hs digits)

end Text

/-! ### Fields -/

theorem Board.isPinOfAny_iff {value : String} : isPinOfAny value = true ↔
    ∃ board ∈ all, ∃ pin ∈ board.pins, pin.value = value := by
  simp [isPinOfAny, hasPin, List.any_eq_true]

namespace FieldSpec

/-- What the field takes when it is read back. -/
def Takes (spec : FieldSpec) (value : FieldValue) : Prop :=
  match spec.kind with
  | .number _ =>
    match value with
    | .number _ => True
    | .text s => Text.WritesWord s
  | .dropdown (.fixed options) => ∃ option ∈ options, option.value = value.display
  | .dropdown (.onBoard _) => ∃ board ∈ Board.all, ∃ pin ∈ board.pins, pin.value = value.display
  | .text _ => True

/-- A field is read back if it takes the value, whatever board is active. -/
theorem restorable_iff_takes {spec : FieldSpec} {value : FieldValue} {board : Board} :
    (∃ stored, Workspace.restorable spec value board = .ok stored) ↔ spec.Takes value := by
  have hguard : ∀ {p : Bool} {v : FieldValue} {e : FieldFault},
      (∃ stored, (if p then Except.ok v else Except.error e) = .ok stored) ↔ p = true := by
    intro p v e
    cases p <;> simp
  obtain ⟨name, kind⟩ := spec
  cases kind with
  | number n =>
    cases value with
    | number m => exact ⟨fun _ => trivial, fun _ => ⟨.number m, rfl⟩⟩
    | text s =>
      show _ ↔ Text.WritesWord s
      rw [← Text.isSome_typedWord?]
      cases h : Text.typedWord? s <;>
        simp [Workspace.restorable, isBoardDependent, validate, h]
  | text s => exact ⟨fun _ => trivial, fun _ => ⟨_, rfl⟩⟩
  | dropdown source =>
    cases source with
    | fixed options =>
      refine Iff.trans (b := (options.any fun o => o.value == value.display) = true) hguard ?_
      simp [Takes, List.any_eq_true]
    | onBoard resolve =>
      exact Iff.trans (b := Board.isPinOfAny value.display = true) hguard Board.isPinOfAny_iff

end FieldSpec

end BlockSketch
