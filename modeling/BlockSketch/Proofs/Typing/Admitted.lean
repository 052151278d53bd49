import BlockSketch.Library.Types
import BlockSketch.Workspace.Fields

/-!
Values that fields admit. A value is admitted by a field if reading it back
gives the same value again, on whatever board. Setting a field and reading one
back both store admitted values only; so do new blocks, provided the type asks
for something that can be had.

What is asked of types is put together in `BlockType.Regular`: names are not
repeated, a choice always offers something, what it offers on a board is a pin,
an expression has nothing after it, and a root has the kind of a root. The
builtin types are regular.
-/

namespace BlockSketch

namespace FieldSpec

variable {spec : FieldSpec} {value stored : FieldValue} {board : Board}

/-- Reading the value back on any board gives the same value again. -/
def Admits (spec : FieldSpec) (value : FieldValue) : Prop :=
  ∀ board, Workspace.restorable spec value board = .ok value

theorem exists_resolver (h : spec.isBoardDependent = true) :
    ∃ resolve, spec.kind = .dropdown (.onBoard resolve) := by
  unfold isBoardDependent at h
  split at h
  · exact ⟨_, ‹_›⟩
  · cases h

/-- Only a choice that asks the board looks at it. -/
theorem validate_of_not_dependent (h : spec.isBoardDependent = false) (board board' : Board) :
    spec.validate value board = spec.validate value board' := by
  obtain ⟨name, kind⟩ := spec
  cases kind with
  | dropdown source =>
    cases source with
    | fixed options => rfl
    | onBoard resolve => cases h
  | number n => rfl
  | text s => rfl

theorem admits_of_restorable (h : Workspace.restorable spec value board = .ok stored) :
    spec.Admits stored := by
  intro board'
  unfold Workspace.restorable at h ⊢
  split at h
  · rename_i hdep
    rw [if_pos hdep]
    split at h
    · rename_i hpin
      cases h
      rw [FieldValue.display_text, if_pos hpin]
    · cases h
  · rename_i hdep
    rw [if_neg hdep, validate_of_not_dependent (by simpa using hdep) board' board]
    exact validate_of_validate h

/-- A choice offers something on every board, and pins if it asks the board. -/
structure Regular (spec : FieldSpec) : Prop where
  offers : ∀ source, spec.kind = .dropdown source → ∀ board ∈ Board.all, spec.options board ≠ []
  pins : spec.isBoardDependent = true → ∀ board ∈ Board.all, ∀ option ∈ spec.options board,
    Board.isPinOfAny option.value = true

/-- What the active board allows can be read back on any board: a choice that asks
the board is read back as a pin of any board, and offers nothing else. -/
theorem Regular.admits_of_validate (hs : spec.Regular) (hb : board ∈ Board.all)
    (h : spec.validate value board = .ok stored) : spec.Admits stored := by
  have hback : Workspace.restorable spec stored board = .ok stored := by
    unfold Workspace.restorable
    split
    · rename_i hdep
      have hstored : stored = .text value.display ∧
          ∃ option ∈ spec.options board, option.value = value.display := by
        unfold validate at h
        split at h
        · split at h
          · rename_i hany
            cases h
            exact ⟨rfl, by simpa using hany⟩
          · cases h
        · rename_i hkind
          rw [isBoardDependent, hkind] at hdep
          cases hdep
        · rename_i hkind
          rw [isBoardDependent, hkind] at hdep
          cases hdep
      obtain ⟨rfl, option, hoption, hvalue⟩ := hstored
      have hpin := hs.pins hdep board hb option hoption
      rw [hvalue] at hpin
      rw [FieldValue.display_text, if_pos hpin]
    · exact validate_of_validate h
  exact admits_of_restorable hback

/-- A choice offers something on the board. What is no choice need not offer anything. -/
def Offers (spec : FieldSpec) (board : Board) : Prop :=
  ∀ source, spec.kind = .dropdown source → spec.options board ≠ []

/-- The value that a new block starts with is one that could be set. -/
theorem Offers.validate_defaultValue (h : spec.Offers board) :
    spec.validate (spec.defaultValue board) board = .ok (spec.defaultValue board) := by
  unfold defaultValue validate
  split
  · rename_i source hkind
    have hoffers := h source hkind
    cases hoptions : spec.options board with
    | nil => exact absurd hoptions hoffers
    | cons option rest => simp
  · rfl
  · rfl

theorem Regular.offers_on (hs : spec.Regular) (hb : board ∈ Board.all) : spec.Offers board :=
  fun source hkind => hs.offers source hkind board hb

theorem Regular.admits_defaultValue (hs : spec.Regular) (hb : board ∈ Board.all) :
    spec.Admits (spec.defaultValue board) :=
  hs.admits_of_validate hb (hs.offers_on hb).validate_defaultValue

end FieldSpec

structure BlockType.DeclaresOnce (type : BlockType) : Prop where
  fields : (type.fields.map FieldSpec.name).Nodup
  statementSlots : type.sockets.statementSlots.Nodup
  valueSlots : (type.sockets.valueSlots.map ValueSlot.name).Nodup

/-- What a type must be like for its blocks to be read back as they are. -/
structure BlockType.Regular (type : BlockType) : Prop extends type.DeclaresOnce where
  specs : ∀ spec ∈ type.fields, spec.Regular
  ends : type.isPluggable = true → type.sockets.next = false
  roots : ∀ root, type.rootKind? = some root → type.kind = root.kindName

namespace Registry

def DeclaresOnce (registry : Registry) : Prop :=
  ∀ ⦃kind type⦄, registry.get? kind = some type → type.DeclaresOnce

/-- Every registered type is regular. -/
def Regular (registry : Registry) : Prop :=
  ∀ ⦃kind type⦄, registry.get? kind = some type → type.Regular

theorem Regular.declaresOnce {registry : Registry} (h : registry.Regular) :
    registry.DeclaresOnce :=
  fun _ _ hget => (h hget).toDeclaresOnce

/-- What is so of every registered type, and of one more, is so when that is registered. -/
theorem forall_register {registry : Registry} {P : BlockType → Prop} {type : BlockType}
    (h : ∀ ⦃kind other⦄, registry.get? kind = some other → P other) (ht : P type) :
    ∀ ⦃kind other⦄, (registry.register type).get? kind = some other → P other := by
  intro kind other hget
  rw [get?_register] at hget
  split at hget
  · cases hget
    exact ht
  · exact h hget

theorem Regular.register {registry : Registry} (h : registry.Regular) {type : BlockType}
    (ht : type.Regular) : (registry.register type).Regular :=
  forall_register h ht

theorem mem_of_get?_foldl {kind : String} {type : BlockType} (types : List BlockType)
    (registry : Registry) (h : (types.foldl register registry).get? kind = some type) :
    type ∈ types ∨ registry.get? kind = some type := by
  induction types generalizing registry with
  | nil => exact .inr h
  | cons first rest ih =>
    obtain h | h := ih (registry.register first) h
    · exact .inl (List.mem_cons_of_mem _ h)
    · rw [get?_register] at h
      split at h
      · rw [Option.some_inj] at h
        rw [h]
        exact .inl (List.mem_cons_self ..)
      · exact .inr h

theorem mem_of_get?_ofList {types : List BlockType} {kind : String} {type : BlockType}
    (h : (ofList types).get? kind = some type) : type ∈ types := by
  obtain h | h := mem_of_get?_foldl types empty h
  · exact h
  · cases h

end Registry

/-! ### The builtin types -/

namespace Library

theorem regular_pinField : pinField.Regular where
  offers _ _ := by decide
  pins _ := by decide

theorem regular_choice {name : String} {options : List (String × String)} (h : options ≠ []) :
    (FieldSpec.choice name options).Regular where
  offers _ _ board _ := by simpa [FieldSpec.choice, FieldSpec.options] using h
  pins hdep := by cases hdep

theorem regular_number (name : String) (n : UInt64) : FieldSpec.Regular ⟨name, .number n⟩ where
  offers _ hkind := by cases hkind
  pins hdep := by cases hdep

theorem regular_text (name : String) (s : String) : FieldSpec.Regular ⟨name, .text s⟩ where
  offers _ hkind := by cases hkind
  pins hdep := by cases hdep

theorem regular_types : ∀ type ∈ types, type.Regular := by
  have hspecs : ∀ type ∈ types, ∀ spec ∈ type.fields, spec.Regular := by
    simp only [types, List.forall_mem_cons, setup, loop, root, pinMode, digitalWrite, analogWrite,
      delay, repeatTimes, ifThen, serialBegin, serialPrint, number, text, digitalRead, analogRead,
      compare, plainChoice, List.not_mem_nil, false_imp_iff, implies_true, and_true, true_and,
      regular_pinField, regular_number, regular_text]
    refine ⟨?_, ?_, ?_, ?_⟩ <;> apply regular_choice <;> decide
  intro type htype
  have hnames : ∀ type ∈ types, (type.fields.map FieldSpec.name).Nodup ∧
      type.sockets.statementSlots.Nodup ∧ (type.sockets.valueSlots.map ValueSlot.name).Nodup ∧
      (type.isPluggable = true → type.sockets.next = false) ∧
      (∀ root ∈ RootKind.all, type.rootKind? = some root → type.kind = root.kindName) := by
    decide
  obtain ⟨hfields, hstatements, hvalues, hends, hroots⟩ := hnames type htype
  exact ⟨⟨hfields, hstatements, hvalues⟩, hspecs type htype, hends,
    fun root => hroots root (by cases root <;> decide)⟩

end Library

theorem Registry.regular_builtin : Registry.builtin.Regular :=
  fun _ _ h => Library.regular_types _ (Registry.mem_of_get?_ofList h)

end BlockSketch
