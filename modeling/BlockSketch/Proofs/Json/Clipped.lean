import BlockSketch.Json.Record
import BlockSketch.Proofs.Json.Scanned

/-!
Printed values are read back. The reader goes over the words of a value from
wherever a value may stand, and puts what they say into the container around it
(`run?_words`). What they say is the value itself, except that a container for
which there is no room any more is nothing that can be used (`clipped`). How
much room a value takes is its `depth`.
-/

namespace BlockSketch.Json

mutual

/-- How many containers lie inside each other. -/
def depth : Json → Nat
  | .array items => depthItems items + 1
  | .object members => depthMembers members + 1
  | _ => 0

def depthItems : List Json → Nat
  | [] => 0
  | item :: rest => max item.depth (depthItems rest)

def depthMembers : List (String × Json) → Nat
  | [] => 0
  | (_, value) :: rest => max value.depth (depthMembers rest)

end

namespace Document

mutual

/-- What can be used of a value where so many more containers may be opened. -/
def clipped : Nat → Json → Document
  | _, .null => .null
  | _, .bool b => .bool b
  | _, .number n => .number n
  | _, .string s => .string s
  | 0, .array _ => .unreadable
  | room + 1, .array items => .array (clippedItems room items)
  | 0, .object _ => .unreadable
  | room + 1, .object members => .object (clippedMembers room members)

def clippedItems (room : Nat) : List Json → List Document
  | [] => []
  | item :: rest => clipped room item :: clippedItems room rest

def clippedMembers (room : Nat) : List (String × Json) → List (String × Document)
  | [] => []
  | (name, value) :: rest => (name, clipped room value) :: clippedMembers room rest

end

namespace Reading

variable {n : Nat} {r : Reading} {frames : List Frame} {outcome : Option Document}

theorem run?_cons (limit : Option Nat) (r : Reading) (token : Token) (rest : List Token) :
    run? limit r (token :: rest) = (r.step? limit token).bind fun r => run? limit r rest :=
  List.foldlM_cons ..

/-- Where a value may stand, a word that can begin one does. -/
theorem step?_value (hr : r.expected = .value ∨ r.expected = .valueOrClose) (token : Token)
    (ht : token ≠ .closeArray) : r.step? (some n) token = r.takeValue? token := by
  obtain h | h := hr
  · simp only [step?, h]
  · simp only [step?, h, if_neg ht]

/-- The names of a frame that has been filled by `add` can all be used. -/
theorem members?_map (members : List (String × Document)) :
    members? (members.map fun m => (some m.1, m.2)).reverse = some members := by
  rw [members?, List.reverse_reverse]
  induction members with
  | nil => rfl
  | cons m rest ih =>
    rw [List.map_cons, List.mapM_cons, ih]
    rfl

/-- The innermost container ends, with room for it or without. -/
theorem leave_some (e : Expected) (frame : Frame) :
    leave (some n) ⟨e, frame :: frames, outcome⟩ =
      some (add ⟨.commaOrClose, frames, outcome⟩
        (if frames.length < n then close frame else .unreadable)) := by
  have hfits : ((frame :: frames).drop n).isEmpty = decide (frames.length < n) := by
    rw [Bool.eq_iff_iff, List.isEmpty_iff, List.drop_eq_nil_iff, decide_eq_true_eq]
    exact Nat.succ_le_iff
  simp only [leave, Option.all_some, hfits, decide_eq_true_eq]

theorem clipped_array (n k : Nat) (items : List Json) :
    clipped (n - k) (.array items) =
      if k < n then .array (clippedItems (n - (k + 1)) items) else .unreadable := by
  split
  · rw [show n - k = n - (k + 1) + 1 by omega, clipped]
  · rw [show n - k = 0 by omega, clipped]

theorem clipped_object (n k : Nat) (members : List (String × Json)) :
    clipped (n - k) (.object members) =
      if k < n then .object (clippedMembers (n - (k + 1)) members) else .unreadable := by
  split
  · rw [show n - k = n - (k + 1) + 1 by omega, clipped]
  · rw [show n - k = 0 by omega, clipped]

/-- What a frame expects next: after something it holds there must be a comma. -/
def Fresh (first : Bool) (opened e : Expected) : Prop :=
  e = if first then opened else .commaOrClose

mutual

/-- The words of a value add what can be used of it to the container around it. -/
theorem run?_words : ∀ (value : Json) {r : Reading},
    (r.expected = .value ∨ r.expected = .valueOrClose) → ∀ rest,
      run? (some n) r (words value ++ rest) =
        run? (some n) (r.add (clipped (n - r.frames.length) value)) rest
  | .null, r, hr, rest => by
    rw [words, List.singleton_append, run?_cons, step?_value hr .null nofun, clipped]
    rfl
  | .bool b, r, hr, rest => by
    rw [words, List.singleton_append, run?_cons, step?_value hr (.bool b) nofun, clipped]
    rfl
  | .number k, r, hr, rest => by
    rw [words, List.singleton_append, run?_cons, step?_value hr (.number k) nofun, clipped]
    rfl
  | .string s, r, hr, rest => by
    rw [words, List.singleton_append, run?_cons, step?_value hr (.string s) nofun, clipped]
    rfl
  | .array items, r, hr, rest => by
    rw [words, List.cons_append, run?_cons, step?_value hr .openArray nofun, clipped_array]
    exact run?_itemWords items true rfl [] r.frames r.value rest
  | .object members, r, hr, rest => by
    rw [words, List.cons_append, run?_cons, step?_value hr .openObject nofun, clipped_object]
    exact run?_memberWords members true rfl [] r.frames r.value rest

theorem run?_itemWords : ∀ (items : List Json) (first : Bool) {e : Expected},
    Fresh first .valueOrClose e → ∀ (before : List Document) (frames : List Frame)
      (outcome : Option Document) (rest : List Token),
      run? (some n) ⟨e, .array before.reverse :: frames, outcome⟩ (itemWords first items ++ rest) =
        run? (some n) (add ⟨.commaOrClose, frames, outcome⟩
          (if frames.length < n then
            .array (before ++ clippedItems (n - (frames.length + 1)) items) else .unreadable)) rest
  | [], first, e, he, before, frames, outcome, rest => by
    have hstep : step? (some n) ⟨e, .array before.reverse :: frames, outcome⟩ .closeArray =
        leave (some n) ⟨e, .array before.reverse :: frames, outcome⟩ := by
      subst he
      cases first <;> rfl
    rw [itemWords, List.singleton_append, run?_cons, hstep, leave_some, close,
      List.reverse_reverse, clippedItems, List.append_nil]
    rfl
  | item :: more, first, e, he, before, frames, outcome, rest => by
    obtain ⟨e', he', hseparator⟩ : ∃ e', (e' = .value ∨ e' = .valueOrClose) ∧ ∀ tokens,
        run? (some n) ⟨e, .array before.reverse :: frames, outcome⟩
            ((if first then [] else [.comma]) ++ tokens) =
          run? (some n) ⟨e', .array before.reverse :: frames, outcome⟩ tokens := by
      subst he
      cases first
      · exact ⟨.value, .inl rfl, fun _ => rfl⟩
      · exact ⟨.valueOrClose, .inr rfl, fun _ => rfl⟩
    have hitem := run?_words item (r := ⟨e', .array before.reverse :: frames, outcome⟩) he'
      (itemWords false more ++ rest)
    have hmore := run?_itemWords more false rfl
      (before ++ [clipped (n - (frames.length + 1)) item]) frames outcome rest
    rw [List.reverse_append] at hmore
    rw [itemWords, List.append_assoc, List.append_assoc, hseparator, hitem]
    refine Eq.trans hmore ?_
    rw [clippedItems, List.append_assoc]
    rfl

theorem run?_memberWords : ∀ (members : List (String × Json)) (first : Bool) {e : Expected},
    Fresh first .nameOrClose e → ∀ (before : List (String × Document)) (frames : List Frame)
      (outcome : Option Document) (rest : List Token),
      run? (some n) ⟨e, .object (before.map fun m => (some m.1, m.2)).reverse none :: frames,
          outcome⟩ (memberWords first members ++ rest) =
        run? (some n) (add ⟨.commaOrClose, frames, outcome⟩
          (if frames.length < n then
            .object (before ++ clippedMembers (n - (frames.length + 1)) members)
          else .unreadable)) rest
  | [], first, e, he, before, frames, outcome, rest => by
    let frame := Frame.object (before.map fun m => (some m.1, m.2)).reverse none
    have hstep : step? (some n) ⟨e, frame :: frames, outcome⟩ .closeObject =
        leave (some n) ⟨e, frame :: frames, outcome⟩ := by
      subst he
      cases first <;> rfl
    rw [memberWords, List.singleton_append, run?_cons, hstep, leave_some, close, members?_map,
      clippedMembers, List.append_nil]
    rfl
  | (name, value) :: more, first, e, he, before, frames, outcome, rest => by
    let members := (before.map fun m => (some m.1, m.2)).reverse
    have hname : ∀ tokens, run? (some n) ⟨e, .object members none :: frames, outcome⟩
        ((if first then [] else [.comma]) ++ ([.string (some name)] ++ .colon :: tokens)) =
          run? (some n) ⟨.value, .object members (some name) :: frames, outcome⟩ tokens := by
      subst he
      cases first <;> exact fun _ => rfl
    have hvalue := run?_words value
      (r := ⟨.value, .object members (some name) :: frames, outcome⟩) (.inl rfl)
      (memberWords false more ++ rest)
    have hmore := run?_memberWords more false rfl
      (before ++ [(name, clipped (n - (frames.length + 1)) value)]) frames outcome rest
    rw [List.map_append, List.reverse_append] at hmore
    have hsplit : memberWords first ((name, value) :: more) ++ rest =
        (if first then [] else [.comma]) ++ ([.string (some name)] ++
          .colon :: (words value ++ (memberWords false more ++ rest))) := by
      simp [memberWords]
    rw [hsplit]
    refine Eq.trans (hname _) (Eq.trans hvalue (Eq.trans hmore ?_))
    rw [clippedMembers, List.append_assoc]
    rfl

end

end Reading

theorem ofTokens?_words (n : Nat) (value : Json) :
    ofTokens? (some n) (words value) = some (clipped n value) := by
  have hrun := Reading.run?_words (n := n) value (r := Reading.start) (.inl rfl) []
  rw [List.append_nil] at hrun
  rw [ofTokens?, hrun]
  rfl

end Document

/-! ### Values that are read as such -/

namespace Document

theorem clipped_eq_null {n : Nat} {value : Json} : clipped n value = .null ↔ value = .null := by
  cases value <;> cases n <;> simp [clipped]

/-- A string that may be left out comes back. -/
theorem orNull?_clipped (n : Nat) (s : Option String) :
    (clipped n (.ofOption .string s)).orNull? string? = some s := by
  cases s <;> simp [Json.ofOption, clipped, orNull?, string?]

mutual

/-- A value comes back, with the members of its objects in order, exactly if there is
room for it. -/
theorem toValue?_clipped : ∀ (value : Json) (n : Nat),
    (clipped n value).toValue? = if value.depth ≤ n then some value.sorted else none
  | .null, n => by
    rw [clipped, toValue?, sorted]
    exact (if_pos (Nat.zero_le n)).symm
  | .bool b, n => by
    rw [clipped, toValue?, sorted]
    exact (if_pos (Nat.zero_le n)).symm
  | .number k, n => by
    rw [clipped, toValue?, sorted]
    exact (if_pos (Nat.zero_le n)).symm
  | .string s, n => by
    rw [clipped, toValue?, sorted]
    exact (if_pos (Nat.zero_le n)).symm
  | .array items, 0 => by rw [clipped, depth, if_neg (Nat.not_succ_le_zero _), toValue?]
  | .object members, 0 => by rw [clipped, depth, if_neg (Nat.not_succ_le_zero _), toValue?]
  | .array items, n + 1 => by
    rw [clipped, toValue?, toItems?_clipped items n, depth, sorted]
    simp only [Nat.add_le_add_iff_right]
    split <;> rfl
  | .object members, n + 1 => by
    rw [clipped, toValue?, toMembers?_clipped members n, depth, sorted]
    simp only [Nat.add_le_add_iff_right]
    split <;> rfl

theorem toItems?_clipped : ∀ (items : List Json) (n : Nat),
    toItems? (clippedItems n items) =
      if depthItems items ≤ n then some (sortedItems items) else none
  | [], n => (if_pos (Nat.zero_le n)).symm
  | item :: rest, n => by
    rw [clippedItems, toItems?, toValue?_clipped item n, toItems?_clipped rest n, depthItems,
      sortedItems]
    simp only [Nat.max_le]
    by_cases hitem : item.depth ≤ n <;> by_cases hrest : depthItems rest ≤ n <;>
      simp [hitem, hrest]

theorem toMembers?_clipped : ∀ (members : List (String × Json)) (n : Nat),
    toMembers? (clippedMembers n members) =
      if depthMembers members ≤ n then some (sortedMembers members) else none
  | [], n => (if_pos (Nat.zero_le n)).symm
  | (name, value) :: rest, n => by
    rw [clippedMembers, toMembers?, toValue?_clipped value n, toMembers?_clipped rest n,
      depthMembers, sortedMembers]
    simp only [Nat.max_le]
    by_cases hvalue : value.depth ≤ n <;> by_cases hrest : depthMembers rest ≤ n <;>
      simp [hvalue, hrest]

end

end Document

/-- What has been printed in either layout is read back as far as there is room. -/
theorem ofText?_compact {value : Json} (h : value.Whole) :
    Document.ofText? value.compact = some (Document.clipped nestingLimit value) := by
  rw [Document.ofText?, Document.parse?, compact, String.toList_ofList, tokens?_compactText h]
  exact Document.ofTokens?_words nestingLimit value

theorem ofText?_pretty {value : Json} (h : value.Whole) :
    Document.ofText? value.pretty = some (Document.clipped nestingLimit value) := by
  rw [Document.ofText?, Document.parse?, pretty, String.toList_ofList, tokens?_prettyText h]
  exact Document.ofTokens?_words nestingLimit value

end BlockSketch.Json
