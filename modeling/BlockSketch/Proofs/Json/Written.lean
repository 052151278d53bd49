import BlockSketch.Proofs.Json.Clipped
import Mathlib.Data.List.Nodup

/-!
Texts that others have written. What a text says is settled by its words: whoever wrote
it was free in blanks, in escapes and in how to spell a number, and may have put the
members of an object in any order. If its words are those of a value and the value is
not nested too deep, then it is read as that value (`Written.ofText?_eq`). Numbers
beyond the doubles and surrogates without a partner are words of no value.
-/

namespace BlockSketch.Json

/-- The text says a value. -/
def Written (value : Json) (text : String) : Prop :=
  tokens? text.toList = some (words value)

mutual

/-- No object in a value has two members of one name. -/
def Distinct : Json → Prop
  | .array items => DistinctItems items
  | .object members => Entries.Distinct members ∧ DistinctMembers members
  | _ => True

def DistinctItems : List Json → Prop
  | [] => True
  | item :: rest => item.Distinct ∧ DistinctItems rest

def DistinctMembers : List (String × Json) → Prop
  | [] => True
  | (_, value) :: rest => value.Distinct ∧ DistinctMembers rest

end

theorem distinctMembers_iff {members : List (String × Json)} :
    DistinctMembers members ↔ ∀ m ∈ members, m.2.Distinct := by
  induction members with
  | nil => simp [DistinctMembers]
  | cons m rest ih => rw [DistinctMembers, ih, List.forall_mem_cons]

namespace Distinct

variable {members : List (String × Json)} {name : String} {value : Json}

theorem names (h : (object members).Distinct) : Entries.Distinct members := by
  rw [Distinct] at h
  exact h.1

/-- What is in an object without repetitions has none either. -/
theorem of_mem (h : (object members).Distinct) (hm : (name, value) ∈ members) :
    value.Distinct := by
  rw [Distinct] at h
  exact distinctMembers_iff.1 h.2 _ hm

theorem items {list : List Json} (h : (array list).Distinct) : DistinctItems list := by
  rwa [Distinct] at h

end Distinct

namespace Document

/-! ### Enough room -/

mutual

theorem clipped_eq_ofValue : ∀ (value : Json) {n : Nat}, value.depth ≤ n →
    clipped n value = ofValue value
  | .null, _, _ | .bool _, _, _ | .number _, _, _ | .string _, _, _ => by rw [clipped, ofValue]
  | .array items, 0, h => absurd h (Nat.not_succ_le_zero _)
  | .object members, 0, h => absurd h (Nat.not_succ_le_zero _)
  | .array items, n + 1, h => by
    rw [clipped, ofValue, clippedItems_eq_ofItems items (Nat.le_of_succ_le_succ h)]
  | .object members, n + 1, h => by
    rw [clipped, ofValue, clippedMembers_eq_ofMembers members (Nat.le_of_succ_le_succ h)]

theorem clippedItems_eq_ofItems : ∀ (items : List Json) {n : Nat}, depthItems items ≤ n →
    clippedItems n items = ofItems items
  | [], _, _ => by rw [clippedItems, ofItems]
  | item :: rest, n, h => by
    obtain ⟨hitem, hrest⟩ := Nat.max_le.1 h
    rw [clippedItems, ofItems, clipped_eq_ofValue item hitem, clippedItems_eq_ofItems rest hrest]

theorem clippedMembers_eq_ofMembers : ∀ (members : List (String × Json)) {n : Nat},
    depthMembers members ≤ n → clippedMembers n members = ofMembers members
  | [], _, _ => by rw [clippedMembers, ofMembers]
  | (name, value) :: rest, n, h => by
    obtain ⟨hvalue, hrest⟩ := Nat.max_le.1 h
    rw [clippedMembers, ofMembers, clipped_eq_ofValue value hvalue,
      clippedMembers_eq_ofMembers rest hrest]

end

/-! ### Members of a value -/

theorem lookup_ofMembers (members : List (String × Json)) (name : String) :
    (ofMembers members).lookup name = (Entries.get? members name).map ofValue := by
  induction members with
  | nil => rfl
  | cons m rest ih =>
    have hfirst : (ofMembers (m :: rest)).lookup name =
        Entries.get? ((m.1, ofValue m.2) :: ofMembers rest) name := rfl
    rw [hfirst, Entries.get?_cons, Entries.get?_cons]
    split
    · rfl
    · exact ih

theorem names_ofMembers (members : List (String × Json)) :
    (ofMembers members).map Prod.fst = Entries.names members := by
  induction members with
  | nil => rfl
  | cons m rest ih => rw [ofMembers, List.map_cons, ih, Entries.names_cons]

theorem atMostOnce_ofMembers {members : List (String × Json)} (h : Entries.Distinct members)
    (name : String) : atMostOnce (ofMembers members) name = true := by
  have hcount : (ofMembers members).countP (fun m => m.1 == name) =
      (Entries.names members).count name := by
    rw [← names_ofMembers, List.count, List.countP_map]
    rfl
  rw [atMostOnce, hcount, decide_eq_true_eq]
  exact List.nodup_iff_count_le_one.1 h name

end Document

theorem Written.ofText?_eq {value : Json} {text : String} (h : value.Written text)
    (hdepth : value.depth ≤ nestingLimit) :
    Document.ofText? text = some (.ofValue value) := by
  have htokens : tokens? text.toList = some (words value) := h
  rw [Document.ofText?, Document.parse?, htokens, ← Document.clipped_eq_ofValue value hdepth]
  exact Document.ofTokens?_words nestingLimit value

end BlockSketch.Json
