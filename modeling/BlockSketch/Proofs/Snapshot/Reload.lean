import BlockSketch.Proofs.Snapshot.Codec
import BlockSketch.Proofs.Snapshot.RoundTrip

/-!
Stored text and what `load` makes of it. The writer has no limit on how deeply a
program may nest, the reader of texts has one. So a program comes back from its
own text as long as the text keeps to the limit, and is lost beyond it: `load`
begins a new program then. The limit is passed by forty-one repetitions inside
each other; read back as a value instead of a text, the same program is kept.
-/

namespace BlockSketch

open Json

namespace StoredBlock

variable {registry : Registry} {board : Board}

mutual

/-- What fits names nothing twice. -/
theorem named_of_fits : ∀ {b : StoredBlock}, b.Fits registry board → b.Named
  | ⟨_, _, _, _⟩, ⟨_, _, hfields, hds, hslots, hdv, hvalues⟩ =>
    ⟨hfields.1, hds, named_of_slotsFit hslots, hdv, named_of_valuesFit hvalues⟩

theorem named_of_chainFits : ∀ {chain : List StoredBlock} {place : Prop},
    ChainFits registry board place chain → NamedChain chain
  | [], _, _ => trivial
  | _ :: _, _, ⟨_, _, hb, hrest⟩ => ⟨named_of_fits hb, named_of_chainFits hrest⟩

theorem named_of_slotsFit {type : BlockType} : ∀ {slots : List (String × List StoredBlock)},
    SlotsFit registry board type slots → NamedSlots slots
  | [], _ => trivial
  | (_, _) :: _, ⟨hchain, hrest⟩ => ⟨named_of_chainFits hchain, named_of_slotsFit hrest⟩

theorem named_of_valuesFit {type : BlockType} : ∀ {values : List (String × StoredBlock)},
    ValuesFit registry board type values → NamedValues values
  | [], _ => trivial
  | (_, _) :: _, ⟨_, _, hb, hrest⟩ => ⟨named_of_fits hb, named_of_valuesFit hrest⟩

end

end StoredBlock

theorem Snapshot.Settled.named {registry : Registry} {board : Board} {s : Snapshot}
    (h : s.Settled registry board) : s.Named := by
  intro stack hmem
  obtain ⟨first, chain, hblocks, hfirst, hchain⟩ := h.fits stack hmem
  rw [hblocks]
  exact ⟨StoredBlock.named_of_fits hfirst, StoredBlock.named_of_chainFits hchain⟩

namespace Workspace

variable {w : Workspace}

/-- What `load` makes of a text that says as much as there is room for. -/
theorem load_eq {registry : Registry} {s : Snapshot} {text : String}
    (h : Snapshot.ofText? text = if s.toJson.depth ≤ nestingLimit then some s else none)
    (hw : restore registry s = .ok w) :
    load registry text = if s.toJson.depth ≤ nestingLimit then w else onDefaultBoard registry := by
  rw [load, h]
  by_cases hroom : s.toJson.depth ≤ nestingLimit
  · rw [if_pos hroom, if_pos hroom, restoreOrNew, hw]
  · rw [if_neg hroom, if_neg hroom, restoreOrNew]

theorem depth_onDefaultBoard : (onDefaultBoard .builtin).save.toJson.depth ≤ nestingLimit := by
  decide +kernel

/-- The texts of a program that has come about are loaded as this program as long
as they do not nest too deeply. Beyond the limit, a new program is begun, and
that is another one. -/
theorem reached_reload (h : Reached .builtin w) :
    (w.save.toJson.depth ≤ nestingLimit →
      ∃ w', restore .builtin w.save = .ok w' ∧ w'.save = w.save ∧
        load .builtin w.save.text = w' ∧ load .builtin w.save.prettyText = w') ∧
    (nestingLimit < w.save.toJson.depth →
      load .builtin w.save.text = onDefaultBoard .builtin ∧
        load .builtin w.save.prettyText = onDefaultBoard .builtin ∧
        (onDefaultBoard .builtin).save ≠ w.save) := by
  obtain ⟨hreg, hc, hw⟩ := h.coherent hasRoots_builtin
  have ht := h.typed hasRoots_builtin Registry.regular_builtin
  have hsettled := settled_save ht hc hw (hreg ▸ Registry.regular_builtin)
  rw [hreg] at hsettled
  obtain ⟨w', hrestore, hboard, hstacks⟩ :=
    restore_of_settled hsettled Registry.regular_builtin.declaresOnce
  have hsave : w'.save = w.save := save_of_settled (hboard ▸ hsettled) hstacks
  have hcompact := load_eq (Snapshot.ofText?_text hsettled.named) hrestore
  have hpretty := load_eq (Snapshot.ofText?_prettyText hsettled.named) hrestore
  constructor
  · intro hroom
    rw [if_pos hroom] at hcompact hpretty
    exact ⟨w', hrestore, hsave, hcompact, hpretty⟩
  · intro hdeep
    rw [if_neg (Nat.not_le_of_lt hdeep)] at hcompact hpretty
    refine ⟨hcompact, hpretty, fun heq => ?_⟩
    rw [← heq] at hdeep
    exact Nat.not_lt_of_le depth_onDefaultBoard hdeep

/-- A short program with a block in a slot of each kind is loaded from its text. -/
theorem reached_reload_of_short :
    let w := (onDefaultBoard .builtin).afterAll
      [.edit (.create "if_then" ⟨60, 60⟩), .edit (.create "compare" .origin),
        .edit (.create "delay_ms" .origin), .edit (.connect ⟨2⟩ (.slot "DO") ⟨3⟩),
        .edit (.plug ⟨3⟩ "CONDITION" ⟨4⟩), .edit (.connect ⟨3⟩ (.slot "DO") ⟨5⟩)]
    w.arena.linked? ⟨3⟩ (.value "CONDITION") = some ⟨4⟩ ∧
      w.arena.linked? ⟨3⟩ (.statement "DO") = some ⟨5⟩ ∧
      w.save.toJson.depth ≤ nestingLimit ∧ (load .builtin w.save.text).save = w.save := by
  intro w
  have hprogram : w.arena.linked? ⟨3⟩ (.value "CONDITION") = some ⟨4⟩ ∧
      w.arena.linked? ⟨3⟩ (.statement "DO") = some ⟨5⟩ ∧ w.save.toJson.depth ≤ nestingLimit := by
    unfold w
    simp only [afterAll_cons, afterAll_nil]
    rw [after_connect_of_bare ⟨2⟩ (.slot "DO") ⟨3⟩ rfl rfl (by decide) rfl rfl rfl rfl rfl rfl,
      after_plug_of_ok (connectValue_of_bare ⟨3⟩ "CONDITION" ⟨4⟩ rfl rfl (by decide) rfl rfl rfl
        rfl rfl (by decide)),
      after_connect_of_bare ⟨3⟩ (.slot "DO") ⟨5⟩ rfl rfl (by decide) rfl rfl rfl rfl rfl rfl]
    exact ⟨rfl, rfl, by decide +kernel⟩
  obtain ⟨hvalue, hstatement, hroom⟩ := hprogram
  obtain ⟨w', _, hsave, htext, _⟩ := (reached_reload ⟨_, .onDefaultBoard, _, rfl⟩).1 hroom
  exact ⟨hvalue, hstatement, hroom, by rw [htext, hsave]⟩

end Workspace

/-! ### A program that is lost -/

namespace StoredBlock

def nested : Nat → StoredBlock
  | 0 => ⟨"repeat_times", [("TIMES", .number 10)], [], []⟩
  | n + 1 => ⟨"repeat_times", [("TIMES", .number 10)], [("DO", [nested n])], []⟩

theorem kind_nested (n : Nat) : (nested n).kind = "repeat_times" := by
  cases n <;> rfl

theorem depth_nested (n : Nat) : (nested n).toJson.depth = 3 * n + 2 := by
  induction n with
  | zero => rfl
  | succ n ih =>
    rw [nested, toJson]
    simp [slotsToJson, chainToJson, valuesToJson, memberUnlessEmpty, FieldValue.toJson,
      Json.ofUInt64, depth, depthMembers, depthItems, ih]
    omega

/-- A block with one other block in its only slot is settled if this one is. -/
theorem settled_holding {type : BlockType} {kind : String} {fields : List (String × FieldValue)}
    {b : StoredBlock} (hget : registry.get? kind = some type)
    (hslots : type.sockets.statementSlots = ["DO"]) (hvalues : type.sockets.valueSlots = [])
    (hfields : FieldsFit type board fields) (hsame : canonicalFields board type fields = fields)
    (hb : b.Settled registry board) (hchains : registry.Chains b.kind) :
    (⟨kind, fields, [("DO", [b])], []⟩ : StoredBlock).Settled registry board := by
  have hplace : "DO" ∈ type.sockets.statementSlots := by
    rw [hslots]
    exact List.mem_singleton_self _
  have hchain : ChainSettled registry board ("DO" ∈ type.sockets.statementSlots) [b] :=
    .cons hplace hchains hb ⟨trivial, rfl⟩
  constructor
  · exact ⟨type, hget, hfields, List.nodup_singleton _, ⟨hchain.fits, trivial⟩,
      Entries.distinct_nil, trivial⟩
  · have hone : canonicalSlots registry board [("DO", [b])] = [("DO", [b])] := by
      rw [canonicalSlots, canonicalChain, hb.canonical, canonicalSlots]
    rw [canonical, hget]
    simp only [hone, hslots, hvalues, hsame]
    rfl

theorem settled_nested (n : Nat) : (nested n).Settled .builtin Board.default := by
  have hfields : FieldsFit Library.repeatTimes Board.default [("TIMES", .number 10)] :=
    .single _ (.number 10) rfl rfl
  induction n with
  | zero =>
    exact ⟨⟨Library.repeatTimes, rfl, hfields, Entries.distinct_nil, trivial, Entries.distinct_nil,
      trivial⟩, rfl⟩
  | succ n ih =>
    have hget : Registry.builtin.get? "repeat_times" = some Library.repeatTimes := rfl
    apply settled_holding hget rfl rfl hfields rfl ih
    rw [kind_nested]
    exact ⟨rfl, Library.repeatTimes, rfl, rfl⟩

end StoredBlock

/-- A program with nothing but repetitions inside each other. -/
def Snapshot.nested (n : Nat) : Snapshot where
  version := Snapshot.currentVersion
  board := Board.default.id
  canvas := [⟨20, 20, [⟨"root_setup", [], [], []⟩]⟩,
    ⟨20, 240, [⟨"root_loop", [], [("DO", [StoredBlock.nested n])], []⟩]⟩]

namespace Snapshot

theorem depth_nested (n : Nat) : (nested n).toJson.depth = 3 * n + 9 := by
  simp [nested, toJson, StoredStack.toJson, StoredBlock.toJson, StoredBlock.slotsToJson,
    StoredBlock.chainToJson, StoredBlock.valuesToJson, StoredBlock.memberUnlessEmpty, depth,
    depthMembers, depthItems, StoredBlock.depth_nested, Json.ofNat, Json.ofInt32, Json.ofUInt64]

theorem settled_nested (n : Nat) : (nested n).Settled .builtin Board.default := by
  have hrepeat := StoredBlock.settled_nested n
  have hsetup : (⟨"root_setup", [], [], []⟩ : StoredBlock).Settled .builtin Board.default :=
    ⟨⟨Library.setup, rfl, .nil .., Entries.distinct_nil, trivial,
      Entries.distinct_nil, trivial⟩, rfl⟩
  have hloop : (⟨"root_loop", [], [("DO", [StoredBlock.nested n])], []⟩ : StoredBlock).Settled
      .builtin Board.default := by
    have hget : Registry.builtin.get? "root_loop" = some Library.loop := rfl
    apply StoredBlock.settled_holding hget rfl rfl (.nil ..) rfl hrepeat
    rw [StoredBlock.kind_nested]
    exact ⟨rfl, Library.repeatTimes, rfl, rfl⟩
  have hstacks : ∀ stack ∈ (nested n).canvas, ∃ b : StoredBlock, stack.blocks = [b] ∧
      b.Settled .builtin Board.default := by
    intro stack hmem
    obtain rfl | hmem := List.mem_cons.1 hmem
    · exact ⟨_, rfl, hsetup⟩
    · obtain rfl := List.mem_singleton.1 hmem
      exact ⟨_, rfl, hloop⟩
  refine ⟨rfl, rfl, ?_, ?_, ?_, ?_⟩
  · intro stack hmem
    obtain ⟨b, hblocks, hb⟩ := hstacks stack hmem
    exact ⟨b, [], hblocks, hb.fits, trivial⟩
  · intro stack hmem
    obtain ⟨b, hblocks, hb⟩ := hstacks stack hmem
    rw [hblocks, StoredBlock.canonicalChain, hb.canonical, StoredBlock.canonicalChain]
  · refine .cons ?_ (List.pairwise_singleton ..)
    intro stack hmem b hb type root hget hroot a ha
    obtain rfl := List.mem_singleton.1 hmem
    obtain rfl := Option.some_inj.1 hb
    obtain rfl := Option.some_inj.1 ha
    obtain rfl : Library.loop = type := Option.some_inj.1 hget
    obtain rfl : RootKind.loop = root := Option.some_inj.1 hroot
    decide
  · intro root
    cases root with
    | setup => exact ⟨_, List.mem_cons_self .., _, rfl, rfl⟩
    | loop => exact ⟨_, List.mem_cons_of_mem _ (List.mem_cons_self ..), _, rfl, rfl⟩

end Snapshot

namespace Workspace

/-- Forty-one repetitions inside each other are a program that has come about,
and are lost when it is loaded from its text. -/
theorem load_nested : ∃ w, Reached .builtin w ∧ w.save = Snapshot.nested 40 ∧
    load .builtin w.save.text = onDefaultBoard .builtin ∧
    (load .builtin w.save.text).save ≠ w.save := by
  have hsettled := Snapshot.settled_nested 40
  obtain ⟨w, hrestore, hboard, hstacks⟩ :=
    restore_of_settled hsettled Registry.regular_builtin.declaresOnce
  have hsave : w.save = Snapshot.nested 40 := save_of_settled (hboard ▸ hsettled) hstacks
  have hdeep : ¬ (Snapshot.nested 40).toJson.depth ≤ nestingLimit := by
    rw [Snapshot.depth_nested]
    decide
  have hload := load_eq (Snapshot.ofText?_text hsettled.named) hrestore
  rw [if_neg hdeep, ← hsave] at hload
  refine ⟨w, ⟨w, .restored hrestore, [], rfl⟩, hsave, hload, fun heq => ?_⟩
  rw [hload, hsave] at heq
  rw [← heq] at hdeep
  exact hdeep depth_onDefaultBoard

end Workspace

end BlockSketch
