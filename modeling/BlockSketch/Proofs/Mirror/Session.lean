import BlockSketch.Proofs.Mirror.Edits
import BlockSketch.Proofs.Sketch.Tree
import BlockSketch.Proofs.Snapshot.RoundTrip

/-!
Sessions on both sides of a mirror. A program that has been stored and read back
mirrors the one that was stored. From there on a session goes the same way on
both of them (`InStep`): each action is answered in the same way, and after each
the programs have the same code. So nobody who goes on with a program can tell
that it has been read back, as long as nobody looks at the numbers of its blocks.

One action keeps the mirror (`Mirror.step`), and a session does by induction
(`Mirror.inStep`). Blocks that are made on both sides belong together from then
on, which is the only way in which the correspondence changes.
-/

namespace BlockSketch

/-! ### Code -/

/-- The blocks of one side are the counterparts of those of the other. -/
theorem Arena.Mirror.ids_perm {f : BlockId → BlockId} {A A' : Arena} (h : Arena.Mirror f A A')
    (hd : A.ids.Nodup) (hd' : A'.ids.Nodup) : A'.ids.Perm (A.ids.map f) := by
  have himage : (A.ids.map f).Nodup := hd.map_on fun x hx y hy heq => h.eq_of_eq hx hy heq
  rw [List.perm_ext_iff_of_nodup hd' himage]
  intro y
  rw [List.mem_map]
  constructor
  · exact h.exists_mem
  · rintro ⟨x, hx, rfl⟩
    exact h.mem hx

/-- Both sides have as many blocks. -/
theorem Arena.Mirror.length_eq {f : BlockId → BlockId} {A A' : Arena} (h : Arena.Mirror f A A')
    (hd : A.ids.Nodup) (hd' : A'.ids.Nodup) : A'.length = A.length := by
  have hlength := (h.ids_perm hd hd').length_eq
  rwa [List.length_map, ids, ids, List.length_map, List.length_map] at hlength

namespace Sketch

variable {arena arena' : Arena} {registry : Registry} {f : BlockId → BlockId}

/-- With enough steps, a block has the same code as its counterpart, and a chain
has. -/
theorem plain_eq_of_mirror (h : arena.Mirror f arena') (hf : arena.Forest)
    (hi : registry.IgnoresNumbers)
    (hknown : ∀ b ∈ arena, ∃ type, registry.get? b.kind = some type) (n : Nat) :
    (∀ x ∈ arena.ids, 2 * arena.rank x + 1 ≤ n → ∀ depth,
      plainBlock arena' registry n (f x) depth = plainBlock arena registry n x depth) ∧
    (∀ x ∈ arena.ids, 2 * arena.rank x + 2 ≤ n → ∀ depth,
      plainChain arena' registry n (f x) depth = plainChain arena registry n x depth) := by
  apply hf.walk_induct
  · intro n x b hb _ ihChains ihBlocks depth
    obtain ⟨b', hb', hkind, hfields⟩ := h.find hb
    obtain ⟨type, ht⟩ := hknown b (Arena.mem_of_find? hb)
    have hlinked : ∀ k, b'.linked? k = (arena.linked? x k).map f := by
      intro k
      rw [← Arena.linked?_of_find? hb', h.links x (Arena.mem_ids_of_find? hb)]
    rw [plainBlock, plainBlock]
    simp only [hb, hb', hkind, ht, hlinked, ← Arena.linked?_of_find? hb]
    congr 1
    · congr 1
      funext slot
      cases hk : arena.linked? x (.statement slot) with
      | none => rfl
      | some head => simp only [Option.map_some, ihChains slot head hk]
    · funext statements
      congr 1
      · congr 1
        funext slot
        cases hk : arena.linked? x (.value slot.name) with
        | none => rfl
        | some child => simp only [Option.map_some, ihBlocks slot.name child hk]
      · funext values
        rw [hfields]
        exact congrArg pure (hi ht ⟨x, depth, b.fields, _, _⟩ (f x))
  · intro n x b hb _ ihBlock ihRest depth
    obtain ⟨b', hb', hnext⟩ := h.find_next hb
    rw [plainChain, plainChain, ihBlock depth]
    simp only [hb, hb', hnext, Option.bind_some]
    cases hs : b.next with
    | none => rfl
    | some next =>
      have hk : arena.linked? x .next = some next := (Arena.linked?_next_of_find? hb).trans hs
      simp only [Option.map_some, ihRest next hk]

end Sketch

namespace Workspace

variable {registry : Registry} {f : BlockId → BlockId} {w w' : Workspace} {x x' : BlockId}

theorem Mirror.plainRoot_eq (m : w.Mirror f w') (hw : w.Grounded) (hc : w.Coherent)
    (hc' : w'.Coherent) (hi : w.registry.IgnoresNumbers) (kind : RootKind) :
    Sketch.plainRoot w'.arena w.registry kind = Sketch.plainRoot w.arena w.registry kind := by
  rw [Sketch.plainRoot, Sketch.plainRoot, m.root?_eq hc hc']
  cases hroot : w.arena.root? kind with
  | none => rfl
  | some root =>
    obtain ⟨b, hb, _⟩ := Arena.find?_of_root? hc.numbered.nodup hroot
    have hbound : w'.arena.walkBound = w.arena.walkBound := by
      rw [Arena.walkBound, Arena.walkBound,
        m.arena.length_eq hc.numbered.nodup hc'.numbered.nodup]
    have hblock := (Sketch.plain_eq_of_mirror m.arena hw.forest hi hw.known w.arena.walkBound).1
      root (Arena.mem_ids_of_find? hb) (Nat.le_of_succ_le (w.arena.rank_bound root)) 0
    simp only [Option.map_some, hbound, hblock]

/-- Programs that mirror each other have the same code. -/
theorem Mirror.compile_eq (m : w.Mirror f w') (hw : w.Grounded) (hw' : w'.Grounded)
    (hc : w.Coherent) (hc' : w'.Coherent) (hs : w.registry.SlotsOnce)
    (hi : w.registry.IgnoresNumbers) : w'.compile = w.compile := by
  rw [compile, compile, m.registry, Sketch.compileWith_eq hw hs, Sketch.compileWith_eq hw' hs,
    Sketch.plainProgram, Sketch.plainProgram, m.plainRoot_eq hw hc hc' hi,
    m.plainRoot_eq hw hc hc' hi]

def SameCode (w w' : Workspace) : Prop :=
  ∃ text, w.compile = .ok text ∧ w'.compile = .ok text

/-! ### Actions -/

inductive Refusal
  | graph (e : GraphError)
  | board (e : BoardError)

inductive Action.Translates (R : BlockId → BlockId → Prop) : Action → Action → Prop
  | edit {e e' : Edit} (h : e.Translates R e') : Translates R (.edit e) (.edit e')
  | setBoard (board : String) : Translates R (.setBoard board) (.setBoard board)
  | ensureRoots : Translates R .ensureRoots .ensureRoots

theorem Action.exists_translates {R : BlockId → BlockId → Prop} (h : ∀ x, ∃ x', R x x')
    (a : Action) : ∃ a', a.Translates R a' := by
  cases a with
  | edit e =>
    obtain ⟨e', he⟩ := e.exists_translates h
    exact ⟨_, .edit he⟩
  | setBoard board => exact ⟨_, .setBoard board⟩
  | ensureRoots => exact ⟨_, .ensureRoots⟩

/-- The same answer on both sides: it names what belongs together, or it is a
refusal of the same kind. -/
inductive AnsweredAlike (f : BlockId → BlockId) :
    Except Refusal EditResult → Except Refusal EditResult → Prop
  | ok {r r' : EditResult} (h : r.Translates f r') : AnsweredAlike f (.ok r) (.ok r')
  | graph {e e' : GraphError} (h : e.SameKind e') :
    AnsweredAlike f (.error (.graph e)) (.error (.graph e'))
  | board (e : BoardError) : AnsweredAlike f (.error (.board e)) (.error (.board e))

def answer (w : Workspace) : Action → Except Refusal EditResult
  | .edit edit =>
    match w.perform edit with
    | .ok (_, result) => .ok result
    | .error e => .error (.graph e)
  | .setBoard board =>
    match w.setBoard board with
    | .ok _ => .ok .done
    | .error e => .error (.board e)
  | .ensureRoots => .ok .done

/-- The correspondence after an action. If the action makes a block on both
sides, these have the next numbers; otherwise no block has them, and it does not
matter what becomes of them. -/
def follow (f : BlockId → BlockId) (w w' : Workspace) : BlockId → BlockId :=
  Function.update f ⟨w.nextId⟩ ⟨w'.nextId⟩

/-- A session goes the same way on both sides. The programs have the same code
at first and after each action, and each action has a counterpart, with the
numbers of the other side, and is answered as every such counterpart is. -/
def InStep (f : BlockId → BlockId) (w w' : Workspace) : List Action → Prop
  | [] => SameCode w w'
  | a :: rest =>
    SameCode w w' ∧ (∃ a', a.Translates (Names f w w') a') ∧
      ∀ a', a.Translates (Names f w w') a' →
        AnsweredAlike (follow f w w') (w.answer a) (w'.answer a') ∧
          InStep (follow f w w') (w.after a) (w'.after a') rest

theorem follow_of_mem (hc : w.Coherent) (hx : x ∈ w.arena.ids) : follow f w w' x = f x := by
  apply Function.update_of_ne
  rintro rfl
  exact hc.numbered.not_mem (Nat.le_refl _) hx

theorem names_follow (hc : w.Coherent) :
    Names (follow f w w') w w' = Names f w w' := by
  funext x x'
  rw [Names, Names]
  split
  · rename_i hx
    rw [follow_of_mem hc hx]
  · rfl

theorem Mirror.followed (m : w.Mirror f w') (hc : w.Coherent) : w.Mirror (follow f w w') w' :=
  ⟨m.registry, m.board, m.arena.congr hc.forest fun _ hx => follow_of_mem hc hx⟩

/-- An action keeps the mirror and is answered alike. The correspondence is
changed before the action, when no block has the next number, so that an action
which makes no block needs no case of its own. -/
theorem Mirror.step (m : w.Mirror f w') (hr : registry.HasRoots) (h : Reached registry w)
    (h' : Reached registry w') {a a' : Action} (ha : a.Translates (Names f w w') a') :
    AnsweredAlike (follow f w w') (w.answer a) (w'.answer a') ∧
      (w.after a).Mirror (follow f w w') (w'.after a') := by
  obtain ⟨_, hc, hw⟩ := h.coherent hr
  obtain ⟨_, hc', hw'⟩ := h'.coherent hr
  have m' := m.followed hc
  cases ha with
  | edit he =>
    rw [← names_follow hc] at he
    have hperform := m'.perform hc hc' hw hw' (Function.update_self ..) he
    simp only [answer, after]
    generalize w.perform _ = result, w'.perform _ = result' at hperform
    cases hperform with
    | ok hr => exact ⟨.ok hr.2, hr.1⟩
    | error he => exact ⟨.graph he, m'⟩
  | setBoard board =>
    simp only [answer, after]
    obtain ⟨u, u', hu, hu', hmirror⟩ | ⟨e, he, he'⟩ := m'.setBoard board
    · rw [hu, hu']
      exact ⟨.ok .done, hmirror⟩
    · rw [he, he']
      exact ⟨.board e, m'⟩
  | ensureRoots =>
    simp only [answer, after, ensureRoots_eq_self (h.root?_ne_none hr),
      ensureRoots_eq_self (h'.root?_ne_none hr)]
    exact ⟨.ok .done, m'⟩

/-- A session goes the same way on both sides of a mirror. -/
theorem Mirror.inStep (m : w.Mirror f w') (hr : registry.HasRoots) (hs : registry.SlotsOnce)
    (hi : registry.IgnoresNumbers) (h : Reached registry w) (h' : Reached registry w')
    (actions : List Action) : InStep f w w' actions := by
  have hcode : ∀ {f w w'}, Mirror f w w' → Reached registry w → Reached registry w' →
      SameCode w w' := by
    intro f w w' m h h'
    obtain ⟨rfl, hw⟩ := h.grounded
    obtain ⟨text, _, htext⟩ := hw.compile_eq_tree hs hi (h.root?_ne_none hr)
    have hsame := m.compile_eq hw h'.grounded.2 (h.coherent hr).2.1 (h'.coherent hr).2.1 hs hi
    exact ⟨text, htext, hsame.trans htext⟩
  induction actions generalizing f w w' with
  | nil => exact hcode m h h'
  | cons a rest ih =>
    have hc' := (h'.coherent hr).2.1
    refine ⟨hcode m h h', a.exists_translates (Mirror.exists_names f hc'), fun a' ha => ?_⟩
    obtain ⟨hanswer, hmirror⟩ := m.step hr h h' ha
    exact ⟨hanswer, ih hmirror (h.afterAll [a]) (h'.afterAll [a'])⟩

/-! ### Reading back -/

theorem Twin.mirror (h : w.Twin f w') (hr : w'.registry = w.registry) : w.Mirror f w' where
  registry := hr
  board := h.board
  arena := by
    refine ⟨h.bijective, fun x hx => ?_, h.links⟩
    obtain ⟨b, hb⟩ := Arena.exists_find? hx
    obtain ⟨b', hb', hkind, hfields⟩ := h.blocks hb
    rw [Arena.label?, Arena.label?, hb, hb', Option.map_some, Option.map_some, hkind, hfields]

/-- A program that has come about can be stored and read back, with a block for
each of its blocks. Whichever way they belong together, every session goes the
same way on both programs: each action is accepted on both, or refused on both
for the same kind of reason, and the code stays the same throughout. -/
theorem reached_reload_inStep (h : Reached .builtin w) :
    ∃ w', restore .builtin w.save = .ok w' ∧ (∃ f, w.Twin f w') ∧
      ∀ f, w.Twin f w' → ∀ actions, InStep f w w' actions := by
  obtain ⟨w', f, hrestore, htwin, _⟩ := h.exists_twin
  have h' : Reached .builtin w' := ⟨w', .restored hrestore, [], rfl⟩
  have hreg : w'.registry = w.registry :=
    (h'.coherent hasRoots_builtin).1.trans (h.coherent hasRoots_builtin).1.symm
  refine ⟨w', hrestore, ⟨f, htwin⟩, fun g hg actions => ?_⟩
  exact (hg.mirror hreg).inStep hasRoots_builtin Registry.slotsOnce_builtin
    Registry.ignoresNumbers_builtin h h' actions

/-- Reading back numbers the block in the loop anew, because the one that was
made before it has gone. The session that follows sets a field of it, is refused
twice, and makes another block that goes on behind it. -/
theorem reached_reload_inStep_of_renumbered :
    let w := (onDefaultBoard .builtin).afterAll
      [.edit (.create "number" .origin), .edit (.create "delay_ms" .origin),
        .edit (.connect ⟨2⟩ (.slot "DO") ⟨4⟩), .edit (.delete ⟨3⟩)]
    Reached .builtin w ∧ ∃ w' f, restore .builtin w.save = .ok w' ∧ w.Twin f w' ∧
      InStep f w w' [.edit (.setField ⟨4⟩ "MS" (.number 5)), .edit (.delete ⟨2⟩),
        .setBoard "no such board", .edit (.create "delay_ms" .origin),
        .edit (.connect ⟨4⟩ .next ⟨5⟩)] := by
  intro w
  have hreached : Reached .builtin w := ⟨_, .onDefaultBoard, _, rfl⟩
  obtain ⟨w', hrestore, ⟨f, htwin⟩, hsession⟩ := reached_reload_inStep hreached
  exact ⟨hreached, w', f, hrestore, htwin, hsession f htwin _⟩

end Workspace

end BlockSketch
