import BlockSketch.Proofs.Sketch.Places

/-!
No counter hides another one. A loop takes the name of its counter from its depth,
and different depths give different names, although the way they are made changes
after the third one. A loop inside another one stands deeper, through whatever
slots and chains the way to it leads.

That the depth a generator is told is that of the place is not obvious from the
code that comes out, which names no blocks. It shows when another generator is
put in the place of the one for loops: as long as it does the same for the loops
at their places, the code of the program is the same.
-/

namespace BlockSketch

open Sketch Place

/-! ### The names of counters -/

def counterAt (depth : Nat) : String :=
  ({ (default : Context) with depth := depth } : Context).loopVariable

theorem counterAt_of_ge {depth : Nat} (h : 3 ≤ depth) : counterAt depth = "i" ++ toString depth := by
  obtain ⟨n, rfl⟩ := Nat.exists_eq_add_of_le' h
  rfl

/-- Loops at different depths have different counters. -/
theorem counterAt_injective : Function.Injective counterAt := by
  have hshort : ∀ m < 3, (counterAt m).toList.length = 1 ∧
      ∀ n < 3, counterAt m = counterAt n → m = n := by
    decide
  have hlong : ∀ n, 3 ≤ n → 1 < (counterAt n).toList.length := by
    intro n hn
    have hdigits : 0 < (toString n).toList.length := by
      rw [Nat.toString_eq_ofList_toDigits, String.toList_ofList]
      exact List.length_pos_iff.2 Nat.toDigits_ne_nil
    rw [counterAt_of_ge hn, String.toList_append, List.length_append]
    exact Nat.lt_add_of_pos_right hdigits
  intro m n heq
  obtain hm | hm := Nat.lt_or_ge m 3 <;> obtain hn | hn := Nat.lt_or_ge n 3
  · exact (hshort m hm).2 n hn heq
  · exact absurd (heq ▸ (hshort m hm).1) (hlong n hn).ne'
  · exact absurd (heq ▸ (hshort n hn).1) (hlong m hm).ne'
  · rw [counterAt_of_ge hm, counterAt_of_ge hn, String.append_right_inj] at heq
    exact Text.toString_injective heq

/-! ### The page of a loop -/

/-- What stands on the first line of a loop, before the brace. -/
def Library.forHeader (counter : String) (limit : UInt64) : String :=
  "for (unsigned long " ++ counter ++ " = 0; " ++ counter ++ " < " ++ numeral limit ++ "; " ++
    counter ++ "++)"

def Block.times (b : Block) : UInt64 :=
  ((b.fields.get? "TIMES").bind FieldValue.number?).getD 0

/-- The lines of a loop at a depth, which is a level less than its lines have because
of the root around it. -/
def Sketch.loopPage (depth : Nat) (b : Block) (inner : List PageLine) : List PageLine :=
  ⟨depth + 1, Library.forHeader (counterAt depth) b.times ++ " \x7b"⟩ ::
    (inner ++ [⟨depth + 1, "\x7d"⟩])

/-! ### Another generator for loops -/

namespace Registry

/-- The builtin types with another generator for loops. -/
def withLoops (g : Generator) : Registry :=
  builtin.register { Library.repeatTimes with generator := g }

theorem slotsOnce_withLoops (g : Generator) : (withLoops g).SlotsOnce := by
  have hloop : Library.repeatTimes.SlotsOnce := ⟨by decide, by decide⟩
  exact slotsOnce_builtin.register ⟨hloop.statementSlots, hloop.valueSlots⟩

theorem eq_repeatTimes {kind : String} {type : BlockType} (h : builtin.get? kind = some type)
    (hkind : kind = "repeat_times") : type = Library.repeatTimes := by
  subst hkind
  exact Option.some_inj.1 (h.symm.trans rfl)

/-- Beside the generator for loops nothing is different. -/
theorem get?_withLoops (g : Generator) {kind : String} {type : BlockType}
    (h : builtin.get? kind = some type) :
    (withLoops g).get? kind = some (if kind = "repeat_times" then { type with generator := g }
      else type) := by
  rw [withLoops, get?_register]
  show (if "repeat_times" = kind then _ else _) = _
  split
  · rename_i hkind
    rw [if_pos hkind.symm, eq_repeatTimes h hkind.symm]
  · rename_i hkind
    rw [if_neg (Ne.symm hkind), h]

end Registry

namespace Sketch

variable {arena : Arena} {registry registry' : Registry} {x : BlockId}

/-- The plain walk through a block is the same with two registries if what is plugged
into it is, and if the generators make the same of that. -/
theorem plainBlock_congr {n depth : Nat} {b : Block} (hb : arena.find? x = some b)
    {type type' : BlockType} (ht : registry.get? b.kind = some type)
    (ht' : registry'.get? b.kind = some type') (hsockets : type'.sockets = type.sockets)
    (hcategory : type'.category = type.category)
    (hgenerator : ∀ statements values, type'.generator ⟨x, depth, b.fields, statements, values⟩ =
      type.generator ⟨x, depth, b.fields, statements, values⟩)
    (hchain : ∀ {slot head}, arena.linked? x (.statement slot) = some head →
      plainChain arena registry' n head (innerDepth type depth) =
        plainChain arena registry n head (innerDepth type depth))
    (hvalue : ∀ {slot child}, arena.linked? x (.value slot) = some child →
      plainBlock arena registry' n child depth = plainBlock arena registry n child depth) :
    plainBlock arena registry' (n + 1) x depth = plainBlock arena registry (n + 1) x depth := by
  have hlinked : ∀ k, b.linked? k = arena.linked? x k :=
    fun k => (Arena.linked?_of_find? hb k).symm
  have hinner : innerDepth type' depth = innerDepth type depth := by
    rw [innerDepth, innerDepth, BlockType.rootKind?, BlockType.rootKind?, hcategory]
  rw [plainBlock, plainBlock]
  simp only [hb, ht, ht', hsockets, hinner, hgenerator]
  congr 1
  · congr 1
    funext slot
    cases hk : b.linked? (.statement slot) with
    | none => rfl
    | some head => simp only [hchain ((hlinked _).symm.trans hk)]
  · funext statements
    congr 1
    congr 1
    funext slot
    cases hk : b.linked? (.value slot.name) with
    | none => rfl
    | some child => simp only [hvalue ((hlinked _).symm.trans hk)]

end Sketch

namespace Workspace

variable {w : Workspace} {x : BlockId} {g : Generator}

theorem IsStatement.not_isExpression (h : w.IsStatement x) : ¬ w.IsExpression x := by
  rintro ⟨type, ht, hvalue, -⟩
  obtain ⟨type', ht', hstatement, -⟩ := h
  rw [typeOf_unique ht ht', hstatement] at hvalue
  cases hvalue

/-- A statement at its place has the same code with another generator for loops, if
what hangs from it has. -/
theorem Typed.plainStatement_withLoops (h : w.Typed) (hreg : w.registry = .builtin)
    (hg : ∀ ctx, Placed w.arena ⟨ctx.block, ctx.depth⟩ → g ctx = Library.repeatTimesCode ctx)
    {n : Nat} {p : Place} (hp : Placed w.arena p)
    (hchain : ∀ {slot head}, w.arena.linked? p.block (.statement slot) = some head →
      plainChain w.arena (.withLoops g) n head (p.depth + 1) =
        plainChain w.arena .builtin n head (p.depth + 1))
    (hvalue : ∀ {slot child}, w.arena.linked? p.block (.value slot) = some child →
      plainBlock w.arena (.withLoops g) n child p.depth =
        plainBlock w.arena .builtin n child p.depth) :
    plainBlock w.arena (.withLoops g) (n + 1) p.block p.depth =
      plainBlock w.arena .builtin (n + 1) p.block p.depth := by
  obtain ⟨type, ht, hstatement, -⟩ := h.isStatement_of_placed hp
  obtain ⟨b, hb, hget⟩ := typeOf_eq_ok.1 ht
  rw [hreg] at hget
  have hinner : innerDepth type p.depth = p.depth + 1 := by
    simp [innerDepth, BlockType.rootKind?, hstatement]
  refine plainBlock_congr hb hget (Registry.get?_withLoops g hget) ?_ ?_ ?_ ?_ hvalue
  · split <;> rfl
  · split <;> rfl
  · intro statements values
    split
    · rename_i hkind
      rw [Registry.eq_repeatTimes hget hkind]
      exact hg ⟨p.block, p.depth, _, _, _⟩ hp
    · rfl
  · rw [hinner]
    exact hchain

/-- An expression is no loop, and has none in it. -/
theorem Typed.plainExpression_withLoops (h : w.Typed) (hreg : w.registry = .builtin)
    (g : Generator) {n : Nat} (hx : w.IsExpression x) {d : Nat}
    (hvalue : ∀ {slot child}, w.arena.linked? x (.value slot) = some child →
      plainBlock w.arena (.withLoops g) n child d = plainBlock w.arena .builtin n child d) :
    plainBlock w.arena (.withLoops g) (n + 1) x d = plainBlock w.arena .builtin (n + 1) x d := by
  obtain ⟨type, ht, hcategory, -⟩ := id hx
  obtain ⟨b, hb, hget⟩ := typeOf_eq_ok.1 ht
  rw [hreg] at hget
  have hkind : b.kind ≠ "repeat_times" := by
    intro hkind
    rw [Registry.eq_repeatTimes hget hkind] at hcategory
    cases hcategory
  have hget' := Registry.get?_withLoops g hget
  rw [if_neg hkind] at hget'
  refine plainBlock_congr hb hget hget' rfl rfl (fun _ _ => rfl) ?_ hvalue
  intro slot head hk
  exact absurd (h.isExpression_of_linked hreg hx hk) (h.isStatement_inner hk).not_isExpression

/-- The plain walk does not tell another generator for loops from the usual one, if
they make the same of loops at their places. -/
theorem Typed.plain_withLoops (h : w.Typed) (hreg : w.registry = .builtin)
    (hg : ∀ ctx, Placed w.arena ⟨ctx.block, ctx.depth⟩ → g ctx = Library.repeatTimesCode ctx)
    (n : Nat) :
    (∀ p : Place, Placed w.arena p →
      plainBlock w.arena (.withLoops g) n p.block p.depth =
          plainBlock w.arena .builtin n p.block p.depth ∧
        plainChain w.arena (.withLoops g) n p.block p.depth =
          plainChain w.arena .builtin n p.block p.depth) ∧
    ∀ x, w.IsExpression x → ∀ d, plainBlock w.arena (.withLoops g) n x d =
      plainBlock w.arena .builtin n x d := by
  induction n with
  | zero => exact ⟨fun _ _ => ⟨rfl, rfl⟩, fun _ _ _ => rfl⟩
  | succ n ih =>
    obtain ⟨ihPlaced, ihExpression⟩ := ih
    refine ⟨fun p hp => ⟨?_, ?_⟩, fun x hx d => ?_⟩
    · refine h.plainStatement_withLoops hreg hg hp (fun {slot head} hk => ?_) fun {_ child} hk => ?_
      · exact (ihPlaced ⟨head, p.depth + 1⟩ (hp.step (.inner hk))).2
      · exact ihExpression child (h.isExpression_value hk) p.depth
    · rw [plainChain, plainChain, (ihPlaced p hp).1]
      cases hnext : (w.arena.find? p.block).bind Block.next with
      | none => rfl
      | some next =>
        obtain ⟨b, hb, hnext⟩ := Option.bind_eq_some_iff.1 hnext
        have hk : w.arena.linked? p.block .next = some next :=
          (Arena.linked?_next_of_find? hb).trans hnext
        simp only [(ihPlaced ⟨next, p.depth⟩ (hp.step (.next hk))).2]
    · exact h.plainExpression_withLoops hreg g hx fun {_ child} hk =>
        ihExpression child (h.isExpression_value hk) d

/-- The code of a program is the same with another generator for loops, if it makes the
same of loops at their places. -/
theorem Reached.compileWith_withLoops (h : Reached .builtin w)
    (hg : ∀ ctx, Placed w.arena ⟨ctx.block, ctx.depth⟩ → g ctx = Library.repeatTimesCode ctx) :
    w.compileWith (.withLoops g) = w.compile := by
  obtain ⟨hreg, hc, -, ht, -⟩ := h.settled
  have hroot : ∀ kind, plainRoot w.arena (.withLoops g) kind = plainRoot w.arena .builtin kind := by
    intro kind
    rw [plainRoot, plainRoot]
    cases hroot : w.arena.root? kind with
    | none => rfl
    | some root =>
      obtain ⟨b, hb, hkind⟩ := Arena.find?_of_root? hc.numbered.nodup hroot
      have hroots : ∀ kind : RootKind, ∃ type, Registry.builtin.get? kind.kindName = some type ∧
          (Registry.withLoops g).get? kind.kindName = some type ∧ innerDepth type 0 = 0 := by
        intro kind
        cases kind <;> exact ⟨_, rfl, rfl, rfl⟩
      obtain ⟨type, hget, hget', hinner⟩ := hroots kind
      have hsame : plainBlock w.arena (.withLoops g) w.arena.walkBound root 0 =
          plainBlock w.arena .builtin w.arena.walkBound root 0 := by
        refine plainBlock_congr hb (hkind ▸ hget) (hkind ▸ hget') rfl rfl (fun _ _ => rfl) ?_ ?_
        · intro slot head hk
          rw [hinner]
          exact ((ht.plain_withLoops hreg hg _).1 ⟨head, 0⟩ (.first hroot hk)).2
        · intro slot child hk
          cases ht.slot_of_root hc hreg hroot hk
      simp only [hsame]
  have hgrounded := h.grounded.2
  rw [compile, hreg, compileWith_eq hgrounded (Registry.slotsOnce_withLoops g),
    compileWith_eq hgrounded Registry.slotsOnce_builtin, plainProgram, plainProgram, hroot, hroot]

/-! ### Loops inside loops -/

/-- A loop stands at a depth: so many slots of other statements lie around it, and
what the generator for loops would write for it at another depth is of no account. -/
structure LoopAt (w : Workspace) (x : BlockId) (d : Nat) : Prop where
  placed : Placed w.arena ⟨x, d⟩
  seen : ∀ g : Generator,
    (∀ ctx, ctx.block ≠ x ∨ ctx.depth = d → g ctx = Library.repeatTimesCode ctx) →
      w.compileWith (.withLoops g) = w.compile

theorem Reached.loopAt (h : Reached .builtin w) {d : Nat} (hp : Placed w.arena ⟨x, d⟩) :
    w.LoopAt x d := by
  obtain ⟨-, hc, -⟩ := h.settled
  refine ⟨hp, fun g hg => h.compileWith_withLoops fun ctx hctx => hg ctx ?_⟩
  by_cases hx : ctx.block = x
  · exact .inr (hp.depth_eq hc.forest hc.numbered.nodup (hx ▸ hctx))
  · exact .inl hx

theorem pageAt_loop (hc : w.Coherent) {b : Block} (hb : w.arena.find? x = some b)
    (hkind : b.kind = "repeat_times") (d : Nat) :
    ∃ inner rest, w.pageAt ⟨x, d⟩ = loopPage d b inner ++ rest ∧
      ∀ c, w.arena.linked? x (.statement "DO") = some c → inner = w.pageAt ⟨c, d + 1⟩ := by
  have hheader : Library.header? (StoredBlock.sight d b.kind b.fields (w.arena.tree b).values)
      b.kind = some (Library.forHeader (counterAt d) b.times) := by
    rw [hkind]
    rfl
  rw [pageAt_eq hc hb, page_tree hc hb d hheader]
  cases hk : w.arena.linked? x (.statement "DO") with
  | none => exact ⟨_, _, rfl, nofun⟩
  | some c => exact ⟨_, _, rfl, fun c' hc' => by rw [Option.some_inj.1 hc']; rfl⟩

/-- The page of a program has the pages of all places in it. -/
theorem Reached.exists_page (h : Reached .builtin w) :
    ∃ page, w.compile = .ok (printed page) ∧
      ∀ p, Placed w.arena p → w.pageAt p <:+: page := by
  obtain ⟨setup, loop, hsetup, hloop, hcompile, -⟩ := h.exists_rootPages
  obtain ⟨hreg, hc, -, ht, -⟩ := h.settled
  refine ⟨_, hcompile, fun p hp => ?_⟩
  obtain ⟨kind, tree, htree, hinfix⟩ := ht.infix_of_placed hc h.grounded.2 hreg hp
  cases kind with
  | setup =>
    obtain rfl := Option.some_inj.1 (hsetup.symm.trans htree)
    rw [List.append_assoc]
    exact hinfix.trans (List.prefix_append ..).isInfix
  | loop =>
    obtain rfl := Option.some_inj.1 (hloop.symm.trans htree)
    exact hinfix.trans (List.suffix_append ..).isInfix

/-- Of two loops of a program that can come about from the builtin blocks, one of
which hangs from a slot of the other, each stands at a depth of its own. The code has
the header of one of them, then, before its brace, the header of the other one, and
the counters in the two have different names. -/
theorem reached_counters_ne (h : Reached .builtin w) {x y : Block} (hx : x ∈ w.arena)
    (hy : y ∈ w.arena) (hxkind : x.kind = "repeat_times") (hykind : y.kind = "repeat_times")
    {kind : RootKind} {root : BlockId} (hroot : w.arena.root? kind = some root)
    (hbelow : w.arena.Reachable root x.id) {slot : String} {c : BlockId}
    (hslot : (slot, some c) ∈ x.statements) (hinside : w.arena.Reachable c y.id) :
    ∃ d e, w.LoopAt x.id d ∧ w.LoopAt y.id e ∧ counterAt d ≠ counterAt e ∧
      ∃ before after before' after' inner, w.compile = .ok (printed
        (before ++ loopPage d x (before' ++ loopPage e y inner ++ after') ++ after)) := by
  obtain ⟨hreg, hc, -, ht, -⟩ := h.settled
  have hd := hc.numbered.nodup
  have hfindx := Arena.find?_of_mem hd hx
  have hfindy := Arena.find?_of_mem hd hy
  have hloop : ∀ {b : Block}, w.arena.find? b.id = some b → b.kind = "repeat_times" →
      w.IsStatement b.id := fun hb hkind =>
    ⟨Library.repeatTimes, typeOf_of_find? hb (by rw [hreg, hkind]; rfl), rfl, rfl⟩
  have hne : x.id ≠ root := by
    rintro rfl
    obtain ⟨b, hb, hkind⟩ := Arena.find?_of_root? hd hroot
    obtain rfl := Option.some_inj.1 (hfindx.symm.trans hb)
    rw [hxkind] at hkind
    cases kind <;> exact absurd hkind (by decide)
  obtain ⟨d, hplaced⟩ := (ht.exists_placed hc hreg hroot
    (hc.forest.tidy.reachable_iff.1 hbelow) hne).resolve_right
      (hloop hfindx hxkind).not_isExpression
  have hk : w.arena.linked? x.id (.statement slot) = some c :=
    hc.forest.linked?_statement hfindx hslot
  obtain rfl : slot = "DO" := by
    have hhas := ht.hasLink_of_linked hk hfindx
      (show w.registry.get? x.kind = some Library.repeatTimes by rw [hreg, hxkind]; rfl)
    exact List.mem_singleton.1 hhas
  have hfirst : Placed w.arena ⟨c, d + 1⟩ := hplaced.step (.inner hk)
  obtain ⟨e, hleads⟩ := (ht.leads_or_isExpression (p := ⟨c, d + 1⟩) hreg
    (hc.forest.tidy.reachable_iff.1 hinside)).resolve_right
      (hloop hfindy hykind).not_isExpression
  refine ⟨d, e, h.loopAt hplaced, h.loopAt (hfirst.leads hleads), fun heq => ?_, ?_⟩
  · have hle : d + 1 ≤ e := hleads.depth_le
    have hsame := counterAt_injective heq
    omega
  · obtain ⟨page, hcompile, hpage⟩ := h.exists_page
    obtain ⟨before, after, hpage⟩ := hpage _ hplaced
    obtain ⟨inner, rest, hxpage, hinner⟩ := pageAt_loop hc hfindx hxkind d
    obtain ⟨before', after', hinner'⟩ := ht.infix_of_leads hc hreg
      (ht.isStatement_of_placed hfirst) hleads
    obtain ⟨inner', rest', hypage, -⟩ := pageAt_loop hc hfindy hykind e
    refine ⟨before, rest ++ after, before', rest' ++ after', inner', ?_⟩
    rw [hcompile, ← hpage, hxpage, hinner c hk, ← hinner', hypage]
    simp only [List.append_assoc]

/-- A loop with an `if` in it, and in that another loop after a pause. -/
theorem reached_counters_ne_of_nested :
    let w := (onDefaultBoard .builtin).afterAll
      [.edit (.create "repeat_times" .origin), .edit (.create "if_then" .origin),
        .edit (.create "delay_ms" .origin), .edit (.create "repeat_times" .origin),
        .edit (.connect ⟨2⟩ (.slot "DO") ⟨3⟩), .edit (.connect ⟨3⟩ (.slot "DO") ⟨4⟩),
        .edit (.connect ⟨4⟩ (.slot "DO") ⟨5⟩), .edit (.connect ⟨5⟩ .next ⟨6⟩)]
    Reached .builtin w ∧ ∃ d e, w.LoopAt ⟨3⟩ d ∧ w.LoopAt ⟨6⟩ e ∧ counterAt d ≠ counterAt e := by
  intro w
  have hreached : Reached .builtin w := ⟨_, .onDefaultBoard, _, rfl⟩
  have hprogram : ∃ x y, w.arena.find? ⟨3⟩ = some x ∧ w.arena.find? ⟨6⟩ = some y ∧
      x.kind = "repeat_times" ∧ y.kind = "repeat_times" ∧ w.arena.root? .loop = some ⟨2⟩ ∧
      w.arena.linked? ⟨2⟩ (.statement "DO") = some ⟨3⟩ ∧ ("DO", some ⟨4⟩) ∈ x.statements ∧
      w.arena.linked? ⟨4⟩ (.statement "DO") = some ⟨5⟩ ∧
      w.arena.linked? ⟨5⟩ .next = some ⟨6⟩ := by
    unfold w
    simp only [afterAll_cons, afterAll_nil]
    rw [after_connect_of_bare ⟨2⟩ (.slot "DO") ⟨3⟩ rfl rfl (by decide) rfl rfl rfl rfl rfl rfl,
      after_connect_of_bare ⟨3⟩ (.slot "DO") ⟨4⟩ rfl rfl (by decide) rfl rfl rfl rfl rfl rfl,
      after_connect_of_bare ⟨4⟩ (.slot "DO") ⟨5⟩ rfl rfl (by decide) rfl rfl rfl rfl rfl rfl,
      after_connect_of_bare ⟨5⟩ .next ⟨6⟩ rfl rfl (by decide) rfl rfl rfl rfl rfl rfl]
    exact ⟨_, _, rfl, rfl, rfl, rfl, rfl, rfl, List.mem_singleton_self _, rfl, rfl⟩
  obtain ⟨x, y, hx, hy, hxkind, hykind, hroot, htop, hslot, hinner, hnext⟩ := hprogram
  have htidy := hreached.settled.2.1.forest.tidy
  obtain ⟨d, e, hd, he, hne, -⟩ := reached_counters_ne hreached (Arena.mem_of_find? hx)
    (Arena.mem_of_find? hy) hxkind hykind hroot
    (htidy.reachable_iff.2 (Arena.id_of_find? hx ▸ .single ⟨_, htop⟩)) hslot
    (htidy.reachable_iff.2 (Arena.id_of_find? hy ▸ .head ⟨_, hinner⟩ (.single ⟨_, hnext⟩)))
  exact ⟨hreached, d, e, Arena.id_of_find? hx ▸ hd, Arena.id_of_find? hy ▸ he, hne⟩

end Workspace

end BlockSketch
