import BlockSketch.Proofs.Sketch.Plain
import BlockSketch.Proofs.Graph.Runs

/-!
Why a program has no code. A program that has come about can be compiled with
any registry, and what the registry does not know is the only thing that can
stop it: links lead to blocks, no block comes up twice, and the roots are there.

Which block stops it is told by the order in which the walk meets the blocks
(`BlockMeets`, `ChainMeets`): a block before what is plugged into it, chains
before expressions, each by the slots that the registry declares and not by
those that the block happens to have. A part of the walk `Settles` when it has
code if all the blocks that it meets are known, and otherwise the error of the
first one that is not; parts that settle one after the other settle together.
-/

namespace BlockSketch

/-- The first block whose kind is not registered. -/
def Registry.firstUnknown? (registry : Registry) (met : List Block) : Option Block :=
  met.find? fun b => (registry.get? b.kind).isNone

namespace Sketch

variable {α β : Type} {arena : Arena} {registry : Registry} {x : BlockId}

/-! ### The order of the walk -/

mutual

/-- The blocks that are met in a block, itself first, and in what is plugged
into it. The slots of a block that is not known are not known either. -/
inductive BlockMeets (arena : Arena) (registry : Registry) : BlockId → List Block → Prop
  | unknown {x : BlockId} {b : Block} (found : arena.find? x = some b)
      (kind : registry.get? b.kind = none) : BlockMeets arena registry x [b]
  | known {x : BlockId} {b : Block} {type : BlockType} {chains values : List (List Block)}
      (found : arena.find? x = some b) (kind : registry.get? b.kind = some type)
      (hchains : List.Forall₂ (ChainMeets arena registry)
        (type.sockets.statementSlots.filterMap fun slot => b.linked? (.statement slot)) chains)
      (hvalues : List.Forall₂ (BlockMeets arena registry)
        (type.sockets.valueSlots.filterMap fun slot => b.linked? (.value slot.name)) values) :
      BlockMeets arena registry x (b :: (chains.flatten ++ values.flatten))

inductive ChainMeets (arena : Arena) (registry : Registry) : BlockId → List Block → Prop
  | last {x : BlockId} {b : Block} {met : List Block} (found : arena.find? x = some b)
      (next : b.next = none) (block : BlockMeets arena registry x met) :
      ChainMeets arena registry x met
  | step {x y : BlockId} {b : Block} {met rest : List Block} (found : arena.find? x = some b)
      (next : b.next = some y) (block : BlockMeets arena registry x met)
      (chain : ChainMeets arena registry y rest) : ChainMeets arena registry x (met ++ rest)

end

/-- The blocks that are met in a program: those at the start, then those that
are repeated. -/
def ProgramMeets (arena : Arena) (registry : Registry) (met : List Block) : Prop :=
  ∃ setup loop first second,
    arena.root? .setup = some setup ∧ arena.root? .loop = some loop ∧
      BlockMeets arena registry setup first ∧ BlockMeets arena registry loop second ∧
      met = first ++ second

/-- What is met along links, if there is something to be met along each. -/
theorem exists_forall₂ {P : BlockId → List Block → Prop} {l : List BlockId}
    (h : ∀ x ∈ l, ∃ met, P x met) : ∃ lists, List.Forall₂ P l lists := by
  induction l with
  | nil => exact ⟨[], .nil⟩
  | cons x rest ih =>
    obtain ⟨met, hmet⟩ := h x (List.mem_cons_self ..)
    obtain ⟨lists, hlists⟩ := ih fun y hy => h y (List.mem_cons_of_mem _ hy)
    exact ⟨met :: lists, .cons hmet hlists⟩

/-- In a forest the walk comes to an end, from every block. -/
theorem exists_meets (hf : arena.Forest) (registry : Registry) : ∀ x ∈ arena.ids,
    (∃ met, BlockMeets arena registry x met) ∧ ∃ met, ChainMeets arena registry x met := by
  refine hf.link_induct fun x b hb ih => ?_
  have hbelow : ∀ {k c}, b.linked? k = some c →
      (∃ met, BlockMeets arena registry c met) ∧ ∃ met, ChainMeets arena registry c met :=
    fun {k c} hk => ih k c ((Arena.linked?_of_find? hb k).trans hk)
  have hblock : ∃ met, BlockMeets arena registry x met := by
    cases ht : registry.get? b.kind with
    | none => exact ⟨_, .unknown hb ht⟩
    | some type =>
      obtain ⟨chains, hchains⟩ := exists_forall₂ (P := ChainMeets arena registry)
        (l := type.sockets.statementSlots.filterMap fun slot => b.linked? (.statement slot)) (by
          intro c hc
          obtain ⟨slot, _, hk⟩ := List.mem_filterMap.1 hc
          exact (hbelow hk).2)
      obtain ⟨values, hvalues⟩ := exists_forall₂ (P := BlockMeets arena registry)
        (l := type.sockets.valueSlots.filterMap fun slot => b.linked? (.value slot.name)) (by
          intro c hc
          obtain ⟨slot, _, hk⟩ := List.mem_filterMap.1 hc
          exact (hbelow hk).1)
      exact ⟨_, .known hb ht hchains hvalues⟩
  refine ⟨hblock, ?_⟩
  obtain ⟨met, hmet⟩ := hblock
  cases hnext : b.next with
  | none => exact ⟨met, .last hb hnext hmet⟩
  | some y =>
    obtain ⟨_, rest, hrest⟩ := hbelow (k := .next) hnext
    exact ⟨met ++ rest, .step hb hnext hmet hrest⟩

theorem exists_of_forall₂ {P : BlockId → List Block → Prop} {l : List BlockId}
    {lists : List (List Block)} (h : List.Forall₂ P l lists) {b : Block} (hb : b ∈ lists.flatten) :
    ∃ x ∈ l, ∃ met, P x met ∧ b ∈ met := by
  induction h with
  | nil => cases hb
  | cons hmet _ ih =>
    rw [List.flatten_cons, List.mem_append] at hb
    obtain hb | hb := hb
    · exact ⟨_, List.mem_cons_self .., _, hmet, hb⟩
    · obtain ⟨y, hy, rest⟩ := ih hb
      exact ⟨y, List.mem_cons_of_mem _ hy, rest⟩

theorem BlockMeets.mem_ids {met : List Block} (h : BlockMeets arena registry x met) :
    x ∈ arena.ids := by
  cases h with
  | unknown found _ => exact Arena.mem_ids_of_find? found
  | known found _ _ _ => exact Arena.mem_ids_of_find? found

/-- The walk meets blocks of the program alone. -/
theorem mem_of_meets (hf : arena.Forest) {b : Block} : ∀ x ∈ arena.ids,
    (∀ met, BlockMeets arena registry x met → b ∈ met → b ∈ arena) ∧
      ∀ met, ChainMeets arena registry x met → b ∈ met → b ∈ arena := by
  refine hf.link_induct fun x _ _ ih => ?_
  have hblock : ∀ met, BlockMeets arena registry x met → b ∈ met → b ∈ arena := by
    rintro met hmet hb
    cases hmet with
    | unknown found _ =>
      rw [List.mem_singleton.1 hb]
      exact Arena.mem_of_find? found
    | @known _ d type chains values found _ hchains hvalues =>
      have hlinked := Arena.linked?_of_find? found
      rw [List.mem_cons, List.mem_append] at hb
      obtain rfl | hb | hb := hb
      · exact Arena.mem_of_find? found
      · obtain ⟨c, hc, met, hmet, hb⟩ := exists_of_forall₂ hchains hb
        obtain ⟨slot, _, hk⟩ := List.mem_filterMap.1 hc
        exact (ih _ c ((hlinked _).trans hk)).2 met hmet hb
      · obtain ⟨c, hc, met, hmet, hb⟩ := exists_of_forall₂ hvalues hb
        obtain ⟨slot, _, hk⟩ := List.mem_filterMap.1 hc
        exact (ih _ c ((hlinked _).trans hk)).1 met hmet hb
  refine ⟨hblock, fun met hmet hb => ?_⟩
  cases hmet with
  | last _ _ hmet => exact hblock _ hmet hb
  | step found hnext hmet hrest =>
    obtain hb | hb := List.mem_append.1 hb
    · exact hblock _ hmet hb
    · exact (ih .next _ ((Arena.linked?_next_of_find? found).trans hnext)).2 _ hrest hb

/-! ### Parts of the walk -/

/-- A part of the walk comes out as the blocks that it meets have it: with a
result if all are known, else with the error of the first one that is not. -/
structure Settles (registry : Registry) (met : List Block) (result : Except GenerationError α) :
    Prop where
  done : registry.firstUnknown? met = none → ∃ a, result = .ok a
  refused : ∀ b, registry.firstUnknown? met = some b → result = .error (.unknownKind b.id b.kind)

variable {met rest : List Block} {result : Except GenerationError α}

theorem settles_ok (registry : Registry) (a : α) : Settles registry [] (.ok a) :=
  ⟨fun _ => ⟨a, rfl⟩, nofun⟩

theorem Settles.bind {f : α → Except GenerationError β} (h : Settles registry met result)
    (h' : ∀ a, Settles registry rest (f a)) : Settles registry (met ++ rest) (result >>= f) := by
  have happend : registry.firstUnknown? (met ++ rest) =
      (registry.firstUnknown? met).or (registry.firstUnknown? rest) := List.find?_append
  cases hfirst : registry.firstUnknown? met with
  | none =>
    obtain ⟨a, rfl⟩ := h.done hfirst
    rw [hfirst, Option.none_or] at happend
    exact ⟨fun hnone => (h' a).done (happend ▸ hnone),
      fun b hb => (h' a).refused b (happend ▸ hb)⟩
  | some d =>
    rw [h.refused d hfirst]
    rw [hfirst, Option.some_or] at happend
    refine ⟨fun hnone => ?_, fun b hb => ?_⟩
    · rw [happend] at hnone
      cases hnone
    · rw [happend] at hb
      cases hb
      rfl

theorem Settles.map (h : Settles registry met result) (f : α → β) :
    Settles registry met (result >>= fun a => pure (f a)) := by
  have := h.bind fun a => settles_ok registry (f a)
  rwa [List.append_nil] at this

/-- A known block stops nothing. -/
theorem Settles.known {b : Block} {type : BlockType} (h : Settles registry met result)
    (ht : registry.get? b.kind = some type) : Settles registry (b :: met) result := by
  have hfirst : registry.firstUnknown? (b :: met) = registry.firstUnknown? met := by
    simp [Registry.firstUnknown?, ht]
  exact ⟨fun hnone => h.done (hfirst ▸ hnone), fun d hd => h.refused d (hfirst ▸ hd)⟩

/-- Slots that settle one by one settle one after the other. -/
theorem settles_mapM {f : β → Except GenerationError α} {link : β → Option BlockId}
    {P : BlockId → List Block → Prop} {l : List β} {lists : List (List Block)}
    (h : List.Forall₂ P (l.filterMap link) lists)
    (hempty : ∀ x, link x = none → ∃ a, f x = .ok a)
    (hfilled : ∀ x ∈ l, ∀ c, link x = some c → ∀ met, P c met → Settles registry met (f x)) :
    Settles registry lists.flatten (l.mapM f) := by
  induction l generalizing lists with
  | nil =>
    cases h
    exact settles_ok registry []
  | cons x l ih =>
    have hrest : ∀ {lists}, List.Forall₂ P (l.filterMap link) lists →
        Settles registry lists.flatten (l.mapM f) :=
      fun h => ih h fun y hy => hfilled y (List.mem_cons_of_mem _ hy)
    rw [List.mapM_cons]
    cases hx : link x with
    | none =>
      obtain ⟨a, ha⟩ := hempty x hx
      rw [List.filterMap_cons_none hx] at h
      rw [ha]
      exact (hrest h).map (a :: ·)
    | some c =>
      rw [List.filterMap_cons_some hx] at h
      cases h with
      | cons hmet h =>
        exact (hfilled x (List.mem_cons_self ..) c hx _ hmet).bind fun a => (hrest h).map (a :: ·)

theorem settles_filterMapM {f : β → Except GenerationError (Option α)} {link : β → Option BlockId}
    {P : BlockId → List Block → Prop} {l : List β} {lists : List (List Block)}
    (h : List.Forall₂ P (l.filterMap link) lists)
    (hempty : ∀ x, link x = none → ∃ a, f x = .ok a)
    (hfilled : ∀ x ∈ l, ∀ c, link x = some c → ∀ met, P c met → Settles registry met (f x)) :
    Settles registry lists.flatten (l.filterMapM f) := by
  rw [filterMapM_eq_map, map_eq_pure_bind]
  exact (settles_mapM h hempty hfilled).map _

/-! ### The whole walk -/

/-- With enough steps, a block and a chain come out as the blocks that are met
have it. -/
theorem settles_plain (hf : arena.Forest) (n : Nat) :
    (∀ x ∈ arena.ids, 2 * arena.rank x + 1 ≤ n → ∀ met, BlockMeets arena registry x met →
      ∀ depth, Settles registry met (plainBlock arena registry n x depth)) ∧
    (∀ x ∈ arena.ids, 2 * arena.rank x + 2 ≤ n → ∀ met, ChainMeets arena registry x met →
      ∀ depth, Settles registry met (plainChain arena registry n x depth)) := by
  apply hf.walk_induct
  · intro n x _ _ _ ihChains ihBlocks met hmet depth
    rw [plainBlock]
    cases hmet with
    | @unknown _ b hb ht =>
      simp only [hb, ht]
      have hfirst : registry.firstUnknown? [b] = some b := by simp [Registry.firstUnknown?, ht]
      refine ⟨fun hnone => ?_, fun d hd => ?_⟩
      · rw [hfirst] at hnone
        cases hnone
      · rw [hfirst] at hd
        cases hd
        rfl
    | @known _ b type chains values hb ht hchains hvalues =>
      simp only [hb, ht]
      have hlinked := Arena.linked?_of_find? hb
      refine Settles.known (Settles.bind (settles_filterMapM hchains ?_ ?_) fun statements =>
        (settles_mapM hvalues ?_ ?_).map _) ht
      · intro slot hslot
        exact ⟨none, by rw [hslot]; rfl⟩
      · intro slot _ head hslot met hmet
        simp only [hslot]
        exact (ihChains slot head ((hlinked _).trans hslot) met hmet _).map _
      · intro slot hslot
        exact ⟨(slot.name, slot.empty), by rw [hslot]; rfl⟩
      · intro slot _ child hslot met hmet
        simp only [hslot]
        exact (ihBlocks slot.name child ((hlinked _).trans hslot) met hmet _).map _
  · intro n x _ _ _ ihBlock ihRest met hmet depth
    rw [plainChain]
    cases hmet with
    | @last _ b _ hb hnext hblock =>
      simp only [hb, Option.bind_some, hnext]
      exact (ihBlock met hblock depth).map _
    | @step _ y b met rest hb hnext hblock hchain =>
      have hk : arena.linked? x .next = some y := (Arena.linked?_next_of_find? hb).trans hnext
      simp only [hb, Option.bind_some, hnext]
      exact (ihBlock met hblock depth).bind fun fragment => (ihRest y hk rest hchain depth).map _

theorem settles_root (hf : arena.Forest) (hd : arena.ids.Nodup) {kind : RootKind}
    (hx : arena.root? kind = some x) {met : List Block} (hmet : BlockMeets arena registry x met) :
    Settles registry met (plainRoot arena registry kind) := by
  obtain ⟨b, hb, _⟩ := Arena.find?_of_root? hd hx
  have hblock := (settles_plain hf arena.walkBound).1 x (Arena.mem_ids_of_find? hb)
    (Nat.le_of_succ_le (arena.rank_bound x)) met hmet 0
  simp only [plainRoot, hx]
  exact hblock.map _

theorem settles_program (hf : arena.Forest) (hd : arena.ids.Nodup) {met : List Block}
    (h : ProgramMeets arena registry met) :
    Settles registry met (plainProgram arena registry) := by
  obtain ⟨setup, loop, first, second, hsetup, hloop, hfirst, hsecond, rfl⟩ := h
  exact (settles_root hf hd hsetup hfirst).bind fun _ => (settles_root hf hd hloop hsecond).map _

theorem exists_programMeets (hf : arena.Forest) (hd : arena.ids.Nodup) (registry : Registry)
    (hroots : ∀ kind, arena.root? kind ≠ none) : ∃ met, ProgramMeets arena registry met := by
  obtain ⟨setup, hsetup⟩ := Option.ne_none_iff_exists'.1 (hroots .setup)
  obtain ⟨loop, hloop⟩ := Option.ne_none_iff_exists'.1 (hroots .loop)
  obtain ⟨b, hb, _⟩ := Arena.find?_of_root? hd hsetup
  obtain ⟨d, hd', _⟩ := Arena.find?_of_root? hd hloop
  obtain ⟨⟨first, hfirst⟩, _⟩ := exists_meets hf registry _ (Arena.mem_ids_of_find? hb)
  obtain ⟨⟨second, hsecond⟩, _⟩ := exists_meets hf registry _ (Arena.mem_ids_of_find? hd')
  exact ⟨_, setup, loop, first, second, hsetup, hloop, hfirst, hsecond, rfl⟩

theorem mem_of_programMeets (hf : arena.Forest) {met : List Block}
    (h : ProgramMeets arena registry met) {b : Block} (hb : b ∈ met) : b ∈ arena := by
  obtain ⟨setup, loop, first, second, _, _, hfirst, hsecond, rfl⟩ := h
  obtain hb | hb := List.mem_append.1 hb
  · exact (mem_of_meets hf _ hfirst.mem_ids).1 first hfirst hb
  · exact (mem_of_meets hf _ hsecond.mem_ids).1 second hsecond hb

end Sketch

namespace Workspace

variable {registry : Registry} {w : Workspace}

/-- With a registry that knows every kind of block in it, a grounded program with
both roots has code. -/
theorem Grounded.exists_code (h : w.Grounded) (hroots : ∀ kind, w.arena.root? kind ≠ none)
    (hs : registry.SlotsOnce)
    (hknown : ∀ b ∈ w.arena, ∃ type, registry.get? b.kind = some type) :
    ∃ text, w.compileWith registry = .ok text := by
  have hd := h.numbered.nodup
  obtain ⟨met, hmet⟩ := Sketch.exists_programMeets h.forest hd registry hroots
  rw [Sketch.compileWith_eq h hs]
  apply (Sketch.settles_program h.forest hd hmet).done
  rw [Registry.firstUnknown?, List.find?_eq_none]
  intro b hb
  obtain ⟨type, ht⟩ := hknown b (Sketch.mem_of_programMeets h.forest hmet hb)
  simp [ht]

/-- A program that has come about and has both roots is refused by a registry
for one reason alone: the walk meets a block whose kind is not registered there.
The error names the first such block. The registry with which the program was
made never refuses it. -/
theorem reached_refused_iff (h : Reached registry w)
    (hroots : ∀ kind, w.arena.root? kind ≠ none) :
    (∀ other : Registry, other.SlotsOnce →
      (∃ met, Sketch.ProgramMeets w.arena other met) ∧
      ∀ met, Sketch.ProgramMeets w.arena other met → ∀ e, w.compileWith other = .error e ↔
        ∃ b, other.firstUnknown? met = some b ∧ e = .unknownKind b.id b.kind) ∧
    (registry.SlotsOnce → ∃ text, w.compile = .ok text) := by
  obtain ⟨rfl, hground⟩ := h.grounded
  have hd := hground.numbered.nodup
  refine ⟨fun other hs => ⟨Sketch.exists_programMeets hground.forest hd other hroots, ?_⟩,
    fun hs => hground.exists_code hroots hs hground.known⟩
  intro met hmet e
  rw [Sketch.compileWith_eq hground hs]
  have hsettles := Sketch.settles_program hground.forest hd hmet
  cases hfirst : other.firstUnknown? met with
  | none =>
    obtain ⟨text, htext⟩ := hsettles.done hfirst
    simp [htext]
  | some b =>
    rw [hsettles.refused b hfirst]
    simp [eq_comm]

/-- Neither what is in a block nor what comes after it is known; what is in it is
met first. -/
theorem reached_refused_iff_of_unknown :
    let w := (onDefaultBoard .builtin).afterAll
      [.edit (.create "if_then" .origin), .edit (.create "digital_write" .origin),
        .edit (.create "delay_ms" .origin), .edit (.connect ⟨2⟩ (.slot "DO") ⟨3⟩),
        .edit (.connect ⟨3⟩ .next ⟨4⟩), .edit (.connect ⟨3⟩ (.slot "DO") ⟨5⟩)]
    let other := Registry.builtin.only ["root_setup", "root_loop", "if_then"]
    Reached .builtin w ∧ (∀ kind, w.arena.root? kind ≠ none) ∧ other.SlotsOnce ∧
      Registry.builtin.SlotsOnce ∧ (∃ text, w.compile = .ok text) ∧
      ∃ met b, Sketch.ProgramMeets w.arena other met ∧ other.firstUnknown? met = some b ∧
        GenerationError.unknownKind ⟨5⟩ "delay_ms" = .unknownKind b.id b.kind := by
  intro w other
  have hreached : Reached .builtin w := ⟨_, .onDefaultBoard, _, rfl⟩
  have hroots := hreached.root?_ne_none hasRoots_builtin
  have hother : other.SlotsOnce := Registry.slotsOnce_builtin.only _
  have herror : w.compileWith other = .error (.unknownKind ⟨5⟩ "delay_ms") := by
    unfold w
    simp only [afterAll_cons, afterAll_nil]
    rw [after_connect_of_bare ⟨2⟩ (.slot "DO") ⟨3⟩ rfl rfl (by decide) rfl rfl rfl rfl rfl rfl,
      after_connect_of_bare ⟨3⟩ .next ⟨4⟩ rfl rfl (by decide) rfl rfl rfl rfl rfl rfl,
      after_connect_of_bare ⟨3⟩ (.slot "DO") ⟨5⟩ rfl rfl (by decide) rfl rfl rfl rfl rfl rfl]
    rfl
  obtain ⟨hall, hown⟩ := reached_refused_iff hreached hroots
  obtain ⟨⟨met, hmet⟩, hrefused⟩ := hall other hother
  obtain ⟨b, hfirst, heq⟩ := (hrefused met hmet _).1 herror
  exact ⟨hreached, hroots, hother, Registry.slotsOnce_builtin, hown Registry.slotsOnce_builtin,
    met, b, hmet, hfirst, heq⟩

end Workspace

end BlockSketch
