import BlockSketch.Proofs.Graph.Grounded
import BlockSketch.Proofs.Snapshot.Walk
import BlockSketch.Proofs.Typing.Admitted
import BlockSketch.Sketch.Program

/-!
The walk without its memory. The walk that makes the code keeps a list of the
blocks that it has entered, and stops at one that comes up again. In a forest
none does, so the list can be forgotten: `plainBlock` and `plainChain` follow
the same links and remember nothing, and a whole program has the same code, or
the same reason for having none.

What makes the list superfluous is where the parts of the walk lie. `Gives` says
of a part of the walk that, as long as nothing in some region has been entered,
it comes out as the plain result says and enters blocks of that region alone.
Parts with separate regions follow one another, and the regions of what is
plugged into a block are separate because no block hangs from two places. The
registry matters only in that a slot which is listed twice is entered twice.
-/

namespace BlockSketch

/-- No slot is listed twice. -/
structure BlockType.SlotsOnce (type : BlockType) : Prop where
  statementSlots : type.sockets.statementSlots.Nodup
  valueSlots : (type.sockets.valueSlots.map ValueSlot.name).Nodup

def Registry.SlotsOnce (registry : Registry) : Prop :=
  ∀ ⦃kind type⦄, registry.get? kind = some type → type.SlotsOnce

theorem Registry.DeclaresOnce.slotsOnce {registry : Registry} (h : registry.DeclaresOnce) :
    registry.SlotsOnce :=
  fun _ _ hget => ⟨(h hget).statementSlots, (h hget).valueSlots⟩

theorem Registry.slotsOnce_builtin : Registry.builtin.SlotsOnce :=
  regular_builtin.declaresOnce.slotsOnce

theorem Registry.SlotsOnce.register {registry : Registry} (h : registry.SlotsOnce)
    {type : BlockType} (ht : type.SlotsOnce) : (registry.register type).SlotsOnce :=
  forall_register h ht

theorem Registry.SlotsOnce.only {registry : Registry} (h : registry.SlotsOnce)
    (kinds : List String) : (registry.only kinds).SlotsOnce := by
  intro kind type hget
  obtain ⟨_, _, htype⟩ := List.mem_filterMap.1 (mem_of_get?_ofList hget)
  exact h htype

namespace Sketch

variable {α β : Type}

/-- Leaving out some results is a matter of the results alone. -/
theorem filterMapM_eq_map {m : Type → Type} [Monad m] [LawfulMonad m] (f : β → m (Option α))
    (l : List β) : l.filterMapM f = List.filterMap id <$> l.mapM f := by
  induction l with
  | nil => simp
  | cons x rest ih =>
    rw [List.filterMapM_cons, List.mapM_cons, map_bind]
    congr 1
    funext o
    cases o with
    | none => simp [ih]; rfl
    | some a => simp [ih]

/-! ### Parts of the walk -/

/-- Through a region in which nothing has been entered, the walk comes out as the
result says, and enters nothing outside of it. -/
def Gives (walk : Walk α) (region : BlockId → Prop) (result : Except GenerationError α) : Prop :=
  ∀ seen, (∀ y, region y → y ∉ seen) →
    ∃ later, (∀ y ∈ later, y ∈ seen ∨ region y) ∧ walk seen = result.map fun a => (a, later)

variable {walk : Walk α} {P Q : BlockId → Prop} {result : Except GenerationError α}

theorem Gives.mono (h : Gives walk P result) (hsub : ∀ y, P y → Q y) : Gives walk Q result := by
  intro seen hfresh
  obtain ⟨later, hlater, hrun⟩ := h seen fun y hy => hfresh y (hsub y hy)
  exact ⟨later, fun y hy => (hlater y hy).imp_right (hsub y), hrun⟩

theorem gives_pure (P : BlockId → Prop) (a : α) : Gives (pure a) P (.ok a) :=
  fun seen _ => ⟨seen, fun _ hy => .inl hy, rfl⟩

theorem gives_throw (P : BlockId → Prop) (e : GenerationError) :
    Gives (throw e : Walk α) P (.error e) :=
  fun seen _ => ⟨seen, fun _ hy => .inl hy, rfl⟩

/-- Two parts with separate regions, one after the other. -/
theorem Gives.bind {f : α → Walk β} {g : α → Except GenerationError β} (h : Gives walk P result)
    (h' : ∀ a, Gives (f a) Q (g a)) (hd : ∀ y, P y → ¬ Q y) :
    Gives (walk >>= f) (fun y => P y ∨ Q y) (result >>= g) := by
  intro seen hfresh
  obtain ⟨later, hlater, hrun⟩ := h seen fun y hy => hfresh y (.inl hy)
  show ∃ final, _ ∧ (walk seen >>= fun p => f p.1 p.2) = _
  rw [hrun]
  cases result with
  | error e => exact ⟨seen, fun y hy => .inl hy, rfl⟩
  | ok a =>
    have hfresh' : ∀ y, Q y → y ∉ later := fun y hy hmem =>
      (hlater y hmem).elim (hfresh y (.inr hy)) fun hp => hd y hp hy
    obtain ⟨final, hfinal, hrun'⟩ := h' a later hfresh'
    refine ⟨final, fun y hy => ?_, hrun'⟩
    obtain hy | hy := hfinal y hy
    · exact (hlater y hy).imp_right .inl
    · exact .inr (.inr hy)

/-- What is done with the result of a part enters nothing more. -/
theorem Gives.map (h : Gives walk P result) (f : α → β) :
    Gives (walk >>= fun a => pure (f a)) P (result >>= fun a => pure (f a)) :=
  (h.bind (fun a => gives_pure (fun _ => False) (f a)) fun _ _ => id).mono
    fun _ hy => hy.resolve_right id

theorem gives_enter (x : BlockId) : Gives (enter x) (· = x) (.ok ()) := by
  intro seen hfresh
  refine ⟨x :: seen, fun y hy => (List.mem_cons.1 hy).symm, ?_⟩
  have hx : x ∉ seen := hfresh x rfl
  simp [enter, hx, StateT.bind, bind, get, getThe, MonadStateOf.get, StateT.get, pure, Except.pure,
    Except.bind, modify, modifyGet, MonadStateOf.modifyGet, StateT.modifyGet,
    Except.map]

/-- A block is entered before a region of which it is no part. -/
theorem Gives.after_enter {x : BlockId} (h : Gives walk P result) (hx : ¬ P x) :
    Gives (enter x >>= fun _ => walk) (fun y => y = x ∨ P y) result :=
  (gives_enter x).bind (g := fun _ => result) (fun _ => h) fun _ hy => hy ▸ hx

theorem gives_mapM {f : β → Walk α} {g : β → Except GenerationError α}
    {R : β → BlockId → Prop} {l : List β} (h : ∀ x ∈ l, Gives (f x) (R x) (g x))
    (hd : l.Pairwise fun x y => ∀ z, R x z → ¬ R y z) :
    Gives (l.mapM f) (fun z => ∃ x ∈ l, R x z) (l.mapM g) := by
  induction l with
  | nil => exact gives_pure _ []
  | cons x rest ih =>
    rw [List.pairwise_cons] at hd
    have hrest := ih (fun y hy => h y (List.mem_cons_of_mem _ hy)) hd.2
    rw [List.mapM_cons, List.mapM_cons]
    refine ((h x (List.mem_cons_self ..)).bind (fun a => hrest.map (a :: ·)) ?_).mono ?_
    · rintro z hz ⟨y, hy, hzy⟩
      exact hd.1 y hy z hz hzy
    · rintro z (hz | ⟨y, hy, hzy⟩)
      · exact ⟨x, List.mem_cons_self .., hz⟩
      · exact ⟨y, List.mem_cons_of_mem _ hy, hzy⟩

theorem gives_filterMapM {f : β → Walk (Option α)} {g : β → Except GenerationError (Option α)}
    {R : β → BlockId → Prop} {l : List β} (h : ∀ x ∈ l, Gives (f x) (R x) (g x))
    (hd : l.Pairwise fun x y => ∀ z, R x z → ¬ R y z) :
    Gives (l.filterMapM f) (fun z => ∃ x ∈ l, R x z) (l.filterMapM g) := by
  rw [filterMapM_eq_map, filterMapM_eq_map, map_eq_pure_bind, map_eq_pure_bind]
  exact (gives_mapM h hd).map _

/-! ### The plain walk -/

mutual

/-- The code of a block, after that of everything plugged into it. -/
def plainBlock (arena : Arena) (registry : Registry) :
    Nat → BlockId → Nat → Except GenerationError Fragment
  | 0, x, _ => .error (.cycle x)
  | fuel + 1, x, depth =>
    match arena.find? x with
    | none => .error (.danglingReference x x)
    | some b =>
      match registry.get? b.kind with
      | none => .error (.unknownKind b.id b.kind)
      | some type => do
        let statements ← type.sockets.statementSlots.filterMapM fun slot =>
          match b.linked? (.statement slot) with
          | none => return none
          | some head =>
            return some (slot, ← plainChain arena registry fuel head (innerDepth type depth))
        let values ← type.sockets.valueSlots.mapM fun slot =>
          match b.linked? (.value slot.name) with
          | none => return (slot.name, slot.empty)
          | some child =>
            return (slot.name, inSlot slot (← plainBlock arena registry fuel child depth))
        return type.generator
          ⟨x, depth, b.fields, Entries.ofList statements, Entries.ofList values⟩

def plainChain (arena : Arena) (registry : Registry) :
    Nat → BlockId → Nat → Except GenerationError String
  | 0, x, _ => .error (.cycle x)
  | fuel + 1, x, depth => do
    let fragment ← plainBlock arena registry fuel x depth
    match (arena.find? x).bind Block.next with
    | none => return inChain fragment
    | some next => return inChain fragment ++ (← plainChain arena registry fuel next depth)

end

def plainRoot (arena : Arena) (registry : Registry) (kind : RootKind) :
    Except GenerationError String :=
  match arena.root? kind with
  | none => .error (.missingRoot kind.kindName)
  | some root => return atTop (← plainBlock arena registry arena.walkBound root 0)

def plainProgram (arena : Arena) (registry : Registry) : Except GenerationError String := do
  let setup ← plainRoot arena registry .setup
  let loop ← plainRoot arena registry .loop
  return setup ++ "\n" ++ loop

/-! ### Regions of a forest -/

variable {arena : Arena} {registry : Registry} {x y : BlockId} {k j : Link}

/-- What hangs from a link of a block. -/
def Under (arena : Arena) (x : BlockId) (k : Link) (y : BlockId) : Prop :=
  ∃ c, arena.linked? x k = some c ∧ LinkMap.Reach arena.linked? c y

def Within (arena : Arena) (x y : BlockId) : Prop :=
  y = x ∨ ∃ k, k ≠ .next ∧ Under arena x k y

theorem Under.reach (h : Under arena x k y) : LinkMap.Reach arena.linked? x y := by
  obtain ⟨c, hc, hr⟩ := h
  exact .head ⟨k, hc⟩ hr

theorem Within.reach (h : Within arena x y) : LinkMap.Reach arena.linked? x y := by
  obtain rfl | ⟨k, _, hk⟩ := h
  · exact .refl
  · exact hk.reach

theorem not_under_self (hf : arena.Forest) : ¬ Under arena x k x := by
  rintro ⟨c, hc, hr⟩
  exact hf.treelike.not_reach_of_edge ⟨k, hc⟩ hr

/-- What hangs from different links of a block is different. -/
theorem not_under_both (hf : arena.Forest) (hne : k ≠ j) (hk : Under arena x k y) :
    ¬ Under arena x j y := by
  rintro ⟨d, hd, hdy⟩
  obtain ⟨c, hc, hcy⟩ := hk
  have hsame := hf.treelike.eq_of_siblings hc hd hcy hdy
  rw [hsame] at hc
  exact hne (hf.treelike.single hc hd).2

theorem find_eq {b : Block} (hb : arena.find? x = some b) (parent : BlockId) :
    find arena parent x = pure b := by
  rw [find, hb]

/-- The walk through a block, if the walks through what is plugged into it come
out as the plain ones do. Their regions are what hangs from the links of the
block: different links have different regions, and the block itself lies in none
of them. -/
theorem gives_block (hf : arena.Forest) (hr : registry.SlotsOnce) {n : Nat} {b : Block}
    (hb : arena.find? x = some b)
    (hchains : ∀ {slot head}, arena.linked? x (.statement slot) = some head → ∀ depth,
      Gives (chainCode arena registry n head depth) (LinkMap.Reach arena.linked? head)
        (plainChain arena registry n head depth))
    (hblocks : ∀ {slot child}, arena.linked? x (.value slot) = some child → ∀ depth,
      Gives (blockCode arena registry n child depth) (Within arena child)
        (plainBlock arena registry n child depth)) (depth : Nat) :
    Gives (blockCode arena registry (n + 1) x depth) (Within arena x)
      (plainBlock arena registry (n + 1) x depth) := by
  have hlinked : ∀ k, arena.linked? x k = b.linked? k := fun k => Arena.linked?_of_find? hb k
  rw [blockCode, plainBlock]
  simp only [find_eq hb, pure_bind, hb]
  cases ht : registry.get? b.kind with
  | none =>
    have hunknown : typeOf registry b = throw (.unknownKind b.id b.kind) := by
      rw [typeOf, ht]
    rw [hunknown]
    exact ((gives_throw (fun _ => False) _).after_enter id).mono fun y hy => .inl
      (hy.resolve_right id)
  | some type =>
    have hknown : typeOf registry b = pure type := by rw [typeOf, ht]
    obtain ⟨hstatements, hvalues⟩ := hr ht
    simp only [hknown, pure_bind]
    refine Gives.mono (Gives.after_enter
      ((gives_filterMapM (R := fun slot => Under arena x (.statement slot)) ?_ ?_).bind
        (fun statements => (gives_mapM
          (R := fun slot : ValueSlot => Under arena x (.value slot.name)) ?_ ?_).map _)
        ?_) ?_) ?_
    · intro slot _
      cases hs : b.linked? (.statement slot) with
      | none => exact (gives_pure (fun _ => False) _).mono fun _ h => h.elim
      | some head =>
        have hk : arena.linked? x (.statement slot) = some head := by rw [hlinked, hs]
        obtain ⟨c, hc⟩ := Arena.exists_find? (hf.present hk)
        simp only [find_eq hc, pure_bind]
        exact ((hchains hk _).map _).mono fun y hy => ⟨head, hk, hy⟩
    · exact hstatements.imp fun hne z hz => not_under_both hf (by simpa using hne) hz
    · intro slot _
      cases hs : b.linked? (.value slot.name) with
      | none => exact (gives_pure (fun _ => False) _).mono fun _ h => h.elim
      | some child =>
        have hk : arena.linked? x (.value slot.name) = some child := by rw [hlinked, hs]
        obtain ⟨c, hc⟩ := Arena.exists_find? (hf.present hk)
        simp only [find_eq hc, pure_bind]
        exact ((hblocks hk _).map _).mono fun y hy => ⟨child, hk, hy.reach⟩
    · exact (List.pairwise_map.1 hvalues).imp fun hne z hz =>
        not_under_both hf (by simpa using hne) hz
    · rintro y ⟨slot, _, hy⟩ ⟨slot', _, hy'⟩
      exact not_under_both hf (by simp) hy hy'
    · rintro (⟨slot, _, hy⟩ | ⟨slot, _, hy⟩)
      · exact not_under_self hf hy
      · exact not_under_self hf hy
    · rintro y (rfl | ⟨slot, _, hy⟩ | ⟨slot, _, hy⟩)
      · exact .inl rfl
      · exact .inr ⟨_, by simp, hy⟩
      · exact .inr ⟨_, by simp, hy⟩

/-- The walk through a chain, if the walks through its first block and through the
rest of it come out as the plain ones do. -/
theorem gives_chain (hf : arena.Forest) {n : Nat} {b : Block} (hb : arena.find? x = some b)
    {depth : Nat} (hblock : Gives (blockCode arena registry n x depth) (Within arena x)
      (plainBlock arena registry n x depth))
    (hrest : ∀ {next}, arena.linked? x .next = some next →
      Gives (chainCode arena registry n next depth) (LinkMap.Reach arena.linked? next)
        (plainChain arena registry n next depth)) :
    Gives (chainCode arena registry (n + 1) x depth) (LinkMap.Reach arena.linked? x)
      (plainChain arena registry (n + 1) x depth) := by
  have hnext : arena.linked? x .next = b.next := Arena.linked?_of_find? hb .next
  rw [chainCode, plainChain]
  simp only [find_eq hb, pure_bind, hb, Option.bind_some]
  refine (hblock.bind (Q := Under arena x .next) ?_ ?_).mono ?_
  · intro fragment
    cases hs : b.next with
    | none => exact (gives_pure (fun _ => False) _).mono fun _ h => h.elim
    | some next =>
      rw [hs] at hnext
      exact ((hrest hnext).map _).mono fun y hy => ⟨next, hnext, hy⟩
  · rintro y (rfl | ⟨k, hk, hy⟩)
    · exact not_under_self hf
    · exact not_under_both hf hk hy
  · rintro y (hy | hy)
    · exact hy.reach
    · exact hy.reach

/-- With enough steps, the walk through a block or a chain that has not been
entered comes out as the plain walk does. -/
theorem gives_plain (hf : arena.Forest) (hr : registry.SlotsOnce) (n : Nat) :
    (∀ x ∈ arena.ids, 2 * arena.rank x + 1 ≤ n → ∀ depth,
      Gives (blockCode arena registry n x depth) (Within arena x)
        (plainBlock arena registry n x depth)) ∧
    (∀ x ∈ arena.ids, 2 * arena.rank x + 2 ≤ n → ∀ depth,
      Gives (chainCode arena registry n x depth) (LinkMap.Reach arena.linked? x)
        (plainChain arena registry n x depth)) := by
  apply hf.walk_induct
  · intro n x b hb _ hchains hblocks depth
    exact gives_block hf hr hb (fun hk => hchains _ _ hk) (fun hk => hblocks _ _ hk) depth
  · intro n x b hb _ hblock hrest depth
    exact gives_chain hf hb (hblock depth) fun hk => hrest _ hk depth

/-! ### The roots -/

theorem free_of_kind (hf : arena.Forest) {b : Block} (hb : arena.find? x = some b)
    {kind : RootKind} (hkind : b.kind = kind.kindName) : LinkMap.Free arena.linked? x := by
  intro a k hk
  have hroot := hf.rootsFree hk
  simp [Arena.isRoot, hb, Block.rootKind?, hkind, RootKind.ofKindName?_kindName] at hroot

theorem free_of_root (hf : arena.Forest) (hd : arena.ids.Nodup) {kind : RootKind}
    (h : arena.root? kind = some x) : LinkMap.Free arena.linked? x := by
  obtain ⟨b, hb, hkind⟩ := Arena.find?_of_root? hd h
  exact free_of_kind hf hb hkind

/-- What hangs from one root does not hang from the other. -/
theorem not_within_both (hf : arena.Forest) (hd : arena.ids.Nodup) {a b : BlockId}
    (ha : arena.root? .setup = some a) (hb : arena.root? .loop = some b)
    (hay : Within arena a y) : ¬ Within arena b y := by
  intro hby
  have hsame := hf.treelike.eq_of_free (free_of_root hf hd ha) (free_of_root hf hd hb)
    hay.reach hby.reach
  subst hsame
  obtain ⟨d, hfind, hsetup⟩ := Arena.find?_of_root? hd ha
  obtain ⟨d', hfind', hloop⟩ := Arena.find?_of_root? hd hb
  rw [hfind, Option.some_inj] at hfind'
  rw [hfind', hloop] at hsetup
  exact absurd hsetup (by decide)

theorem gives_root (hf : arena.Forest) (hd : arena.ids.Nodup) (hr : registry.SlotsOnce)
    (kind : RootKind) :
    Gives (rootCode arena registry kind) (fun y => ∃ root, arena.root? kind = some root ∧
      Within arena root y) (plainRoot arena registry kind) := by
  rw [rootCode, plainRoot]
  cases h : arena.root? kind with
  | none => exact (gives_throw (fun _ => False) _).mono fun _ h => h.elim
  | some root =>
    obtain ⟨b, hb, _⟩ := Arena.find?_of_root? hd h
    have hblock := (gives_plain hf hr arena.walkBound).1 root (Arena.mem_ids_of_find? hb)
      (Nat.le_of_succ_le (arena.rank_bound root)) 0
    exact (hblock.map atTop).mono fun y hy => ⟨root, rfl, hy⟩

theorem gives_program (hf : arena.Forest) (hd : arena.ids.Nodup) (hr : registry.SlotsOnce) :
    Gives (programCode arena registry) (fun _ => True) (plainProgram arena registry) := by
  have hroot := gives_root hf hd hr
  rw [programCode, plainProgram]
  refine ((hroot .setup).bind (fun setup => (hroot .loop).map (setup ++ "\n" ++ ·)) ?_).mono
    fun _ _ => trivial
  rintro y ⟨a, ha, hay⟩ ⟨b, hb, hby⟩
  exact not_within_both hf hd ha hb hay hby

/-- A program has the same code, or the same reason for having none, as the walk
without memory finds. -/
theorem compileWith_eq {w : Workspace} (hw : w.Grounded) (hr : registry.SlotsOnce) :
    w.compileWith registry = plainProgram w.arena registry := by
  obtain ⟨later, _, hrun⟩ := gives_program hw.forest hw.numbered.nodup hr [] (by simp)
  show Prod.fst <$> programCode w.arena registry [] = _
  rw [hrun]
  cases plainProgram w.arena registry <;> rfl

end Sketch

end BlockSketch
