import BlockSketch.Proofs.Snapshot.Layout

/-!
What the parts of a snapshot leave behind. A stored block is restored by laying
it out behind the others at the top level (`laidBlock`). A chain is laid out and
attached to a block by its first one (`hungChain`), and so are the chains in the
statement slots of a block (`filledSlots`) and the blocks in its value slots
(`filledValues`), each at a link that is free (`Ready`).

A part is restored in steps and laid out at once. That the steps add up is shown
here, for each kind of part, as equations between workspaces.
-/

namespace BlockSketch

namespace Arena

variable {A B L : Arena} {p x : BlockId} {k : Link} {n m : Nat}

/-- An arena that has grown, with what it has at the top level beside what was
there. -/
structure Grown (A B : Arena) (m : Nat) (new : BlockId → Prop) : Prop where
  laid : B.Laid m
  top : ∀ x, B.Top x ↔ A.Top x ∨ new x

theorem find?_append_left (hx : x ∈ A.ids) (more : Arena) :
    Arena.find? (A ++ more) x = A.find? x := by
  obtain ⟨b, hb⟩ := exists_find? hx
  rw [find?_append, hb]
  rfl

theorem linked?_append_left (hx : x ∈ A.ids) (more : Arena) (k : Link) :
    Arena.linked? (A ++ more) x k = A.linked? x k := by
  rw [linked?, linked?, find?_append_left hx]

theorem ids_append (A more : Arena) : ids (A ++ more) = A.ids ++ more.ids :=
  List.map_append

theorem not_mem_right (hd : (ids (A ++ L)).Nodup) (hx : x ∈ A.ids) : x ∉ L.ids := by
  rw [ids_append, List.nodup_append] at hd
  exact fun hL => hd.2.2 x hx x hL rfl

theorem modify_left (hx : x ∈ A.ids) (hd : (ids (A ++ L)).Nodup) (f : Block → Block) :
    Arena.modify (A ++ L) x f = A.modify x f ++ L := by
  rw [modify_append, modify_of_not_mem (not_mem_right hd hx)]

/-- A block that has been changed, and has others behind it, is changed again. -/
theorem modify_modify_left {f : Block → Block} (hf : ∀ b, (f b).id = b.id) (hx : x ∈ A.ids)
    (hd : (ids (A.modify x f ++ L)).Nodup) (g : Block → Block) (more : Arena) :
    Arena.modify (A.modify x f ++ L) x g ++ more =
      A.modify x (fun b => g (f b)) ++ (L ++ more) := by
  have hmem : x ∈ (A.modify x f).ids := by
    rw [ids_modify _ _ _ hf]
    exact hx
  rw [modify_left hmem hd, modify_modify _ _ _ hf, List.append_assoc]

/-- A block is laid out behind the others and attached to one of them. -/
theorem Laid.attach_grown (hA : A.Laid n) (h : Grown A (A ++ L) m (· = ⟨n⟩)) (hp : p ∈ A.ids)
    (hempty : A.linked? p k = none) (hroot : Arena.isRoot (A ++ L) ⟨n⟩ = false) :
    Arena.setLink (A ++ L) p k (some ⟨n⟩) = A.setLink p k (some ⟨n⟩) ++ L ∧
      Grown A (A.setLink p k (some ⟨n⟩) ++ L) m fun _ => False := by
  have hsplit : Arena.setLink (A ++ L) p k (some ⟨n⟩) = A.setLink p k (some ⟨n⟩) ++ L :=
    modify_left hp h.laid.numbered.nodup _
  have hmem : p ∈ ids (A ++ L) := by
    rw [ids_append]
    exact List.mem_append.2 (.inl hp)
  have hnew : Arena.Top (A ++ L) ⟨n⟩ := (h.top _).2 (.inr rfl)
  refine ⟨hsplit, ?_, ?_⟩
  · rw [← hsplit]
    exact h.laid.setLink hmem hnew hroot (hA.numbered.below p hp)
  · intro x
    rw [← hsplit, Laid.top_setLink hmem (by rw [linked?_append_left hp]; exact hempty), h.top x]
    constructor
    · rintro ⟨hx | hx, hne⟩
      · exact .inl hx
      · exact absurd hx hne
    · rintro (hx | hx)
      · refine ⟨.inl hx, ?_⟩
        rintro rfl
        exact hA.numbered.not_mem (Nat.le_refl n) hx.1
      · exact absurd hx id

theorem Grown.trans {new : BlockId → Prop} {C : Arena} (h : Grown A B n new)
    (h' : Grown B C m fun _ => False) : Grown A C m new := by
  refine ⟨h'.laid, fun x => ?_⟩
  rw [h'.top x, or_false, h.top x]

end Arena

namespace Workspace

open StoredBlock

variable {w v u : Workspace} {parent x : BlockId} {type : BlockType} {k : Link}
  {free : Link → Prop}

def grown (w : Workspace) (arena : Arena) (count : Nat) : Workspace :=
  { w with arena := arena, nextId := w.nextId + count }

theorem grown_grown (w : Workspace) (arena more : Arena) (n m : Nat) :
    (w.grown arena n).grown more m = w.grown more (n + m) := by
  rw [grown, grown, grown, Nat.add_assoc]

/-- The arena of `w` has grown to that of `v`, with what is new at its top level. -/
def GrowsTo (w v : Workspace) (new : BlockId → Prop) : Prop :=
  w.arena.Grown v.arena v.nextId new

theorem GrowsTo.refl (h : w.arena.Laid w.nextId) : w.GrowsTo w fun _ => False :=
  ⟨h, fun _ => (or_iff_left fun hf => hf).symm⟩

theorem GrowsTo.trans {new : BlockId → Prop} (h : w.GrowsTo v new)
    (h' : v.GrowsTo u fun _ => False) : w.GrowsTo u new :=
  Arena.Grown.trans h h'

/-- A block of the type is there, and nothing is attached to it where `free`
allows it. -/
def Ready (w : Workspace) (x : BlockId) (type : BlockType) (free : Link → Prop) : Prop :=
  ∃ b, w.arena.find? x = some b ∧ w.registry.get? b.kind = some type ∧
    ∀ k, free k → b.linked? k = none

namespace Ready

theorem mem (h : w.Ready x type free) : x ∈ w.arena.ids := by
  obtain ⟨b, hb, _⟩ := h
  exact Arena.mem_ids_of_find? hb

theorem typeOf_eq (h : w.Ready x type free) : w.typeOf x = .ok type := by
  obtain ⟨b, hb, hget, _⟩ := h
  exact typeOf_of_find? hb hget

theorem linked?_eq (h : w.Ready x type free) (hk : free k) : w.arena.linked? x k = none := by
  obtain ⟨b, hb, _, hempty⟩ := h
  rw [Arena.linked?_of_find? hb]
  exact hempty k hk

theorem append (h : w.Ready x type free) (more : Arena) (n : Nat) :
    (w.grown (w.arena ++ more) n).Ready x type free := by
  obtain ⟨b, hb, hrest⟩ := h
  exact ⟨b, (Arena.find?_append_left (Arena.mem_ids_of_find? hb) more).trans hb, hrest⟩

/-- The block is changed, and stays free at some of its links. -/
theorem modify (h : w.Ready x type free) {f : Block → Block} (hid : ∀ b, (f b).id = b.id)
    (hkind : ∀ b, (f b).kind = b.kind) {still : Link → Prop}
    (hstill : ∀ b k, still k → free k ∧ (f b).linked? k = b.linked? k) (more : Arena) (n : Nat) :
    (w.grown (w.arena.modify x f ++ more) n).Ready x type still := by
  obtain ⟨b, hb, hget, hempty⟩ := h
  have hf : (w.arena.modify x f).find? x = some (f b) := by
    rw [Arena.find?_modify _ _ _ _ hid, hb, Option.map_some, if_pos (Arena.id_of_find? hb)]
  refine ⟨f b, ?_, ?_, fun k hk => ?_⟩
  · exact (Arena.find?_append_left (Arena.mem_ids_of_find? hf) more).trans hf
  · rw [hkind]
    exact hget
  · obtain ⟨hfree, hsame⟩ := hstill b k hk
    rw [hsame]
    exact hempty k hfree

theorem setLink (h : w.Ready x type free) (k : Link) (c : Option BlockId) (more : Arena) (n : Nat) :
    (w.grown (w.arena.setLink x k c ++ more) n).Ready x type fun j => free j ∧ j ≠ k := by
  refine h.modify (fun b => Block.id_withLink b k c) (fun b => Block.kind_withLink b k c) ?_ more n
  rintro b j ⟨hfree, hne⟩
  rw [Block.linked?_withLink, if_neg hne]
  exact ⟨hfree, rfl⟩

end Ready

/-! ### The first block of a layout -/

theorem layBlock_eq {registry : Registry} {board : Board} {s : StoredBlock}
    (hget : registry.get? s.kind = some type) (n : Nat) (position : Position)
    (next : Option BlockId) :
    layBlock registry board n position next s =
      layOne type board n position next s.fields (heads (n + 1) s.statements)
          (plugs (n + 1 + countSlots s.statements) s.values) ::
        (laySlots registry board (n + 1) s.statements ++
          layValues registry board (n + 1 + countSlots s.statements) s.values) := by
  obtain ⟨kind, fields, statements, values⟩ := s
  have hget : registry.get? kind = some type := hget
  rw [layBlock, hget]

theorem not_mem_layParts {registry : Registry} {board : Board} (n m : Nat)
    (statements : List (String × List StoredBlock)) (values : List (String × StoredBlock))
    (hm : n < m) :
    (⟨n⟩ : BlockId) ∉ Arena.ids (laySlots registry board (n + 1) statements ++
      layValues registry board m values) := by
  intro hmem
  obtain ⟨b, hb, hid⟩ := Arena.mem_ids.1 hmem
  have hindex : b.id.index = n := by rw [hid]
  obtain hb | hb := List.mem_append.1 hb
  · have := le_of_mem_laySlots hb
    omega
  · have := le_of_mem_layValues hb
    omega

/-- Putting something after the first block of a layout. -/
theorem setLink_layBlock {registry : Registry} {board : Board} {s : StoredBlock}
    (hget : registry.get? s.kind = some type) (n : Nat) (position : Position)
    (next next' : Option BlockId) :
    Arena.setLink (layBlock registry board n position next s) ⟨n⟩ .next next' =
      layBlock registry board n position next' s := by
  rw [layBlock_eq hget, layBlock_eq hget]
  exact Arena.modify_cons_self (not_mem_layParts n _ s.statements s.values (by omega)) _

theorem find?_layBlock {registry : Registry} {s : StoredBlock} {A : Arena} {n : Nat}
    (board : Board) (hget : registry.get? s.kind = some type) (hn : (⟨n⟩ : BlockId) ∉ A.ids)
    (position : Position) (next : Option BlockId) :
    ∃ b, Arena.find? (A ++ layBlock registry board n position next s) ⟨n⟩ = some b ∧
      b.kind = s.kind ∧ b.next = next := by
  rw [layBlock_eq hget]
  refine ⟨layOne type board n position next s.fields (heads (n + 1) s.statements)
    (plugs (n + 1 + countSlots s.statements) s.values), ?_, ?_, rfl⟩
  · rw [Arena.find?_append, Arena.find?_eq_none.2 hn, Option.none_or]
    exact List.find?_cons_of_pos (by simp [layOne, freshBlock])
  · exact Registry.kind_of_get? hget

/-- The blocks that come after a block are laid out behind it. -/
theorem setLink_layChain {registry : Registry} {s : StoredBlock} {A : Arena} {n : Nat}
    (board : Board) (hn : (⟨n⟩ : BlockId) ∉ A.ids) (hget : registry.get? s.kind = some type)
    (position : Position) (chain : List StoredBlock) :
    Arena.setLink (A ++ layBlock registry board n position none s) ⟨n⟩ .next
          (first? (n + s.count) chain) ++
        layChain registry board (n + s.count) .origin chain =
      A ++ layChain registry board n position (s :: chain) := by
  have hblock : Arena.setLink (layBlock registry board n position none s) ⟨n⟩ .next
      (first? (n + s.count) chain) =
        layBlock registry board n position (first? (n + s.count) chain) s :=
    setLink_layBlock hget n position none _
  rw [Arena.setLink] at hblock
  rw [Arena.setLink, Arena.modify_append, Arena.modify_of_not_mem hn, hblock, layChain,
    List.append_assoc]

/-! ### What each part comes to -/

def laidBlock (w : Workspace) (position : Position) (s : StoredBlock) : Workspace :=
  w.grown (w.arena ++ layBlock w.registry w.board w.nextId position none s) s.count

def hungBlock (w : Workspace) (parent : BlockId) (k : Link) (s : StoredBlock) : Workspace :=
  w.grown (w.arena.setLink parent k (some ⟨w.nextId⟩) ++
    layBlock w.registry w.board w.nextId .origin none s) s.count

def hungChain (w : Workspace) (parent : BlockId) (k : Link) (chain : List StoredBlock) :
    Workspace :=
  w.grown (w.arena.setLink parent k (first? w.nextId chain) ++
    layChain w.registry w.board w.nextId .origin chain) (countChain chain)

/-- Chains have been laid out, and the first block of each attached to its slot. -/
def filledSlots (w : Workspace) (x : BlockId) (slots : List (String × List StoredBlock)) :
    Workspace :=
  w.grown (w.arena.modify x (fun b =>
      { b with statements := b.statements.write (heads w.nextId slots) }) ++
    laySlots w.registry w.board w.nextId slots) (countSlots slots)

def filledValues (w : Workspace) (x : BlockId) (values : List (String × StoredBlock)) :
    Workspace :=
  w.grown (w.arena.modify x (fun b =>
      { b with values := b.values.write (plugs w.nextId values) }) ++
    layValues w.registry w.board w.nextId values) (countValues values)

section Parts

variable {s : StoredBlock} {chain : List StoredBlock} {slot : String}

theorem hungChain_nil (hd : w.arena.ids.Nodup) (h : w.arena.linked? x .next = none) :
    w.hungChain x .next [] = w := by
  rw [hungChain, first?, Arena.setLink_next_none hd h, layChain, List.append_nil]
  rfl

theorem not_mem_setLink (h : w.arena.Laid w.nextId) (parent : BlockId) (k : Link)
    (c : Option BlockId) : (⟨w.nextId⟩ : BlockId) ∉ (w.arena.setLink parent k c).ids := by
  rw [Arena.ids_setLink]
  exact h.numbered.not_mem (Nat.le_refl _)

/-- A chain is hung by its first block, and the others come after it. -/
theorem hungBlock_hungChain (h : w.arena.Laid w.nextId)
    (hget : w.registry.get? s.kind = some type) (parent : BlockId) (k : Link)
    (chain : List StoredBlock) :
    (w.hungBlock parent k s).hungChain ⟨w.nextId⟩ .next chain =
      w.hungChain parent k (s :: chain) := by
  have harena := setLink_layChain w.board (not_mem_setLink h parent k (some ⟨w.nextId⟩)) hget
    .origin chain
  rw [hungChain, hungBlock, grown_grown]
  exact congrArg (w.grown · (countChain (s :: chain))) harena

theorem laidBlock_hungChain (h : w.arena.Laid w.nextId)
    (hget : w.registry.get? s.kind = some type) (position : Position)
    (chain : List StoredBlock) :
    (w.laidBlock position s).hungChain ⟨w.nextId⟩ .next chain =
      w.grown (w.arena ++ layChain w.registry w.board w.nextId position (s :: chain))
        (countChain (s :: chain)) := by
  have harena := setLink_layChain w.board (h.numbered.not_mem (Nat.le_refl _)) hget position chain
  rw [hungChain, laidBlock, grown_grown]
  exact congrArg (w.grown · (countChain (s :: chain))) harena

theorem filledSlots_nil (w : Workspace) (x : BlockId) : w.filledSlots x [] = w := by
  show w.grown (w.arena.modify x (fun b => b) ++ laySlots _ _ _ []) 0 = w
  rw [Arena.modify_id, laySlots, List.append_nil]
  rfl

/-- An empty chain is nothing. -/
theorem filledSlots_nil_cons (w : Workspace) (x : BlockId) (slot : String)
    (rest : List (String × List StoredBlock)) :
    w.filledSlots x ((slot, []) :: rest) = w.filledSlots x rest := by
  rw [filledSlots, filledSlots, heads, laySlots, layChain, List.nil_append, countSlots, countChain,
    Nat.zero_add]
  rfl

theorem hungChain_filledSlots (hx : x ∈ w.arena.ids)
    (h : (w.hungChain x (.statement slot) (s :: chain)).arena.ids.Nodup)
    (rest : List (String × List StoredBlock)) :
    (w.hungChain x (.statement slot) (s :: chain)).filledSlots x rest =
      w.filledSlots x ((slot, s :: chain) :: rest) := by
  have harena := Arena.modify_modify_left (fun b => Block.id_withLink b _ _) hx h
    (fun b => { b with
      statements := b.statements.write (heads (w.nextId + countChain (s :: chain)) rest) })
    (laySlots w.registry w.board (w.nextId + countChain (s :: chain)) rest)
  rw [filledSlots, hungChain, grown_grown]
  exact congrArg (w.grown · (countSlots ((slot, s :: chain) :: rest))) harena

/-- Filling the statement slots leaves the value slots as they are. -/
theorem Ready.filledSlots (h : w.Ready x type free) (slots : List (String × List StoredBlock)) :
    (w.filledSlots x slots).Ready x type fun k => free k ∧ ∃ slot, k = .value slot := by
  rw [Workspace.filledSlots]
  refine h.modify ?_ ?_ ?_ _ _
  · exact fun _ => rfl
  · exact fun _ => rfl
  · rintro b _ ⟨hfree, slot, rfl⟩
    exact ⟨hfree, rfl⟩

theorem filledValues_nil (w : Workspace) (x : BlockId) : w.filledValues x [] = w := by
  show w.grown (w.arena.modify x (fun b => b) ++ layValues _ _ _ []) 0 = w
  rw [Arena.modify_id, layValues, List.append_nil]
  rfl

theorem hungBlock_filledValues (hx : x ∈ w.arena.ids)
    (h : (w.hungBlock x (.value slot) s).arena.ids.Nodup) (rest : List (String × StoredBlock)) :
    (w.hungBlock x (.value slot) s).filledValues x rest =
      w.filledValues x ((slot, s) :: rest) := by
  have harena := Arena.modify_modify_left (fun b => Block.id_withLink b _ _) hx h
    (fun b => { b with values := b.values.write (plugs (w.nextId + s.count) rest) })
    (layValues w.registry w.board (w.nextId + s.count) rest)
  rw [filledValues, hungBlock, grown_grown]
  exact congrArg (w.grown · (countValues ((slot, s) :: rest))) harena

/-- What has been laid out last has nothing after it. -/
theorem ready_head {A : Arena} (hn : (⟨w.nextId⟩ : BlockId) ∉ A.ids)
    (hget : w.registry.get? s.kind = some type) (position : Position) (n : Nat) :
    (w.grown (A ++ layBlock w.registry w.board w.nextId position none s) n).Ready ⟨w.nextId⟩ type
      (· = .next) := by
  obtain ⟨b, hb, hkind, hnext⟩ := find?_layBlock w.board hget hn position none
  refine ⟨b, hb, by rw [hkind]; exact hget, ?_⟩
  rintro _ rfl
  exact hnext

theorem ready_hungBlock (h : w.arena.Laid w.nextId) (hget : w.registry.get? s.kind = some type)
    (parent : BlockId) (k : Link) : (w.hungBlock parent k s).Ready ⟨w.nextId⟩ type (· = .next) :=
  ready_head (not_mem_setLink h parent k _) hget .origin s.count

end Parts

/-! ### A block whose parts are not there yet -/

section NewBlock

variable {kind : String} {fields : List (String × FieldValue)} {position : Position} {b : Block}
  {more : Arena}

theorem modify_new (h : w.arena.Laid w.nextId) (hid : b.id = ⟨w.nextId⟩)
    (hmore : ∀ c ∈ more, w.nextId < c.id.index) (f : Block → Block) :
    Arena.modify (w.arena ++ b :: more) ⟨w.nextId⟩ f = w.arena ++ f b :: more := by
  have hnew : (⟨w.nextId⟩ : BlockId) ∉ w.arena.ids := h.numbered.not_mem (Nat.le_refl _)
  have hrest : b.id ∉ more.ids := by
    intro hmem
    obtain ⟨c, hc, heq⟩ := Arena.mem_ids.1 hmem
    have hlt := hmore c hc
    rw [heq, hid] at hlt
    exact Nat.lt_irrefl _ hlt
  rw [Arena.modify_append, Arena.modify_of_not_mem hnew, ← hid, Arena.modify_cons_self hrest]

theorem find?_new (h : w.arena.Laid w.nextId) (hid : b.id = ⟨w.nextId⟩) :
    Arena.find? (w.arena ++ b :: more) ⟨w.nextId⟩ = some b := by
  rw [Arena.find?_append, Arena.find?_eq_none.2 (h.numbered.not_mem (Nat.le_refl _)),
    Option.none_or]
  exact List.find?_cons_of_pos (by simp [hid])

/-- The block is created and its fields are set; nothing is attached yet. -/
def newBlock (w : Workspace) (type : BlockType) (position : Position)
    (fields : List (String × FieldValue)) : Workspace :=
  w.grown (w.arena ++ [layOne type w.board w.nextId position none fields [] []]) 1

theorem ready_newBlock (h : w.arena.Laid w.nextId) (hget : w.registry.get? kind = some type)
    (position : Position) (fields : List (String × FieldValue)) :
    (w.newBlock type position fields).Ready ⟨w.nextId⟩ type fun _ => True := by
  refine ⟨layOne type w.board w.nextId position none fields [] [], find?_new h rfl, ?_,
    fun k _ => linked?_freshBlock type w.board ⟨w.nextId⟩ position k⟩
  show w.registry.get? type.kind = some type
  rw [Registry.kind_of_get? hget]
  exact hget

theorem growsTo_newBlock (h : w.arena.Laid w.nextId) (type : BlockType) (position : Position)
    (fields : List (String × FieldValue)) :
    w.GrowsTo (w.newBlock type position fields) (· = ⟨w.nextId⟩) := by
  have hfree : ∀ k, (layOne type w.board w.nextId position none fields [] []).linked? k = none :=
    linked?_freshBlock type w.board ⟨w.nextId⟩ position
  have htidy := tidy_freshBlock type w.board ⟨w.nextId⟩ position
  exact ⟨h.add rfl ⟨htidy.statements, htidy.values⟩ hfree, fun x => h.top_add rfl hfree⟩

/-- First the chains in its slots are attached, then the expressions. -/
theorem newBlock_filled (h : w.arena.Laid w.nextId) (hget : w.registry.get? kind = some type)
    (position : Position) (fields : List (String × FieldValue))
    (statements : List (String × List StoredBlock)) (values : List (String × StoredBlock)) :
    ((w.newBlock type position fields).filledSlots ⟨w.nextId⟩ statements).filledValues ⟨w.nextId⟩
        values = w.laidBlock position ⟨kind, fields, statements, values⟩ := by
  let one (statements values : List (String × Option BlockId)) : Block :=
    layOne type w.board w.nextId position none fields statements values
  let slots := laySlots w.registry w.board (w.nextId + 1) statements
  let exprs := layValues w.registry w.board (w.nextId + 1 + countSlots statements) values
  let hs := heads (w.nextId + 1) statements
  let vs := plugs (w.nextId + 1 + countSlots statements) values
  have hslots : Arena.modify (w.arena ++ [one [] []]) ⟨w.nextId⟩ (fun b =>
      { b with statements := b.statements.write hs }) ++ slots = w.arena ++ one hs [] :: slots := by
    rw [modify_new h rfl (by simp), List.append_assoc]
    rfl
  have hvalues : Arena.modify (w.arena ++ one hs [] :: slots) ⟨w.nextId⟩ (fun b =>
      { b with values := b.values.write vs }) ++ exprs =
      w.arena ++ layBlock w.registry w.board w.nextId position none
        ⟨kind, fields, statements, values⟩ := by
    rw [modify_new h rfl fun c hc => le_of_mem_laySlots hc, List.append_assoc, layBlock_eq hget]
    rfl
  have hcount : 1 + (countSlots statements + countValues values) =
      count ⟨kind, fields, statements, values⟩ := by
    rw [count]
    omega
  rw [laidBlock, ← hvalues, ← hslots, ← hcount, filledValues, filledSlots, newBlock, grown_grown,
    grown_grown]
  rfl

end NewBlock

end Workspace

end BlockSketch
