import BlockSketch.Proofs.Graph.Shape
import BlockSketch.Proofs.Graph.Successor
import BlockSketch.Proofs.Mirror.Arena

/-!
Edits on both sides of a mirror. An edit that is made on a program, and on its
mirror image with the numbers of the image, has the same outcome: it is accepted
on both sides and the results mirror each other, or it is refused on both sides
for the same kind of reason (`Matches`).

The proofs go through the checks of an edit in the order in which it makes them.
That is what decides for which reason it is refused, so the conditions under
which it is accepted would not do.
-/

namespace BlockSketch

/-- Errors of the same kind, whatever they name. -/
inductive GraphError.SameKind : GraphError → GraphError → Prop
  | protectedBlock (x y : BlockId) : SameKind (.protectedBlock x) (.protectedBlock y)
  | invalidField (x y : BlockId) (name name' : String) (fault fault' : FieldFault) :
    SameKind (.invalidField x name fault) (.invalidField y name' fault')
  | invalidOperation (fault fault' : GraphFault) :
    SameKind (.invalidOperation fault) (.invalidOperation fault')
  | unknownKind (kind kind' : String) : SameKind (.unknownKind kind) (.unknownKind kind')
  | blockNotFound (x y : BlockId) : SameKind (.blockNotFound x) (.blockNotFound y)

theorem GraphError.SameKind.refl (e : GraphError) : e.SameKind e := by
  cases e <;> constructor

/-- Both computations succeed, with results that belong together, or both are
refused for the same kind of reason. -/
inductive Matches {α β : Type} (R : α → β → Prop) :
    Except GraphError α → Except GraphError β → Prop
  | ok {a : α} {b : β} (h : R a b) : Matches R (.ok a) (.ok b)
  | error {e e' : GraphError} (h : e.SameKind e') : Matches R (.error e) (.error e')

namespace Matches

variable {α β γ δ : Type} {R : α → β → Prop} {S : γ → δ → Prop} {x : Except GraphError α}
  {y : Except GraphError β}

theorem mono {R' : α → β → Prop} (h : Matches R x y) (hsub : ∀ a b, R a b → R' a b) :
    Matches R' x y := by
  cases h with
  | ok h => exact .ok (hsub _ _ h)
  | error h => exact .error h

theorem bind (h : Matches R x y) {s : α → Except GraphError γ} {t : β → Except GraphError δ}
    (hst : ∀ a b, R a b → Matches S (s a) (t b)) : Matches S (x >>= s) (y >>= t) := by
  cases h with
  | ok h => exact hst _ _ h
  | error h => exact .error h

/-- A check that comes out the same on both sides. -/
theorem guard {p q : Prop} [Decidable p] [Decidable q] (hpq : q ↔ p) {e e' : GraphError}
    (he : e.SameKind e') (h : ¬ p → Matches R x y) :
    Matches R (if p then throw e >>= fun _ : PUnit => x else x)
      (if q then throw e' >>= fun _ : PUnit => y else y) := by
  by_cases hp : p
  · rw [if_pos hp, if_pos (hpq.2 hp)]
    exact .error he
  · rw [if_neg hp, if_neg (fun hq => hp (hpq.1 hq))]
    exact h hp

/-- The same computation on both sides. -/
theorem refl (x : Except GraphError α) : Matches (fun a b => b = a) x x := by
  cases x with
  | ok a => exact .ok rfl
  | error e => exact .error (.refl e)

end Matches

namespace Workspace

variable {f : BlockId → BlockId} {w w' : Workspace} {x x' p p' c c' : BlockId}

/-- Two programs that are the same up to the numbers and places of their blocks. -/
structure Mirror (f : BlockId → BlockId) (w w' : Workspace) : Prop where
  registry : w'.registry = w.registry
  board : w'.board = w.board
  arena : w.arena.Mirror f w'.arena

/-- How a number is translated. Where there is no block, any number that belongs
to no block on the other side will do. -/
def Names (f : BlockId → BlockId) (w w' : Workspace) (x x' : BlockId) : Prop :=
  if x ∈ w.arena.ids then x' = f x else x' ∉ w'.arena.ids

theorem Mirror.exists_names (f : BlockId → BlockId) (hc' : w'.Coherent) (x : BlockId) :
    ∃ x', Names f w w' x x' := by
  by_cases hx : x ∈ w.arena.ids
  · exact ⟨f x, by rw [Names, if_pos hx]⟩
  · refine ⟨⟨w'.nextId⟩, ?_⟩
    rw [Names, if_neg hx]
    exact hc'.numbered.not_mem (Nat.le_refl _)

namespace Mirror

/-! ### Looking up -/

theorem block (m : w.Mirror f w') (hx : Names f w w' x x') :
    Matches (fun b b' => x' = f x ∧ w.arena.find? x = some b ∧ w'.arena.find? x' = some b' ∧
      b'.kind = b.kind) (w.block x) (w'.block x') := by
  rw [Workspace.block, Workspace.block, block?, block?]
  cases hb : w.arena.find? x with
  | none =>
    rw [Names, if_neg (Arena.find?_eq_none.1 hb)] at hx
    rw [Arena.find?_eq_none.2 hx]
    exact .error (.blockNotFound x x')
  | some b =>
    rw [Names, if_pos (Arena.mem_ids_of_find? hb)] at hx
    obtain ⟨b', hb', hkind, _⟩ := m.arena.find hb
    rw [hx, hb']
    exact .ok ⟨rfl, rfl, rfl, hkind⟩

theorem lookup (m : w.Mirror f w') {kind kind' : String} (hkind : kind' = kind) :
    Matches (fun type type' => type' = type) (w.registry.lookup kind)
      (w'.registry.lookup kind') := by
  rw [hkind, m.registry]
  exact .refl _

theorem typeOf (m : w.Mirror f w') (hx : Names f w w' x x') :
    Matches (fun type type' => type' = type ∧ x ∈ w.arena.ids ∧ x' = f x) (w.typeOf x)
      (w'.typeOf x') := by
  refine (m.block hx).bind fun b b' h => ?_
  obtain ⟨rfl, hb, _, hkind⟩ := h
  exact (m.lookup hkind).mono fun _ _ htype => ⟨htype, Arena.mem_ids_of_find? hb, rfl⟩

theorem withArena (m : w.Mirror f w') {arena arena' : Arena} (h : arena.Mirror f arena') :
    (w.withArena arena).Mirror f (w'.withArena arena') :=
  ⟨m.registry, m.board, h⟩

/-! ### Fields and the board -/

theorem fieldSpec (m : w.Mirror f w') (hx : Names f w w' x x') (name : String) :
    Matches (fun spec spec' => spec' = spec ∧ x ∈ w.arena.ids ∧ x' = f x) (w.fieldSpec x name)
      (w'.fieldSpec x' name) := by
  rw [Workspace.fieldSpec, Workspace.fieldSpec]
  refine (m.typeOf hx).bind fun _ type h => ?_
  obtain ⟨rfl, hmem⟩ := h
  cases type.field? name with
  | none => exact .error (.invalidField ..)
  | some spec => exact .ok ⟨rfl, hmem⟩

theorem setField (m : w.Mirror f w') (hx : Names f w w' x x') (name : String)
    (value : FieldValue) :
    Matches (Workspace.Mirror f) (w.setField x name value) (w'.setField x' name value) := by
  rw [Workspace.setField, Workspace.setField]
  refine (m.fieldSpec hx name).bind fun _ spec h => ?_
  obtain ⟨rfl, hmem, rfl⟩ := h
  rw [m.board]
  cases spec.validate value w.board with
  | error fault => exact .error (.invalidField ..)
  | ok stored =>
    refine .ok (m.withArena (m.arena.modify (fun _ => rfl) (fun _ => rfl) ?_ ?_ hmem))
    · intro b b' hfields
      rw [hfields]
    · intro b k
      cases k <;> rfl

theorem setBoard (m : w.Mirror f w') (board : String) :
    (∃ u u', w.setBoard board = .ok u ∧ w'.setBoard board = .ok u' ∧ u.Mirror f u') ∨
      ∃ e, w.setBoard board = .error e ∧ w'.setBoard board = .error e := by
  rw [Workspace.setBoard, Workspace.setBoard]
  cases Board.resolve board with
  | error e => exact .inr ⟨e, rfl, rfl⟩
  | ok resolved =>
    exact .inl ⟨_, _, rfl, rfl, ⟨m.registry, rfl, m.arena⟩⟩

/-! ### Connections -/

theorem checkConnectable (m : w.Mirror f w') (hc : w.Coherent) (hc' : w'.Coherent)
    (hp : Names f w w' p p') (hx : Names f w w' x x') :
    Matches (fun _ _ => (p ∈ w.arena.ids ∧ p' = f p) ∧ x ∈ w.arena.ids ∧ x' = f x)
      (w.checkConnectable p x) (w'.checkConnectable p' x') := by
  rw [Workspace.checkConnectable, Workspace.checkConnectable]
  refine (m.block hp).bind fun b b' hb => (m.block hx).bind fun d d' hd => ?_
  obtain ⟨rfl, hb, _⟩ := hb
  obtain ⟨rfl, hd, _⟩ := hd
  have hpmem := Arena.mem_ids_of_find? hb
  have hxmem := Arena.mem_ids_of_find? hd
  refine .guard (by rw [m.arena.isRoot_eq hxmem]) (.invalidOperation _ _) fun _ => ?_
  have hbelow := m.arena.mem_descendants_iff hc.forest hc'.forest hxmem hpmem
  by_cases hcycle : p ∈ w.arena.descendants x
  · rw [if_pos hcycle, if_pos (hbelow.2 hcycle)]
    exact .error (.invalidOperation _ _)
  · rw [if_neg hcycle, if_neg (fun h => hcycle (hbelow.1 h))]
    exact .ok ⟨⟨hpmem, rfl⟩, hxmem, rfl⟩

theorem connectStatement (m : w.Mirror f w') (hc : w.Coherent) (hc' : w'.Coherent)
    (hp : Names f w w' p p') (hx : Names f w w' x x') (target : StatementTarget) :
    Matches (Workspace.Mirror f) (w.connectStatement p target x)
      (w'.connectStatement p' target x') := by
  rw [Workspace.connectStatement, Workspace.connectStatement]
  refine (m.checkConnectable hc hc' hp hx).bind fun _ _ h => ?_
  obtain ⟨⟨hpmem, rfl⟩, hxmem, rfl⟩ := h
  refine (m.typeOf hp).bind fun _ type h => ?_
  obtain ⟨rfl, _⟩ := h
  refine .guard Iff.rfl (.invalidOperation _ _) fun _ =>
    (m.typeOf hx).bind fun _ childType h => ?_
  obtain ⟨rfl, _⟩ := h
  refine .guard Iff.rfl (.invalidOperation _ _) fun _ => ?_
  rw [m.arena.links p hpmem]
  have hattach := m.arena.attach hc.forest hc'.forest hc.numbered.nodup hc'.numbered.nodup hpmem
    hxmem target.link
  cases hlink : w.arena.linked? p target.link with
  | none => exact .ok (m.withArena hattach)
  | some displaced =>
    have hsame : f displaced = f x ↔ displaced = x :=
      ⟨m.arena.eq_of_eq (hc.forest.present hlink) hxmem, congrArg f⟩
    by_cases heq : displaced = x
    · simp only [Option.map_some, if_pos heq, if_pos (hsame.2 heq)]
      exact .ok m
    · simp only [Option.map_some, if_neg heq, if_neg (fun h => heq (hsame.1 h))]
      rw [m.arena.chainTail_eq hc.forest hxmem]
      have htail := hc.forest.chainTail_mem hxmem
      have hname : Names f w w' (w.arena.chainTail x) (f (w.arena.chainTail x)) := by
        rw [Names, if_pos htail]
      refine (m.typeOf hname).bind fun _ tailType h => ?_
      obtain ⟨rfl, _⟩ := h
      refine .guard Iff.rfl (.invalidOperation _ _) fun _ => .ok (m.withArena ?_)
      refine hattach.setLink ?_ .next (some displaced)
      rwa [Arena.ids_of_outline (Arena.outline_attach ..)]

theorem connectValue (m : w.Mirror f w') (hc : w.Coherent) (hc' : w'.Coherent)
    (hp : Names f w w' p p') (hx : Names f w w' x x') (slot : String) :
    Matches (Workspace.Mirror f) (w.connectValue p slot x) (w'.connectValue p' slot x') := by
  rw [Workspace.connectValue, Workspace.connectValue]
  refine (m.checkConnectable hc hc' hp hx).bind fun _ _ h => ?_
  obtain ⟨⟨hpmem, rfl⟩, hxmem, rfl⟩ := h
  refine (m.typeOf hp).bind fun _ type h => ?_
  obtain ⟨rfl, _⟩ := h
  refine .guard Iff.rfl (.invalidOperation _ _) fun _ =>
    (m.typeOf hx).bind fun _ childType h => ?_
  obtain ⟨rfl, _⟩ := h
  refine .guard Iff.rfl (.invalidOperation _ _) fun _ => ?_
  have hlinked := m.arena.linked_iff (k := .value slot) hc.forest hpmem hxmem
  by_cases hthere : w.arena.linked? p (.value slot) = some x
  · rw [if_pos hthere, if_pos (hlinked.2 hthere)]
    exact .ok m
  · rw [if_neg hthere, if_neg (fun h => hthere (hlinked.1 h))]
    exact .ok (m.withArena (m.arena.attach hc.forest hc'.forest hc.numbered.nodup
      hc'.numbered.nodup hpmem hxmem _))

theorem disconnect (m : w.Mirror f w') (hc : w.Coherent) (hc' : w'.Coherent)
    (hx : Names f w w' x x') :
    Matches (Workspace.Mirror f) (w.disconnect x) (w'.disconnect x') := by
  rw [Workspace.disconnect, Workspace.disconnect]
  refine (m.block hx).bind fun b b' h => ?_
  obtain ⟨rfl, hb, _⟩ := h
  exact .ok (m.withArena (m.arena.detach hc.forest hc'.forest hc.numbered.nodup
    hc'.numbered.nodup (Arena.mem_ids_of_find? hb)))

/-! ### Blocks that come and go -/

/-- The roots belong together. -/
theorem root?_eq (m : w.Mirror f w') (hc : w.Coherent) (hc' : w'.Coherent) (kind : RootKind) :
    w'.arena.root? kind = (w.arena.root? kind).map f := by
  apply Option.ext
  intro y
  rw [hc'.root?_eq_some, Option.map_eq_some_iff]
  simp only [hc.root?_eq_some]
  constructor
  · rintro ⟨b', hb', hkind⟩
    obtain ⟨x, hx, rfl⟩ := m.arena.exists_mem (Arena.mem_ids_of_find? hb')
    obtain ⟨b, hb⟩ := Arena.exists_find? hx
    obtain ⟨d, hd, hsame, _⟩ := m.arena.find hb
    rw [hb', Option.some_inj] at hd
    exact ⟨x, ⟨b, hb, by rw [← hsame, ← hd, hkind]⟩, rfl⟩
  · rintro ⟨x, ⟨b, hb, hkind⟩, rfl⟩
    obtain ⟨b', hb', hsame, _⟩ := m.arena.find hb
    exact ⟨b', hb', hsame.trans hkind⟩

/-- The next numbers belong together if they are used. -/
theorem create (m : w.Mirror f w') (hc : w.Coherent) (hc' : w'.Coherent)
    (hnext : f ⟨w.nextId⟩ = ⟨w'.nextId⟩) (kind : String) (position : Position) :
    Matches (fun r r' => r.1.Mirror f r'.1 ∧ r'.2 = f r.2) (w.create kind position)
      (w'.create kind position) := by
  rw [Workspace.create, Workspace.create, m.registry]
  refine (Matches.refl _).bind fun _ type h => ?_
  subst h
  have hroot : type.rootKind?.bind w'.arena.root? =
      (type.rootKind?.bind w.arena.root?).map f := by
    cases type.rootKind? with
    | none => rfl
    | some root => exact m.root?_eq hc hc' root
  rw [hroot]
  cases type.rootKind?.bind w.arena.root? with
  | some root => exact .error (.invalidOperation _ _)
  | none =>
    refine .ok ⟨⟨m.registry, m.board, ?_⟩, hnext.symm⟩
    rw [add, add, m.board]
    exact m.arena.append (hc.numbered.not_mem (Nat.le_refl _))
      (hc'.numbered.not_mem (Nat.le_refl _)) hnext rfl rfl
      (linked?_freshBlock _ _ _ _) (linked?_freshBlock _ _ _ _)

theorem delete (m : w.Mirror f w') (hc : w.Coherent) (hc' : w'.Coherent)
    (hx : Names f w w' x x') : Matches (Workspace.Mirror f) (w.delete x) (w'.delete x') := by
  rw [Workspace.delete, Workspace.delete]
  refine (m.block hx).bind fun b b' h => ?_
  obtain ⟨rfl, hb, hb', hkind⟩ := h
  have hxmem := Arena.mem_ids_of_find? hb
  refine (m.lookup hkind).bind fun type _ htype => ?_
  subst htype
  refine .guard Iff.rfl (.protectedBlock _ _) fun _ => ?_
  have hplugged : ∀ y ∈ w.arena.ids, f y ∈ b'.plugged.flatMap w'.arena.descendants ↔
      y ∈ b.plugged.flatMap w.arena.descendants :=
    fun y hy => m.arena.mem_plugged_iff hc.forest hc'.forest hb hb' hy
  refine .guard (iff_of_false (hc'.forest.any_isRoot_plugged hb')
    (hc.forest.any_isRoot_plugged hb)) (.invalidOperation _ _) fun _ => .ok (m.withArena ?_)
  refine (m.arena.closeGap hc.forest hc'.forest hc.numbered.nodup hc'.numbered.nodup hb
    hb').remove ?_
  intro y hy
  rw [Arena.ids_of_outline (Arena.outline_closeGap ..)] at hy
  rw [List.mem_cons, List.mem_cons, hplugged y hy]
  exact or_congr_left ⟨m.arena.eq_of_eq hy hxmem, congrArg f⟩

/-! ### Questions -/

theorem options (m : w.Mirror f w') (hx : Names f w w' x x') (name : String) :
    Matches (fun offered offered' => offered' = offered) (w.options x name)
      (w'.options x' name) := by
  rw [Workspace.options, Workspace.options]
  refine (m.block hx).bind fun b b' h => ?_
  rw [m.registry, m.board, h.2.2.2]
  exact .refl _

end Mirror

end Workspace

/-! ### Any edit -/

inductive Edit.Translates (R : BlockId → BlockId → Prop) : Edit → Edit → Prop
  | create (kind : String) (position : Position) :
    Translates R (.create kind position) (.create kind position)
  | delete {x x' : BlockId} (hx : R x x') : Translates R (.delete x) (.delete x')
  | setField {x x' : BlockId} (hx : R x x') (name : String) (value : FieldValue) :
    Translates R (.setField x name value) (.setField x' name value)
  | connect {p p' x x' : BlockId} (hp : R p p') (target : StatementTarget) (hx : R x x') :
    Translates R (.connect p target x) (.connect p' target x')
  | plug {p p' x x' : BlockId} (hp : R p p') (slot : String) (hx : R x x') :
    Translates R (.plug p slot x) (.plug p' slot x')
  | disconnect {x x' : BlockId} (hx : R x x') : Translates R (.disconnect x) (.disconnect x')
  | options {x x' : BlockId} (hx : R x x') (name : String) :
    Translates R (.options x name) (.options x' name)
  | validate : Translates R .validate .validate

theorem Edit.exists_translates {R : BlockId → BlockId → Prop} (h : ∀ x, ∃ x', R x x')
    (edit : Edit) : ∃ edit', edit.Translates R edit' := by
  cases edit with
  | create kind position => exact ⟨_, .create kind position⟩
  | delete x => exact ⟨_, .delete (h x).choose_spec⟩
  | setField x name value => exact ⟨_, .setField (h x).choose_spec name value⟩
  | connect p target x => exact ⟨_, .connect (h p).choose_spec target (h x).choose_spec⟩
  | plug p slot x => exact ⟨_, .plug (h p).choose_spec slot (h x).choose_spec⟩
  | disconnect x => exact ⟨_, .disconnect (h x).choose_spec⟩
  | options x name => exact ⟨_, .options (h x).choose_spec name⟩
  | validate => exact ⟨_, .validate⟩

inductive EditResult.Translates (f : BlockId → BlockId) : EditResult → EditResult → Prop
  | done : Translates f .done .done
  | created (x : BlockId) : Translates f (.created x) (.created (f x))
  | offered (options : List FieldOption) : Translates f (.offered options) (.offered options)

namespace Workspace

variable {f : BlockId → BlockId} {w w' : Workspace}

/-- An edit comes out the same on both sides. -/
theorem Mirror.perform (m : w.Mirror f w') (hc : w.Coherent) (hc' : w'.Coherent) (hw : w.Rooted)
    (hw' : w'.Rooted) (hnext : f ⟨w.nextId⟩ = ⟨w'.nextId⟩) {edit edit' : Edit}
    (h : edit.Translates (Names f w w') edit') :
    Matches (fun r r' => r.1.Mirror f r'.1 ∧ r.2.Translates f r'.2) (w.perform edit)
      (w'.perform edit') := by
  have hdone : ∀ {y y' : Except GraphError Workspace}, Matches (Workspace.Mirror f) y y' →
      Matches (fun r r' : Workspace × EditResult => r.1.Mirror f r'.1 ∧ r.2.Translates f r'.2)
        (y >>= fun u => pure (u, .done)) (y' >>= fun u => pure (u, .done)) :=
    fun hy => hy.bind fun _ _ hu => .ok ⟨hu, .done⟩
  cases h with
  | create kind position =>
    refine (m.create hc hc' hnext kind position).bind ?_
    rintro ⟨u, x⟩ ⟨u', _⟩ ⟨hu, rfl⟩
    exact .ok ⟨hu, .created x⟩
  | delete hx => exact hdone (m.delete hc hc' hx)
  | setField hx name value => exact hdone (m.setField hx name value)
  | connect hp target hx => exact hdone (m.connectStatement hc hc' hp hx target)
  | plug hp slot hx => exact hdone (m.connectValue hc hc' hp hx slot)
  | disconnect hx => exact hdone (m.disconnect hc hc' hx)
  | options hx name =>
    refine (m.options hx name).bind fun offered _ h => ?_
    rw [h]
    exact .ok ⟨m, .offered offered⟩
  | validate =>
    rw [Workspace.perform, Workspace.perform, Workspace.validate, Workspace.validate,
      hc.forest.check_eq_ok hc.numbered.nodup hw, hc'.forest.check_eq_ok hc'.numbered.nodup hw']
    exact .ok ⟨m, .done⟩

end Workspace

end BlockSketch
