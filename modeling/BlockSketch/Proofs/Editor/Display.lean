import BlockSketch.Editor
import BlockSketch.Proofs.Sketch.Refusal

/-!
What an editing session has on display. After every action the session shows
either the code of its program, or why there is none; then the text is that of
the last program of the session that had code (`Display`).

A session only changes by committing a program (`after_cases`): what is refused,
at whatever edit, leaves no trace, and showing the code once more shows the same.
So one step is a commit or nothing at all, and a run is the sequence of its
commits, from which the text can be told (`code_afterAll`).
-/

namespace BlockSketch

theorem bind_eq_error {ε α β : Type} {x : Except ε α} {f : α → Except ε β} {e : ε} :
    (x >>= f) = .error e ↔ x = .error e ∨ ∃ a, x = .ok a ∧ f a = .error e := by
  cases x <;> simp [bind, Except.bind]

/-! ### Several edits as one -/

namespace Workspace

variable {w w' : Workspace}

/-- Edits that all went through have led where they lead one by one. -/
theorem eq_afterAll_of_performAll {edits : List Edit} {results : List EditResult}
    (h : w.performAll edits = .ok (w', results)) : w' = w.afterAll (edits.map .edit) := by
  induction edits generalizing w results with
  | nil =>
    cases h
    rfl
  | cons edit rest ih =>
    simp only [performAll, bind_eq_ok, pure_eq_ok, Prod.exists, Prod.mk.injEq] at h
    obtain ⟨w₁, result, h₁, _, _, hrest, rfl, rfl⟩ := h
    rw [List.map_cons, afterAll_cons, Workspace.after, h₁]
    exact ih hrest

/-- Edits are refused as a whole if one of them is refused after those before it
went through. -/
theorem performAll_eq_error {edits : List Edit} {e : GraphError} :
    w.performAll edits = .error e ↔
      ∃ first edit rest draft results, edits = first ++ edit :: rest ∧
        w.performAll first = .ok (draft, results) ∧ draft.perform edit = .error e := by
  constructor
  · intro h
    induction edits generalizing w with
    | nil => cases h
    | cons edit rest ih =>
      rw [performAll, bind_eq_error] at h
      obtain hrefused | ⟨⟨w₁, result⟩, hedit, h⟩ := h
      · exact ⟨[], edit, rest, w, [], rfl, rfl, hrefused⟩
      · obtain hrefused | ⟨_, _, h⟩ := bind_eq_error.1 h
        · obtain ⟨first, bad, later, draft, results, rfl, hfirst, hbad⟩ := ih hrefused
          refine ⟨edit :: first, bad, later, draft, result :: results, rfl, ?_, hbad⟩
          rw [performAll, hedit]
          show (w₁.performAll first >>= _) = _
          rw [hfirst]
          rfl
        · cases h
  · rintro ⟨first, bad, later, draft, results, rfl, hfirst, hbad⟩
    induction first generalizing w results with
    | nil =>
      cases hfirst
      rw [List.nil_append, performAll, hbad]
      rfl
    | cons edit rest ih =>
      simp only [performAll, bind_eq_ok, pure_eq_ok, Prod.exists, Prod.mk.injEq] at hfirst
      obtain ⟨w₁, result, hedit, _, _, hrest, rfl, rfl⟩ := hfirst
      rw [List.cons_append, performAll, hedit]
      show (w₁.performAll _ >>= _) = _
      rw [ih _ hrest]
      rfl

end Workspace

namespace Editor

variable {registry : Registry} {editor start : Editor} {w : Workspace}

/-! ### Sessions -/

inductive Begins (registry : Registry) : Editor → Prop
  | new {board : String} {editor : Editor} :
      Editor.new registry board = .ok editor → Begins registry editor
  | opened (snapshot : Json) : Begins registry (ofSnapshot registry snapshot)
  | around {w : Workspace} : Workspace.Reached registry w → Begins registry (ofWorkspace w)

inductive Action
  | apply (edits : List Edit)
  | setBoard (board : String)
  | regenerate
deriving DecidableEq, Repr, Inhabited

def after (editor : Editor) : Action → Editor
  | .apply edits =>
    match editor.applyAll edits with
    | .ok (editor, _) => editor
    | .error _ => editor
  | .setBoard board =>
    match editor.setBoard board with
    | .ok editor => editor
    | .error _ => editor
  | .regenerate => editor.regenerate

def afterAll (editor : Editor) (actions : List Action) : Editor :=
  actions.foldl after editor

def commits? (editor : Editor) : Action → Option Workspace
  | .apply edits =>
    match editor.workspace.performAll edits with
    | .ok (w, _) => some w
    | .error _ => none
  | .setBoard board =>
    match editor.workspace.setBoard board with
    | .ok w => some w
    | .error _ => none
  | .regenerate => none

def committed (editor : Editor) : List Action → List Workspace
  | [] => []
  | a :: rest => (editor.commits? a).toList ++ (editor.after a).committed rest

/-- The code of the last of some programs that have code. -/
def lastCode? (programs : List Workspace) : Option String :=
  programs.reverse.findSome? fun w => w.compile.toOption

theorem lastCode?_cons (w : Workspace) (rest : List Workspace) :
    lastCode? (w :: rest) = (lastCode? rest).or w.compile.toOption := by
  rw [lastCode?, List.reverse_cons, List.findSome?_append, ← lastCode?, List.findSome?_cons,
    List.findSome?_nil]
  cases w.compile <;> rfl

/-! ### What is on display -/

/-- What is on display belongs to the program: its code, or the reason why there
is none. -/
structure Current (editor : Editor) : Prop where
  error_iff : ∀ e, editor.generationError = some e ↔ editor.workspace.compile = .error e
  code : editor.generationError = none → editor.workspace.compile = .ok editor.code

theorem current_regenerate (editor : Editor) : editor.regenerate.Current := by
  have hworkspace : editor.regenerate.workspace = editor.workspace := rfl
  have hlive : editor.regenerate.live = editor.live.display editor.workspace.compile := rfl
  constructor
  · intro e
    rw [generationError, hlive, hworkspace]
    cases editor.workspace.compile with
    | ok code => simp [LiveCode.display]
    | error reason => simp [LiveCode.display]
  · intro hnone
    rw [generationError, hlive] at hnone
    rw [hworkspace, code, hlive]
    cases hcompile : editor.workspace.compile with
    | ok code => rfl
    | error reason =>
      rw [hcompile] at hnone
      cases hnone

/-- To show the code once more changes nothing. -/
theorem Current.regenerate_eq (h : editor.Current) : editor.regenerate = editor := by
  obtain ⟨w, text, lastError⟩ := editor
  show (⟨w, LiveCode.display ⟨text, lastError⟩ w.compile⟩ : Editor) = _
  cases lastError with
  | none => rw [show w.compile = .ok text from h.code rfl, LiveCode.display]
  | some e => rw [show w.compile = .error e from (h.error_iff e).1 rfl, LiveCode.display]

theorem code_commit (editor : Editor) (w : Workspace) :
    (editor.commit w).code = w.compile.toOption.getD editor.code := by
  show (editor.live.display w.compile).text = _
  cases w.compile <;> rfl

/-- An action commits a program, or else changes nothing. -/
theorem Current.after_cases (h : editor.Current) (a : Action) :
    (∃ w, editor.commits? a = some w ∧ editor.after a = editor.commit w) ∨
      (editor.commits? a = none ∧ editor.after a = editor) := by
  cases a with
  | apply edits =>
    simp only [commits?, after, applyAll, apply]
    cases hedits : editor.workspace.performAll edits with
    | ok outcome => exact .inl ⟨outcome.1, rfl, rfl⟩
    | error e => exact .inr ⟨rfl, rfl⟩
  | setBoard board =>
    simp only [commits?, after, setBoard]
    cases hboard : editor.workspace.setBoard board with
    | ok w => exact .inl ⟨w, rfl, rfl⟩
    | error e => exact .inr ⟨rfl, rfl⟩
  | regenerate => exact .inr ⟨rfl, h.regenerate_eq⟩

theorem Current.after (h : editor.Current) (a : Action) : (editor.after a).Current := by
  obtain ⟨w, _, hafter⟩ | ⟨_, hafter⟩ := h.after_cases a
  · rw [hafter]
    exact current_regenerate _
  · rw [hafter]
    exact h

theorem Current.afterAll (h : editor.Current) (actions : List Action) :
    (editor.afterAll actions).Current := by
  induction actions generalizing editor with
  | nil => exact h
  | cons a rest ih => exact ih (h.after a)

/-- The text after some actions is the code of the last program among those
committed that has code, and otherwise what it was. -/
theorem Current.code_afterAll (h : editor.Current) (actions : List Action) :
    (editor.afterAll actions).code = (lastCode? (editor.committed actions)).getD editor.code := by
  induction actions generalizing editor with
  | nil => rfl
  | cons a rest ih =>
    have hrest := ih (h.after a)
    rw [committed]
    show ((editor.after a).afterAll rest).code = _
    obtain ⟨w, hcommits, hafter⟩ | ⟨hcommits, hafter⟩ := h.after_cases a
    · rw [hafter, code_commit] at hrest
      rw [hcommits, hafter, Option.toList_some, List.singleton_append, lastCode?_cons, hrest,
        Option.getD_or]
    · rw [hafter] at hrest
      rw [hcommits, hafter, Option.toList_none, List.nil_append, hrest]

/-- The program after some actions is the one that was committed last. -/
theorem Current.getLast?_committed (h : editor.Current) (actions : List Action) :
    (editor.workspace :: editor.committed actions).getLast? =
      some (editor.afterAll actions).workspace := by
  induction actions generalizing editor with
  | nil => rfl
  | cons a rest ih =>
    have hrest := ih (h.after a)
    rw [committed]
    show _ = some ((editor.after a).afterAll rest).workspace
    obtain ⟨w, hcommits, hafter⟩ | ⟨hcommits, hafter⟩ := h.after_cases a
    · rw [hafter] at hrest
      rw [hcommits, hafter, Option.toList_some, List.singleton_append, List.getLast?_cons_cons]
      exact hrest
    · rw [hafter] at hrest
      rw [hcommits, hafter, Option.toList_none, List.nil_append]
      exact hrest

/-! ### Programs of a session -/

/-- A session begins around some program that has come about. -/
theorem Begins.exists_workspace (h : Begins registry start) :
    ∃ w, Workspace.Reached registry w ∧ start = ofWorkspace w := by
  cases h with
  | new hnew =>
    simp only [Editor.new, bind_eq_ok, pure_eq_ok] at hnew
    obtain ⟨w, hw, rfl⟩ := hnew
    exact ⟨w, (Workspace.Begins.new hw).reached, rfl⟩
  | opened snapshot => exact ⟨_, (Workspace.Begins.loadedValue snapshot).reached, rfl⟩
  | around hw => exact ⟨_, hw, rfl⟩

/-- A program that is committed has come about. -/
theorem reached_of_commits? (h : Workspace.Reached registry editor.workspace) {a : Action}
    (hcommits : editor.commits? a = some w) : Workspace.Reached registry w := by
  cases a with
  | apply edits =>
    rw [commits?] at hcommits
    split at hcommits
    · rename_i hedits
      cases hcommits
      rw [Workspace.eq_afterAll_of_performAll hedits]
      exact h.afterAll _
    · cases hcommits
  | setBoard board =>
    rw [commits?] at hcommits
    split at hcommits
    · rename_i hboard
      cases hcommits
      have hafter : w = editor.workspace.afterAll [.setBoard board] := by
        rw [Workspace.afterAll_cons, Workspace.afterAll_nil, Workspace.after, hboard]
      rw [hafter]
      exact h.afterAll _
    · cases hcommits
  | regenerate => cases hcommits

theorem Current.reached_afterAll (h : editor.Current)
    (hw : Workspace.Reached registry editor.workspace) (actions : List Action) :
    Workspace.Reached registry (editor.afterAll actions).workspace := by
  induction actions generalizing editor with
  | nil => exact hw
  | cons a rest ih =>
    refine ih (h.after a) ?_
    obtain ⟨w, hcommits, hafter⟩ | ⟨_, hafter⟩ := h.after_cases a
    · rw [hafter]
      exact reached_of_commits? hw hcommits
    · rw [hafter]
      exact hw

/-! ### What a person sees -/

theorem setBoard_eq_error {board : String} {e : BoardError} :
    editor.setBoard board = .error e ↔ Board.find? board = none ∧ e = .unknownBoard board := by
  simp only [setBoard, Workspace.setBoard, Board.resolve]
  cases Board.find? board with
  | some b => simp [bind, Except.bind, pure, Except.pure]
  | none => simp [bind, Except.bind, eq_comm]

/-- What a person sees of a session in which these programs were committed, the
one it began with among them. There is a reason on display just if the program
committed last has no code, and then the text is the code of the last program that
had any. Edits are refused together as soon as one of them is, a board is refused
just if it is not known, and what is refused changes nothing. With both roots and
no slot twice, there is never a reason on display. -/
structure Display (registry : Registry) (programs : List Workspace) (editor : Editor) : Prop where
  latest : programs.getLast? = some editor.workspace
  error_iff : ∀ e, editor.generationError = some e ↔ editor.workspace.compile = .error e
  current : editor.generationError = none → editor.workspace.compile = .ok editor.code
  kept : editor.generationError ≠ none →
    editor.code = (lastCode? programs).getD LiveCode.initialText
  refusedEdits : ∀ edits e, editor.applyAll edits = .error e ↔
    ∃ first edit rest draft results, edits = first ++ edit :: rest ∧
      editor.workspace.performAll first = .ok (draft, results) ∧ draft.perform edit = .error e
  refusedBoard : ∀ board e, editor.setBoard board = .error e ↔
    Board.find? board = none ∧ e = .unknownBoard board
  unchanged : (∀ edits e, editor.applyAll edits = .error e → editor.after (.apply edits) = editor) ∧
    ∀ board e, editor.setBoard board = .error e → editor.after (.setBoard board) = editor
  always : registry.HasRoots → registry.SlotsOnce →
    editor.generationError = none ∧ editor.workspace.compile = .ok editor.code

/-- Whatever happens in a session, a person sees the code of the program, or why
it has none together with the last code there was. -/
theorem begins_display (h : Begins registry start) (actions : List Action) :
    Display registry (start.workspace :: start.committed actions) (start.afterAll actions) := by
  obtain ⟨w, hw, rfl⟩ := h.exists_workspace
  have hstart : (ofWorkspace w).Current := current_regenerate _
  have hcurrent := hstart.afterAll actions
  have hreached := hstart.reached_afterAll hw actions
  constructor
  case latest => exact hstart.getLast?_committed actions
  case error_iff => exact hcurrent.error_iff
  case current => exact hcurrent.code
  case kept =>
    intro _
    have hbegin : (ofWorkspace w).code = w.compile.toOption.getD LiveCode.initialText :=
      code_commit ⟨w, .start⟩ w
    rw [hstart.code_afterAll, hbegin, lastCode?_cons, Option.getD_or]
    rfl
  case refusedEdits =>
    intro edits e
    rw [← Workspace.performAll_eq_error, applyAll, apply, bind_eq_error]
    simp [pure, Except.pure]
  case refusedBoard => exact fun _ _ => setBoard_eq_error
  case unchanged =>
    constructor
    · intro edits e he
      rw [Editor.after, he]
    · intro board e he
      rw [Editor.after, he]
  case always =>
    intro hr hs
    obtain ⟨hreg, hground⟩ := hreached.grounded
    obtain ⟨text, htext⟩ := hground.exists_code (hreached.root?_ne_none hr) (hreg ▸ hs)
      hground.known
    have hnone : ((ofWorkspace w).afterAll actions).generationError = none := by
      cases herror : ((ofWorkspace w).afterAll actions).generationError with
      | none => rfl
      | some e =>
        have hcompile := (hcurrent.error_iff e).1 herror
        rw [Workspace.compile, htext] at hcompile
        cases hcompile
    exact ⟨hnone, hcurrent.code hnone⟩

/-- With a registry in which one root is a statement like any other, it can be
deleted. Then there is no code, and what was there before stays on display while
edits and boards are refused. With the builtin blocks the deletion is refused as
well. -/
theorem begins_display_of_deleted :
    let registry := Registry.builtin.register { Library.setup with category := .statement }
    let start := ofWorkspace (.onDefaultBoard registry)
    let builtin := ofWorkspace (.onDefaultBoard .builtin)
    let actions := [.apply [.create "delay_ms" .origin], .apply [.delete ⟨1⟩],
      .apply [.create "number" .origin, .create "warp_drive" .origin], .setBoard "abacus"]
    Begins registry start ∧
      Display registry (start.workspace :: start.committed actions) (start.afterAll actions) ∧
      (start.afterAll actions).generationError = some (.missingRoot "root_setup") ∧
      (start.afterAll actions).code = start.code ∧ start.code ≠ LiveCode.initialText ∧
      (builtin.afterAll actions).generationError = none := by
  intro registry start builtin actions
  have hbegins : ∀ registry, Begins registry (ofWorkspace (.onDefaultBoard registry)) :=
    fun _ => .around Workspace.Begins.onDefaultBoard.reached
  have hbuiltin := begins_display (hbegins .builtin) actions
  exact ⟨hbegins registry, begins_display (hbegins registry) actions, by decide +kernel,
    by decide +kernel, by decide +kernel,
    (hbuiltin.always Workspace.hasRoots_builtin Registry.slotsOnce_builtin).1⟩

end Editor

end BlockSketch
