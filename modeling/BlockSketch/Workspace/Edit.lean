import BlockSketch.Workspace.Check
import BlockSketch.Workspace.Connect
import BlockSketch.Workspace.Fields

/-!
Edits as data.  A session is a list of edits, some of which are refused; what
holds of every program holds along every such list.  Beside the edits that
change a program there are two questions that the same interface answers.
-/

namespace BlockSketch

/-- One edit of the graph, or a question about it. -/
inductive Edit
  | create (kind : String) (position : Position)
  | delete (block : BlockId)
  | setField (block : BlockId) (name : String) (value : FieldValue)
  | connect (parent : BlockId) (target : StatementTarget) (child : BlockId)
  | plug (parent : BlockId) (slot : String) (child : BlockId)
  | disconnect (block : BlockId)
  | options (block : BlockId) (name : String)
  | validate
deriving DecidableEq, Repr, Inhabited

inductive EditResult
  | done
  | created (block : BlockId)
  | offered (options : List FieldOption)
deriving DecidableEq, Repr, Inhabited

namespace Workspace

def perform (w : Workspace) : Edit → Except GraphError (Workspace × EditResult)
  | .create kind position => do
    let (w, id) ← w.create kind position
    return (w, .created id)
  | .delete block => do return (← w.delete block, .done)
  | .setField block name value => do return (← w.setField block name value, .done)
  | .connect parent target child => do return (← w.connectStatement parent target child, .done)
  | .plug parent slot child => do return (← w.connectValue parent slot child, .done)
  | .disconnect block => do return (← w.disconnect block, .done)
  | .options block name => do return (w, .offered (← w.options block name))
  | .validate => do
    w.validate
    return (w, .done)

/-- Carries out edits until one is refused. -/
def performAll (w : Workspace) : List Edit → Except GraphError (Workspace × List EditResult)
  | [] => .ok (w, [])
  | edit :: rest => do
    let (w, result) ← w.perform edit
    let (w, results) ← w.performAll rest
    return (w, result :: results)

/-! ### Sessions -/

inductive Action
  | edit (edit : Edit)
  | setBoard (board : String)
  | ensureRoots
deriving DecidableEq, Repr, Inhabited

/-- What a workspace is after an action: what it was, if the action is
refused. -/
def after (w : Workspace) : Action → Workspace
  | .edit edit =>
    match w.perform edit with
    | .ok (w, _) => w
    | .error _ => w
  | .setBoard board =>
    match w.setBoard board with
    | .ok w => w
    | .error _ => w
  | .ensureRoots => w.ensureRoots

def afterAll (w : Workspace) (actions : List Action) : Workspace :=
  actions.foldl after w

@[simp] theorem afterAll_nil (w : Workspace) : w.afterAll [] = w := rfl

@[simp] theorem afterAll_cons (w : Workspace) (a : Action) (rest : List Action) :
    w.afterAll (a :: rest) = (w.after a).afterAll rest := rfl

end Workspace

end BlockSketch
