import Bentobox.Sdk.Activity
import Bentobox.Sdk.Ternaries

/-!
# The passes on the syntax tree

The code that `compile_graph` writes out, as the passes of `preprocessors.py` and `transforms.py`
make it of the statements of a convert function. `Term` and `Stmt` are the nodes of `gast` that
occur in it.

The tree is written out as text and read again before it runs, so a `Name` whose id is the text of
a symbol is that symbol when it runs. The nodes are kept as they are read again.
-/
namespace Bentobox.Sdk.Gast

/-! ## Syntax -/

/-- Expressions. Those of the convert function are one node, the calls of plotter methods in them
included. -/
inductive Term
  | expr (e : Expr Symbol)
  | name (id : String)
  | tuple (elts : List (Expr Symbol))
  | call (func : String) (args : List Term) (keywords : List (String × Term))
  | listComp (elt : Expr Symbol) (target : List String) (iter : Term)

/-- What an assignment stores to. -/
inductive Target
  | symbol (symbol : Symbol)
  | tuple (elts : List Symbol)

/-- Statements; an if statement has what `analyze_activity` notes about it. -/
inductive Stmt
  | assign (targets : List Target) (value : Term)
  | augAssign (target : Symbol) (op : ArithmeticOperator) (value : Expr Symbol)
  | ifelse (activity : Option Block.Activity) (test : Term) (body orelse : List Stmt)
  | functionDef (name : String) (args : List String) (body : List Stmt)
  | importFrom (module : String) (names : List String)
  | ret (value : Term)

/-! ## Building nodes -/

/-- `name_ast` of an identifier -/
def nameAst (name : String) : Term := .name name

/-- `import_from_ast` -/
def importFromAst (module : String) (names : List String) : Stmt := .importFrom module names

/-- `assign_ast` of a single value -/
def assignAst (targets : List Symbol) (value : Term) (multiAssign forceTuple : Bool) : Stmt :=
  .assign (if (2 ≤ targets.length || forceTuple) && !multiAssign then [.tuple targets]
    else targets.map .symbol) value

/-- `call_func_ast`, with positional or with keyword arguments -/
def callFuncAst (fnName : String) (args : List Term ⊕ List (String × Term)) : Term :=
  match args with
  | .inl args => .call fnName args []
  | .inr keywords => .call fnName [] keywords

/-- `call_func_ast` of `switch` with the plotter as `attr_parent` -/
def callSwitchAst (condition true_ false_ : Expr Symbol) : Expr Symbol :=
  .switch condition true_ false_

/-- `wrap_func_ast` -/
def wrapFuncAst (name : String) (args : List String) (block : List Stmt) (returns : List Symbol)
    (returnTuple : Bool) : Stmt :=
  .functionDef name args <| block ++
    match returns with
    | [] => []
    | r :: rs =>
      [.ret (if 1 < (r :: rs).length || returnTuple then .tuple ((r :: rs).map .leaf)
        else .expr (.leaf r))]

/-- `wrap_block_ast` -/
def wrapBlockAst (block : List Stmt) : Stmt := .ifelse none (.expr (.const (.bool true))) block []

/-! ## Passes -/

mutual

/-- Apply a function to the expressions of the convert function in an expression. -/
def Term.visit (onExpr : Expr Symbol → Expr Symbol) : Term → Term
  | .expr e => .expr (onExpr e)
  | .name id => .name id
  | .tuple elts => .tuple (elts.map onExpr)
  | .call func args keywords => .call func (visitTerms onExpr args) (visitKeywords onExpr keywords)
  | .listComp elt target iter => .listComp (onExpr elt) target (iter.visit onExpr)

def visitTerms (onExpr : Expr Symbol → Expr Symbol) : List Term → List Term
  | [] => []
  | t :: ts => t.visit onExpr :: visitTerms onExpr ts

def visitKeywords (onExpr : Expr Symbol → Expr Symbol) :
    List (String × Term) → List (String × Term)
  | [] => []
  | (name, t) :: keywords => (name, t.visit onExpr) :: visitKeywords onExpr keywords

end

mutual

/-- `FuncASTTransform.visit`: the child nodes first, and then the node itself. -/
def Stmt.visit (onExpr : Expr Symbol → Expr Symbol) (onStmt : Stmt → Stmt) : Stmt → Stmt
  | .assign targets value => onStmt (.assign targets (value.visit onExpr))
  | .augAssign target op value => onStmt (.augAssign target op (onExpr value))
  | .ifelse activity test body orelse =>
    onStmt (.ifelse activity (test.visit onExpr) (visitStmts onExpr onStmt body)
      (visitStmts onExpr onStmt orelse))
  | .functionDef name args body => onStmt (.functionDef name args (visitStmts onExpr onStmt body))
  | .importFrom module names => onStmt (.importFrom module names)
  | .ret value => onStmt (.ret (value.visit onExpr))

def visitStmts (onExpr : Expr Symbol → Expr Symbol) (onStmt : Stmt → Stmt) :
    List Stmt → List Stmt
  | [] => []
  | s :: ss => s.visit onExpr onStmt :: visitStmts onExpr onStmt ss

end

/-- `do_preprocess`: an augmented assignment loads from its target and stores to it. -/
def doPreprocess : Stmt → Stmt
  | .augAssign target op value =>
    .assign [.symbol target] (.expr (.arithmetic op (.leaf target) value))
  | s => s

/-- `preprocess_augassign` -/
def preprocessAugassign : List Stmt → List Stmt := visitStmts id doPreprocess

/-- `transform_ternary` -/
def transformTernary : List Stmt → List Stmt := visitStmts Expr.transformTernary id

/-- `[g.switch(__if_condition, if_out, else_out) for if_out, else_out in zip(…)]` -/
def switchOutputsAst : Term :=
  .listComp
    (callSwitchAst (.leaf (.name "__if_condition")) (.leaf (.name "if_out"))
      (.leaf (.name "else_out")))
    ["if_out", "else_out"]
    (callFuncAst "zip" (.inl [nameAst "__if_outputs", nameAst "__else_outputs"]))

/-- The statements that an if statement becomes. -/
def ifelseBlock (activity : Block.Activity) (test : Term) (body orelse : List Stmt) : List Stmt :=
  let callArgs := activity.args.map fun a => (a, callFuncAst "deepcopy" (.inl [nameAst a]))
  [wrapFuncAst "__if_block" activity.args body activity.returns true,
    wrapFuncAst "__else_block" activity.args orelse activity.returns true,
    importFromAst "copy" ["deepcopy"],
    assignAst [.name "__if_condition"] (callFuncAst "deepcopy" (.inl [test])) false false,
    assignAst [.name "__if_outputs"] (callFuncAst "__if_block" (.inr callArgs)) false false,
    assignAst [.name "__else_outputs"] (callFuncAst "__else_block" (.inr callArgs)) false false,
    assignAst activity.returns switchOutputsAst false true]

/-- `do_transform` of `transform_ifelse` -/
def doTransform : Stmt → Stmt
  | .ifelse (some activity) test body orelse => wrapBlockAst (ifelseBlock activity test body orelse)
  | s => s

/-- `transform_ifelse` -/
def transformIfelse : List Stmt → List Stmt := visitStmts id doTransform

/-! ## Convert functions -/

/-- The statements of a convert function as they are parsed. -/
inductive Source
  | done
  | assign (target : Symbol) (value : Expr Symbol) (rest : Source)
  | augAssign (target : Symbol) (op : ArithmeticOperator) (value : Expr Symbol) (rest : Source)
  | ifelse (test : Expr Symbol) (body orelse rest : Source)

namespace Source

/-- The nodes of the statements. -/
def stmts : Source → List Stmt
  | done => []
  | assign target value rest => .assign [.symbol target] (.expr value) :: rest.stmts
  | augAssign target op value rest => .augAssign target op value :: rest.stmts
  | ifelse test body orelse rest => .ifelse none (.expr test) body.stmts orelse.stmts :: rest.stmts

/-- The statements that the analyzers get to see. -/
def block : Source → Block Unit
  | done => .done
  | assign target value rest => .assign target value rest.block
  | augAssign target op value rest => Block.augAssign op target value rest.block
  | ifelse test body orelse rest => .ifelse () test body.block orelse.block rest.block

end Source

/-- The nodes of a block, with what is noted about its if statements. -/
def stmtsOf {α : Type} (note : α → Option Block.Activity) : Block α → List Stmt
  | .done => []
  | .assign target value rest => .assign [.symbol target] (.expr value) :: stmtsOf note rest
  | .ifelse a test body orelse rest =>
    .ifelse (note a) (.expr test) (stmtsOf note body) (stmtsOf note orelse) :: stmtsOf note rest

/-- The nodes of a convert function after `analyze_activity`. -/
abbrev analyzed : Block Block.Activity → List Stmt := stmtsOf some

/-- The statements of `build_graph`. -/
def generate (b : Block Block.Activity) : List Stmt :=
  transformIfelse (transformTernary (analyzed b))

/-- `preprocess_augassign` leaves the nodes of the block that is analyzed. -/
theorem preprocessAugassign_stmts (source : Source) :
    preprocessAugassign source.stmts = stmtsOf (fun _ => none) source.block := by
  induction source with
  | done => rfl
  | assign target value rest ih | augAssign target op value rest ih =>
    exact congrArg (_ :: ·) ih
  | ifelse test body orelse rest hb ho hr =>
    have hnode : Stmt.visit id doPreprocess (.ifelse none (.expr test) body.stmts orelse.stmts) =
        .ifelse none (.expr test) (preprocessAugassign body.stmts)
          (preprocessAugassign orelse.stmts) := rfl
    exact congrArg₂ List.cons (by rw [hnode, hb, ho]) hr

/-! ## The generated code -/

@[simp] theorem generate_done : generate .done = [] := rfl

@[simp] theorem generate_assign (target : Symbol) (value : Expr Symbol)
    (rest : Block Block.Activity) : generate (.assign target value rest) =
      .assign [.symbol target] (.expr value.transformTernary) :: generate rest := rfl

@[simp] theorem generate_ifelse (activity : Block.Activity) (test : Expr Symbol)
    (body orelse rest : Block Block.Activity) : generate (.ifelse activity test body orelse rest) =
      wrapBlockAst (ifelseBlock activity (.expr test.transformTernary) (generate body)
        (generate orelse)) :: generate rest := rfl

end Bentobox.Sdk.Gast
