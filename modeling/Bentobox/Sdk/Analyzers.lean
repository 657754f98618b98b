import Bentobox.Lib.OrderedDict
import Bentobox.Sdk.Syntax

/-!
# The analyzers of symbols

`analyze_symbol`, `analyze_assign`, `resolve_symbol`, `analyze_block` and `analyze_activity` in
the order of `compile_graph`. They label the nodes of the tree, and what a pass reads of the
labels of the earlier ones is an argument of it here. The text of a slice comes from `unparse`.

`gast.walk` visits the symbols in another order than the recursive walks do. Lists of symbols are
sorted by position, so this only concerns the order of the keys of a dictionary, and which of two
errors comes first.
-/
namespace Bentobox.Sdk.Ast

/-- A node lacks an attribute that an analyzer reads. -/
structure AttributeError where
  className : String
  attributeName : String
  deriving DecidableEq, Repr

/-- A node with `is_symbol`. -/
structure SymbolNode where
  pos : Position
  symbol : String
  baseSymbol : String
  ctx : ExprContext
  block : ℕ
  deriving DecidableEq, Repr

section
variable (unparse : Expression → String)

/-! ## analyze_symbol and analyze_block -/

namespace Expression

mutual

/-- The base and the text of the symbol that a chain of attributes and subscripts around the
expression gets. Every name below the chain labels its top, unless it is itself a slice, so it is
the last one that counts. -/
def qualified : Expression → Option (String × String)
  | constant _ => none
  | name _ id => some (id, id)
  | attr _ value field => value.qualified.map fun s => (s.1, s.2 ++ "." ++ field)
  | subscript _ value slice =>
    ((if slice.isName then none else slice.qualified) <|> value.qualified).map fun s =>
      (s.1, s.2 ++ "[" ++ unparse slice ++ "]")
  | ifExp test body orelse => orelse.qualified <|> body.qualified <|> test.qualified
  | lambda args defaults body =>
    body.qualified <|> qualifiedAll defaults <|> args.getLast?.map fun arg => (arg.2, arg.2)
  | list elts | tuple elts => qualifiedAll elts
  | node _ children => qualifiedAll children

def qualifiedAll : List Expression → Option (String × String)
  | [] => none
  | e :: es => qualifiedAll es <|> e.qualified

end

mutual

/-- The symbols of an expression that stands in a context and a block, when the next block gets
the number `next`. -/
def symbols (ctx : ExprContext) (block next : ℕ) : Expression → List SymbolNode
  | constant _ => []
  | name pos id => [⟨pos, id, id, ctx, block⟩]
  | attr pos value field => (((attr pos value field).qualified unparse).map fun s =>
      ⟨pos, s.2, s.1, ctx, block⟩).toList
  | subscript pos value slice => (((subscript pos value slice).qualified unparse).map fun s =>
      ⟨pos, s.2, s.1, ctx, block⟩).toList
  | ifExp test body orelse =>
    test.symbols .load next (next + 1) ++ body.symbols .load next (next + 1 + test.blocks) ++
      orelse.symbols .load next (next + 1 + test.blocks + body.blocks)
  | lambda args defaults body =>
    args.map (fun arg => ⟨arg.1, arg.2, arg.2, .param, next⟩) ++
      symbolsAll .load next (next + 1) defaults ++
      body.symbols .load next (next + 1 + blocksAll defaults)
  | list elts | tuple elts => symbolsAll ctx block next elts
  | node _ children => symbolsAll ctx block next children

def symbolsAll (ctx : ExprContext) (block next : ℕ) : List Expression → List SymbolNode
  | [] => []
  | e :: es => e.symbols ctx block next ++ symbolsAll ctx block (next + e.blocks) es

end

/-! ## analyze_assign -/

/-- `tgts` of an assignment -/
def tgts (targets : List Expression) : List Expression :=
  match targets with
  | target :: _ => target.elts?.getD targets
  | [] => []

/-- `values` of an assignment -/
def values (value : Expression) : List Expression := value.elts?.getD [value]

/-- `symbol` of a target -/
def targetSymbol (target : Expression) : Except AttributeError String :=
  match target with
  | name _ id => .ok id
  | attr _ _ _ | subscript _ _ _ =>
    match target.qualified unparse with
    | some s => .ok s.2
    | none => .error ⟨target.className, "symbol"⟩
  | _ => .error ⟨target.className, "symbol"⟩

end Expression

/-! ## resolve_symbol -/

/-- What a symbol is defined by: a value, which stands in a block, or the name or an argument of
the function. -/
inductive Definition
  | value (e : Expression) (block : ℕ)
  | function (name : String)
  | argument (id : String)

/-- The `block` of a definition. The frame of the function holds copies of its name and its
arguments that were made before `analyze_block`. -/
def Definition.block : Definition → Except AttributeError ℕ
  | value _ block => .ok block
  | function _ => .error ⟨"FunctionDef", "block"⟩
  | argument _ => .error ⟨"Name", "block"⟩

/-- What `walk_resolve` comes by. -/
inductive Visit
  | define (symbol : String) (definition : Definition)
  | use (node : SymbolNode)

/-- The definitions that an assignment in a block pushes. Targets of the same symbol are one, and
there are no more definitions than values. -/
def definitions (block : ℕ) (targets : List Expression) (value : Expression) :
    Except AttributeError (List Visit) := do
  let targetSyms ← (Expression.tgts targets).mapM (Expression.targetSymbol unparse)
  return (targetSyms.eraseDups.zip value.values).map fun p => .define p.1 (.value p.2 block)

/-- The order of `walk_resolve`. -/
def Body.visits (block next : ℕ) : Body → Except AttributeError (List Visit)
  | done => .ok []
  | assign targets annotation value rest => do
    let defines ← definitions unparse block targets value
    let next₁ := next + Expression.blocksAll targets
    let next₂ := next₁ + Expression.blocksAll annotation.toList
    let uses := Expression.symbolsAll unparse .store block next targets ++
      Expression.symbolsAll unparse .load block next₁ annotation.toList ++
      value.symbols unparse .load block next₂
    return defines ++ uses.map .use ++ (← rest.visits block (next₂ + value.blocks))
  | expr value rest => do
    return (value.symbols unparse .load block next).map .use ++
      (← rest.visits block (next + value.blocks))
  | ifelse test body orelse rest => do
    let next₁ := next + 1 + test.blocks
    return (test.symbols unparse .load next (next + 1)).map .use ++ (← body.visits next next₁) ++
      (← orelse.visits next (next₁ + body.blocks)) ++
      (← rest.visits block (next + ifSize test body orelse))

end

/-- A frame of the symbol table: the definitions of every symbol, the latest one last. -/
abbrev SymbolFrame := String → List Definition

/-- `push_definition` -/
def SymbolFrame.push (frame : SymbolFrame) (targetSym : String) (assignValue : Definition) :
    SymbolFrame :=
  fun symbol => if symbol = targetSym then frame symbol ++ [assignValue] else frame symbol

/-- A symbol with its latest definition. Its `definitions` are the list in the frame itself, where
later ones are pushed to as well. -/
structure Resolved where
  node : SymbolNode
  definition : Option Definition

/-- `walk_resolve` -/
def resolve : SymbolFrame → List Visit → List Resolved × SymbolFrame
  | frame, [] => ([], frame)
  | frame, .define symbol definition :: visits => resolve (frame.push symbol definition) visits
  | frame, .use node :: visits =>
    (⟨node, (frame node.symbol).getLast?⟩ :: (resolve frame visits).1, (resolve frame visits).2)

/-- The frame of a function before its body. -/
def FunctionDef.frame (f : FunctionDef) : SymbolFrame :=
  f.args.foldl (fun frame arg => frame.push arg.2 (.argument arg.2))
    (SymbolFrame.push (fun _ => []) f.name (.function f.name))

/-! ## analyze_activity -/

/-- `any(sym_def.block != block for sym_def in definitions)` -/
def anyElsewhere (block : ℕ) : List Definition → Except AttributeError Bool
  | [] => .ok false
  | definition :: definitions => do
    if (← definition.block) = block then anyElsewhere block definitions else return true

/-- What a symbol is to its block. -/
inductive Role
  | input | output
  deriving DecidableEq

def Resolved.role (frame : SymbolFrame) (r : Resolved) : Except AttributeError (Option Role) :=
  match r.node.ctx with
  | .load =>
    match r.definition with
    | none => .ok none
    | some _ => do
      return if ← anyElsewhere r.node.block (frame r.node.symbol) then some .input else none
  | .store | .del => .ok (some .output)
  | .param => .ok none

/-- The symbols with their roles. -/
def roles (frame : SymbolFrame) : List Resolved →
    Except AttributeError (List (SymbolNode × Option Role))
  | [] => .ok []
  | r :: rs => do
    let role ← r.role frame
    return (r.node, role) :: (← roles frame rs)

/-- What `analyze_activity` notes at a block. -/
structure BlockActivity where
  inputSyms : OrderedDict String (List SymbolNode)
  outputSyms : OrderedDict String (List SymbolNode)
  baseInSyms : OrderedDict String (List SymbolNode)
  baseOutSyms : OrderedDict String (List SymbolNode)

namespace BlockActivity

def empty : BlockActivity := ⟨∅, ∅, ∅, ∅⟩

/-- `add_symbol_ref` -/
def addSymbolRef (symDict : OrderedDict String (List SymbolNode)) (key : String)
    (symbol : SymbolNode) : OrderedDict String (List SymbolNode) :=
  symDict.insert key (((symDict.get? key).getD [] ++ [symbol]).mergeSort fun a b =>
    a.pos.lineno < b.pos.lineno ∨ a.pos.lineno = b.pos.lineno ∧ a.pos.colOffset ≤ b.pos.colOffset)

/-- Note a symbol. -/
def add (a : BlockActivity) (symbol : SymbolNode) : Option Role → BlockActivity
  | some .input => { a with
      inputSyms := addSymbolRef a.inputSyms symbol.symbol symbol
      baseInSyms := addSymbolRef a.baseInSyms symbol.baseSymbol symbol }
  | some .output => { a with
      outputSyms := addSymbolRef a.outputSyms symbol.symbol symbol
      baseOutSyms := addSymbolRef a.baseOutSyms symbol.baseSymbol symbol }
  | none => a

/-- `update` of all dictionaries -/
def update (a b : BlockActivity) : BlockActivity where
  inputSyms := a.inputSyms.update b.inputSyms
  outputSyms := a.outputSyms.update b.outputSyms
  baseInSyms := a.baseInSyms.update b.baseInSyms
  baseOutSyms := a.baseOutSyms.update b.baseOutSyms

end BlockActivity

/-- The activity of the symbols that stand in a block itself. -/
def ownActivity (symbols : List (SymbolNode × Option Role)) (block : ℕ) : BlockActivity :=
  (symbols.filter fun s => s.1.block = block).foldl (fun a s => a.add s.1 s.2) .empty

section
variable (own : ℕ → BlockActivity)

namespace Expression

mutual

/-- `propagate_activity` of an expression whose first block has the number `next`. -/
def activity (next : ℕ) : Expression → BlockActivity
  | constant _ | name _ _ | attr _ _ _ | subscript _ _ _ => .empty
  | ifExp test body orelse =>
    (((test.activity (next + 1)).update (body.activity (next + 1 + test.blocks))).update
      (orelse.activity (next + 1 + test.blocks + body.blocks))).update (own next)
  | lambda _ defaults body =>
    ((activityAll (next + 1) defaults).update
      (body.activity (next + 1 + blocksAll defaults))).update (own next)
  | list elts | tuple elts => activityAll next elts
  | node _ children => activityAll next children

def activityAll (next : ℕ) : List Expression → BlockActivity
  | [] => .empty
  | e :: es => (e.activity next).update (activityAll (next + e.blocks) es)

end
end Expression

namespace Body

/-- `propagate_activity` of statements whose first block has the number `next`. -/
def activity (next : ℕ) : Body → BlockActivity
  | done => .empty
  | assign targets annotation value rest =>
    let next₁ := next + Expression.blocksAll targets
    let next₂ := next₁ + Expression.blocksAll annotation.toList
    (((Expression.activityAll own next targets).update
      (Expression.activityAll own next₁ annotation.toList)).update
      (value.activity own next₂)).update (rest.activity (next₂ + value.blocks))
  | expr value rest => (value.activity own next).update (rest.activity (next + value.blocks))
  | ifelse test body orelse rest =>
    let next₁ := next + 1 + test.blocks
    ((((test.activity own (next + 1)).update (body.activity next₁)).update
      (orelse.activity (next₁ + body.blocks))).update (own next)).update
      (rest.activity (next + ifSize test body orelse))

/-- What is noted at an if statement. -/
def ifActivity (next : ℕ) (test : Expression) (body orelse : Body) : BlockActivity :=
  (((test.activity own (next + 1)).update (body.activity own (next + 1 + test.blocks))).update
    (orelse.activity own (next + 1 + test.blocks + body.blocks))).update (own next)

/-- All if statements with what is noted at them. -/
def ifActivities (next : ℕ) : Body → List (IfBlock × BlockActivity)
  | done => []
  | assign targets annotation value rest =>
    rest.ifActivities (next + Expression.blocksAll targets +
      Expression.blocksAll annotation.toList + value.blocks)
  | expr value rest => rest.ifActivities (next + value.blocks)
  | ifelse test body orelse rest =>
    (⟨next, ifSize test body orelse⟩, ifActivity own next test body orelse) ::
      (body.ifActivities (next + 1 + test.blocks) ++
        orelse.ifActivities (next + 1 + test.blocks + body.blocks) ++
        rest.ifActivities (next + ifSize test body orelse))

end Body
end

/-- `analyze_activity` after the passes that it requires: the if statements of a function with
what is noted at them. -/
def FunctionDef.analyzeActivity (unparse : Expression → String) (f : FunctionDef) :
    Except AttributeError (List (IfBlock × BlockActivity)) := do
  let visits ← f.body.visits unparse 0 1
  let resolved := resolve f.frame visits
  let symbols ← roles resolved.2 resolved.1
  return f.body.ifActivities (ownActivity symbols) 1

end Bentobox.Sdk.Ast
