import Mathlib.Data.List.Basic

/-!
# Syntax trees of convert functions

The nodes of `gast` as far as the analyzers tell them apart, for functions of assignments,
expression statements and if statements, after `preprocess_augassign`. An expression of any other
class is a `node` with its child nodes in the order of the fields.

`analyze_block` gives every node the block that it stands in. A block is known by its number in
the order in which the blocks begin, so the blocks inside a block have the numbers after its own.
-/
namespace Bentobox.Sdk.Ast

/-- `lineno` and `col_offset` -/
structure Position where
  lineno : ℕ
  colOffset : ℕ
  deriving DecidableEq, Repr

/-- The `ctx` of a node. -/
inductive ExprContext
  | load | store | del | param
  deriving DecidableEq, Repr

/-- Expressions. A `node` is any other one, with children that are all there and stand in its own
context: comprehensions and named expressions, whose targets are stored to, and nodes with a child
that is `None`, such as an open slice, are left out. -/
inductive Expression
  | constant (text : String)
  | name (pos : Position) (id : String)
  | attr (pos : Position) (value : Expression) (attr : String)
  | subscript (pos : Position) (value slice : Expression)
  | ifExp (test body orelse : Expression)
  | lambda (args : List (Position × String)) (defaults : List Expression) (body : Expression)
  | list (elts : List Expression)
  | tuple (elts : List Expression)
  | node (className : String) (children : List Expression)

/-- A list of statements. An annotated assignment has one target and an annotation. -/
inductive Body
  | done
  | assign (targets : List Expression) ( annotation : Option Expression) (value : Expression)
    (rest : Body)
  | expr (value : Expression) (rest : Body)
  | ifelse (test : Expression) (body orelse rest : Body)

structure FunctionDef where
  name : String
  args : List (Position × String)
  body : Body

namespace Expression

def className : Expression → String
  | constant _ => "Constant"
  | name _ _ => "Name"
  | attr _ _ _ => "Attribute"
  | subscript _ _ _ => "Subscript"
  | ifExp _ _ _ => "IfExp"
  | lambda _ _ _ => "Lambda"
  | list _ => "List"
  | tuple _ => "Tuple"
  | node className _ => className

def isName : Expression → Bool
  | name _ _ => true
  | _ => false

/-- The elements of a list or a tuple. -/
def elts? : Expression → Option (List Expression)
  | list elts => some elts
  | tuple elts => some elts
  | _ => none

mutual

/-- How many of the nodes are blocks. What is below an attribute or a subscript belongs to one
symbol and is not counted. -/
def blocks : Expression → ℕ
  | constant _ | name _ _ | attr _ _ _ | subscript _ _ _ => 0
  | ifExp test body orelse => 1 + test.blocks + body.blocks + orelse.blocks
  | lambda _ defaults body => 1 + blocksAll defaults + body.blocks
  | list elts | tuple elts => blocksAll elts
  | node _ children => blocksAll children

def blocksAll : List Expression → ℕ
  | [] => 0
  | e :: es => e.blocks + blocksAll es

end

mutual

/-- The names in an expression that stands in a context, except those that a lambda binds. What
is taken an attribute or an element of is loaded. -/
def names (ctx : ExprContext) : Expression → List (ExprContext × String)
  | constant _ => []
  | name _ id => [(ctx, id)]
  | attr _ value _ => value.names .load
  | subscript _ value slice => value.names .load ++ slice.names .load
  | ifExp test body orelse => test.names .load ++ body.names .load ++ orelse.names .load
  | lambda args defaults body => namesAll .load defaults ++
      (body.names .load).filter fun n => n.2 ∉ args.map Prod.snd
  | list elts | tuple elts => namesAll ctx elts
  | node _ children => namesAll ctx children

def namesAll (ctx : ExprContext) : List Expression → List (ExprContext × String)
  | [] => []
  | e :: es => e.names ctx ++ namesAll ctx es

end
end Expression

/-- An if statement as a block: its number, and how many blocks it is with those inside it. -/
structure IfBlock where
  block : ℕ
  size : ℕ
  deriving DecidableEq, Repr

/-- The block is the if statement or inside of it. -/
def IfBlock.Contains (b : IfBlock) (block : ℕ) : Prop := b.block ≤ block ∧ block < b.block + b.size

instance (b : IfBlock) (block : ℕ) : Decidable (b.Contains block) :=
  inferInstanceAs (Decidable (_ ∧ _))

namespace Body

/-- How many of the nodes are blocks. -/
def blocks : Body → ℕ
  | done => 0
  | assign targets annotation value rest =>
    Expression.blocksAll targets + Expression.blocksAll annotation.toList + value.blocks +
      rest.blocks
  | expr value rest => value.blocks + rest.blocks
  | ifelse test body orelse rest =>
    1 + test.blocks + body.blocks + orelse.blocks + rest.blocks

/-- The number of blocks that an if statement is. -/
def ifSize (test : Expression) (body orelse : Body) : ℕ :=
  1 + test.blocks + body.blocks + orelse.blocks

/-- All if statements, when the next block gets the number `next`. -/
def ifBlocks (next : ℕ) : Body → List IfBlock
  | done => []
  | assign targets annotation value rest =>
    rest.ifBlocks (next + Expression.blocksAll targets +
      Expression.blocksAll annotation.toList + value.blocks)
  | expr value rest => rest.ifBlocks (next + value.blocks)
  | ifelse test body orelse rest =>
    ⟨next, ifSize test body orelse⟩ :: (body.ifBlocks (next + 1 + test.blocks) ++
      orelse.ifBlocks (next + 1 + test.blocks + body.blocks) ++
      rest.ifBlocks (next + ifSize test body orelse))

/-- The names in the statements of a body, each with the block of its statement. The annotation
of a local is not evaluated. -/
def names (block next : ℕ) : Body → List ((ExprContext × String) × ℕ)
  | done => []
  | assign targets annotation value rest =>
    ((Expression.namesAll .store targets ++ value.names .load).map fun n => (n, block)) ++
      rest.names block (next + Expression.blocksAll targets +
        Expression.blocksAll annotation.toList + value.blocks)
  | expr value rest =>
    ((value.names .load).map fun n => (n, block)) ++ rest.names block (next + value.blocks)
  | ifelse test body orelse rest =>
    ((test.names .load).map fun n => (n, next)) ++
      body.names next (next + 1 + test.blocks) ++
      orelse.names next (next + 1 + test.blocks + body.blocks) ++
      rest.names block (next + ifSize test body orelse)

end Body

namespace FunctionDef

/-- The if statements; the function itself is the block 0. -/
def ifBlocks (f : FunctionDef) : List IfBlock := f.body.ifBlocks 1

/-- The function binds the name by an assignment in the block. -/
def Assigns (f : FunctionDef) (id : String) (block : ℕ) : Prop :=
  ((.store, id), block) ∈ f.body.names 0 1

/-- The function loads the name in a statement of the block. -/
def Loads (f : FunctionDef) (id : String) (block : ℕ) : Prop :=
  ((.load, id), block) ∈ f.body.names 0 1

instance (f : FunctionDef) (id : String) (block : ℕ) : Decidable (f.Assigns id block) :=
  inferInstanceAs (Decidable (_ ∈ _))

instance (f : FunctionDef) (id : String) (block : ℕ) : Decidable (f.Loads id block) :=
  inferInstanceAs (Decidable (_ ∈ _))

end FunctionDef
end Bentobox.Sdk.Ast
