import Bentobox.Lib.OrderedDict
import Bentobox.Proto.Value

/-!
# Graphs and simulation definitions

The messages of `references.proto`, `graph.proto`, `ecs.proto` and `sim.proto`.
A node has the same shape for all its one-operand operations and for all its
two-operand ones, so the `oneof op` is split into these two families and the
operations that differ. A sub-message that is not set reads as the node without
an operation.
-/
namespace Bentobox

abbrev EntityId := UInt32

/-- A reference to an attribute; the field `attribute` of the message is `attributeName` here. -/
structure AttributeRef where
  entityId : EntityId
  component : String
  attributeName : String
  deriving DecidableEq, Repr

/-- Operations on `x`. -/
inductive UnaryOp
  | abs | floor | ceil | sin | arcsin | cos | arccos | tan | arctan | not
  deriving DecidableEq, Repr

/-- Operations on `x` and `y`. -/
inductive BinaryOp
  | add | sub | mul | div | max | min | pow | mod
  | and | or | eq | gt | lt | ge | le
  deriving DecidableEq, Repr

/-- The message `Node`. -/
inductive Node
  | notSet
  | const (heldValue : Value)
  | retrieve (retrieveAttr : AttributeRef)
  | mutate (mutateAttr : AttributeRef) (toNode : Node)
  | switch (conditionNode trueNode falseNode : Node)
  | unary (op : UnaryOp) (x : Node)
  | binary (op : BinaryOp) (x y : Node)
  | random (low high : Node)
  deriving DecidableEq, Repr

/-- `Node.Mutate` -/
structure Mutate where
  mutateAttr : AttributeRef
  toNode : Node
  deriving DecidableEq, Repr

structure Graph where
  inputs : List AttributeRef
  outputs : List Mutate
  deriving DecidableEq, Repr

structure EntityDef where
  id : UInt32
  components : List String
  deriving DecidableEq, Repr

structure ComponentDef where
  name : String
  schema : OrderedDict String DataType
  deriving DecidableEq

structure SystemDef where
  id : UInt32
  graph : Graph
  deriving DecidableEq, Repr

structure SimulationDef where
  name : String
  entities : List EntityDef
  components : List ComponentDef
  systems : List SystemDef
  initGraph : Graph
  deriving DecidableEq

/-- `ComponentDef()` -/
def ComponentDef.default : ComponentDef := ⟨"", ∅⟩

namespace Node

/-- The attributes of the retrieve nodes occurring in a node. -/
def retrieves : Node → List AttributeRef
  | notSet | const _ => []
  | retrieve r => [r]
  | mutate _ n => n.retrieves
  | switch c t f => c.retrieves ++ t.retrieves ++ f.retrieves
  | unary _ x => x.retrieves
  | binary _ x y => x.retrieves ++ y.retrieves
  | random l h => l.retrieves ++ h.retrieves

/-- No random operation occurs in the node. -/
def randomFree : Node → Bool
  | notSet | const _ | retrieve _ => true
  | mutate _ n => n.randomFree
  | switch c t f => c.randomFree && t.randomFree && f.randomFree
  | unary _ x => x.randomFree
  | binary _ x y => x.randomFree && y.randomFree
  | random _ _ => false

end Node
end Bentobox
