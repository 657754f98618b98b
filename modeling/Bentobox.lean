import Bentobox.Lib.OrderedDict
import Bentobox.Lib.Fallible
import Bentobox.Lib.Machine
import Bentobox.Lib.History
import Bentobox.Lib.Heap
import Bentobox.Lib.Interleaving
import Bentobox.Lib.Lockstep
import Bentobox.Lib.Log
import Bentobox.Lib.FreshMap
import Bentobox.Lib.Rose
import Bentobox.Proto.Graph
import Bentobox.Engine.Arithmetic
import Bentobox.Engine.UserValue
import Bentobox.Engine.Operations
import Bentobox.Engine.UserComponent
import Bentobox.Engine.ComponentStore
import Bentobox.Engine.Lookup
import Bentobox.Engine.Interpreter
import Bentobox.Engine.AttributeMap
import Bentobox.Engine.Simulation
import Bentobox.Engine.Construction
import Bentobox.Engine.Service
import Bentobox.Engine.Refinement
import Bentobox.Engine.Atomicity
import Bentobox.Engine.History
import Bentobox.Engine.Answers
import Bentobox.Engine.Conformity
import Bentobox.Engine.Identifiers
import Bentobox.Engine.Undefined
import Bentobox.Engine.Comparison
import Bentobox.Engine.Integers
import Bentobox.Engine.Denotation
import Bentobox.Engine.Settling
import Bentobox.Engine.Slots
import Bentobox.Engine.Queries
import Bentobox.Engine.Locality
import Bentobox.Engine.WellFormed
import Bentobox.Engine.WriteBack
import Bentobox.Engine.Commit
import Bentobox.Engine.Typing
import Bentobox.Engine.Isolation
import Bentobox.Engine.Resolution
import Bentobox.Engine.Exactness
import Bentobox.Engine.Frozen
import Bentobox.Engine.Reapplication
import Bentobox.Engine.TypeSafety
import Bentobox.Engine.Handlers
import Bentobox.Engine.Concurrency
import Bentobox.Engine.Serializability
import Bentobox.Engine.Pools
import Bentobox.Sdk.Recorder
import Bentobox.Sdk.Uses
import Bentobox.Sdk.Objects
import Bentobox.Sdk.Plotters
import Bentobox.Sdk.Simulations
import Bentobox.Sdk.Aliases
import Bentobox.Sdk.DeepCopies
import Bentobox.Sdk.SymbolicExecution
import Bentobox.Sdk.Keys
import Bentobox.Sdk.GraphNode
import Bentobox.Sdk.Lowering
import Bentobox.Sdk.RoundTrip
import Bentobox.Sdk.Arrays
import Bentobox.Sdk.IntegerStores
import Bentobox.Sdk.Expression
import Bentobox.Sdk.Traces
import Bentobox.Sdk.Homomorphism
import Bentobox.Sdk.Ternaries
import Bentobox.Sdk.Connectives
import Bentobox.Sdk.StraightLine
import Bentobox.Sdk.Activity
import Bentobox.Sdk.Branches
import Bentobox.Sdk.IfElse
import Bentobox.Sdk.Orders
import Bentobox.Sdk.Scoping
import Bentobox.Sdk.Binding
import Bentobox.Sdk.NameErrors
import Bentobox.Sdk.Interference
import Bentobox.Sdk.Marking
import Bentobox.Sdk.Draws
import Bentobox.Sdk.Syntax
import Bentobox.Sdk.Analyzers
import Bentobox.Sdk.Constants
import Bentobox.Sdk.Activities
import Bentobox.Sdk.Chains
import Bentobox.Sdk.Definitions
import Bentobox.Sdk.Targets
import Bentobox.Sdk.Reaching
import Bentobox.Sdk.Inputs
import Bentobox.Sdk.Client
import Bentobox.Sdk.Sim
import Bentobox.Sdk.Lifecycle
import Bentobox.Sdk.Meaning
import Bentobox.Sdk.Scripts
import Bentobox.Sdk.Transforms
import Bentobox.Sdk.Python
import Bentobox.Sdk.Preprocessing
import Bentobox.Sdk.Visibility
import Bentobox.Sdk.Calls
import Bentobox.Sdk.Transformed
import Bentobox.Sdk.Lookups
import Bentobox.Sdk.Programs
