import Bentobox.Sdk.Expression

/-!
# Symbols and activity

The statements of a convert function after augmented assignments were rewritten, and
what the analyzers find out about its if statements: which base symbols the branches
have to be called with, and which symbols they return.

`resolve_symbol` keeps one list of definitions for each symbol and hands the list
itself to every symbol node, so a symbol that is loaded after its first definition
sees all definitions of the function, later ones included.

`analyze_block` takes everything that has a `body` for a block. So a ternary is a block
of its own, in which nothing is defined.
-/
namespace Bentobox.Sdk

/-- A symbol as the source spells it: `id`, or `entity[component].attributeName`. -/
inductive Symbol
  | name (id : String)
  | attr (entity component attributeName : String)
  deriving DecidableEq, Repr

/-- `base_symbol` -/
def Symbol.base : Symbol → String
  | name id => id
  | attr entity _ _ => entity

/-- A list of statements; `α` is the annotation of the if statements. An `elif` is an if
statement in the branch `orelse`. -/
inductive Block (α : Type)
  | done
  | assign (target : Symbol) (value : Expr Symbol) (rest : Block α)
  | ifelse (activity : α) (test : Expr Symbol) (body orelse rest : Block α)
  deriving DecidableEq

namespace Block
variable {α : Type}

/-- `preprocess_augassign` of `target op= value`. -/
def augAssign (op : ArithmeticOperator) (target : Symbol) (value : Expr Symbol) (rest : Block α) :
    Block α :=
  .assign target (.arithmetic op (.leaf target) value) rest

/-- The targets of all assignments, in the order of the source. -/
def stores : Block α → List Symbol
  | done => []
  | assign target _ rest => target :: rest.stores
  | ifelse _ _ body orelse rest => body.stores ++ (orelse.stores ++ rest.stores)

/-- The targets of the assignments outside of nested if statements. -/
def ownStores : Block α → List Symbol
  | done => []
  | assign target _ rest => target :: rest.ownStores
  | ifelse _ _ _ _ rest => rest.ownStores

/-- All symbols. -/
def symbols : Block α → List Symbol
  | done => []
  | assign target value rest => target :: value.leaves ++ rest.symbols
  | ifelse _ test body orelse rest =>
    test.leaves ++ (body.symbols ++ (orelse.symbols ++ rest.symbols))

/-! ## analyze_activity -/

/-- What `analyze_activity` notes about an if statement and `transform_ifelse` uses. -/
structure Activity where
  /-- the keys of `base_in_syms` -/
  args : List String
  /-- the keys of `output_syms` -/
  returns : List Symbol
  deriving DecidableEq, Repr

/-- A loaded symbol is an input if it has been defined, and not only in the block itself: `own`
are the definitions in the block, `defined` the ones so far and `all` the ones of the function. -/
def isInput (all own defined : List Symbol) (symbol : Symbol) : Bool :=
  symbol ∈ defined && all.count symbol ≠ own.count symbol

/-- The inputs among the symbols loaded outside of nested if statements and ternaries. The targets
of an assignment are defined before its value is looked at. -/
def ownInputs (all own : List Symbol) : List Symbol → Block α → List Symbol
  | _, done => []
  | defined, assign target value rest =>
    value.ownLeaves.filter (isInput all own (target :: defined)) ++
      rest.ownInputs all own (target :: defined)
  | defined, ifelse _ _ body orelse rest =>
    rest.ownInputs all own (orelse.stores ++ (body.stores ++ defined))

/-- The inputs of the if statements and ternaries in a block, each with those of its nested ones
first. -/
def inputSyms (all : List Symbol) : List Symbol → Block α → List Symbol
  | _, done => []
  | defined, assign target value rest =>
    value.ternaryLeaves.filter (isInput all [] (target :: defined)) ++
      rest.inputSyms all (target :: defined)
  | defined, ifelse _ test body orelse rest =>
    let own := body.ownStores ++ orelse.ownStores
    test.ternaryLeaves.filter (isInput all [] defined) ++ body.inputSyms all defined ++
      orelse.inputSyms all (body.stores ++ defined) ++
      (test.ownLeaves.filter (isInput all own defined) ++ body.ownInputs all own defined ++
        orelse.ownInputs all own (body.stores ++ defined)) ++
      rest.inputSyms all (orelse.stores ++ (body.stores ++ defined))

/-- The outputs of the if statements in a block, each with those of its nested ones first. -/
def outputSyms : Block α → List Symbol
  | done => []
  | assign _ _ rest => rest.outputSyms
  | ifelse _ _ body orelse rest =>
    body.outputSyms ++ orelse.outputSyms ++ (body.ownStores ++ orelse.ownStores) ++ rest.outputSyms

/-- The activity of a single if statement. -/
def activity (all defined : List Symbol) (ifelseAst : Block α) : Activity where
  args := ((ifelseAst.inputSyms all defined).map Symbol.base).eraseDups
  returns := ifelseAst.outputSyms.eraseDups

/-- Annotate the if statements of a block, in front of which `defined` have been defined, in a
function that defines `all`. -/
def annotate (all : List Symbol) : List Symbol → Block α → Block Activity
  | _, done => done
  | defined, assign target value rest =>
    assign target value (rest.annotate all (target :: defined))
  | defined, ifelse a test body orelse rest =>
    ifelse (activity all defined (ifelse a test body orelse done)) test
      (body.annotate all defined) (orelse.annotate all (body.stores ++ defined))
      (rest.annotate all (orelse.stores ++ (body.stores ++ defined)))

/-- `analyze_activity` -/
def analyzeActivity (b : Block α) : Block Activity := b.annotate b.stores []

/-! ## What an annotation provides -/

@[simp] theorem stores_annotate (all defined : List Symbol) (b : Block α) :
    (b.annotate all defined).stores = b.stores := by
  induction b generalizing defined with
  | done => rfl
  | assign target value rest ih => simp only [annotate, stores, ih]
  | ifelse a test body orelse rest hb ho hr => simp only [annotate, stores, hb, ho, hr]

@[simp] theorem symbols_annotate (all defined : List Symbol) (b : Block α) :
    (b.annotate all defined).symbols = b.symbols := by
  induction b generalizing defined with
  | done => rfl
  | assign target value rest ih => simp only [annotate, symbols, ih]
  | ifelse a test body orelse rest hb ho hr => simp only [annotate, symbols, hb, ho, hr]

theorem mem_outputSyms_or_ownStores_iff {b : Block α} {symbol : Symbol} :
    symbol ∈ b.outputSyms ∨ symbol ∈ b.ownStores ↔ symbol ∈ b.stores := by
  induction b with
  | done => simp [outputSyms, ownStores, stores]
  | assign target value rest ih =>
    simp only [outputSyms, ownStores, stores, List.mem_cons, ← ih]
    grind
  | ifelse a test body orelse rest hb ho hr =>
    simp only [outputSyms, ownStores, stores, List.mem_append, ← hb, ← ho, ← hr]
    grind

theorem stores_subset_symbols (b : Block α) : b.stores ⊆ b.symbols := by
  induction b with
  | done => exact fun _ h => h
  | assign target value rest ih =>
    intro symbol h
    simp only [stores, List.mem_cons] at h
    simp only [symbols, List.cons_append, List.mem_cons, List.mem_append]
    rcases h with rfl | h
    · exact .inl rfl
    · exact .inr (.inr (ih h))
  | ifelse a test body orelse rest hb ho hr =>
    intro symbol h
    simp only [stores, List.mem_append] at h
    simp only [symbols, List.mem_append]
    rcases h with h | h | h
    · exact .inr (.inl (hb h))
    · exact .inr (.inr (.inl (ho h)))
    · exact .inr (.inr (.inr (hr h)))

/-- Every if statement returns what its branches store. -/
def ReturnsStores : Block Activity → Prop
  | done => True
  | assign _ _ rest => rest.ReturnsStores
  | ifelse activity _ body orelse rest =>
    (∀ symbol, symbol ∈ activity.returns ↔ symbol ∈ body.stores ∨ symbol ∈ orelse.stores) ∧
      body.ReturnsStores ∧ orelse.ReturnsStores ∧ rest.ReturnsStores

/-- **The analysis finds all outputs.** -/
theorem returnsStores_annotate (all defined : List Symbol) (b : Block α) :
    (b.annotate all defined).ReturnsStores := by
  induction b generalizing defined with
  | done => trivial
  | assign target value rest ih => exact ih _
  | ifelse a test body orelse rest hb ho hr =>
    refine ⟨fun symbol => ?_, hb _, ho _, hr _⟩
    simp only [activity, List.mem_eraseDups, outputSyms, List.mem_append, stores_annotate,
      ← mem_outputSyms_or_ownStores_iff (b := body),
      ← mem_outputSyms_or_ownStores_iff (b := orelse), List.not_mem_nil, or_false]
    grind

end Block
end Bentobox.Sdk
