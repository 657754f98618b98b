import Bentobox.Sdk.Branches
import Bentobox.Sdk.Transforms

/-!
# Python's runs of generated code

A name is local to the function that binds it anywhere in its body, and any other name is looked
up in the functions around, so a frame knows which names are its own. Frames are the cells of a
heap, and a function value keeps the frames that it was defined in.

Calls may nest only so deep. A run at a depth gives up with a `RecursionError` where a function
would be called below it.
-/
namespace Bentobox.Sdk

/-! ## Expressions -/

/-- The run of an expression by Python, given what it does at a leaf. A ternary evaluates one of
its operands. -/
def Expr.run {L : Type} {m : Type → Type} [Monad m] (py : Python)
    (lift : Except PythonError Object → m Object) (leafOp : L → m Object) : Expr L → m Object
  | .const val => pure (.native val)
  | .leaf l => leafOp l
  | .arithmetic op x y => do
    let x ← x.run py lift leafOp
    let y ← y.run py lift leafOp
    lift (py.arithmeticOp op x y)
  | .negative x => do
    let x ← x.run py lift leafOp
    lift (py.negativeOp x)
  | .positive x => do
    let x ← x.run py lift leafOp
    lift (py.positiveOp x)
  | .compare op x y => do
    let x ← x.run py lift leafOp
    let y ← y.run py lift leafOp
    lift (py.compareOp op x y)
  | .and x y => do
    let x ← x.run py lift leafOp
    if x.truth then y.run py lift leafOp else pure x
  | .or x y => do
    let x ← x.run py lift leafOp
    if x.truth then pure x else y.run py lift leafOp
  | .not x => do
    let x ← x.run py lift leafOp
    pure (.native (.bool (!x.truth)))
  | .unary fn x => do
    let x ← x.run py lift leafOp
    lift (Plotter.unary fn x)
  | .binary fn x y => do
    let x ← x.run py lift leafOp
    let y ← y.run py lift leafOp
    lift (Plotter.binary fn x y)
  | .switch condition true_ false_ => do
    let condition ← condition.run py lift leafOp
    let true_ ← true_.run py lift leafOp
    let false_ ← false_.run py lift leafOp
    lift (Plotter.switch condition true_ false_)
  | .ternary test body orelse => do
    let condition ← test.run py lift leafOp
    if condition.truth then body.run py lift leafOp else orelse.run py lift leafOp
  | .random low high => do
    let low ← low.run py lift leafOp
    let high ← high.run py lift leafOp
    lift (Plotter.random low high)

/-- The attribute of a component of the entity; `get_component` may fail. -/
def GraphEntity.attrRef (sc : Scope) (e : GraphEntity) (component attributeName : String) :
    Except PythonError AttributeRef :=
  if sc.componentName component ∈ e.components then
    .ok ⟨e.id, sc.componentName component, attributeName⟩
  else
    .error (.keyError ("Cannot get component: Component " ++ sc.componentName component ++
      " not attached for entity"))

namespace Gast

/-! ## Values and states -/

inductive PyValue
  | object (o : Object)
  | entity (e : GraphEntity) (outputs : ℕ)
  | function (args : List String) (body : List Stmt) (enclosing : List ℕ)
  | deepcopy
  | zip
  | tuple (elts : List Object)
  | zipped (items : List (List Object))
  | none

/-- The variables of a function that is being run. -/
structure PyFrame where
  isLocal : String → Bool
  vars : String → Option PyValue

def PyFrame.bind (f : PyFrame) (id : String) (v : PyValue) : PyFrame :=
  { f with vars := fun id' => if id' = id then some v else f.vars id' }

@[simp] theorem PyFrame.isLocal_bind (f : PyFrame) (id : String) (v : PyValue) :
    (f.bind id v).isLocal = f.isLocal := rfl

@[simp] theorem PyFrame.vars_bind_self (f : PyFrame) (id : String) (v : PyValue) :
    (f.bind id v).vars id = some v := if_pos rfl

theorem PyFrame.vars_bind_ne (f : PyFrame) {id id' : String} (h : id' ≠ id) (v : PyValue) :
    (f.bind id v).vars id' = f.vars id' := if_neg h

structure PyState where
  records : Records
  frames : Heap PyFrame

/-- What a run stops with. -/
inductive Raised
  | error (e : PythonError)
  | recursionError
  | importError

/-- A run of Python. -/
abbrev Run := Fallible PyState Raised

def raises {α : Type} (r : Except PythonError α) : Run α := Fallible.ofExcept (r.mapError .error)

/-- Work on the dictionaries of the plot. -/
def onRecords {α : Type} (m : Fallible Records PythonError α) : Run α := fun st =>
  ((m st.records).1.mapError .error, { st with records := (m st.records).2 })

def newFrame (f : PyFrame) : Run ℕ := fun st =>
  (.ok st.frames.next, { st with frames := st.frames.alloc f })

/-- Bind a name in a frame. -/
def bound (frames : Heap PyFrame) (frame : ℕ) (id : String) (v : PyValue) : Heap PyFrame :=
  frames.set frame ((frames.cell frame).bind id v)

@[simp] theorem next_bound (frames : Heap PyFrame) (frame : ℕ) (id : String) (v : PyValue) :
    (bound frames frame id v).next = frames.next := rfl

@[simp] theorem cell_bound_self (frames : Heap PyFrame) (frame : ℕ) (id : String) (v : PyValue) :
    (bound frames frame id v).cell frame = (frames.cell frame).bind id v := Heap.cell_set_self _ _ _

theorem cell_bound_ne (frames : Heap PyFrame) {frame i : ℕ} (h : i ≠ frame) (id : String)
    (v : PyValue) : (bound frames frame id v).cell i = frames.cell i := Heap.cell_set_ne _ h _

def bindName (frame : ℕ) (id : String) (v : PyValue) : Run Unit := fun st =>
  (.ok (), { st with frames := bound st.frames frame id v })

def bindNames (frame : ℕ) : List (String × PyValue) → Run Unit :=
  Fallible.forEach fun b => bindName frame b.1 b.2

/-- Look a name up in a function and those around it. -/
def lookup (frames : Heap PyFrame) : List ℕ → String → Except PythonError PyValue
  | [], id => if id = "zip" then .ok .zip else .error (.nameError id)
  | frame :: enclosing, id =>
    if (frames.cell frame).isLocal id then
      match (frames.cell frame).vars id with
      | some v => .ok v
      | none => .error (.nameError id)
    else lookup frames enclosing id

def loadName (scopes : List ℕ) (id : String) : Run PyValue := fun st =>
  ((lookup st.frames scopes id).mapError .error, st)

theorem loadName_of_ok {frames : Heap PyFrame} {scopes : List ℕ} {s : Records} {id : String}
    {v : PyValue} (h : lookup frames scopes id = .ok v) :
    loadName scopes id ⟨s, frames⟩ = (.ok v, ⟨s, frames⟩) := by
  rw [loadName, h]; rfl

theorem loadName_of_error {frames : Heap PyFrame} {scopes : List ℕ} {s : Records} {id : String}
    {e : PythonError} (h : lookup frames scopes id = .error e) :
    loadName scopes id ⟨s, frames⟩ = (.error (.error e), ⟨s, frames⟩) := by
  rw [loadName, h]; rfl

/-- The names that an assignment to a symbol binds. -/
def symbolNames : Symbol → List String
  | .name id => [id]
  | .attr _ _ _ => []

def Target.names : Target → List String
  | .symbol target => symbolNames target
  | .tuple elts => elts.flatMap symbolNames

mutual

/-- The names that a statement binds in the function that it belongs to. -/
def Stmt.binds : Stmt → List String
  | .assign targets _ => targets.flatMap Target.names
  | .augAssign target _ _ => symbolNames target
  | .ifelse _ _ body orelse => bindsAll body ++ bindsAll orelse
  | .functionDef name _ _ => [name]
  | .importFrom _ names => names
  | .ret _ => []

def bindsAll : List Stmt → List String
  | [] => []
  | s :: ss => s.binds ++ bindsAll ss

end

/-! ## Loads and stores -/

section
variable (sc : Scope)

/-- Load a symbol as an operand. -/
def load (scopes : List ℕ) : Symbol → Run Object
  | .name id => do
    match ← loadName scopes id with
    | .object o => pure o
    | _ => raises (.error .typeError)
  | .attr entity component attributeName => do
    match ← loadName scopes entity with
    | .entity e outputs =>
      let ref ← raises (e.attrRef sc component attributeName)
      onRecords (Records.on outputs (Recorder.read ref))
    | _ => raises (.error .typeError)

/-- Store an object to a symbol. -/
def store (scopes : List ℕ) (frame : ℕ) (o : Object) : Symbol → Run Unit
  | .name id => bindName frame id (.object o)
  | .attr entity component attributeName => do
    match ← loadName scopes entity with
    | .entity e outputs =>
      let ref ← raises (e.attrRef sc component attributeName)
      onRecords (Records.on outputs (Recorder.write ref o))
    | _ => raises (.error .typeError)

/-- `target, … = value, …` -/
def unpack (scopes : List ℕ) (frame : ℕ) : List Symbol → List Object → Run Unit
  | [], [] => pure ()
  | target :: targets, o :: os => do
    store sc scopes frame o target
    unpack scopes frame targets os
  | _, _ => raises (.error .valueError)

/-- Store a value to the target of an assignment. -/
def assign (scopes : List ℕ) (frame : ℕ) (v : PyValue) : Target → Run Unit
  | .symbol (.name id) => bindName frame id v
  | .symbol symbol =>
    match v with
    | .object o => store sc scopes frame o symbol
    | _ => raises (.error .typeError)
  | .tuple elts =>
    match v with
    | .tuple os =>
      if os.length = elts.length then unpack sc scopes frame elts os
      else raises (.error .valueError)
    | _ => raises (.error .typeError)

theorem assign_object (scopes : List ℕ) (frame : ℕ) (o : Object) (target : Symbol) :
    assign sc scopes frame (.object o) (.symbol target) = store sc scopes frame o target := by
  cases target <;> rfl

end

/-! ## Expressions of generated code -/

/-- The items that an iteration goes through. -/
def PyValue.items : PyValue → Except PythonError (List (List Object))
  | .zipped items => .ok items
  | _ => .error .typeError

def PyValue.truth : PyValue → Bool
  | .object o => o.truth
  | .tuple elts => !elts.isEmpty
  | .none => false
  | _ => true

/-- `zip` goes through what can be iterated over. -/
def zipValues : PyValue → PyValue → Except PythonError PyValue
  | .tuple xs, .tuple ys => .ok (.zipped (List.zipWith (fun x y => [x, y]) xs ys))
  | _, _ => .error .typeError

/-- `copy.deepcopy`; an entity has a dictionary that is copied, all else compares equal to what it
is a copy of and is not changed. -/
def copyValue : PyValue → Run PyValue
  | .entity e outputs => do
    let outputs ← onRecords (Records.deepcopy outputs)
    pure (.entity e outputs)
  | v => pure v

/-- The variables of a call: each parameter gets one argument. -/
def bindParams (params : List String) (args : List PyValue)
    (keywords : List (String × PyValue)) : Except PythonError (List (String × PyValue)) :=
  let given := params.zip args ++ keywords
  if args.length ≤ params.length ∧ (given.map Prod.fst).Perm params then .ok given
  else .error .typeError

/-- What a call of a value with positional and keyword arguments does. -/
abbrev Calls := PyValue → List PyValue → List (String × PyValue) → Run PyValue

section
variable (py : Python) (sc : Scope)

/-- The run of an expression of the convert function. -/
def runExpr (scopes : List ℕ) (e : Expr Symbol) : Run Object := e.run py raises (load sc scopes)

/-- One element of a list comprehension, which has a frame of its own. -/
def runElt (scopes : List ℕ) (elt : Expr Symbol) (target : List String) (frame : ℕ)
    (item : List Object) : Run Object := do
  if item.length = target.length then
    bindNames frame (target.zip (item.map .object))
    runExpr py sc (frame :: scopes) elt
  else raises (.error .valueError)

mutual

def Term.eval (call : Calls) (scopes : List ℕ) : Term → Run PyValue
  | .expr e => do
    let o ← runExpr py sc scopes e
    pure (.object o)
  | .name id => loadName scopes id
  | .tuple elts => do
    let os ← Fallible.mapEach (runExpr py sc scopes) elts
    pure (.tuple os)
  | .call func args keywords => do
    let f ← loadName scopes func
    let args ← evalAll call scopes args
    let keywords ← evalKeywords call scopes keywords
    call f args keywords
  | .listComp elt target iter => do
    let v ← iter.eval call scopes
    let items ← raises v.items
    let frame ← newFrame ⟨(· ∈ target), fun _ => Option.none⟩
    let os ← Fallible.mapEach (runElt py sc scopes elt target frame) items
    pure (.tuple os)

def evalAll (call : Calls) (scopes : List ℕ) : List Term → Run (List PyValue)
  | [] => pure []
  | t :: ts => do
    let v ← t.eval call scopes
    let vs ← evalAll call scopes ts
    pure (v :: vs)

def evalKeywords (call : Calls) (scopes : List ℕ) :
    List (String × Term) → Run (List (String × PyValue))
  | [] => pure []
  | (name, t) :: keywords => do
    let v ← t.eval call scopes
    let vs ← evalKeywords call scopes keywords
    pure ((name, v) :: vs)

end

/-! ## Statements -/

/-- What `from module import name` binds the name to. -/
def importName (module name : String) : Except Raised PyValue :=
  if module = "copy" ∧ name = "deepcopy" then .ok .deepcopy else .error .importError

/-- `target op= value` looks its target up once, and takes the in-place operator. -/
def runAugAssign (scopes : List ℕ) (frame : ℕ) (target : Symbol) (op : ArithmeticOperator)
    (value : Expr Symbol) : Run Unit :=
  match target with
  | .name id => do
    let old ← load sc scopes (.name id)
    let new ← runExpr py sc scopes value
    let o ← raises (py.inplaceOp op old new)
    bindName frame id (.object o)
  | .attr entity component attributeName => do
    match ← loadName scopes entity with
    | .entity e outputs =>
      let ref ← raises (e.attrRef sc component attributeName)
      let old ← onRecords (Records.on outputs (Recorder.read ref))
      let new ← runExpr py sc scopes value
      let o ← raises (py.inplaceOp op old new)
      onRecords (Records.on outputs (Recorder.write ref o))
    | _ => raises (.error .typeError)

mutual

/-- The run of a statement in a frame with those around it. A `return` stops the function. -/
def Stmt.exec (call : Calls) (frame : ℕ) (enclosing : List ℕ) : Stmt → Run (Option PyValue)
  | .assign targets value => do
    let v ← value.eval py sc call (frame :: enclosing)
    Fallible.forEach (assign sc (frame :: enclosing) frame v) targets
    pure Option.none
  | .augAssign target op value => do
    runAugAssign py sc (frame :: enclosing) frame target op value
    pure Option.none
  | .ifelse _ test body orelse => do
    let condition ← test.eval py sc call (frame :: enclosing)
    if condition.truth then execAll call frame enclosing body
    else execAll call frame enclosing orelse
  | .functionDef name args body => do
    bindName frame name (.function args body (frame :: enclosing))
    pure Option.none
  | .importFrom module names => do
    let vs ← Fallible.mapEach (fun name => Fallible.ofExcept (importName module name)) names
    bindNames frame (names.zip vs)
    pure Option.none
  | .ret value => do
    let v ← value.eval py sc call (frame :: enclosing)
    pure (some v)

def execAll (call : Calls) (frame : ℕ) (enclosing : List ℕ) : List Stmt → Run (Option PyValue)
  | [] => pure Option.none
  | s :: ss => do
    match ← s.exec call frame enclosing with
    | some v => pure (some v)
    | Option.none => execAll call frame enclosing ss

end

/-- The frame of a call. -/
def PyFrame.called (params : List String) (body : List Stmt) (given : List (String × PyValue)) :
    PyFrame :=
  ⟨(· ∈ params ++ bindsAll body), fun id => given.lookup id⟩

/-- A call at a depth. -/
def callAt : ℕ → Calls
  | _, .deepcopy, [v], [] => copyValue v
  | _, .zip, [x, y], [] => raises (zipValues x y)
  | 0, .function _ _ _, _, _ => Fallible.raise .recursionError
  | depth + 1, .function params body enclosing, args, keywords => do
    let given ← raises (bindParams params args keywords)
    let frame ← newFrame (.called params body given)
    let v ← execAll py sc (callAt depth) frame enclosing body
    pure (v.getD .none)
  | _, _, _, _ => raises (.error .typeError)

end
end Gast
end Bentobox.Sdk
