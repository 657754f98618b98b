import Bentobox.Sdk.Activities

/-!
# Definitions of symbols

`resolve_symbol` on assignments, uses and nested functions. Of a syntax tree there is what the walk
reads: the statements with the symbols that they load. Targets and parameters are labelled by the
walk as well, but no analyzer reads it.

The statements are numbered in the order of the walk.
-/
namespace Bentobox.Sdk.Reaching

/-! ## Statements -/

/-- A node that defines a symbol. The value of the assignment `n` is at `0` and its elements are
behind it; the function `n` is at `0` and its parameters are behind it. -/
inductive NodeRef
  | stmt (n index : ℕ)
  | lambdaArg (n : ℕ)
  deriving DecidableEq, Repr

/-- A symbol that is loaded, the block of its node, and the parameter of a lambda that it is. -/
structure Load where
  symbol : String
  block : ℕ
  lambdaArg : Option ℕ
  deriving DecidableEq, Repr

/-- A target, with its `symbol` if it has one. -/
structure Target where
  className : String
  symbol : Option String
  deriving DecidableEq, Repr

/-- The targets of an assignment, and the number of elements of its value. -/
inductive Targets
  /-- `target = … = value`, where `elts` is the number of elements of a list or a tuple -/
  | chain (target : Target) (targets : List Target) (elts : Option ℕ)
  /-- as many targets as elements of the value -/
  | unpack (targets : List Target)

/-- Statements with what they load. The loads `before` the body of a function are in its
arguments, those `after` it in its decorators and annotation; `otherArgs` are the parameters
outside of `args.args`. -/
inductive Stmts
  | done
  | assign (targets : Targets) (loads : List Load) (rest : Stmts)
  | expr (loads : List Load) (rest : Stmts)
  | functionDef (name : String) (args otherArgs : List String) (before : List Load) (body : Stmts)
    (after : List Load) (rest : Stmts)

/-- How many statements there are. -/
def Stmts.size : Stmts → ℕ
  | done => 0
  | assign _ _ rest | expr _ rest => rest.size + 1
  | functionDef _ _ _ _ body _ rest => body.size + 1 + rest.size

/-! ## analyze_assign -/

namespace Targets

/-- `tgts` -/
def tgts : Targets → List Target
  | chain target targets _ => target :: targets
  | unpack targets => targets

/-- `values` of the assignment with the number `n` -/
def values (n : ℕ) : Targets → List NodeRef
  | chain _ _ none => [.stmt n 0]
  | chain _ _ (some elts) => (List.range elts).map fun i => .stmt n (i + 1)
  | unpack targets => (List.range targets.length).map fun i => .stmt n (i + 1)

/-- The symbols of the targets that have one. -/
def symbols (targets : Targets) : List String := targets.tgts.filterMap Target.symbol

end Targets

/-! ## resolve_symbol -/

/-- A node of the tree, or a copy of one. -/
inductive Definition
  | node (n : NodeRef)
  | copy (n : NodeRef)
  deriving DecidableEq, Repr

def Definition.deepcopy : Definition → Definition
  | node n | copy n => copy n

/-- A frame of the symbol table: the definitions of every symbol, the latest one last. -/
abbrev Frame := String → List Definition

/-- `push_definition` for a node of the tree -/
def Frame.push (frame : Frame) (targetSym : String) (assignValue : NodeRef) : Frame :=
  fun symbol => if symbol = targetSym then frame symbol ++ [.node assignValue] else frame symbol

def Frame.pushAll (frame : Frame) (definitions : List (String × NodeRef)) : Frame :=
  definitions.foldl (fun frame d => frame.push d.1 d.2) frame

/-- The frame of a new scope. -/
def Frame.deepcopy (frame : Frame) : Frame := fun symbol => (frame symbol).map Definition.deepcopy

def Target.getSymbol (t : Target) : Except Ast.AttributeError String :=
  match t.symbol with
  | some symbol => .ok symbol
  | none => .error ⟨t.className, "symbol"⟩

/-- `zip(target_syms, assign.values)`, where `target_syms` has every symbol once. -/
def zipValues (targetSyms : List String) (values : List NodeRef) : List (String × NodeRef) :=
  targetSyms.eraseDups.zip values

/-- The parameters with their nodes. -/
def params (n : ℕ) (args : List String) : List (String × NodeRef) :=
  args.zip ((List.range args.length).map fun i => .stmt n (i + 1))

/-- What a function definition pushes. -/
def header (n : ℕ) (name : String) (args : List String) : List (String × NodeRef) :=
  (name, .stmt n 0) :: params n args

/-- A frame after statements, the first of which has the number `n`. -/
def Stmts.frameAfter (n : ℕ) (frame : Frame) : Stmts → Frame
  | done => frame
  | assign targets _ rest =>
    rest.frameAfter (n + 1) (frame.pushAll (zipValues targets.symbols (targets.values n)))
  | expr _ rest => rest.frameAfter (n + 1) frame
  | functionDef name args _ _ body _ rest =>
    rest.frameAfter (n + 1 + body.size) (frame.pushAll (header n name args))

/-- A load with its `definition` and its `definitions`. -/
structure Resolved where
  load : Load
  definition : Option Definition
  definitions : List Definition
  deriving DecidableEq, Repr

/-- Label a load. Its `definitions` are the list in the frame itself, which later ones are pushed
to, so it is that of the `last` frame of the scope. -/
def Load.resolve (frame last : Frame) (l : Load) : Resolved where
  load := l
  definition := (frame l.symbol).getLast?
  definitions := if frame l.symbol = [] then [] else last l.symbol

/-- `walk_resolve`, when the first statement has the number `n`. -/
def Stmts.walkResolve (n : ℕ) (frame last : Frame) :
    Stmts → Except Ast.AttributeError (List Resolved)
  | done => .ok []
  | assign targets loads rest => do
    let targetSyms ← targets.tgts.mapM Target.getSymbol
    let frame := frame.pushAll (zipValues targetSyms (targets.values n))
    return loads.map (Load.resolve frame last) ++ (← rest.walkResolve (n + 1) frame last)
  | expr loads rest => do
    return loads.map (Load.resolve frame last) ++ (← rest.walkResolve (n + 1) frame last)
  | functionDef name args _ before body after rest => do
    let frame := frame.pushAll (header n name args)
    let newFrame := frame.deepcopy
    let newLast := body.frameAfter (n + 1) newFrame
    let inner ← body.walkResolve (n + 1) newFrame newLast
    return before.map (Load.resolve newFrame newLast) ++ inner ++
      after.map (Load.resolve newLast newLast) ++
      (← rest.walkResolve (n + 1 + body.size) frame last)

def resolveSymbol (ast : Stmts) : Except Ast.AttributeError (List Resolved) :=
  ast.walkResolve 0 (fun _ => []) (ast.frameAfter 0 fun _ => [])

/-! ## analyze_activity -/

/-- What `analyze_block` notes at the nodes of a tree. -/
structure Labels where
  className : NodeRef → String
  block : NodeRef → ℕ

/-- `block` of a definition. The copies were made before `analyze_block`. -/
def Definition.block (labels : Labels) : Definition → Except Ast.AttributeError ℕ
  | node n => .ok (labels.block n)
  | copy n => .error ⟨labels.className n, "block"⟩

/-- Whether a load is an input of its block. -/
def Resolved.isInput (labels : Labels) (r : Resolved) : Except Ast.AttributeError Bool :=
  if r.definition.isSome then
    Ast.LabelledSymbol.anyElsewhere r.load.block (r.definitions.map (Definition.block labels))
  else .ok false

/-! ## Frames -/

/-- The symbols that an assignment pushes a definition for. -/
def Targets.pushed (targets : Targets) : List String :=
  (zipValues targets.symbols (targets.values 0)).map Prod.fst

/-- The symbols that statements push definitions for in their own scope. -/
def Stmts.pushes : Stmts → List String
  | .done => []
  | .assign targets _ rest => targets.pushed ++ rest.pushes
  | .expr _ rest => rest.pushes
  | .functionDef name args _ _ _ _ rest => name :: args ++ rest.pushes


theorem pushAll_apply (frame : Frame) (definitions : List (String × NodeRef)) (symbol : String) :
    frame.pushAll definitions symbol = frame symbol ++
      (definitions.filter fun d => d.1 = symbol).map fun d => .node d.2 := by
  induction definitions generalizing frame with
  | nil => exact (List.append_nil _).symm
  | cons d definitions ih =>
    rw [Frame.pushAll, List.foldl_cons, ← Frame.pushAll, ih, Frame.push, List.filter_cons]
    by_cases hd : symbol = d.1
    · rw [if_pos hd, if_pos (by simp [hd]), List.map_cons, List.append_assoc]
      rfl
    · rw [if_neg hd, if_neg (by simpa using Ne.symm hd)]

/-- A node of a statement in a range. -/
def NodeRef.Within (low high : ℕ) (m : NodeRef) : Prop := ∃ k i, m = .stmt k i ∧ low ≤ k ∧ k < high

theorem NodeRef.Within.mono {low high low' high' : ℕ} {m : NodeRef} (h : m.Within low high)
    (hlow : low' ≤ low) (hhigh : high ≤ high') : m.Within low' high' := by
  obtain ⟨k, i, rfl, hk⟩ := h
  exact ⟨k, i, rfl, by omega, by omega⟩

/-- The later frame has further nodes, of the symbols that were pushed. -/
def Frame.Extends (low high : ℕ) (pushed : List String) (frame frame' : Frame) : Prop :=
  ∀ symbol, ∃ ms : List NodeRef, frame' symbol = frame symbol ++ ms.map .node ∧
    (∀ m ∈ ms, m.Within low high) ∧ (ms = [] ↔ symbol ∉ pushed)

theorem extends_pushAll {low high : ℕ} {definitions : List (String × NodeRef)}
    (h : ∀ d ∈ definitions, d.2.Within low high) (frame : Frame) :
    frame.Extends low high (definitions.map Prod.fst) (frame.pushAll definitions) := by
  intro symbol
  refine ⟨(definitions.filter fun d => d.1 = symbol).map Prod.snd, ?_, ?_, ?_⟩
  · rw [pushAll_apply, List.map_map]
    rfl
  · intro m hm
    obtain ⟨d, hd, rfl⟩ := List.mem_map.mp hm
    exact h d (List.mem_of_mem_filter hd)
  · rw [List.map_eq_nil_iff, List.filter_eq_nil_iff]
    constructor
    · intro hall hmem
      obtain ⟨d, hd, rfl⟩ := List.mem_map.mp hmem
      exact hall d hd (by simp)
    · intro hmem d hd heq
      exact hmem (List.mem_map.mpr ⟨d, hd, by simpa using heq⟩)

theorem Frame.Extends.trans {low mid mid' high : ℕ} {ps qs : List String}
    {frame frame' frame'' : Frame} (h : frame.Extends low mid ps frame')
    (h' : frame'.Extends mid' high qs frame'') (hlow : low ≤ mid') (hhigh : mid ≤ high) :
    frame.Extends low high (ps ++ qs) frame'' := by
  intro symbol
  obtain ⟨ms, heq, hms, hnil⟩ := h symbol
  obtain ⟨ms', heq', hms', hnil'⟩ := h' symbol
  refine ⟨ms ++ ms', ?_, ?_, ?_⟩
  · rw [heq', heq, List.map_append, List.append_assoc]
  · intro m hm
    rcases List.mem_append.mp hm with hm | hm
    · exact (hms m hm).mono (Nat.le_refl low) hhigh
    · exact (hms' m hm).mono hlow (Nat.le_refl high)
  · rw [List.append_eq_nil_iff, hnil, hnil', List.mem_append, not_or]

theorem within_values {n : ℕ} {targets : Targets} {m : NodeRef} (h : m ∈ targets.values n) :
    m.Within n (n + 1) := by
  rcases targets with ⟨target, targets, _ | elts⟩ | targets
  · rw [List.mem_singleton.mp h]
    exact ⟨n, 0, rfl, Nat.le_refl n, Nat.lt_succ_self n⟩
  all_goals
    obtain ⟨i, -, rfl⟩ := List.mem_map.mp h
    exact ⟨n, i + 1, rfl, Nat.le_refl n, Nat.lt_succ_self n⟩

theorem within_header {n : ℕ} {name : String} {args : List String} {d : String × NodeRef}
    (h : d ∈ header n name args) : d.2.Within n (n + 1) := by
  rcases List.mem_cons.mp h with rfl | h
  · exact ⟨n, 0, rfl, Nat.le_refl n, Nat.lt_succ_self n⟩
  · obtain ⟨i, -, hi⟩ := List.mem_map.mp (List.of_mem_zip (a := d.1) (b := d.2) h).2
    exact ⟨n, i + 1, hi.symm, Nat.le_refl n, Nat.lt_succ_self n⟩

theorem Frame.Extends.refl (n : ℕ) (frame : Frame) : frame.Extends n n [] frame := by
  intro symbol
  refine ⟨[], (List.append_nil _).symm, ?_, ?_⟩
  · intro m hm
    cases hm
  · exact iff_of_true rfl List.not_mem_nil

theorem length_values (n : ℕ) (targets : Targets) :
    (targets.values n).length = (targets.values 0).length := by
  rcases targets with ⟨target, targets, _ | elts⟩ | targets
  · rfl
  all_goals simp only [Targets.values, List.length_map]

theorem map_fst_zip_congr {α : Type} {ms ns : List NodeRef} (h : ms.length = ns.length)
    (as : List α) : (as.zip ms).map Prod.fst = (as.zip ns).map Prod.fst := by
  induction as generalizing ms ns with
  | nil => rfl
  | cons a as ih =>
    cases ms with
    | nil => rw [List.length_eq_zero_iff.mp h.symm]
    | cons m ms =>
      cases ns with
      | nil => cases h
      | cons n ns => exact congrArg (a :: ·) (ih (Nat.succ.inj h))

theorem map_fst_zipValues (n : ℕ) (targets : Targets) :
    (zipValues targets.symbols (targets.values n)).map Prod.fst = targets.pushed :=
  map_fst_zip_congr (length_values n targets) _

theorem map_fst_header (n : ℕ) (name : String) (args : List String) :
    (header n name args).map Prod.fst = name :: args := by
  rw [header, List.map_cons, params, List.map_fst_zip (by simp)]

theorem extends_pushTargets (n : ℕ) (targets : Targets) (frame : Frame) :
    frame.Extends n (n + 1) targets.pushed
      (frame.pushAll (zipValues targets.symbols (targets.values n))) := by
  rw [← map_fst_zipValues n]
  refine extends_pushAll (fun d hd => ?_) frame
  exact within_values (List.of_mem_zip (a := d.1) (b := d.2) hd).2

theorem extends_pushHeader (n : ℕ) (name : String) (args : List String) (frame : Frame) :
    frame.Extends n (n + 1) (name :: args) (frame.pushAll (header n name args)) := by
  rw [← map_fst_header n]
  exact extends_pushAll (fun d hd => within_header hd) frame

/-- What statements push in their scope. -/
theorem extends_frameAfter (s : Stmts) (n : ℕ) (frame : Frame) :
    frame.Extends n (n + s.size) s.pushes (s.frameAfter n frame) := by
  induction s generalizing n frame with
  | done => exact .refl n frame
  | assign targets loads rest ih =>
    rw [Stmts.size, Nat.add_comm rest.size, ← Nat.add_assoc]
    exact (extends_pushTargets n targets frame).trans (ih (n + 1) _) (by omega) (by omega)
  | expr loads rest ih =>
    rw [Stmts.size, Nat.add_comm rest.size, ← Nat.add_assoc]
    have hrefl := Frame.Extends.refl n frame
    exact hrefl.trans (ih (n + 1) frame) (by omega) (by omega)
  | functionDef name args otherArgs before body after rest hbody ih =>
    rw [Stmts.size, Nat.add_comm body.size, ← Nat.add_assoc, ← Nat.add_assoc]
    exact (extends_pushHeader n name args frame).trans (ih (n + 1 + body.size) _) (by omega)
      (by omega)

end Bentobox.Sdk.Reaching
