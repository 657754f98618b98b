import Bentobox.Sdk.Python

/-!
# Augmented assignments

`preprocess_augassign` makes `target = target op value` of `target op= value`. Python looks the
target up once in the one and twice in the other, with the operand evaluated in between, and takes
the in-place overload in the one where it takes the operator in the other.
-/
namespace Bentobox.Sdk.Gast

variable {py : Python} {sc : Scope}

/-! ## Expressions bind nothing -/

theorem keeps_loadName {frames : Heap PyFrame} (scopes : List ℕ) (id : String) :
    Fallible.Keeps (fun st : PyState => st.frames = frames) (loadName scopes id) := fun _ h => h

theorem keeps_raises {α : Type} {frames : Heap PyFrame} (r : Except PythonError α) :
    Fallible.Keeps (fun st : PyState => st.frames = frames) (raises r) :=
  Fallible.Keeps.ofExcept _

theorem keeps_onRecords {α : Type} {frames : Heap PyFrame} (m : Fallible Records PythonError α) :
    Fallible.Keeps (fun st : PyState => st.frames = frames) (onRecords m) := fun _ h => h

theorem keeps_load {frames : Heap PyFrame} (scopes : List ℕ) (symbol : Symbol) :
    Fallible.Keeps (fun st : PyState => st.frames = frames) (load sc scopes symbol) := by
  cases symbol with
  | name id =>
    refine (keeps_loadName scopes id).bind fun v => ?_
    cases v with
    | object o => exact Fallible.Keeps.pure o
    | _ => exact keeps_raises _
  | attr entity component attributeName =>
    refine (keeps_loadName scopes entity).bind fun v => ?_
    cases v with
    | entity e outputs => exact (keeps_raises _).bind fun ref => keeps_onRecords _
    | _ => exact keeps_raises _

/-- **An expression binds no names.** -/
theorem keeps_runExpr {frames : Heap PyFrame} (scopes : List ℕ) (e : Expr Symbol) :
    Fallible.Keeps (fun st : PyState => st.frames = frames) (runExpr py sc scopes e) := by
  induction e with
  | const val => exact Fallible.Keeps.pure _
  | leaf symbol => exact keeps_load scopes symbol
  | arithmetic op x y hx hy | compare op x y hx hy | binary fn x y hx hy | random x y hx hy =>
    exact hx.bind fun a => hy.bind fun b => keeps_raises _
  | negative x hx | positive x hx | unary fn x hx => exact hx.bind fun a => keeps_raises _
  | not x hx => exact hx.bind fun a => Fallible.Keeps.pure _
  | and x y hx hy =>
    refine hx.bind fun a => ?_
    cases a.truth with
    | true => exact hy
    | false => exact Fallible.Keeps.pure a
  | or x y hx hy =>
    refine hx.bind fun a => ?_
    cases a.truth with
    | true => exact Fallible.Keeps.pure a
    | false => exact hy
  | switch c x y hc hx hy =>
    exact hc.bind fun d => hx.bind fun a => hy.bind fun b => keeps_raises _
  | ternary c x y hc hx hy =>
    refine hc.bind fun d => ?_
    cases d.truth with
    | true => exact hx
    | false => exact hy

/-! ## One statement -/

/-- The statement that an augmented assignment becomes. -/
theorem exec_doPreprocess (call : Calls) (frame : ℕ) (enclosing : List ℕ) (target : Symbol)
    (op : ArithmeticOperator) (value : Expr Symbol) :
    (doPreprocess (.augAssign target op value)).exec py sc call frame enclosing =
      Stmt.exec py sc call frame enclosing (.augAssign target op value) := by
  rw [doPreprocess, Stmt.exec, Stmt.exec, Term.eval, runExpr, Expr.run, Expr.run]
  cases target with
  | name id =>
    simp only [runAugAssign, Python.inplaceOp_eq_arithmeticOp, Fallible.bind_assoc,
      Fallible.forEach_singleton]
    rfl
  | attr entity component attributeName =>
    funext st
    obtain ⟨s, frames⟩ := st
    simp only [runAugAssign, Python.inplaceOp_eq_arithmeticOp, load, Fallible.bind_assoc]
    cases hlookup : lookup frames (frame :: enclosing) entity with
    | error e =>
      rw [Fallible.run_bind_of_error (loadName_of_error hlookup),
        Fallible.run_bind_of_error (loadName_of_error hlookup)]
    | ok v =>
      rw [Fallible.run_bind_of_ok (loadName_of_ok hlookup),
        Fallible.run_bind_of_ok (loadName_of_ok hlookup)]
      cases v with
      | entity e outputs =>
        simp only [Fallible.bind_assoc]
        cases href : e.attrRef sc component attributeName with
        | error e' => rfl
        | ok ref =>
          refine (Fallible.run_bind_of_ok rfl).trans ?_
          refine Eq.trans ?_ (Fallible.run_bind_of_ok rfl).symm
          refine (keeps_onRecords _).bind_congr rfl fun old st₁ h₁ => ?_
          refine (keeps_runExpr _ value).bind_congr h₁ fun new st₂ h₂ => ?_
          refine (keeps_raises _).bind_congr h₂ fun o st₃ h₃ => ?_
          -- the target is looked up again, in the same frames
          obtain ⟨s₃, frames₃⟩ := st₃
          subst h₃
          have hstore : store sc (frame :: enclosing) frame o
              (.attr entity component attributeName) ⟨s₃, frames₃⟩ =
                onRecords (Records.on outputs (Recorder.write ref o)) ⟨s₃, frames₃⟩ := by
            rw [store, Fallible.run_bind_of_ok (loadName_of_ok hlookup)]
            simp only [href]
            exact Fallible.run_bind_of_ok rfl
          rw [Fallible.run_bind_of_ok (Fallible.run_pure _ _), Fallible.forEach_singleton,
            assign_object, Fallible.run_bind, Fallible.run_bind, hstore]
      | _ => rfl

/-! ## Convert functions -/

/-- **`preprocess_augassign` changes nothing that Python does**: a body has the same results, the
same errors, and the same effects up to them. What comes out are the statements of the block that is
analyzed and compiled. -/
theorem execAll_preprocessAugassign (call : Calls) (frame : ℕ) (enclosing : List ℕ)
    (source : Source) :
    execAll py sc call frame enclosing (preprocessAugassign source.stmts) =
        execAll py sc call frame enclosing source.stmts ∧
      preprocessAugassign source.stmts = stmtsOf (fun _ => none) source.block := by
  refine ⟨?_, preprocessAugassign_stmts source⟩
  induction source with
  | done => rfl
  | assign target value rest ih =>
    have hcons : preprocessAugassign (Source.assign target value rest).stmts =
        .assign [.symbol target] (.expr value) :: preprocessAugassign rest.stmts := rfl
    rw [hcons, Source.stmts, execAll, execAll, ih]
  | augAssign target op value rest ih =>
    have hcons : preprocessAugassign (Source.augAssign target op value rest).stmts =
        doPreprocess (.augAssign target op value) :: preprocessAugassign rest.stmts := rfl
    rw [hcons, Source.stmts, execAll, execAll, ih, exec_doPreprocess]
  | ifelse test body orelse rest hb ho hr =>
    have hcons : preprocessAugassign (Source.ifelse test body orelse rest).stmts =
        .ifelse none (.expr test) (preprocessAugassign body.stmts)
          (preprocessAugassign orelse.stmts) :: preprocessAugassign rest.stmts := rfl
    rw [hcons, Source.stmts, execAll, execAll, hr, Stmt.exec, Stmt.exec, hb, ho]

end Bentobox.Sdk.Gast
