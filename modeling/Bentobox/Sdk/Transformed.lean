import Bentobox.Sdk.Calls
import Bentobox.Sdk.NameErrors

/-!
# Generated code does what the blocks are traced to do

Here the statements of a convert function are transformed node by node and the code is run by
Python's rules: functions are defined and called, arguments copied and bound, outputs zipped and
unpacked. It goes in lockstep with `Block.trace`.

The names that generated code uses itself have to be left alone by the convert function. A local
`deepcopy` is replaced by the import in front of the if statement.
-/
namespace Bentobox.Sdk
namespace Gast

/-! ## If statements -/

section IfElse
variable {py : Python} {sc : Scope} {depth : ℕ} {frame : ℕ} {enclosing : List ℕ} {fr : Frame}
  {frames₀ frames frames' : Heap PyFrame} {s : Records} {held : List (String × PyValue)}

/-- Between the statements that an if statement becomes: the names of the convert function stand
for what they stood for, and the frame holds what the statements before have bound. -/
structure Ready (sc : Scope) (frame : ℕ) (enclosing : List ℕ) (fr : Frame)
    (frames₀ frames : Heap PyFrame) (held : List (String × PyValue)) : Prop where
  below : ∀ i ∈ frame :: enclosing, i < frames.next
  sees : Sees sc (frame :: enclosing) fr frames
  kept : Kept frame frames₀ frames
  holds : ∀ b ∈ held, Holds frames frame b.1 b.2

namespace Ready

theorem lookup (h : Ready sc frame enclosing fr frames₀ frames held) {id : String} {v : PyValue}
    (hmem : (id, v) ∈ held) : Gast.lookup frames (frame :: enclosing) id = .ok v :=
  (h.holds _ hmem).lookup

theorem bind (h : Ready sc frame enclosing fr frames₀ frames held) (hsc : Unreserved sc)
    (id : String) (v : PyValue) (hid : id ∈ reserved) (hzip : id ≠ "zip")
    (hlocal : (frames₀.cell frame).isLocal id) (hnew : id ∉ held.map Prod.fst) :
    Ready sc frame enclosing fr frames₀ (bound frames frame id v) ((id, v) :: held) := by
  refine ⟨h.below, h.sees.bind_reserved hsc hid hzip, h.kept.trans (Kept.bind _ _ _ _),
    fun b hb => ?_⟩
  rcases List.mem_cons.mp hb with rfl | hb
  · exact holds_bind (by rw [h.kept.isLocal]; exact hlocal)
  · refine (h.holds b hb).bind_ne fun heq => hnew ?_
    rw [← heq]
    exact List.mem_map_of_mem hb

theorem extends_ (h : Ready sc frame enclosing fr frames₀ frames held)
    (hext : frames.Extends frames') : Ready sc frame enclosing fr frames₀ frames' held :=
  ⟨fun i hi => (h.below i hi).trans_le hext.next, h.sees.extends_ h.below hext,
    h.kept.trans (Kept.of_extends (h.below frame (by simp)) hext),
    fun b hb => (h.holds b hb).extends_ (h.below frame (by simp)) hext⟩

end Ready

/-- One switch of the list comprehension. -/
theorem runElt_switch {n : ℕ} {scopes : List ℕ} {condition x y : Object}
    (hcondition : lookup frames (n :: scopes) "__if_condition" = .ok (.object condition))
    (hif : (frames.cell n).isLocal "if_out") (helse : (frames.cell n).isLocal "else_out") :
    runElt py sc scopes (callSwitchAst (.leaf (.name "__if_condition")) (.leaf (.name "if_out"))
        (.leaf (.name "else_out"))) ["if_out", "else_out"] n [x, y] ⟨s, frames⟩ =
      raises (Plotter.switch condition x y)
        ⟨s, bound (bound frames n "if_out" (.object x)) n "else_out" (.object y)⟩ := by
  have hcondition' : lookup (bound (bound frames n "if_out" (.object x)) n "else_out" (.object y))
      (n :: scopes) "__if_condition" = .ok (.object condition) := by
    rw [lookup_bind_ne (by decide), lookup_bind_ne (by decide), hcondition]
  have hif' : lookup (bound (bound frames n "if_out" (.object x)) n "else_out" (.object y))
      (n :: scopes) "if_out" = .ok (.object x) :=
    ((holds_bind hif).bind_ne (by decide)).lookup
  have helse' : lookup (bound (bound frames n "if_out" (.object x)) n "else_out" (.object y))
      (n :: scopes) "else_out" = .ok (.object y) := by
    refine (holds_bind ?_).lookup
    rw [cell_bound_self]
    exact helse
  have helt : runElt py sc scopes (callSwitchAst (.leaf (.name "__if_condition"))
        (.leaf (.name "if_out")) (.leaf (.name "else_out"))) ["if_out", "else_out"] n [x, y] =
      bindNames n [("if_out", .object x), ("else_out", .object y)] >>= fun _ =>
        runExpr py sc (n :: scopes) (callSwitchAst (.leaf (.name "__if_condition"))
          (.leaf (.name "if_out")) (.leaf (.name "else_out"))) := if_pos rfl
  have hbind : bindNames n [("if_out", .object x), ("else_out", .object y)] ⟨s, frames⟩ =
      (.ok (), ⟨s, bound (bound frames n "if_out" (.object x)) n "else_out" (.object y)⟩) := rfl
  rw [helt, Fallible.run_bind_of_ok hbind, runExpr, callSwitchAst, Expr.run, Expr.run, Expr.run,
    Expr.run]
  rw [Fallible.run_bind_of_ok (load_of_object hcondition'),
    Fallible.run_bind_of_ok (load_of_object hif'), Fallible.run_bind_of_ok (load_of_object helse')]

/-- **The list comprehension** plots the switches of the outputs. -/
theorem mapEach_runElt_lock {n : ℕ} {scopes : List ℕ} {condition : Object}
    {ifOutputs elseOutputs : List Object}
    (hcondition : lookup frames (n :: scopes) "__if_condition" = .ok (.object condition))
    (hif : (frames.cell n).isLocal "if_out") (helse : (frames.cell n).isLocal "else_out") :
    Lock (fun os st os' s' => os = os' ∧ st.records = s' ∧ Kept n frames st.frames)
      (Fallible.mapEach (runElt py sc scopes (callSwitchAst (.leaf (.name "__if_condition"))
        (.leaf (.name "if_out")) (.leaf (.name "else_out"))) ["if_out", "else_out"] n)
        (List.zipWith (fun x y => [x, y]) ifOutputs elseOutputs)) frames
      (Fallible.ofExcept (switchOutputs condition ifOutputs elseOutputs)) s := by
  induction ifOutputs generalizing elseOutputs frames s with
  | nil => exact Fallible.Lockstep.pure ⟨rfl, rfl, Kept.refl _ _⟩
  | cons x ifOutputs ih =>
    cases elseOutputs with
    | nil => exact Fallible.Lockstep.pure ⟨rfl, rfl, Kept.refl _ _⟩
    | cons y elseOutputs =>
      have hkept : Kept n frames
          (bound (bound frames n "if_out" (.object x)) n "else_out" (.object y)) :=
        (Kept.bind _ _ _ _).trans (Kept.bind _ _ _ _)
      rw [List.zipWith_cons_cons, Fallible.mapEach, switchOutputs, Fallible.ofExcept_bind]
      refine (Fallible.Lockstep.of_eq (runElt_switch hcondition hif helse)
        (raises_lock _)).bind ?_
      rintro o _ _ s' ⟨rfl, rfl⟩
      rw [Fallible.ofExcept_bind]
      refine (ih ?_ ?_ ?_).bind ?_
      · rw [lookup_bind_ne (by decide), lookup_bind_ne (by decide), hcondition]
      · rw [hkept.isLocal]
        exact hif
      · rw [hkept.isLocal]
        exact helse
      · rintro os st _ s'' ⟨rfl, hrecords, hkept'⟩
        exact Fallible.Lockstep.pure ⟨rfl, hrecords, hkept.trans hkept'⟩

theorem exec_assign_name (call : Calls) (id : String) (value : Term) :
    Stmt.exec py sc call frame enclosing (assignAst [.name id] value false false) =
      value.eval py sc call (frame :: enclosing) >>= fun v =>
        (bindName frame id v >>= fun _ => pure none) := by
  have hast : assignAst [.name id] value false false = .assign [.symbol (.name id)] value := rfl
  rw [hast, Stmt.exec]
  exact congrArg _ (funext fun v => by rw [Fallible.forEach_singleton]; rfl)

theorem exec_assign_tuple (call : Calls) (targets : List Symbol) (value : Term) :
    Stmt.exec py sc call frame enclosing (assignAst targets value false true) =
      value.eval py sc call (frame :: enclosing) >>= fun v =>
        (assign sc (frame :: enclosing) frame v (.tuple targets) >>= fun _ => pure none) := by
  have hast : assignAst targets value false true = .assign [.tuple targets] value := by
    simp [assignAst]
  rw [hast, Stmt.exec]
  exact congrArg _ (funext fun v => by rw [Fallible.forEach_singleton])

/-- The value of `zip(__if_outputs, __else_outputs)`. -/
theorem eval_zip {v w : PyValue} (hzip : lookup frames (frame :: enclosing) "zip" = .ok .zip)
    (hif : lookup frames (frame :: enclosing) "__if_outputs" = .ok v)
    (helse : lookup frames (frame :: enclosing) "__else_outputs" = .ok w) :
    (callFuncAst "zip" (.inl [nameAst "__if_outputs", nameAst "__else_outputs"])).eval py sc
      (callAt py sc depth) (frame :: enclosing) ⟨s, frames⟩ =
        raises (zipValues v w) ⟨s, frames⟩ := by
  have hargs : evalAll py sc (callAt py sc depth) (frame :: enclosing)
      [nameAst "__if_outputs", nameAst "__else_outputs"] ⟨s, frames⟩ =
        (.ok [v, w], ⟨s, frames⟩) :=
    @evalAll_names py sc depth (frame :: enclosing) frames s ["__if_outputs", "__else_outputs"]
      [v, w] (.cons hif (.cons helse .nil))
  rw [callFuncAst, Term.eval, Fallible.run_bind_of_ok (loadName_of_ok hzip),
    Fallible.run_bind_of_ok hargs, evalKeywords, ← @callAt_zip py sc depth]
  rfl

/-- **The switches are assigned** to what the branches return. -/
theorem switch_lock {activity : Block.Activity} {condition : Object}
    {ifOutputs elseOutputs : List Object} (hif : ifOutputs.length = activity.returns.length)
    (helse : elseOutputs.length = activity.returns.length)
    (h : Ready sc frame enclosing fr frames₀ frames held)
    (hcondition : ("__if_condition", .object condition) ∈ held)
    (hifOutputs : ("__if_outputs", returned activity.returns ifOutputs) ∈ held)
    (helseOutputs : ("__else_outputs", returned activity.returns elseOutputs) ∈ held)
    (hreturns : ∀ r ∈ activity.returns, Known sc r)
    (hlocal : ∀ id ∈ Target.names (.tuple activity.returns), (frames₀.cell frame).isLocal id) :
    Lock (fun v st fr' s' => v = none ∧ Ran sc frame enclosing frames₀ st fr' s')
      (Stmt.exec py sc (callAt py sc depth) frame enclosing
        (assignAst activity.returns switchOutputsAst false true)) frames
      (Fallible.ofExcept (zipOutputs activity condition ifOutputs elseOutputs) >>= fun outputs =>
        fr.storeAll sc (activity.returns.zip outputs)) s := by
  rw [exec_assign_tuple]
  have hzip := @eval_zip py sc depth frame enclosing frames s _ _ h.sees.zip (h.lookup hifOutputs)
    (h.lookup helseOutputs)
  by_cases hnil : activity.returns = []
  · -- `None` cannot be zipped
    rw [returned, if_pos hnil, returned, if_pos hnil] at hzip
    rw [zipOutputs, if_pos hnil]
    have hfail : raises (zipValues .none .none) ⟨s, frames⟩ =
      ((.error (.error .typeError), ⟨s, frames⟩) : Except Raised PyValue × PyState) := rfl
    exact Fallible.Lockstep.of_error (Fallible.run_bind_of_error
      (Fallible.run_bind_of_error (hzip.trans hfail))) rfl rfl
  · rw [returned, if_neg hnil, returned, if_neg hnil] at hzip
    rw [zipOutputs, if_neg hnil]
    have hframe : lookup (frames.alloc ⟨(· ∈ ["if_out", "else_out"]), fun _ => Option.none⟩)
        (frames.next :: frame :: enclosing) "__if_condition" = .ok (.object condition) := by
      rw [lookup, Heap.cell_alloc_next, if_neg (by decide)]
      rw [lookup_congr fun i hi => Heap.cell_alloc_of_lt (h.below i hi) _]
      exact h.lookup hcondition
    have hcomp : Lock (fun v st os s' => v = .tuple os ∧ st.records = s' ∧ frames.Extends st.frames)
        (Term.eval py sc (callAt py sc depth) (frame :: enclosing) switchOutputsAst) frames
        (Fallible.ofExcept (switchOutputs condition ifOutputs elseOutputs)) s := by
      rw [switchOutputsAst, Term.eval]
      refine Fallible.Lockstep.step hzip (Fallible.Lockstep.step rfl ?_)
      refine Fallible.Lockstep.step rfl ?_
      refine (mapEach_runElt_lock hframe ?_ ?_).andThen ?_
      · rw [Heap.cell_alloc_next]; rfl
      · rw [Heap.cell_alloc_next]; rfl
      · rintro os st _ s' ⟨rfl, hrecords, hkept⟩
        exact ⟨_, _, rfl, rfl, hrecords, hkept.extends_of_alloc⟩
    refine hcomp.and_run.bind ?_
    rintro _ ⟨_, frames'⟩ outputs s' ⟨⟨rfl, rfl, hext⟩, hrun⟩
    have hlen : outputs.length = activity.returns.length :=
      (length_of_switchOutputs (hif.trans helse.symm) (Prod.ext_iff.mp hrun).1).trans hif
    have h' := h.extends_ hext
    rw [assign, if_pos hlen]
    refine (unpack_lock hlen h'.sees hreturns fun id hid => ?_).andThen ?_
    · rw [h'.kept.isLocal]
      exact hlocal id hid
    · rintro _ st fr' s' ⟨hrecords, hsees, hkept⟩
      exact ⟨_, _, rfl, rfl, hrecords, hsees, h'.kept.trans hkept⟩

theorem execAll_cons_of_none {call : Calls} {stmt : Stmt} {stmts : List Stmt} {st st' : PyState}
    (h : stmt.exec py sc call frame enclosing st = (.ok none, st')) :
    execAll py sc call frame enclosing (stmt :: stmts) st =
      execAll py sc call frame enclosing stmts st' := by
  rw [execAll, Fallible.run_bind_of_ok h]

/-- A statement that does not return goes with a step of the trace, and the statements after it
go with the rest. -/
theorem execAll_cons_lock {α β : Type} {call : Calls} {stmt : Stmt} {stmts : List Stmt}
    {m : Fallible Records PythonError α} {f : α → Fallible Records PythonError β}
    {post : PyState → α → Records → Prop} {post' : Option PyValue → PyState → β → Records → Prop}
    (h : Lock (fun v st a s' => v = none ∧ post st a s')
      (stmt.exec py sc call frame enclosing) frames m s)
    (hf : ∀ st a s', post st a s' → Fallible.Lockstep Raised.error (fun st s => st.records = s)
      post' (execAll py sc call frame enclosing stmts) st (f a) s') :
    Lock post' (execAll py sc call frame enclosing (stmt :: stmts)) frames (m >>= f) s := by
  rw [execAll]
  refine h.bind ?_
  rintro _ st a s' ⟨rfl, hpost⟩
  exact hf st a s' hpost

/-- The value of a statement that binds one of the names of generated code. -/
theorem assign_name_lock {α : Type} {call : Calls} {id : String} {value : Term}
    {m : Fallible Records PythonError α} {post : PyValue → PyState → α → Records → Prop}
    (h : Lock post (value.eval py sc call (frame :: enclosing)) frames m s) :
    Lock (fun v st a s' => v = none ∧ ∃ w st₁, post w st₁ a s' ∧
        st = ⟨st₁.records, bound st₁.frames frame id w⟩)
      (Stmt.exec py sc call frame enclosing (assignAst [.name id] value false false)) frames m
      s := by
  rw [exec_assign_name]
  refine h.andThen ?_
  intro w st a s' hpost
  exact ⟨_, _, rfl, rfl, w, st, hpost, rfl⟩

/-- The condition is copied before the branches are traced. -/
theorem eval_condition_lock {test : Expr Symbol} (hsees : Sees sc (frame :: enclosing) fr frames)
    (hdeepcopy : lookup frames (frame :: enclosing) "deepcopy" = .ok .deepcopy)
    (htest : ∀ symbol ∈ test.leaves, Known sc symbol) :
    Lock (fun v st o s' => v = .object o ∧ st = ⟨s', frames⟩)
      ((callFuncAst "deepcopy" (.inl [.expr test.transformTernary])).eval py sc
        (callAt py sc depth) (frame :: enclosing)) frames
      (test.trace py Fallible.ofExcept (fr.load sc)) s := by
  have hvalue : Lock (fun v st o s' => v = .object o ∧ st = ⟨s', frames⟩)
      (Term.eval py sc (callAt py sc depth) (frame :: enclosing) (.expr test.transformTernary))
      frames (test.trace py Fallible.ofExcept (fr.load sc)) s := by
    rw [Term.eval]
    refine (runExpr_lock hsees htest).andThen ?_
    rintro o _ _ s' ⟨rfl, rfl⟩
    exact ⟨_, _, rfl, rfl, rfl⟩
  have hargs : Lock (fun vs st o s' => vs = [.object o] ∧ st = ⟨s', frames⟩)
      (evalAll py sc (callAt py sc depth) (frame :: enclosing) [.expr test.transformTernary])
      frames (test.trace py Fallible.ofExcept (fr.load sc)) s := by
    rw [evalAll]
    refine hvalue.andThen ?_
    rintro _ _ o s' ⟨rfl, rfl⟩
    exact ⟨_, _, rfl, rfl, rfl⟩
  rw [callFuncAst, Term.eval]
  refine Fallible.Lockstep.step (loadName_of_ok hdeepcopy) (hargs.andThen ?_)
  rintro _ _ o s' ⟨rfl, rfl⟩
  have hcopy : callAt py sc depth .deepcopy [.object o] [] ⟨s', frames⟩ =
      (.ok (.object o), ⟨s', frames⟩) := by
    rw [callAt_deepcopy]
    rfl
  exact ⟨_, _, hcopy, rfl, rfl⟩

/-- **A transformed if statement** runs as it is traced. -/
theorem ifelse_lock {activity : Block.Activity} {test : Expr Symbol} {body orelse : List Stmt}
    {stores stores' : List Symbol}
    {traceBody traceOrelse : Frame → Fallible Records PythonError Frame} (hsc : Unreserved sc)
    (htest : ∀ symbol ∈ test.leaves, Known sc symbol) (hnodup : activity.args.Nodup)
    (hargs : ∀ a ∈ activity.args, a ∉ reserved) (hreturns : ∀ r ∈ activity.returns, Known sc r)
    (hbody : Branch sc body stores) (horelse : Branch sc orelse stores')
    (hrunBody : ∀ enclosing, Follows py sc depth enclosing body traceBody)
    (hrunOrelse : ∀ enclosing, Follows py sc depth enclosing orelse traceOrelse)
    (hbelow : ∀ i ∈ frame :: enclosing, i < frames.next)
    (hsees : Sees sc (frame :: enclosing) fr frames)
    (hlocal : ∀ id ∈ bindsAll (ifelseBlock activity (.expr test.transformTernary) body orelse),
      (frames.cell frame).isLocal id) :
    Lock (fun v st fr' s' => v = none ∧ Ran sc frame enclosing frames st fr' s')
      (Stmt.exec py sc (callAt py sc (depth + 1)) frame enclosing
        (wrapBlockAst (ifelseBlock activity (.expr test.transformTernary) body orelse))) frames
      (traceIfelse py sc activity test stores stores' traceBody traceOrelse fr) s := by
  rw [binds_ifelseBlock] at hlocal
  have hown : ∀ id ∈ ["__if_block", "__else_block", "deepcopy", "__if_condition", "__if_outputs",
      "__else_outputs"], (frames.cell frame).isLocal id :=
    fun id hid => hlocal id (List.mem_append_left _ hid)
  have hwrap : Stmt.exec py sc (callAt py sc (depth + 1)) frame enclosing
      (wrapBlockAst (ifelseBlock activity (.expr test.transformTernary) body orelse)) ⟨s, frames⟩ =
        execAll py sc (callAt py sc (depth + 1)) frame enclosing
          (ifelseBlock activity (.expr test.transformTernary) body orelse) ⟨s, frames⟩ := rfl
  refine .of_eq hwrap ?_
  rw [ifelseBlock, wrapFuncAst_tuple, wrapFuncAst_tuple]
  -- the functions of the branches and the import
  have h₀ : Ready sc frame enclosing fr frames frames [] :=
    ⟨hbelow, hsees, Kept.refl _ _, fun _ h => absurd h List.not_mem_nil⟩
  have h₁ := h₀.bind hsc "__if_block" (.function activity.args
    (body ++ returnStmts activity.returns) (frame :: enclosing)) (by decide) (by decide)
    (hown _ (by simp)) (by simp)
  have h₂ := h₁.bind hsc "__else_block" (.function activity.args
    (orelse ++ returnStmts activity.returns) (frame :: enclosing)) (by decide) (by decide)
    (hown _ (by simp)) (by simp)
  have h₃ := h₂.bind hsc "deepcopy" .deepcopy (by decide) (by decide) (hown _ (by simp)) (by simp)
  refine .of_eq (execAll_cons_of_none rfl) (.of_eq (execAll_cons_of_none rfl)
    (.of_eq (execAll_cons_of_none rfl) ?_))
  -- the condition
  refine execAll_cons_lock (assign_name_lock (eval_condition_lock h₃.sees
    (h₃.lookup (by simp)) htest)) ?_
  rintro _ condition s₁ ⟨_, _, ⟨rfl, rfl⟩, rfl⟩
  have h₄ := h₃.bind hsc "__if_condition" (.object condition) (by decide) (by decide)
    (hown _ (by simp)) (by simp)
  -- the branches
  refine execAll_cons_lock (assign_name_lock (call_lock hsc h₄.sees h₄.below
    (h₄.lookup (by simp)) (h₄.lookup (by simp)) hnodup hargs hreturns hbody (hrunBody _))) ?_
  rintro _ ifOutputs s₂ ⟨_, ⟨_, frames₅⟩, ⟨rfl, hifLen, rfl, hext⟩, rfl⟩
  have h₅ := (h₄.extends_ hext).bind hsc "__if_outputs" (returned activity.returns ifOutputs)
    (by decide) (by decide) (hown _ (by simp)) (by simp)
  refine execAll_cons_lock (assign_name_lock (call_lock hsc h₅.sees h₅.below
    (h₅.lookup (by simp)) (h₅.lookup (by simp)) hnodup hargs hreturns horelse (hrunOrelse _))) ?_
  rintro _ elseOutputs s₃ ⟨_, ⟨_, frames₆⟩, ⟨rfl, helseLen, rfl, hext'⟩, rfl⟩
  have h₆ := (h₅.extends_ hext').bind hsc "__else_outputs" (returned activity.returns elseOutputs)
    (by decide) (by decide) (hown _ (by simp)) (by simp)
  -- the switches
  rw [execAll]
  refine (switch_lock hifLen helseLen h₆ (by simp) (by simp) (by simp) hreturns
    fun id hid => hlocal id (List.mem_append_right _ hid)).andThen ?_
  rintro _ st fr' s' ⟨rfl, hran⟩
  exact ⟨_, _, rfl, rfl, hran⟩

end IfElse

/-! ## Blocks -/

/-- Every if statement passes each argument once, and none with a name of generated code. -/
def Passes : Block Block.Activity → Prop
  | .done => True
  | .assign _ _ rest => Passes rest
  | .ifelse activity _ body orelse rest =>
    (activity.args.Nodup ∧ ∀ a ∈ activity.args, a ∉ reserved) ∧ Passes body ∧ Passes orelse ∧
      Passes rest

/-- How deep the calls of the generated code nest. -/
def nesting {α : Type} : Block α → ℕ
  | .done => 0
  | .assign _ _ rest => nesting rest
  | .ifelse _ _ body orelse rest => max (max (nesting body) (nesting orelse) + 1) (nesting rest)

section Blocks
variable {py : Python} {sc : Scope}

theorem assign_lock {call : Calls} {frame : ℕ} {enclosing : List ℕ} {fr : Frame}
    {frames : Heap PyFrame} {s : Records} {target : Symbol} {value : Expr Symbol}
    (hsees : Sees sc (frame :: enclosing) fr frames) (htarget : Known sc target)
    (hvalue : ∀ symbol ∈ value.leaves, Known sc symbol)
    (hlocal : ∀ id ∈ symbolNames target, (frames.cell frame).isLocal id) :
    Lock (fun v st fr' s' => v = none ∧ Ran sc frame enclosing frames st fr' s')
      (Stmt.exec py sc call frame enclosing
        (.assign [.symbol target] (.expr value.transformTernary))) frames
      (traceAssign py sc target value fr) s := by
  have heval : Lock (fun v st o s' => v = .object o ∧ st = ⟨s', frames⟩)
      (Term.eval py sc call (frame :: enclosing) (.expr value.transformTernary)) frames
      (value.trace py Fallible.ofExcept (fr.load sc)) s := by
    rw [Term.eval]
    refine (runExpr_lock hsees hvalue).andThen ?_
    rintro o _ _ s' ⟨rfl, rfl⟩
    exact ⟨_, _, rfl, rfl, rfl⟩
  rw [Stmt.exec, traceAssign]
  refine heval.bind ?_
  rintro _ _ o s' ⟨rfl, rfl⟩
  rw [Fallible.forEach_singleton, assign_object]
  refine (store_lock hsees htarget hlocal).andThen ?_
  rintro _ st fr' s'' hran
  exact ⟨_, _, rfl, rfl, hran⟩

/-- A statement in front of others. -/
theorem Follows.cons {depth : ℕ} {enclosing : List ℕ} {stmt : Stmt} {stmts : List Stmt}
    {step rest : Frame → Fallible Records PythonError Frame}
    (hstep : ∀ frame frames fr s, (∀ i ∈ frame :: enclosing, i < frames.next) →
      Sees sc (frame :: enclosing) fr frames →
      (∀ id ∈ stmt.binds, (frames.cell frame).isLocal id) →
      Lock (fun v st fr' s' => v = none ∧ Ran sc frame enclosing frames st fr' s')
        (stmt.exec py sc (callAt py sc depth) frame enclosing) frames (step fr) s)
    (hrest : Follows py sc depth enclosing stmts rest) :
    Follows py sc depth enclosing (stmt :: stmts) fun fr => step fr >>= rest := by
  intro frame frames fr s hbelow hsees hlocal
  rw [bindsAll] at hlocal
  refine execAll_cons_lock (hstep frame frames fr s hbelow hsees
    fun id hid => hlocal id (List.mem_append_left _ hid)) ?_
  rintro ⟨_, frames'⟩ fr' s' ⟨rfl, hsees', hkept⟩
  refine (hrest frame frames' fr' _ (fun i hi => (hbelow i hi).trans_le hkept.next) hsees'
    fun id hid => ?_).mono ?_
  · rw [hkept.isLocal]
    exact hlocal id (List.mem_append_right _ hid)
  · rintro v st fr'' s'' ⟨hv, hrecords, hsees'', hkept'⟩
    exact ⟨hv, hrecords, hsees'', hkept.trans hkept'⟩

theorem branch_generate {b : Block Block.Activity} (hb : b.ReturnsStores)
    (hknown : ∀ symbol ∈ b.symbols, Known sc symbol) : Branch sc (generate b) b.stores :=
  ⟨fun _ => mem_bindsAll_generate hb, fun _ => mem_bindsAll_of_stores hb,
    fun symbol hm => hknown symbol (b.stores_subset_symbols hm)⟩

/-- **The statements of a block go as its trace.** -/
theorem follows_generate (hsc : Unreserved sc) {b : Block Block.Activity} (hb : b.ReturnsStores)
    (hpasses : Passes b) (hknown : ∀ symbol ∈ b.symbols, Known sc symbol) {depth : ℕ}
    (hdepth : nesting b ≤ depth) (enclosing : List ℕ) :
    Follows py sc depth enclosing (generate b) (b.trace py sc) := by
  induction b generalizing depth enclosing with
  | done =>
    intro frame frames fr s hbelow hsees hlocal
    exact Fallible.Lockstep.pure ⟨rfl, rfl, hsees, Kept.refl _ _⟩
  | assign target value rest ih =>
    rw [generate_assign]
    refine Follows.cons (fun frame frames fr s hbelow hsees hlocal => ?_)
      (ih hb hpasses (fun symbol hm => hknown symbol (by simp [Block.symbols, hm])) hdepth
        enclosing)
    refine assign_lock hsees (hknown target (by simp [Block.symbols]))
      (fun symbol hm => hknown symbol (by simp [Block.symbols, hm])) fun id hid => hlocal id ?_
    rw [Stmt.binds, List.flatMap_singleton]
    exact hid
  | ifelse activity test body orelse rest hbody horelse hrest =>
    obtain ⟨hreturns, hbodyReturns, horelseReturns, hrestReturns⟩ := hb
    obtain ⟨⟨hnodup, hargs⟩, hbodyPasses, horelsePasses, hrestPasses⟩ := hpasses
    rw [nesting] at hdepth
    have hmem : ∀ symbol, symbol ∈ test.leaves ∨ symbol ∈ body.symbols ∨ symbol ∈ orelse.symbols ∨
        symbol ∈ rest.symbols → Known sc symbol := fun symbol hm =>
      hknown symbol (by simpa [Block.symbols] using hm)
    have hbodyKnown := fun symbol hm => hmem symbol (.inr (.inl hm))
    have horelseKnown := fun symbol hm => hmem symbol (.inr (.inr (.inl hm)))
    -- the functions of the branches are called one deeper
    obtain ⟨depth, rfl⟩ : ∃ d, depth = d + 1 := ⟨depth - 1, by omega⟩
    rw [generate_ifelse]
    refine Follows.cons (fun frame frames fr s hbelow hsees hlocal => ?_)
      (hrest hrestReturns hrestPasses (fun symbol hm => hmem symbol (.inr (.inr (.inr hm))))
        (by omega) enclosing)
    refine ifelse_lock hsc (fun symbol hm => hmem symbol (.inl hm)) hnodup hargs (fun r hr => ?_)
      (branch_generate hbodyReturns hbodyKnown) (branch_generate horelseReturns horelseKnown)
      (fun _ => hbody hbodyReturns hbodyPasses hbodyKnown (by omega) _)
      (fun _ => horelse horelseReturns horelsePasses horelseKnown (by omega) _) hbelow hsees
      fun id hid => hlocal id ?_
    · rcases (hreturns r).mp hr with hm | hm
      · exact hbodyKnown r (body.stores_subset_symbols hm)
      · exact horelseKnown r (orelse.stores_subset_symbols hm)
    · rw [wrapBlockAst, Stmt.binds]
      exact List.mem_append_left _ hid

theorem nesting_annotate {α : Type} (all defined : List Symbol) (b : Block α) :
    nesting (b.annotate all defined) = nesting b := by
  induction b generalizing defined with
  | done => rfl
  | assign target value rest ih => exact ih _
  | ifelse a test body orelse rest hb ho hr => simp only [Block.annotate, nesting, hb, ho, hr]

theorem nodup_eraseDups : ∀ l : List String, l.eraseDups.Nodup
  | [] => List.nodup_nil
  | a :: l => by
    rw [List.eraseDups_cons, List.nodup_cons, List.mem_eraseDups]
    refine ⟨fun h => ?_, nodup_eraseDups (l.filter fun b => !b == a)⟩
    simpa using (List.mem_filter.mp h).2
termination_by l => l.length
decreasing_by exact Nat.lt_succ_of_le (List.length_filter_le _ _)

/-- The analysis passes the bases of symbols. -/
theorem passes_annotate {α : Type} {b : Block α} (all defined : List Symbol)
    (h : ∀ symbol ∈ b.symbols, symbol.base ∉ reserved) : Passes (b.annotate all defined) := by
  induction b generalizing defined with
  | done => trivial
  | assign target value rest ih =>
    exact ih _ fun symbol hm => h symbol (by simp [Block.symbols, hm])
  | ifelse a test body orelse rest hb ho hr =>
    refine ⟨⟨nodup_eraseDups _, fun arg harg => ?_⟩, hb _ fun s hm => h s ?_,
      ho _ fun s hm => h s ?_, hr _ fun s hm => h s ?_⟩
    · rw [Block.activity, List.mem_eraseDups, List.mem_map] at harg
      obtain ⟨symbol, hm, rfl⟩ := harg
      have hloads := Block.symbols_of_loads (Block.loads_of_captures
        (@Block.captures_of_inputs _ _ [] _ _ _ (.inl hm)))
      exact h symbol (by simp [Block.symbols] at hloads ⊢; tauto)
    · simp [Block.symbols, hm]
    · simp [Block.symbols, hm]
    · simp [Block.symbols, hm]

end Blocks
end Gast

/-! ## Convert functions -/

namespace ConvertFn
open Gast

/-- The frame of `build_graph`, in which the variables of the entities are bound. -/
def pyFrame (fn : ConvertFn) (body : List Stmt) : PyFrame where
  isLocal id := (fn.scope.entities id).isSome || id ∈ bindsAll body
  vars id := (fn.scope.entities id).map (.entity · 0)

/-- Analyze and transform the function, and run the code that comes out on a plotter. -/
def runGenerated (py : Python) (depth : ℕ) (fn : ConvertFn) : Except Raised Recorder :=
  match execAll py fn.scope (callAt py fn.scope depth) 0 [] (generate fn.body.analyzeActivity)
      ⟨records, ⟨fun _ => fn.pyFrame (generate fn.body.analyzeActivity), 1⟩⟩ with
  | (.ok _, st) => .ok ⟨st.records.inputs, st.records.outputs.cell 0⟩
  | (.error e, _) => .error e

theorem sees_pyFrame {fn : ConvertFn} (hsc : Unreserved fn.scope) {body : List Stmt}
    (hzip : "zip" ∉ bindsAll body) :
    Sees fn.scope [0] frame ⟨fun _ => fn.pyFrame body, 1⟩ := by
  refine ⟨fun id hid hnone => ?_, fun v e he => ?_, ?_⟩
  · have hne : id ≠ "zip" := fun heq => hid (heq ▸ by decide)
    simp [lookup, pyFrame, hnone, Frame.lookup, frame, hne]
  · simp [lookup, pyFrame, he, frame]
  · simp [lookup, pyFrame, hsc "zip" (by decide), hzip]

/-- The generated statements of a function go as its trace, from the frame of `build_graph` on. -/
theorem generated_lock (py : Python) (fn : ConvertFn) (hsc : Unreserved fn.scope)
    (hknown : ∀ symbol ∈ fn.body.symbols, Known fn.scope symbol) {depth : ℕ}
    (hdepth : nesting fn.body ≤ depth) :
    Lock (fun _ st _ s' => st.records = s')
      (execAll py fn.scope (callAt py fn.scope depth) 0 [] (generate fn.body.analyzeActivity))
      ⟨fun _ => fn.pyFrame (generate fn.body.analyzeActivity), 1⟩
      (fn.body.analyzeActivity.trace py fn.scope frame) records := by
  have hreturns : fn.body.analyzeActivity.ReturnsStores := Block.returnsStores_annotate _ _ _
  have hpasses : Passes fn.body.analyzeActivity :=
    passes_annotate _ _ fun symbol hm => (hknown symbol hm).notMem
  have hknown' : ∀ symbol ∈ fn.body.analyzeActivity.symbols, Known fn.scope symbol := by
    rw [Block.analyzeActivity, Block.symbols_annotate]
    exact hknown
  have hzip : "zip" ∉ bindsAll (generate fn.body.analyzeActivity) := by
    intro h
    rcases mem_bindsAll_generate hreturns h with h | h
    · exact h.2 rfl
    · exact (hknown' _ (Block.stores_subset_symbols _ h)).notMem (by decide)
  have hdepth' : nesting fn.body.analyzeActivity ≤ depth := by
    rw [Block.analyzeActivity, nesting_annotate]
    exact hdepth
  refine (@follows_generate py _ hsc _ hreturns hpasses hknown' _ hdepth' [] 0 _ frame records
    (fun i hi => List.mem_singleton.mp hi ▸ Nat.zero_lt_one) (sees_pyFrame hsc hzip)
    fun id hid => by simp [pyFrame, hid]).mono ?_
  rintro _ _ _ _ ⟨-, hrecords, -⟩
  exact hrecords

/-- The code that is generated from a function records what the function is traced to record. -/
theorem compile_of_runGenerated {py : Python} {fn : ConvertFn} (hsc : Unreserved fn.scope)
    (hknown : ∀ symbol ∈ fn.body.symbols, Known fn.scope symbol) {depth : ℕ}
    (hdepth : nesting fn.body ≤ depth) {r : Recorder} (h : fn.runGenerated py depth = .ok r) :
    fn.compile py = .ok r := by
  have hrun := generated_lock py fn hsc hknown hdepth
  rw [runGenerated] at h
  rw [compile]
  rcases htrace : fn.body.analyzeActivity.trace py fn.scope frame records with ⟨e | fr, s⟩
  · obtain ⟨st, hexec, -⟩ := hrun.exists_error htrace
    rw [hexec] at h
    cases h
  · obtain ⟨v, ⟨_, _⟩, hexec, rfl⟩ := hrun.exists_ok htrace
    rw [hexec] at h
    cases h
    rfl

/-- **The generated code does what the function is traced to do.** Analyzed, transformed node by
node and run by Python's rules, a convert function records what its trace records or stops with
the same error, when calls may nest as deep as its if statements do. -/
theorem runGenerated_eq_compile (py : Python) (fn : ConvertFn) (hsc : Unreserved fn.scope)
    (hknown : ∀ symbol ∈ fn.body.symbols, Known fn.scope symbol) {depth : ℕ}
    (hdepth : nesting fn.body ≤ depth) :
    fn.runGenerated py depth = (fn.compile py).mapError .error := by
  have hrun := generated_lock py fn hsc hknown hdepth
  rw [runGenerated, compile]
  rcases htrace : fn.body.analyzeActivity.trace py fn.scope frame records with ⟨e | fr, s⟩
  · obtain ⟨st, hexec, -⟩ := hrun.exists_error htrace
    rw [hexec]
    rfl
  · obtain ⟨v, ⟨_, _⟩, hexec, rfl⟩ := hrun.exists_ok htrace
    rw [hexec]
    rfl

/-- The generated code of `brakeOrMove` runs through. -/
theorem runGenerated_brakeOrMove :
    brakeOrMove.runGenerated default 1 = (brakeOrMove.compile default).mapError .error ∧
      (brakeOrMove.compile default).toOption.isSome := by
  refine ⟨runGenerated_eq_compile default brakeOrMove
    (fun v hv => by revert v; decide) (fun symbol hm => ?_) (by decide),
    by decide⟩
  simp only [brakeOrMove, brake, move, Block.symbols, Expr.leaves, List.append_nil,
    List.singleton_append, List.mem_cons, List.not_mem_nil, or_false] at hm
  rcases hm with rfl | rfl | rfl
  · exact ⟨rfl, by decide⟩
  · exact ⟨rfl, by decide⟩
  · exact ⟨rfl, by decide⟩

/-- A local `deepcopy` that is captured by a branch. -/
def shadowing : ConvertFn where
  scope := car
  body := .assign (.name "deepcopy") (.const (.int 0)) <|
    brake (.assign (.attr "car" "Velocity" "x") (.leaf (.name "deepcopy")) .done) .done
  slashFree := by simp [brake, Block.symbols, Expr.leaves, Symbol.SlashFree]
  locals := by simp [brake, Block.symbols, Expr.leaves, car]

/-- The import in front of the if statement replaces the local. -/
example : (shadowing.compile default).toOption.isSome ∧
    (shadowing.runGenerated default 1).toOption.isNone := by decide

end ConvertFn
end Bentobox.Sdk
