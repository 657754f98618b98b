import Bentobox.Sdk.Visibility

/-!
# Calls of the functions of branches

`transform_ifelse` defines a function for each branch and calls it with copies of what the branch
captures. The keywords of the call are evaluated as `Frame.bindArgs` copies the arguments, the
frame of the call sees what the frame of the traced call holds, and a function without a `return`
returns `None`.
-/
namespace Bentobox.Sdk.Gast

/-! ## Calls -/

section Calls
variable {py : Python} {sc : Scope} {depth : ℕ} {scopes : List ℕ} {fr callee callee' : Frame}
  {frames : Heap PyFrame} {s : Records}

@[simp] theorem callAt_deepcopy (v : PyValue) :
    callAt py sc depth .deepcopy [v] [] = copyValue v := by
  cases depth <;> rfl

@[simp] theorem callAt_zip (x y : PyValue) :
    callAt py sc depth .zip [x, y] [] = raises (zipValues x y) := by
  cases depth <;> rfl

/-- The arguments of a branch, as they are evaluated. -/
structure Passed (sc : Scope) (args : List String) (given : List (String × PyValue))
    (callee callee' : Frame) : Prop where
  names : given.map Prod.fst = args
  entity : ∀ a ∈ args, ∀ e, sc.entities a = some e →
    given.lookup a = some (.entity e (callee'.outputs a))
  object : ∀ a ∈ args, sc.entities a = none →
    ∃ o, given.lookup a = some (.object o) ∧ callee'.locals a = some o
  outputs : ∀ a ∉ args, callee'.outputs a = callee.outputs a
  locals : ∀ a ∉ args, callee'.locals a = callee.locals a

theorem Passed.nil (sc : Scope) (callee : Frame) : Passed sc [] [] callee callee :=
  ⟨rfl, fun _ h => absurd h List.not_mem_nil, fun _ h => absurd h List.not_mem_nil,
    fun _ _ => rfl, fun _ _ => rfl⟩

theorem evalAll_names {ids : List String} {vs : List PyValue}
    (h : List.Forall₂ (fun id v => lookup frames scopes id = .ok v) ids vs) :
    evalAll py sc (callAt py sc depth) scopes (ids.map nameAst) ⟨s, frames⟩ =
      (.ok vs, ⟨s, frames⟩) := by
  induction h with
  | nil => rfl
  | cons hid _ ih =>
    rw [List.map_cons, evalAll, nameAst, Term.eval, Fallible.run_bind_of_ok (loadName_of_ok hid),
      Fallible.run_bind_of_ok ih]
    rfl

/-- The call of `deepcopy` that passes a variable. -/
theorem eval_deepcopy (h : lookup frames scopes "deepcopy" = .ok .deepcopy) {a : String}
    {v : PyValue} (hv : lookup frames scopes a = .ok v) :
    (callFuncAst "deepcopy" (.inl [nameAst a])).eval py sc (callAt py sc depth) scopes
      ⟨s, frames⟩ = copyValue v ⟨s, frames⟩ := by
  have hargs : evalAll py sc (callAt py sc depth) scopes [nameAst a] ⟨s, frames⟩ =
      (.ok [v], ⟨s, frames⟩) :=
    @evalAll_names py sc depth scopes frames s [a] [v] (.cons hv .nil)
  rw [callFuncAst, Term.eval, Fallible.run_bind_of_ok (loadName_of_ok h),
    Fallible.run_bind_of_ok hargs, evalKeywords, ← @callAt_deepcopy py sc depth]
  rfl

/-- The call of `deepcopy` on a variable that is not bound. -/
theorem eval_deepcopy_error (h : lookup frames scopes "deepcopy" = .ok .deepcopy) {a : String}
    {e : PythonError} (hv : lookup frames scopes a = .error e) :
    (callFuncAst "deepcopy" (.inl [nameAst a])).eval py sc (callAt py sc depth) scopes
      ⟨s, frames⟩ = (.error (.error e), ⟨s, frames⟩) := by
  have hargs : evalAll py sc (callAt py sc depth) scopes [nameAst a] ⟨s, frames⟩ =
      (.error (.error e), ⟨s, frames⟩) := by
    rw [evalAll, nameAst, Term.eval]
    exact Fallible.run_bind_of_error (loadName_of_error hv)
  rw [callFuncAst, Term.eval, Fallible.run_bind_of_ok (loadName_of_ok h)]
  exact Fallible.run_bind_of_error hargs

theorem lookup_cons_ne {a a' : String} {v : PyValue} {given : List (String × PyValue)}
    (h : a' ≠ a) : ((a, v) :: given).lookup a' = given.lookup a' := by
  rw [List.lookup_cons, beq_eq_false_iff_ne.mpr h]

/-- One more argument, in front of the others. -/
theorem Passed.cons {a : String} {v : PyValue} {args : List String}
    {given : List (String × PyValue)} {callee₁ : Frame} (ha : a ∉ args)
    (h : Passed sc args given callee₁ callee')
    (hentity : ∀ e, sc.entities a = some e → v = .entity e (callee₁.outputs a))
    (hobject : sc.entities a = none → ∃ o, v = .object o ∧ callee₁.locals a = some o)
    (houtputs : ∀ a' ≠ a, callee₁.outputs a' = callee.outputs a')
    (hlocals : ∀ a' ≠ a, callee₁.locals a' = callee.locals a') :
    Passed sc (a :: args) ((a, v) :: given) callee callee' := by
  have hne : ∀ {a'}, a' ∈ args → a' ≠ a := by
    rintro a' ha' rfl
    exact ha ha'
  refine ⟨congrArg (a :: ·) h.names, fun a' hmem e he => ?_, fun a' hmem hnone => ?_,
    fun a' hmem => ?_, fun a' hmem => ?_⟩
  · rcases List.mem_cons.mp hmem with rfl | hmem
    · rw [List.lookup_cons_self, hentity e he, h.outputs _ ha]
    · rw [lookup_cons_ne (hne hmem)]
      exact h.entity a' hmem e he
  · rcases List.mem_cons.mp hmem with rfl | hmem
    · obtain ⟨o, rfl, ho⟩ := hobject hnone
      exact ⟨o, List.lookup_cons_self, (h.locals _ ha).trans ho⟩
    · rw [lookup_cons_ne (hne hmem)]
      exact h.object a' hmem hnone
  · rw [List.mem_cons, not_or] at hmem
    exact (h.outputs a' hmem.2).trans (houtputs a' hmem.1)
  · rw [List.mem_cons, not_or] at hmem
    exact (h.locals a' hmem.2).trans (hlocals a' hmem.1)

/-- **The arguments of a branch**: the keywords of the call are evaluated as the arguments of the
traced call are copied. -/
theorem evalKeywords_lock {args : List String} (hsees : Sees sc scopes fr frames)
    (hdeepcopy : lookup frames scopes "deepcopy" = .ok .deepcopy) (hnodup : args.Nodup)
    (hargs : ∀ a ∈ args, a ∉ reserved) :
    Lock (fun given st callee' s' => Passed sc args given callee callee' ∧ st = ⟨s', frames⟩)
      (evalKeywords py sc (callAt py sc depth) scopes
        (args.map fun a => (a, callFuncAst "deepcopy" (.inl [nameAst a]))))
      frames (fr.bindArgs sc callee args) s := by
  induction args generalizing callee s with
  | nil => exact Fallible.Lockstep.pure ⟨.nil sc callee, rfl⟩
  | cons a args ih =>
    obtain ⟨ha, hnodup⟩ := List.nodup_cons.mp hnodup
    have hrest := fun callee s => @ih callee s hnodup fun a' ha' => hargs a' (by simp [ha'])
    rw [List.map_cons, evalKeywords, Frame.bindArgs]
    cases hentity : sc.entities a with
    | some e =>
      have heval := @eval_deepcopy py sc depth scopes frames s hdeepcopy a _
        (hsees.entities a e hentity)
      have hcopy : Lock (fun v st cell s' => v = .entity e cell ∧ st = ⟨s', frames⟩)
          (copyValue (.entity e (fr.outputs a))) frames (Records.deepcopy (fr.outputs a)) s := by
        refine (onRecords_lock _).andThen ?_
        rintro cell _ _ s' ⟨rfl, rfl⟩
        exact ⟨_, _, rfl, rfl, rfl⟩
      refine (Fallible.Lockstep.of_eq heval hcopy).bind ?_
      rintro _ _ cell s' ⟨rfl, rfl⟩
      refine (hrest _ _).andThen ?_
      rintro given _ callee' s'' ⟨hpassed, rfl⟩
      refine ⟨_, _, rfl, hpassed.cons ha (fun e' he' => ?_) (fun hnone => ?_) (fun a' ha' => ?_)
        fun _ _ => rfl, rfl⟩
      · rw [hentity] at he'
        cases he'
        exact congrArg _ (if_pos rfl).symm
      · rw [hentity] at hnone
        cases hnone
      · exact if_neg ha'
    | none =>
      have hlookup := hsees.locals a (hargs a (by simp)) hentity
      cases ho : fr.lookup a with
      | error e =>
        rw [ho] at hlookup
        exact Fallible.Lockstep.of_error
          (Fallible.run_bind_of_error (eval_deepcopy_error hdeepcopy hlookup)) rfl rfl
      | ok o =>
        rw [ho] at hlookup
        refine Fallible.Lockstep.step (eval_deepcopy hdeepcopy hlookup) ?_
        refine (hrest (callee.bind a o) s).andThen ?_
        rintro given _ callee' s'' ⟨hpassed, rfl⟩
        refine ⟨_, _, rfl, hpassed.cons ha (fun e' he' => ?_) (fun _ => ⟨o, rfl, if_pos rfl⟩)
          (fun _ _ => rfl) fun a' ha' => if_neg ha', rfl⟩
        rw [hentity] at he'
        cases he'

/-- The code of a branch binds what is stored in the branch, and names of generated code. -/
structure Branch (sc : Scope) (body : List Stmt) (stores : List Symbol) : Prop where
  binds : ∀ id ∈ bindsAll body, id ∈ reserved ∧ id ≠ "zip" ∨ .name id ∈ stores
  bound : ∀ id, .name id ∈ stores → id ∈ bindsAll body
  known : ∀ symbol ∈ stores, Known sc symbol

/-- **The frame of a branch** sees what the frame of the traced call sees. -/
theorem sees_called {args : List String} {body : List Stmt} {stores : List Symbol}
    {given : List (String × PyValue)} (hsc : Unreserved sc) (hsees : Sees sc scopes fr frames)
    (hscopes : ∀ i ∈ scopes, i < frames.next) (hargs : ∀ a ∈ args, a ∉ reserved)
    (hbranch : Branch sc body stores)
    (hpassed : Passed sc args given
      { fr with locals := fun id => if .name id ∈ stores then none else fr.locals id } callee') :
    Sees sc (frames.next :: scopes) callee' (frames.alloc (.called args body given)) := by
  have houter : ∀ id, lookup (frames.alloc (.called args body given)) scopes id =
      lookup frames scopes id :=
    lookup_congr fun i hi => Heap.cell_alloc_of_lt (hscopes i hi) _
  have hinner : ∀ id, lookup (frames.alloc (.called args body given)) (frames.next :: scopes) id =
      if id ∈ args ++ bindsAll body then (given.lookup id).elim (.error (.nameError id)) .ok
      else lookup frames scopes id := by
    intro id
    have hvars : (PyFrame.called args body given).vars id = given.lookup id := rfl
    rw [lookup, Heap.cell_alloc_next, houter, hvars]
    by_cases hid : id ∈ args ++ bindsAll body
    · rw [if_pos hid]
      refine (if_pos (decide_eq_true hid)).trans ?_
      cases given.lookup id <;> rfl
    · rw [if_neg hid]
      exact if_neg (by simpa [PyFrame.called] using hid)
  have hkey : ∀ id ∉ args, given.lookup id = none := by
    intro id hid
    rw [List.lookup_eq_none_iff]
    intro b hb
    rw [bne_iff_ne]
    rintro rfl
    exact hid (hpassed.names ▸ List.mem_map_of_mem hb)
  refine ⟨fun id hid hnone => ?_, fun v e he => ?_, ?_⟩
  · rw [hinner]
    by_cases harg : id ∈ args
    · obtain ⟨o, hlookup, hlocal⟩ := hpassed.object id harg hnone
      rw [if_pos (List.mem_append_left _ harg), hlookup, Frame.lookup, hlocal]
      rfl
    · have hlocal := hpassed.locals id harg
      simp only at hlocal
      by_cases hbind : id ∈ bindsAll body
      · have hmem := (hbranch.binds id hbind).resolve_left fun h => hid h.1
        rw [if_pos (List.mem_append_right _ hbind), hkey id harg, Frame.lookup, hlocal,
          if_pos hmem]
        rfl
      · have hmem : .name id ∉ stores := fun h => hbind (hbranch.bound id h)
        rw [if_neg (by simp [harg, hbind]), hsees.locals id hid hnone, Frame.lookup,
          Frame.lookup, hlocal, if_neg hmem]
  · rw [hinner]
    by_cases harg : v ∈ args
    · rw [if_pos (List.mem_append_left _ harg), hpassed.entity v harg e he]
      rfl
    · have hbind : v ∉ bindsAll body := by
        intro h
        rcases hbranch.binds v h with h | h
        · rw [hsc v h.1] at he
          cases he
        · rw [show sc.entities v = none from (hbranch.known _ h).knows] at he
          cases he
      rw [if_neg (by simp [harg, hbind]), hsees.entities v e he, hpassed.outputs v harg]
  · have harg : "zip" ∉ args := fun h => hargs "zip" h (by decide)
    have hbind : "zip" ∉ bindsAll body := fun h =>
      (hbranch.binds "zip" h).elim (fun h => h.2 rfl) fun h =>
        (hbranch.known _ h).notMem (by decide)
    rw [hinner, if_neg (by simp [harg, hbind]), hsees.zip]

/-! ### Functions -/

/-- The run of a body goes as the trace of a block in every frame inside of others. -/
def Follows (py : Python) (sc : Scope) (depth : ℕ) (enclosing : List ℕ) (body : List Stmt)
    (block : Frame → Fallible Records PythonError Frame) : Prop :=
  ∀ frame frames fr s, (∀ i ∈ frame :: enclosing, i < frames.next) →
    Sees sc (frame :: enclosing) fr frames →
    (∀ id ∈ bindsAll body, (frames.cell frame).isLocal id) →
    Lock (fun v st fr' s' => v = none ∧ Ran sc frame enclosing frames st fr' s')
      (execAll py sc (callAt py sc depth) frame enclosing body) frames (block fr) s

theorem execAll_append (call : Calls) (frame : ℕ) (enclosing : List ℕ) (l₁ l₂ : List Stmt)
    (st : PyState) : execAll py sc call frame enclosing (l₁ ++ l₂) st =
      (execAll py sc call frame enclosing l₁ >>= fun v => match v with
        | some v => pure (some v)
        | none => execAll py sc call frame enclosing l₂) st := by
  induction l₁ generalizing st with
  | nil => rfl
  | cons stmt l₁ ih =>
    rw [List.cons_append, execAll, execAll]
    rcases hstmt : stmt.exec py sc call frame enclosing st with ⟨e | v, st'⟩
    · rw [Fallible.run_bind_of_error hstmt]
      exact (Fallible.run_bind_of_error (Fallible.run_bind_of_error hstmt)).symm
    · rw [Fallible.run_bind_of_ok hstmt, Fallible.run_bind, Fallible.run_bind_of_ok hstmt]
      cases v with
      | some v => rfl
      | none => exact ih st'

/-- The statement at the end of the function of a branch. -/
def returnStmts : List Symbol → List Stmt
  | [] => []
  | r :: rs => [.ret (.tuple ((r :: rs).map .leaf))]

theorem wrapFuncAst_tuple (name : String) (args : List String) (block : List Stmt)
    (returns : List Symbol) : wrapFuncAst name args block returns true =
      .functionDef name args (block ++ returnStmts returns) := by
  cases returns with
  | nil => rfl
  | cons r rs => simp [wrapFuncAst, returnStmts]

theorem bindsAll_returnStmts (returns : List Symbol) : bindsAll (returnStmts returns) = [] := by
  cases returns <;> rfl

/-- What the function of a branch returns. -/
def returned (returns : List Symbol) (os : List Object) : PyValue :=
  if returns = [] then .none else .tuple os

theorem returnStmts_lock {frame : ℕ} {enclosing : List ℕ} {returns : List Symbol}
    (hsees : Sees sc (frame :: enclosing) fr frames) (hknown : ∀ r ∈ returns, Known sc r) :
    Lock (fun v st os s' => v.getD .none = returned returns os ∧ os.length = returns.length ∧
        st = ⟨s', frames⟩)
      (execAll py sc (callAt py sc depth) frame enclosing (returnStmts returns)) frames
      (Fallible.mapEach (fr.load sc) returns) s := by
  cases returns with
  | nil => exact Fallible.Lockstep.pure ⟨rfl, rfl, rfl⟩
  | cons r rs =>
    have hitems : List.Forall₂ (fun e symbol => e = .leaf symbol ∧ Known sc symbol)
        ((r :: rs).map Expr.leaf) (r :: rs) := by
      rw [List.forall₂_map_left_iff, List.forall₂_same]
      exact fun symbol hmem => ⟨rfl, hknown symbol hmem⟩
    have heach : Lock (fun os st os' s' => List.Forall₂ Eq os os' ∧ st = ⟨s', frames⟩)
        (Fallible.mapEach (runExpr py sc (frame :: enclosing)) ((r :: rs).map .leaf)) frames
        (Fallible.mapEach (fr.load sc) (r :: rs)) s := by
      refine Fallible.Lockstep.mapEach hitems ?_ rfl
      rintro _ symbol _ s' ⟨rfl, hsymbol⟩ rfl
      exact load_lock hsees hsymbol
    have hvalue : Lock (fun v st os s' => v = .tuple os ∧ os.length = (r :: rs).length ∧
          st = ⟨s', frames⟩)
        (Term.eval py sc (callAt py sc depth) (frame :: enclosing)
          (.tuple ((r :: rs).map .leaf))) frames (Fallible.mapEach (fr.load sc) (r :: rs)) s := by
      rw [Term.eval]
      refine heach.and_run.andThen ?_
      rintro os _ os' s' ⟨⟨heq, rfl⟩, hrun⟩
      obtain rfl := List.forall₂_eq_eq_eq ▸ heq
      exact ⟨_, _, rfl, rfl, (Frame.mapEach_load_eq_ok hrun).1.length_eq.symm, rfl⟩
    have hret : Lock (fun v st os s' => v = some (.tuple os) ∧ os.length = (r :: rs).length ∧
          st = ⟨s', frames⟩)
        (Stmt.exec py sc (callAt py sc depth) frame enclosing
          (.ret (.tuple ((r :: rs).map .leaf)))) frames
        (Fallible.mapEach (fr.load sc) (r :: rs)) s := by
      rw [Stmt.exec]
      refine hvalue.andThen ?_
      rintro _ _ os s' ⟨rfl, hlen, rfl⟩
      exact ⟨_, _, rfl, rfl, hlen, rfl⟩
    rw [returnStmts, execAll]
    refine hret.andThen ?_
    rintro _ _ os s' ⟨rfl, hlen, rfl⟩
    exact ⟨_, _, rfl, by simp [returned], hlen, rfl⟩

theorem bindParams_keywords {params : List String} {given : List (String × PyValue)}
    (h : given.map Prod.fst = params) : bindParams params [] given = .ok given := by
  rw [bindParams, if_pos]
  · simp
  · simp [h]

/-- **A branch is called** as the trace calls it: the function that was made of it gets the copies,
runs in a frame of its own and returns what the branch stores. -/
theorem call_lock {activity : Block.Activity} {name : String} {body : List Stmt}
    {stores : List Symbol} {block : Frame → Fallible Records PythonError Frame}
    (hsc : Unreserved sc) (hsees : Sees sc scopes fr frames)
    (hscopes : ∀ i ∈ scopes, i < frames.next)
    (hdeepcopy : lookup frames scopes "deepcopy" = .ok .deepcopy)
    (hname : lookup frames scopes name =
      .ok (.function activity.args (body ++ returnStmts activity.returns) scopes))
    (hnodup : activity.args.Nodup) (hargs : ∀ a ∈ activity.args, a ∉ reserved)
    (hreturns : ∀ r ∈ activity.returns, Known sc r)
    (hbranch : Branch sc body stores)
    (hbody : Follows py sc depth scopes body block) :
    Lock (fun v st os s' => v = returned activity.returns os ∧
        os.length = activity.returns.length ∧ st.records = s' ∧ frames.Extends st.frames)
      ((callFuncAst name (.inr (activity.args.map fun a =>
        (a, callFuncAst "deepcopy" (.inl [nameAst a]))))).eval py sc (callAt py sc (depth + 1))
          scopes)
      frames (fr.call sc activity stores block) s := by
  rw [callFuncAst, Term.eval, evalAll]
  refine Fallible.Lockstep.step (loadName_of_ok hname) (Fallible.Lockstep.step rfl ?_)
  refine (evalKeywords_lock hsees hdeepcopy hnodup hargs).bind ?_
  rintro given _ callee s₁ ⟨hpassed, rfl⟩
  rw [callAt, bindParams_keywords hpassed.names]
  refine Fallible.Lockstep.step rfl (Fallible.Lockstep.step rfl ?_)
  have hall : bindsAll (body ++ returnStmts activity.returns) = bindsAll body := by
    rw [bindsAll_append, bindsAll_returnStmts, List.append_nil]
  have hcallee := sees_called hsc hsees hscopes hargs
    (⟨hall ▸ hbranch.binds, hall ▸ hbranch.bound, hbranch.known⟩ : Branch sc _ stores) hpassed
  have hbelow : ∀ i ∈ frames.next :: scopes, i < frames.next + 1 := by
    intro i hi
    rcases List.mem_cons.mp hi with rfl | hi
    · exact Nat.lt_succ_self _
    · exact (hscopes i hi).trans (Nat.lt_succ_self _)
  have hlocal : ∀ id ∈ bindsAll body, ((frames.alloc (.called activity.args
      (body ++ returnStmts activity.returns) given)).cell frames.next).isLocal id := by
    intro id hid
    rw [Heap.cell_alloc_next, PyFrame.called, hall]
    exact decide_eq_true (List.mem_append_right _ hid)
  have hexec : Lock (fun v st os s' => v.getD .none = returned activity.returns os ∧
        os.length = activity.returns.length ∧ st.records = s' ∧ frames.Extends st.frames)
      (execAll py sc (callAt py sc depth) frames.next scopes
        (body ++ returnStmts activity.returns))
      (frames.alloc (.called activity.args (body ++ returnStmts activity.returns) given))
      (block callee >>= fun callee => Fallible.mapEach (callee.load sc) activity.returns) s₁ := by
    refine .of_eq (execAll_append _ _ _ _ _ _) ((hbody _ _ _ _ hbelow hcallee hlocal).bind ?_)
    rintro _ ⟨_, frames'⟩ callee' s' ⟨rfl, rfl, hsees', hkept⟩
    refine (returnStmts_lock hsees' hreturns).mono ?_
    rintro v _ os s'' ⟨hv, hlen, rfl⟩
    exact ⟨hv, hlen, rfl, hkept.extends_of_alloc⟩
  refine hexec.andThen ?_
  rintro v st os s' ⟨hv, hlen, hrecords, hext⟩
  exact ⟨_, _, rfl, hv, hlen, hrecords, hext⟩

end Calls
end Bentobox.Sdk.Gast
