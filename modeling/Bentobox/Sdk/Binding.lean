import Bentobox.Sdk.Scoping

/-!
# Bound names

Which locals are bound in the frames of generated code, and where a `NameError` can come
from: a local that is loaded, passed or returned and is not bound.
-/
namespace Bentobox.Sdk

/-! ## Operators -/

def PythonError.isNameError : PythonError → Bool
  | nameError _ => true
  | _ => false

/-- Python's own operators raise no `NameError`. -/
structure Python.RaisesNoNameError (py : Python) : Prop where
  arithmetic : ∀ op x y e, py.arithmetic op x y = .error e → ¬ e.isNameError
  negative : ∀ x e, py.negative x = .error e → ¬ e.isNameError
  positive : ∀ x e, py.positive x = .error e → ¬ e.isNameError
  compare : ∀ op x y e, py.compare op x y = .error e → ¬ e.isNameError
  compareMessage : ∀ op x y e, py.compareMessage op x y = .error e → ¬ e.isNameError

section Operators
variable {py : Python} {o x y : Object} {e : PythonError}

theorem Object.wrap_isNameError (h : o.wrap = .error e) : ¬ e.isNameError := by
  cases o with
  | native val =>
    have hw : wrapPrimitive val = .error e := Fallible.map_eq_error_iff.mp h
    cases val with
    | int val =>
      simp only [wrapPrimitive] at hw
      split_ifs at hw
      cases hw
      exact Bool.false_ne_true
    | float | str | bool => cases hw
  | message | graphNode => cases h

theorem Object.wrap_bind_isNameError {f : Node → Except PythonError Object}
    (hf : ∀ n, f n = .error e → ¬ e.isNameError) (h : o.wrap >>= f = .error e) :
    ¬ e.isNameError := by
  rcases Fallible.result_bind_eq_error_iff.mp h with hw | ⟨n, -, h⟩
  · exact Object.wrap_isNameError hw
  · exact hf n h

theorem Plotter.unary_isNameError {fn : PlotterUnary} (h : Plotter.unary fn x = .error e) :
    ¬ e.isNameError := by
  unfold Plotter.unary at h
  split at h
  · cases h; exact Bool.false_ne_true
  · exact Object.wrap_isNameError (Fallible.map_eq_error_iff.mp h)

theorem Plotter.binary_isNameError {fn : PlotterBinary} (h : Plotter.binary fn x y = .error e) :
    ¬ e.isNameError := by
  refine Object.wrap_bind_isNameError (fun n hy => ?_) h
  exact Object.wrap_bind_isNameError (fun m h => by cases h) hy

theorem Plotter.random_isNameError (h : Plotter.random x y = .error e) : ¬ e.isNameError := by
  refine Object.wrap_bind_isNameError (fun n hy => ?_) h
  exact Object.wrap_bind_isNameError (fun m h => by cases h) hy

theorem Plotter.switch_isNameError {c : Object} (h : Plotter.switch c x y = .error e) :
    ¬ e.isNameError := by
  refine Object.wrap_bind_isNameError (fun n hx => ?_) h
  refine Object.wrap_bind_isNameError (fun m hy => ?_) hx
  exact Object.wrap_bind_isNameError (fun k h => by cases h) hy

namespace Python.RaisesNoNameError

theorem arithmeticOp (hpy : py.RaisesNoNameError) {op : ArithmeticOperator}
    (h : py.arithmeticOp op x y = .error e) : ¬ e.isNameError := by
  cases x with
  | graphNode => exact Object.wrap_isNameError (Fallible.map_eq_error_iff.mp h)
  | native | message =>
    cases y with
    | graphNode =>
      simp only [Python.arithmeticOp] at h
      split_ifs at h
      · exact hpy.arithmetic _ _ _ _ (Fallible.map_eq_error_iff.mp h)
      · exact Object.wrap_isNameError (Fallible.map_eq_error_iff.mp h)
    | native | message => exact hpy.arithmetic _ _ _ _ (Fallible.map_eq_error_iff.mp h)

theorem negativeOp (hpy : py.RaisesNoNameError) (h : py.negativeOp x = .error e) :
    ¬ e.isNameError := by
  cases x with
  | graphNode => cases h
  | native | message => exact hpy.negative _ _ (Fallible.map_eq_error_iff.mp h)

theorem positiveOp (hpy : py.RaisesNoNameError) (h : py.positiveOp x = .error e) :
    ¬ e.isNameError := by
  cases x with
  | graphNode => cases h
  | native | message => exact hpy.positive _ _ (Fallible.map_eq_error_iff.mp h)

theorem compareOp (hpy : py.RaisesNoNameError) {op : CompareOperator}
    (h : py.compareOp op x y = .error e) : ¬ e.isNameError := by
  cases x with
  | graphNode => exact Object.wrap_isNameError (Fallible.map_eq_error_iff.mp h)
  | native val =>
    cases y with
    | graphNode => exact Object.wrap_isNameError (Fallible.map_eq_error_iff.mp h)
    | native => exact hpy.compare _ _ _ _ (Fallible.map_eq_error_iff.mp h)
    | message => exact hpy.compareMessage _ _ _ _ h
  | message node =>
    cases y with
    | graphNode =>
      cases op with
      | eq | ne => exact hpy.compareMessage _ _ _ _ h
      | lt | gt | le | ge => cases h
    | native | message => exact hpy.compareMessage _ _ _ _ h

end Python.RaisesNoNameError

/-- An expression raises a `NameError` at one of its leaves only. -/
theorem Expr.trace_avoids {L S : Type} (hpy : py.RaisesNoNameError)
    {leafOp : L → Fallible S PythonError Object} (ex : Expr L)
    (hleaf : ∀ l ∈ ex.leaves, Fallible.Avoids (·.isNameError) (leafOp l)) :
    Fallible.Avoids (·.isNameError) (ex.trace py Fallible.ofExcept leafOp) := by
  induction ex with
  | const val => exact Fallible.Avoids.pure _
  | leaf l => exact hleaf l (by simp [leaves])
  | arithmetic op x y hx hy =>
    refine (hx fun l hl => hleaf l (by simp [leaves, hl])).bind fun a _ _ _ => ?_
    refine (hy fun l hl => hleaf l (by simp [leaves, hl])).bind fun b _ _ _ => ?_
    exact Fallible.Avoids.ofExcept fun _ => hpy.arithmeticOp
  | compare op x y hx hy =>
    refine (hx fun l hl => hleaf l (by simp [leaves, hl])).bind fun a _ _ _ => ?_
    refine (hy fun l hl => hleaf l (by simp [leaves, hl])).bind fun b _ _ _ => ?_
    exact Fallible.Avoids.ofExcept fun _ => hpy.compareOp
  | binary fn x y hx hy =>
    refine (hx fun l hl => hleaf l (by simp [leaves, hl])).bind fun a _ _ _ => ?_
    refine (hy fun l hl => hleaf l (by simp [leaves, hl])).bind fun b _ _ _ => ?_
    exact Fallible.Avoids.ofExcept fun _ => Plotter.binary_isNameError
  | random x y hx hy =>
    refine (hx fun l hl => hleaf l (by simp [leaves, hl])).bind fun a _ _ _ => ?_
    refine (hy fun l hl => hleaf l (by simp [leaves, hl])).bind fun b _ _ _ => ?_
    exact Fallible.Avoids.ofExcept fun _ => Plotter.random_isNameError
  | negative x hx =>
    exact (hx hleaf).bind fun a _ _ _ => Fallible.Avoids.ofExcept fun _ => hpy.negativeOp
  | positive x hx =>
    exact (hx hleaf).bind fun a _ _ _ => Fallible.Avoids.ofExcept fun _ => hpy.positiveOp
  | unary fn x hx =>
    exact (hx hleaf).bind fun a _ _ _ =>
      Fallible.Avoids.ofExcept fun _ => Plotter.unary_isNameError
  | not x hx => exact (hx hleaf).bind fun a _ _ _ => Fallible.Avoids.pure _
  | and x y hx hy =>
    refine (hx fun l hl => hleaf l (by simp [leaves, hl])).bind fun a _ _ _ => ?_
    split
    · exact hy fun l hl => hleaf l (by simp [leaves, hl])
    · exact Fallible.Avoids.pure _
  | or x y hx hy =>
    refine (hx fun l hl => hleaf l (by simp [leaves, hl])).bind fun a _ _ _ => ?_
    split
    · exact Fallible.Avoids.pure _
    · exact hy fun l hl => hleaf l (by simp [leaves, hl])
  | switch c x y hc hx hy | ternary c x y hc hx hy =>
    refine (hc fun l hl => hleaf l (by simp [leaves, hl])).bind fun d _ _ _ => ?_
    refine (hx fun l hl => hleaf l (by simp [leaves, hl])).bind fun a _ _ _ => ?_
    refine (hy fun l hl => hleaf l (by simp [leaves, hl])).bind fun b _ _ _ => ?_
    exact Fallible.Avoids.ofExcept fun _ => Plotter.switch_isNameError

end Operators

/-! ## Frames -/

section Frames
variable {py : Python} {sc : Scope}

theorem Scope.attrRef_isNameError {entity component attributeName : String} {e : PythonError}
    (hentity : (sc.entities entity).isSome)
    (h : sc.attrRef entity component attributeName = .error e) : ¬ e.isNameError := by
  obtain ⟨graphEntity, hsome⟩ := Option.isSome_iff_exists.mp hentity
  simp only [attrRef, hsome] at h
  split_ifs at h
  cases h
  exact Bool.false_ne_true

namespace Frame

theorem load_avoids {fr : Frame} {symbol : Symbol} (hknows : sc.Knows symbol)
    (hbound : symbol.isName → (fr.locals symbol.base).isSome) :
    Fallible.Avoids (·.isNameError) (fr.load sc symbol) := by
  cases symbol with
  | name id =>
    obtain ⟨o, ho⟩ := Option.isSome_iff_exists.mp (hbound rfl)
    refine Fallible.Avoids.ofExcept fun e he => ?_
    simp only [lookup, show fr.locals id = some o from ho] at he
    cases he
  | attr entity component attributeName =>
    refine (Fallible.Avoids.ofExcept fun e => Scope.attrRef_isNameError hknows).bind
      fun ref _ _ _ => ?_
    rintro s e s' ⟨⟩

theorem store_avoids {fr : Frame} {o : Object} {target : Symbol} (hknows : sc.Knows target) :
    Fallible.Avoids (·.isNameError) (fr.store sc o target) := by
  cases target with
  | name id => exact Fallible.Avoids.pure _
  | attr entity component attributeName =>
    refine (Fallible.Avoids.ofExcept fun e => Scope.attrRef_isNameError hknows).bind
      fun ref _ _ _ => ?_
    refine Fallible.Avoids.bind (fun s e s' h => ?_) fun _ _ _ _ => Fallible.Avoids.pure _
    simp only [Records.on, Recorder.write] at h
    cases hw : o.wrap with
    | ok n => rw [hw] at h; cases h
    | error e' => rw [hw] at h; cases h; exact Object.wrap_isNameError hw

theorem storeAll_avoids {fr : Frame} {bindings : List (Symbol × Object)}
    (hknows : ∀ b ∈ bindings, sc.Knows b.1) :
    Fallible.Avoids (·.isNameError) (fr.storeAll sc bindings) := by
  induction bindings generalizing fr with
  | nil => exact Fallible.Avoids.pure _
  | cons b bindings ih =>
    exact (store_avoids (hknows b (by simp))).bind fun fr' _ _ _ =>
      ih fun b' hb' => hknows b' (by simp [hb'])

theorem bindArgs_avoids {caller callee : Frame} {args : List String}
    (h : ∀ arg ∈ args, sc.entities arg = none → (caller.locals arg).isSome) :
    Fallible.Avoids (·.isNameError) (caller.bindArgs sc callee args) := by
  induction args generalizing callee with
  | nil => exact Fallible.Avoids.pure _
  | cons arg args ih =>
    have hrest : ∀ arg ∈ args, sc.entities arg = none → (caller.locals arg).isSome :=
      fun arg' harg' => h arg' (by simp [harg'])
    cases harg : sc.entities arg with
    | some entity =>
      simp only [bindArgs, harg]
      exact Fallible.Avoids.bind (by rintro s e s' ⟨⟩) fun cell _ _ _ => ih hrest
    | none =>
      obtain ⟨o, ho⟩ := Option.isSome_iff_exists.mp (h arg (by simp) harg)
      simp only [bindArgs, harg]
      refine (Fallible.Avoids.ofExcept fun e he => ?_).bind fun o' _ _ _ => ih hrest
      rw [lookup, ho] at he
      cases he

theorem isSome_of_lookup {fr : Frame} {id : String} {o : Object} (h : fr.lookup id = .ok o) :
    (fr.locals id).isSome := by
  rw [lookup] at h
  cases hl : fr.locals id with
  | none => rw [hl] at h; cases h
  | some o' => rfl

/-- A call needs its arguments, and binds them. -/
theorem bound_of_bindArgs {caller callee callee' : Frame} {args : List String} {s s' : Records}
    (h : caller.bindArgs sc callee args s = (.ok callee', s')) :
    (∀ arg ∈ args, sc.entities arg = none → (caller.locals arg).isSome) ∧
      ∀ id, (callee'.locals id).isSome ↔
        (id ∈ args ∧ sc.entities id = none) ∨ (callee.locals id).isSome := by
  induction args generalizing callee s with
  | nil =>
    cases h
    exact ⟨fun arg harg => by simp at harg, fun id => by simp⟩
  | cons arg args ih =>
    cases harg : sc.entities arg with
    | some entity =>
      simp only [bindArgs, harg] at h
      obtain ⟨cell, s₁, -, h⟩ := Fallible.bind_eq_ok_iff.mp h
      obtain ⟨hargs, hbound⟩ := ih h
      refine ⟨fun arg' hmem hnone => ?_, fun id => ?_⟩
      · rcases List.mem_cons.mp hmem with rfl | hmem
        · rw [harg] at hnone; cases hnone
        · exact hargs arg' hmem hnone
      · have hne : sc.entities id = none → id ≠ arg := by
          rintro hnone rfl
          rw [harg] at hnone; cases hnone
        rw [hbound id, List.mem_cons]
        grind
    | none =>
      simp only [bindArgs, harg] at h
      obtain ⟨o, s₁, ho, h⟩ := Fallible.bind_eq_ok_iff.mp h
      have hsome := isSome_of_lookup (Prod.ext_iff.mp ho).1
      obtain ⟨hargs, hbound⟩ := ih h
      refine ⟨fun arg' hmem hnone => ?_, fun id => ?_⟩
      · rcases List.mem_cons.mp hmem with rfl | hmem
        · exact hsome
        · exact hargs arg' hmem hnone
      · rw [hbound id, List.mem_cons, bind]
        by_cases hid : id = arg
        · subst hid
          simp [harg]
        · simp [hid]

theorem bound_of_enter {caller callee : Frame} {args : List String} {stores : List Symbol}
    {s s' : Records} (h : caller.enter sc args stores s = (.ok callee, s')) :
    (∀ arg ∈ args, sc.entities arg = none → (caller.locals arg).isSome) ∧
      ∀ id, (callee.locals id).isSome ↔ (id ∈ args ∧ sc.entities id = none) ∨
        (.name id ∉ stores ∧ (caller.locals id).isSome) := by
  obtain ⟨hargs, hbound⟩ := bound_of_bindArgs h
  refine ⟨hargs, fun id => ?_⟩
  rw [hbound id]
  by_cases hid : .name id ∈ stores
  · simp [hid]
  · simp [hid]

theorem bound_of_store {fr fr' : Frame} {o : Object} {target : Symbol} {s s' : Records}
    (h : fr.store sc o target s = (.ok fr', s')) (id : String) :
    (fr'.locals id).isSome ↔ .name id = target ∨ (fr.locals id).isSome := by
  cases target with
  | name id' =>
    obtain ⟨rfl, -⟩ := store_name h
    by_cases hid : id = id'
    · simp [bind, hid]
    · simp [bind, hid]
  | attr entity component attributeName =>
    obtain ⟨ref, n, -, -, rfl, -⟩ := store_attr h
    simp

theorem bound_of_storeAll {fr fr' : Frame} {bindings : List (Symbol × Object)} {s s' : Records}
    (h : fr.storeAll sc bindings s = (.ok fr', s')) (id : String) :
    (fr'.locals id).isSome ↔ .name id ∈ bindings.map Prod.fst ∨ (fr.locals id).isSome := by
  induction bindings generalizing fr s with
  | nil => cases h; simp
  | cons b bindings ih =>
    obtain ⟨fr₁, s₁, hstore, h⟩ := Fallible.bind_eq_ok_iff.mp h
    rw [ih h, bound_of_store hstore, List.map_cons, List.mem_cons, or_left_comm, or_assoc]

end Frame

theorem length_of_switchOutputs {condition : Object} {ifOutputs elseOutputs outputs : List Object}
    (hlen : ifOutputs.length = elseOutputs.length)
    (h : switchOutputs condition ifOutputs elseOutputs = .ok outputs) :
    outputs.length = ifOutputs.length := by
  induction ifOutputs generalizing elseOutputs outputs with
  | nil =>
    obtain rfl := List.length_eq_zero_iff.mp hlen.symm
    cases h; rfl
  | cons ifOut ifOutputs ih =>
    cases elseOutputs with
    | nil => cases hlen
    | cons elseOut elseOutputs =>
      obtain ⟨o, -, h⟩ := Fallible.result_bind_eq_ok_iff.mp h
      obtain ⟨os, hos, h⟩ := Fallible.result_bind_eq_ok_iff.mp h
      cases h
      exact congrArg Nat.succ (ih (Nat.succ.inj hlen) hos)

theorem switchOutputs_isNameError {condition : Object} {ifOutputs elseOutputs : List Object}
    {e : PythonError} (h : switchOutputs condition ifOutputs elseOutputs = .error e) :
    ¬ e.isNameError := by
  induction ifOutputs generalizing elseOutputs with
  | nil => cases h
  | cons ifOut ifOutputs ih =>
    cases elseOutputs with
    | nil => cases h
    | cons elseOut elseOutputs =>
      rcases Fallible.result_bind_eq_error_iff.mp h with h | ⟨o, -, h⟩
      · exact Plotter.switch_isNameError h
      rcases Fallible.result_bind_eq_error_iff.mp h with h | ⟨os, -, h⟩
      · exact ih h
      · cases h

/-- **The bound locals** after a trace: those that were bound before and those it assigns. -/
theorem bound_of_traceIfelse {activity : Block.Activity} {test : Expr Symbol}
    {body orelse : List Symbol} {traceBody traceOrelse : Frame → Fallible Records PythonError Frame}
    {fr fr' : Frame} {s s' : Records}
    (h : traceIfelse py sc activity test body orelse traceBody traceOrelse fr s = (.ok fr', s'))
    (id : String) :
    (fr'.locals id).isSome ↔ .name id ∈ activity.returns ∨ (fr.locals id).isSome := by
  obtain ⟨condition, s₀, ifOutputs, s₁, elseOutputs, s₂, outputs, -, hif, helse, hswitch, hstore⟩ :=
    traceIfelse_eq_ok h
  obtain ⟨_, _, _, _, -, -, hifOut, -⟩ := call_eq_ok hif
  obtain ⟨_, _, _, _, -, -, helseOut, -⟩ := call_eq_ok helse
  have hlen := length_of_switchOutputs (hifOut.length_eq.symm.trans helseOut.length_eq) hswitch
  rw [Frame.bound_of_storeAll hstore,
    List.map_fst_zip (hifOut.length_eq.trans hlen.symm).le]

theorem Block.bound_of_trace {b : Block Block.Activity} (hb : b.ReturnsStores) {fr fr' : Frame}
    {s s' : Records} (h : b.trace py sc fr s = (.ok fr', s')) (id : String) :
    (fr'.locals id).isSome ↔ .name id ∈ b.stores ∨ (fr.locals id).isSome := by
  induction b generalizing fr s with
  | done => cases h; simp [stores]
  | assign target value rest ih =>
    obtain ⟨fr₁, s₁, hassign, h⟩ := Fallible.bind_eq_ok_iff.mp h
    obtain ⟨o, s₂, -, hstore⟩ := Fallible.bind_eq_ok_iff.mp hassign
    rw [ih hb h, Frame.bound_of_store hstore, stores, List.mem_cons, or_left_comm, or_assoc]
  | ifelse activity test body orelse rest ihbody ihorelse ihrest =>
    obtain ⟨hreturns, -, -, hrest⟩ := hb
    obtain ⟨fr₁, s₁, hifelse, h⟩ := Fallible.bind_eq_ok_iff.mp h
    rw [ihrest hrest h, bound_of_traceIfelse hifelse, hreturns, stores, List.mem_append,
      List.mem_append]
    grind

end Frames

/-! ## Branches -/

section Branches
variable {α : Type} {py : Python} {sc : Scope} {all own bound defined : List Symbol}
  {captured : List Symbol} {activity : Block.Activity} {branch : Block Block.Activity} {fr : Frame}

/-- The call of a branch raises no `NameError` when what it passes and returns is bound. -/
theorem call_avoids (hbranch : branch.ReturnsStores)
    (hargs : ∀ arg ∈ activity.args, sc.entities arg = none → (fr.locals arg).isSome)
    (hcaptured : ∀ id, .name id ∈ captured → id ∈ activity.args ∧ sc.entities id = none)
    (hknows : ∀ symbol ∈ activity.returns, sc.Knows symbol)
    (hreturns : ∀ id, .name id ∈ activity.returns →
      .name id ∈ branch.stores ∨ (fr.locals id).isSome)
    (htrace : ∀ callee : Frame, (∀ id, .name id ∈ captured → (callee.locals id).isSome) →
      Fallible.Avoids (·.isNameError) (branch.trace py sc callee)) :
    Fallible.Avoids (·.isNameError) (fr.call sc activity branch.stores (branch.trace py sc)) := by
  refine (Frame.bindArgs_avoids hargs).bind fun callee s s' henter => ?_
  have hentered := (Frame.bound_of_enter henter).2
  refine (htrace callee fun id hid => (hentered id).mpr (.inl (hcaptured id hid))).bind
    fun callee' s₁ s₂ hrun => ?_
  refine Fallible.Avoids.mapEach fun symbol hmem =>
    Frame.load_avoids (hknows symbol hmem) fun hname => ?_
  cases symbol with
  | attr entity component attributeName => cases hname
  | name id =>
    rw [Symbol.base, Block.bound_of_trace hbranch hrun]
    by_cases hstored : .name id ∈ branch.stores
    · exact .inl hstored
    · exact .inr ((hentered id).mpr (.inr ⟨hstored, (hreturns id hmem).resolve_left hstored⟩))

/-- What a branch was passed and has returned was bound. -/
theorem bound_of_call (hbranch : branch.ReturnsStores) {os : List Object} {s s' : Records}
    (h : fr.call sc activity branch.stores (branch.trace py sc) s = (.ok os, s')) :
    (∀ arg ∈ activity.args, sc.entities arg = none → (fr.locals arg).isSome) ∧
      (∀ id, .name id ∈ activity.returns → .name id ∈ branch.stores ∨ (fr.locals id).isSome) ∧
      ∃ callee s₁ callee' s₂, branch.trace py sc callee s₁ = (.ok callee', s₂) ∧
        ∀ id, .name id ∈ branch.stores → (callee.locals id).isSome →
          id ∈ activity.args ∧ sc.entities id = none := by
  obtain ⟨callee, s₁, callee', s₂, henter, hrun, hos, -⟩ := call_eq_ok h
  obtain ⟨hargs, hentered⟩ := Frame.bound_of_enter henter
  refine ⟨hargs, fun id hmem => ?_, callee, s₁, callee', s₂, hrun, fun id hstored hbound => ?_⟩
  · obtain ⟨i, hi, hget⟩ := List.getElem_of_mem hmem
    have ho := (List.forall₂_iff_get.mp hos).2 i hi (hos.length_eq ▸ hi)
    rw [List.get_eq_getElem, hget] at ho
    have hsome := Frame.isSome_of_lookup ho
    rcases (Block.bound_of_trace hbranch hrun id).mp hsome with hstored | hbound
    · exact .inl hstored
    · rcases (hentered id).mp hbound with ⟨harg, hnone⟩ | ⟨-, hbound⟩
      · exact .inr (hargs id harg hnone)
      · exact .inr hbound
  · exact ((hentered id).mp hbound).resolve_right fun h => h.1 hstored

end Branches

end Bentobox.Sdk
