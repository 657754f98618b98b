import Bentobox.Engine.Atomicity
import Bentobox.Engine.Integers
import Bentobox.Sdk.GraphNode

/-!
# Comparisons and their lowering

The engine has an operation of its own for every comparison but `!=`, and the SDK records only
`Lt`, `Eq`, `Or` and `Not`. On operands without random operations the node that is recorded
for a comparison has the value of the engine's own node.
-/
namespace Bentobox.Sdk

namespace CompareOperator
variable (F : FloatOps) {σ : Valuation}

/-- The engine's own node for a comparison; `!=` is the negation of `==`. -/
def native (x y : Node) : CompareOperator → Node
  | lt => .binary .lt x y
  | gt => .binary .gt x y
  | eq => .binary .eq x y
  | ne => .unary .not (.binary .eq x y)
  | le => .binary .le x y
  | ge => .binary .ge x y

/-- The comparison of two integers. -/
def holds (i j : ℤ) : CompareOperator → Bool
  | lt => decide (i < j)
  | gt => decide (i > j)
  | eq => decide (i = j)
  | ne => decide (i ≠ j)
  | le => decide (i ≤ j)
  | ge => decide (i ≥ j)

theorem denote_native (op : CompareOperator) (x y : Node) : denote F σ (op.native x y) =
    (denote F σ x).bind fun v => (denote F σ y).bind fun w => op.apply F v w := by
  cases op with
  | ne =>
    simp only [native, denote, binaryOp, unaryOp, apply]
    cases denote F σ x <;> cases denote F σ y <;> rfl
  | _ => rfl

theorem randomFree_native (op : CompareOperator) {x y : Node} (hx : x.randomFree)
    (hy : y.randomFree) : (op.native x y).randomFree := by
  cases op <;> simp [native, Node.randomFree, hx, hy]

variable {F}

/-- A comparison of two operands that succeeds gives a boolean. -/
private theorem isBool_of_runFn {α : Type} {allowed : Scalar → Option α} {v w u : Value}
    {fn : α → α → Except Fault Scalar} (hfn : ∀ a b s, fn a b = .ok s → ∃ c, s = .bool c)
    (h : setVal <$> runFnWithVal₂ allowed v w fn = .ok u) : ∃ c, u = setVal (.bool c) := by
  obtain ⟨s, hs, rfl⟩ := Fallible.map_eq_ok_iff.mp h
  obtain ⟨a, b, -, -, hab⟩ := runFnWithVal₂_eq_ok_iff.mp hs
  obtain ⟨c, rfl⟩ := hfn a b s hab
  exact ⟨c, rfl⟩

private theorem isBool_of_compareOp {op : CompareOp} {v w u : Value}
    (h : compareOp F op v w = .ok u) : ∃ c, u = setVal (.bool c) := by
  refine isBool_of_runFn (fun a b s hs => ?_) h
  cases hs
  rw [CompareOp.apply]
  split <;> exact ⟨_, rfl⟩

private theorem isBool_of_eqOp {v w u : Value} (h : eqOp F v w = .ok u) :
    ∃ c, u = setVal (.bool c) := by
  rw [eqOp] at h
  split at h
  · exact isBool_of_compareOp h
  · exact isBool_of_runFn (fun a b s hs => ⟨_, (Except.ok.inj hs).symm⟩) h
  · exact isBool_of_runFn (fun a b s hs => ⟨_, (Except.ok.inj hs).symm⟩) h
  · cases h

/-- A comparison that succeeds gives a boolean. -/
theorem isBool_of_apply {op : CompareOperator} {v w u : Value} (h : op.apply F v w = some u) :
    ∃ b, u = setVal (.bool b) := by
  cases op with
  | eq => exact isBool_of_eqOp (Fallible.toOption_eq_some_iff.mp h)
  | ne =>
    obtain ⟨x, hx, hn⟩ := Option.bind_eq_some_iff.mp h
    obtain ⟨b, rfl⟩ := isBool_of_eqOp (Fallible.toOption_eq_some_iff.mp hx)
    cases hn
    exact ⟨!b, rfl⟩
  | _ => exact isBool_of_compareOp (Fallible.toOption_eq_some_iff.mp h)

private theorem compareOp_of_holds (op : CompareOp) {v w : Value} {i j : ℤ} (hv : v.Holds i)
    (hw : w.Holds j) :
    (compareOp F op v w).toOption = some (setVal (.bool (op.int i j))) := by
  obtain ⟨a, ha, rfl⟩ := hv
  obtain ⟨b, hb, rfl⟩ := hw
  rw [compareOp_toOption, Value.getVal?_of_integer ha, Value.getVal?_of_integer hb,
    Option.bind_some, Option.map_some, CompareOp.apply_integers]

/-- **Integers are compared exactly**, whatever their widths. -/
theorem apply_of_holds (op : CompareOperator) {v w : Value} {i j : ℤ} (hv : v.Holds i)
    (hw : w.Holds j) : op.apply F v w = some (setVal (.bool (op.holds i j))) := by
  have heq : (eqOp F v w).toOption = some (setVal (.bool (decide (i = j)))) := by
    obtain ⟨a, ha, hi⟩ := hv
    rw [eqOp_of_number F (Value.getVal?_of_integer ha)]
    exact compareOp_of_holds equal ⟨a, ha, hi⟩ hw
  cases op with
  | eq => exact heq
  | ne =>
    simp only [apply, heq, Option.bind_some]
    simp [notOp, holds, Scalar.bool?, Except.toOption]
  | lt => exact compareOp_of_holds less hv hw
  | gt => exact compareOp_of_holds greater hv hw
  | le => exact compareOp_of_holds lessEqual hv hw
  | ge => exact compareOp_of_holds greaterEqual hv hw

end CompareOperator

/-- **Comparisons are lowered correctly.** What is recorded for a comparison that a `GraphNode`
decides, by its own method or by the reflected one, has on every store the value of the engine's
own node: the same boolean, or both fail. On integers it is the comparison of the numbers. -/
theorem comparison_agrees {F : FloatOps} {py : Python} {op : CompareOperator} {x y : Object}
    {n m : Node} (hx : x.wrap = .ok n) (hy : y.wrap = .ok m)
    (hg : Python.compareOverloaded op x y) (hn : n.randomFree) (hm : m.randomFree) {s : Env Stores}
    (hs : s.store.Wf) :
    ∃ o k, py.compareOp op x y = .ok o ∧ o.wrap = .ok k ∧
      (evaluateNode F k s).1.toOption = (evaluateNode F (op.native n m) s).1.toOption ∧
      (∀ v, (evaluateNode F k s).1 = .ok v → ∃ b, v = setVal (.bool b)) ∧
      ∀ i j, EvaluatesTo F n s i → EvaluatesTo F m s j →
        (evaluateNode F k s).1 = .ok (setVal (.bool (op.holds i j))) := by
  obtain ⟨o, k, ho, hk, hfree⟩ : ∃ o k, py.compareOp op x y = .ok o ∧ o.wrap = .ok k ∧
      k.randomFree := by
    have hover : py.compareOp op x y = .ok (op.overload n m) ∨
        py.compareOp op x y = .ok (op.reflected.overload m n) :=
      Python.compareOp_of_overloaded hx hy hg
    rcases hover with h | h
    · obtain ⟨k, hk, -⟩ := @denotes_overload F s.store.valuation op n m
      exact ⟨_, k, h, hk, Object.randomFree_wrap (op.randomFree_overload hn hm) hk⟩
    · obtain ⟨k, hk, -⟩ := @denotes_overload F s.store.valuation op.reflected m n
      exact ⟨_, k, h, hk, Object.randomFree_wrap (op.reflected.randomFree_overload hm hn) hk⟩
  have hval : (evaluateNode F k s).1.toOption = (denote F s.store.valuation n).bind fun v =>
      (denote F s.store.valuation m).bind fun w => op.apply F v w := by
    rw [Stores.evaluateNode_denote F hfree hs]
    obtain ⟨k', hk', hv⟩ := Python.compareOp_denotes ⟨n, hx, rfl⟩ ⟨m, hy, rfl⟩ hg ho
    cases hk.symm.trans hk'
    exact hv
  refine ⟨o, k, ho, hk, ?_, fun v hv => ?_, fun i j hi hj => ?_⟩
  · rw [hval, Stores.evaluateNode_denote F (op.randomFree_native hn hm) hs, op.denote_native]
  · rw [hv] at hval
    obtain ⟨a, -, hval⟩ := Option.bind_eq_some_iff.mp hval.symm
    obtain ⟨b, -, hval⟩ := Option.bind_eq_some_iff.mp hval
    exact CompareOperator.isBool_of_apply hval
  · obtain ⟨v, hv, hi⟩ := hi
    obtain ⟨w, hw, hj⟩ := hj
    have hdn : denote F s.store.valuation n = some v := by
      rw [← Stores.evaluateNode_denote F hn hs, hv]
      rfl
    have hdm : denote F s.store.valuation m = some w := by
      rw [← Stores.evaluateNode_denote F hm hs, hw]
      rfl
    refine Fallible.toOption_eq_some_iff.mp ?_
    rw [hval, hdn, Option.bind_some, hdm, Option.bind_some, op.apply_of_holds hi hj]

/-- `3 <= x` for a number `x` of 64 bits, by the reflected method. -/
theorem comparison_agrees_three : ∃ (s : Env Stores) (k : Node),
    (evaluateNode default k s).1 = .ok (setVal (.bool true)) := by
  have hreach : (Engine.afterApply (Engine.twoCells false)).Reachable default :=
    ⟨0, [.applySimulation (Engine.twoCells false)], _, rfl⟩
  have hwf := hreach.wf "s" ⟨Engine.twoCells false, _, false⟩ rfl
  obtain ⟨o, k, -, -, -, -, hint⟩ := @comparison_agrees default default .le (.native (.int 3))
    (.graphNode (.const (setVal (.number (.int64 5))))) _ _ rfl rfl rfl rfl rfl ⟨_, 0⟩ hwf
  exact ⟨_, k, hint 3 5 ⟨_, rfl, _, rfl, rfl⟩ ⟨_, rfl, _, rfl, rfl⟩⟩

end Bentobox.Sdk
