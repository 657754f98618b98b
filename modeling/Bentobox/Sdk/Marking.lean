import Bentobox.Sdk.StraightLine

/-!
# The calls of `random` in a recorded graph

Reusing a `GraphNode` copies it, so the node that one call of `g.random` made may occur in a
recorded graph many times. Here the calls of a straight-line function are numbered in the
order of the source, and a second graph is kept next to the recorded one in which every
random operation is marked with the number of its call.

What is kept is left to a `NodeAlgebra`. The marked graph is the general case
(`Tracked.run_fold`), and without the marks it is the recorded graph (`Tracked.outputs_of_run`).
-/
namespace Bentobox.Sdk

/-! ## Algebras -/

/-- What is made where a convert function makes a node; a random operation comes with the number
of the call that makes it. -/
structure NodeAlgebra (A : Type) where
  const : Value → A
  retrieve : AttributeRef → A
  unary : UnaryOp → A → A
  binary : BinaryOp → A → A → A
  switch : A → A → A → A
  random : ℕ → A → A → A

/-- A node with marked random operations. -/
inductive Marked
  | const (heldValue : Value)
  | retrieve (retrieveAttr : AttributeRef)
  | unary (op : UnaryOp) (x : Marked)
  | binary (op : BinaryOp) (x y : Marked)
  | switch (conditionNode trueNode falseNode : Marked)
  | random (call : ℕ) (low high : Marked)
  deriving DecidableEq, Repr

namespace NodeAlgebra
variable {A : Type}

def marking : NodeAlgebra Marked := ⟨.const, .retrieve, .unary, .binary, .switch, .random⟩

/-- The nodes themselves; the number of the call is dropped. -/
def node : NodeAlgebra Node :=
  ⟨.const, .retrieve, .unary, .binary, .switch, fun _ => .random⟩

variable (alg : NodeAlgebra A)

/-- `wrap` on a native value; no node is made of one that it refuses. -/
def native (val : Native) : A :=
  match wrapPrimitive val with
  | .ok v => alg.const v
  | .error _ => alg.const Value.blank

/-- An operator makes what the overload makes, unless its result is a native value. -/
def orNative (result : Except PythonError Object) (overload : A) : A :=
  match result with
  | .ok (.native val) => alg.native val
  | _ => overload

/-- The boolean overloads of `GraphNode`. -/
def overload (self other : A) : CompareOperator → A
  | .lt => alg.binary .lt self other
  | .gt => alg.binary .lt other self
  | .eq => alg.binary .eq self other
  | .ne => alg.unary .not (alg.binary .eq self other)
  | .le => alg.binary .or (alg.binary .lt self other) (alg.binary .eq self other)
  | .ge => alg.binary .or (alg.binary .lt other self) (alg.binary .eq self other)

end NodeAlgebra

namespace Marked
variable {A : Type} (alg : NodeAlgebra A)

/-- Make another thing in the way the node was made. -/
def fold : Marked → A
  | const v => alg.const v
  | retrieve ref => alg.retrieve ref
  | unary op x => alg.unary op x.fold
  | binary op x y => alg.binary op x.fold y.fold
  | switch c t f => alg.switch c.fold t.fold f.fold
  | random call l h => alg.random call l.fold h.fold

@[simp] theorem fold_native (val : Native) :
    (NodeAlgebra.marking.native val).fold alg = alg.native val := by
  unfold NodeAlgebra.native
  split <;> rfl

@[simp] theorem fold_orNative (result : Except PythonError Object) (m : Marked) :
    (NodeAlgebra.marking.orNative result m).fold alg = alg.orNative result (m.fold alg) := by
  unfold NodeAlgebra.orNative
  split
  · exact fold_native alg _
  · rfl

@[simp] theorem fold_overload (op : CompareOperator) (self other : Marked) :
    (NodeAlgebra.marking.overload self other op).fold alg =
      alg.overload (self.fold alg) (other.fold alg) op := by
  cases op <;> rfl

end Marked

namespace NodeAlgebra
variable {o : Object} {n m : Node}

theorem native_node {val : Native} (h : (Object.native val).wrap = .ok n) :
    node.native val = n := by
  obtain ⟨v, hv, rfl⟩ := Fallible.map_eq_ok_iff.mp h
  simp only [native, hv]
  rfl

theorem orNative_node {result : Except PythonError Object} (hr : result = .ok o)
    (hn : o.wrap = .ok n) (hover : (∀ val, o ≠ .native val) → m = n) :
    node.orNative result m = n := by
  subst hr
  cases o with
  | native val => exact native_node hn
  | message k | graphNode k => exact hover fun val h => by cases h

theorem overload_node {op : CompareOperator} {self other : Node}
    (h : (op.overload self other).wrap = .ok n) : node.overload self other op = n := by
  cases op <;> cases h <;> rfl

end NodeAlgebra

/-- A comparison that is left to a message ends in a native value, or in the reflected method of
the `GraphNode` on the right. -/
def Python.ComparesMessages (py : Python) : Prop :=
  ∀ op x y o, py.compareMessage op x y = .ok o → (∃ val, o = .native val) ∨
    ∃ node self, x = .message node ∧ y = .graphNode self ∧ o = op.reflected.overload self node

/-- A comparison that does not end in a native value is an overload, of the left operand or of
the right one. -/
theorem Python.compareOp_overload {py : Python} (hpy : py.ComparesMessages) {op : CompareOperator}
    {x y o : Object} (ho : py.compareOp op x y = .ok o) (hnative : ∀ val, o ≠ .native val) :
    (∃ self other, x = .graphNode self ∧ y.wrap = .ok other ∧ o = op.overload self other) ∨
    (x.isGraphNode = false ∧ ∃ self other, y.wrap = .ok self ∧ x.wrap = .ok other ∧
      o = op.reflected.overload self other) := by
  have hmessage : ∀ {x y}, py.compareMessage op x y = .ok o → ∃ self other,
      y.wrap = .ok self ∧ x.wrap = .ok other ∧ o = op.reflected.overload self other := by
    intro x y h
    rcases hpy op x y o h with ⟨v, rfl⟩ | ⟨node, self, rfl, rfl, rfl⟩
    · exact absurd rfl (hnative v)
    · exact ⟨self, node, rfl, rfl, rfl⟩
  cases x with
  | graphNode self =>
    obtain ⟨other, hother, rfl⟩ := Fallible.map_eq_ok_iff.mp ho
    exact .inl ⟨self, other, rfl, hother, rfl⟩
  | native val =>
    refine .inr ⟨rfl, ?_⟩
    cases y with
    | graphNode self =>
      obtain ⟨other, hother, rfl⟩ := Fallible.map_eq_ok_iff.mp ho
      exact ⟨self, other, rfl, hother, rfl⟩
    | native =>
      obtain ⟨v, -, rfl⟩ := Fallible.map_eq_ok_iff.mp ho
      exact absurd rfl (hnative v)
    | message => exact hmessage ho
  | message node =>
    refine .inr ⟨rfl, ?_⟩
    cases y with
    | graphNode self =>
      cases op with
      | eq | ne => exact hmessage ho
      | _ => cases ho; exact ⟨self, node, rfl, rfl, rfl⟩
    | native | message => exact hmessage ho

/-! ## Expressions -/

namespace Expr
variable {L A : Type}

/-- The number of calls of `random` in an expression. -/
def randoms : Expr L → ℕ
  | const _ | leaf _ => 0
  | arithmetic _ x y | compare _ x y | and x y | or x y | binary _ x y => x.randoms + y.randoms
  | negative x | positive x | not x | unary _ x => x.randoms
  | switch c x y | ternary c x y => c.randoms + x.randoms + y.randoms
  | random x y => x.randoms + y.randoms + 1

section Make
variable (py : Python) (obj : L → Except PythonError Object) (alg : NodeAlgebra A) (made : L → A)

/-- What is made where Python makes the node of the expression, when `obj` are the objects at the
leaves and `made` is made of them. The calls are numbered in the order of the source. -/
def make : Expr L → ℕ → A
  | const val, _ => alg.native val
  | leaf l, _ => made l
  | arithmetic op x y, n => alg.orNative ((arithmetic op x y).object py obj)
    (alg.binary op.op (x.make n) (y.make (n + x.randoms)))
  | negative x, n => alg.orNative ((negative x).object py obj)
    (alg.binary .sub (alg.const (setVal (.number (.int32 0)))) (x.make n))
  | positive x, n => alg.orNative ((positive x).object py obj) (x.make n)
  | compare op x y, n => alg.orNative ((compare op x y).object py obj)
    (if (x.object py obj).toOption.any Object.isGraphNode then
      alg.overload (x.make n) (y.make (n + x.randoms)) op
    else alg.overload (y.make (n + x.randoms)) (x.make n) op.reflected)
  | and x y, n =>
    if (x.object py obj).toOption.any Object.truth then y.make (n + x.randoms) else x.make n
  | or x y, n =>
    if (x.object py obj).toOption.any Object.truth then x.make n else y.make (n + x.randoms)
  | not x, n => alg.orNative ((not x).object py obj) (x.make n)
  | unary fn x, n => alg.unary fn.op (x.make n)
  | binary fn x y, n => alg.binary fn.op (x.make n) (y.make (n + x.randoms))
  | switch c x y, n | ternary c x y, n =>
    alg.switch (c.make n) (x.make (n + c.randoms)) (y.make (n + c.randoms + x.randoms))
  | random x y, n =>
    alg.random (n + x.randoms + y.randoms) (x.make n) (y.make (n + x.randoms))

variable {py obj made}

/-- **Everything is made as the marked node is.** -/
theorem fold_make {made : L → Marked} (e : Expr L) (n : ℕ) :
    (e.make py obj NodeAlgebra.marking made n).fold alg =
      e.make py obj alg (fun l => (made l).fold alg) n := by
  induction e generalizing n with
  | const val => exact Marked.fold_native alg val
  | leaf l => rfl
  | arithmetic op x y hx hy =>
    simp only [make, Marked.fold_orNative, ← hx, ← hy]
    rfl
  | negative x hx =>
    simp only [make, Marked.fold_orNative, ← hx]
    rfl
  | positive x hx | not x hx => simp only [make, Marked.fold_orNative, hx]
  | compare op x y hx hy =>
    simp only [make, Marked.fold_orNative, ← hx, ← hy]
    split <;> rw [Marked.fold_overload]
  | and x y hx hy | or x y hx hy =>
    simp only [make, ← hx, ← hy]
    split <;> rfl
  | unary fn x hx => simp only [make, ← hx]; rfl
  | binary fn x y hx hy | random x y hx hy => simp only [make, ← hx, ← hy]; rfl
  | switch c x y hc hx hy | ternary c x y hc hx hy => simp only [make, ← hc, ← hx, ← hy]; rfl

/-- **The nodes that are made are the nodes of the objects.** -/
theorem make_node (hpy : py.ComparesMessages) {made : L → Node}
    (hleaf : ∀ l o m, obj l = .ok o → o.wrap = .ok m → made l = m) {e : Expr L} {o : Object}
    {m : Node} (ho : e.object py obj = .ok o) (hm : o.wrap = .ok m) (n : ℕ) :
    e.make py obj NodeAlgebra.node made n = m := by
  induction e generalizing o m n with
  | const val => cases ho; exact NodeAlgebra.native_node hm
  | leaf l => exact hleaf l o m ho hm
  | arithmetic op x y hx hy =>
    refine NodeAlgebra.orNative_node ho hm fun hnative => ?_
    obtain ⟨a, ha, hrest⟩ := Fallible.result_bind_eq_ok_iff.mp ho
    obtain ⟨b, hb, hop⟩ := Fallible.result_bind_eq_ok_iff.mp hrest
    rcases Python.arithmeticOp_cases hop with ⟨-, k, l, hk, hl, rfl⟩ | ⟨-, v, -, rfl⟩
    · cases hm
      rw [hx ha hk, hy hb hl]
      rfl
    · exact absurd rfl (hnative v)
  | negative x hx =>
    refine NodeAlgebra.orNative_node ho hm fun hnative => ?_
    obtain ⟨a, ha, hop⟩ := Fallible.result_bind_eq_ok_iff.mp ho
    cases a with
    | graphNode self =>
      cases hop
      cases hm
      rw [hx ha rfl]
      rfl
    | native | message =>
      obtain ⟨v, -, rfl⟩ := Fallible.map_eq_ok_iff.mp hop
      exact absurd rfl (hnative v)
  | positive x hx =>
    refine NodeAlgebra.orNative_node ho hm fun hnative => ?_
    obtain ⟨a, ha, hop⟩ := Fallible.result_bind_eq_ok_iff.mp ho
    cases a with
    | graphNode self =>
      cases hop
      exact hx ha hm n
    | native | message =>
      obtain ⟨v, -, rfl⟩ := Fallible.map_eq_ok_iff.mp hop
      exact absurd rfl (hnative v)
  | compare op x y hx hy =>
    refine NodeAlgebra.orNative_node ho hm fun hnative => ?_
    obtain ⟨a, (ha : x.object py obj = .ok a), hrest⟩ :=
      Fallible.result_bind_eq_ok_iff.mp ho
    obtain ⟨b, hb, hop⟩ := Fallible.result_bind_eq_ok_iff.mp hrest
    simp only [ha, Except.toOption, Option.any_some]
    rcases Python.compareOp_overload hpy hop hnative with
      ⟨self, other, rfl, hother, rfl⟩ | ⟨hg, self, other, hself, hother, rfl⟩
    · rw [hx ha rfl, hy hb hother]
      exact NodeAlgebra.overload_node hm
    · rw [hx ha hother, hy hb hself, hg]
      exact NodeAlgebra.overload_node hm
  | and x y hx hy =>
    obtain ⟨a, (ha : x.object py obj = .ok a), hrest⟩ :=
      Fallible.result_bind_eq_ok_iff.mp ho
    simp only [make, ha, Except.toOption, Option.any_some]
    cases ht : a.truth with
    | true =>
      rw [ht] at hrest
      exact hy hrest hm _
    | false =>
      rw [ht] at hrest
      cases hrest
      exact hx ha hm n
  | or x y hx hy =>
    obtain ⟨a, (ha : x.object py obj = .ok a), hrest⟩ :=
      Fallible.result_bind_eq_ok_iff.mp ho
    simp only [make, ha, Except.toOption, Option.any_some]
    cases ht : a.truth with
    | true =>
      rw [ht] at hrest
      cases hrest
      exact hx ha hm n
    | false =>
      rw [ht] at hrest
      exact hy hrest hm _
  | not x hx =>
    refine NodeAlgebra.orNative_node ho hm fun hnative => ?_
    obtain ⟨a, -, hop⟩ := Fallible.result_bind_eq_ok_iff.mp ho
    cases hop
    exact absurd rfl (hnative _)
  | unary fn x hx =>
    obtain ⟨a, ha, hop⟩ := Fallible.result_bind_eq_ok_iff.mp ho
    cases fn with
    | abs => cases hop
    | _ =>
      obtain ⟨k, hk, rfl⟩ := Fallible.map_eq_ok_iff.mp hop
      cases hm
      rw [make, hx ha hk]
      rfl
  | binary fn x y hx hy | random x y hx hy =>
    obtain ⟨a, ha, hrest⟩ := Fallible.result_bind_eq_ok_iff.mp ho
    obtain ⟨b, hb, hop⟩ := Fallible.result_bind_eq_ok_iff.mp hrest
    obtain ⟨j, hj, hrest⟩ := Fallible.result_bind_eq_ok_iff.mp hop
    obtain ⟨k, hk, hrest⟩ := Fallible.result_bind_eq_ok_iff.mp hrest
    cases hrest
    cases hm
    rw [make, hx ha hj, hy hb hk]
    rfl
  | switch c x y hc hx hy | ternary c x y hc hx hy =>
    obtain ⟨d, hd, hrest⟩ := Fallible.result_bind_eq_ok_iff.mp ho
    obtain ⟨a, ha, hrest⟩ := Fallible.result_bind_eq_ok_iff.mp hrest
    obtain ⟨b, hb, hop⟩ := Fallible.result_bind_eq_ok_iff.mp hrest
    obtain ⟨i, hi, hrest⟩ := Fallible.result_bind_eq_ok_iff.mp hop
    obtain ⟨j, hj, hrest⟩ := Fallible.result_bind_eq_ok_iff.mp hrest
    obtain ⟨k, hk, hrest⟩ := Fallible.result_bind_eq_ok_iff.mp hrest
    cases hrest
    cases hm
    rw [make, hc hd hi, hx ha hj, hy hb hk]
    rfl

end Make
end Expr

/-! ## Statements -/

namespace StraightLine
variable {A : Type}

/-- The recorder takes the assignment for a self assignment. -/
def Plot.SelfAssigned (py : Python) (p : Plot) (target : AttributeRef) (value : Expr Leaf) : Prop :=
  (value.object py p.object).bind Object.wrap = .ok (.retrieve target)

instance (py : Python) (p : Plot) (target : AttributeRef) (value : Expr Leaf) :
    Decidable (p.SelfAssigned py target value) := inferInstanceAs (Decidable (_ = _))

/-- Where plotting has come to, with what was made of the locals and, by their keys, of the
recorded outputs, and the number of calls so far. -/
structure Tracked (A : Type) where
  plot : Plot
  locals : String → A
  outputs : String → A
  calls : ℕ

namespace Tracked

def start (alg : NodeAlgebra A) : Tracked A :=
  ⟨.start, fun _ => alg.const Value.blank, fun _ => alg.const Value.blank, 0⟩

section
variable (alg : NodeAlgebra A) (py : Python) (t : Tracked A)

/-- What is made of the object of a leaf. -/
def made : Leaf → A
  | .name id => t.locals id
  | .attr attrRef =>
    match t.plot.recorder.outputs.get? (toStrAttr attrRef) with
    | some _ => t.outputs (toStrAttr attrRef)
    | none => alg.retrieve attrRef

def make (value : Expr Leaf) : A := value.make py t.plot.object alg (t.made alg) t.calls

/-- Keep what is made in a statement that plotting executes. -/
def keep (p : Plot) : Statement → Tracked A
  | .bind target value =>
    { plot := p, outputs := t.outputs, calls := t.calls + value.randoms
      locals := fun id => if id = target then t.make alg py value else t.locals id }
  | .assign target value =>
    { plot := p, locals := t.locals, calls := t.calls + value.randoms
      outputs := if t.plot.SelfAssigned py target value then t.outputs else fun key =>
        if key = toStrAttr target then t.make alg py value else t.outputs key }

/-- Plot a statement. -/
def step (st : Statement) : Option (Unit × Tracked A) :=
  match t.plot.exec py st with
  | .ok p => some ((), t.keep alg py p st)
  | .error _ => none

/-- The recorded outputs, with what was made of them. -/
def marked : List (AttributeRef × A) :=
  t.plot.recorder.outputs.entries.map fun entry => (entry.2.mutateAttr, t.outputs entry.1)

end

/-! ### From marked nodes to any algebra -/

def fold (alg : NodeAlgebra A) (t : Tracked Marked) : Tracked A :=
  ⟨t.plot, fun id => (t.locals id).fold alg, fun key => (t.outputs key).fold alg, t.calls⟩

variable {alg : NodeAlgebra A} {py : Python}

@[simp] theorem fold_plot (t : Tracked Marked) : (t.fold alg).plot = t.plot := rfl

theorem made_fold (t : Tracked Marked) (l : Leaf) :
    (t.fold alg).made alg l = (t.made NodeAlgebra.marking l).fold alg := by
  cases l with
  | name id => rfl
  | attr ref =>
    simp only [made, fold]
    split <;> rfl

theorem make_fold (t : Tracked Marked) (e : Expr Leaf) :
    (t.fold alg).make alg py e = (t.make NodeAlgebra.marking py e).fold alg := by
  rw [make, make, Expr.fold_make, funext (made_fold t)]
  rfl

theorem keep_fold (t : Tracked Marked) (p : Plot) (st : Statement) :
    (t.fold alg).keep alg py p st = (t.keep NodeAlgebra.marking py p st).fold alg := by
  cases st with
  | bind id e =>
    simp only [keep, make_fold]
    simp only [fold, apply_ite (Marked.fold alg)]
  | assign ref e =>
    simp only [keep, make_fold, fold_plot]
    split <;> simp only [fold, apply_ite (Marked.fold alg)]

theorem step_fold (t : Tracked Marked) (st : Statement) : (t.fold alg).step alg py st =
    (t.step NodeAlgebra.marking py st).map fun r => (r.1, r.2.fold alg) := by
  simp only [step, keep_fold, fold_plot]
  cases t.plot.exec py st <;> rfl

/-- **A run makes in any algebra what is made of its marked nodes.** -/
theorem run_fold (alg : NodeAlgebra A) (py : Python) (stmts : List Statement) :
    Machine.run (step alg py) (start alg) stmts =
      (Machine.run (step NodeAlgebra.marking py) (start NodeAlgebra.marking) stmts).map
        fun r => (r.1, r.2.fold alg) := by
  have hview : ∀ (t : Tracked Marked) st, True → step alg py (t.fold alg) st =
      (t.step NodeAlgebra.marking py st).map fun r => (r.1, r.2.fold alg) :=
    fun t st _ => step_fold t st
  exact Machine.run_view (s := start NodeAlgebra.marking) hview (fun _ _ _ _ _ _ => trivial)
    trivial stmts

theorem marked_fold (t : Tracked Marked) :
    (t.fold alg).marked = t.marked.map fun o => (o.1, o.2.fold alg) := by
  simp only [marked, List.map_map]
  rfl

/-! ### The nodes of a run are the recorded ones -/

/-- The nodes made are those of the objects and of the recorded outputs. -/
structure Recorded (t : Tracked Node) : Prop where
  locals : ∀ id o m, t.plot.locals id = some o → o.wrap = .ok m → t.locals id = m
  outputs : ∀ key o, t.plot.recorder.outputs.get? key = some o → t.outputs key = o.toNode

namespace Recorded
variable {t t' : Tracked Node} {st : Statement} {u : Unit}

theorem start : Recorded (start NodeAlgebra.node) where
  locals := fun id o m h => by cases h
  outputs := fun key o h => by cases h

theorem made_node (h : Recorded t) (l : Leaf) (o : Object) (m : Node)
    (ho : t.plot.object l = .ok o) (hm : o.wrap = .ok m) : t.made NodeAlgebra.node l = m := by
  cases l with
  | name id => exact h.locals id o m (State.Invariant.lookup_eq_ok ho) hm
  | attr ref =>
    cases ho
    cases hm
    simp only [made, Recorder.definition]
    cases hg : t.plot.recorder.outputs.get? (toStrAttr ref) with
    | none => rfl
    | some o' => exact h.outputs _ o' hg

theorem make_node (h : Recorded t) (hpy : py.ComparesMessages) {e : Expr Leaf} {o : Object}
    {m : Node} (ho : e.object py t.plot.object = .ok o) (hm : o.wrap = .ok m) :
    t.make NodeAlgebra.node py e = m :=
  Expr.make_node hpy h.made_node ho hm t.calls

/-- **A statement keeps the nodes the recorded ones.** -/
theorem step (h : Recorded t) (hpy : py.ComparesMessages)
    (hs : t.step NodeAlgebra.node py st = some (u, t')) : Recorded t' := by
  rw [Tracked.step] at hs
  split at hs
  next p hexec =>
    cases hs
    cases st with
    | bind id e =>
      obtain ⟨o, r, ho, hr, rfl⟩ := Plot.exec_bind hexec
      refine ⟨fun id' o' m hid hm => ?_, fun key o' hk => h.outputs key o' (hr ▸ hk)⟩
      simp only [keep] at hid ⊢
      split_ifs at hid ⊢ with heq
      · cases hid
        exact h.make_node hpy ho hm
      · exact h.locals id' o' m hid hm
    | assign ref e =>
      obtain ⟨o, n, r, ho, hn, hr, rfl⟩ := Plot.exec_assign hexec
      have hself : t.plot.SelfAssigned py ref e ↔ n = .retrieve ref := by
        simp [Plot.SelfAssigned, ho, Except.bind, hn]
      refine ⟨h.locals, fun key o' hk => ?_⟩
      simp only [keep] at hk ⊢
      by_cases hnode : n = .retrieve ref
      · rw [if_pos (hself.mpr hnode)]
        rw [hnode, Recorder.setAttr_self, hr] at hk
        exact h.outputs key o' hk
      · rw [if_neg (mt hself.mp hnode)]
        by_cases hkey : key = toStrAttr ref
        · have hnew : (r.setAttr ref n).outputs.get? key = some ⟨ref, n⟩ := by
            rw [Recorder.setAttr, if_neg hnode, hkey]
            simp
          rw [hnew] at hk
          cases hk
          rw [if_pos hkey]
          exact h.make_node hpy ho hn
        · rw [if_neg hkey]
          rw [Recorder.get?_setAttr_ne hkey, hr] at hk
          exact h.outputs key o' hk
  next => cases hs

end Recorded

/-- **Without the marks the outputs are the recorded ones.** -/
theorem outputs_of_run (hpy : py.ComparesMessages) {stmts : List Statement} {us : List Unit}
    {t : Tracked Marked}
    (hrun : Machine.run (step NodeAlgebra.marking py) (start NodeAlgebra.marking) stmts =
      some (us, t)) :
    t.marked.map (fun o => ⟨o.1, o.2.fold NodeAlgebra.node⟩) = t.plot.recorder.graph.outputs := by
  have hnode := run_fold NodeAlgebra.node py stmts
  rw [hrun] at hnode
  have h : Recorded (t.fold NodeAlgebra.node) :=
    Machine.invariant (fun _ _ _ _ h hs => h.step hpy hs) Recorded.start hnode
  simp only [marked, List.map_map, Recorder.graph, OrderedDict.values]
  refine List.map_congr_left fun entry he => ?_
  have hout := h.outputs entry.1 entry.2 (OrderedDict.get?_eq_some_iff.mpr he)
  simp only [Function.comp_apply]
  rw [show (t.outputs entry.1).fold NodeAlgebra.node = entry.2.toNode from hout]

end Tracked
end StraightLine
end Bentobox.Sdk
