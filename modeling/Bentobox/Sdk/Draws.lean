import Bentobox.Lib.Log
import Bentobox.Sdk.Marking

/-!
# The draws of a graph run

A marked graph is run as the engine runs the recorded one, and every number drawn is noted
under the call of `random` that it is drawn for. A node that was copied draws for each copy:
the draws of a call are as many as the copies of its node that the run evaluates.
-/
namespace Bentobox.Sdk

open AttributeStore

/-! ## Runs with their draws -/

section Evaluate
variable (F : FloatOps) {S : Type} [AttributeStore S]

/-- A computation of the engine that notes the drawn numbers under their calls. -/
abbrev Drawing (S α : Type) := Fallible (Logged (Env S) ℕ Value) Fault α

/-- `evaluateNode` -/
def Marked.evaluate : Marked → Drawing S Value
  | const heldValue => pure heldValue
  | retrieve retrieveAttr => Fallible.silently (onStore (AttributeStore.retrieve retrieveAttr))
  | switch conditionNode trueNode falseNode => do
    let conditionVal ← conditionNode.evaluate
    let branch ← Fallible.silently (choose conditionVal (pure true) (pure false))
    if branch then trueNode.evaluate else falseNode.evaluate
  | unary op x => do
    let xVal ← x.evaluate
    Fallible.ofExcept (unaryOp F op xVal)
  | binary op x y => do
    let xVal ← x.evaluate
    let yVal ← y.evaluate
    Fallible.ofExcept (binaryOp F op xVal yVal)
  | random call low high => do
    let lowVal ← low.evaluate
    let highVal ← high.evaluate
    Fallible.noting call (onGenerator (randomOp F lowVal highVal))

/-- `mutateOp` -/
def Marked.mutate (output : AttributeRef × Marked) : Drawing S Unit := do
  let val ← output.2.evaluate F
  Fallible.silently (onStore (assign F output.1 val))

/-- `runGraph` -/
def Marked.run (outputs : List (AttributeRef × Marked)) : Drawing S Unit :=
  Fallible.forEach (mutate F) outputs

omit [AttributeStore S] in
/-- To choose between two computations is to choose a boolean first. -/
theorem choose_eq_bind {α : Type} (v : Value) (onTrue onFalse : Eval S α) :
    choose v onTrue onFalse =
      (choose v (pure true) (pure false) >>= fun b => if b then onTrue else onFalse) := by
  unfold choose
  split <;> rfl

variable {F}

/-- **Noting the draws does not change the evaluation.** -/
theorem Marked.evaluate_refines (m : Marked) :
    Fallible.Refines (fun _ => True) Prod.fst (m.evaluate F : Drawing S Value)
      (evaluateNode F (m.fold NodeAlgebra.node)) := by
  induction m with
  | const v => exact Fallible.Refines.pure v
  | retrieve ref => exact Fallible.silently_refines _
  | unary op x hx => exact hx.bind fun v => Fallible.Refines.ofExcept _
  | binary op x y hx hy => exact hx.bind fun v => hy.bind fun w => Fallible.Refines.ofExcept _
  | switch c t f hc ht hf =>
    refine hc.bind fun v => ?_
    rw [choose_eq_bind v (evaluateNode F (S := S) _)]
    refine (Fallible.silently_refines _).bind fun b => ?_
    split
    · exact ht
    · exact hf
  | random call l h hl hh => exact hl.bind fun v => hh.bind fun w => Fallible.noting_refines _ _

theorem Marked.run_refines (outputs : List (AttributeRef × Marked)) :
    Fallible.Refines (fun _ => True) Prod.fst (Marked.run F outputs : Drawing S Unit)
      (Fallible.forEach (mutateOp F)
        (outputs.map fun o => ⟨o.1, o.2.fold NodeAlgebra.node⟩)) := by
  rw [Fallible.forEach_map]
  exact Fallible.Refines.forEach
    (fun o => o.2.evaluate_refines.bind fun v => Fallible.silently_refines _) outputs

/-! ## Copies -/

/-- How often the call `k` occurs, where `alt` combines what the alternatives of a switch have. -/
def counting (alt : ℕ → ℕ → ℕ) (k : ℕ) : NodeAlgebra ℕ where
  const _ := 0
  retrieve _ := 0
  unary _ x := x
  binary _ x y := x + y
  switch c t f := c + alt t f
  random call l h := l + h + if call = k then 1 else 0

/-- **Every copy draws**: an evaluation draws for a call at most as often as the call occurs on the
larger alternatives, and at least as often as it occurs on the smaller ones. -/
theorem Marked.evaluate_notes (k : ℕ) (m : Marked) :
    Fallible.Notes k (m.fold (counting min k)) (m.fold (counting max k))
      (m.evaluate F : Drawing S Value) := by
  induction m with
  | const v => exact Fallible.Notes.pure v
  | retrieve ref => exact Fallible.Notes.silently _
  | unary op x hx => exact hx.bind fun v => Fallible.Notes.ofExcept _
  | binary op x y hx hy => exact hx.bind fun v => hy.bind fun w => Fallible.Notes.ofExcept _
  | switch c t f hc ht hf =>
    refine hc.bind fun v => ?_
    have hbranch : ∀ b : Bool, Fallible.Notes k
        (min (t.fold (counting min k)) (f.fold (counting min k)))
        (max (t.fold (counting max k)) (f.fold (counting max k)))
        (if b then t.evaluate F else f.evaluate F : Drawing S Value) := by
      rintro (_ | _)
      · exact hf.mono (Nat.min_le_right _ _) (Nat.le_max_right _ _)
      · exact ht.mono (Nat.min_le_left _ _) (Nat.le_max_left _ _)
    exact ((Fallible.Notes.silently _).bind hbranch).mono (by omega) (by omega)
  | random call l h hl hh =>
    exact (hl.bind fun v => hh.bind fun w => Fallible.Notes.noting _ _ _).mono
      (Nat.le_of_eq (Nat.add_assoc _ _ _)) (Nat.le_of_eq (Nat.add_assoc _ _ _).symm)

theorem Marked.run_notes (k : ℕ) (outputs : List (AttributeRef × Marked)) :
    Fallible.Notes k (outputs.map fun o => o.2.fold (counting min k)).sum
      (outputs.map fun o => o.2.fold (counting max k)).sum
      (Marked.run F outputs : Drawing S Unit) :=
  Fallible.Notes.forEach fun o _ =>
    (o.2.evaluate_notes k).bind fun _ => Fallible.Notes.silently _

end Evaluate

/-- An expression without alternatives. -/
def Expr.branchFree {L : Type} : Expr L → Bool
  | const _ | leaf _ => true
  | arithmetic _ x y | compare _ x y | and x y | or x y | binary _ x y | random x y =>
    x.branchFree && y.branchFree
  | negative x | positive x | not x | unary _ x => x.branchFree
  | switch _ _ _ | ternary _ _ _ => false

/-- Without alternatives it does not matter how they are combined. -/
theorem Expr.make_counting {L : Type} {py : Python} {obj : L → Except PythonError Object}
    {made : L → ℕ} (alt alt' : ℕ → ℕ → ℕ) (k : ℕ) {e : Expr L} (he : e.branchFree) (n : ℕ) :
    e.make py obj (counting alt k) made n = e.make py obj (counting alt' k) made n := by
  induction e generalizing n with
  | const val | leaf l => rfl
  | arithmetic op x y hx hy | compare op x y hx hy | binary fn x y hx hy | random x y hx hy =>
    simp only [branchFree, Bool.and_eq_true] at he
    simp only [make, hx he.1, hy he.2]
    rfl
  | and x y hx hy | or x y hx hy =>
    simp only [branchFree, Bool.and_eq_true] at he
    simp only [make, hx he.1, hy he.2]
  | negative x hx | positive x hx | not x hx | unary fn x hx =>
    simp only [make, hx he]
    rfl
  | switch c x y | ternary c x y => cases he

namespace StraightLine

/-- The copies of the node of call `k` in the recorded outputs, counted along the statements: a
local and an attribute that was written have the copies of the value assigned to them, and an
output that is written again no longer counts. -/
def uses (alt : ℕ → ℕ → ℕ) (py : Python) (stmts : List Statement) (k : ℕ) : ℕ :=
  match Machine.run (Tracked.step (counting alt k) py) (Tracked.start (counting alt k)) stmts with
  | some (_, t) => (t.marked.map Prod.snd).sum
  | none => 0

/-- A call drew at most once, and everything that uses its result saw the same value. -/
structure OneDraw (log : List (ℕ × Value)) (k : ℕ) : Prop where
  draws_le_one : notes log k ≤ 1
  same_value : ∀ v w, (k, v) ∈ log → (k, w) ∈ log → v = w

theorem OneDraw.of_le_one {log : List (ℕ × Value)} {k : ℕ} (h : notes log k ≤ 1) :
    OneDraw log k := ⟨h, fun _ _ hv hw => eq_of_notes_le_one h hv hw⟩

namespace Tracked
variable {py : Python} {stmts : List Statement} {us : List Unit} {t : Tracked Marked}

theorem uses_eq (hrun : Machine.run (step NodeAlgebra.marking py) (start NodeAlgebra.marking)
    stmts = some (us, t)) (alt : ℕ → ℕ → ℕ) (k : ℕ) :
    uses alt py stmts k = (t.marked.map fun o => o.2.fold (counting alt k)).sum := by
  rw [uses, run_fold, hrun]
  simp only [Option.map_some, marked_fold, List.map_map]
  rfl

theorem step_counting (py : Python) (alt alt' : ℕ → ℕ → ℕ) (k : ℕ) {st : Statement}
    (hst : st.value.branchFree) (t : Tracked ℕ) :
    t.step (counting alt k) py st = t.step (counting alt' k) py st := by
  have hmade : t.made (counting alt k) = t.made (counting alt' k) := by
    funext l
    cases l <;> rfl
  have hmake : t.make (counting alt k) py st.value = t.make (counting alt' k) py st.value := by
    rw [make, make, hmade, Expr.make_counting alt alt' k hst]
  cases st with
  | bind id e | assign ref e =>
    simp only [Statement.value] at hmake
    simp only [step, keep, hmake]

theorem uses_of_branchFree (alt alt' : ℕ → ℕ → ℕ) (hst : ∀ st ∈ stmts, st.value.branchFree)
    (k : ℕ) : uses alt py stmts k = uses alt' py stmts k := by
  have hrun := Machine.run_congr (fun t st hmem => step_counting py alt alt' k (hst st hmem) t)
    (start (counting alt k))
  rw [uses, uses, hrun]
  rfl

/-- The numbers drawn in a run of the recorded graph, with the calls they are drawn for. -/
def draws (F : FloatOps) {S : Type} [AttributeStore S] (t : Tracked Marked) (s : Env S) :
    List (ℕ × Value) := (Marked.run F t.marked (s, [])).2.2

/-- **Draws are counted by uses.** A run of the recorded graph draws for a call at most as often as
its result is used, and as often when it completes, up to the alternatives that are not taken. A
call whose result is used at most once draws at most once. -/
theorem draws_of_uses {F : FloatOps} {S : Type} [AttributeStore S] (hpy : py.ComparesMessages)
    (hrun : Machine.run (step NodeAlgebra.marking py) (start NodeAlgebra.marking) stmts =
      some (us, t)) (s : Env S) :
    runGraph F t.plot.recorder.graph s =
      ((Marked.run F t.marked (s, [])).1, (Marked.run F t.marked (s, [])).2.1) ∧
    (∀ k, notes (t.draws F s) k ≤ uses max py stmts k) ∧
    ((runGraph F t.plot.recorder.graph s).1 = .ok () →
      (∀ k, uses min py stmts k ≤ notes (t.draws F s) k) ∧
      ((∀ st ∈ stmts, st.value.branchFree) →
        ∀ k, notes (t.draws F s) k = uses max py stmts k)) ∧
    ∀ k, uses max py stmts k ≤ 1 → OneDraw (t.draws F s) k := by
  have heq : runGraph F t.plot.recorder.graph s =
      ((Marked.run F t.marked (s, [])).1, (Marked.run F t.marked (s, [])).2.1) := by
    rw [runGraph, ← outputs_of_run hpy hrun]
    exact (Marked.run_refines t.marked).eq (s := (s, [])) trivial
  have hle : ∀ k, notes (t.draws F s) k ≤ uses max py stmts k := by
    intro k
    have h := (Marked.run_notes (F := F) k t.marked (s, [])).1
    rwa [notes_nil, Nat.zero_add, ← uses_eq hrun] at h
  refine ⟨heq, hle, fun hok => ?_, fun k hk => .of_le_one (Nat.le_trans (hle k) hk)⟩
  have hge : ∀ k, uses min py stmts k ≤ notes (t.draws F s) k := by
    intro k
    rw [heq] at hok
    have h := (Marked.run_notes (F := F) k t.marked (s, [])).2 () hok
    rwa [notes_nil, Nat.zero_add, ← uses_eq hrun] at h
  refine ⟨hge, fun hst k => Nat.le_antisymm (hle k) ?_⟩
  rw [uses_of_branchFree max min hst]
  exact hge k

end Tracked

/-! ## A lottery -/

/-- The first draw is `0`, the next one has the bits of `1`, and so on. -/
def lotteryOps : FloatOps :=
  let f64 : FloatFormat 64 := default
  { (default : FloatOps) with
    f64 := { f64 with uniform := fun gen _ _ => (BitVec.ofNat 64 gen, gen + 1) } }

def lottery : SimulationDef where
  name := "lottery"
  entities := [⟨1, ["C"]⟩]
  components := [⟨"C", ((∅ : OrderedDict String DataType).insert "x" (.primitive .float64)).insert
    "y" (.primitive .float64)⟩]
  systems := []
  initGraph := ⟨[], []⟩

def lotteryStores : Stores :=
  match (Engine.afterApply lottery).sims.get? "lottery" with
  | some sim => sim.store
  | none => Stores.new

/-- `g.random(0.0, 0.0)` -/
def ticket : Expr Leaf := .random (.const (.float 0)) (.const (.float 0))

/-- `r = g.random(0.0, 0.0)`, and then `x = r` and `y = r` -/
def share : List Statement :=
  [.bind "r" ticket, .assign ⟨1, "C", "x"⟩ (.leaf (.name "r")),
    .assign ⟨1, "C", "y"⟩ (.leaf (.name "r"))]

/-- The result of the call is used twice, so two numbers are drawn. -/
theorem draws_of_uses_twice : ∃ t : Tracked Marked,
    Machine.run (Tracked.step NodeAlgebra.marking default) (Tracked.start NodeAlgebra.marking)
      share = some ([(), (), ()], t) ∧
    (runGraph lotteryOps t.plot.recorder.graph ⟨lotteryStores, 0⟩).1 = .ok () ∧
    notes (t.draws lotteryOps ⟨lotteryStores, 0⟩) 0 = 2 := by
  have hpy : Python.ComparesMessages default := by rintro op x y o ⟨⟩
  have hfree : ∀ st ∈ share, st.value.branchFree := by decide
  exact ⟨_, rfl, rfl, ((Tracked.draws_of_uses hpy rfl _).2.2.1 rfl).2 hfree 0⟩

/-- `x = g.random(0.0, 0.0) <= 0.0` has the call in both comparisons that `<=` is made of. -/
example : uses max default
    [.assign ⟨1, "C", "x"⟩ (.compare .le ticket (.const (.float 0)))] 0 = 2 := by decide

/-- One number is drawn for `x` and another one for `y`, though both get the result of one call. -/
theorem shared_draw_repeated : ¬ ∀ (F : FloatOps) (py : Python) (stmts : List Statement)
    (us : List Unit) (t : Tracked Marked) (s : Env Stores), py.ComparesMessages →
    Machine.run (Tracked.step NodeAlgebra.marking py) (Tracked.start NodeAlgebra.marking) stmts =
      some (us, t) →
    ∀ k, OneDraw (t.draws F s) k := by
  intro h
  have hdraw := h lotteryOps default share _ _ ⟨lotteryStores, 0⟩ (by rintro op x y o ⟨⟩) rfl 0
  have hsame := hdraw.same_value (setVal (.number (.float64 0))) (setVal (.number (.float64 1)))
  exact absurd (hsame (by decide) (by decide)) (by decide)

end StraightLine
end Bentobox.Sdk
