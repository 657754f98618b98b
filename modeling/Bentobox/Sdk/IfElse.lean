import Bentobox.Engine.Atomicity
import Bentobox.Sdk.Branches

/-!
# If statements

A convert function executed directly, where an if statement runs the branch that its
condition selects, and the same function compiled, where both branches are traced. A graph
yields what the direct execution gives if its outputs, evaluated at the start, have the final
values of their attributes (`Yields`).
-/
namespace Bentobox.Sdk

/-! ## Direct execution -/

/-- The values of the locals and the attributes. -/
abbrev Memory := Place → Option Value

namespace Memory

def start (σ : Valuation) : Memory
  | .name _ => none
  | .attr attrRef => σ attrRef

def set (m : Memory) (place : Place) (v : Option Value) : Memory :=
  fun p => if p = place then v else m p

@[simp] theorem set_self (m : Memory) (place : Place) (v : Option Value) :
    m.set place v place = v := by simp [set]

theorem set_ne (m : Memory) {place p : Place} (h : p ≠ place) (v : Option Value) :
    m.set place v p = m p := by simp [set, h]

theorem set_eq_self (m : Memory) (place : Place) : m.set place (m place) = m := by
  funext p
  by_cases h : p = place
  · subst h
    exact set_self m p _
  · exact set_ne m h _

end Memory

/-- The value of a symbol. -/
def Scope.value (sc : Scope) (m : Memory) (symbol : Symbol) : Option Value :=
  (sc.place symbol).toOption.bind m

/-- Execute the statements; an if statement executes the branch that its condition selects. -/
def Block.exec {α : Type} (F : FloatOps) (sc : Scope) : Block α → Memory → Option Memory
  | done, m => some m
  | assign target value rest, m => do
    let v ← value.eval F (sc.value m)
    let place ← (sc.place target).toOption
    rest.exec F sc (m.set place (some v))
  | ifelse _ test body orelse rest, m => do
    let condition ← test.eval F (sc.value m)
    let m ← select condition (body.exec F sc m) (orelse.exec F sc m)
    rest.exec F sc m

/-! ## Convert functions -/

/-- A convert function with the entities it works on, spelled in Python: no attribute name has
a slash, and a name is a local or an entity. -/
structure ConvertFn where
  scope : Scope
  body : Block Unit
  slashFree : ∀ symbol ∈ body.symbols, symbol.SlashFree
  locals : ∀ id, .name id ∈ body.symbols → scope.entities id = none

namespace ConvertFn

/-- The frame in which `build_graph` starts. -/
def frame : Frame := ⟨fun _ => none, fun _ => 0⟩

/-- The records of a new plotter. -/
def records : Records := ⟨∅, ⟨fun _ => ∅, 1⟩⟩

theorem records_keyed : records.Keyed := fun _ _ _ h => by cases h

/-- Analyze, transform and run the function on a plotter. -/
def compile (py : Python) (fn : ConvertFn) : Except PythonError Recorder :=
  match fn.body.analyzeActivity.trace py fn.scope frame records with
  | (.ok _, s) => .ok ⟨s.inputs, s.outputs.cell 0⟩
  | (.error e, _) => .error e

/-- Execute the function on a valuation. -/
def exec (F : FloatOps) (fn : ConvertFn) (σ : Valuation) : Option Memory :=
  fn.body.exec F fn.scope (Memory.start σ)

end ConvertFn

/-- Evaluated at the start, the outputs of a graph have the final values of their attributes, and
an attribute without an output has its initial value in the end. -/
def Yields (F : FloatOps) (σ : Valuation) (g : Graph) (final : Memory) : Prop :=
  (∀ o ∈ g.outputs, denote F σ o.toNode = final (.attr o.mutateAttr)) ∧
    ∀ ref, (∀ o ∈ g.outputs, o.mutateAttr ≠ ref) → final (.attr ref) = σ ref

/-! ## Symbols and places -/

section
variable {F : FloatOps} {py : Python} {sc : Scope} {σ : Valuation}

theorem Scope.place_attr_iff {e c a : String} {p : Place} :
    sc.place (.attr e c a) = .ok p ↔ ∃ ref, sc.attrRef e c a = .ok ref ∧ p = .attr ref := by
  simp only [place, Fallible.map_eq_ok_iff, eq_comm (b := p)]

/-- **The frame of the direct execution**: other places keep their values. -/
theorem Block.exec_eq_of_ne {α : Type} {b : Block α} {m m' : Memory}
    (h : b.exec F sc m = some m') {p : Place} (hp : ∀ symbol ∈ b.stores, sc.place symbol ≠ .ok p) :
    m' p = m p := by
  induction b generalizing m m' with
  | done => cases h; rfl
  | assign target value rest ih =>
    simp only [exec, Option.bind_eq_bind, Option.bind_eq_some_iff] at h
    obtain ⟨v, -, place, hplace, h⟩ := h
    have hne : p ≠ place := by
      rintro rfl
      exact hp target (by simp [stores]) (Fallible.toOption_eq_some_iff.mp hplace)
    rw [ih h fun symbol hm => hp symbol (by simp [stores, hm]), Memory.set_ne _ hne]
  | ifelse activity test body orelse rest hbody horelse hrest =>
    simp only [exec, Option.bind_eq_bind, Option.bind_eq_some_iff] at h
    obtain ⟨c, -, m₁, hselect, h⟩ := h
    rw [hrest h fun symbol hm => hp symbol (by simp [stores, hm])]
    rw [select] at hselect
    split at hselect
    · exact hbody hselect fun symbol hm => hp symbol (by simp [stores, hm])
    · exact horelse hselect fun symbol hm => hp symbol (by simp [stores, hm])
    · cases hselect

theorem Block.exec_annotate {α : Type} (all defined : List Symbol) (b : Block α) (m : Memory) :
    (b.annotate all defined).exec F sc m = b.exec F sc m := by
  induction b generalizing defined m with
  | done => rfl
  | assign target value rest ih => simp only [annotate, exec, ih]
  | ifelse activity test body orelse rest hbody horelse hrest =>
    simp only [annotate, exec, hbody, horelse, hrest]

end

/-! ### Braking -/

namespace ConvertFn

/-- `if car["Action"].brake: car["Velocity"].x = 0`, with an else branch and what is behind it. -/
def brake (orelse rest : Block Unit) : Block Unit :=
  .ifelse () (.leaf (.attr "car" "Action" "brake"))
    (.assign (.attr "car" "Velocity" "x") (.const (.int 0)) .done) orelse rest

/-- `car["Velocity"].x = speed` -/
def move (speed : ℤ) : Block Unit :=
  .assign (.attr "car" "Velocity" "x") (.const (.int speed)) .done

/-- A car with an action and a velocity. -/
def car : Scope where
  entities v := if v = "car" then some ⟨1, ["Action", "Velocity"]⟩ else none
  componentName component := component

/-- `else: car["Velocity"].x = 1` -/
def brakeOrMove : ConvertFn where
  scope := car
  body := brake (move 1) .done
  slashFree := by simp [brake, move, Block.symbols, Expr.leaves, Symbol.SlashFree]
  locals := by simp [brake, move, Block.symbols, Expr.leaves]

/-- No else branch. -/
def brakeOnly : ConvertFn where
  scope := car
  body := brake .done .done
  slashFree := by simp [brake, Block.symbols, Expr.leaves, Symbol.SlashFree]
  locals := by simp [brake, Block.symbols, Expr.leaves]

/-- No else branch, but `car["Velocity"].x = 7` behind the if statement. -/
def brakeAndMove : ConvertFn where
  scope := car
  body := brake .done (move 7)
  slashFree := by simp [brake, move, Block.symbols, Expr.leaves, Symbol.SlashFree]
  locals := by simp [brake, move, Block.symbols, Expr.leaves]

/-- The brake is not applied. -/
def moving : Valuation := fun ref =>
  some (setVal (if ref.attributeName = "brake" then .bool false else .number (.int32 5)))

end ConvertFn
end Bentobox.Sdk
