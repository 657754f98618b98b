import Bentobox.Sdk.Lookups
import Bentobox.Sdk.Meaning

/-!
# Simulations of convert functions

The whole way from the functions of a script to the attributes on the engine: the functions look
their entities up and have if statements, they are analyzed and transformed, the generated code
plots graphs, and the engine runs these between the requests of other clients. What the script sees
of this is what it would see if its functions were executed on the attributes directly.
-/
namespace Bentobox.Sdk

/-- What convert functions mean. -/
def PlotterFn.meaning (F : FloatOps) (py : Python) (depth : ℕ) :
    Meaning F (compileGraph py depth) where
  call entityDefs m fn := fn.call F entityDefs m
  Accurate entityDefs componentDefs m fn := fn.Accurate F py depth entityDefs componentDefs m
  runs hs hcompile h hcall := runGraph_of_accurate hs hcompile h hcall

namespace Sim
open PlotterFn
variable {F : FloatOps} {np : Numpy} {py : Python} {depth : ℕ} {name : String}
  {components : List ComponentDef} {entities : List EntityDef} {systemFns : List PlotterFn}
  {initFn : Option PlotterFn} {sim : Sim PlotterFn} {e e₁ : Engine Stores}

/-- **A simulation executes its functions.** In every run on an engine that other clients use too,
everything that is done to a simulation returns or raises what it does when the functions are
executed on its attributes directly, where they are compiled accurately; and it leaves the same
attributes on the engine. -/
theorem run_executes (he : e.Reachable F)
    (hcreate : create F (compileGraph py depth) name components entities systemFns initFn e =
      some (.ok sim, e₁)) {turns : List (Turn PlotterFn)} (hfits : ∀ t ∈ turns, t.Fits name)
    {answers : List (Answered CompileError)} {s : Sim PlotterFn × Engine Stores}
    (hrun : Machine.run (turn F np (compileGraph py depth)) (sim, e₁) turns = some (answers, s)) :
    ∃ d, Script.create name components entities systemFns initFn = some d ∧
      ∀ results d', Machine.run (Script.act np (meaning F py depth)) d
          (turns.filterMap Turn.toAct) = some (results, d') →
        Machine.Along (Script.act np (meaning F py depth)) (Script.Accurate (meaning F py depth)) d
          (turns.filterMap Turn.toAct) →
        answers.filterMap Answered.toResult = results ∧ s.1 = d'.sim ∧
          (s.2.sims.get? name).map (fun reg => reg.store.view) = d'.store :=
  script_of_run he hcreate hfits hrun

/-! ### Braking -/

/-- A car stands still or moves on. -/
def braking : PlotterFn where
  lookups := [("car", ["Action", "Velocity"])]
  componentName component := component
  body := ConvertFn.brakeOrMove.body
  slashFree := ConvertFn.brakeOrMove.slashFree
  uses := by
    simp [ConvertFn.brakeOrMove, ConvertFn.brake, ConvertFn.move, Block.symbols, Expr.leaves,
      Symbol.UsesVariables]
  unreserved := by
    simp [ConvertFn.brakeOrMove, ConvertFn.brake, ConvertFn.move, Block.symbols, Expr.leaves,
      Symbol.base, Gast.reserved]

/-- The car moves at first. -/
def moving : PlotterFn where
  lookups := [("car", ["Velocity", "Action"])]
  componentName component := component
  body := .assign (.attr "car" "Action" "brake") (.const (.bool false)) <|
    .assign (.attr "car" "Velocity" "x") (.const (.int 5)) .done
  slashFree := by simp [Block.symbols, Expr.leaves, Symbol.SlashFree]
  uses := by simp [Block.symbols, Expr.leaves, Symbol.UsesVariables]
  unreserved := by simp [Block.symbols, Expr.leaves, Symbol.base, Gast.reserved]

def carComponents : List ComponentDef :=
  [⟨"Action", (∅ : OrderedDict String DataType).insert "brake" (.primitive .bool)⟩,
    ⟨"Velocity", (∅ : OrderedDict String DataType).insert "x" (.primitive .int32)⟩]

/-- A simulation of a car. -/
def createCar : Option (Except (SimError CompileError) (Sim PlotterFn) × Engine Stores) :=
  create default (compileGraph default 1) "sim" carComponents [⟨0, ["Action", "Velocity"]⟩]
    [braking] (some moving) (Engine.new 0)

/-- The car starts and steps, and its velocity is read. -/
def drive : List (Turn PlotterFn) :=
  [.act .start, .other (.stepSimulation "t"), .act .step,
    .act (.getAttr ⟨"sim", 1, "Velocity"⟩ "x")]

/-- Both branches assign the velocity, so nothing is left of the if branch. -/
theorem sound_braking (g : Plot.Plotter) (σ : Valuation) :
    (braking.onPlotter g).Sound default default σ := by
  rintro e ref ⟨condition, s₀, c, b, m', fr', s', hcond, -, -, hselect, -, dest, hdest, hspot⟩
  have hdest' : (braking.scope g).spot (.attr "car" "Velocity" "x") = .ok dest := hdest
  obtain ⟨brake, hbrake⟩ : ∃ spot, (braking.scope g).spot (.attr "car" "Action" "brake") =
      .ok spot := by
    obtain ⟨brakeRef, _, href, -⟩ := Fallible.bind_eq_ok_iff.mp hcond
    exact ⟨_, Scope.spot_attr_iff.mpr ⟨brakeRef, (Prod.ext_iff.mp href).1, rfl⟩⟩
  -- the target of a constant is clean at the end of a branch
  have hbranch : ∀ {speed : ℤ} {tainted : Set Spot} {fr : Frame} {s : Records} {m : Memory},
      dest ∉ (Block.assign (.attr "car" "Velocity" "x") (.const (.int speed)) .done).taint default
        default (braking.scope g) σ tainted fr s m := by
    intro speed tainted fr s m hmem
    obtain ⟨_, _, dest', _, -, hdest'', -, hother⟩ := Block.taint_assign_const hmem
    rw [hdest'] at hdest''
    cases hdest''
    exact hother (Spot.mem_sharing _ _)
  rcases hspot with ⟨hspot | hspot, hother⟩ | ⟨-, hwrong⟩
  · exact hspot
  · -- nothing else changes
    have hkeeps : ∀ symbol ∈ [Symbol.attr "car" "Velocity" "x"],
        (braking.scope g).place symbol ≠ .ok (.attr ref) := by
      intro symbol hm hplace
      obtain rfl := List.mem_singleton.mp hm
      obtain ⟨ref', href', heq⟩ := Scope.place_attr_iff.mp hplace
      cases heq
      obtain ⟨ref'', href'', rfl⟩ := Scope.spot_attr_iff.mp hdest'
      rw [href'] at href''
      cases href''
      exact hother ⟨e, rfl, rfl⟩
    rw [select] at hselect
    split at hselect
    · exact hspot (Block.exec_eq_of_ne hselect hkeeps)
    · exact hspot (Block.exec_eq_of_ne hselect hkeeps)
    · cases hselect
  · refine hwrong ⟨readable_attr hbrake (Set.notMem_empty _), fun spot hspot => ?_⟩
    rw [hdest] at hspot
    cases hspot
    cases b with
    | true =>
      rintro ⟨_, _, -, hmem⟩
      exact hbranch hmem
    | false =>
      rintro ⟨_, _, -, _, _, -, hmem⟩
      exact hbranch hmem

theorem sound_moving (g : Plot.Plotter) (σ : Valuation) :
    (moving.onPlotter g).Sound default default σ := by
  intro e ref hspot
  have houtputs : ∀ e e', ConvertFn.frame.outputs e = ConvertFn.frame.outputs e' := fun _ _ => rfl
  obtain ⟨fr₁, s₁, dest, v, hfr₁, -, hspot⟩ := Block.taint_assign_const hspot
  obtain ⟨fr₂, s₂, dest', v', -, -, hspot, hother⟩ := Block.taint_assign_const hspot
  rw [hfr₁] at hother
  rcases hspot with ⟨hspot | hspot, hother'⟩ | hspot
  · exact hspot
  · exact hother' (mem_sharing_of_stale houtputs hspot)
  · exact hother (mem_sharing_of_stale houtputs hspot)

/-- The car, numbered. -/
def cars : List EntityDef := [⟨1, ["Action", "Velocity"]⟩]

/-- A compilation whose outputs are checked. -/
theorem independent_of_compiled {fn : PlotterFn} {entityDefs : List EntityDef}
    {componentDefs : List ComponentDef}
    (hcheck : (compileGraph py depth fn entityDefs componentDefs).toOption.all
      (fun g => decide (Independent g.outputs)) = true) (graph : Graph)
    (hgraph : compileGraph py depth fn entityDefs componentDefs = .ok graph) :
    Independent graph.outputs := by
  rw [hgraph] at hcheck
  simpa [Except.toOption] using hcheck

theorem accurate_braking (m : AttributeMap) :
    braking.Accurate default default 1 cars carComponents m :=
  ⟨by decide, fun g _ => sound_braking g _, independent_of_compiled (by decide +kernel)⟩

theorem accurate_moving (m : AttributeMap) :
    moving.Accurate default default 1 cars carComponents m :=
  ⟨by decide, fun g _ => sound_moving g _, independent_of_compiled (by decide +kernel)⟩

/-- The car drives as its functions say. -/
theorem run_executes_car : ∃ sim e₁ answers s d results d', createCar = some (.ok sim, e₁) ∧
    Machine.run (turn default elementwise (compileGraph default 1)) (sim, e₁) drive =
      some (answers, s) ∧
    Machine.run (Script.act elementwise (meaning default default 1)) d
      (drive.filterMap Turn.toAct) = some (results, d') ∧
    answers.filterMap Answered.toResult = results ∧ s.1 = d'.sim := by
  have hreach : (Engine.new 0 : Engine Stores).Reachable default := ⟨0, [], [], rfl⟩
  have hcheck : (createCar.bind fun p => p.1.toOption.bind fun sim =>
      Machine.run (turn default elementwise (compileGraph default 1)) (sim, p.2) drive).isSome =
      true := by
    decide +kernel
  obtain ⟨⟨answers, s⟩, hcheck⟩ := Option.isSome_iff_exists.mp hcheck
  obtain ⟨⟨r, e₁⟩, hcreate, hcheck⟩ := Option.bind_eq_some_iff.mp hcheck
  obtain ⟨sim, hsim, hrun⟩ := Option.bind_eq_some_iff.mp hcheck
  cases Fallible.toOption_eq_some_iff.mp hsim
  have hfits : ∀ t ∈ drive, t.Fits "sim" := by simp [drive, Turn.Fits, Request.names]
  obtain ⟨d, hd, hscript⟩ := run_executes hreach hcreate hfits hrun
  have hcalls : ((Script.create "sim" carComponents [⟨0, ["Action", "Velocity"]⟩] [braking]
      (some moving)).bind fun d =>
        Machine.run (Script.act elementwise (meaning default default 1)) d
          (drive.filterMap Turn.toAct)).isSome = true := by
    decide +kernel
  obtain ⟨⟨results, d'⟩, hcalls⟩ := Option.isSome_iff_exists.mp hcalls
  rw [hd] at hcalls
  have hrun' : Machine.run (Script.act elementwise (meaning default default 1)) d
    (drive.filterMap Turn.toAct) = some (results, d') := hcalls
  obtain ⟨hsim, hrunning⟩ := Script.create_eq_some hd
  have hentities : d.sim.entityDefs = cars := by rw [hsim]; rfl
  have hcomponents : d.sim.componentDefs = carComponents := by rw [hsim]; rfl
  have hinit : d.sim.initFn = some moving := by rw [hsim]; rfl
  have hfns : d.sim.systemFns.map Prod.fst = [braking] := by rw [hsim]; rfl
  have haccurate : Machine.Along (Script.act elementwise (meaning default default 1))
      (Script.Accurate (meaning default default 1)) d (drive.filterMap Turn.toAct) := by
    refine ⟨fun _ _ _ map _ _ => ?_, fun o d₁ hstart => ⟨fun map _ => ?_, fun _ _ _ => ⟨trivial,
      fun _ _ _ => trivial⟩⟩⟩
    · rw [hinit, hentities, hcomponents]
      exact ⟨accurate_moving map, fun _ _ => trivial⟩
    · obtain ⟨hentities₁, hcomponents₁, hrunning₁⟩ := Script.start_keeps hstart
      rw [hentities₁, hcomponents₁, hentities, hcomponents]
      rcases hrunning₁ with heq | heq <;> rw [heq]
      · rw [hrunning]
        trivial
      · rw [hfns]
        exact ⟨accurate_braking map, fun _ _ => trivial⟩
  obtain ⟨hresults, hrecord, -⟩ := hscript results d' hrun' haccurate
  exact ⟨sim, e₁, answers, s, d, results, d', hcreate, hrun, hrun', hresults, hrecord⟩

end Sim
end Bentobox.Sdk
