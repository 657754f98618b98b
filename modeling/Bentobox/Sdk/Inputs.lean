import Bentobox.Lib.Fallible
import Bentobox.Sdk.Analyzers

/-!
# What the analysis takes for inputs

`analyze_activity` takes a loaded symbol for an input when it was assigned before and is assigned
in another block than the one of the load, wherever that other block is. So it knows what an
if statement needs from outside as far as it is loaded under a symbol that is assigned as a whole,
and it also takes for inputs what the if statement assigns itself, in one block, and loads in
another.
-/
namespace Bentobox.Sdk.Ast

/-! ## Propagation -/

section
variable (own : ℕ → BlockActivity)

/-- One of `size` blocks from the block `first` on has the base symbol among its inputs. -/
def Noted (first size : ℕ) (base : String) : Prop :=
  ∃ i, first ≤ i ∧ i < first + size ∧ base ∈ (own i).baseInSyms.keys

variable {own} {base : String}

@[simp] theorem not_noted_zero (first : ℕ) : ¬ Noted own first 0 base := by
  rintro ⟨i, hle, hlt, -⟩
  omega

@[simp] theorem noted_one {first : ℕ} :
    Noted own first 1 base ↔ base ∈ (own first).baseInSyms.keys := by
  constructor
  · rintro ⟨i, hle, hlt, h⟩
    obtain rfl : i = first := by omega
    exact h
  · intro h
    exact ⟨first, by omega, by omega, h⟩

theorem noted_add {first n m : ℕ} :
    Noted own first (n + m) base ↔ Noted own first n base ∨ Noted own (first + n) m base := by
  constructor
  · rintro ⟨i, hle, hlt, h⟩
    by_cases hi : i < first + n
    · exact .inl ⟨i, hle, hi, h⟩
    · exact .inr ⟨i, by omega, by omega, h⟩
  · rintro (⟨i, hle, hlt, h⟩ | ⟨i, hle, hlt, h⟩)
    · exact ⟨i, hle, by omega, h⟩
    · exact ⟨i, by omega, by omega, h⟩

@[simp] theorem mem_baseInSyms_update {a b : BlockActivity} :
    base ∈ (a.update b).baseInSyms.keys ↔
      base ∈ a.baseInSyms.keys ∨ base ∈ b.baseInSyms.keys := OrderedDict.mem_keys_update

@[simp] theorem notMem_baseInSyms_empty : base ∉ BlockActivity.empty.baseInSyms.keys := by
  simp [BlockActivity.empty]

namespace Expression

mutual

/-- A parent gets the inputs of all blocks of an expression. -/
theorem mem_activity (next : ℕ) : (e : Expression) →
    (base ∈ (e.activity own next).baseInSyms.keys ↔ Noted own next e.blocks base)
  | constant _ | name _ _ | attr _ _ _ | subscript _ _ _ => by simp [activity, blocks]
  | ifExp test body orelse => by
    simp only [activity, blocks, mem_baseInSyms_update, mem_activity _ test, mem_activity _ body,
      mem_activity _ orelse, noted_add, noted_one, ← Nat.add_assoc]
    tauto
  | lambda args defaults body => by
    simp only [activity, blocks, mem_baseInSyms_update, mem_activityAll _ defaults,
      mem_activity _ body, noted_add, noted_one, ← Nat.add_assoc]
    tauto
  | list elts | tuple elts => by
    rw [activity, blocks]
    exact mem_activityAll next elts
  | node _ children => by
    rw [activity, blocks]
    exact mem_activityAll next children

theorem mem_activityAll (next : ℕ) : (es : List Expression) →
    (base ∈ (activityAll own next es).baseInSyms.keys ↔ Noted own next (blocksAll es) base)
  | [] => by simp [activityAll, blocksAll]
  | e :: es => by
    simp only [activityAll, blocksAll, mem_baseInSyms_update, mem_activity _ e,
      mem_activityAll _ es, noted_add]

end
end Expression

namespace Body

/-- A parent gets the inputs of all blocks among its statements. -/
theorem mem_activity (next : ℕ) (b : Body) :
    base ∈ (b.activity own next).baseInSyms.keys ↔ Noted own next b.blocks base := by
  induction b generalizing next with
  | done => simp [activity, blocks]
  | assign targets annotation value rest ih =>
    simp only [activity, blocks, mem_baseInSyms_update, Expression.mem_activityAll,
      Expression.mem_activity, ih, noted_add, ← Nat.add_assoc]
  | expr value rest ih =>
    simp only [activity, blocks, mem_baseInSyms_update, Expression.mem_activity, ih, noted_add]
  | ifelse test body orelse rest hb ho hr =>
    simp only [activity, blocks, ifSize, mem_baseInSyms_update, Expression.mem_activity, hb, ho,
      hr, noted_add, noted_one, ← Nat.add_assoc]
    tauto

/-- **An if statement gets the inputs of all blocks inside it.** -/
theorem mem_ifActivity (next : ℕ) (test : Expression) (body orelse : Body) :
    base ∈ (ifActivity own next test body orelse).baseInSyms.keys ↔
      Noted own next (ifSize test body orelse) base := by
  simp only [ifActivity, ifSize, mem_baseInSyms_update, Expression.mem_activity, mem_activity,
    noted_add, noted_one, ← Nat.add_assoc]
  tauto

theorem map_fst_ifActivities (next : ℕ) (b : Body) :
    (b.ifActivities own next).map Prod.fst = b.ifBlocks next := by
  induction b generalizing next with
  | done => rfl
  | assign targets annotation value rest ih => exact ih _
  | expr value rest ih => exact ih _
  | ifelse test body orelse rest hb ho hr =>
    simp only [ifActivities, ifBlocks, List.map_cons, List.map_append, hb, ho, hr]

theorem mem_of_ifActivities {next : ℕ} {b : Body} {r : IfBlock × BlockActivity}
    (h : r ∈ b.ifActivities own next) :
    base ∈ r.2.baseInSyms.keys ↔ Noted own r.1.block r.1.size base := by
  induction b generalizing next with
  | done => cases h
  | assign targets annotation value rest ih => exact ih h
  | expr value rest ih => exact ih h
  | ifelse test body orelse rest hb ho hr =>
    simp only [ifActivities, List.mem_cons, List.mem_append] at h
    rcases h with rfl | (h | h) | h
    · exact mem_ifActivity next test body orelse
    · exact hb h
    · exact ho h
    · exact hr h

end Body
end

/-- The inputs at a block are its symbols with that role. -/
theorem mem_ownActivity {symbols : List (SymbolNode × Option Role)} {block : ℕ} {base : String} :
    base ∈ (ownActivity symbols block).baseInSyms.keys ↔
      ∃ n, (n, some .input) ∈ symbols ∧ n.block = block ∧ n.baseSymbol = base := by
  have hfold : ∀ (l : List (SymbolNode × Option Role)) (a : BlockActivity),
      base ∈ (l.foldl (fun a s => a.add s.1 s.2) a).baseInSyms.keys ↔
        base ∈ a.baseInSyms.keys ∨ ∃ n, (n, some .input) ∈ l ∧ n.baseSymbol = base := by
    intro l
    induction l with
    | nil => simp
    | cons s l ih =>
      intro a
      obtain ⟨n, role⟩ := s
      rw [List.foldl_cons, ih]
      rcases role with _ | _ | _
      · simp [BlockActivity.add]
      · simp only [BlockActivity.add, BlockActivity.addSymbolRef, OrderedDict.mem_keys_insert,
          List.mem_cons, Prod.mk.injEq, and_true]
        grind
      · simp [BlockActivity.add]
  rw [ownActivity, hfold]
  simp only [notMem_baseInSyms_empty, false_or, List.mem_filter, decide_eq_true_eq, and_assoc]

/-! ## Resolution -/

/-- The definitions of a symbol among what was visited. -/
def definitionsOf (symbol : String) (visits : List Visit) : List Definition :=
  visits.filterMap fun
    | .define symbol' definition => if symbol = symbol' then some definition else none
    | .use _ => none

theorem mem_definitionsOf {symbol : String} {visits : List Visit} {definition : Definition} :
    definition ∈ definitionsOf symbol visits ↔ .define symbol definition ∈ visits := by
  simp only [definitionsOf, List.mem_filterMap]
  constructor
  · rintro ⟨v, hv, h⟩
    cases v with
    | define symbol' definition' =>
      simp only [Option.ite_none_right_eq_some, Option.some.injEq] at h
      obtain ⟨rfl, rfl⟩ := h
      exact hv
    | use n => cases h
  · intro h
    exact ⟨_, h, by simp⟩

/-- The frame in the end has the definitions that were visited. -/
theorem resolve_snd (frame : SymbolFrame) (visits : List Visit) (symbol : String) :
    (resolve frame visits).2 symbol = frame symbol ++ definitionsOf symbol visits := by
  induction visits generalizing frame with
  | nil => simp [resolve, definitionsOf]
  | cons v visits ih =>
    cases v with
    | define symbol' definition =>
      rw [resolve, ih, SymbolFrame.push]
      by_cases h : symbol = symbol' <;> simp [definitionsOf, h]
    | use n =>
      rw [resolve, ih]
      simp [definitionsOf]

/-- **A symbol is resolved** by the latest of the definitions visited before it. -/
theorem mem_resolve_iff {frame : SymbolFrame} {visits : List Visit} {r : Resolved} :
    r ∈ (resolve frame visits).1 ↔ ∃ pre post, visits = pre ++ .use r.node :: post ∧
      r.definition = (frame r.node.symbol ++ definitionsOf r.node.symbol pre).getLast? := by
  induction visits generalizing frame with
  | nil => simp [resolve]
  | cons v visits ih =>
    cases v with
    | define symbol definition =>
      rw [resolve, ih]
      constructor
      · rintro ⟨pre, post, rfl, h⟩
        refine ⟨.define symbol definition :: pre, post, rfl, h.trans ?_⟩
        by_cases hs : r.node.symbol = symbol <;> simp [SymbolFrame.push, definitionsOf, hs]
      · rintro ⟨pre, post, hsplit, h⟩
        cases pre with
        | nil => cases hsplit
        | cons v pre =>
          obtain ⟨rfl, rfl⟩ := List.cons.inj hsplit
          refine ⟨pre, post, rfl, h.trans ?_⟩
          by_cases hs : r.node.symbol = symbol <;> simp [SymbolFrame.push, definitionsOf, hs]
    | use n =>
      rw [resolve, List.mem_cons, ih]
      constructor
      · rintro (rfl | ⟨pre, post, rfl, h⟩)
        · exact ⟨[], visits, rfl, by simp [definitionsOf]⟩
        · exact ⟨.use n :: pre, post, rfl, by simpa [definitionsOf] using h⟩
      · rintro ⟨pre, post, hsplit, h⟩
        cases pre with
        | nil =>
          obtain ⟨hn, -⟩ := List.cons.inj hsplit
          cases hn
          left
          obtain ⟨node, definition⟩ := r
          simpa [definitionsOf] using h
        | cons v pre =>
          obtain ⟨rfl, rfl⟩ := List.cons.inj hsplit
          exact .inr ⟨pre, post, rfl, by simpa [definitionsOf] using h⟩

/-! ## Roles -/

/-- Definitions that are values of assignments. -/
def AllValues (definitions : List Definition) : Prop :=
  ∀ d ∈ definitions, ∃ e block, d = .value e block

theorem anyElsewhere_eq {block : ℕ} {definitions : List Definition} (h : AllValues definitions) :
    ∃ b, anyElsewhere block definitions = .ok b ∧
      (b = true ↔ ∃ e block', .value e block' ∈ definitions ∧ block' ≠ block) := by
  induction definitions with
  | nil => exact ⟨false, rfl, by simp⟩
  | cons d definitions ih =>
    obtain ⟨e, block', rfl⟩ := h d List.mem_cons_self
    obtain ⟨b, hb, hiff⟩ := ih fun d hd => h d (List.mem_cons_of_mem _ hd)
    by_cases hblock : block' = block
    · refine ⟨b, ?_, ?_⟩
      · simp [anyElsewhere, Definition.block, hblock, hb]
      · rw [hiff]
        grind
    · refine ⟨true, ?_, ?_⟩
      · simp only [anyElsewhere, Definition.block, Fallible.ok_bind, if_neg hblock]
        rfl
      · simp only [true_iff]
        exact ⟨e, block', List.mem_cons_self, hblock⟩

/-- The frame before the body has the name and the arguments of the function. -/
theorem FunctionDef.frame_eq (f : FunctionDef) (symbol : String) :
    f.frame symbol = (if symbol = f.name then [Definition.function f.name] else []) ++
      (f.args.filter fun arg => symbol = arg.2).map fun arg => .argument arg.2 := by
  have hfold : ∀ (args : List (Position × String)) (frame : SymbolFrame),
      (args.foldl (fun frame arg => frame.push arg.2 (.argument arg.2)) frame) symbol =
        frame symbol ++ (args.filter fun arg => symbol = arg.2).map fun arg => .argument arg.2 := by
    intro args
    induction args with
    | nil => simp
    | cons arg args ih =>
      intro frame
      rw [List.foldl_cons, ih, SymbolFrame.push]
      by_cases h : symbol = arg.2 <;> simp [h]
  rw [frame, hfold, SymbolFrame.push]
  rfl

theorem FunctionDef.frame_eq_nil_iff {f : FunctionDef} {symbol : String} :
    f.frame symbol = [] ↔ symbol ≠ f.name ∧ symbol ∉ f.args.map Prod.snd := by
  rw [frame_eq]
  by_cases h : symbol = f.name
  · simp [h]
  · simp only [h, if_false, List.nil_append, List.map_eq_nil_iff, List.filter_eq_nil_iff,
      decide_eq_true_eq, ne_eq, not_false_eq_true, true_and, List.mem_map, not_exists, not_and]
    exact ⟨fun hall arg harg heq => hall arg harg heq.symm, fun hall arg harg heq =>
      hall arg harg heq.symm⟩

/-- The name and the arguments of the function have lost their block. -/
theorem FunctionDef.anyElsewhere_frame {f : FunctionDef} {symbol : String}
    (h : f.frame symbol ≠ []) (block : ℕ) (definitions : List Definition) :
    ∃ err, anyElsewhere block (f.frame symbol ++ definitions) = .error err := by
  cases hframe : f.frame symbol with
  | nil => exact absurd hframe h
  | cons d ds =>
    have hmem : d ∈ f.frame symbol := by
      rw [hframe]
      exact List.mem_cons_self
    have hblock : ∃ err, d.block = .error err := by
      rw [frame_eq, List.mem_append, List.mem_map] at hmem
      rcases hmem with hmem | ⟨arg, -, rfl⟩
      · split at hmem
        · rw [List.mem_singleton.mp hmem]
          exact ⟨_, rfl⟩
        · cases hmem
      · exact ⟨_, rfl⟩
    obtain ⟨err, herr⟩ := hblock
    exact ⟨err, by simp [anyElsewhere, herr]⟩

/-- An assignment pushes values. -/
theorem values_of_definitions {unparse : Expression → String} {block : ℕ}
    {targets : List Expression} {value : Expression} {defines : List Visit}
    (h : definitions unparse block targets value = .ok defines) {symbol : String}
    {d : Definition} (hd : .define symbol d ∈ defines) : ∃ e block', d = .value e block' := by
  rw [definitions] at h
  cases hsyms : (Expression.tgts targets).mapM (Expression.targetSymbol unparse) with
  | error err =>
    rw [hsyms] at h
    cases h
  | ok targetSyms =>
    rw [hsyms] at h
    cases h
    obtain ⟨p, -, hp⟩ := List.mem_map.mp hd
    cases hp
    exact ⟨_, _, rfl⟩

/-- The definitions in a body are values. -/
theorem Body.values_of_visits {unparse : Expression → String} {block next : ℕ} {b : Body}
    {visits : List Visit} (h : b.visits unparse block next = .ok visits) {symbol : String}
    {d : Definition} (hd : .define symbol d ∈ visits) : ∃ e block', d = .value e block' := by
  induction b generalizing block next visits with
  | done =>
    cases h
    cases hd
  | assign targets annotation value rest ih =>
    obtain ⟨defines, hdefines, h⟩ := Fallible.result_bind_eq_ok_iff.mp h
    obtain ⟨visits', hrest, h⟩ := Fallible.result_bind_eq_ok_iff.mp h
    cases h
    simp only [List.mem_append, List.mem_map, reduceCtorEq, and_false, exists_false,
      or_false] at hd
    rcases hd with hd | hd
    · exact values_of_definitions hdefines hd
    · exact ih hrest hd
  | expr value rest ih =>
    obtain ⟨visits', hrest, h⟩ := Fallible.result_bind_eq_ok_iff.mp h
    cases h
    simp only [List.mem_append, List.mem_map, reduceCtorEq, and_false, exists_false,
      false_or] at hd
    exact ih hrest hd
  | ifelse test body orelse rest hb ho hr =>
    obtain ⟨vbody, hbody, h⟩ := Fallible.result_bind_eq_ok_iff.mp h
    obtain ⟨velse, horelse, h⟩ := Fallible.result_bind_eq_ok_iff.mp h
    obtain ⟨vrest, hrest, h⟩ := Fallible.result_bind_eq_ok_iff.mp h
    cases h
    simp only [List.mem_append, List.mem_map, reduceCtorEq, and_false, exists_false,
      false_or] at hd
    rcases hd with (hd | hd) | hd
    · exact hb hbody hd
    · exact ho horelse hd
    · exact hr hrest hd

/-! ## Inputs -/

/-- A symbol of the base is loaded in the if statement, and an assignment to the symbol comes
before. -/
def DefinedLoad (visits : List Visit) (b : IfBlock) (base : String) (n : SymbolNode) : Prop :=
  n.ctx = .load ∧ b.Contains n.block ∧ n.baseSymbol = base ∧
    ∃ pre post d, visits = pre ++ .use n :: post ∧ .define n.symbol d ∈ pre

section
variable {unparse : Expression → String} {f : FunctionDef} {visits : List Visit}

/-- No symbol that is loaded is the name or an argument of the function. -/
def LoadsNoArgument (f : FunctionDef) (visits : List Visit) : Prop :=
  ∀ n, .use n ∈ visits → n.ctx = .load → n.symbol ≠ f.name ∧ n.symbol ∉ f.args.map Prod.snd

/-- The role of a symbol that is not the name or an argument of the function. -/
theorem role_eq (hvisits : f.body.visits unparse 0 1 = .ok visits) {r : Resolved}
    (hload : r.node.ctx = .load → f.frame r.node.symbol = []) :
    ∃ role, r.role (resolve f.frame visits).2 = .ok role ∧
      (role = some .input ↔ r.node.ctx = .load ∧ r.definition.isSome ∧
        ∃ e block, .define r.node.symbol (.value e block) ∈ visits ∧ block ≠ r.node.block) := by
  rw [Resolved.role]
  cases hctx : r.node.ctx with
  | store => exact ⟨_, rfl, by simp⟩
  | del => exact ⟨_, rfl, by simp⟩
  | param => exact ⟨_, rfl, by simp⟩
  | load =>
    cases hdef : r.definition with
    | none => exact ⟨_, rfl, by simp⟩
    | some d =>
      have hvalues : AllValues (definitionsOf r.node.symbol visits) := fun d hd =>
        Body.values_of_visits hvisits (mem_definitionsOf.mp hd)
      obtain ⟨b, hb, hiff⟩ := @anyElsewhere_eq r.node.block _ hvalues
      refine ⟨if b then some .input else none, ?_, ?_⟩
      · rw [resolve_snd, hload hctx, List.nil_append, hb]
        rfl
      · simp only [mem_definitionsOf] at hiff
        simp [hiff]

/-- A bare load of an argument cannot be told a role. -/
theorem role_error {r : Resolved} (hr : r ∈ (resolve f.frame visits).1)
    (hctx : r.node.ctx = .load) (hframe : f.frame r.node.symbol ≠ []) :
    ∃ err, r.role (resolve f.frame visits).2 = .error err := by
  obtain ⟨pre, post, -, hdef⟩ := mem_resolve_iff.mp hr
  obtain ⟨err, herr⟩ := f.anyElsewhere_frame hframe r.node.block
    (definitionsOf r.node.symbol visits)
  refine ⟨err, ?_⟩
  cases hd : r.definition with
  | none =>
    rw [hd, eq_comm, List.getLast?_eq_none_iff, List.append_eq_nil_iff] at hdef
    exact absurd hdef.1 hframe
  | some d =>
    rw [Resolved.role, hctx, hd]
    simp only [resolve_snd, herr, Fallible.error_bind]

theorem roles_of_forall {frame : SymbolFrame} {rs : List Resolved}
    (h : ∀ r ∈ rs, ∃ role, r.role frame = .ok role) : ∃ symbols, roles frame rs = .ok symbols := by
  induction rs with
  | nil => exact ⟨[], rfl⟩
  | cons r rs ih =>
    obtain ⟨role, hrole⟩ := h r List.mem_cons_self
    obtain ⟨symbols, hsymbols⟩ := ih fun r' hr' => h r' (List.mem_cons_of_mem r hr')
    exact ⟨(r.node, role) :: symbols, by simp only [roles, hrole, hsymbols, Fallible.ok_bind]; rfl⟩

theorem mem_roles {frame : SymbolFrame} {rs : List Resolved}
    {symbols : List (SymbolNode × Option Role)} (h : roles frame rs = .ok symbols) :
    (∀ r ∈ rs, ∃ role, r.role frame = .ok role) ∧ ∀ s, s ∈ symbols ↔
      ∃ r ∈ rs, r.node = s.1 ∧ r.role frame = .ok s.2 := by
  induction rs generalizing symbols with
  | nil =>
    cases h
    simp
  | cons r rs ih =>
    obtain ⟨role, hrole, h⟩ := Fallible.result_bind_eq_ok_iff.mp h
    obtain ⟨symbols', hrest, h⟩ := Fallible.result_bind_eq_ok_iff.mp h
    cases h
    obtain ⟨hall, hmem⟩ := ih hrest
    refine ⟨List.forall_mem_cons.mpr ⟨⟨role, hrole⟩, hall⟩, fun s => ?_⟩
    rw [List.mem_cons, hmem, List.exists_mem_cons_iff]
    obtain ⟨n, role'⟩ := s
    simp only [hrole, Except.ok.injEq, Prod.mk.injEq]
    grind

/-- **What the analysis notes.** If no argument of the function is loaded, an if statement gets
the bases of the symbols that are loaded in it, after an assignment to the symbol, and assigned in
another block than the one of the load. -/
theorem analyzeActivity_ok (hvisits : f.body.visits unparse 0 1 = .ok visits)
    (hload : LoadsNoArgument f visits) : ∃ activities,
      f.analyzeActivity unparse = .ok activities ∧ activities.map Prod.fst = f.ifBlocks ∧
      ∀ r ∈ activities, ∀ base, base ∈ r.2.baseInSyms.keys ↔
        ∃ n, DefinedLoad visits r.1 base n ∧
          ∃ e block, .define n.symbol (.value e block) ∈ visits ∧ block ≠ n.block := by
  have hframe : ∀ r ∈ (resolve f.frame visits).1, r.node.ctx = .load →
      f.frame r.node.symbol = [] := by
    intro r hr hctx
    obtain ⟨pre, post, rfl, -⟩ := mem_resolve_iff.mp hr
    exact FunctionDef.frame_eq_nil_iff.mpr (hload r.node (by simp) hctx)
  obtain ⟨symbols, hsymbols⟩ := roles_of_forall fun r hr =>
    (role_eq hvisits (hframe r hr)).imp fun _ => And.left
  have hinput : ∀ n, (n, some .input) ∈ symbols ↔ n.ctx = .load ∧
      (∃ pre post d, visits = pre ++ .use n :: post ∧ .define n.symbol d ∈ pre) ∧
      ∃ e block, .define n.symbol (.value e block) ∈ visits ∧ block ≠ n.block := by
    intro n
    rw [(mem_roles hsymbols).2]
    constructor
    · rintro ⟨r, hr, rfl, hrole⟩
      obtain ⟨role, hok, hiff⟩ := role_eq hvisits (hframe r hr)
      obtain ⟨hctx, hdef, helse⟩ := hiff.mp (Except.ok.inj (hok.symm.trans hrole))
      obtain ⟨pre, post, hsplit, hlast⟩ := mem_resolve_iff.mp hr
      obtain ⟨d, hd⟩ := Option.isSome_iff_exists.mp hdef
      rw [hframe r hr hctx, List.nil_append, hd] at hlast
      have hmem := List.mem_of_getLast? hlast.symm
      exact ⟨hctx, ⟨pre, post, d, hsplit, mem_definitionsOf.mp hmem⟩, helse⟩
    · rintro ⟨hctx, ⟨pre, post, d, hsplit, hdef⟩, helse⟩
      have hr : (⟨n, (f.frame n.symbol ++ definitionsOf n.symbol pre).getLast?⟩ : Resolved) ∈
          (resolve f.frame visits).1 := mem_resolve_iff.mpr ⟨pre, post, hsplit, rfl⟩
      refine ⟨_, hr, rfl, ?_⟩
      obtain ⟨role, hok, hiff⟩ := role_eq hvisits (hframe _ hr)
      have hsome : (f.frame n.symbol ++ definitionsOf n.symbol pre).getLast?.isSome := by
        rw [List.getLast?_isSome]
        exact List.append_ne_nil_of_right_ne_nil _
          (List.ne_nil_of_mem (mem_definitionsOf.mpr hdef))
      rw [hok, hiff.mpr ⟨hctx, hsome, helse⟩]
  refine ⟨f.body.ifActivities (ownActivity symbols) 1, ?_, Body.map_fst_ifActivities _ _, ?_⟩
  · simp only [FunctionDef.analyzeActivity, hvisits, hsymbols, Fallible.ok_bind]
    rfl
  · intro r hr base
    rw [Body.mem_of_ifActivities hr]
    simp only [Noted, mem_ownActivity, hinput]
    constructor
    · rintro ⟨i, hle, hlt, n, ⟨hctx, hdef, helse⟩, rfl, hbase⟩
      exact ⟨n, ⟨hctx, ⟨hle, hlt⟩, hbase, hdef⟩, helse⟩
    · rintro ⟨n, ⟨hctx, ⟨hle, hlt⟩, hbase, hdef⟩, helse⟩
      exact ⟨n.block, hle, hlt, n, ⟨hctx, hdef, helse⟩, rfl, hbase⟩

/-- The analysis only runs through when no argument of the function is loaded. -/
theorem loadsNoArgument_of_analyzeActivity {activities : List (IfBlock × BlockActivity)}
    (h : f.analyzeActivity unparse = .ok activities) :
    ∃ visits, f.body.visits unparse 0 1 = .ok visits ∧ LoadsNoArgument f visits := by
  obtain ⟨visits, hvisits, h⟩ := Fallible.result_bind_eq_ok_iff.mp h
  obtain ⟨symbols, hsymbols, -⟩ := Fallible.result_bind_eq_ok_iff.mp h
  refine ⟨visits, hvisits, fun n hn hctx => ?_⟩
  rw [← FunctionDef.frame_eq_nil_iff]
  by_contra hframe
  obtain ⟨pre, post, hsplit⟩ := List.append_of_mem hn
  have hr : (⟨n, (f.frame n.symbol ++ definitionsOf n.symbol pre).getLast?⟩ : Resolved) ∈
      (resolve f.frame visits).1 := mem_resolve_iff.mpr ⟨pre, post, hsplit, rfl⟩
  obtain ⟨role, hrole⟩ := (mem_roles hsymbols).1 _ hr
  obtain ⟨err, herr⟩ := role_error hr hctx hframe
  cases hrole.symm.trans herr

end

/-! ## What an if statement needs -/

/-- The analysis runs through, every if statement has among its inputs each name that is assigned
outside of it and loaded in it, and it has no name there that is assigned in it only. -/
def FunctionDef.FindsInputs (unparse : Expression → String) (f : FunctionDef) : Prop :=
  ∃ activities, f.analyzeActivity unparse = .ok activities ∧ ∀ r ∈ activities,
    (∀ id block block', f.Assigns id block → ¬ r.1.Contains block → f.Loads id block' →
      r.1.Contains block' → id ∈ r.2.baseInSyms.keys) ∧
    ∀ id ∈ r.2.baseInSyms.keys, ∀ block, f.Assigns id block →
      ∃ block', f.Assigns id block' ∧ ¬ r.1.Contains block'

/-- At an if statement, each name that is assigned outside of it and loaded in it has a load there
under a symbol that was assigned before and is assigned in another block than the one of the load.
The symbols of a name that is assigned in the if statement only are loaded in it, once they were
assigned, in the block of all their assignments. -/
structure FunctionDef.SeesInputsAt (f : FunctionDef) (visits : List Visit) (b : IfBlock) :
    Prop where
  outside : ∀ id block block', f.Assigns id block → ¬ b.Contains block → f.Loads id block' →
    b.Contains block' → ∃ n, DefinedLoad visits b id n ∧
      ∃ e block, .define n.symbol (.value e block) ∈ visits ∧ block ≠ n.block
  inside : ∀ id block, f.Assigns id block → (∀ block', f.Assigns id block' → b.Contains block') →
    ∀ n, DefinedLoad visits b id n →
      ∀ e block', .define n.symbol (.value e block') ∈ visits → block' = n.block

/-- Every target that is given a value is a symbol, no argument is loaded as a symbol, and all
if statements see what they need. -/
def FunctionDef.SeesInputs (unparse : Expression → String) (f : FunctionDef) : Prop :=
  ∃ visits, f.body.visits unparse 0 1 = .ok visits ∧ LoadsNoArgument f visits ∧
    ∀ b ∈ f.ifBlocks, f.SeesInputsAt visits b

/-! ## A local of a nested if statement, and an entity that is only written -/

/-- Both branches of an if statement assign `x`, and the if statement around it loads `x`. -/
def nestedLocal : FunctionDef where
  name := "nested_local_fn"
  args := [(⟨1, 20⟩, "g")]
  body := .ifelse (.constant "True")
    (.ifelse (.constant "False")
      (.assign [.name ⟨4, 12⟩ "x"] none (.constant "1") .done)
      (.assign [.name ⟨6, 12⟩ "x"] none (.constant "2") .done)
      (.assign [.name ⟨7, 8⟩ "y"] none (.name ⟨7, 12⟩ "x") .done)) .done .done

/-- An if statement writes an attribute of `car`. -/
def writtenEntity : FunctionDef where
  name := "written_entity_fn"
  args := [(⟨1, 22⟩, "g")]
  body := .assign [.name ⟨2, 4⟩ "car"] none
    (.node "Call" [.attr ⟨2, 10⟩ (.name ⟨2, 10⟩ "g") "entity"])
    (.ifelse (.constant "True")
      (.assign [.attr ⟨4, 8⟩ (.name ⟨4, 8⟩ "car") "x"] none (.constant "1") .done) .done .done)

end Bentobox.Sdk.Ast
