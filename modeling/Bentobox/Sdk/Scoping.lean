import Bentobox.Sdk.IfElse

/-!
# The scope of generated code

`transform_ifelse` makes nested functions of the branches, and what a branch assigns is
local to its function. Such a local is bound there only when it is an argument or after
it has been assigned, so a function that is fine in ordinary Python may be turned into
one that stops with a `NameError`.

`Block.BoundBeforeUse` is what ordinary Python asks for and `Block.Provided` what the
transformed code needs on top of it.
-/
namespace Bentobox.Sdk

/-! ## Ordinary Python -/

/-- The symbol is a local. -/
def Symbol.isName : Symbol → Bool
  | name _ => true
  | attr _ _ _ => false

/-- The locals among the symbols are bound. -/
def NamesBound (bound symbols : List Symbol) : Prop :=
  ∀ symbol ∈ symbols, symbol.isName → symbol ∈ bound

instance (bound symbols : List Symbol) : Decidable (NamesBound bound symbols) :=
  inferInstanceAs (Decidable (∀ symbol ∈ symbols, symbol.isName → symbol ∈ bound))

namespace Block
variable {α : Type}

/-- The symbols that are loaded. -/
def loads : Block α → List Symbol
  | done => []
  | assign _ value rest => value.leaves ++ rest.loads
  | ifelse _ test body orelse rest =>
    test.leaves ++ (body.loads ++ (orelse.loads ++ rest.loads))

/-- The targets that are assigned on every path. -/
def bindings : Block α → List Symbol
  | done => []
  | assign target _ rest => target :: rest.bindings
  | ifelse _ _ body orelse rest =>
    body.bindings.filter (· ∈ orelse.bindings) ++ rest.bindings

/-- Every local is bound before each of its uses, on every path. -/
def BoundBeforeUse : List Symbol → Block α → Prop
  | _, done => True
  | bound, assign target value rest =>
    NamesBound bound value.leaves ∧ rest.BoundBeforeUse (target :: bound)
  | bound, ifelse _ test body orelse rest =>
    NamesBound bound test.leaves ∧ body.BoundBeforeUse bound ∧ orelse.BoundBeforeUse bound ∧
      rest.BoundBeforeUse (body.bindings.filter (· ∈ orelse.bindings) ++ bound)

/-- Every local that a branch assigns and that is read after the if statement was bound before the
if statement. -/
def BoundBeforeBranch : List Symbol → Block α → Prop
  | _, done => True
  | bound, assign target _ rest => rest.BoundBeforeBranch (target :: bound)
  | bound, ifelse _ _ body orelse rest =>
    NamesBound bound ((body.stores ++ orelse.stores).filter (· ∈ rest.loads)) ∧
      body.BoundBeforeBranch bound ∧ orelse.BoundBeforeBranch bound ∧
      rest.BoundBeforeBranch (body.bindings.filter (· ∈ orelse.bindings) ++ bound)

instance decidableBoundBeforeUse : (bound : List Symbol) → (b : Block α) →
    Decidable (b.BoundBeforeUse bound)
  | _, done => inferInstanceAs (Decidable True)
  | bound, assign target _ rest =>
    have := decidableBoundBeforeUse (target :: bound) rest
    inferInstanceAs (Decidable (_ ∧ _))
  | bound, ifelse _ _ body orelse rest =>
    have := decidableBoundBeforeUse bound body
    have := decidableBoundBeforeUse bound orelse
    have := decidableBoundBeforeUse (body.bindings.filter (· ∈ orelse.bindings) ++ bound) rest
    inferInstanceAs (Decidable (_ ∧ _ ∧ _ ∧ _))

instance decidableBoundBeforeBranch : (bound : List Symbol) → (b : Block α) →
    Decidable (b.BoundBeforeBranch bound)
  | _, done => inferInstanceAs (Decidable True)
  | bound, assign target _ rest => decidableBoundBeforeBranch (target :: bound) rest
  | bound, ifelse _ _ body orelse rest =>
    have := decidableBoundBeforeBranch bound body
    have := decidableBoundBeforeBranch bound orelse
    have := decidableBoundBeforeBranch (body.bindings.filter (· ∈ orelse.bindings) ++ bound) rest
    inferInstanceAs (Decidable (_ ∧ _ ∧ _ ∧ _))

end Block

/-! ## The condition -/

/-- The symbols read in an expression that are assigned in other blocks as well. The function
assigns `all` and the block of the expression `own`; a ternary is a block that assigns nothing. -/
def Expr.captures (all own : List Symbol) (e : Expr Symbol) : List Symbol :=
  e.ownLeaves.filter (fun symbol => all.count symbol ≠ own.count symbol) ++
    e.ternaryLeaves.filter fun symbol => all.count symbol ≠ 0

namespace Block
variable {α : Type}

/-- The symbols read in a block or an if statement in it that are assigned in other blocks than the
one that reads them. -/
def captures (all own : List Symbol) : Block α → List Symbol
  | done => []
  | assign _ value rest => value.captures all own ++ rest.captures all own
  | ifelse _ test body orelse rest =>
    let own' := body.ownStores ++ orelse.ownStores
    test.captures all own' ++ (body.captures all own' ++ orelse.captures all own') ++
      rest.captures all own

/-- **The condition.** Bound so far are the locals that have been assigned in the same branch, or
outside of all branches, and those that the if statement of the branch captures. At an if statement
what it captures is bound, and what only one of its branches assigns. -/
def Provided (all : List Symbol) : List Symbol → Block α → Prop
  | _, done => True
  | bound, assign target _ rest => rest.Provided all (target :: bound)
  | bound, ifelse a test body orelse rest =>
    let captured := (ifelse a test body orelse done).captures all []
    NamesBound bound captured ∧
      NamesBound (bound ++ orelse.stores) body.stores ∧
      NamesBound (bound ++ body.stores) orelse.stores ∧
      body.Provided all captured ∧ orelse.Provided all captured ∧
      rest.Provided all (body.stores ++ orelse.stores ++ bound)

instance decidableProvided (all : List Symbol) : (bound : List Symbol) → (b : Block α) →
    Decidable (b.Provided all bound)
  | _, done => inferInstanceAs (Decidable True)
  | bound, assign target _ rest => decidableProvided all (target :: bound) rest
  | bound, ifelse a test body orelse rest =>
    have := decidableProvided all ((ifelse a test body orelse done).captures all []) body
    have := decidableProvided all ((ifelse a test body orelse done).captures all []) orelse
    have := decidableProvided all (body.stores ++ orelse.stores ++ bound) rest
    inferInstanceAs (Decidable (_ ∧ _ ∧ _ ∧ _ ∧ _ ∧ _))

end Block

/-! ## What the analysis passes -/

namespace Block
variable {α : Type} {all own bound defined : List Symbol} {symbol : Symbol}

theorem count_ownStores_le (b : Block α) (symbol : Symbol) :
    b.ownStores.count symbol ≤ b.stores.count symbol := by
  induction b with
  | done => exact le_rfl
  | assign target value rest ih =>
    simp only [ownStores, stores, List.count_cons]
    omega
  | ifelse a test body orelse rest hb ho hr =>
    simp only [ownStores, stores, List.count_append]
    omega

theorem bindings_subset_stores (b : Block α) : b.bindings ⊆ b.stores := by
  induction b with
  | done => exact fun _ h => h
  | assign target value rest ih => exact List.cons_subset_cons target ih
  | ifelse a test body orelse rest hb ho hr =>
    intro symbol h
    simp only [bindings, List.mem_append, List.mem_filter] at h
    simp only [stores, List.mem_append]
    exact h.imp (fun h => hb h.1) fun h => .inr (hr h)

theorem mem_filter_isInput_iff {symbols : List Symbol} :
    symbol ∈ symbols.filter (isInput all own defined) ↔
      symbol ∈ symbols ∧ symbol ∈ defined ∧ all.count symbol ≠ own.count symbol := by
  simp [isInput]

theorem mem_expr_captures_iff {e : Expr Symbol} : symbol ∈ e.captures all own ↔
    symbol ∈ e.ownLeaves ∧ all.count symbol ≠ own.count symbol ∨
      symbol ∈ e.ternaryLeaves ∧ all.count symbol ≠ 0 := by
  simp [Expr.captures]

/-- Every input is captured. -/
theorem captures_of_inputs {b : Block α}
    (h : symbol ∈ b.inputSyms all defined ∨ symbol ∈ b.ownInputs all own defined) :
    symbol ∈ b.captures all own := by
  induction b generalizing own defined with
  | done => simp [inputSyms, ownInputs] at h
  | assign target value rest ih =>
    simp only [inputSyms, ownInputs, List.mem_append, mem_filter_isInput_iff, List.count_nil] at h
    simp only [captures, List.mem_append, mem_expr_captures_iff]
    rcases h with (⟨hm, -, hc⟩ | h) | (⟨hm, -, hc⟩ | h)
    · exact .inl (.inr ⟨hm, hc⟩)
    · exact .inr (ih (.inl h))
    · exact .inl (.inl ⟨hm, hc⟩)
    · exact .inr (ih (.inr h))
  | ifelse a test body orelse rest hb ho hr =>
    simp only [inputSyms, ownInputs, List.mem_append, mem_filter_isInput_iff, List.count_nil] at h
    simp only [captures, List.mem_append, mem_expr_captures_iff]
    rcases h with ((((⟨hm, -, hc⟩ | h) | h) | ((⟨hm, -, hc⟩ | h) | h)) | h) | h
    · exact .inl (.inl (.inr ⟨hm, hc⟩))
    · exact .inl (.inr (.inl (hb (.inl h))))
    · exact .inl (.inr (.inr (ho (.inl h))))
    · exact .inl (.inl (.inl ⟨hm, hc⟩))
    · exact .inl (.inr (.inl (hb (.inr h))))
    · exact .inl (.inr (.inr (ho (.inr h))))
    · exact .inr (hr (.inl h))
    · exact .inr (hr (.inr h))

/-- Every local that is captured is an input, as it has been defined before it is used. -/
theorem inputs_of_captures {b : Block α} (hb : b.BoundBeforeUse bound) (hsub : bound ⊆ defined)
    (hname : symbol.isName) (h : symbol ∈ b.captures all own) :
    symbol ∈ b.inputSyms all defined ∨ symbol ∈ b.ownInputs all own defined := by
  induction b generalizing own bound defined with
  | done => simp [captures] at h
  | assign target value rest ih =>
    simp only [captures, List.mem_append, mem_expr_captures_iff] at h
    simp only [inputSyms, ownInputs, List.mem_append, mem_filter_isInput_iff, List.count_nil]
    have hdef : symbol ∈ value.leaves → symbol ∈ target :: defined := fun hm =>
      List.mem_cons_of_mem _ (hsub (hb.1 symbol hm hname))
    rcases h with (⟨hm, hc⟩ | ⟨hm, hc⟩) | h
    · exact .inr (.inl ⟨hm, hdef (Expr.mem_leaves_iff.mpr (.inl hm)), hc⟩)
    · exact .inl (.inl ⟨hm, hdef (Expr.mem_leaves_iff.mpr (.inr hm)), hc⟩)
    · exact (ih hb.2 (List.cons_subset_cons _ hsub) h).imp .inr .inr
  | ifelse a test body orelse rest ihb iho ihr =>
    obtain ⟨htest, hbody, horelse, hrest⟩ := hb
    simp only [captures, List.mem_append, mem_expr_captures_iff] at h
    simp only [inputSyms, ownInputs, List.mem_append, mem_filter_isInput_iff, List.count_nil]
    have hdef : symbol ∈ test.leaves → symbol ∈ defined := fun hm => hsub (htest symbol hm hname)
    have hsub' : bound ⊆ body.stores ++ defined := fun _ hm => List.mem_append_right _ (hsub hm)
    have hsub'' : body.bindings.filter (· ∈ orelse.bindings) ++ bound ⊆
        orelse.stores ++ (body.stores ++ defined) := by
      refine List.append_subset.mpr ⟨fun _ hm => ?_, fun _ hm => ?_⟩
      · simp [body.bindings_subset_stores (List.mem_of_mem_filter hm)]
      · simp [hsub hm]
    rcases h with ((⟨hm, hc⟩ | ⟨hm, hc⟩) | h | h) | h
    · exact .inl (.inl (.inr (.inl (.inl ⟨hm, hdef (Expr.mem_leaves_iff.mpr (.inl hm)), hc⟩))))
    · exact .inl (.inl (.inl (.inl (.inl ⟨hm, hdef (Expr.mem_leaves_iff.mpr (.inr hm)), hc⟩))))
    · rcases ihb hbody hsub h with h | h
      · exact .inl (.inl (.inl (.inl (.inr h))))
      · exact .inl (.inl (.inr (.inl (.inr h))))
    · rcases iho horelse hsub' h with h | h
      · exact .inl (.inl (.inl (.inr h)))
      · exact .inl (.inl (.inr (.inr h)))
    · rcases ihr hrest hsub'' h with h | h
      · exact .inl (.inr h)
      · exact .inr h

/-- Of the locals that a block reads, those are captured that are defined outside of it. -/
theorem captures_of_loads {b : Block α} (hown : own.count symbol < all.count symbol)
    (hstores : b.stores.count symbol < all.count symbol) (h : symbol ∈ b.loads) :
    symbol ∈ b.captures all own := by
  have hread : ∀ {own} {e : Expr Symbol}, own.count symbol < all.count symbol →
      symbol ∈ e.leaves → symbol ∈ e.captures all own := by
    intro own e hown hm
    refine mem_expr_captures_iff.mpr ?_
    rcases Expr.mem_leaves_iff.mp hm with hm | hm
    · exact .inl ⟨hm, hown.ne'⟩
    · exact .inr ⟨hm, Nat.ne_zero_of_lt hown⟩
  induction b generalizing own with
  | done => simp [loads] at h
  | assign target value rest ih =>
    simp only [loads, List.mem_append] at h
    simp only [captures, List.mem_append]
    rw [stores, List.count_cons] at hstores
    rcases h with h | h
    · exact .inl (hread hown h)
    · exact .inr (ih hown (by omega) h)
  | ifelse a test body orelse rest hb ho hr =>
    simp only [loads, List.mem_append] at h
    simp only [captures, List.mem_append]
    simp only [stores, List.count_append] at hstores
    have hown' : (body.ownStores ++ orelse.ownStores).count symbol < all.count symbol := by
      have h₁ := body.count_ownStores_le symbol
      have h₂ := orelse.count_ownStores_le symbol
      rw [List.count_append]
      omega
    rcases h with h | h | h | h
    · exact .inl (.inl (hread hown' h))
    · exact .inl (.inr (.inl (hb hown' (by omega) h)))
    · exact .inl (.inr (.inr (ho hown' (by omega) h)))
    · exact .inr (hr hown (by omega) h)

end Block

/-! ## Arguments -/

/-- A local is no entity variable, and the variable of an attribute is one. -/
def Scope.Knows (sc : Scope) : Symbol → Prop
  | .name id => sc.entities id = none
  | .attr entity _ _ => (sc.entities entity).isSome

theorem Scope.eq_name_of_knows {sc : Scope} {symbol : Symbol} (h : sc.Knows symbol)
    (hbase : sc.entities symbol.base = none) : symbol = .name symbol.base := by
  cases symbol with
  | name id => rfl
  | attr entity component attributeName =>
    have hsome : (sc.entities entity).isSome := h
    rw [show sc.entities entity = none from hbase] at hsome
    cases hsome

namespace Block
variable {α : Type} {sc : Scope} {all own bound defined : List Symbol}

theorem loads_of_captures {b : Block α} {symbol : Symbol} (h : symbol ∈ b.captures all own) :
    symbol ∈ b.loads := by
  have hread : ∀ {own : List Symbol} {e : Expr Symbol}, symbol ∈ e.captures all own →
      symbol ∈ e.leaves := fun h =>
    Expr.mem_leaves_iff.mpr ((mem_expr_captures_iff.mp h).imp And.left And.left)
  induction b generalizing own with
  | done => cases h
  | assign target value rest ih =>
    simp only [captures, List.mem_append] at h
    exact List.mem_append.mpr (h.imp hread ih)
  | ifelse a test body orelse rest hb ho hr =>
    simp only [captures, List.mem_append] at h
    simp only [loads, List.mem_append]
    rcases h with (h | h | h) | h
    · exact .inl (hread h)
    · exact .inr (.inl (hb h))
    · exact .inr (.inr (.inl (ho h)))
    · exact .inr (.inr (.inr (hr h)))

theorem symbols_of_loads {b : Block α} {symbol : Symbol} (h : symbol ∈ b.loads) :
    symbol ∈ b.symbols := by
  induction b with
  | done => cases h
  | assign target value rest ih =>
    simp only [loads, List.mem_append] at h
    simp only [symbols, List.cons_append, List.mem_cons, List.mem_append]
    exact .inr (h.imp_right ih)
  | ifelse a test body orelse rest hb ho hr =>
    simp only [loads, List.mem_append] at h
    simp only [symbols, List.mem_append]
    exact h.imp_right (Or.imp hb (Or.imp ho hr))

/-- An if statement is passed the locals that it captures. -/
theorem mem_args_of_captures {a : α} {test : Expr Symbol} {body orelse : Block α} {id : String}
    (hb : (ifelse a test body orelse done).BoundBeforeUse bound) (hsub : bound ⊆ defined)
    (h : .name id ∈ (ifelse a test body orelse done).captures all []) :
    id ∈ (activity all defined (ifelse a test body orelse done)).args := by
  have hinput : .name id ∈ (ifelse a test body orelse done).inputSyms all defined := by
    simpa [ownInputs] using inputs_of_captures hb hsub rfl h
  exact List.mem_eraseDups.mpr (List.mem_map.mpr ⟨_, hinput, rfl⟩)

/-- And no other locals. -/
theorem captures_of_mem_args {b : Block α} {id : String}
    (hknows : ∀ symbol ∈ b.symbols, sc.Knows symbol) (h : id ∈ (activity all defined b).args)
    (hnone : sc.entities id = none) : .name id ∈ b.captures all [] := by
  obtain ⟨symbol, hinput, rfl⟩ := List.mem_map.mp (List.mem_eraseDups.mp h)
  have hcaptured : symbol ∈ b.captures all [] := captures_of_inputs (.inl hinput)
  have hsymbol := hknows symbol (symbols_of_loads (loads_of_captures hcaptured))
  rwa [← Scope.eq_name_of_knows hsymbol hnone]

end Block
end Bentobox.Sdk
