import Mathlib.Data.List.Forall2
import Bentobox.Lib.Fallible
import Bentobox.Sdk.Targets

/-!
# Reaching definitions

The definition that reaches a load is the latest one in the scopes around it that is complete.
`resolve_symbol` labels the loads with it where every symbol is pushed in time, with its value, and
in the scope of the load.
-/
namespace Bentobox.Sdk.Reaching

/-- The definition that reaches a load: the parameter that it is, or the latest definition in the
scopes around it that is complete. -/
def Load.reaching (env : Env) (l : Load) : Option NodeRef :=
  match l.lambdaArg with
  | some n => some (.lambdaArg n)
  | none => env.lookup l.symbol

/-- The definitions that reach the loads, in the order of the walk. An assignment is complete after
its value. The parameters of a function are definitions in its body, its name is one there and
after it. -/
def Stmts.reaching (n : ℕ) (env : Env) : Stmts → List (Option NodeRef)
  | done => []
  | assign targets loads rest =>
    loads.map (Load.reaching env) ++ rest.reaching (n + 1) (targets.assigned n ++ env)
  | expr loads rest => loads.map (Load.reaching env) ++ rest.reaching (n + 1) env
  | functionDef name args otherArgs before body after rest =>
    before.map (Load.reaching env) ++
      body.reaching (n + 1) ((params n (args ++ otherArgs)).reverse ++ (name, .stmt n 0) :: env) ++
      after.map (Load.reaching env) ++
      rest.reaching (n + 1 + body.size) ((name, .stmt n 0) :: env)

/-- **The symbols are resolved**: every load is labelled with the node of the tree that reaches
it, and `analyze_activity` raises no error. -/
def ReachingResolved (labels : Labels) (ast : Stmts) : Prop :=
  ∃ rs, resolveSymbol ast = .ok rs ∧
    (∀ r ∈ rs, ∃ isInput, r.isInput labels = .ok isInput) ∧
    List.Forall₂ (fun r d => r.definition = d.map Definition.node) rs (ast.reaching 0 [])

/-! ## Where symbols are resolved -/

/-- Symbols of which a wrong definition is pushed, or none. -/
def wrong (symbols : List String) : List (String × Bool) :=
  symbols.map fun symbol => (symbol, false)

/-- The symbol was not pushed outside of the function, and if it was bound before, then the right
definition was pushed last. -/
def Load.Clear (inherited : List String) (bindings : List (String × Bool)) (l : Load) : Prop :=
  l.lambdaArg = none ∧ l.symbol ∉ inherited ∧ bindings.lookup l.symbol ≠ some false

namespace Stmts

/-- All loads are clear, where `inherited` was pushed outside of the function and `pushed` so far,
and `bindings` are those so far, the latest one first. What a value loads stands behind what its
own assignment pushes. The parameters of a function are pushed outside of it as well. -/
def AllClear (inherited pushed : List String) (bindings : List (String × Bool)) : Stmts → Prop
  | done => True
  | assign targets loads rest =>
    (∀ t ∈ targets.tgts, t.symbol.isSome) ∧
      (∀ l ∈ loads, l.Clear inherited (wrong targets.pushed ++ bindings)) ∧
      rest.AllClear inherited (targets.pushed ++ pushed) (targets.bindings ++ bindings)
  | expr loads rest =>
    (∀ l ∈ loads, l.Clear inherited bindings) ∧ rest.AllClear inherited pushed bindings
  | functionDef name args otherArgs before body after rest =>
    let outside := name :: args ++ pushed
    let bound := wrong (bindings.map Prod.fst)
    (∀ l ∈ before, l.Clear outside bound) ∧
      body.AllClear outside outside (wrong otherArgs ++ bound) ∧
      (∀ l ∈ after, l.Clear outside (wrong body.pushes ++ bound)) ∧
      rest.AllClear inherited outside (wrong args ++ (name, true) :: bindings)

end Stmts

/-! ## Loads -/

/-- How the latest definition in a frame compares with the one that reaches, by what was bound
last. -/
def Latest (bound : Option Bool) (definitions : List Definition) (d : Option NodeRef) : Prop :=
  match bound with
  | none => definitions = [] ∧ d = none
  | some true => d ≠ none ∧ definitions.getLast? = d.map .node
  | some false => definitions.getLast? ≠ d.map .node

theorem Latest.iff {bound : Option Bool} {definitions : List Definition} {d : Option NodeRef}
    (h : Latest bound definitions d) :
    definitions.getLast? = d.map .node ↔ bound ≠ some false := by
  rcases bound with _ | _ | _
  · obtain ⟨rfl, rfl⟩ := h
    simp
  · exact iff_of_false h fun hne => hne rfl
  · exact iff_of_true h.2 (by simp)

/-- A frame of a function: a symbol that was pushed outside has copies first, the others have nodes
of the tree only. -/
structure Frame.Copied (inherited : List String) (frame : Frame) : Prop where
  copies : ∀ s ∈ inherited, ∃ m ds, frame s = .copy m :: ds
  nodes : ∀ s ∉ inherited, ∀ d ∈ frame s, ∃ m, d = .node m

theorem Frame.Extends.copied {low high : ℕ} {pushed inherited : List String} {frame frame' : Frame}
    (h : frame.Extends low high pushed frame') (hframe : frame.Copied inherited) :
    frame'.Copied inherited := by
  constructor
  · intro s hs
    obtain ⟨ms, heq, -⟩ := h s
    obtain ⟨m, ds, hcopy⟩ := hframe.copies s hs
    exact ⟨m, ds ++ ms.map .node, by rw [heq, hcopy, List.cons_append]⟩
  · intro s hs d hd
    obtain ⟨ms, heq, -⟩ := h s
    rw [heq] at hd
    rcases List.mem_append.mp hd with hd | hd
    · exact hframe.nodes s hs d hd
    · obtain ⟨m, -, rfl⟩ := List.mem_map.mp hd
      exact ⟨m, rfl⟩

/-- What the walk and the reaching definitions know at a place where symbols are loaded. -/
structure Sees (inherited : List String) (bindings : List (String × Bool)) (frame last : Frame)
    (env : Env) : Prop where
  copied : frame.Copied inherited
  lastCopied : last.Copied inherited
  noLambda : ∀ s n, Definition.node (.lambdaArg n) ∉ frame s
  latest : ∀ s ∉ inherited, Latest (bindings.lookup s) (frame s) (env.lookup s)

/-- A load is labelled with the node that reaches it, and causes no error. -/
def Correct (labels : Labels) (r : Resolved) (d : Option NodeRef) : Prop :=
  (∃ isInput, r.isInput labels = .ok isInput) ∧ r.definition = d.map .node

theorem anyElsewhere_nodes (labels : Labels) (block : ℕ) {definitions : List Definition}
    (h : ∀ d ∈ definitions, ∃ m, d = .node m) : ∃ b,
      Ast.LabelledSymbol.anyElsewhere block (definitions.map (Definition.block labels)) =
        .ok b := by
  induction definitions with
  | nil => exact ⟨false, rfl⟩
  | cons d ds ih =>
    obtain ⟨m, rfl⟩ := h d List.mem_cons_self
    rw [List.map_cons, Ast.LabelledSymbol.anyElsewhere]
    by_cases hblock : labels.block m = block
    · obtain ⟨b, hb⟩ := ih fun d hd => h d (List.mem_cons_of_mem _ hd)
      refine ⟨b, ?_⟩
      rw [← hb]
      exact if_pos hblock
    · exact ⟨true, if_neg hblock⟩

/-- **The clear loads** are resolved. -/
theorem Sees.correct_iff {labels : Labels} {inherited : List String}
    {bindings : List (String × Bool)} {frame last : Frame} {env : Env}
    (h : Sees inherited bindings frame last env) (l : Load) :
    Correct labels (l.resolve frame last) (l.reaching env) ↔ l.Clear inherited bindings := by
  rw [Correct, Load.Clear, Load.reaching]
  cases hlambda : l.lambdaArg with
  | some n =>
    -- no frame has the parameter of a lambda
    refine iff_of_false (fun hcorrect => ?_) fun hclear => by cases hclear.1
    exact h.noLambda l.symbol n (List.mem_of_getLast? hcorrect.2)
  | none =>
    by_cases hs : l.symbol ∈ inherited
    · -- the first definition is a copy, which has no block
      refine iff_of_false ?_ fun hclear => hclear.2.1 hs
      rintro ⟨⟨isInput, hok⟩, -⟩
      obtain ⟨m, ds, hframe⟩ := h.copied.copies l.symbol hs
      obtain ⟨m', ds', hlast⟩ := h.lastCopied.copies l.symbol hs
      rw [Resolved.isInput, if_pos, Load.resolve, hframe, if_neg (List.cons_ne_nil _ _), hlast]
        at hok
      · cases hok
      · rw [Load.resolve, hframe, List.getLast?_isSome]
        exact List.cons_ne_nil _ _
    · have hnodes : ∀ d ∈ (l.resolve frame last).definitions, ∃ m, d = .node m := by
        rw [Load.resolve]
        intro d hd
        split at hd
        · cases hd
        · exact h.lastCopied.nodes l.symbol hs d hd
      have hok : ∃ isInput, (l.resolve frame last).isInput labels = .ok isInput := by
        rw [Resolved.isInput]
        split
        · exact anyElsewhere_nodes labels _ hnodes
        · exact ⟨false, rfl⟩
      have hlatest := (h.latest l.symbol hs).iff
      exact ⟨fun hcorrect => ⟨rfl, hs, hlatest.mp hcorrect.2⟩,
        fun hclear => ⟨hok, hlatest.mpr hclear.2.2⟩⟩

theorem Sees.forall_clear_iff {inherited : List String} {bindings : List (String × Bool)}
    {frame last : Frame} {env : Env} (h : Sees inherited bindings frame last env) (labels : Labels)
    {loads : List Load} : (∀ l ∈ loads, l.Clear inherited bindings) ↔
      ∀ l ∈ loads, Correct labels (l.resolve frame last) (l.reaching env) :=
  forall₂_congr fun l _ => (h.correct_iff l).symm

/-! ## The walk -/

theorem mem_of_getLast?_append {definitions : List Definition} {ms : List NodeRef}
    (hne : ms ≠ []) {d : Option NodeRef}
    (h : (definitions ++ ms.map Definition.node).getLast? = d.map .node) :
    ∃ m ∈ ms, d = some m := by
  rw [List.getLast?_append_of_ne_nil _ (by simpa using hne), List.getLast?_map,
    List.getLast?_eq_some_getLast hne] at h
  obtain ⟨m, hm, heq⟩ := Option.map_eq_some_iff.mp h.symm
  cases heq
  exact ⟨_, List.getLast_mem hne, hm⟩

/-- What holds before the statement `n`: the frame has the symbols that were pushed, no node is of
a later statement, and the latest definitions are right or wrong as the bindings say. -/
structure Inv (n : ℕ) (inherited pushed : List String) (bindings : List (String × Bool))
    (frame : Frame) (env : Env) : Prop where
  copied : frame.Copied inherited
  nil_iff : ∀ s, frame s = [] ↔ s ∉ pushed
  within : ∀ s m, Definition.node m ∈ frame s → m.Within 0 n
  lookup_within : ∀ s m, env.lookup s = some m → m.Within 0 n
  latest : ∀ s ∉ inherited, Latest (bindings.lookup s) (frame s) (env.lookup s)

namespace Inv
variable {n : ℕ} {inherited pushed : List String} {bindings : List (String × Bool)} {frame : Frame}
  {env : Env}

theorem sees (h : Inv n inherited pushed bindings frame env) {last : Frame}
    (hlast : last.Copied inherited) : Sees inherited bindings frame last env := by
  refine ⟨h.copied, hlast, fun s k hmem => ?_, h.latest⟩
  obtain ⟨_, _, heq, -⟩ := h.within s _ hmem
  cases heq

theorem inherited_subset (h : Inv n inherited pushed bindings frame env) : inherited ⊆ pushed := by
  intro s hs
  obtain ⟨m, ds, heq⟩ := h.copied.copies s hs
  by_contra hpushed
  rw [(h.nil_iff s).mpr hpushed] at heq
  cases heq

theorem nil_iff_of_extends (h : Inv n inherited pushed bindings frame env) {low high : ℕ}
    {ps : List String} {frame' : Frame} (hext : frame.Extends low high ps frame') (s : String) :
    frame' s = [] ↔ s ∉ ps ++ pushed := by
  obtain ⟨ms, heq, -, hnil⟩ := hext s
  rw [heq, List.append_eq_nil_iff, h.nil_iff s, List.map_eq_nil_iff, hnil, List.mem_append, not_or,
    and_comm]

theorem within_of_extends (h : Inv n inherited pushed bindings frame env) {low high : ℕ}
    {ps : List String} {frame' : Frame} (hext : frame.Extends low high ps frame') (hle : n ≤ high)
    {s : String} {m : NodeRef} (hm : Definition.node m ∈ frame' s) : m.Within 0 high := by
  obtain ⟨ms, heq, hms, -⟩ := hext s
  rw [heq] at hm
  rcases List.mem_append.mp hm with hm | hm
  · exact (h.within s m hm).mono (Nat.le_refl 0) hle
  · obtain ⟨m', hm', heq'⟩ := List.mem_map.mp hm
    cases heq'
    exact (hms m hm').mono (Nat.zero_le low) (Nat.le_refl high)

/-- What is pushed before it is complete is wrong. -/
theorem latest_wrong (h : Inv n inherited pushed bindings frame env) {low high : ℕ}
    {ps : List String} {frame' : Frame} (hext : frame.Extends low high ps frame') (hle : n ≤ low)
    {s : String} (hs : s ∉ inherited) :
    Latest ((wrong ps ++ bindings).lookup s) (frame' s) (env.lookup s) := by
  obtain ⟨ms, heq, hms, hnil⟩ := hext s
  rw [List.lookup_append, wrong, lookup_map_self, heq]
  by_cases hps : s ∈ ps
  · rw [if_pos hps]
    intro hlast
    obtain ⟨m, hmem, hm⟩ := mem_of_getLast?_append (fun h => hnil.mp h hps) hlast
    obtain ⟨k, i, heq, hk, -⟩ := hms m hmem
    obtain ⟨k', i', heq', -, hk'⟩ := h.lookup_within s _ hm
    cases heq.symm.trans heq'
    omega
  · rw [if_neg hps, hnil.mpr hps, List.map_nil, List.append_nil, Option.none_or]
    exact h.latest s hs

/-- Loads where something is pushed and not complete. -/
theorem sees_wrong (h : Inv n inherited pushed bindings frame env) {low high : ℕ}
    {ps : List String} {frame' last : Frame} (hext : frame.Extends low high ps frame')
    (hlow : n ≤ low) (hhigh : n ≤ high) (hlast : last.Copied inherited) :
    Sees inherited (wrong ps ++ bindings) frame' last env := by
  refine ⟨hext.copied h.copied, hlast, fun s k hmem => ?_, fun s hs => h.latest_wrong hext hlow hs⟩
  obtain ⟨_, _, heq, -⟩ := h.within_of_extends hext hhigh hmem
  cases heq

theorem mono (h : Inv n inherited pushed bindings frame env) {n' : ℕ} (hle : n ≤ n') :
    Inv n' inherited pushed bindings frame env where
  copied := h.copied
  nil_iff := h.nil_iff
  within s m hm := (h.within s m hm).mono (Nat.le_refl 0) hle
  lookup_within s m hm := (h.lookup_within s m hm).mono (Nat.le_refl 0) hle
  latest := h.latest

end Inv

theorem latest_some {b : Bool} {definitions : List Definition} {m : NodeRef}
    (h : b = true ↔ definitions.getLast? = some (.node m)) :
    Latest (some b) definitions (some m) := by
  cases b with
  | true => exact ⟨Option.some_ne_none m, h.mp rfl⟩
  | false => exact fun hlast => Bool.noConfusion (h.mpr hlast)

theorem getLast?_append_nodes {definitions : List Definition} {ms : List NodeRef} {m : NodeRef}
    (h : Definition.node m ∉ definitions) :
    (definitions ++ ms.map Definition.node).getLast? = some (.node m) ↔ ms.getLast? = some m := by
  cases ms using List.reverseRecOn with
  | nil =>
    rw [List.map_nil, List.append_nil]
    exact iff_of_false (fun hlast => h (List.mem_of_getLast? hlast)) fun hlast => by cases hlast
  | append_singleton ms m' =>
    rw [List.map_append, ← List.append_assoc, List.map_singleton, List.getLast?_concat,
      List.getLast?_concat, Option.some.injEq, Option.some.injEq, Definition.node.injEq]

theorem pushAll_eq_append (frame : Frame) (definitions : List (String × NodeRef)) (s : String) :
    frame.pushAll definitions s = frame s ++
      ((definitions.filter fun d => d.1 = s).map Prod.snd).map .node := by
  rw [pushAll_apply, List.map_map]
  rfl

/-- The last node that a function definition pushes for a parameter is one of a parameter. -/
theorem pushAll_header_of_mem (frame : Frame) (n : ℕ) (name : String) {args : List String}
    {s : String} (h : s ∈ args) : ∃ ds ms,
      frame.pushAll (header n name args) s = ds ++ ms.map Definition.node ∧ ms ≠ [] ∧
        ∀ m ∈ ms, ∃ i, m = .stmt n (i + 1) := by
  refine ⟨_, _, pushAll_eq_append (frame.push name (.stmt n 0)) (params n args) s, ?_, ?_⟩
  · intro hnil
    have hkey : s ∈ (params n args).map Prod.fst := by
      rw [params, List.map_fst_zip (by simp)]
      exact h
    obtain ⟨d, hd, rfl⟩ := List.mem_map.mp hkey
    have := List.filter_eq_nil_iff.mp (List.map_eq_nil_iff.mp hnil) d hd
    exact this (by simp)
  · intro m hm
    obtain ⟨d, hd, rfl⟩ := List.mem_map.mp hm
    obtain ⟨i, -, hi⟩ := List.mem_map.mp
      (List.of_mem_zip (a := d.1) (b := d.2) (List.mem_of_mem_filter hd)).2
    exact ⟨i, hi.symm⟩

namespace Inv
variable {n : ℕ} {inherited pushed : List String} {bindings : List (String × Bool)} {frame : Frame}
  {env : Env}

/-- An assignment. -/
theorem assign (h : Inv n inherited pushed bindings frame env) {targets : Targets}
    (htargets : ∀ t ∈ targets.tgts, t.symbol.isSome) :
    Inv (n + 1) inherited (targets.pushed ++ pushed) (targets.bindings ++ bindings)
      (frame.pushAll (zipValues targets.symbols (targets.values n)))
      (targets.assigned n ++ env) := by
  have hext := extends_pushTargets n targets frame
  refine ⟨hext.copied h.copied, h.nil_iff_of_extends hext,
    fun s m hm => h.within_of_extends hext (Nat.le_succ n) hm, fun s m hm => ?_, fun s hs => ?_⟩
  · rw [List.lookup_append] at hm
    by_cases hsymbol : s ∈ targets.symbols
    · obtain ⟨b, m', -, hassigned, hwithin, -⟩ := @pushedFor_eq targets htargets n s hsymbol
      rw [hassigned, Option.some_or] at hm
      cases hm
      exact hwithin.mono (Nat.zero_le n) (Nat.le_refl _)
    · rw [lookup_assigned_eq_none hsymbol, Option.none_or] at hm
      exact (h.lookup_within s m hm).mono (Nat.le_refl 0) (Nat.le_succ n)
  · rw [List.lookup_append, List.lookup_append, pushAll_eq_append]
    by_cases hsymbol : s ∈ targets.symbols
    · obtain ⟨b, m, hbindings, hassigned, hwithin, hiff⟩ :=
        @pushedFor_eq targets htargets n s hsymbol
      rw [hbindings, hassigned, Option.some_or, Option.some_or]
      refine latest_some (hiff.trans (getLast?_append_nodes fun hm => ?_).symm)
      obtain ⟨k, i, heq, -, hk⟩ := h.within s m hm
      obtain ⟨k', i', heq', hk', -⟩ := hwithin
      cases heq.symm.trans heq'
      omega
    · have hnil :
          ((zipValues targets.symbols (targets.values n)).filter fun d => d.1 = s) = [] := by
        rw [List.filter_eq_nil_iff]
        intro d hd heq
        rw [decide_eq_true_eq] at heq
        have := (List.of_mem_zip (a := d.1) (b := d.2) hd).1
        exact hsymbol (heq ▸ List.mem_eraseDups.mp this)
      rw [lookup_bindings_eq_none hsymbol, lookup_assigned_eq_none hsymbol, hnil, Option.none_or,
        Option.none_or, List.map_nil, List.map_nil, List.append_nil]
      exact h.latest s hs

/-- A function definition, whose parameters are left in the frame. -/
theorem header (h : Inv n inherited pushed bindings frame env) (name : String)
    (args : List String) :
    Inv (n + 1) inherited (name :: args ++ pushed) (wrong args ++ (name, true) :: bindings)
      (frame.pushAll (header n name args)) ((name, .stmt n 0) :: env) := by
  have hext := extends_pushHeader n name args frame
  refine ⟨hext.copied h.copied, h.nil_iff_of_extends hext,
    fun s m hm => h.within_of_extends hext (Nat.le_succ n) hm, fun s m hm => ?_, fun s hs => ?_⟩
  · rw [List.lookup_cons] at hm
    split at hm
    · cases hm
      exact ⟨n, 0, rfl, Nat.zero_le n, Nat.lt_succ_self n⟩
    · exact (h.lookup_within s m hm).mono (Nat.le_refl 0) (Nat.le_succ n)
  · rw [List.lookup_append, wrong, lookup_map_self]
    by_cases hargs : s ∈ args
    · -- the last one is a parameter, which is not in scope
      rw [if_pos hargs, Option.some_or]
      intro hlast
      obtain ⟨ds, ms, heq, hne, hms⟩ := pushAll_header_of_mem frame n name hargs
      rw [heq] at hlast
      obtain ⟨m, hm, hlookup⟩ := mem_of_getLast?_append hne hlast
      obtain ⟨i, rfl⟩ := hms m hm
      rw [List.lookup_cons] at hlookup
      split at hlookup
      · exact Nat.succ_ne_zero i (stmt_inj (Option.some.inj hlookup)).symm
      · obtain ⟨k, i', heq, -, hk⟩ := h.lookup_within s _ hlookup
        cases heq
        omega
    · have hnil : (params n args).filter (fun d => d.1 = s) = [] := by
        rw [List.filter_eq_nil_iff]
        intro d hd heq
        rw [decide_eq_true_eq] at heq
        exact hargs (heq ▸ (List.of_mem_zip (a := d.1) (b := d.2) hd).1)
      rw [if_neg hargs, Option.none_or, pushAll_eq_append, Reaching.header, List.filter_cons, hnil,
        List.lookup_cons, List.lookup_cons]
      by_cases hname : s = name
      · subst hname
        simp [Latest]
      · rw [beq_false_of_ne hname, if_neg (by simpa using Ne.symm hname), List.map_nil,
          List.map_nil, List.append_nil]
        exact h.latest s hs

/-- The frame of a new scope, which has copies only. -/
theorem scope (h : Inv n inherited pushed bindings frame env) {outside : List String}
    {frame' : Frame} (hframe' : ∀ s, frame' s = [] ↔ s ∉ outside) (hsub : pushed ⊆ outside) :
    Inv (n + 1) outside outside (wrong (bindings.map Prod.fst)) frame'.deepcopy env := by
  have hcopies : ∀ s d, d ∈ frame'.deepcopy s → ∃ m, d = .copy m := by
    intro s d hd
    obtain ⟨d', -, rfl⟩ := List.mem_map.mp hd
    cases d' with
    | node m => exact ⟨m, rfl⟩
    | copy m => exact ⟨m, rfl⟩
  have hnil : ∀ s, frame'.deepcopy s = [] ↔ s ∉ outside := fun s =>
    List.map_eq_nil_iff.trans (hframe' s)
  refine ⟨⟨fun s hs => ?_, fun s hs d hd => ?_⟩, hnil, fun s m hm => ?_, fun s m hm => ?_,
    fun s hs => ?_⟩
  · obtain ⟨d, ds, heq⟩ := List.exists_cons_of_ne_nil fun h => (hnil s).mp h hs
    obtain ⟨m, rfl⟩ := hcopies s d (heq ▸ List.mem_cons_self)
    exact ⟨m, ds, heq⟩
  · rw [(hnil s).mpr hs] at hd
    cases hd
  · obtain ⟨m', heq⟩ := hcopies s _ hm
    cases heq
  · exact (h.lookup_within s m hm).mono (Nat.le_refl 0) (Nat.le_succ n)
  · have hpushed : s ∉ pushed := fun hmem => hs (hsub hmem)
    have hlatest := h.latest s fun hmem => hpushed (h.inherited_subset hmem)
    rw [(h.nil_iff s).mpr hpushed] at hlatest
    rw [wrong, lookup_map_self, (hnil s).mpr hs]
    by_cases hkey : s ∈ bindings.map Prod.fst
    · rw [if_pos hkey]
      obtain ⟨b, hb⟩ : ∃ b, bindings.lookup s = some b := by
        rw [← Option.isSome_iff_exists, Option.isSome_iff_ne_none]
        intro hnone
        obtain ⟨d, hd, rfl⟩ := List.mem_map.mp hkey
        exact absurd (List.lookup_eq_none_iff.mp hnone d hd) (by simp)
      rw [hb] at hlatest
      cases b with
      | true =>
        obtain ⟨hne, heq⟩ := hlatest
        intro hnone
        exact hne (Option.map_eq_none_iff.mp hnone.symm)
      | false => exact hlatest
    · have hnone : bindings.lookup s = none := by
        rw [List.lookup_eq_none_iff]
        intro d hd
        simpa using fun heq : s = d.1 => hkey (heq ▸ List.mem_map_of_mem hd)
      rw [hnone] at hlatest
      rw [if_neg hkey]
      exact ⟨rfl, hlatest.2⟩

/-- The body of a function, where the parameters that are not pushed are in scope too. -/
theorem body {outside : List String} (h : Inv (n + 1) outside outside bindings frame env)
    {name : String} {args : List String} (hname : name ∈ outside) (hargs : args ⊆ outside)
    (otherArgs : List String) :
    Inv (n + 1) outside outside (wrong otherArgs ++ bindings) frame
      ((params n (args ++ otherArgs)).reverse ++ (name, .stmt n 0) :: env) := by
  have hlen : (args ++ otherArgs).length ≤
      ((List.range (args ++ otherArgs).length).map fun i => NodeRef.stmt n (i + 1)).length := by
    simp
  refine ⟨h.copied, h.nil_iff, h.within, fun s m hm => ?_, fun s hs => ?_⟩
  · rw [List.lookup_append, List.lookup_cons] at hm
    cases hparam : (params n (args ++ otherArgs)).reverse.lookup s with
    | some m' =>
      rw [hparam] at hm
      cases hm
      obtain ⟨_, _, heq, -⟩ := List.lookup_eq_some_iff.mp hparam
      have hmem : (s, m) ∈ params n (args ++ otherArgs) := by
        rw [← List.mem_reverse, heq]
        simp
      obtain ⟨i, -, rfl⟩ := List.mem_map.mp (List.of_mem_zip hmem).2
      exact ⟨n, i + 1, rfl, Nat.zero_le n, Nat.lt_succ_self n⟩
    | none =>
      rw [hparam, Option.none_or] at hm
      split at hm
      · cases hm
        exact ⟨n, 0, rfl, Nat.zero_le n, Nat.lt_succ_self n⟩
      · exact h.lookup_within s m hm
  · rw [List.lookup_append, List.lookup_append, List.lookup_cons, wrong, lookup_map_self]
    by_cases hother : s ∈ otherArgs
    · obtain ⟨j, hj, -, -, hlookup⟩ :=
        lookup_reverse_zip (List.mem_append_right args hother) hlen
      rw [if_pos hother, (h.nil_iff s).mpr hs, params, hlookup,
        List.getElem?_eq_getElem (Nat.lt_of_lt_of_le hj hlen)]
      exact fun hsome => by cases hsome
    · have hnone : (params n (args ++ otherArgs)).reverse.lookup s = none := by
        rw [List.lookup_eq_none_iff]
        intro d hd
        have hmem := (List.of_mem_zip (a := d.1) (b := d.2) (List.mem_reverse.mp hd)).1
        have hne : s ≠ d.1 := by
          intro heq
          rcases List.mem_append.mp (heq ▸ hmem) with hmem | hmem
          · exact hs (hargs hmem)
          · exact hother hmem
        simpa using hne
      have hne : s ≠ name := fun heq => hs (heq ▸ hname)
      rw [if_neg hother, hnone, beq_false_of_ne hne]
      exact h.latest s hs

end Inv

theorem forall₂_map_append {α β γ : Type} {R : β → γ → Prop} (f : α → β) (g : α → γ) (l : List α)
    (bs : List β) (cs : List γ) :
    List.Forall₂ R (l.map f ++ bs) (l.map g ++ cs) ↔
      (∀ a ∈ l, R (f a) (g a)) ∧ List.Forall₂ R bs cs := by
  induction l with
  | nil => simp
  | cons a l ih =>
    rw [List.map_cons, List.map_cons, List.cons_append, List.cons_append, List.forall₂_cons, ih,
      List.forall_mem_cons, and_assoc]

theorem forall₂_append_iff {β γ : Type} {R : β → γ → Prop} {bs bs' : List β} {cs cs' : List γ}
    (h : bs.length = cs.length) :
    List.Forall₂ R (bs ++ bs') (cs ++ cs') ↔ List.Forall₂ R bs cs ∧ List.Forall₂ R bs' cs' := by
  induction bs generalizing cs with
  | nil =>
    rw [List.length_eq_zero_iff.mp h.symm]
    simp
  | cons b bs ih =>
    cases cs with
    | nil => cases h
    | cons c cs =>
      rw [List.cons_append, List.cons_append, List.forall₂_cons, List.forall₂_cons,
        ih (Nat.succ.inj h), and_assoc]

theorem length_walkResolve {s : Stmts} {n : ℕ} {frame last : Frame} {rs : List Resolved}
    (h : s.walkResolve n frame last = .ok rs) (env : Env) :
    rs.length = (s.reaching n env).length := by
  induction s generalizing n frame last rs env with
  | done =>
    cases h
    rfl
  | assign targets loads rest ih =>
    obtain ⟨targetSyms, -, h⟩ := Fallible.result_bind_eq_ok_iff.mp h
    obtain ⟨others, hothers, h⟩ := Fallible.result_bind_eq_ok_iff.mp h
    cases h
    rw [Stmts.reaching, List.length_append, List.length_append, List.length_map, List.length_map,
      ih hothers]
  | expr loads rest ih =>
    obtain ⟨others, hothers, h⟩ := Fallible.result_bind_eq_ok_iff.mp h
    cases h
    rw [Stmts.reaching, List.length_append, List.length_append, List.length_map, List.length_map,
      ih hothers]
  | functionDef name args otherArgs before body after rest hbody hrest =>
    obtain ⟨inner, hinner, h⟩ := Fallible.result_bind_eq_ok_iff.mp h
    obtain ⟨others, hothers, h⟩ := Fallible.result_bind_eq_ok_iff.mp h
    cases h
    simp only [Stmts.reaching, List.length_append, List.length_map]
    rw [hbody hinner, hrest hothers]

theorem mapM_getSymbol {targets : List Target} (h : ∀ t ∈ targets, t.symbol.isSome) :
    targets.mapM Target.getSymbol = .ok (targets.filterMap Target.symbol) := by
  induction targets with
  | nil => rfl
  | cons t targets ih =>
    obtain ⟨symbol, hsymbol⟩ := Option.isSome_iff_exists.mp (h t List.mem_cons_self)
    rw [List.mapM_cons, ih fun t ht => h t (List.mem_cons_of_mem _ ht), List.filterMap_cons,
      hsymbol, Target.getSymbol, hsymbol]
    rfl

theorem isSome_of_mapM_getSymbol {targets : List Target} {symbols : List String}
    (h : targets.mapM Target.getSymbol = .ok symbols) : ∀ t ∈ targets, t.symbol.isSome := by
  have hall := Fallible.mapM_eq_ok h
  clear h
  induction hall with
  | nil => exact fun t ht => by cases ht
  | @cons t symbol targets symbols hsymbol _ ih =>
    rw [List.forall_mem_cons]
    refine ⟨?_, ih⟩
    rw [Target.getSymbol] at hsymbol
    split at hsymbol
    next heq => rw [heq]; rfl
    next => cases hsymbol

/-- **The statements whose loads are all clear** are resolved. -/
theorem walkResolve_iff (labels : Labels) (s : Stmts) {n : ℕ} {inherited pushed : List String}
    {bindings : List (String × Bool)} {frame last : Frame} {env : Env}
    (h : Inv n inherited pushed bindings frame env) (hlast : last.Copied inherited) :
    (∃ rs, s.walkResolve n frame last = .ok rs ∧
      List.Forall₂ (Correct labels) rs (s.reaching n env)) ↔
      s.AllClear inherited pushed bindings := by
  induction s generalizing n inherited pushed bindings frame last env with
  | done => exact iff_of_true ⟨[], rfl, .nil⟩ trivial
  | expr loads rest ih =>
    rw [Stmts.AllClear, Stmts.reaching]
    rw [(h.sees hlast).forall_clear_iff labels, ← ih (h.mono (Nat.le_succ n)) hlast]
    constructor
    · rintro ⟨rs, hok, hcorrect⟩
      obtain ⟨others, hothers, heq⟩ := Fallible.result_bind_eq_ok_iff.mp hok
      cases heq
      rw [forall₂_map_append] at hcorrect
      exact ⟨hcorrect.1, others, hothers, hcorrect.2⟩
    · rintro ⟨hcorrect, others, hothers, hrest⟩
      exact ⟨_, Fallible.result_bind_eq_ok_iff.mpr ⟨others, hothers, rfl⟩,
        (forall₂_map_append ..).mpr ⟨hcorrect, hrest⟩⟩
  | assign targets loads rest ih =>
    rw [Stmts.AllClear, Stmts.reaching]
    by_cases htargets : ∀ t ∈ targets.tgts, t.symbol.isSome
    · have hsymbols := mapM_getSymbol htargets
      have hsees := h.sees_wrong (extends_pushTargets n targets frame) (Nat.le_refl n)
        (Nat.le_succ n) hlast
      rw [hsees.forall_clear_iff labels, ← ih (h.assign htargets) hlast]
      constructor
      · rintro ⟨rs, hok, hcorrect⟩
        obtain ⟨targetSyms, hsyms, hok⟩ := Fallible.result_bind_eq_ok_iff.mp hok
        cases hsymbols.symm.trans hsyms
        obtain ⟨others, hothers, heq⟩ := Fallible.result_bind_eq_ok_iff.mp hok
        cases heq
        have hsplit := (forall₂_map_append ..).mp hcorrect
        exact ⟨htargets, hsplit.1, others, hothers, hsplit.2⟩
      · rintro ⟨-, hcorrect, others, hothers, hrest⟩
        exact ⟨_, Fallible.result_bind_eq_ok_iff.mpr ⟨_, hsymbols,
          Fallible.result_bind_eq_ok_iff.mpr ⟨others, hothers, rfl⟩⟩,
          (forall₂_map_append ..).mpr ⟨hcorrect, hrest⟩⟩
    · refine iff_of_false ?_ fun hclear => htargets hclear.1
      rintro ⟨rs, hok, -⟩
      obtain ⟨targetSyms, hsyms, -⟩ := Fallible.result_bind_eq_ok_iff.mp hok
      exact htargets (isSome_of_mapM_getSymbol hsyms)
  | functionDef name args otherArgs before body after rest hbody hrest =>
    have hheader := h.header name args
    have hscope := h.scope hheader.nil_iff (List.subset_append_right _ _)
    have hext := extends_frameAfter body (n + 1) (frame.pushAll (header n name args)).deepcopy
    have hcopied := hext.copied hscope.copied
    have hbefore := hscope.sees hcopied
    have hinner := hscope.body List.mem_cons_self
      (fun s hs => List.mem_cons_of_mem name (List.mem_append_left pushed hs)) otherArgs
    have hafter := hscope.sees_wrong hext (Nat.le_refl _) (Nat.le_add_right _ _) hcopied
    rw [Stmts.AllClear, Stmts.reaching, hbefore.forall_clear_iff labels,
      hafter.forall_clear_iff labels, ← hbody hinner hcopied,
      ← hrest (hheader.mono (Nat.le_add_right _ body.size)) hlast]
    simp only [List.append_assoc]
    constructor
    · rintro ⟨rs, hok, hcorrect⟩
      obtain ⟨inner, hwalk, hok⟩ := Fallible.result_bind_eq_ok_iff.mp hok
      obtain ⟨others, hothers, heq⟩ := Fallible.result_bind_eq_ok_iff.mp hok
      cases heq
      rw [List.append_assoc, List.append_assoc, forall₂_map_append,
        forall₂_append_iff (length_walkResolve hwalk _), forall₂_map_append] at hcorrect
      exact ⟨hcorrect.1, ⟨inner, hwalk, hcorrect.2.1⟩, hcorrect.2.2.1, others, hothers,
        hcorrect.2.2.2⟩
    · rintro ⟨hcorrect, ⟨inner, hwalk, hinner⟩, hcorrect', others, hothers, hrest⟩
      refine ⟨_, Fallible.result_bind_eq_ok_iff.mpr ⟨inner, hwalk,
        Fallible.result_bind_eq_ok_iff.mpr ⟨others, hothers, rfl⟩⟩, ?_⟩
      rw [List.append_assoc, List.append_assoc, forall₂_map_append,
        forall₂_append_iff (length_walkResolve hwalk _), forall₂_map_append]
      exact ⟨hcorrect, hinner, hcorrect', hrest⟩

/-- `x = 1`, and then `x = x + 1` -/
def increment : Stmts :=
  .functionDef "f" [] [] []
    (.assign (.chain ⟨"Name", some "x"⟩ [] none) []
      (.assign (.chain ⟨"Name", some "x"⟩ [] none) [⟨"x", 0, none⟩] .done)) [] .done

end Bentobox.Sdk.Reaching
