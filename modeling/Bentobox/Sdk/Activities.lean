import Mathlib.Data.List.ReduceOption
import Bentobox.Lib.Fallible
import Bentobox.Lib.Rose
import Bentobox.Sdk.Analyzers

/-!
# Activity of nested blocks

`analyze_block` and `analyze_activity` on syntax trees of any kind. A block is known by its number
in the order in which the blocks begin. What the blocks noted themselves goes up to the blocks
around them by `dict.update`, so of the lists that several blocks have for one symbol only one
arrives.
-/
namespace Bentobox.Sdk.Ast

/-- A symbol with the labels of `analyze_symbol` and `resolve_symbol`: whether a definition was
found for it, and the blocks of all definitions in the list. -/
structure LabelledSymbol where
  className : String
  pos : Position
  symbol : String
  baseSymbol : String
  ctx : ExprContext
  defined : Bool
  definitions : List (Except AttributeError ℕ)

/-- A node of the tree, which is a block if it has a field `body` or `orelse`. -/
structure TreeNode where
  isBlock : Bool
  symbol : Option LabelledSymbol

/-- A node with the number of its block, and its own number if it is a block. -/
structure BlockNode where
  block : Option ℕ
  number : Option ℕ
  symbol : Option LabelledSymbol

/-! ## analyze_block -/

mutual

/-- How many of the nodes are blocks. -/
def blockCount : Rose TreeNode → ℕ
  | .node label children => (if label.isBlock then 1 else 0) + blockCountAll children

def blockCountAll : List (Rose TreeNode) → ℕ
  | [] => 0
  | t :: ts => blockCount t + blockCountAll ts

end

mutual

/-- `walk_block`, when the next block gets the number `next`. -/
def walkBlock (block : Option ℕ) (next : ℕ) : Rose TreeNode → Rose BlockNode
  | .node label children =>
    if label.isBlock then
      .node ⟨block, some next, label.symbol⟩ (walkBlockAll (some next) (next + 1) children)
    else .node ⟨block, none, label.symbol⟩ (walkBlockAll block next children)

def walkBlockAll (block : Option ℕ) (next : ℕ) : List (Rose TreeNode) → List (Rose BlockNode)
  | [] => []
  | t :: ts => walkBlock block next t :: walkBlockAll block (next + blockCount t) ts

end

def analyzeBlock (ast : Rose TreeNode) : Rose BlockNode := walkBlock none 0 ast

/-! ## analyze_activity -/

/-- `any(sym_def.block != block for sym_def in symbol.definitions)` -/
def LabelledSymbol.anyElsewhere (block : ℕ) :
    List (Except AttributeError ℕ) → Except AttributeError Bool
  | [] => .ok false
  | definition :: definitions => do
    if (← definition) = block then anyElsewhere block definitions else return true

/-- What a symbol is to its block. -/
def LabelledSymbol.role (s : LabelledSymbol) (block : ℕ) : Except AttributeError (Option Role) :=
  match s.ctx with
  | .load =>
    if s.defined then do
      return if ← anyElsewhere block s.definitions then some .input else none
    else .ok none
  | .store | .del => .ok (some .output)
  | .param => .ok none

/-- The symbol of a node and its role, if the node is a symbol. -/
def BlockNode.detect (n : BlockNode) : Except AttributeError (Option (SymbolNode × Option Role)) :=
  match n.symbol, n.block with
  | none, _ => .ok none
  | some s, none => .error ⟨s.className, "block"⟩
  | some s, some block => do
    let role ← s.role block
    return some (⟨s.pos, s.symbol, s.baseSymbol, s.ctx, block⟩, role)

section
variable (own : ℕ → BlockActivity)

mutual

/-- `propagate_activity`, with what the blocks noted themselves. -/
def propagateActivity : Rose BlockNode → BlockActivity
  | .node label children =>
    let activity := propagateAll .empty children
    match label.number with
    | none => activity
    | some block => activity.update (own block)

/-- The activity of the children is added one by one. -/
def propagateAll (activity : BlockActivity) : List (Rose BlockNode) → BlockActivity
  | [] => activity
  | t :: ts => propagateAll (activity.update (propagateActivity t)) ts

end
end

/-- `analyze_activity`: every block with what is noted at it in the end. -/
def analyzeActivity (ast : Rose BlockNode) :
    Except AttributeError (List (Rose BlockNode × BlockActivity)) := do
  let symbols ← ast.breadthFirst.mapM BlockNode.detect
  let own := ownActivity symbols.reduceOption
  return (ast.subtrees.filter fun t => t.label.number.isSome).map fun t =>
    (t, propagateActivity own t)

/-! ## Complete lists -/

/-- `input_syms` or `output_syms` -/
def BlockActivity.syms (a : BlockActivity) : Role → OrderedDict String (List SymbolNode)
  | .input => a.inputSyms
  | .output => a.outputSyms

/-- The node is the symbol, in the given role. -/
def BlockNode.reference (role : Role) (symbol : String) (n : BlockNode) : Option SymbolNode :=
  match n.detect with
  | .ok (some (s, some r)) => if s.symbol = symbol ∧ r = role then some s else none
  | _ => none

/-- The nodes in a block, those of nested blocks included, where the symbol has the role. -/
def references (role : Role) (symbol : String) (t : Rose BlockNode) : List SymbolNode :=
  (Rose.preorderAll t.children).filterMap (BlockNode.reference role symbol)

/-- One node does not stand behind the other. -/
def SymbolNode.before (a b : SymbolNode) : Bool :=
  a.pos.lineno < b.pos.lineno ∨ a.pos.lineno = b.pos.lineno ∧ a.pos.colOffset ≤ b.pos.colOffset

/-- The list that is noted for a symbol. -/
def BlockActivity.refs (a : BlockActivity) (role : Role) (symbol : String) : List SymbolNode :=
  ((a.syms role).get? symbol).getD []

/-- The list has the nodes in the block where the symbol has the role, each once, and is sorted by
their positions. -/
structure Complete (role : Role) (symbol : String) (t : Rose BlockNode) (a : BlockActivity) :
    Prop where
  perm : (a.refs role symbol).Perm (references role symbol t)
  sorted : (a.refs role symbol).Pairwise fun a b => a.before b = true

/-! ## The numbers of blocks -/

/-- The block numbers in a list of nodes. -/
def numbers (nodes : List BlockNode) : List ℕ := nodes.filterMap BlockNode.number

theorem numbers_append (ns ms : List BlockNode) : numbers (ns ++ ms) = numbers ns ++ numbers ms :=
  List.filterMap_append

mutual

/-- A node stands in the block around the tree or in a block of the tree, and the blocks of the
tree are numbered from `next` on. -/
theorem mem_walkBlock {block : Option ℕ} {next : ℕ} {t : Rose TreeNode} {n : BlockNode}
    (h : n ∈ (walkBlock block next t).preorder) :
    (n.block = block ∨ ∃ k ∈ numbers (walkBlock block next t).preorder, n.block = some k) ∧
      ∀ k, n.number = some k → next ≤ k ∧ k < next + blockCount t := by
  obtain ⟨label, children⟩ := t
  rw [walkBlock] at h ⊢
  rw [blockCount]
  split at h
  next hblock =>
    rw [if_pos hblock, if_pos hblock]
    rw [Rose.preorder] at h ⊢
    rcases List.mem_cons.mp h with rfl | h
    · refine ⟨.inl rfl, ?_⟩
      rintro k ⟨⟩
      omega
    · obtain ⟨hn, hnumber⟩ := mem_walkBlockAll h
      refine ⟨.inr ?_, fun k hk => ?_⟩
      · rcases hn with hn | ⟨k, hk, hn⟩
        · exact ⟨next, List.mem_cons_self, hn⟩
        · exact ⟨k, List.mem_cons_of_mem next hk, hn⟩
      · have := hnumber k hk
        omega
  next hblock =>
    rw [if_neg hblock, if_neg hblock]
    rw [Rose.preorder] at h ⊢
    rcases List.mem_cons.mp h with rfl | h
    · exact ⟨.inl rfl, fun k hk => by cases hk⟩
    · obtain ⟨hn, hnumber⟩ := mem_walkBlockAll h
      refine ⟨hn, fun k hk => ?_⟩
      have := hnumber k hk
      omega

theorem mem_walkBlockAll {block : Option ℕ} {next : ℕ} {ts : List (Rose TreeNode)} {n : BlockNode}
    (h : n ∈ Rose.preorderAll (walkBlockAll block next ts)) :
    (n.block = block ∨
      ∃ k ∈ numbers (Rose.preorderAll (walkBlockAll block next ts)), n.block = some k) ∧
      ∀ k, n.number = some k → next ≤ k ∧ k < next + blockCountAll ts := by
  cases ts with
  | nil => cases h
  | cons t ts =>
    rw [walkBlockAll, Rose.preorderAll] at h ⊢
    rw [blockCountAll, numbers_append]
    rcases List.mem_append.mp h with h | h
    · obtain ⟨hn, hnumber⟩ := mem_walkBlock h
      refine ⟨hn.imp_right fun ⟨k, hk, hn⟩ => ⟨k, List.mem_append_left _ hk, hn⟩, fun k hk => ?_⟩
      have := hnumber k hk
      omega
    · obtain ⟨hn, hnumber⟩ := mem_walkBlockAll h
      refine ⟨hn.imp_right fun ⟨k, hk, hn⟩ => ⟨k, List.mem_append_right _ hk, hn⟩, fun k hk => ?_⟩
      have := hnumber k hk
      omega

end

/-- The numbers of a tree are in its range, and so is the block of a node, or it is around. -/
theorem range_of_mem_numbers {block : Option ℕ} {next k : ℕ} {t : Rose TreeNode}
    (h : k ∈ numbers (walkBlock block next t).preorder) :
    next ≤ k ∧ k < next + blockCount t := by
  obtain ⟨n, hn, hnumber⟩ := List.mem_filterMap.mp h
  exact (mem_walkBlock hn).2 k hnumber

theorem range_of_mem_numbersAll {block : Option ℕ} {next k : ℕ} {ts : List (Rose TreeNode)}
    (h : k ∈ numbers (Rose.preorderAll (walkBlockAll block next ts))) :
    next ≤ k ∧ k < next + blockCountAll ts := by
  obtain ⟨n, hn, hnumber⟩ := List.mem_filterMap.mp h
  exact (mem_walkBlockAll hn).2 k hnumber

/-- The nodes of a block. -/
def inBlock (k : ℕ) (nodes : List BlockNode) : List BlockNode :=
  nodes.filter fun n => n.block = some k

/-- A number that is not in use inside and not that of the block around has no nodes. -/
theorem inBlock_walkBlock_eq_nil {block : Option ℕ} {next k : ℕ} {t : Rose TreeNode}
    (hblock : block ≠ some k) (hk : ¬ (next ≤ k ∧ k < next + blockCount t)) :
    inBlock k (walkBlock block next t).preorder = [] := by
  rw [inBlock, List.filter_eq_nil_iff]
  intro n hn heq
  rw [decide_eq_true_eq] at heq
  rcases (mem_walkBlock hn).1 with hn | ⟨j, hj, hn⟩
  · exact hblock (hn.symm.trans heq)
  · cases hn.symm.trans heq
    exact hk (range_of_mem_numbers hj)

theorem inBlock_walkBlockAll_eq_nil {block : Option ℕ} {next k : ℕ} {ts : List (Rose TreeNode)}
    (hblock : block ≠ some k) (hk : ¬ (next ≤ k ∧ k < next + blockCountAll ts)) :
    inBlock k (Rose.preorderAll (walkBlockAll block next ts)) = [] := by
  rw [inBlock, List.filter_eq_nil_iff]
  intro n hn heq
  rw [decide_eq_true_eq] at heq
  rcases (mem_walkBlockAll hn).1 with hn | ⟨j, hj, hn⟩
  · exact hblock (hn.symm.trans heq)
  · cases hn.symm.trans heq
    exact hk (range_of_mem_numbersAll hj)

theorem inBlock_append (k : ℕ) (ns ms : List BlockNode) :
    inBlock k (ns ++ ms) = inBlock k ns ++ inBlock k ms := List.filter_append ..

theorem inBlock_cons_of_ne {n : BlockNode} {k : ℕ} (h : n.block ≠ some k) (ns : List BlockNode) :
    inBlock k (n :: ns) = inBlock k ns := List.filter_cons_of_neg (by simpa using h)

mutual

/-- **The nodes of a block** are all below the blocks that it is in. -/
theorem inBlock_of_mem_subtrees {block : Option ℕ} {next : ℕ} {t : Rose TreeNode}
    (hblock : ∀ b, block = some b → b < next) {B : Rose BlockNode}
    (hB : B ∈ (walkBlock block next t).subtrees) (hnumber : B.label.number.isSome) {k : ℕ}
    (hk : k ∈ numbers B.preorder) : (next ≤ k ∧ k < next + blockCount t) ∧
      inBlock k (walkBlock block next t).preorder = inBlock k (Rose.preorderAll B.children) := by
  have hne : next ≤ k → block ≠ some k := by
    intro hle heq
    have := hblock k heq
    omega
  obtain ⟨label, children⟩ := t
  cases hlabel : label.isBlock with
  | true =>
    have hwalk : walkBlock block next (.node label children) =
        .node ⟨block, some next, label.symbol⟩ (walkBlockAll (some next) (next + 1) children) := by
      rw [walkBlock, if_pos hlabel]
    rw [hwalk, Rose.subtrees] at hB
    rcases List.mem_cons.mp hB with rfl | hB
    · rw [← hwalk] at hk
      have hrange := range_of_mem_numbers hk
      refine ⟨hrange, ?_⟩
      rw [hwalk, Rose.preorder, inBlock_cons_of_ne (hne hrange.1)]
      rfl
    · have hinner : ∀ b, some next = some b → b < next + 1 := by
        rintro b ⟨⟩
        omega
      obtain ⟨hrange, heq⟩ := inBlock_of_mem_subtreesAll hinner hB hnumber hk
      have hcount : blockCount (.node label children) = 1 + blockCountAll children := by
        rw [blockCount, if_pos hlabel]
      refine ⟨by omega, ?_⟩
      rw [hwalk, Rose.preorder, inBlock_cons_of_ne (hne (by omega)), heq]
  | false =>
    have hwalk : walkBlock block next (.node label children) =
        .node ⟨block, none, label.symbol⟩ (walkBlockAll block next children) := by
      rw [walkBlock, if_neg (by simp [hlabel])]
    rw [hwalk, Rose.subtrees] at hB
    rcases List.mem_cons.mp hB with rfl | hB
    · cases hnumber
    · obtain ⟨hrange, heq⟩ := inBlock_of_mem_subtreesAll hblock hB hnumber hk
      have hcount : blockCount (.node label children) = blockCountAll children := by
        rw [blockCount, if_neg (by simp [hlabel]), Nat.zero_add]
      refine ⟨by omega, ?_⟩
      rw [hwalk, Rose.preorder, inBlock_cons_of_ne (hne hrange.1), heq]

theorem inBlock_of_mem_subtreesAll {block : Option ℕ} {next : ℕ} {ts : List (Rose TreeNode)}
    (hblock : ∀ b, block = some b → b < next) {B : Rose BlockNode}
    (hB : B ∈ Rose.subtreesAll (walkBlockAll block next ts)) (hnumber : B.label.number.isSome)
    {k : ℕ} (hk : k ∈ numbers B.preorder) : (next ≤ k ∧ k < next + blockCountAll ts) ∧
      inBlock k (Rose.preorderAll (walkBlockAll block next ts)) =
        inBlock k (Rose.preorderAll B.children) := by
  have hne : next ≤ k → block ≠ some k := by
    intro hle heq
    have := hblock k heq
    omega
  cases ts with
  | nil => cases hB
  | cons t ts =>
    rw [walkBlockAll, Rose.subtreesAll] at hB
    rw [walkBlockAll, Rose.preorderAll, inBlock_append, blockCountAll]
    rcases List.mem_append.mp hB with hB | hB
    · obtain ⟨hrange, heq⟩ := inBlock_of_mem_subtrees hblock hB hnumber hk
      refine ⟨by omega, ?_⟩
      rw [heq, inBlock_walkBlockAll_eq_nil (hne hrange.1) (by omega), List.append_nil]
    · have hlater : ∀ b, block = some b → b < next + blockCount t := by
        intro b hb
        have := hblock b hb
        omega
      obtain ⟨hrange, heq⟩ := inBlock_of_mem_subtreesAll hlater hB hnumber hk
      refine ⟨by omega, ?_⟩
      rw [heq, inBlock_walkBlock_eq_nil (hne (by omega)) (by omega), List.nil_append]

end

mutual

theorem eq_walkBlock_of_mem_subtrees {block : Option ℕ} {next : ℕ} {t : Rose TreeNode}
    {B : Rose BlockNode} (hB : B ∈ (walkBlock block next t).subtrees) :
    ∃ block' next' t', B = walkBlock block' next' t' := by
  obtain ⟨label, children⟩ := t
  have hself := hB
  rw [walkBlock] at hB
  split at hB
  all_goals
    rw [Rose.subtrees] at hB
    rcases List.mem_cons.mp hB with heq | hB
    · refine ⟨block, next, .node label children, ?_⟩
      rw [heq, walkBlock]
      simp [*]
    · exact eq_walkBlock_of_mem_subtreesAll hB

theorem eq_walkBlock_of_mem_subtreesAll {block : Option ℕ} {next : ℕ} {ts : List (Rose TreeNode)}
    {B : Rose BlockNode} (hB : B ∈ Rose.subtreesAll (walkBlockAll block next ts)) :
    ∃ block' next' t', B = walkBlock block' next' t' := by
  cases ts with
  | nil => cases hB
  | cons t ts =>
    rw [walkBlockAll, Rose.subtreesAll] at hB
    rcases List.mem_append.mp hB with hB | hB
    · exact eq_walkBlock_of_mem_subtrees hB
    · exact eq_walkBlock_of_mem_subtreesAll hB

end

/-- What is below a block stands in a block of its tree. -/
theorem block_mem_numbers {ast : Rose TreeNode} {B : Rose BlockNode}
    (hB : B ∈ (analyzeBlock ast).subtrees) (hnumber : B.label.number.isSome) {n : BlockNode}
    (hn : n ∈ Rose.preorderAll B.children) : ∃ k ∈ numbers B.preorder, n.block = some k := by
  obtain ⟨block, next, ⟨label, children⟩, rfl⟩ := eq_walkBlock_of_mem_subtrees hB
  rw [walkBlock] at hnumber hn ⊢
  split at hnumber
  next hlabel =>
    rw [if_pos hlabel] at hn ⊢
    rw [Rose.preorder]
    rcases (mem_walkBlockAll hn).1 with hn | ⟨k, hk, hn⟩
    · exact ⟨next, List.mem_cons_self, hn⟩
    · exact ⟨k, List.mem_cons_of_mem next hk, hn⟩
  next => cases hnumber

/-! ## What is noted -/

namespace BlockActivity

theorem syms_update (a b : BlockActivity) (role : Role) :
    (a.update b).syms role = (a.syms role).update (b.syms role) := by
  cases role <;> rfl

theorem syms_add (a : BlockActivity) (x : SymbolNode × Option Role) (role : Role) :
    (a.add x.1 x.2).syms role =
      if x.2 = some role then addSymbolRef (a.syms role) x.1.symbol x.1 else a.syms role := by
  obtain ⟨n, _ | _ | _⟩ := x <;> cases role <;> rfl

end BlockActivity

/-- What a symbol adds to the list of a symbol. -/
def added (role : Role) (symbol : String) (x : SymbolNode × Option Role) : Option SymbolNode :=
  if x.1.symbol = symbol ∧ x.2 = some role then some x.1 else none

theorem before_trans (a b c : SymbolNode) (hab : a.before b = true) (hbc : b.before c = true) :
    a.before c = true := by
  simp only [SymbolNode.before, decide_eq_true_eq] at *
  omega

theorem before_total (a b : SymbolNode) : (a.before b || b.before a) = true := by
  simp only [SymbolNode.before, Bool.or_eq_true, decide_eq_true_eq]
  omega

/-- The list that is noted for a symbol has all nodes that were added, sorted, and there is none
without a node. -/
def Lists (refs : Option (List SymbolNode)) (nodes : List SymbolNode) : Prop :=
  match refs with
  | none => nodes = []
  | some l => l ≠ [] ∧ l.Perm nodes ∧ l.Pairwise fun a b => a.before b = true

theorem Lists.perm {refs : Option (List SymbolNode)} {ns ms : List SymbolNode} (h : Lists refs ns)
    (hperm : ns.Perm ms) : Lists refs ms := by
  cases refs with
  | none =>
    obtain rfl : ns = [] := h
    exact List.nil_perm.mp hperm
  | some l => exact ⟨h.1, h.2.1.trans hperm, h.2.2⟩

theorem lists_addSymbolRef {symDict : OrderedDict String (List SymbolNode)} {key symbol : String}
    {ns : List SymbolNode} (h : Lists (symDict.get? symbol) ns) (n : SymbolNode) :
    Lists ((BlockActivity.addSymbolRef symDict key n).get? symbol)
      (if key = symbol then ns ++ [n] else ns) := by
  rw [BlockActivity.addSymbolRef, OrderedDict.get?_insert]
  by_cases hkey : key = symbol
  · subst hkey
    rw [if_pos rfl, if_pos rfl]
    have hold : ((symDict.get? key).getD []).Perm ns := by
      cases hget : symDict.get? key with
      | none =>
        rw [hget] at h
        rw [show ns = [] from h]
        exact .refl _
      | some l =>
        rw [hget] at h
        exact h.2.1
    have hsort := List.mergeSort_perm ((symDict.get? key).getD [] ++ [n]) SymbolNode.before
    refine ⟨fun hnil => ?_, hsort.trans (hold.append_right [n]),
      List.pairwise_mergeSort before_trans before_total _⟩
    have hlen := hsort.length_eq
    rw [show List.mergeSort _ SymbolNode.before = [] from hnil] at hlen
    simp at hlen
  · rw [if_neg hkey, if_neg (Ne.symm hkey)]
    exact h

theorem lists_foldl_add (role : Role) (symbol : String) (xs : List (SymbolNode × Option Role)) :
    Lists (((xs.foldl (fun a x => a.add x.1 x.2) BlockActivity.empty).syms role).get? symbol)
      (xs.filterMap (added role symbol)) := by
  induction xs using List.reverseRecOn with
  | nil => cases role <;> exact rfl
  | append_singleton xs x ih =>
    rw [List.foldl_append, List.foldl_cons, List.foldl_nil, BlockActivity.syms_add,
      List.filterMap_append]
    by_cases hrole : x.2 = some role
    · rw [if_pos hrole]
      have hadd := @lists_addSymbolRef _ x.1.symbol _ _ ih x.1
      by_cases hsymbol : x.1.symbol = symbol
      · rw [if_pos hsymbol] at hadd
        simpa [added, hrole, hsymbol] using hadd
      · rw [if_neg hsymbol] at hadd
        simpa [added, hsymbol] using hadd
    · rw [if_neg hrole]
      simpa [added, hrole] using ih

theorem block_of_detect {n : BlockNode} {x : SymbolNode × Option Role}
    (h : n.detect = .ok (some x)) : n.block = some x.1.block := by
  rw [BlockNode.detect] at h
  split at h
  · cases h
  · cases h
  next s block _ hblock =>
    obtain ⟨role, -, h⟩ := Fallible.result_bind_eq_ok_iff.mp h
    cases h
    exact hblock

theorem reference_of_detect {n : BlockNode} {x : Option (SymbolNode × Option Role)}
    (h : n.detect = .ok x) (role : Role) (symbol : String) :
    n.reference role symbol = x.bind (added role symbol) := by
  rw [BlockNode.reference, h]
  rcases x with _ | ⟨s, _ | r⟩
  · rfl
  · simp [added]
  · simp [added]

/-- The symbols of a block that were found are the references that stand in it. -/
theorem filterMap_added {nodes : List BlockNode} {xs : List (Option (SymbolNode × Option Role))}
    (h : List.Forall₂ (fun n x => BlockNode.detect n = .ok x) nodes xs) (k : ℕ) (role : Role)
    (symbol : String) :
    (xs.reduceOption.filter fun x => x.1.block = k).filterMap (added role symbol) =
      (inBlock k nodes).filterMap (BlockNode.reference role symbol) := by
  induction h with
  | nil => rfl
  | @cons n x nodes xs hn _ ih =>
    have href := reference_of_detect hn role symbol
    cases x with
    | none =>
      rw [List.reduceOption_cons_of_none, ih, inBlock, inBlock, List.filter_cons]
      split
      · rw [List.filterMap_cons, href]
        rfl
      · rfl
    | some x =>
      have hblock := block_of_detect hn
      rw [List.reduceOption_cons_of_some, List.filter_cons, inBlock, List.filter_cons, hblock]
      by_cases hk : x.1.block = k
      · simp only [hk, decide_true, if_true, List.filterMap_cons, href, Option.bind_some, ih]
        rfl
      · rw [if_neg (by simpa using hk), if_neg (by simpa using hk)]
        exact ih

theorem inBlock_perm {ns ms : List BlockNode} (h : ns.Perm ms) (k : ℕ) :
    (inBlock k ns).Perm (inBlock k ms) := h.filter _

theorem block_of_reference {role : Role} {symbol : String} {n : BlockNode} {s : SymbolNode}
    (h : n.reference role symbol = some s) : n.block = some s.block := by
  rw [BlockNode.reference] at h
  split at h
  next s' r hdetect =>
    split at h
    · cases h
      exact block_of_detect hdetect
    · cases h
  next => cases h

/-- The references that stand in a block of the tree itself. -/
theorem filterMap_inBlock (k : ℕ) (role : Role) (symbol : String) (nodes : List BlockNode) :
    (inBlock k nodes).filterMap (BlockNode.reference role symbol) =
      (nodes.filterMap (BlockNode.reference role symbol)).filter fun s => s.block = k := by
  induction nodes with
  | nil => rfl
  | cons n nodes ih =>
    rw [inBlock, List.filter_cons, List.filterMap_cons]
    cases href : n.reference role symbol with
    | none =>
      split
      · rw [List.filterMap_cons, href]
        exact ih
      · exact ih
    | some s =>
      have hblock := block_of_reference href
      by_cases hk : s.block = k
      · rw [if_pos (by simp [hblock, hk]), List.filterMap_cons, href,
          List.filter_cons_of_pos (by simp [hk])]
        exact congrArg _ ih
      · rw [if_neg (by simp [hblock, hk]), List.filter_cons_of_neg (by simp [hk])]
        exact ih

/-! ## What goes up -/

section
variable (own : ℕ → BlockActivity) (role : Role) (symbol : String)

/-- What goes up is the list of one of the blocks, if any of them has one. -/
def FromBlocks (ks : List ℕ) : Option (List SymbolNode) → Prop
  | none => ∀ k ∈ ks, ((own k).syms role).get? symbol = none
  | some l => ∃ k ∈ ks, ((own k).syms role).get? symbol = some l

variable {own role symbol}

theorem FromBlocks.of_mem_iff {ks js : List ℕ} (h : ∀ k, k ∈ ks ↔ k ∈ js)
    {refs : Option (List SymbolNode)} (hrefs : FromBlocks own role symbol ks refs) :
    FromBlocks own role symbol js refs := by
  cases refs with
  | none => exact fun k hk => hrefs k ((h k).mpr hk)
  | some l =>
    obtain ⟨k, hk, hl⟩ := hrefs
    exact ⟨k, (h k).mp hk, hl⟩

theorem fromBlocks_own (k : ℕ) :
    FromBlocks own role symbol [k] (((own k).syms role).get? symbol) := by
  cases hget : ((own k).syms role).get? symbol with
  | none =>
    intro j hj
    rwa [List.mem_singleton.mp hj]
  | some l => exact ⟨k, List.mem_singleton_self k, hget⟩

/-- `update` prefers what it is given. -/
theorem fromBlocks_update {a b : BlockActivity} {ks js : List ℕ}
    (ha : FromBlocks own role symbol ks ((a.syms role).get? symbol))
    (hb : FromBlocks own role symbol js ((b.syms role).get? symbol)) :
    FromBlocks own role symbol (ks ++ js) (((a.update b).syms role).get? symbol) := by
  rw [BlockActivity.syms_update, OrderedDict.get?_update]
  cases hget : (b.syms role).get? symbol with
  | some l =>
    rw [hget] at hb
    obtain ⟨k, hk, hl⟩ := hb
    exact ⟨k, List.mem_append_right ks hk, hl⟩
  | none =>
    rw [hget] at hb
    rw [Option.none_or]
    cases hget : (a.syms role).get? symbol with
    | some l =>
      rw [hget] at ha
      obtain ⟨k, hk, hl⟩ := ha
      exact ⟨k, List.mem_append_left js hk, hl⟩
    | none =>
      rw [hget] at ha
      intro k hk
      rcases List.mem_append.mp hk with hk | hk
      · exact ha k hk
      · exact hb k hk

mutual

theorem fromBlocks_propagateActivity (t : Rose BlockNode) :
    FromBlocks own role symbol (numbers t.preorder)
      (((propagateActivity own t).syms role).get? symbol) := by
  obtain ⟨label, children⟩ := t
  have hempty : FromBlocks own role symbol [] ((BlockActivity.empty.syms role).get? symbol) := by
    cases role <;> exact fun k hk => by cases hk
  have hall := fromBlocks_propagateAll hempty children
  rw [List.nil_append] at hall
  rw [propagateActivity, Rose.preorder, numbers, List.filterMap_cons]
  cases label.number with
  | none => exact hall
  | some k =>
    refine (fromBlocks_update hall (fromBlocks_own k)).of_mem_iff fun j => ?_
    rw [List.mem_append, List.mem_singleton, List.mem_cons, or_comm]
    rfl

theorem fromBlocks_propagateAll {a : BlockActivity} {ks : List ℕ}
    (ha : FromBlocks own role symbol ks ((a.syms role).get? symbol)) (ts : List (Rose BlockNode)) :
    FromBlocks own role symbol (ks ++ numbers (Rose.preorderAll ts))
      (((propagateAll own a ts).syms role).get? symbol) := by
  cases ts with
  | nil =>
    rw [propagateAll, Rose.preorderAll, numbers, List.filterMap_nil, List.append_nil]
    exact ha
  | cons t ts =>
    rw [propagateAll, Rose.preorderAll, numbers_append, ← List.append_assoc]
    exact fromBlocks_propagateAll (fromBlocks_update ha (fromBlocks_propagateActivity t)) ts

end
end

/-! ## When the lists are complete -/

/-- The list of a block itself has the references that stand in it. -/
theorem lists_ownActivity {ast : Rose TreeNode}
    {symbols : List (Option (SymbolNode × Option Role))}
    (h : (analyzeBlock ast).breadthFirst.mapM BlockNode.detect = .ok symbols)
    {B : Rose BlockNode} (hB : B ∈ (analyzeBlock ast).subtrees)
    (hnumber : B.label.number.isSome) {k : ℕ} (hk : k ∈ numbers B.preorder) (role : Role)
    (symbol : String) :
    Lists (((ownActivity symbols.reduceOption k).syms role).get? symbol)
      ((references role symbol B).filter fun s => s.block = k) := by
  have hlists := lists_foldl_add role symbol (symbols.reduceOption.filter fun x => x.1.block = k)
  rw [filterMap_added (Fallible.mapM_eq_ok h)] at hlists
  refine hlists.perm ?_
  have hperm := inBlock_perm (analyzeBlock ast).breadthFirst_perm k
  rw [references, ← filterMap_inBlock,
    ← (inBlock_of_mem_subtrees (fun b hb => by cases hb) hB hnumber hk).2]
  exact hperm.filterMap _

/-- The lists of a block are complete exactly if the references in it stand in one block. -/
theorem complete_iff_of_lists {own : ℕ → BlockActivity} {role : Role} {symbol : String}
    {B : Rose BlockNode} {a : BlockActivity} {ks : List ℕ}
    (hrefs : FromBlocks own role symbol ks ((a.syms role).get? symbol))
    (hown : ∀ k ∈ ks, Lists (((own k).syms role).get? symbol)
      ((references role symbol B).filter fun s => s.block = k))
    (hks : ∀ x ∈ references role symbol B, x.block ∈ ks) :
    Complete role symbol B a ↔
      ∀ x ∈ references role symbol B, ∀ y ∈ references role symbol B, x.block = y.block := by
  cases hget : (a.syms role).get? symbol with
  | none =>
    -- no block has a list, so there is no reference
    rw [hget] at hrefs
    have hnil : references role symbol B = [] := by
      rw [List.eq_nil_iff_forall_not_mem]
      intro x hx
      have hlists := hown x.block (hks x hx)
      rw [hrefs x.block (hks x hx)] at hlists
      exact List.not_mem_nil ((show _ = [] from hlists) ▸ List.mem_filter.mpr ⟨hx, by simp⟩)
    have hempty : a.refs role symbol = [] := by rw [BlockActivity.refs, hget]; rfl
    refine ⟨fun _ x hx => ?_, fun _ => ⟨?_, ?_⟩⟩
    · rw [hnil] at hx
      cases hx
    · rw [hnil, hempty]
    · rw [hempty]
      exact .nil
  | some l =>
    -- the list is that of a block `k`, so it is complete if all references stand there
    rw [hget] at hrefs
    obtain ⟨k, hk, hl⟩ := hrefs
    have hlists := hown k hk
    rw [hl] at hlists
    obtain ⟨hne, hperm, hsorted⟩ := hlists
    have hsome : a.refs role symbol = l := by rw [BlockActivity.refs, hget]; rfl
    constructor
    · intro hcomplete
      have hlen := (hperm.symm.trans (hsome ▸ hcomplete.perm)).length_eq
      have hall : ∀ x ∈ references role symbol B, x.block = k := by
        intro x hx
        simpa using List.length_filter_eq_length_iff.mp hlen x hx
      intro x hx y hy
      rw [hall x hx, hall y hy]
    · intro hsame
      obtain ⟨y, hy⟩ := List.exists_mem_of_ne_nil l hne
      obtain ⟨hy, hyk⟩ := List.mem_filter.mp (hperm.subset hy)
      have hall : ∀ x ∈ references role symbol B, decide (x.block = k) = true := by
        intro x hx
        rw [hsame x hx y hy]
        exact hyk
      refine ⟨?_, ?_⟩
      · rw [hsome]
        rw [List.filter_eq_self.mpr hall] at hperm
        exact hperm
      · rw [hsome]
        exact hsorted

/-- **The lists of a block are complete** exactly for the symbols whose references in it, nested
blocks included, all stand in one and the same block: of the lists of several blocks one
overwrites the others. -/
theorem complete_iff {ast : Rose TreeNode} {activities : List (Rose BlockNode × BlockActivity)}
    (h : analyzeActivity (analyzeBlock ast) = .ok activities) {B : Rose BlockNode}
    {a : BlockActivity} (hB : (B, a) ∈ activities) (role : Role) (symbol : String) :
    Complete role symbol B a ↔
      ∀ x ∈ references role symbol B, ∀ y ∈ references role symbol B, x.block = y.block := by
  obtain ⟨symbols, hsymbols, heq⟩ := Fallible.result_bind_eq_ok_iff.mp h
  cases heq
  obtain ⟨t, ht, heq⟩ := List.mem_map.mp hB
  cases heq
  obtain ⟨hsub, hnumber⟩ := List.mem_filter.mp ht
  refine complete_iff_of_lists (fromBlocks_propagateActivity B)
    (fun k hk => lists_ownActivity hsymbols hsub hnumber hk role symbol) fun x hx => ?_
  obtain ⟨n, hn, href⟩ := List.mem_filterMap.mp hx
  obtain ⟨k, hk, hblock⟩ := block_mem_numbers hsub hnumber hn
  cases (block_of_reference href).symm.trans hblock
  exact hk

/-- The assignment of a constant to a name, whose values stand in some blocks. -/
def assignName (lineno colOffset : ℕ) (id : String) (blocks : List ℕ) : Rose TreeNode :=
  .node ⟨false, none⟩
    [.node ⟨false, some ⟨"Name", ⟨lineno, colOffset⟩, id, id, .store, true, blocks.map .ok⟩⟩
        [.node ⟨false, none⟩ []],
      .node ⟨false, none⟩ []]

/-- `if True: x = 1`, with `else: x = 2` -/
def branchStores : Rose TreeNode :=
  .node ⟨true, none⟩
    [.node ⟨true, none⟩ [.node ⟨false, none⟩ [], assignName 2 4 "x" [1, 1],
      assignName 4 4 "x" [1, 1]]]

theorem complete_iff_branches : ∃ activities B a,
    analyzeActivity (analyzeBlock branchStores) = .ok activities ∧ (B, a) ∈ activities ∧
    Complete .output "x" B a :=
  ⟨_, _, _, rfl, List.mem_cons_self,
    (@complete_iff branchStores _ rfl _ _ List.mem_cons_self .output "x").mpr (by decide)⟩

/-- `if True: x = 1`, and after it `x = 2` -/
def nestedStores : Rose TreeNode :=
  .node ⟨true, none⟩
    [.node ⟨true, none⟩ [.node ⟨false, none⟩ [], assignName 2 4 "x" [1, 0]],
      assignName 3 0 "x" [1, 0]]

/-- **The lists lose references**: the module stores `x` twice, and the store in the if statement
is not in its list. -/
theorem nested_store_lost : ¬ ∀ (ast : Rose TreeNode)
    (activities : List (Rose BlockNode × BlockActivity)) (B : Rose BlockNode) (a : BlockActivity)
    (role : Role) (symbol : String), analyzeActivity (analyzeBlock ast) = .ok activities →
    (B, a) ∈ activities → Complete role symbol B a := by
  intro h
  have := (h nestedStores _ _ _ .output "x" rfl List.mem_cons_self).perm.length_eq
  revert this
  decide +kernel

end Bentobox.Sdk.Ast
