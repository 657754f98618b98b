import Mathlib.Data.List.Basic

/-!
# Symbols of chains

`analyze_symbol` on expressions of any kind. A chain of attributes and subscripts is walked with
the qualifiers from its top down, and a name at any place below the top labels the top, unless the
name is itself a slice.
-/
namespace Bentobox.Sdk.Chains

/-! ## Syntax trees -/

mutual

/-- An expression with something noted at every node. The `ctx` of a node, which has no child, is
left out. -/
inductive Node (α : Type)
  | name (label : α) (id : String)
  | attr (label : α) (value : Node α) (attrName : String)
  | subscript (label : α) (value slice : Node α)
  | other (label : α) (fields : Fields α)

/-- The fields of a node that hold nodes. -/
inductive Fields (α : Type)
  | nil
  | cons (fieldName : String) (nodes : Nodes α) (rest : Fields α)

/-- The node or the nodes of a field. A list of nodes may also have `None` in it, as for `**` in
a dictionary. -/
inductive Nodes (α : Type)
  | nil
  | cons (node : Node α) (rest : Nodes α)
  | consNone (rest : Nodes α)

end

section Map
variable {α β γ : Type}

mutual

/-- Note something else at every node. -/
def Node.map (f : α → β) : Node α → Node β
  | .name label id => .name (f label) id
  | .attr label value attrName => .attr (f label) (value.map f) attrName
  | .subscript label value slice => .subscript (f label) (value.map f) (slice.map f)
  | .other label fields => .other (f label) (fields.map f)

def Fields.map (f : α → β) : Fields α → Fields β
  | .nil => .nil
  | .cons fieldName nodes rest => .cons fieldName (nodes.map f) (rest.map f)

def Nodes.map (f : α → β) : Nodes α → Nodes β
  | .nil => .nil
  | .cons node rest => .cons (node.map f) (rest.map f)
  | .consNone rest => .consNone (rest.map f)

end

/-- `all([isinstance(v, AST) for v in value])` -/
def Nodes.allNodes : Nodes α → Bool
  | .nil => true
  | .cons _ rest => rest.allNodes
  | .consNone _ => false

theorem Nodes.allNodes_map (f : α → β) : ∀ nodes : Nodes α,
    (nodes.map f).allNodes = nodes.allNodes
  | .nil => rfl
  | .cons _ rest => rest.allNodes_map f
  | .consNone _ => rfl

end Map

/-! ## analyze_symbol -/

/-- What a node with `is_symbol` is labelled with. -/
structure Label where
  symbol : String
  baseSymbol : String
  deriving DecidableEq, Repr

/-- An attribute or a subscript around a node. -/
inductive Qualifier
  | attr (attrName : String)
  | subscript (slice : Node Unit)

section
variable (unparse : Node Unit → String)

/-- The text that a qualifier adds; `unparse` is without trailing blanks. -/
def Qualifier.text : Qualifier → String
  | .attr attrName => "." ++ attrName
  | .subscript slice => "[" ++ unparse slice ++ "]"

/-- The qualifiers are recorded in reverse order. -/
def qualifiedSymbol (baseSym : String) (qualifiers : List Qualifier) : String :=
  qualifiers.reverse.foldl (fun symbol qualifier => symbol ++ qualifier.text unparse) baseSym

mutual

/-- `walk_symbol` gives the labelled node, and what is written at the top of the qualifiers last,
if anything is. A node without qualifiers around it is the top itself. -/
def Node.walkSymbol (qualifiers : List Qualifier) (fieldName : String) :
    Node Unit → Node (Option Label) × Option Label
  | .name _ id =>
    if qualifiers.isEmpty then (.name (some ⟨id, id⟩) id, none)
    else if fieldName ≠ "slice" then
      (.name none id, some ⟨qualifiedSymbol unparse id qualifiers, id⟩)
    else (.name none id, none)
  | .attr _ value attrName =>
    let below := value.walkSymbol (qualifiers ++ [.attr attrName]) "value"
    if qualifiers.isEmpty then (.attr below.2 below.1 attrName, none)
    else (.attr none below.1 attrName, below.2)
  | .subscript _ value slice =>
    let below := value.walkSymbol (qualifiers ++ [.subscript slice]) "value"
    let inside := slice.walkSymbol (qualifiers ++ [.subscript slice]) "slice"
    if qualifiers.isEmpty then (.subscript (inside.2 <|> below.2) below.1 inside.1, none)
    else (.subscript none below.1 inside.1, inside.2 <|> below.2)
  | .other _ fields =>
    let children := fields.walkSymbol qualifiers
    (.other none children.1, children.2)

/-- A field with something else than nodes is skipped. -/
def Fields.walkSymbol (qualifiers : List Qualifier) :
    Fields Unit → Fields (Option Label) × Option Label
  | .nil => (.nil, none)
  | .cons fieldName nodes rest =>
    let first := if nodes.allNodes then nodes.walkSymbol qualifiers fieldName
      else (nodes.map fun _ => none, none)
    let others := rest.walkSymbol qualifiers
    (.cons fieldName first.1 others.1, others.2 <|> first.2)

def Nodes.walkSymbol (qualifiers : List Qualifier) (fieldName : String) :
    Nodes Unit → Nodes (Option Label) × Option Label
  | .nil => (.nil, none)
  | .cons node rest =>
    let first := node.walkSymbol qualifiers fieldName
    let others := rest.walkSymbol qualifiers fieldName
    (.cons first.1 others.1, others.2 <|> first.2)
  | .consNone rest =>
    let others := rest.walkSymbol qualifiers fieldName
    (.consNone others.1, others.2)

end

/-- The expression with the labels of its nodes. -/
def analyzeSymbol (ast : Node Unit) : Node (Option Label) := (ast.walkSymbol unparse [] "").1

end

/-! ## Roots of chains -/

section
variable {α β : Type}

/-- A name in an expression, as the root of its maximal chain. -/
structure Root (α : Type) where
  /-- what is noted at the top of the chain -/
  label : α
  id : String
  /-- something is accessed in the name, so the top of the chain is another node -/
  accessed : Bool
  /-- the name stands inside of a subscript -/
  inSlice : Bool
  /-- the top of the chain stands below another access or in a field with `None` in it -/
  hidden : Bool

def Root.map (f : α → β) (x : Root α) : Root β := { x with label := f x.label }

mutual

/-- The names in a node; `top` is noted at the top of the chain that goes on with the node. -/
def Node.roots (inSlice hidden : Bool) (top : Option α) : Node α → List (Root α)
  | .name label id => [⟨top.getD label, id, top.isSome, inSlice, hidden⟩]
  | .attr label value _ => value.roots inSlice hidden (some (top.getD label))
  | .subscript label value slice =>
    value.roots inSlice hidden (some (top.getD label)) ++ slice.roots true true none
  | .other _ fields => fields.roots inSlice (hidden || top.isSome)

def Fields.roots (inSlice hidden : Bool) : Fields α → List (Root α)
  | .nil => []
  | .cons _ nodes rest =>
    nodes.roots inSlice (hidden || !nodes.allNodes) ++ rest.roots inSlice hidden

def Nodes.roots (inSlice hidden : Bool) : Nodes α → List (Root α)
  | .nil => []
  | .cons node rest => node.roots inSlice hidden none ++ rest.roots inSlice hidden
  | .consNone rest => rest.roots inSlice hidden

end

/-- All names in an expression. -/
def Node.names (n : Node α) : List (Root α) := n.roots false false none

end

/-- **The symbols are named by their roots**: the top of a chain by the name that it accesses, and
a name inside of a subscript is the base of its own chain. -/
structure NamedByRoot (n : Node (Option Label)) : Prop where
  chains : ∀ x ∈ n.names, x.accessed → ∃ rest, x.label = some ⟨x.id ++ rest, x.id⟩
  slices : ∀ x ∈ n.names, x.inSlice → ∃ symbol, x.label = some ⟨symbol, x.id⟩

/-- No name stands inside of a subscript, and no chain from a name below another access or where
the walk does not come. -/
def Flat {α : Type} (n : Node α) : Prop :=
  ∀ x ∈ n.names, x.inSlice = false ∧ (x.accessed → x.hidden = false)

/-! ## What is noted at the roots -/

mutual

theorem Node.map_map_unit {α : Type} (f : Unit → α) (n : Node Unit) :
    (n.map f).map (fun _ => ()) = n := by
  cases n with
  | name label id => rfl
  | attr label value attrName => rw [Node.map, Node.map, value.map_map_unit f]
  | subscript label value slice =>
    rw [Node.map, Node.map, value.map_map_unit f, slice.map_map_unit f]
  | other label fields => rw [Node.map, Node.map, fields.map_map_unit f]

theorem Fields.map_map_unit {α : Type} (f : Unit → α) (fields : Fields Unit) :
    (fields.map f).map (fun _ => ()) = fields := by
  cases fields with
  | nil => rfl
  | cons fieldName nodes rest =>
    rw [Fields.map, Fields.map, nodes.map_map_unit f, rest.map_map_unit f]

theorem Nodes.map_map_unit {α : Type} (f : Unit → α) (nodes : Nodes Unit) :
    (nodes.map f).map (fun _ => ()) = nodes := by
  cases nodes with
  | nil => rfl
  | cons node rest => rw [Nodes.map, Nodes.map, node.map_map_unit f, rest.map_map_unit f]
  | consNone rest => rw [Nodes.map, Nodes.map, rest.map_map_unit f]

end

section
variable {α β : Type}

mutual

theorem Node.roots_map (f : α → β) (n : Node α) (inSlice hidden : Bool) (top : Option α) :
    (n.map f).roots inSlice hidden (top.map f) =
      (n.roots inSlice hidden top).map (Root.map f) := by
  have htop : ∀ label : α, (top.map f).getD (f label) = f (top.getD label) := by
    intro label
    cases top <;> rfl
  cases n with
  | name label id =>
    rw [Node.map, Node.roots, Node.roots, htop, Option.isSome_map]
    rfl
  | attr label value attrName =>
    rw [Node.map, Node.roots, Node.roots, htop]
    exact value.roots_map f inSlice hidden (some (top.getD label))
  | subscript label value slice =>
    rw [Node.map, Node.roots, Node.roots, htop, List.map_append]
    congr 1
    · exact value.roots_map f inSlice hidden (some (top.getD label))
    · exact slice.roots_map f true true none
  | other label fields =>
    rw [Node.map, Node.roots, Node.roots, Option.isSome_map]
    exact fields.roots_map f inSlice _

theorem Fields.roots_map (f : α → β) (fields : Fields α) (inSlice hidden : Bool) :
    (fields.map f).roots inSlice hidden = (fields.roots inSlice hidden).map (Root.map f) := by
  cases fields with
  | nil => rfl
  | cons fieldName nodes rest =>
    rw [Fields.map, Fields.roots, Fields.roots, Nodes.allNodes_map, List.map_append,
      nodes.roots_map f inSlice, rest.roots_map f inSlice hidden]

theorem Nodes.roots_map (f : α → β) (nodes : Nodes α) (inSlice hidden : Bool) :
    (nodes.map f).roots inSlice hidden = (nodes.roots inSlice hidden).map (Root.map f) := by
  cases nodes with
  | nil => rfl
  | cons node rest =>
    rw [Nodes.map, Nodes.roots, Nodes.roots, List.map_append, rest.roots_map f inSlice hidden]
    congr 1
    exact node.roots_map f inSlice hidden none
  | consNone rest => exact rest.roots_map f inSlice hidden

end

theorem Node.names_map (f : α → β) (n : Node α) : (n.map f).names = n.names.map (Root.map f) :=
  n.roots_map f false false none

theorem flat_map_iff {f : α → β} {n : Node α} : Flat (n.map f) ↔ Flat n := by
  rw [Flat, Flat, n.names_map f, List.forall_mem_map]
  rfl

mutual

/-- What holds around a node holds inside of it. -/
theorem Node.flags_of_mem_roots {n : Node α} {inSlice hidden : Bool} {top : Option α} {x : Root α}
    (h : x ∈ n.roots inSlice hidden top) :
    (inSlice = true → x.inSlice = true) ∧ (hidden = true → x.hidden = true) ∧
      ((inSlice = true → hidden = true) → x.inSlice = true → x.hidden = true) := by
  cases n with
  | name label id =>
    cases List.mem_singleton.mp h
    exact ⟨fun h => h, fun h => h, fun h => h⟩
  | attr label value attrName => exact Node.flags_of_mem_roots (n := value) h
  | subscript label value slice =>
    rcases List.mem_append.mp h with h | h
    · exact Node.flags_of_mem_roots h
    · have := Node.flags_of_mem_roots h
      exact ⟨fun _ => this.1 rfl, fun _ => this.2.1 rfl, fun _ _ => this.2.1 rfl⟩
  | other label fields =>
    have := @Fields.flags_of_mem_roots fields _ _ _ h
    exact ⟨this.1, fun hidden => this.2.1 (by rw [hidden, Bool.true_or]),
      fun hslice => this.2.2 fun h => by rw [hslice h, Bool.true_or]⟩

theorem Fields.flags_of_mem_roots {fields : Fields α} {inSlice hidden : Bool} {x : Root α}
    (h : x ∈ fields.roots inSlice hidden) :
    (inSlice = true → x.inSlice = true) ∧ (hidden = true → x.hidden = true) ∧
      ((inSlice = true → hidden = true) → x.inSlice = true → x.hidden = true) := by
  cases fields with
  | nil => cases h
  | cons fieldName nodes rest =>
    rcases List.mem_append.mp h with h | h
    · have := Nodes.flags_of_mem_roots h
      exact ⟨this.1, fun hidden => this.2.1 (by rw [hidden, Bool.true_or]),
      fun hslice => this.2.2 fun h => by rw [hslice h, Bool.true_or]⟩
    · exact Fields.flags_of_mem_roots h

theorem Nodes.flags_of_mem_roots {nodes : Nodes α} {inSlice hidden : Bool} {x : Root α}
    (h : x ∈ nodes.roots inSlice hidden) :
    (inSlice = true → x.inSlice = true) ∧ (hidden = true → x.hidden = true) ∧
      ((inSlice = true → hidden = true) → x.inSlice = true → x.hidden = true) := by
  cases nodes with
  | nil => cases h
  | cons node rest =>
    rcases List.mem_append.mp h with h | h
    · exact Node.flags_of_mem_roots h
    · exact Nodes.flags_of_mem_roots h
  | consNone rest => exact @Nodes.flags_of_mem_roots rest _ _ _ h

end
end

mutual

/-- Where nothing is noted, a root has the label of the chain that goes on with the node. -/
theorem Node.label_of_mem_roots_map {n : Node Unit} {inSlice hidden : Bool}
    {top : Option (Option Label)} {x : Root (Option Label)}
    (h : x ∈ (n.map fun _ => none).roots inSlice hidden top) :
    x.label = none ∨ top = some x.label ∧ x.hidden = hidden := by
  have htop : ∀ {label : Option Label}, some (top.getD none) = some label →
      label = none ∨ top = some label := by
    rintro label ⟨⟩
    cases top with
    | none => exact .inl rfl
    | some label => exact .inr rfl
  cases n with
  | name label id =>
    cases List.mem_singleton.mp h
    exact (htop rfl).imp_right fun h => ⟨h, rfl⟩
  | attr label value attrName =>
    rcases Node.label_of_mem_roots_map (n := value) h with h | ⟨h, hidden⟩
    · exact .inl h
    · exact (htop h).imp_right fun h => ⟨h, hidden⟩
  | subscript label value slice =>
    rcases List.mem_append.mp h with h | h
    · rcases Node.label_of_mem_roots_map h with h | ⟨h, hidden⟩
      · exact .inl h
      · exact (htop h).imp_right fun h => ⟨h, hidden⟩
    · rcases Node.label_of_mem_roots_map h with h | ⟨h, _⟩
      · exact .inl h
      · cases h
  | other label fields => exact .inl (Fields.label_of_mem_roots_map h)

theorem Fields.label_of_mem_roots_map {fields : Fields Unit} {inSlice hidden : Bool}
    {x : Root (Option Label)} (h : x ∈ (fields.map fun _ => none).roots inSlice hidden) :
    x.label = none := by
  cases fields with
  | nil => cases h
  | cons fieldName nodes rest =>
    rcases List.mem_append.mp h with h | h
    · exact Nodes.label_of_mem_roots_map h
    · exact Fields.label_of_mem_roots_map h

theorem Nodes.label_of_mem_roots_map {nodes : Nodes Unit} {inSlice hidden : Bool}
    {x : Root (Option Label)} (h : x ∈ (nodes.map fun _ => none).roots inSlice hidden) :
    x.label = none := by
  cases nodes with
  | nil => cases h
  | cons node rest =>
    rcases List.mem_append.mp h with h | h
    · rcases Node.label_of_mem_roots_map h with h | ⟨h, _⟩
      · exact h
      · cases h
    · exact Nodes.label_of_mem_roots_map h
  | consNone rest => exact @Nodes.label_of_mem_roots_map rest _ _ _ h

end

/-! ## What the walk writes -/

section
variable {unparse : Node Unit → String}

theorem isEmpty_append (qualifiers : List Qualifier) (qualifier : Qualifier) :
    (qualifiers ++ [qualifier]).isEmpty = false := by
  cases qualifiers <;> rfl

mutual

/-- The walk keeps the expression. -/
theorem Node.map_walkSymbol {qualifiers : List Qualifier} (fieldName : String) (n : Node Unit) :
    (n.walkSymbol unparse qualifiers fieldName).1.map (fun _ => ()) = n := by
  cases n with
  | name label id =>
    rw [Node.walkSymbol]
    split
    · rfl
    · split <;> rfl
  | attr label value attrName =>
    rw [Node.walkSymbol]
    split
    all_goals rw [Node.map, value.map_walkSymbol]
  | subscript label value slice =>
    rw [Node.walkSymbol]
    split
    all_goals rw [Node.map, value.map_walkSymbol, slice.map_walkSymbol]
  | other label fields => rw [Node.walkSymbol, Node.map, fields.map_walkSymbol]

theorem Fields.map_walkSymbol {qualifiers : List Qualifier} (fields : Fields Unit) :
    (fields.walkSymbol unparse qualifiers).1.map (fun _ => ()) = fields := by
  cases fields with
  | nil => rfl
  | cons fieldName nodes rest =>
    rw [Fields.walkSymbol, Fields.map, rest.map_walkSymbol]
    split
    · rw [nodes.map_walkSymbol]
    · rw [nodes.map_map_unit]

theorem Nodes.map_walkSymbol {qualifiers : List Qualifier} (fieldName : String)
    (nodes : Nodes Unit) :
    (nodes.walkSymbol unparse qualifiers fieldName).1.map (fun _ => ()) = nodes := by
  cases nodes with
  | nil => rfl
  | cons node rest => rw [Nodes.walkSymbol, Nodes.map, node.map_walkSymbol, rest.map_walkSymbol]
  | consNone rest => rw [Nodes.walkSymbol, Nodes.map, rest.map_walkSymbol]

end

mutual

/-- Below a qualifier nothing is labelled. -/
theorem Node.walkSymbol_fst {qualifiers : List Qualifier} (h : qualifiers.isEmpty = false)
    (fieldName : String) (n : Node Unit) :
    (n.walkSymbol unparse qualifiers fieldName).1 = n.map fun _ => none := by
  have hne : ¬ qualifiers.isEmpty = true := by rw [h]; exact Bool.false_ne_true
  cases n with
  | name label id =>
    rw [Node.walkSymbol, if_neg hne]
    split <;> rfl
  | attr label value attrName =>
    rw [Node.walkSymbol, if_neg hne, Node.map, value.walkSymbol_fst (isEmpty_append ..)]
  | subscript label value slice =>
    rw [Node.walkSymbol, if_neg hne, Node.map, value.walkSymbol_fst (isEmpty_append ..),
      slice.walkSymbol_fst (isEmpty_append ..)]
  | other label fields => rw [Node.walkSymbol, Node.map, fields.walkSymbol_fst h]

theorem Fields.walkSymbol_fst {qualifiers : List Qualifier} (h : qualifiers.isEmpty = false)
    (fields : Fields Unit) :
    (fields.walkSymbol unparse qualifiers).1 = fields.map fun _ => none := by
  cases fields with
  | nil => rfl
  | cons fieldName nodes rest =>
    rw [Fields.walkSymbol, Fields.map, rest.walkSymbol_fst h]
    split
    · rw [nodes.walkSymbol_fst h]
    · rfl

theorem Nodes.walkSymbol_fst {qualifiers : List Qualifier} (h : qualifiers.isEmpty = false)
    (fieldName : String) (nodes : Nodes Unit) :
    (nodes.walkSymbol unparse qualifiers fieldName).1 = nodes.map fun _ => none := by
  cases nodes with
  | nil => rfl
  | cons node rest =>
    rw [Nodes.walkSymbol, Nodes.map, node.walkSymbol_fst h, rest.walkSymbol_fst h]
  | consNone rest => rw [Nodes.walkSymbol, Nodes.map, rest.walkSymbol_fst h]

end

mutual

/-- Without a name below, nothing is written at the top. -/
theorem Node.walkSymbol_snd_of_roots_eq_nil {n : Node Unit} {inSlice hidden : Bool}
    {top : Option Unit} {qualifiers : List Qualifier} (h : n.roots inSlice hidden top = [])
    (fieldName : String) :
    (n.walkSymbol unparse qualifiers fieldName).2 = none := by
  cases n with
  | name label id => cases h
  | attr label value attrName =>
    rw [Node.walkSymbol]
    split
    · rfl
    · exact Node.walkSymbol_snd_of_roots_eq_nil (n := value) h "value"
  | subscript label value slice =>
    obtain ⟨hvalue, hslice⟩ := List.append_eq_nil_iff.mp h
    rw [Node.walkSymbol]
    split
    · rfl
    · rw [Node.walkSymbol_snd_of_roots_eq_nil hvalue,
        Node.walkSymbol_snd_of_roots_eq_nil hslice]
      rfl
  | other label fields => exact Fields.walkSymbol_snd_of_roots_eq_nil h

theorem Fields.walkSymbol_snd_of_roots_eq_nil {fields : Fields Unit} {inSlice hidden : Bool}
    {qualifiers : List Qualifier} (h : fields.roots inSlice hidden = []) :
    (fields.walkSymbol unparse qualifiers).2 = none := by
  cases fields with
  | nil => rfl
  | cons fieldName nodes rest =>
    obtain ⟨hnodes, hrest⟩ := List.append_eq_nil_iff.mp h
    rw [Fields.walkSymbol, Fields.walkSymbol_snd_of_roots_eq_nil hrest]
    split
    · rw [Nodes.walkSymbol_snd_of_roots_eq_nil hnodes]
      rfl
    · rfl

theorem Nodes.walkSymbol_snd_of_roots_eq_nil {nodes : Nodes Unit} {inSlice hidden : Bool}
    {qualifiers : List Qualifier} (h : nodes.roots inSlice hidden = []) (fieldName : String) :
    (nodes.walkSymbol unparse qualifiers fieldName).2 = none := by
  cases nodes with
  | nil => rfl
  | cons node rest =>
    obtain ⟨hnode, hrest⟩ := List.append_eq_nil_iff.mp h
    rw [Nodes.walkSymbol, Nodes.walkSymbol_snd_of_roots_eq_nil hrest,
      Node.walkSymbol_snd_of_roots_eq_nil hnode]
    rfl
  | consNone rest => exact @Nodes.walkSymbol_snd_of_roots_eq_nil rest _ _ _ h fieldName

end

theorem exists_qualifiedSymbol_eq (baseSym : String) (qualifiers : List Qualifier) :
    ∃ rest, qualifiedSymbol unparse baseSym qualifiers = baseSym ++ rest := by
  rw [qualifiedSymbol]
  generalize qualifiers.reverse = qs
  induction qs generalizing baseSym with
  | nil => exact ⟨"", (String.append_empty ..).symm⟩
  | cons q qs ih =>
    obtain ⟨rest, hrest⟩ := ih (baseSym ++ q.text unparse)
    exact ⟨q.text unparse ++ rest, by rw [List.foldl_cons, hrest, String.append_assoc]⟩

theorem roots_eq_nil_of_inSlice {slice : Node Unit} {f : Unit → Option Label}
    (h : ∀ x ∈ (slice.map f).roots true true none, x.inSlice = false) :
    slice.roots true true none = [] := by
  rw [List.eq_nil_iff_forall_not_mem]
  intro x hx
  have hmap := slice.roots_map f true true none
  have := h (x.map f) (hmap ▸ List.mem_map_of_mem hx)
  rw [show (x.map f).inSlice = x.inSlice from rfl, (Node.flags_of_mem_roots hx).1 rfl] at this
  cases this

/-- The name at the root of a chain is written at its top, if no other name follows. -/
theorem Node.walkSymbol_snd_of_visible {n : Node Unit} {inSlice hidden : Bool}
    {label : Option Label} {x : Root (Option Label)} {qualifiers : List Qualifier}
    {fieldName : String} (hqualifiers : qualifiers.isEmpty = false) (hfield : fieldName ≠ "slice")
    (hx : x ∈ (n.map fun _ => none).roots inSlice hidden (some label)) (hvisible : x.hidden = false)
    (hslices : ∀ y ∈ (n.map fun _ => none).roots inSlice hidden (some label),
      y.inSlice = false) :
    x.label = label ∧ ∃ rest,
      (n.walkSymbol unparse qualifiers fieldName).2 = some ⟨x.id ++ rest, x.id⟩ := by
  have hne : ¬ qualifiers.isEmpty = true := by rw [hqualifiers]; exact Bool.false_ne_true
  cases n with
  | name _ id =>
    cases List.mem_singleton.mp hx
    refine ⟨rfl, ?_⟩
    obtain ⟨rest, hrest⟩ := @exists_qualifiedSymbol_eq unparse id qualifiers
    exact ⟨rest, by rw [Node.walkSymbol, if_neg hne, if_pos hfield, hrest]⟩
  | attr _ value attrName =>
    rw [Node.walkSymbol, if_neg hne]
    exact Node.walkSymbol_snd_of_visible (n := value) (isEmpty_append ..) (by decide) hx hvisible
      hslices
  | subscript _ value slice =>
    rw [Node.map, Node.roots] at hx hslices
    rw [Node.walkSymbol, if_neg hne]
    have hnil := roots_eq_nil_of_inSlice fun y hy => hslices y (List.mem_append_right _ hy)
    rcases List.mem_append.mp hx with hx | hx
    · rw [Node.walkSymbol_snd_of_roots_eq_nil hnil]
      exact Node.walkSymbol_snd_of_visible (n := value) (isEmpty_append ..) (by decide) hx hvisible
        fun y hy => hslices y (List.mem_append_left _ hy)
    · rw [(Node.flags_of_mem_roots hx).2.1 rfl] at hvisible
      cases hvisible
  | other _ fields =>
    rw [(Fields.flags_of_mem_roots hx).2.1 (Bool.or_true hidden)] at hvisible
    cases hvisible

/-- What the walk has noted at the top of the chain of a name. -/
def Root.Labelled (names : List (Root (Option Label))) (x : Root (Option Label)) : Prop :=
  (x.hidden = true → x.label = none) ∧
    ((∀ y ∈ names, y.inSlice = false) → x.accessed = true → x.hidden = false →
      ∃ rest, x.label = some ⟨x.id ++ rest, x.id⟩)

theorem Root.Labelled.of_subset {names names' : List (Root (Option Label))}
    {x : Root (Option Label)} (h : x.Labelled names') (hsub : names' ⊆ names) :
    x.Labelled names :=
  ⟨h.1, fun hslices => h.2 fun y hy => hslices y (hsub hy)⟩

theorem Root.labelled_of_hidden {names : List (Root (Option Label))} {x : Root (Option Label)}
    (hidden : x.hidden = true) (h : x.label = none) : x.Labelled names := by
  refine ⟨fun _ => h, fun _ _ hvisible => ?_⟩
  rw [hidden] at hvisible
  cases hvisible

mutual

theorem Node.labelled_walkSymbol {n : Node Unit} {inSlice : Bool} {fieldName : String}
    {x : Root (Option Label)}
    (hx : x ∈ (n.walkSymbol unparse [] fieldName).1.roots inSlice false none) :
    x.Labelled ((n.walkSymbol unparse [] fieldName).1.roots inSlice false none) := by
  have hvalue : "value" ≠ "slice" := by decide
  cases n with
  | name _ id =>
    cases List.mem_singleton.mp hx
    exact ⟨fun hidden => Bool.noConfusion hidden, fun _ haccessed => Bool.noConfusion haccessed⟩
  | attr _ value attrName =>
    rw [Node.walkSymbol, if_pos List.isEmpty_nil, Node.walkSymbol_fst (isEmpty_append ..)] at hx ⊢
    constructor
    · intro hidden
      rcases Node.label_of_mem_roots_map (n := value) hx with h | ⟨-, h⟩
      · exact h
      · cases hidden.symm.trans h
    · intro hslices _ hvisible
      obtain ⟨hlabel, rest, hrest⟩ := Node.walkSymbol_snd_of_visible (n := value)
        (isEmpty_append [] (.attr attrName)) hvalue hx hvisible hslices
      exact ⟨rest, hlabel.trans hrest⟩
  | subscript _ value slice =>
    rw [Node.walkSymbol, if_pos List.isEmpty_nil, Node.walkSymbol_fst (isEmpty_append ..),
      Node.walkSymbol_fst (isEmpty_append ..), Node.roots] at hx ⊢
    rcases List.mem_append.mp hx with hx | hx
    · constructor
      · intro hidden
        rcases Node.label_of_mem_roots_map (n := value) hx with h | ⟨-, h⟩
        · exact h
        · cases hidden.symm.trans h
      · intro hslices _ hvisible
        have hnil := roots_eq_nil_of_inSlice fun y hy => hslices y (List.mem_append_right _ hy)
        obtain ⟨hlabel, rest, hrest⟩ := Node.walkSymbol_snd_of_visible (n := value)
          (isEmpty_append [] (.subscript slice)) hvalue hx hvisible
          fun y hy => hslices y (List.mem_append_left _ hy)
        rw [Node.walkSymbol_snd_of_roots_eq_nil hnil] at hlabel
        exact ⟨rest, hlabel.trans hrest⟩
    · refine Root.labelled_of_hidden ((Node.flags_of_mem_roots hx).2.1 rfl) ?_
      rcases Node.label_of_mem_roots_map hx with h | ⟨h, -⟩
      · exact h
      · cases h
  | other _ fields => exact Fields.labelled_walkSymbol hx

theorem Fields.labelled_walkSymbol {fields : Fields Unit} {inSlice : Bool}
    {x : Root (Option Label)} (hx : x ∈ (fields.walkSymbol unparse []).1.roots inSlice false) :
    x.Labelled ((fields.walkSymbol unparse []).1.roots inSlice false) := by
  cases fields with
  | nil => cases hx
  | cons fieldName nodes rest =>
    rw [Fields.walkSymbol, Fields.roots] at hx ⊢
    rcases List.mem_append.mp hx with hx | hx
    · refine Root.Labelled.of_subset ?_ (List.subset_append_left ..)
      split at hx
      next hall =>
        rw [if_pos hall]
        have hall' : (nodes.walkSymbol unparse [] fieldName).1.allNodes = true := by
          rw [← Nodes.allNodes_map (fun _ => ()), nodes.map_walkSymbol, hall]
        rw [hall'] at hx ⊢
        exact Nodes.labelled_walkSymbol hx
      next hall =>
        rw [if_neg hall]
        refine Root.labelled_of_hidden ((Nodes.flags_of_mem_roots hx).2.1 ?_)
          (Nodes.label_of_mem_roots_map hx)
        rw [Nodes.allNodes_map, Bool.false_or, eq_false_of_ne_true hall]
        rfl
    · exact (Fields.labelled_walkSymbol hx).of_subset (List.subset_append_right ..)

theorem Nodes.labelled_walkSymbol {nodes : Nodes Unit} {inSlice : Bool} {fieldName : String}
    {x : Root (Option Label)}
    (hx : x ∈ (nodes.walkSymbol unparse [] fieldName).1.roots inSlice false) :
    x.Labelled ((nodes.walkSymbol unparse [] fieldName).1.roots inSlice false) := by
  cases nodes with
  | nil => cases hx
  | cons node rest =>
    rw [Nodes.walkSymbol, Nodes.roots] at hx ⊢
    rcases List.mem_append.mp hx with hx | hx
    · exact (Node.labelled_walkSymbol hx).of_subset (List.subset_append_left ..)
    · exact (Nodes.labelled_walkSymbol hx).of_subset (List.subset_append_right ..)
  | consNone rest => exact @Nodes.labelled_walkSymbol rest _ _ _ hx

end

/-- **The symbols are named by their roots** exactly in the expressions without names inside of
subscripts, where no chain from a name stands below another access or in a list with `None`. -/
theorem namedByRoot_iff_flat (unparse : Node Unit → String) (ast : Node Unit) :
    NamedByRoot (analyzeSymbol unparse ast) ↔ Flat ast := by
  have hflat : Flat (analyzeSymbol unparse ast) ↔ Flat ast := by
    rw [← flat_map_iff (f := fun _ => ()), analyzeSymbol, Node.map_walkSymbol]
  rw [← hflat]
  constructor
  · intro h x hx
    have hlabel := (Node.labelled_walkSymbol hx).1
    have hvisible : ∀ {label}, x.label = some label → x.hidden = false := by
      intro label hsome
      rw [← Bool.not_eq_true]
      intro hidden
      cases hsome.symm.trans (hlabel hidden)
    constructor
    · rw [← Bool.not_eq_true]
      intro hslice
      obtain ⟨symbol, hsome⟩ := h.slices x hx hslice
      cases (hvisible hsome).symm.trans ((Node.flags_of_mem_roots hx).2.2 id hslice)
    · intro haccessed
      obtain ⟨rest, hsome⟩ := h.chains x hx haccessed
      exact hvisible hsome
  · intro h
    refine ⟨fun x hx haccessed => ?_, fun x hx hslice => ?_⟩
    · exact (Node.labelled_walkSymbol hx).2 (fun y hy => (h y hy).1) haccessed
        ((h x hx).2 haccessed)
    · cases hslice.symm.trans (h x hx).1

end

/-- `a[b + 1]` -/
def slicedSum : Node Unit :=
  .subscript () (.name () "a") (.other () (.cons "left" (.cons (.name () "b") .nil)
    (.cons "op" (.cons (.other () .nil) .nil)
      (.cons "right" (.cons (.other () .nil) .nil) .nil))))

/-- **A name in a subscript takes the label of the top**: the base symbol of `a[b + 1]` is `b`. -/
theorem slicedSum_not_namedByRoot :
    ¬ NamedByRoot (analyzeSymbol (fun _ => "(b + 1)") slicedSum) := by
  intro h
  obtain ⟨rest, hrest⟩ := h.chains _ List.mem_cons_self rfl
  have hbase : some "b" = some "a" := congrArg (Option.map Label.baseSymbol) hrest
  exact absurd hbase (by decide)

end Bentobox.Sdk.Chains
