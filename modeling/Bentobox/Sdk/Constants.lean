import Mathlib.Data.List.Basic

/-!
# Constant literals

`analyze_const` marks constants and collections of constants. While it walks through a collection
it holds a pointer to it, through which an element that is no constant takes the mark back; an
element that is a collection itself gets the pointer instead.
-/
namespace Bentobox.Sdk.Constants

/-- A syntax tree with a label at each node. The contexts `Load`, `Store` and `Del`, which are
ignored, are left out. -/
inductive Ast (L : Type)
  | constant (label : L)
  /-- `List` and `Tuple` -/
  | collection (label : L) (elts : List (Ast L))
  | assign (label : L) (targets : List (Ast L)) (value : Ast L)
  | other (label : L) (children : List (Ast L))

namespace Ast
variable {L : Type}

def label : Ast L → L
  | constant l | collection l _ | assign l _ _ | other l _ => l

def isCollection : Ast L → Bool
  | collection _ _ => true
  | _ => false

def isConstantNode : Ast L → Bool
  | constant _ => true
  | _ => false

end Ast

/-! ## Assignments -/

/-- What a node is to an unpacking assignment: the first target or the value, an element of one of
these, or a further target, which the analysis passes over. -/
inductive Role
  | none
  | whole
  | part
  | further
  deriving DecidableEq

/-- `hasattr(ast, "assign") and ast.assign.is_unpack` -/
def Role.isUnpack : Role → Bool
  | whole | part => true
  | none | further => false

mutual

/-- `analyze_assign`, on a node of the given role. -/
def annotate (role : Role) : Ast Unit → Ast Role
  | .constant _ => .constant role
  | .collection _ elts =>
    .collection role (annotateAll (if role = .whole then .part else .none) elts)
  | .assign _ [] value => .assign role [] (annotate .none value)
  | .assign _ (target :: further) value =>
    if target.isCollection then
      .assign role (annotate .whole target :: annotateAll .further further) (annotate .whole value)
    else
      .assign role (annotate .none target :: annotateAll .none further) (annotate .none value)
  | .other _ children => .other role (annotateAll .none children)

def annotateAll (role : Role) : List (Ast Unit) → List (Ast Role)
  | [] => []
  | ast :: asts => annotate role ast :: annotateAll role asts

end

def analyzeAssign (ast : Ast Unit) : Ast Role := annotate .none ast

/-! ## Constants -/

mutual

/-- `walk_const`, with the mark of the collection that `part_of` points to. -/
def walkConst : Ast Role → Option Bool → Ast (Role × Bool) × Option Bool
  | .constant role, partOf => (.constant (role, partOf.isNone), partOf)
  | .collection role elts, partOf =>
    if role.isUnpack then
      let walked := walkAll elts partOf
      (.collection (role, false) walked.1, walked.2)
    else
      let walked := walkAll elts (some true)
      (.collection (role, walked.2 = some true) walked.1, partOf)
  | .assign role targets value, partOf =>
    let walked := walkAll targets (partOf.map fun _ => false)
    let walkedValue := walkConst value walked.2
    (.assign (role, false) walked.1 walkedValue.1, walkedValue.2)
  | .other role children, partOf =>
    let walked := walkAll children (partOf.map fun _ => false)
    (.other (role, false) walked.1, walked.2)

def walkAll : List (Ast Role) → Option Bool → List (Ast (Role × Bool)) × Option Bool
  | [], partOf => ([], partOf)
  | ast :: asts, partOf =>
    let walked := walkConst ast partOf
    let rest := walkAll asts walked.2
    (walked.1 :: rest.1, rest.2)

end

def analyzeConst (ast : Ast Role) : Ast (Role × Bool) := (walkConst ast none).1

/-! ## What is constant -/

section
variable {L : Type}

mutual

/-- The elements of a collection, and the elements of those that are collections. -/
def nested : Ast L → List (Ast L)
  | .collection _ elts => nestedAll elts
  | _ => []

def nestedAll : List (Ast L) → List (Ast L)
  | [] => []
  | ast :: asts => ast :: nested ast ++ nestedAll asts

end

variable (role : L → Role)

mutual

/-- The collections that are no target or value of an unpacking assignment, each with whether it is
an outermost one. -/
def collections (outermost : Bool) : Ast L → List (Bool × Ast L)
  | .constant _ => []
  | .collection l elts =>
    if role l = .none then (outermost, .collection l elts) :: collectionsAll false elts
    else collectionsAll outermost elts
  | .assign _ targets value => collectionsAll outermost targets ++ collections outermost value
  | .other _ children => collectionsAll outermost children

def collectionsAll (outermost : Bool) : List (Ast L) → List (Bool × Ast L)
  | [] => []
  | ast :: asts => collections outermost ast ++ collectionsAll outermost asts

end

end

/-- The outermost collections are marked exactly if all their leaves are constants, and nothing
inside of a marked collection is marked. -/
structure Exact (ast : Ast (Role × Bool)) : Prop where
  outermost : ∀ c, (true, c) ∈ collections Prod.fst true ast →
    (c.label.2 = true ↔ ∀ e ∈ nested c, e.isConstantNode ∨ e.isCollection)
  inside : ∀ o c, (o, c) ∈ collections Prod.fst true ast → c.label.2 = true →
    ∀ e ∈ nested c, e.label.2 = false

/-- All elements are constants or collections. -/
def Plain : Ast Role → Prop
  | .collection _ elts => ∀ e ∈ elts, e.isConstantNode ∨ e.isCollection
  | _ => False

/-- A plain collection is a list of constants, if it is an outermost one, and has no plain
collection inside in any case. -/
structure Flat (ast : Ast Role) : Prop where
  outermost : ∀ l elts, (true, .collection l elts) ∈ collections id true ast →
    Plain (.collection l elts) → ∀ e ∈ elts, e.isConstantNode
  inside : ∀ o c, (o, c) ∈ collections id true ast → Plain c → ∀ e ∈ nested c, ¬ Plain e

/-! ## What the walk does -/

mutual

/-- The node takes the mark of a collection back. -/
def spoils : Ast Role → Bool
  | .constant _ => false
  | .collection role elts => role.isUnpack && spoilsAny elts
  | .assign _ _ _ | .other _ _ => true

def spoilsAny : List (Ast Role) → Bool
  | [] => false
  | ast :: asts => spoils ast || spoilsAny asts

end

mutual

/-- The marks of a tree that stands inside of a collection or not. -/
def mark (inside : Bool) : Ast Role → Ast (Role × Bool)
  | .constant role => .constant (role, !inside)
  | .collection role elts =>
    .collection (role, !role.isUnpack && !spoilsAny elts) (markAll (inside || !role.isUnpack) elts)
  | .assign role targets value =>
    .assign (role, false) (markAll inside targets) (mark inside value)
  | .other role children => .other (role, false) (markAll inside children)

def markAll (inside : Bool) : List (Ast Role) → List (Ast (Role × Bool))
  | [] => []
  | ast :: asts => mark inside ast :: markAll inside asts

end

mutual

/-- **The walk** marks the tree and takes the mark of `part_of` back if the tree spoils it. -/
theorem walkConst_eq (ast : Ast Role) (partOf : Option Bool) :
    walkConst ast partOf = (mark partOf.isSome ast, partOf.map fun b => b && !spoils ast) := by
  cases ast with
  | constant role => cases partOf <;> simp [walkConst, mark, spoils]
  | collection role elts =>
    simp only [walkConst, walkAll_eq elts]
    cases hrole : role.isUnpack with
    | true => cases partOf <;> simp [mark, spoils, hrole]
    | false => cases partOf <;> simp [mark, spoils, hrole]
  | assign role targets value =>
    simp only [walkConst, walkAll_eq targets, walkConst_eq value]
    cases partOf <;> simp [mark, spoils]
  | other role children =>
    simp only [walkConst, walkAll_eq children]
    cases partOf <;> simp [mark, spoils]

theorem walkAll_eq (asts : List (Ast Role)) (partOf : Option Bool) :
    walkAll asts partOf =
      (markAll partOf.isSome asts, partOf.map fun b => b && !spoilsAny asts) := by
  cases asts with
  | nil => cases partOf <;> simp [walkAll, markAll, spoilsAny]
  | cons ast asts =>
    simp only [walkAll, walkConst_eq ast, walkAll_eq asts]
    cases partOf <;> simp [markAll, spoilsAny, Bool.and_assoc]

end

/-! ## Annotated trees -/

mutual

/-- The elements of a collection take part in an unpacking assignment only if the collection is the
target or the value of one. -/
def Annotated : Ast Role → Prop
  | .constant _ => True
  | .collection role elts =>
    (role ≠ .whole → ∀ e ∈ elts, e.label = .none) ∧ AnnotatedAll elts
  | .assign _ targets value => AnnotatedAll targets ∧ Annotated value
  | .other _ children => AnnotatedAll children

def AnnotatedAll : List (Ast Role) → Prop
  | [] => True
  | ast :: asts => Annotated ast ∧ AnnotatedAll asts

end

theorem label_annotate (role : Role) (ast : Ast Unit) : (annotate role ast).label = role := by
  cases ast with
  | constant | collection | other => simp [annotate, Ast.label]
  | assign _ targets value =>
    cases targets with
    | nil => simp [annotate, Ast.label]
    | cons target further =>
      rw [annotate]
      split <;> rfl

theorem label_of_mem_annotateAll {role : Role} {asts : List (Ast Unit)} {e : Ast Role}
    (h : e ∈ annotateAll role asts) : e.label = role := by
  induction asts with
  | nil => simp [annotateAll] at h
  | cons ast asts ih =>
    rw [annotateAll] at h
    rcases List.mem_cons.mp h with rfl | h
    · exact label_annotate role ast
    · exact ih h

mutual

theorem annotated_annotate (role : Role) (ast : Ast Unit) : Annotated (annotate role ast) := by
  cases ast with
  | constant => simp [annotate, Annotated]
  | collection _ elts =>
    rw [annotate, Annotated]
    refine ⟨fun hrole e he => ?_, annotatedAll_annotateAll _ elts⟩
    rw [if_neg hrole] at he
    exact label_of_mem_annotateAll he
  | assign _ targets value =>
    cases targets with
    | nil =>
      rw [annotate, Annotated]
      exact ⟨trivial, annotated_annotate _ value⟩
    | cons target further =>
      rw [annotate]
      split
      all_goals
        rw [Annotated, AnnotatedAll]
        exact ⟨⟨annotated_annotate _ target, annotatedAll_annotateAll _ further⟩,
          annotated_annotate _ value⟩
  | other _ children =>
    rw [annotate, Annotated]
    exact annotatedAll_annotateAll _ children

theorem annotatedAll_annotateAll (role : Role) (asts : List (Ast Unit)) :
    AnnotatedAll (annotateAll role asts) := by
  cases asts with
  | nil => exact trivial
  | cons ast asts =>
    rw [annotateAll, AnnotatedAll]
    exact ⟨annotated_annotate role ast, annotatedAll_annotateAll role asts⟩

end

theorem mem_nestedAll {L : Type} {asts : List (Ast L)} {e : Ast L} :
    e ∈ nestedAll asts ↔ ∃ ast ∈ asts, e = ast ∨ e ∈ nested ast := by
  induction asts with
  | nil => simp [nestedAll]
  | cons ast asts ih => simp [nestedAll, ih, or_assoc]

theorem spoilsAny_eq_any (asts : List (Ast Role)) : spoilsAny asts = asts.any spoils := by
  induction asts with
  | nil => rfl
  | cons ast asts ih => rw [spoilsAny, ih, List.any_cons]

mutual

/-- What is inside of a collection that is no target or value is not either. -/
theorem annotated_of_mem_nested {ast : Ast Role} (h : Annotated ast) (hlabel : ast.label = .none)
    {e : Ast Role} (he : e ∈ nested ast) : e.label = .none ∧ Annotated e := by
  cases ast with
  | constant | other | assign => simp [nested] at he
  | collection role elts =>
    rw [Annotated] at h
    rw [nested] at he
    have hrole : role ≠ .whole := by
      rintro rfl
      cases hlabel
    exact annotated_of_mem_nestedAll h.2 (h.1 hrole) he

theorem annotated_of_mem_nestedAll {asts : List (Ast Role)} (h : AnnotatedAll asts)
    (hlabel : ∀ ast ∈ asts, ast.label = .none) {e : Ast Role} (he : e ∈ nestedAll asts) :
    e.label = .none ∧ Annotated e := by
  cases asts with
  | nil => simp [nestedAll] at he
  | cons ast asts =>
    rw [AnnotatedAll] at h
    rw [List.forall_mem_cons] at hlabel
    simp only [nestedAll, List.mem_cons, List.mem_append, List.cons_append] at he
    rcases he with rfl | he | he
    · exact ⟨hlabel.1, h.1⟩
    · exact annotated_of_mem_nested h.1 hlabel.1 he
    · exact annotated_of_mem_nestedAll h.2 hlabel.2 he

end

mutual

theorem annotated_of_mem_collections {ast : Ast Role} (h : Annotated ast) {outermost o : Bool}
    {c : Ast Role} (hc : (o, c) ∈ collections id outermost ast) :
    ∃ elts, c = .collection .none elts ∧ Annotated c := by
  cases ast with
  | constant role => simp [collections] at hc
  | collection role elts =>
    rw [collections, id_eq] at hc
    split at hc
    next hrole =>
      subst hrole
      rcases List.mem_cons.mp hc with heq | hc
      · cases heq
        exact ⟨elts, rfl, h⟩
      · rw [Annotated] at h
        exact annotated_of_mem_collectionsAll h.2 hc
    next =>
      rw [Annotated] at h
      exact annotated_of_mem_collectionsAll h.2 hc
  | assign role targets value =>
    rw [Annotated] at h
    rw [collections, List.mem_append] at hc
    rcases hc with hc | hc
    · exact annotated_of_mem_collectionsAll h.1 hc
    · exact annotated_of_mem_collections h.2 hc
  | other role children =>
    rw [Annotated] at h
    rw [collections] at hc
    exact annotated_of_mem_collectionsAll h hc

theorem annotated_of_mem_collectionsAll {asts : List (Ast Role)} (h : AnnotatedAll asts)
    {outermost o : Bool} {c : Ast Role} (hc : (o, c) ∈ collectionsAll id outermost asts) :
    ∃ elts, c = .collection .none elts ∧ Annotated c := by
  cases asts with
  | nil => simp [collectionsAll] at hc
  | cons ast asts =>
    rw [AnnotatedAll] at h
    rw [collectionsAll, List.mem_append] at hc
    rcases hc with hc | hc
    · exact annotated_of_mem_collections h.1 hc
    · exact annotated_of_mem_collectionsAll h.2 hc

end

mutual

theorem nested_mark (ast : Ast Role) : nested (mark true ast) = (nested ast).map (mark true) := by
  cases ast with
  | constant | other => simp [mark, nested]
  | assign => simp [mark, nested]
  | collection role elts =>
    simp only [mark, nested, Bool.true_or]
    exact nestedAll_markAll elts

theorem nestedAll_markAll (asts : List (Ast Role)) :
    nestedAll (markAll true asts) = (nestedAll asts).map (mark true) := by
  cases asts with
  | nil => rfl
  | cons ast asts =>
    simp only [markAll, nestedAll, nested_mark ast, nestedAll_markAll asts, List.map_cons,
      List.map_append, List.cons_append]

end

mutual

theorem collections_mark (outermost inside : Bool) (ast : Ast Role) :
    collections Prod.fst outermost (mark inside ast) =
      (collections id outermost ast).map fun p => (p.1, mark false p.2) := by
  cases ast with
  | constant role => simp [mark, collections]
  | collection role elts =>
    simp only [mark, collections, id_eq, collectionsAll_markAll _ _ elts]
    split
    next hrole => simp [hrole, mark, Role.isUnpack]
    next => rfl
  | assign role targets value =>
    simp only [mark, collections, collectionsAll_markAll _ _ targets, collections_mark _ _ value,
      List.map_append]
  | other role children => simp only [mark, collections, collectionsAll_markAll _ _ children]

theorem collectionsAll_markAll (outermost inside : Bool) (asts : List (Ast Role)) :
    collectionsAll Prod.fst outermost (markAll inside asts) =
      (collectionsAll id outermost asts).map fun p => (p.1, mark false p.2) := by
  cases asts with
  | nil => simp [markAll, collectionsAll]
  | cons ast asts =>
    simp only [markAll, collectionsAll, collections_mark _ _ ast, collectionsAll_markAll _ _ asts,
      List.map_append]

end

theorem isConstantNode_mark (inside : Bool) (ast : Ast Role) :
    (mark inside ast).isConstantNode = ast.isConstantNode := by
  cases ast <;> simp [mark, Ast.isConstantNode]

theorem isCollection_mark (inside : Bool) (ast : Ast Role) :
    (mark inside ast).isCollection = ast.isCollection := by
  cases ast <;> simp [mark, Ast.isCollection]

theorem spoils_eq_false_iff {e : Ast Role} (h : e.label = .none) :
    spoils e = false ↔ e.isConstantNode ∨ e.isCollection := by
  cases e with
  | constant => simp [spoils, Ast.isConstantNode]
  | collection role elts =>
    cases h
    simp [spoils, Ast.isCollection, Role.isUnpack]
  | assign | other => simp [spoils, Ast.isConstantNode, Ast.isCollection]

/-- Inside of a collection the plain collections are marked, and nothing else. -/
theorem marked_iff_plain {e : Ast Role} (h : Annotated e) (hlabel : e.label = .none) :
    (mark true e).label.2 = true ↔ Plain e := by
  cases e with
  | constant | assign | other => simp [mark, Ast.label, Plain]
  | collection role elts =>
    cases hlabel
    rw [Annotated] at h
    have helts := h.1 (by decide)
    simp only [mark, Ast.label, Role.isUnpack, Plain, spoilsAny_eq_any, Bool.not_false,
      Bool.true_and, Bool.not_eq_true', List.any_eq_false, Bool.not_eq_true]
    exact forall₂_congr fun e he => spoils_eq_false_iff (helts e he)

/-- The walk on a collection of which an analysed tree consists. -/
theorem mark_of_mem_collections {ast : Ast Role} (h : Annotated ast) {o : Bool} {c : Ast Role}
    (hc : (o, c) ∈ collections id true ast) :
    ((mark false c).label.2 = true ↔ Plain c) ∧
      ((∀ e ∈ nested (mark false c), e.isConstantNode ∨ e.isCollection) ↔
        ∀ e ∈ nested c, e.isConstantNode ∨ e.isCollection) ∧
      ((∀ e ∈ nested (mark false c), e.label.2 = false) ↔ ∀ e ∈ nested c, ¬ Plain e) := by
  obtain ⟨elts, rfl, hann⟩ := annotated_of_mem_collections h hc
  have hinside : mark false (.collection .none elts) = mark true (.collection .none elts) := by
    simp [mark, Role.isUnpack]
  rw [hinside, nested_mark]
  refine ⟨marked_iff_plain hann rfl, ?_, ?_⟩
  · simp only [List.forall_mem_map, isConstantNode_mark, isCollection_mark]
  · rw [List.forall_mem_map]
    refine forall₂_congr fun e he => ?_
    obtain ⟨hlabel, hann'⟩ := annotated_of_mem_nested hann rfl he
    rw [← marked_iff_plain hann' hlabel, Bool.not_eq_true]

theorem mem_nested {role : Role} {elts : List (Ast Role)} {e : Ast Role} (he : e ∈ elts) :
    e ∈ nested (.collection role elts) := by
  rw [nested, mem_nestedAll]
  exact ⟨e, he, .inl rfl⟩

theorem nested_subset_nested {role : Role} {elts : List (Ast Role)} {e x : Ast Role} (he : e ∈ elts)
    (hx : x ∈ nested e) : x ∈ nested (.collection role elts) := by
  rw [nested, mem_nestedAll]
  exact ⟨e, he, .inr hx⟩

theorem nested_of_isConstantNode {e : Ast Role} (he : e.isConstantNode) : nested e = [] := by
  cases e with
  | constant => simp [nested]
  | collection | assign | other => cases he

end Bentobox.Sdk.Constants
