import MailKeep.Frontend.FolderTree

/-! What a check mark on a folder of the tree does to the folders below it. -/
namespace MailKeep
open Relation

def FolderNode.mark (value : Bool) (n : FolderNode) : FolderNode := { n with selected := value }

namespace FolderTree

/-- From the first node the chain of parents reaches the second. -/
def Below (t : FolderTree) (d i : Nat) : Prop := TransGen (fun c p => t.parent? c = some p) d i

/-- The trees differ at most in what is selected. -/
def SameShape (t u : FolderTree) : Prop := t.nodes.map (·.mark false) = u.nodes.map (·.mark false)

variable {t u : FolderTree} {i j d : Nat} {value : Bool} {ds : List Nat}

theorem IsForest.transGen_child_iff (h : t.IsForest) : TransGen (Forest.Child t.children?) i d ↔ t.Below d i := by
  have same : Forest.Child t.children? = Function.swap fun c p => t.parent? c = some p := by
    funext p c
    exact propext (h.inverse c p).symm
  rw [same, transGen_swap]
  rfl

private theorem children?_isSome : (t.children? i).isSome ↔ i < t.nodes.length := by
  rw [children?, Option.isSome_map, isSome_getElem?]

/-- The walk ends, and no deeper walk finds more. -/
private theorem IsForest.descend_all (h : t.IsForest) (there : i < t.nodes.length) : ∃ ds,
    (∀ depth, t.nodes.length ≤ depth → Forest.descend t.children? depth i [] = some ds) ∧
      ∀ d, d ∈ ds ↔ t.Below d i := by
  have ranked : ∀ p c, Forest.Child t.children? p c →
      (t.children? c).isSome ∧ t.nodes.length - 1 - c < t.nodes.length - 1 - p := by
    intro p c child
    have parent := (h.inverse c p).mpr child
    have earlier := h.earlier c p parent
    have present := parent?_lt parent
    exact ⟨children?_isSome.mpr present, by omega⟩
  have enough : t.nodes.length - 1 - i < t.nodes.length := by omega
  obtain ⟨ds, all⟩ := Option.isSome_iff_exists.mp
    (@Forest.descend_isSome _ _ _ _ [] _ ranked (children?_isSome.mpr there) enough)
  refine ⟨ds, fun depth more => Forest.descend_mono all more, ?_⟩
  intro d
  rw [Forest.mem_descend all, h.transGen_child_iff]
  simp

theorem SameShape.trans {v : FolderTree} (h₁ : t.SameShape u) (h₂ : u.SameShape v) : t.SameShape v := Eq.trans h₁ h₂

theorem SameShape.node (h : t.SameShape u) (i : Nat) :
    t.nodes[i]?.map (·.mark false) = u.nodes[i]?.map (·.mark false) := by
  rw [← List.getElem?_map, ← List.getElem?_map, h]

theorem SameShape.length (h : t.SameShape u) : t.nodes.length = u.nodes.length := by
  simpa using congrArg List.length h

theorem SameShape.children? (h : t.SameShape u) : t.children? = u.children? := by
  funext i
  have node := congrArg (Option.map FolderNode.children) (h.node i)
  rwa [Option.map_map, Option.map_map] at node

theorem SameShape.parent? (h : t.SameShape u) : t.parent? = u.parent? := by
  funext i
  have node := congrArg (fun n => Option.bind n FolderNode.parent) (h.node i)
  simp only [Option.bind_map] at node
  exact node

theorem SameShape.isForest (h : t.SameShape u) (forest : u.IsForest) : t.IsForest := by
  constructor
  · rw [h.parent?]
    exact forest.earlier
  · rw [h.parent?, h.children?]
    exact forest.inverse
  · rw [h.children?]
    exact forest.once

theorem SameShape.descendants (h : t.SameShape u) : t.descendants i = u.descendants i := by
  rw [FolderTree.descendants, FolderTree.descendants, h.children?, h.length]

private theorem select_getElem? : (t.select value i).nodes[j]? =
    t.nodes[j]?.map fun n => if j = i then n.mark value else n := by
  change (t.nodes.modify i (·.mark value))[j]? = _
  rw [List.getElem?_modify]
  simp only [eq_comm]
  rfl

private theorem foldl_select_getElem? : (ds.foldl (select value) t).nodes[j]? =
    t.nodes[j]?.map fun n => if j ∈ ds then n.mark value else n := by
  induction ds generalizing t with
  | nil => simp
  | cons d ds ih =>
    rw [List.foldl_cons, ih, select_getElem?, Option.map_map]
    apply Option.map_congr
    intro n _
    simp only [Function.comp_apply, List.mem_cons]
    by_cases this : j = d <;> by_cases later : j ∈ ds <;> simp [this, later, FolderNode.mark]

theorem foldl_select_sameShape : (ds.foldl (select value) t).SameShape t := by
  apply List.ext_getElem?
  intro j
  rw [List.getElem?_map, foldl_select_getElem?, Option.map_map, List.getElem?_map]
  apply Option.map_congr
  intro n _
  change FolderNode.mark false (if j ∈ ds then n.mark value else n) = n.mark false
  split <;> rfl

private theorem setSubtree_eq : t.setSubtree i value =
    (t.descendants i).map fun ds => (i :: ds).foldl (select value) t := by
  have same : (t.select value i).SameShape t := @foldl_select_sameShape t value [i]
  rw [setSubtree]
  simp only [same.descendants]
  cases t.descendants i <;> rfl

/-- Indeterminate means that of the folders below that can be selected one is and one is not. -/
private theorem isIndeterminate_eq (walk : t.descendants i = some ds) : ∃ b, t.isIndeterminate i = some b ∧ (b = true ↔
    (∃ d ∈ ds, t.nodes[d]?.any (!·.noSelect) ∧ t.nodes[d]?.any (·.selected)) ∧
    ∃ d ∈ ds, t.nodes[d]?.any (!·.noSelect) ∧ ¬ t.nodes[d]?.any (·.selected)) := by
  unfold isIndeterminate
  rw [walk]
  refine ⟨_, rfl, ?_⟩
  generalize whole : (ds.filter fun d => t.nodes[d]?.any (!·.noSelect)) = selectable
  have mem : ∀ d, d ∈ selectable ↔ d ∈ ds ∧ t.nodes[d]?.any (!·.noSelect) := by
    intro d
    rw [← whole, List.mem_filter]
  have counted : (if selectable.isEmpty then false else
      decide (0 < (selectable.filter fun d => t.nodes[d]?.any (·.selected)).length) &&
        decide ((selectable.filter fun d => t.nodes[d]?.any (·.selected)).length < selectable.length)) = true ↔
      0 < (selectable.filter fun d => t.nodes[d]?.any (·.selected)).length ∧
        (selectable.filter fun d => t.nodes[d]?.any (·.selected)).length < selectable.length := by
    cases selectable with
    | nil => simp
    | cons d ds => simp only [List.isEmpty_cons, Bool.false_eq_true, if_false, Bool.and_eq_true, decide_eq_true_eq]
  rw [counted, List.length_filter_pos_iff, List.length_filter_lt_length_iff_exists]
  simp only [mem, and_assoc]

theorem IsForest.setSubtree_exact (h : t.IsForest) (there : i < t.nodes.length) (value : Bool) : ∃ t',
    t.setSubtree i value = some t' ∧ t'.SameShape t ∧ t'.isIndeterminate i = some false ∧
    (∀ j, j = i ∨ t.Below j i → t'.nodes[j]? = t.nodes[j]?.map (·.mark value)) ∧
    ∀ j, ¬ (j = i ∨ t.Below j i) → t'.nodes[j]? = t.nodes[j]? := by
  obtain ⟨ds, walk, below⟩ := h.descend_all there
  have walked : t.descendants i = some ds := walk _ (Nat.le_refl _)
  have shape : ((i :: ds).foldl (select value) t).SameShape t := foldl_select_sameShape
  have node : ∀ j, ((i :: ds).foldl (select value) t).nodes[j]? =
      t.nodes[j]?.map fun n => if j ∈ i :: ds then n.mark value else n := fun j => foldl_select_getElem?
  have mem : ∀ j, j ∈ i :: ds ↔ j = i ∨ t.Below j i := fun j => List.mem_cons.trans (or_congr_right (below j))
  have marked : ∀ j ∈ i :: ds, ((i :: ds).foldl (select value) t).nodes[j]? = t.nodes[j]?.map (·.mark value) := by
    intro j inside
    simp only [node, if_pos inside]
  refine ⟨_, setSubtree_eq.trans (congrArg _ walked), shape, ?_, ?_, ?_⟩
  · obtain ⟨b, result, mixed⟩ := isIndeterminate_eq (shape.descendants.trans walked)
    have even : ¬ b = true := by
      rw [mixed]
      rintro ⟨⟨d, hd, -, chosen⟩, e, he, can, free⟩
      rw [marked d (List.mem_cons_of_mem _ hd), Option.any_map] at chosen
      rw [marked e (List.mem_cons_of_mem _ he), Option.any_map] at can free
      -- one folder of the subtree says what has been given to all of them
      have given : value = true := by
        obtain ⟨n, -, chosen⟩ := (Option.any_eq_true ..).mp chosen
        exact chosen
      obtain ⟨n, here, -⟩ := (Option.any_eq_true ..).mp can
      exact free ((Option.any_eq_true ..).mpr ⟨n, here, given⟩)
    rw [result, Bool.eq_false_of_not_eq_true even]
  · intro j inside
    exact marked j ((mem j).mpr inside)
  · intro j outside
    simp only [node, if_neg (outside ∘ (mem j).mp), Option.map_id']

/-- The tree is a forest over the folders listed, in some order: the walk down from a node ends, under one delimiter the
parents are the listed folders before the last delimiter, and whatever has been selected meanwhile a check mark reaches
just the node and those below it, which leaves the node determinate. -/
theorem build_forest (folders : List RemoteFolderDto) :
    ((build folders).nodes.map FolderNode.row).Perm (folders.map RemoteFolderDto.row) ∧
    (build folders).IsForest ∧
    (∀ i < (build folders).nodes.length, ∃ ds, (build folders).descendants i = some ds ∧
      (∀ depth, (build folders).nodes.length ≤ depth → Forest.descend (build folders).children? depth i [] = some ds) ∧
      ∀ d, d ∈ ds ↔ (build folders).Below d i) ∧
    (∀ delim, delim ≠ "" → (∀ f ∈ folders, f.delim = delim) → ∀ i n, (build folders).nodes[i]? = some n →
      (((build folders).parent? i).isSome ↔ ∃ g ∈ folders, ∃ name, LastDelimiter delim g.path name n.path) ∧
      ∀ p, (build folders).parent? i = some p →
        ∃ m name, (build folders).nodes[p]? = some m ∧ LastDelimiter delim m.path name n.path) ∧
    ∀ t : FolderTree, t.SameShape (build folders) → ∀ i < t.nodes.length, ∀ value, ∃ t',
      t.setSubtree i value = some t' ∧ t'.SameShape (build folders) ∧ t'.isIndeterminate i = some false ∧
      (∀ j, j = i ∨ (build folders).Below j i → t'.nodes[j]? = t.nodes[j]?.map (·.mark value)) ∧
      ∀ j, ¬ (j = i ∨ (build folders).Below j i) → t'.nodes[j]? = t.nodes[j]? := by
  have forest := build_isForest folders
  refine ⟨build_rows folders, forest, ?_, ?_, ?_⟩
  · intro i there
    obtain ⟨ds, walk, below⟩ := forest.descend_all there
    exact ⟨ds, walk _ (Nat.le_refl _), walk, below⟩
  · intro delim nonempty shared i n here
    exact build_parent? nonempty shared here
  · intro t shape i there value
    obtain ⟨t', set, same, even, inside, outside⟩ := (shape.isForest forest).setSubtree_exact there value
    have chains : t.Below = (build folders).Below := by
      unfold Below
      rw [shape.parent?]
    rw [chains] at inside outside
    exact ⟨t', set, same.trans shape, even, inside, outside⟩

end FolderTree

end MailKeep
