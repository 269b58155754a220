import MailKeep.Forest.Descent
import MailKeep.Scan.Split
import Mathlib.Data.List.Sort
import Mathlib.Logic.Function.Basic

/-! The tree of the folders a server lists, as the dialog for a new account shows it. -/
namespace MailKeep
open Relation

structure RemoteFolderDto where
  path : String
  specialUse : Option String
  hasChildren : Bool
  noSelect : Bool
  delimiter : Option String
deriving DecidableEq

structure FolderNode where
  path : String
  name : String
  specialUse : Option String
  noSelect : Bool
  depth : Nat
  parent : Option Nat
  children : List Nat
  selected : Bool
deriving DecidableEq

structure FolderTree where
  nodes : List FolderNode
deriving DecidableEq

def splitPath (path delim : String) : List String :=
  if delim = "" then [path] else (Scan.split delim.toList path.toList).map String.ofList

namespace RemoteFolderDto

def delim (f : RemoteFolderDto) : String := f.delimiter.getD "/"

def segs (f : RemoteFolderDto) : List String := splitPath f.path f.delim

def parentPath? (f : RemoteFolderDto) : Option String :=
  if f.segs.length > 1 then some (f.delim.intercalate f.segs.dropLast) else none

end RemoteFolderDto

def FolderNode.addChild (idx : Nat) (n : FolderNode) : FolderNode := { n with children := n.children ++ [idx] }

/-- The nodes so far, and the index of the last one with each path. -/
structure TreeBuilder where
  nodes : List FolderNode
  pathToIdx : String → Option Nat

namespace TreeBuilder

def parentOf (b : TreeBuilder) (f : RemoteFolderDto) : Option Nat := f.parentPath?.bind b.pathToIdx

def newNode (b : TreeBuilder) (f : RemoteFolderDto) : FolderNode where
  path := f.path
  name := f.segs.getLast?.getD f.path
  specialUse := f.specialUse
  noSelect := f.noSelect
  depth := f.segs.length - 1
  parent := b.parentOf f
  children := []
  selected := false

def add (b : TreeBuilder) (f : RemoteFolderDto) : TreeBuilder where
  nodes := (match b.parentOf f with
    | some p => b.nodes.modify p (·.addChild b.nodes.length)
    | none => b.nodes) ++ [b.newNode f]
  pathToIdx := Function.update b.pathToIdx f.path (some b.nodes.length)

end TreeBuilder

def before (x y : RemoteFolderDto × Nat) : Bool :=
  x.1.segs.length < y.1.segs.length || x.1.segs.length = y.1.segs.length && decide (x.2 ≤ y.2)

def sortFolders (folders : List RemoteFolderDto) : List RemoteFolderDto :=
  (folders.zipIdx.mergeSort before).map Prod.fst

namespace FolderTree

def build (folders : List RemoteFolderDto) : FolderTree :=
  ⟨((sortFolders folders).foldl TreeBuilder.add ⟨[], fun _ => none⟩).nodes⟩

def children? (t : FolderTree) (idx : Nat) : Option (List Nat) := t.nodes[idx]?.map (·.children)

def parent? (t : FolderTree) (idx : Nat) : Option Nat := t.nodes[idx]?.bind (·.parent)

/-- No more nodes are passed on a way down than there are. -/
def descendants (t : FolderTree) (idx : Nat) : Option (List Nat) := Forest.descend t.children? t.nodes.length idx []

def select (value : Bool) (t : FolderTree) (idx : Nat) : FolderTree :=
  ⟨t.nodes.modify idx fun n => { n with selected := value }⟩

def setSubtree (t : FolderTree) (idx : Nat) (value : Bool) : Option FolderTree := do
  let t := t.select value idx
  let ds ← t.descendants idx
  return ds.foldl (select value) t

def isIndeterminate (t : FolderTree) (idx : Nat) : Option Bool := do
  let ds ← t.descendants idx
  let selectable := ds.filter fun d => t.nodes[d]?.any (!·.noSelect)
  let sel := (selectable.filter fun d => t.nodes[d]?.any (·.selected)).length
  return if selectable.isEmpty then false else 0 < sel && sel < selectable.length

/-- A node's parent stands before it and lists it, and lists nothing else. -/
structure IsForest (t : FolderTree) : Prop where
  earlier : ∀ c p, t.parent? c = some p → p < c
  inverse : ∀ c p, t.parent? c = some p ↔ ∃ cs, t.children? p = some cs ∧ c ∈ cs
  once : ∀ p cs, t.children? p = some cs → cs.Nodup

theorem parent?_lt {t : FolderTree} {c p : Nat} (h : t.parent? c = some p) : c < t.nodes.length := by
  obtain ⟨n, there, -⟩ := Option.bind_eq_some_iff.mp h
  exact (List.getElem?_eq_some_iff.mp there).1

end FolderTree

def FolderNode.row (n : FolderNode) : String × Option String × Bool := (n.path, n.specialUse, n.noSelect)

def RemoteFolderDto.row (f : RemoteFolderDto) : String × Option String × Bool := (f.path, f.specialUse, f.noSelect)

namespace TreeBuilder

def tree (b : TreeBuilder) : FolderTree := ⟨b.nodes⟩

structure Grown (b : TreeBuilder) (done : List RemoteFolderDto) : Prop where
  rows : b.nodes.map FolderNode.row = done.map RemoteFolderDto.row
  forest : b.tree.IsForest
  found : ∀ path j, b.pathToIdx path = some j → ∃ n, b.nodes[j]? = some n ∧ n.path = path
  known : ∀ f ∈ done, (b.pathToIdx f.path).isSome
  linked : ∀ i f, done[i]? = some f → ((b.tree.parent? i).isSome ↔ ∃ g ∈ done.take i, f.parentPath? = some g.path)
  named : ∀ i f p, done[i]? = some f → b.tree.parent? i = some p → ∃ n, b.nodes[p]? = some n ∧
    f.parentPath? = some n.path

variable {b : TreeBuilder} {done : List RemoteFolderDto} {f : RemoteFolderDto}

theorem Grown.length (h : b.Grown done) : b.nodes.length = done.length := by
  simpa using congrArg List.length h.rows

private theorem Grown.parentOf_lt (h : b.Grown done) {p : Nat} (parent : b.parentOf f = some p) :
    p < b.nodes.length := by
  obtain ⟨path, -, hp⟩ := Option.bind_eq_some_iff.mp parent
  obtain ⟨n, there, -⟩ := h.found path p hp
  exact (List.getElem?_eq_some_iff.mp there).1

/-- The new node comes last, and its parent has one child more. -/
theorem add_getElem? (i : Nat) : (b.add f).nodes[i]? =
    if i < b.nodes.length then
      b.nodes[i]?.map fun n => if b.parentOf f = some i then n.addChild b.nodes.length else n
    else if i = b.nodes.length then some (b.newNode f) else none := by
  have old : ∃ nodes : List FolderNode, (b.add f).nodes = nodes ++ [b.newNode f] ∧ nodes.length = b.nodes.length ∧
      nodes[i]? = b.nodes[i]?.map fun n => if b.parentOf f = some i then n.addChild b.nodes.length else n := by
    cases parent : b.parentOf f with
    | none => exact ⟨b.nodes, by simp only [add, parent], rfl, by simp⟩
    | some p =>
      refine ⟨b.nodes.modify p (·.addChild b.nodes.length), by simp only [add, parent], List.length_modify .., ?_⟩
      simp only [List.getElem?_modify, Option.some.injEq]
      rfl
  obtain ⟨nodes, whole, length, old⟩ := old
  rw [whole, List.getElem?_append, length, old]
  split
  · rfl
  · rename_i later
    rw [List.getElem?_singleton]
    split
    · rw [if_pos (by omega)]
    · rw [if_neg (by omega)]

private theorem add_parent? (c : Nat) : (b.add f).tree.parent? c =
    if c < b.nodes.length then b.tree.parent? c else if c = b.nodes.length then b.parentOf f else none := by
  unfold FolderTree.parent? tree
  rw [add_getElem?]
  split
  · cases b.nodes[c]? with
    | none => rfl
    | some n =>
      change (if b.parentOf f = some c then n.addChild b.nodes.length else n).parent = n.parent
      split <;> rfl
  · split <;> rfl

private theorem add_children? (p : Nat) : (b.add f).tree.children? p =
    if p < b.nodes.length then
      (b.tree.children? p).map fun cs => if b.parentOf f = some p then cs ++ [b.nodes.length] else cs
    else if p = b.nodes.length then some [] else none := by
  unfold FolderTree.children? tree
  rw [add_getElem?]
  split
  · cases b.nodes[p]? with
    | none => rfl
    | some n =>
      change some (if b.parentOf f = some p then n.addChild b.nodes.length else n).children = _
      split
      · simp
        rfl
      · simp
  · split <;> rfl

private theorem children?_of_lt {p : Nat} (h : p < b.nodes.length) : ∃ cs, b.tree.children? p = some cs :=
  ⟨_, congrArg (Option.map FolderNode.children) (List.getElem?_eq_getElem h)⟩

/-- The children of a node of before. -/
private theorem add_children?_old {p : Nat} {cs : List Nat} (h : b.tree.children? p = some cs) :
    (b.add f).tree.children? p = some (if b.parentOf f = some p then cs ++ [b.nodes.length] else cs) := by
  have old : p < b.nodes.length := by
    obtain ⟨n, there, -⟩ := Option.map_eq_some_iff.mp h
    exact (List.getElem?_eq_some_iff.mp there).1
  rw [add_children?, if_pos old, h]
  rfl

private theorem add_parent?_old {c : Nat} (h : c < b.nodes.length) : (b.add f).tree.parent? c = b.tree.parent? c := by
  rw [add_parent?, if_pos h]

private theorem add_parent?_new : (b.add f).tree.parent? b.nodes.length = b.parentOf f := by
  rw [add_parent?, if_neg (Nat.lt_irrefl _), if_pos rfl]

/-- Who has children now had them before, or is new and has none. -/
private theorem add_children?_cases {p : Nat} {cs : List Nat} (h : (b.add f).tree.children? p = some cs) :
    cs = [] ∨ ∃ old, b.tree.children? p = some old ∧ cs = if b.parentOf f = some p then old ++
      [b.nodes.length] else old := by
  rw [add_children?] at h
  split at h
  · obtain ⟨old, there, rfl⟩ := Option.map_eq_some_iff.mp h
    exact .inr ⟨old, there, rfl⟩
  · split at h <;> cases h
    exact .inl rfl

private theorem add_parent?_cases {c p : Nat} (h : (b.add f).tree.parent? c = some p) :
    b.tree.parent? c = some p ∨ c = b.nodes.length ∧ b.parentOf f = some p := by
  rw [add_parent?] at h
  split at h
  · exact .inl h
  · split at h
    · rename_i new
      exact .inr ⟨new, h⟩
    · cases h

/-- A parent and its child in the new tree: both are of before, or the child is new. -/
private theorem add_inverse (h : b.tree.IsForest) (there : ∀ p, b.parentOf f = some p → p < b.nodes.length)
    (c p : Nat) :
    (b.add f).tree.parent? c = some p ↔ ∃ cs, (b.add f).tree.children? p = some cs ∧ c ∈ cs := by
  constructor
  · intro linked
    rcases add_parent?_cases linked with parent | ⟨rfl, parent⟩
    · obtain ⟨cs, hcs, mem⟩ := (h.inverse c p).mp parent
      refine ⟨_, add_children?_old hcs, ?_⟩
      split
      · exact List.mem_append_left _ mem
      · exact mem
    · obtain ⟨cs, hcs⟩ := children?_of_lt (there p parent)
      refine ⟨_, add_children?_old hcs, ?_⟩
      rw [if_pos parent]
      exact List.mem_append_right _ List.mem_cons_self
  · rintro ⟨cs, hcs, mem⟩
    rcases add_children?_cases hcs with rfl | ⟨old, hold, rfl⟩
    · exact absurd mem List.not_mem_nil
    · have kept : c ∈ old → (b.add f).tree.parent? c = some p := by
        intro mem
        have parent := (h.inverse c p).mpr ⟨old, hold, mem⟩
        rw [add_parent?_old (FolderTree.parent?_lt parent), parent]
      split at mem
      · rename_i parent
        rcases List.mem_append.mp mem with mem | mem
        · exact kept mem
        · rw [List.mem_singleton.mp mem, add_parent?_new]
          exact parent
      · exact kept mem

/-- The forest grows by a node whose parent is there already. -/
private theorem isForest_add (h : b.tree.IsForest) (there : ∀ p, b.parentOf f = some p → p < b.nodes.length) :
    (b.add f).tree.IsForest := by
  refine ⟨?_, add_inverse h there, ?_⟩
  · intro c p linked
    rcases add_parent?_cases linked with parent | ⟨rfl, parent⟩
    · exact h.earlier c p parent
    · exact there p parent
  · intro p cs hcs
    rcases add_children?_cases hcs with rfl | ⟨old, hold, rfl⟩
    · exact List.nodup_nil
    · split
      · have fresh : b.nodes.length ∉ old := by
          intro mem
          exact Nat.lt_irrefl _ (FolderTree.parent?_lt ((h.inverse _ p).mpr ⟨old, hold, mem⟩))
        have single := List.nodup_singleton b.nodes.length
        exact (h.once p old hold).append single (List.disjoint_singleton.mpr fresh)
      · exact h.once p old hold

/-- A folder's parent is there if its path is among those taken. -/
private theorem Grown.parentOf_isSome (h : b.Grown done) :
    (b.parentOf f).isSome ↔ ∃ g ∈ done, f.parentPath? = some g.path := by
  constructor
  · intro parent
    obtain ⟨j, hj⟩ := Option.isSome_iff_exists.mp parent
    obtain ⟨path, before, index⟩ := Option.bind_eq_some_iff.mp hj
    obtain ⟨n, there, rfl⟩ := h.found path j index
    have row : n.row ∈ done.map RemoteFolderDto.row := h.rows ▸ List.mem_map_of_mem (List.mem_of_getElem? there)
    obtain ⟨g, hg, same⟩ := List.mem_map.mp row
    exact ⟨g, hg, before.trans (congrArg some (congrArg Prod.fst same).symm)⟩
  · rintro ⟨g, hg, before⟩
    rw [parentOf, before]
    exact h.known g hg

/-- A node of before keeps all but its children. -/
private theorem add_getElem?_old {i : Nat} {n : FolderNode} (here : b.nodes[i]? = some n) :
    ∃ m, (b.add f).nodes[i]? = some m ∧ m.row = n.row := by
  rw [add_getElem?, if_pos (List.getElem?_eq_some_iff.mp here).1, here]
  refine ⟨_, rfl, ?_⟩
  split <;> rfl

private theorem add_getElem?_new : (b.add f).nodes[b.nodes.length]? = some (b.newNode f) := by
  rw [add_getElem?, if_neg (Nat.lt_irrefl _), if_pos rfl]

private theorem Grown.add_rows (h : b.Grown done) : (b.add f).nodes.map FolderNode.row =
    (done ++ [f]).map RemoteFolderDto.row := by
  rw [List.map_append, ← h.rows]
  apply List.ext_getElem?
  intro i
  rw [List.getElem?_map, add_getElem?, List.getElem?_append, List.length_map]
  split
  · rename_i old
    obtain ⟨m, here, same⟩ := @add_getElem?_old b f i _ (List.getElem?_eq_getElem old)
    rw [add_getElem?, if_pos old] at here
    rw [here, List.getElem?_map, List.getElem?_eq_getElem old]
    exact congrArg some same
  · rw [List.map_singleton, List.getElem?_singleton]
    split
    · rw [if_pos (by omega)]
      rfl
    · rw [if_neg (by omega)]
      rfl

private theorem Grown.add_found (h : b.Grown done) {path : String} {j : Nat}
    (index : (b.add f).pathToIdx path = some j) :
    ∃ n, (b.add f).nodes[j]? = some n ∧ n.path = path := by
  change Function.update b.pathToIdx f.path (some b.nodes.length) path = some j at index
  rw [Function.update_apply] at index
  split at index
  · rename_i own
    cases index
    exact ⟨_, add_getElem?_new, own.symm⟩
  · obtain ⟨n, there, rfl⟩ := h.found path j index
    obtain ⟨m, here, same⟩ := @add_getElem?_old b f j n there
    exact ⟨m, here, congrArg Prod.fst same⟩

private theorem Grown.add_known (h : b.Grown done) {g : RemoteFolderDto} (mem : g ∈ done ++ [f]) :
    ((b.add f).pathToIdx g.path).isSome := by
  change (Function.update b.pathToIdx f.path (some b.nodes.length) g.path).isSome
  rw [Function.update_apply]
  split
  · rfl
  · rename_i other
    rcases List.mem_append.mp mem with mem | mem
    · exact h.known g mem
    · exact absurd (congrArg RemoteFolderDto.path (List.mem_singleton.mp mem)) other

/-- A folder taken is one of before or the new one. -/
theorem Grown.taken (h : b.Grown done) {i : Nat} {g : RemoteFolderDto} (there : (done ++ [f])[i]? = some g) :
    i < b.nodes.length ∧ done[i]? = some g ∨ i = b.nodes.length ∧ g = f := by
  rw [List.getElem?_append, ← h.length, List.getElem?_singleton] at there
  split at there
  · rename_i old
    exact .inl ⟨old, there⟩
  · split at there
    · cases there
      exact .inr ⟨by omega, rfl⟩
    · cases there

/-- One step keeps what the loop has made of the folders. -/
theorem Grown.add (h : b.Grown done) : (b.add f).Grown (done ++ [f]) := by
  have length := h.length
  refine ⟨h.add_rows, isForest_add h.forest fun p => h.parentOf_lt, fun path j => h.add_found, fun g => h.add_known, ?_, ?_⟩
  · intro i g there
    rcases h.taken there with ⟨old, there⟩ | ⟨rfl, rfl⟩
    · rw [add_parent?_old old, List.take_append_of_le_length (by omega)]
      exact h.linked i g there
    · rw [add_parent?_new, length, List.take_left' rfl]
      exact h.parentOf_isSome
  · intro i g p there parent
    have earlier : ∃ n, b.nodes[p]? = some n ∧ g.parentPath? = some n.path := by
      rcases h.taken there with ⟨old, there⟩ | ⟨rfl, rfl⟩
      · exact h.named i g p there (add_parent?_old old ▸ parent)
      · rw [add_parent?_new] at parent
        obtain ⟨path, before, index⟩ := Option.bind_eq_some_iff.mp parent
        obtain ⟨n, here, rfl⟩ := h.found path p index
        exact ⟨n, here, before⟩
    obtain ⟨n, here, before⟩ := earlier
    obtain ⟨m, here, same⟩ := @add_getElem?_old b f p n here
    exact ⟨m, here, before.trans (congrArg some (congrArg Prod.fst same).symm)⟩

private theorem grown_foldl (h : b.Grown done) (rest : List RemoteFolderDto) :
    (rest.foldl TreeBuilder.add b).Grown (done ++ rest) := by
  induction rest generalizing b done with
  | nil => rwa [List.append_nil]
  | cons f rest ih =>
    have all := ih (h.add (f := f))
    rwa [List.append_assoc] at all

private theorem grown_nil : (⟨[], fun _ => none⟩ : TreeBuilder).Grown [] := by
  refine ⟨rfl, ⟨?_, ?_, ?_⟩, ?_, ?_, ?_, ?_⟩
  · intro c p parent
    cases parent
  · intro c p
    constructor
    · intro parent
      cases parent
    · rintro ⟨cs, hcs, -⟩
      cases hcs
  · intro p cs hcs
    cases hcs
  · intro path j index
    cases index
  · exact nofun
  · intro i f there
    cases there
  · intro i f p there
    cases there

end TreeBuilder

theorem sortFolders_perm (folders : List RemoteFolderDto) : (sortFolders folders).Perm folders := by
  have sorted := (List.mergeSort_perm folders.zipIdx before).map Prod.fst
  rwa [List.zipIdx_map_fst] at sorted

private theorem sortFolders_pairwise (folders : List RemoteFolderDto) :
    (sortFolders folders).Pairwise fun f g => f.segs.length ≤ g.segs.length := by
  have trans : ∀ x y z, before x y = true → before y z = true → before x z = true := by
    intro x y z
    simp only [before, Bool.or_eq_true, Bool.and_eq_true, decide_eq_true_eq]
    omega
  have total : ∀ x y, (before x y || before y x) = true := by
    intro x y
    simp only [before, Bool.or_eq_true, Bool.and_eq_true, decide_eq_true_eq]
    omega
  apply List.pairwise_map.mpr
  apply (List.pairwise_mergeSort trans total folders.zipIdx).imp
  intro x y first
  simp only [before, Bool.or_eq_true, Bool.and_eq_true, decide_eq_true_eq] at first
  omega

section
variable {path delim : String} {segs : List String} {last : String}

private theorem toList_ne_nil (some : delim ≠ "") : delim.toList ≠ [] := fun none => some
    (String.toList_eq_nil_iff.mp none)

theorem splitPath_toList (some : delim ≠ "") :
    (splitPath path delim).map String.toList = Scan.split delim.toList path.toList := by
  rw [splitPath, if_neg some, List.map_map]
  apply (List.map_congr_left _).trans (List.map_id _)
  intro s _
  exact String.toList_ofList

private theorem intercalate_splitPath (some : delim ≠ "") : delim.intercalate (splitPath path delim) = path := by
  apply String.toList_injective
  rw [String.toList_intercalate, splitPath_toList some, Scan.intercalate_split (toList_ne_nil some)]

private theorem splitPath_ne_nil (some : delim ≠ "") : splitPath path delim ≠ [] := by
  rw [splitPath, if_neg some]
  simpa using Scan.split_ne_nil (toList_ne_nil some) path.toList

/-- The path before the last delimiter has the same segments without the last. -/
private theorem splitPath_before_last (some : delim ≠ "") (whole : splitPath path delim = segs ++ [last])
    (more : segs ≠ []) :
    splitPath (delim.intercalate segs) delim = segs := by
  have pieces : Scan.split delim.toList path.toList = segs.map String.toList ++ [last.toList] := by
    rw [← splitPath_toList some, whole, List.map_append]
    rfl
  have front := Scan.split_before_last (toList_ne_nil some) pieces (by simpa using more)
  have injective : Function.Injective String.toList := fun _ _ same => String.toList_injective same
  apply List.map_injective_iff.mpr injective
  rw [splitPath_toList some, String.toList_intercalate, front]

/-- The last segment comes after the last delimiter: it has none in it. -/
private theorem not_infix_last (some : delim ≠ "") (whole : splitPath path delim = segs ++ [last]) :
    ¬ delim.toList <:+: last.toList := by
  have piece : last.toList ∈ Scan.split delim.toList path.toList := by
    rw [← splitPath_toList some, whole]
    exact List.mem_map_of_mem (List.mem_append_right _ List.mem_cons_self)
  exact Scan.not_infix_of_mem_split (toList_ne_nil some) piece

end

/-- The front path, a delimiter and the name make up the path, and the delimiter is the last one of the path. -/
structure LastDelimiter (delim front name path : String) : Prop where
  whole : path = front ++ delim ++ name
  segs : splitPath path delim = splitPath front delim ++ [name]
  last : ¬ delim.toList <:+: name.toList

private theorem RemoteFolderDto.parentPath?_eq_some {f : RemoteFolderDto} {front : String} (nonempty : f.delim ≠ "") :
    f.parentPath? = some front ↔ ∃ name, LastDelimiter f.delim front name f.path := by
  constructor
  · intro h
    unfold parentPath? at h
    split at h
    · rename_i more
      cases h
      have segs : f.segs ≠ [] := splitPath_ne_nil nonempty
      have split : splitPath f.path f.delim = f.segs.dropLast ++ [f.segs.getLast segs] :=
        (List.dropLast_append_getLast segs).symm
      have front : f.segs.dropLast ≠ [] := by
        apply List.length_pos_iff.mp
        rw [List.length_dropLast]
        omega
      refine ⟨f.segs.getLast segs, ?_, ?_, not_infix_last nonempty split⟩
      · rw [← String.intercalate_singleton (s := f.delim) (t := f.segs.getLast segs),
          ← String.intercalate_append_of_ne_nil front (List.cons_ne_nil _ _), ← split,
            intercalate_splitPath nonempty]
      · rw [splitPath_before_last nonempty split front, split]
    · cases h
  · rintro ⟨name, -, segs, -⟩
    have before : 0 < (splitPath front f.delim).length := List.length_pos_iff.mpr (splitPath_ne_nil nonempty)
    have whole : f.segs = splitPath front f.delim ++ [name] := segs
    rw [parentPath?, whole, if_pos, List.dropLast_concat, intercalate_splitPath nonempty]
    rw [List.length_append, List.length_singleton]
    omega

namespace FolderTree

private theorem build_grown (folders : List RemoteFolderDto) :
    ∃ b : TreeBuilder, b.tree = build folders ∧ b.Grown (sortFolders folders) :=
  ⟨_, rfl, TreeBuilder.grown_foldl TreeBuilder.grown_nil _⟩

theorem build_rows (folders : List RemoteFolderDto) :
    ((build folders).nodes.map FolderNode.row).Perm (folders.map RemoteFolderDto.row) := by
  obtain ⟨b, tree, grown⟩ := build_grown folders
  rw [← tree]
  change (b.nodes.map FolderNode.row).Perm _
  rw [grown.rows]
  exact (sortFolders_perm folders).map RemoteFolderDto.row

theorem build_isForest (folders : List RemoteFolderDto) : (build folders).IsForest := by
  obtain ⟨b, tree, grown⟩ := build_grown folders
  exact tree ▸ grown.forest

/-- A node comes from a listed folder, and has a parent if the folder before its last delimiter was taken before. -/
private theorem build_linked {folders : List RemoteFolderDto} {i : Nat} {n : FolderNode}
    (here : (build folders).nodes[i]? = some n) :
    ∃ f, (sortFolders folders)[i]? = some f ∧ f.path = n.path ∧
      (((build folders).parent? i).isSome ↔ ∃ g ∈ (sortFolders folders).take i, f.parentPath? = some g.path) ∧
      ∀ p, (build folders).parent? i = some p → ∃ m, (build folders).nodes[p]? = some m ∧
        f.parentPath? = some m.path := by
  obtain ⟨b, tree, grown⟩ := build_grown folders
  rw [← tree] at here ⊢
  have row : (b.nodes.map FolderNode.row)[i]? = some n.row := by
    rw [List.getElem?_map]
    exact congrArg (Option.map FolderNode.row) here
  rw [grown.rows, List.getElem?_map] at row
  obtain ⟨f, there, same⟩ := Option.map_eq_some_iff.mp row
  exact ⟨f, there, congrArg Prod.fst same, grown.linked i f there, fun p => grown.named i f p there⟩

variable {folders : List RemoteFolderDto} {delim : String}

/-- Under one delimiter the folder before the last delimiter has fewer segments, so it is taken before. -/
private theorem mem_take_of_parentPath? (nonempty : delim ≠ "") (shared : ∀ f ∈ folders, f.delim = delim) {i : Nat}
    {f g : RemoteFolderDto} (here : (sortFolders folders)[i]? = some f) (listed : g ∈ folders)
    (parent : f.parentPath? = some g.path) : g ∈ (sortFolders folders).take i := by
  have same : ∀ x ∈ sortFolders folders, x.delim = delim := fun x mem =>
    shared x ((sortFolders_perm folders).mem_iff.mp mem)
  have own : f.delim = delim := same f (List.mem_of_getElem? here)
  obtain ⟨name, last⟩ := (RemoteFolderDto.parentPath?_eq_some (own ▸ nonempty)).mp parent
  have fewer : g.segs.length < f.segs.length := by
    rw [RemoteFolderDto.segs, RemoteFolderDto.segs, last.segs, own, shared g listed, List.length_append,
      List.length_singleton]
    omega
  obtain ⟨j, there⟩ := List.mem_iff_getElem?.mp ((sortFolders_perm folders).mem_iff.mpr listed)
  have before : j < i := by
    by_contra later
    rcases Nat.eq_or_lt_of_le (Nat.le_of_not_lt later) with rfl | later
    · cases here.symm.trans there
      exact Nat.lt_irrefl _ fewer
    · obtain ⟨hi, rfl⟩ := List.getElem?_eq_some_iff.mp here
      obtain ⟨hj, rfl⟩ := List.getElem?_eq_some_iff.mp there
      have ordered := List.pairwise_iff_getElem.mp (sortFolders_pairwise folders) i j hi hj later
      omega
  apply List.mem_of_getElem? (i := j)
  rw [List.getElem?_take, if_pos before, there]

theorem build_parent? (nonempty : delim ≠ "") (shared : ∀ f ∈ folders, f.delim = delim) {i : Nat} {n : FolderNode}
    (here : (build folders).nodes[i]? = some n) :
    (((build folders).parent? i).isSome ↔ ∃ g ∈ folders, ∃ name, LastDelimiter delim g.path name n.path) ∧
    ∀ p, (build folders).parent? i = some p →
      ∃ m name, (build folders).nodes[p]? = some m ∧ LastDelimiter delim m.path name n.path := by
  obtain ⟨f, there, path, linked, named⟩ := build_linked here
  have own : f.delim = delim := shared f ((sortFolders_perm folders).mem_iff.mp (List.mem_of_getElem? there))
  have front : ∀ {q}, f.parentPath? = some q ↔ ∃ name, LastDelimiter delim q name n.path := by
    intro q
    rw [RemoteFolderDto.parentPath?_eq_some (own ▸ nonempty), own, path]
  constructor
  · rw [linked]
    constructor
    · rintro ⟨g, mem, parent⟩
      exact ⟨g, (sortFolders_perm folders).mem_iff.mp (List.mem_of_mem_take mem), front.mp parent⟩
    · rintro ⟨g, listed, last⟩
      have parent := front.mpr last
      exact ⟨g, mem_take_of_parentPath? nonempty shared there listed parent, parent⟩
  · intro p parent
    obtain ⟨m, present, before⟩ := named p parent
    obtain ⟨name, last⟩ := front.mp before
    exact ⟨m, name, present, last⟩

end FolderTree

end MailKeep
