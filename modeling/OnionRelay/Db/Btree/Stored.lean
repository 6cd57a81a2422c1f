import OnionRelay.Db.Btree.Ops
import OnionRelay.Lib.BPlusTree

/-!
# Trees on pages

`Stored` says that the pages of a store hold a tree.

* `run_descend`: the way down ends at the leaf on the way to the key.
* `Stored.congr`: only the pages of the tree matter.
* `Stored.replace`: another leaf on the page of the old one is another tree.
-/

namespace OnionRelay.Db

open OnionRelay.Lib

namespace BTreeShape

variable (shape : BTreeShape)

abbrev Entries : Type := List (shape.Key × shape.Value)

abbrev Nodes (h : Nat) : Type := PageTree Nat shape.Key shape.Value h

/-- The handle has the sizes and the comparison of the shape. -/
structure Fits (tree : BTree) : Prop where
  keySize : tree.metadata.keySize = shape.keySize
  valueSize : tree.metadata.valueSize = shape.valueSize
  keyType : tree.metadata.keyType = shape.keyType
  compare : tree.compare = btreeGetComparator shape.keyType

/-- The pages of the store hold the tree. -/
def Stored (s : FlatStore) : (h : Nat) → shape.Nodes h → Prop
  | 0, t => s.Live (Leaf.page t) ∧
    LeafPage shape (s.pages (Leaf.page t)) (Leaf.entries t) (Leaf.next t)
  | h + 1, t => s.Live (Node.page t) ∧
    InnerPage shape (s.pages (Node.page t)) (Node.row t).keys ((Node.row t).items.map PageTree.root) ∧
      ∀ c ∈ (Node.row t).items, Stored s h c

variable {shape}

namespace Fits

variable {tree : BTree} (htree : shape.Fits tree)

include htree

theorem keySize_eq : tree.keySize = shape.keySize := htree.keySize

theorem valueSize_eq : tree.valueSize = shape.valueSize := htree.valueSize

theorem maxLeaf_eq : tree.maxLeaf = shape.maxLeaf := by
  rw [BTree.maxLeaf, htree.keySize_eq, htree.valueSize_eq]

theorem maxInner_eq : tree.maxInner = shape.maxInner := by
  rw [BTree.maxInner, htree.keySize_eq]

end Fits

namespace Stored

variable {s s' : FlatStore} {h : Nat} {lo hi : Option shape.Key} {x : shape.Key}

@[simp] theorem leaf_iff {page next : Nat} {es : shape.Entries} :
    shape.Stored s 0 (PageTree.leaf page es next) ↔
      s.Live page ∧ LeafPage shape (s.pages page) es next := Iff.rfl

@[simp] theorem node_iff {page : Nat} {row : Row shape.Key (shape.Nodes h)} :
    shape.Stored s (h + 1) (PageTree.node page row) ↔ s.Live page ∧
      InnerPage shape (s.pages page) row.keys (row.items.map PageTree.root) ∧
        ∀ c ∈ row.items, shape.Stored s h c := Iff.rfl

theorem live_root : ∀ {h : Nat} {t : shape.Nodes h}, shape.Stored s h t → s.Live t.root
  | 0, _, ht => ht.1
  | _ + 1, _, ht => ht.1

theorem live_pages : ∀ {h : Nat} {t : shape.Nodes h}, shape.Stored s h t →
    ∀ pid ∈ t.pages h, s.Live pid := by
  intro h
  induction h with
  | zero =>
    intro t ht pid hpid
    obtain rfl := List.mem_singleton.mp hpid
    exact ht.1
  | succ h ih =>
    intro t ht pid hpid
    obtain ⟨page, row, rfl⟩ := t.exists_node
    obtain ⟨hlive, -, hitems⟩ := Stored.node_iff.mp ht
    rcases List.mem_cons.mp hpid with rfl | hmem
    · exact hlive
    · obtain ⟨c, hc, hpid⟩ := List.mem_flatMap.mp hmem
      exact ih (hitems c hc) pid hpid

theorem leafAt : ∀ {h : Nat} {t : shape.Nodes h}, shape.Stored s h t →
    shape.Stored s 0 (t.leafAt x h) := by
  intro h
  induction h with
  | zero => exact fun ht => ht
  | succ h ih =>
    intro t ht
    obtain ⟨page, row, rfl⟩ := t.exists_node
    exact ih (ht.2.2 _ (row.pick_mem x))

/-- **The frame rule.** -/
theorem congr : ∀ {h : Nat} {t : shape.Nodes h}, shape.Stored s h t →
    (∀ pid ∈ t.pages h, s'.pages pid = s.pages pid) → s.used ⊆ s'.used → shape.Stored s' h t := by
  intro h
  induction h with
  | zero =>
    intro t ht hpages hused
    refine ⟨ht.1.mono hused, ?_⟩
    rw [hpages _ List.mem_cons_self]
    exact ht.2
  | succ h ih =>
    intro t ht hpages hused
    obtain ⟨page, row, rfl⟩ := t.exists_node
    refine ⟨ht.1.mono hused, ?_, fun c hc => ih (ht.2.2 c hc) (fun pid hpid => ?_) hused⟩
    · rw [hpages _ List.mem_cons_self]
      exact ht.2.1
    · exact hpages pid (List.mem_cons_of_mem _ (List.mem_flatMap.mpr ⟨c, hc, hpid⟩))

/-- **Another leaf on the page of the leaf on the way to `x`.** -/
theorem replace {g : shape.Nodes 0 → Row shape.Key (shape.Nodes 0)} {leaf' : shape.Nodes 0}
    (hleaf : shape.Stored s' 0 leaf') (hused : s.used ⊆ s'.used) :
    ∀ {h : Nat} {t : shape.Nodes h}, shape.Stored s h t → (t.pages h).Nodup →
      g (t.leafAt x h) = .last leaf' → leaf'.root = (t.leafAt x h).root →
        (∀ pid ∈ t.pages h, pid ≠ leaf'.root → s'.pages pid = s.pages pid) →
          ∃ t' : shape.Nodes h, t.update x g h = .last t' ∧ t'.root = t.root ∧
            shape.Stored s' h t' := by
  intro h
  induction h with
  | zero => exact fun _ _ hg hroot _ => ⟨leaf', hg, hroot, hleaf⟩
  | succ h ih =>
    intro t ht hnodup hg hroot hpages
    obtain ⟨page, row, rfl⟩ := t.exists_node
    obtain ⟨hlive, hinner, hitems⟩ := Stored.node_iff.mp ht
    obtain ⟨pre, post, hsplit, hexpand⟩ := row.exists_items_expand x
    have hpick := row.pick_mem x
    rw [PageTree.pages_node, List.nodup_cons] at hnodup
    obtain ⟨hpage, hrest⟩ := hnodup
    have hbelow : ∀ c ∈ row.items, ∀ pid ∈ c.pages h, pid ∈ row.items.flatMap (PageTree.pages h) :=
      fun c hc pid hpid => List.mem_flatMap.mpr ⟨c, hc, hpid⟩
    have hleafPage : leaf'.root ∈ (row.pick x).pages h := by
      rw [hroot]
      exact PageTree.leafAt_mem_pages x (row.pick x)
    have hapart : ∀ c ∈ pre ++ post, leaf'.root ∉ c.pages h := by
      intro c hc hmem
      rw [hsplit, List.flatMap_append, List.flatMap_cons, List.nodup_append] at hrest
      obtain ⟨-, hbehind, hcross⟩ := hrest
      rcases List.mem_append.mp hc with hc | hc
      · exact hcross _ (List.mem_flatMap.mpr ⟨c, hc, hmem⟩) _
          (List.mem_append_left _ hleafPage) rfl
      · exact (List.nodup_append.mp hbehind).2.2 _ hleafPage _
          (List.mem_flatMap.mpr ⟨c, hc, hmem⟩) rfl
    have hpickNodup : ((row.pick x).pages h).Nodup := (List.nodup_flatMap.mp hrest).1 _ hpick
    obtain ⟨c', hupdate, hroot', hstored⟩ := ih (hitems _ hpick) hpickNodup hg hroot
      fun pid hpid => hpages pid (List.mem_cons_of_mem _ (hbelow _ hpick pid hpid))
    refine ⟨PageTree.node page (row.expand x (PageTree.update x g h)), rfl, rfl, hlive.mono hused, ?_, ?_⟩
    · -- the separators and the pages of the children are those of before
      have hsame : s'.pages page = s.pages page := by
        refine hpages page List.mem_cons_self fun heq => hpage ?_
        rw [heq]
        exact hbelow _ hpick _ hleafPage
      show InnerPage shape (s'.pages page) (row.expand x (PageTree.update x g h)).keys
        ((row.expand x (PageTree.update x g h)).items.map PageTree.root)
      rw [hsame, Row.keys_expand_last hupdate, Row.map_items_expand_last PageTree.root hupdate hroot']
      exact hinner
    · intro c hc
      rw [show (Node.row (PageTree.node page (row.expand x (PageTree.update x g h)))).items = _ from
        hexpand _, hupdate] at hc
      simp only [Row.items, List.mem_append, List.mem_singleton] at hc
      have hother : c ∈ pre ++ post → shape.Stored s' h c := by
        intro hmem
        have hold : c ∈ row.items := by
          rw [hsplit]
          rcases List.mem_append.mp hmem with hm | hm
          · exact List.mem_append_left _ hm
          · exact List.mem_append_right _ (List.mem_cons_of_mem _ hm)
        refine (hitems c hold).congr (fun pid hpid => ?_) hused
        refine hpages pid (List.mem_cons_of_mem _ (hbelow c hold pid hpid)) fun heq => ?_
        exact hapart c hmem (heq ▸ hpid)
      rcases hc with (hc | rfl) | hc
      · exact hother (List.mem_append_left _ hc)
      · exact hstored
      · exact hother (List.mem_append_right _ hc)

end Stored

end BTreeShape

open BTreeShape

variable {shape : BTreeShape} {tree : BTree} {s s' : FlatStore} {x : shape.Key}

/-- **The way down ends at the leaf on the way to the key.** -/
theorem run_descend (allocator : Allocator) (grants : Nat → Bool) (htree : shape.Fits tree) :
    ∀ {h : Nat} {t : shape.Nodes h} {lo hi : Option shape.Key} (path : List (Nat × Nat)),
      shape.Stored s h t → t.Ordered h lo hi →
        (descend tree x.bytes h t.root path).run (flatStore allocator grants) s =
          (some ((t.leafAt x h).root, (t.path x h).reverse ++ path), s) := by
  intro h
  induction h with
  | zero => intro t lo hi path _ _; rfl
  | succ h ih =>
    intro t lo hi path ht hord
    obtain ⟨page, row, rfl⟩ := t.exists_node
    rw [PageTree.ordered_node] at hord
    obtain ⟨hlive, hinner, hitems⟩ := Stored.node_iff.mp ht
    obtain ⟨a, b, hpick⟩ := Row.Chain.exists_pick x hord
    obtain ⟨hsorted, -⟩ := Row.Chain.keys (fun _ _ _ => PageTree.Ordered.apart) hord
    have hnext := hitems _ (row.pick_mem x)
    have hpos := hinner.childPos hsorted x
    rw [← Row.index_eq hsorted] at hpos
    have hget : (row.items.map PageTree.root)[row.index x]? = some (row.pick x).root := by
      rw [List.getElem?_map, row.getElem?_items_index]
      rfl
    have hchild := hinner.childAt hget hnext.live_root.lt_word
    have hfetch : s.fetch page = some (s.pages page) := hlive.fetch
    simp only [descend, PageTree.root_node, Prog.run_bind, run_pinPage, hfetch, run_unpinPage,
      htree.keySize_eq, htree.maxInner_eq, htree.compare]
    rw [show btreeNodeChildPos (s.pages page) x.bytes shape.keySize
      (btreeGetComparator shape.keyType) = row.index x from hpos,
      show btreeNodeChildAt (s.pages page) (row.index x) shape.keySize shape.maxInner =
        (row.pick x).root from hchild, ih _ hnext hpick]
    rw [PageTree.leafAt_node, PageTree.path_node, List.reverse_cons, List.append_assoc]
    rfl

end OnionRelay.Db
