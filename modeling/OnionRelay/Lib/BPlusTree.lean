import OnionRelay.Lib.Row

/-!
# B+ trees

A `PageTree` of height `h` is a leaf or a node over a row of trees one lower; each
node carries the page it lives on.  `PageTree.update x g` replaces the leaf on the way
to the key `x` by a row; a row of two leaves is a leaf that was split.

* `entries_update`: the entries before and behind the leaf are on either side of
  `x`, and stay.
* `ordered_update`, `pages_update`: what else an update keeps.
-/

namespace OnionRelay.Lib

variable {P K V T : Type}

/-! ## Trees -/

structure Leaf (P K V : Type) where
  page : P
  entries : List (K × V)
  next : P

structure Node (P K T : Type) where
  page : P
  row : Row K T

/-- A tree of a height; leaves have height 0. -/
def PageTree (P K V : Type) : Nat → Type
  | 0 => Leaf P K V
  | h + 1 => Node P K (PageTree P K V h)

namespace PageTree

variable {h : Nat}

def leaf (page : P) (es : List (K × V)) (next : P) : PageTree P K V 0 := Leaf.mk page es next

def node (page : P) (row : Row K (PageTree P K V h)) : PageTree P K V (h + 1) := Node.mk page row

theorem exists_leaf (t : PageTree P K V 0) : ∃ page es next, t = leaf page es next :=
  ⟨t.1, t.2, t.3, rfl⟩

theorem exists_node (t : PageTree P K V (h + 1)) : ∃ page row, t = node page row := ⟨t.1, t.2, rfl⟩

def root : {h : Nat} → PageTree P K V h → P
  | 0, t => Leaf.page t
  | _ + 1, t => Node.page t

/-- The page behind a leaf. -/
def next (t : PageTree P K V 0) : P := Leaf.next t

def entries : (h : Nat) → PageTree P K V h → List (K × V)
  | 0, t => Leaf.entries t
  | h + 1, t => (Node.row t).items.flatMap (entries h)

def pages : (h : Nat) → PageTree P K V h → List P
  | 0, t => [Leaf.page t]
  | h + 1, t => Node.page t :: (Node.row t).items.flatMap (pages h)

variable [LinearOrder K]

/-- Keys are sorted, and between the separators around them. -/
def Ordered : (h : Nat) → Option K → Option K → PageTree P K V h → Prop
  | 0, lo, hi, t => Apart lo hi ∧ Sorted (Leaf.entries t) ∧
    ∀ e ∈ Leaf.entries t, AtLeast lo e.1 ∧ Under hi e.1
  | h + 1, lo, hi, t => Row.Chain (Ordered h) lo (Node.row t) hi

/-- The leaf on the way to `x`. -/
def leafAt (x : K) : (h : Nat) → PageTree P K V h → PageTree P K V 0
  | 0, t => t
  | h + 1, t => leafAt x h ((Node.row t).pick x)

/-- The pages of the nodes on the way to `x` and the positions taken, the leaf
left out. -/
def path (x : K) : (h : Nat) → PageTree P K V h → List (P × Nat)
  | 0, _ => []
  | h + 1, t => (Node.page t, (Node.row t).index x) :: path x h ((Node.row t).pick x)

/-- The tree with the leaf on the way to `x` replaced by a row of leaves, as a
row: of one tree, but for a leaf that is the whole tree. -/
def update (x : K) (g : PageTree P K V 0 → Row K (PageTree P K V 0)) :
    (h : Nat) → PageTree P K V h → Row K (PageTree P K V h)
  | 0, t => g t
  | h + 1, t => .last (node (Node.page t) ((Node.row t).expand x (update x g h)))

section Constructors

variable (page next' : P) (es : List (K × V)) (row : Row K (PageTree P K V h)) (x : K)
  (g : PageTree P K V 0 → Row K (PageTree P K V 0)) (lo hi : Option K)

omit [LinearOrder K] in
@[simp] theorem root_leaf : (leaf page es next').root = page := rfl

omit [LinearOrder K] in
@[simp] theorem root_node : (node page row).root = page := rfl

omit [LinearOrder K] in
@[simp] theorem next_leaf : (leaf page es next').next = next' := rfl

omit [LinearOrder K] in
@[simp] theorem entries_leaf : entries 0 (leaf page es next') = es := rfl

omit [LinearOrder K] in
@[simp] theorem entries_node : entries (h + 1) (node page row) = row.items.flatMap (entries h) := rfl

omit [LinearOrder K] in
@[simp] theorem pages_leaf : pages 0 (leaf page es next') = [page] := rfl

omit [LinearOrder K] in
@[simp] theorem pages_node : pages (h + 1) (node page row) = page :: row.items.flatMap (pages h) := rfl

@[simp] theorem ordered_leaf : Ordered 0 lo hi (leaf page es next') ↔
    Apart lo hi ∧ Sorted es ∧ ∀ e ∈ es, AtLeast lo e.1 ∧ Under hi e.1 := Iff.rfl

@[simp] theorem ordered_node :
    Ordered (h + 1) lo hi (node page row) ↔ Row.Chain (Ordered h) lo row hi := Iff.rfl

omit [LinearOrder K] in
theorem pages_zero (t : PageTree P K V 0) : pages 0 t = [t.root] := rfl

@[simp] theorem leafAt_zero (t : PageTree P K V 0) : leafAt x 0 t = t := rfl

@[simp] theorem leafAt_node : leafAt x (h + 1) (node page row) = leafAt x h (row.pick x) := rfl

@[simp] theorem path_zero (t : PageTree P K V 0) : path x 0 t = [] := rfl

@[simp] theorem path_node : path x (h + 1) (node page row) =
    (page, row.index x) :: path x h (row.pick x) := rfl

@[simp] theorem update_zero (t : PageTree P K V 0) : update x g 0 t = g t := rfl

@[simp] theorem update_node : update x g (h + 1) (node page row) =
    .last (node page (row.expand x (update x g h))) := rfl

end Constructors

omit [LinearOrder K] in
theorem root_mem_pages : ∀ {h : Nat} (t : PageTree P K V h), t.root ∈ pages h t
  | 0, _ => List.mem_cons_self
  | _ + 1, _ => List.mem_cons_self

theorem leafAt_mem_pages (x : K) : ∀ {h : Nat} (t : PageTree P K V h),
    (leafAt x h t).root ∈ pages h t := by
  intro h
  induction h with
  | zero => exact fun t => root_mem_pages t
  | succ h ih =>
    intro t
    obtain ⟨page, row, rfl⟩ := exists_node t
    exact List.mem_cons_of_mem _ (List.mem_flatMap.mpr ⟨_, row.pick_mem x, ih _⟩)

theorem length_path (x : K) : ∀ {h : Nat} (t : PageTree P K V h), (path x h t).length = h := by
  intro h
  induction h with
  | zero => exact fun _ => rfl
  | succ h ih =>
    intro t
    obtain ⟨page, row, rfl⟩ := exists_node t
    rw [path_node, List.length_cons, ih]

/-- The pages on the way to `x`, down to the leaf. -/
theorem way_sublist (x : K) : ∀ {h : Nat} (t : PageTree P K V h),
    ((path x h t).map Prod.fst ++ [(leafAt x h t).root]).Sublist (pages h t) := by
  intro h
  induction h with
  | zero => exact fun t => List.Sublist.refl [t.root]
  | succ h ih =>
    intro t
    obtain ⟨page, row, rfl⟩ := exists_node t
    rw [path_node, leafAt_node, pages_node, List.map_cons, List.cons_append, List.flatMap_def]
    exact ((ih (row.pick x)).trans
      (List.sublist_flatten_of_mem (List.mem_map_of_mem (row.pick_mem x)))).cons_cons page

theorem Ordered.apart : ∀ {h : Nat} {lo hi : Option K} {t : PageTree P K V h},
    Ordered h lo hi t → Apart lo hi := by
  intro h
  induction h with
  | zero => intro lo hi t ht; exact ht.1
  | succ h ih =>
    intro lo hi t ht
    exact Row.Chain.apart (fun _ _ _ => ih) ht

/-- A higher upper bound. -/
theorem Ordered.widen {u u' : K} (hle : u ≤ u') : ∀ {h : Nat} {lo : Option K} {t : PageTree P K V h},
    Ordered h lo (some u) t → Ordered h lo (some u') t := by
  intro h
  induction h with
  | zero =>
    intro lo t ht
    obtain ⟨hapart, hsorted, hbounds⟩ := ht
    refine ⟨apart_some_right.mpr fun l hl => ?_, hsorted, fun e he => ?_⟩
    · exact (apart_some_right.mp hapart l hl).trans_le hle
    · obtain ⟨hlow, hhigh⟩ := hbounds e he
      exact ⟨hlow, under_some.mpr ((under_some.mp hhigh).trans_le hle)⟩
  | succ h ih =>
    intro lo t ht
    obtain ⟨page, row, rfl⟩ := exists_node t
    rw [ordered_node] at ht ⊢
    induction row generalizing lo with
    | last c => exact ih ht
    | cons c k row ihRow => exact ⟨ht.1, ihRow ht.2⟩

theorem Ordered.bounds : ∀ {h : Nat} {lo hi : Option K} {t : PageTree P K V h},
    Ordered h lo hi t → ∀ e ∈ entries h t, AtLeast lo e.1 ∧ Under hi e.1 := by
  intro h
  induction h with
  | zero => intro lo hi t ht; exact ht.2.2
  | succ h ih =>
    intro lo hi t ht
    obtain ⟨page, row, rfl⟩ := exists_node t
    intro e he
    obtain ⟨s, hs, hes⟩ := List.mem_flatMap.mp he
    exact Row.Chain.forall_items (f := fun j t => ∃ e ∈ entries h t, e.1 = j)
      (fun _ _ _ => Ordered.apart)
      (fun a b t h j ⟨e, he, hj⟩ => hj ▸ (ih h e he).1)
      (fun a b t h j ⟨e, he, hj⟩ => hj ▸ (ih h e he).2) ht s hs e.1 ⟨e, hes, rfl⟩

/-- The entries of a row of sorted items are sorted. -/
theorem sorted_flatMap {p : Option K → Option K → T → Prop} {f : T → List (K × V)}
    (hp : ∀ a b t, p a b t → Apart a b)
    (hf : ∀ a b t, p a b t → ∀ e ∈ f t, AtLeast a e.1 ∧ Under b e.1)
    (hs : ∀ a b t, p a b t → Sorted (f t)) : ∀ {lo hi : Option K} {r : Row K T},
      Row.Chain p lo r hi → Sorted (r.items.flatMap f) := by
  intro lo hi r
  induction r generalizing lo with
  | last t => intro h; simpa [Row.items] using hs _ _ _ h
  | cons t k r ih =>
    rintro ⟨hfirst, hrest⟩
    rw [Row.items, List.flatMap_cons, sorted_append]
    refine ⟨hs _ _ _ hfirst, ih hrest, fun e he e' he' => ?_⟩
    obtain ⟨s, hs, hes⟩ := List.mem_flatMap.mp he'
    have habove : ∀ a b t, p a b t → ∀ j, (∃ e ∈ f t, e.1 = j) → AtLeast a j := by
      rintro a b t h j ⟨e, he, rfl⟩
      exact (hf a b t h e he).1
    have hbelow : ∀ a b t, p a b t → ∀ j, (∃ e ∈ f t, e.1 = j) → Under b j := by
      rintro a b t h j ⟨e, he, rfl⟩
      exact (hf a b t h e he).2
    have hbound := Row.Chain.forall_items (f := fun j t => ∃ e ∈ f t, e.1 = j) hp habove hbelow
      hrest s hs e'.1 ⟨e', hes, rfl⟩
    exact lt_of_lt_of_le (under_some.mp (hf _ _ _ hfirst e he).2) (atLeast_some.mp hbound.1)

theorem Ordered.sorted : ∀ {h : Nat} {lo hi : Option K} {t : PageTree P K V h},
    Ordered h lo hi t → Sorted (entries h t) := by
  intro h
  induction h with
  | zero => intro lo hi t ht; exact ht.2.1
  | succ h ih =>
    intro lo hi t ht
    exact sorted_flatMap (fun _ _ _ => Ordered.apart) (fun _ _ _ => Ordered.bounds)
      (fun _ _ _ => ih) ht

theorem Ordered.leafAt : ∀ {h : Nat} {lo hi : Option K} {t : PageTree P K V h} {x : K},
    Ordered h lo hi t → AtLeast lo x → Under hi x →
      ∃ a b, AtLeast a x ∧ Under b x ∧ Ordered 0 a b (leafAt x h t) := by
  intro h
  induction h with
  | zero => intro lo hi t x ht hlo hhi; exact ⟨lo, hi, hlo, hhi, ht⟩
  | succ h ih =>
    intro lo hi t x ht hlo hhi
    obtain ⟨page, row, rfl⟩ := exists_node t
    obtain ⟨a, b, ha, hb, hpick⟩ := Row.chain_pick ht hlo hhi
    exact ih hpick ha hb

/-- **The entries around the leaf on the way to `x`.** -/
theorem entries_update {x : K} : ∀ {h : Nat} {lo hi : Option K} {t : PageTree P K V h},
    Ordered h lo hi t → ∃ pre post : List (K × V),
      entries h t = pre ++ entries 0 (PageTree.leafAt x h t) ++ post ∧
      (∀ g, (update x g h t).items.flatMap (entries h) =
        pre ++ (g (PageTree.leafAt x h t)).items.flatMap (entries 0) ++ post) ∧
      (∀ e ∈ pre, e.1 < x) ∧ ∀ e ∈ post, x < e.1 := by
  intro h
  induction h with
  | zero =>
    intro lo hi t _
    exact ⟨[], [], by simp [PageTree.leafAt], fun g => by simp [update, PageTree.leafAt], by simp, by simp⟩
  | succ h ih =>
    intro lo hi t ht
    obtain ⟨page, row, rfl⟩ := exists_node t
    rw [ordered_node] at ht
    obtain ⟨pre, post, heq, hexp, hpre, hpost⟩ :=
      Row.exists_flatMap_expand (x := x) (entries h) (fun _ _ _ => Ordered.apart)
        (fun _ _ _ => Ordered.bounds) ht
    obtain ⟨a, b, hab⟩ := Row.Chain.exists_pick x ht
    obtain ⟨pre', post', heq', hexp', hpre', hpost'⟩ := ih hab
    refine ⟨pre ++ pre', post' ++ post, ?_, fun g => ?_, fun e he => ?_, fun e he => ?_⟩
    · rw [entries_node, leafAt_node, heq, heq']
      simp only [List.append_assoc]
    · rw [update_node, Row.items, List.flatMap_cons, List.flatMap_nil, List.append_nil,
        entries_node, leafAt_node, hexp, hexp']
      simp only [List.append_assoc]
    · exact (List.mem_append.mp he).elim (hpre e) (hpre' e)
    · exact (List.mem_append.mp he).elim (hpost' e) (hpost e)

/-- The entries of a key are in the leaf on the way to it. -/
theorem mem_entries_iff {x : K} {v : V} {h : Nat} {lo hi : Option K} {t : PageTree P K V h}
    (ht : Ordered h lo hi t) :
    (x, v) ∈ entries h t ↔ (x, v) ∈ entries 0 (PageTree.leafAt x h t) := by
  obtain ⟨pre, post, heq, -, hpre, hpost⟩ := entries_update (x := x) ht
  rw [heq, List.mem_append, List.mem_append]
  constructor
  · rintro ((hmem | hmem) | hmem)
    · exact absurd (hpre _ hmem) (lt_irrefl x)
    · exact hmem
    · exact absurd (hpost _ hmem) (lt_irrefl x)
  · exact fun hmem => .inl (.inr hmem)

/-- **An update keeps the order**, if it does so at the leaf. -/
theorem ordered_update {x : K} {g : PageTree P K V 0 → Row K (PageTree P K V 0)} :
    ∀ {h : Nat} {lo hi : Option K} {t : PageTree P K V h}, Ordered h lo hi t → AtLeast lo x →
      Under hi x → (∀ a b, AtLeast a x → Under b x → Ordered 0 a b (PageTree.leafAt x h t) →
        Row.Chain (Ordered 0) a (g (PageTree.leafAt x h t)) b) →
      Row.Chain (Ordered h) lo (update x g h t) hi := by
  intro h
  induction h with
  | zero => intro lo hi t ht hlo hhi hg; exact hg lo hi hlo hhi ht
  | succ h ih =>
    intro lo hi t ht hlo hhi hg
    obtain ⟨page, row, rfl⟩ := exists_node t
    exact Row.chain_expand ht hlo hhi fun a b ha hb hpick => ih hpick ha hb hg

/-- **An update keeps the pages**, but for those it adds at the leaf. -/
theorem pages_update {x : K} {g : PageTree P K V 0 → Row K (PageTree P K V 0)} (added : List P) :
    ∀ {h : Nat} {t : PageTree P K V h},
      ((g (PageTree.leafAt x h t)).items.flatMap (pages 0)).Perm
        (added ++ pages 0 (PageTree.leafAt x h t)) →
      ((update x g h t).items.flatMap (pages h)).Perm (added ++ pages h t) := by
  intro h
  induction h with
  | zero => intro t hg; exact hg
  | succ h ih =>
    intro t hg
    obtain ⟨page, row, rfl⟩ := exists_node t
    obtain ⟨pre, post, heq, hexp⟩ := row.exists_items_expand x
    have hrest := ih hg
    rw [update_node, Row.items, List.flatMap_cons, List.flatMap_nil, List.append_nil, pages_node,
      pages_node, hexp, heq]
    simp only [List.flatMap_append, List.flatMap_cons]
    refine (List.Perm.cons page ?_).trans List.perm_middle.symm
    rw [List.append_assoc]
    refine (List.Perm.append_left _ (hrest.append_right _)).trans ?_
    rw [List.append_assoc]
    exact List.perm_append_comm_assoc ..

/-! ## Leaves -/

section Leaves

variable {page next : P} {es : List (K × V)} {lo hi : Option K} {x : K}

theorem Ordered.insert {t : PageTree P K V 0} (ht : Ordered 0 lo hi t) (hlo : AtLeast lo x)
    (hhi : Under hi x) (hnew : ∀ e ∈ entries 0 t, e.1 ≠ x) (v : V) :
    Ordered 0 lo hi (leaf t.root (insertEntry x v (entries 0 t)) t.next) := by
  obtain ⟨page, es, next, rfl⟩ := exists_leaf t
  obtain ⟨hapart, hsorted, hbounds⟩ := (ordered_leaf ..).mp ht
  refine (ordered_leaf ..).mpr ⟨hapart, sorted_insertEntry v hsorted hnew, fun e he => ?_⟩
  rcases mem_insertEntry.mp he with rfl | he
  · exact ⟨hlo, hhi⟩
  · exact hbounds e he

theorem Ordered.erase {t : PageTree P K V 0} (ht : Ordered 0 lo hi t) (i : Nat) :
    Ordered 0 lo hi (leaf t.root ((entries 0 t).eraseIdx i) t.next) := by
  obtain ⟨page, es, next, rfl⟩ := exists_leaf t
  obtain ⟨hapart, hsorted, hbounds⟩ := (ordered_leaf ..).mp ht
  refine (ordered_leaf ..).mpr ⟨hapart, sorted_eraseIdx hsorted i, fun e he => ?_⟩
  exact hbounds e (List.mem_of_mem_eraseIdx he)

theorem Ordered.setValue {t : PageTree P K V 0} (ht : Ordered 0 lo hi t) {i : Nat}
    (hi' : i < (entries 0 t).length) (v : V) :
    Ordered 0 lo hi (leaf t.root ((entries 0 t).set i ((entries 0 t)[i].1, v)) t.next) := by
  obtain ⟨page, es, next, rfl⟩ := exists_leaf t
  obtain ⟨hapart, hsorted, hbounds⟩ := (ordered_leaf ..).mp ht
  refine (ordered_leaf ..).mpr ⟨hapart, sorted_setValue hsorted hi' v, fun e he => ?_⟩
  rcases List.mem_or_eq_of_mem_set he with hmem | rfl
  · exact hbounds e hmem
  · exact hbounds (es.get ⟨i, hi'⟩) (List.get_mem es ⟨i, hi'⟩)

/-- **The halves of a leaf**, cut at the first key of the right half. -/
theorem Ordered.split {left right : List (K × V)} {k : K} {w : V} {rest : List (K × V)}
    (ht : Ordered 0 lo hi (leaf page es next)) (hes : es = left ++ right) (hleft : left ≠ [])
    (hright : right = (k, w) :: rest) (page' next' : P) :
    (∀ l ∈ lo, l < k) ∧ Under hi k ∧ Ordered 0 lo (some k) (leaf page left page') ∧
      Ordered 0 (some k) hi (leaf page' right next') := by
  obtain ⟨-, hsorted, hbounds⟩ := (ordered_leaf ..).mp ht
  subst hes
  obtain ⟨hsl, hsr, hcross⟩ := sorted_append.mp hsorted
  have hk : (k, w) ∈ right := by rw [hright]; exact List.mem_cons_self
  have hmem : ∀ e ∈ right, e ∈ left ++ right := fun e he => List.mem_append_right _ he
  have hlow : ∀ l ∈ lo, l < k := by
    obtain ⟨e, he⟩ := List.exists_mem_of_ne_nil left hleft
    intro l hl
    exact ((hbounds e (List.mem_append_left _ he)).1 l hl).trans_lt (hcross e he _ hk)
  have hhigh : Under hi k := (hbounds _ (hmem _ hk)).2
  have hfirst : ∀ e ∈ right, k ≤ e.1 := by
    intro e he
    rw [hright] at he hsr
    rcases List.mem_cons.mp he with rfl | he
    · exact le_refl _
    · exact ((List.pairwise_cons.mp hsr).1 e he).le
  refine ⟨hlow, hhigh, (ordered_leaf ..).mpr ⟨?_, hsl, fun e he => ?_⟩,
    (ordered_leaf ..).mpr ⟨?_, hsr, fun e he => ?_⟩⟩
  · exact apart_some_right.mpr hlow
  · exact ⟨(hbounds e (List.mem_append_left _ he)).1, under_some.mpr (hcross e he _ hk)⟩
  · exact apart_some_left.mpr hhigh
  · exact ⟨atLeast_some.mpr (hfirst e he), (hbounds e (hmem e he)).2⟩

/-- The cut is strictly above the lower bound. -/
theorem Ordered.cut {t : PageTree P K V 0} (ht : Ordered 0 lo hi t) {mid : Nat} (hmid : 0 < mid) {k : K}
    {w : V} {rest : List (K × V)} (hright : (entries 0 t).drop mid = (k, w) :: rest) (page' : P) :
    (∀ l ∈ lo, l < k) ∧ Under hi k ∧
      Ordered 0 lo (some k) (leaf t.root ((entries 0 t).take mid) page') ∧
        Ordered 0 (some k) hi (leaf page' ((entries 0 t).drop mid) t.next) := by
  obtain ⟨page, es, next, rfl⟩ := exists_leaf t
  rw [entries_leaf] at hright ⊢
  have hleft : es.take mid ≠ [] := by
    intro hnil
    rw [List.take_eq_nil_iff] at hnil
    rcases hnil with rfl | rfl
    · exact absurd hmid (lt_irrefl 0)
    · rw [List.drop_nil] at hright
      exact absurd hright (List.cons_ne_nil _ _).symm
  exact Ordered.split ht (List.take_append_drop mid es).symm hleft hright page' next

/-- **A leaf cut in two with a new key in its half.** -/
theorem Ordered.halves {t : PageTree P K V 0} (ht : Ordered 0 lo hi t) (hlo : AtLeast lo x)
    (hhi : Under hi x) (hnew : ∀ e ∈ entries 0 t, e.1 ≠ x) (v : V) {mid : Nat} (hmid : 0 < mid)
    {k : K} {w : V} {rest : List (K × V)} (hright : (entries 0 t).drop mid = (k, w) :: rest)
    (page' : P) :
    Row.Chain (Ordered 0) lo
      (.cons (leaf t.root (lowerHalf x v k mid (entries 0 t)) page') k
        (.last (leaf page' (upperHalf x v k mid (entries 0 t)) t.next))) hi := by
  obtain ⟨-, -, hl, hr⟩ := Ordered.cut ht hmid hright page'
  rw [lowerHalf, upperHalf]
  by_cases hx : x < k
  · rw [if_pos hx, if_pos hx]
    exact ⟨Ordered.insert hl hlo (under_some.mpr hx) (fun e he => hnew e (List.mem_of_mem_take he)) v,
      hr⟩
  · rw [if_neg hx, if_neg hx]
    exact ⟨hl, Ordered.insert hr (atLeast_some.mpr (not_lt.mp hx)) hhi
      (fun e he => hnew e (List.mem_of_mem_drop he)) v⟩

end Leaves

/-! ## The leaves in order -/

/-- The leaves, from left to right. -/
def leaves : (h : Nat) → PageTree P K V h → List (PageTree P K V 0)
  | 0, t => [t]
  | h + 1, t => (Node.row t).items.flatMap (leaves h)

/-- Each leaf points to the next, and the last to `last`. -/
def Linked (last : P) : List (PageTree P K V 0) → Prop
  | [] => True
  | l :: ls => l.next = (ls.map root).headD last ∧ Linked last ls

omit [LinearOrder K] in
theorem Linked.behind {last : P} : ∀ {pre ls : List (PageTree P K V 0)},
    Linked last (pre ++ ls) → Linked last ls := by
  intro pre
  induction pre with
  | nil => exact fun h => h
  | cons l pre ih => exact fun h => ih h.2

section Leaves

variable {x : K} {h : Nat}

omit [LinearOrder K] in
@[simp] theorem leaves_zero (t : PageTree P K V 0) : leaves 0 t = [t] := rfl

omit [LinearOrder K] in
@[simp] theorem leaves_node (page : P) (row : Row K (PageTree P K V h)) :
    leaves (h + 1) (node page row) = row.items.flatMap (leaves h) := rfl

omit [LinearOrder K] in
theorem leaves_ne_nil : ∀ {h : Nat} (t : PageTree P K V h), leaves h t ≠ [] := by
  intro h
  induction h with
  | zero => exact fun t => List.cons_ne_nil t []
  | succ h ih =>
    intro t
    obtain ⟨page, row, rfl⟩ := exists_node t
    obtain ⟨c, items, hitems⟩ := List.exists_cons_of_ne_nil row.items_ne_nil
    rw [leaves_node, hitems, List.flatMap_cons]
    exact fun hnil => ih c (List.append_eq_nil_iff.mp hnil).1

omit [LinearOrder K] in
theorem flatMap_leaves : ∀ {h : Nat} (t : PageTree P K V h),
    (leaves h t).flatMap (entries 0) = entries h t := by
  intro h
  induction h with
  | zero => exact fun t => List.flatMap_singleton ..
  | succ h ih =>
    intro t
    obtain ⟨page, row, rfl⟩ := exists_node t
    rw [leaves_node, entries_node, List.flatMap_assoc]
    exact List.flatMap_congr fun c _ => ih c

omit [LinearOrder K] in
theorem map_root_leaves_sublist : ∀ {h : Nat} (t : PageTree P K V h),
    ((leaves h t).map root).Sublist (pages h t) := by
  intro h
  induction h with
  | zero => exact fun t => List.Sublist.refl [t.root]
  | succ h ih =>
    intro t
    obtain ⟨page, row, rfl⟩ := exists_node t
    rw [leaves_node, pages_node]
    refine List.Sublist.cons page ?_
    induction row.items with
    | nil => exact List.Sublist.refl []
    | cons c items ihItems =>
      rw [List.flatMap_cons, List.flatMap_cons, List.map_append]
      exact (ih c).append ihItems

/-- **The leaves around the one on the way to `x`.** -/
theorem exists_leaves_leafAt (x : K) : ∀ {h : Nat} {lo hi : Option K} {t : PageTree P K V h},
    Ordered h lo hi t → ∃ pre post : List (PageTree P K V 0),
      leaves h t = pre ++ leafAt x h t :: post ∧
        (∀ e ∈ pre.flatMap (entries 0), e.1 < x) ∧ ∀ e ∈ post.flatMap (entries 0), x < e.1 := by
  intro h
  induction h with
  | zero => exact fun _ => ⟨[], [], rfl, by simp, by simp⟩
  | succ h ih =>
    intro lo hi t ht
    obtain ⟨page, row, rfl⟩ := exists_node t
    rw [ordered_node] at ht
    obtain ⟨left, right, hitems, hleft, hright⟩ := Row.Chain.exists_items_pick (x := x)
      (f := fun k t => ∃ e ∈ entries h t, e.1 = k) (fun _ _ _ => Ordered.apart)
      (fun a b t ht k ⟨e, he, hk⟩ => hk ▸ (ht.bounds e he).1)
      (fun a b t ht k ⟨e, he, hk⟩ => hk ▸ (ht.bounds e he).2) ht
    obtain ⟨a, b, hpick⟩ := Row.Chain.exists_pick x ht
    obtain ⟨pre, post, hsplit, hpre, hpost⟩ := ih hpick
    have hentries : ∀ items : List (PageTree P K V h),
        (items.flatMap (leaves h)).flatMap (entries 0) = items.flatMap (entries h) := fun items => by
      rw [List.flatMap_assoc]
      exact List.flatMap_congr fun c _ => flatMap_leaves c
    refine ⟨left.flatMap (leaves h) ++ pre, post ++ right.flatMap (leaves h), ?_, fun e he => ?_,
      fun e he => ?_⟩
    · rw [leaves_node, leafAt_node, hitems, List.flatMap_append, List.flatMap_cons, hsplit]
      simp only [List.append_assoc, List.cons_append]
    · rw [List.flatMap_append, hentries] at he
      rcases List.mem_append.mp he with he | he
      · obtain ⟨c, hc, hec⟩ := List.mem_flatMap.mp he
        exact hleft c hc e.1 ⟨e, hec, rfl⟩
      · exact hpre e he
    · rw [List.flatMap_append, hentries] at he
      rcases List.mem_append.mp he with he | he
      · exact hpost e he
      · obtain ⟨c, hc, hec⟩ := List.mem_flatMap.mp he
        exact hright c hc e.1 ⟨e, hec, rfl⟩

end Leaves

end PageTree

end OnionRelay.Lib
