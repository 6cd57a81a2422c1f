import OnionRelay.Db.Buffer.PageTableRuns
import OnionRelay.Db.Buffer.Pool

/-!
# The frames in the page table

`Mapped pool known mapped` says that the table of the pool has the frames that have a page and are
`known`, each under its page.  In a pool at rest these are all frames with a page; while a page is loaded
the frame that was found for it is out of the table and still has the id of its old page.
-/

namespace OnionRelay.Db.BufferPool

open PageTable

structure Mapped (pool : BufferPool) (known : Nat → Prop) (mapped : List (Nat × Nat)) : Prop where
  pos : 0 < pool.poolSize
  room : 2 * pool.poolSize ≤ pool.table.size
  indexes : Indexes pool.table.size pool.table mapped
  mem : ∀ pid f, (pid, f) ∈ mapped ↔ f < pool.poolSize ∧ known f ∧ pool.pageIds f = pid ∧ pid ≠ 0

/-- The pages are where the table says. -/
abbrev AtRest (pool : BufferPool) : Prop := ∃ mapped, pool.Mapped (fun _ => True) mapped

namespace Mapped

variable {pool pool' : BufferPool} {known : Nat → Prop} {mapped : List (Nat × Nat)}

theorem holds (h : pool.Mapped known mapped) : Holds pool.pageIds mapped := fun entry hentry =>
  ((h.mem entry.1 entry.2).mp hentry).2.2.1

theorem congr (h : pool.Mapped known mapped) (hsize : pool'.poolSize = pool.poolSize)
    (htable : pool'.table = pool.table) (hids : pool'.pageIds = pool.pageIds) : pool'.Mapped known mapped where
  pos := hsize ▸ h.pos
  room := by
    rw [hsize, htable]
    exact h.room
  indexes := htable ▸ h.indexes
  mem pid f := by
    rw [hsize, hids]
    exact h.mem pid f

/-- A frame has one entry. -/
theorem length_le (h : pool.Mapped known mapped) : mapped.length ≤ pool.poolSize := by
  have hnodup : (mapped.map Prod.snd).Nodup := by
    refine (List.nodup_map_iff_inj_on (List.Nodup.of_map _ h.indexes.nodup)).mpr fun x hx y hy heq => ?_
    have hpage : x.1 = y.1 := by rw [← h.holds x hx, ← h.holds y hy, heq]
    exact Prod.ext hpage heq
  have hsub : mapped.map Prod.snd ⊆ List.range pool.poolSize := by
    intro f hf
    obtain ⟨entry, hentry, rfl⟩ := List.mem_map.mp hf
    exact List.mem_range.mpr ((h.mem entry.1 entry.2).mp hentry).1
  have hle := (List.subperm_of_subset hnodup hsub).length_le
  rwa [List.length_map, List.length_range] at hle

theorem length_lt (h : pool.Mapped known mapped) : mapped.length < pool.table.size := by
  have hle := h.length_le
  have hroom := h.room
  have hpos := h.pos
  omega

/-- **The table finds the frames it has.** -/
theorem lookup_eq_some (h : pool.Mapped known mapped) {pid f : Nat} :
    pool.lookup pid = some f ↔ f < pool.poolSize ∧ known f ∧ pool.pageIds f = pid ∧ pid ≠ 0 := by
  have hsize : 0 < pool.table.size := Nat.lt_of_le_of_lt (Nat.zero_le _) h.length_lt
  have hlookup : pool.lookup pid = mapped.lookup pid :=
    (lookupLoop_of_indexes h.indexes h.holds hsize h.length_lt pid).2
  rw [hlookup, ← h.mem]
  constructor
  · intro hsome
    by_contra hmem
    have habsent : pid ∉ mapped.map Prod.fst := by
      intro hin
      obtain ⟨⟨pid, f'⟩, hentry, rfl⟩ := List.mem_map.mp hin
      rw [lookup_of_mem h.indexes.nodup hentry] at hsome
      obtain rfl := Option.some.inj hsome
      exact hmem hentry
    rw [lookup_of_absent habsent] at hsome
    cases hsome
  · exact lookup_of_mem h.indexes.nodup

/-- A page is in one frame. -/
theorem unique (h : pool.Mapped known mapped) {f g : Nat} (hf : f < pool.poolSize) (hg : g < pool.poolSize)
    (hknownF : known f) (hknownG : known g) (hpage : pool.pageIds f = pool.pageIds g) (hne : pool.pageIds f ≠ 0) :
    f = g := by
  have hfound := h.lookup_eq_some.mpr ⟨hf, hknownF, rfl, hne⟩
  have hfound' := h.lookup_eq_some.mpr ⟨hg, hknownG, hpage.symm, hne⟩
  exact Option.some.inj (hfound.symm.trans hfound')

theorem lookup_eq_none (h : pool.Mapped known mapped) {pid : Nat} (hpid : pid ≠ 0) (hnone : pool.lookup pid = none)
    {f : Nat} (hf : f < pool.poolSize) (hknown : known f) : pool.pageIds f ≠ pid := by
  intro hpage
  rw [h.lookup_eq_some.mpr ⟨hf, hknown, hpage, hpid⟩] at hnone
  cases hnone

/-- **A frame is taken out.** -/
theorem vacate (h : pool.Mapped (fun _ => True) mapped) {victim : Nat} (hvictim : victim < pool.poolSize) :
    Mapped { pool with table := pool.table.remove pool.pageIds (pool.pageIds victim) } (· ≠ victim)
      (mapped.filter (·.1 != pool.pageIds victim)) := by
  have hsize : 0 < pool.table.size := Nat.lt_of_le_of_lt (Nat.zero_le _) h.length_lt
  obtain ⟨slots', hloop, hmap⟩ := indexes_remove h.indexes h.holds hsize h.length_lt (pool.pageIds victim)
  obtain ⟨idx, hfirst⟩ := exists_isFirst_stops h.indexes h.length_lt pool.pageIds (pool.pageIds victim)
  have hremove : pool.table.remove pool.pageIds (pool.pageIds victim) = ⟨slots', pool.table.size⟩ :=
    remove_of_removeLoop hsize hfirst hloop
  refine ⟨h.pos, ?_, ?_, fun pid f => ?_⟩
  · rw [hremove]
    exact h.room
  · rw [hremove]
    exact hmap
  · rw [List.mem_filter, h.mem, bne_iff_ne]
    constructor
    · rintro ⟨⟨hf, -, rfl, hne⟩, hother⟩
      exact ⟨hf, fun heq => hother (congrArg pool.pageIds heq), rfl, hne⟩
    · rintro ⟨hf, hother, rfl, hne⟩
      exact ⟨⟨hf, trivial, rfl, hne⟩, fun heq => hother (h.unique hf hvictim trivial trivial heq hne)⟩

/-- **A page is put in.** -/
theorem load {victim : Nat} (h : pool.Mapped (· ≠ victim) mapped) (hvictim : victim < pool.poolSize) {contents : Frame}
    (hpid : contents.pageId ≠ 0) (hnew : ∀ f < pool.poolSize, f ≠ victim → pool.pageIds f ≠ contents.pageId) :
    (pool.load victim contents).Mapped (fun _ => True) ((contents.pageId, victim) :: mapped) := by
  have hsize : 0 < pool.table.size := Nat.lt_of_le_of_lt (Nat.zero_le _) h.length_lt
  have hself : (pool.setFrame victim contents).pageIds victim = contents.pageId := by
    simp [pageIds, setFrame]
  have hother : ∀ f ≠ victim, (pool.setFrame victim contents).pageIds f = pool.pageIds f := fun f hf => by
    simp [pageIds, setFrame, hf]
  have hids : Holds (pool.setFrame victim contents).pageIds ((contents.pageId, victim) :: mapped) := by
    intro entry hentry
    rcases List.mem_cons.mp hentry with rfl | hentry
    · exact hself
    · have hmem := (h.mem entry.1 entry.2).mp hentry
      rw [hother _ hmem.2.1]
      exact hmem.2.2.1
  have habsent : contents.pageId ∉ mapped.map Prod.fst := by
    intro hin
    obtain ⟨⟨pid, f⟩, hentry, hpage⟩ := List.mem_map.mp hin
    obtain ⟨hf, hne, hids', -⟩ := (h.mem pid f).mp hentry
    exact hnew f hf hne (hids'.trans hpage)
  obtain ⟨slots', hloop, hmap⟩ := insertLoop_of_indexes h.indexes hsize hids h.length_lt habsent
  have hinsert : pool.table.insert (pool.setFrame victim contents).pageIds contents.pageId victim =
      ⟨slots', pool.table.size⟩ := insertFrom_of_insertLoop hloop
  refine ⟨h.pos, ?_, ?_, fun pid f => ?_⟩
  · rw [BufferPool.load]
    dsimp only
    rw [show (pool.setFrame victim contents).table = pool.table from rfl, hinsert]
    exact h.room
  · rw [BufferPool.load]
    dsimp only
    rw [show (pool.setFrame victim contents).table = pool.table from rfl, hinsert]
    exact hmap
  · rw [List.mem_cons, h.mem, Prod.mk.injEq]
    show _ ↔ f < pool.poolSize ∧ True ∧ (pool.setFrame victim contents).pageIds f = pid ∧ pid ≠ 0
    by_cases hf : f = victim
    · subst hf
      rw [hself]
      constructor
      · rintro (⟨rfl, -⟩ | ⟨-, hne, -⟩)
        · exact ⟨hvictim, trivial, rfl, hpid⟩
        · exact absurd rfl hne
      · rintro ⟨-, -, rfl, -⟩
        exact .inl ⟨rfl, rfl⟩
    · rw [hother f hf]
      constructor
      · rintro (⟨-, hvictim'⟩ | ⟨hlt, -, hpage, hne⟩)
        · exact absurd hvictim' hf
        · exact ⟨hlt, trivial, hpage, hne⟩
      · rintro ⟨hlt, -, hpage, hne⟩
        exact .inr ⟨hlt, hf, hpage, hne⟩

end Mapped

end OnionRelay.Db.BufferPool
