import OnionRelay.Db.Record.Span

/-!
# Which pages an insertion changes

The search of `try_insert_existing` takes a page for a record page by one byte, which
in other pages may be anything.  `run_tryInsertLoop` says which pages it comes to and
what it does to each; `record_insert` keeps to record pages and pages of its own if no
other page that the search comes to looks like a record page with room
(`onlyRecordPages_iff`).
-/

namespace OnionRelay.Db

open OnionRelay.Lib

/-! ## The search -/

/-- No page is in two frames. -/
def DistinctFrames (frames : List Nat) : Prop := (frames.filter (· ≠ 0)).Nodup

/-- A page that is loaded, which was in no frame, takes one. -/
def PageLayer.KeepsDistinct (layer : PageLayer) : Prop :=
  ∀ frames pid, DistinctFrames frames → pid ∉ frames → DistinctFrames (layer.load frames pid)

/-- The search takes the page for a record page with room. -/
def TakenFor (data : List UInt8) (page : PageData) : Prop :=
  pageType page = pageTypeRecord ∧ (data.length + slotEntrySize) % 2 ^ 16 ≤ slotPageFreeSpace page

instance (data : List UInt8) (page : PageData) : Decidable (TakenFor data page) :=
  inferInstanceAs (Decidable (_ ∧ _))

/-- The page with the record, if there is room for it after all. -/
def insertedPage (data : List UInt8) (page : PageData) : PageData := (slotPageInsert page data).2

/-- The search ends with this page. -/
def Accepts (data : List UInt8) (page : PageData) : Prop :=
  TakenFor data page ∧ (slotPageInsert page data).1.isOk = true

instance (data : List UInt8) (page : PageData) : Decidable (Accepts data page) :=
  inferInstanceAs (Decidable (_ ∧ _))

/-- The frames that the search comes to. -/
def reached (data : List UInt8) (pages : Nat → PageData) : List Nat → List Nat
  | [] => []
  | pid :: frames =>
    if pid ≠ 0 ∧ Accepts data (pages pid) then [pid] else pid :: reached data pages frames

/-- The search changes the page. -/
def Altered (data : List UInt8) (pages : Nat → PageData) (frames : List Nat) (pid : Nat) : Prop :=
  pid ≠ 0 ∧ pid ∈ reached data pages frames ∧ TakenFor data (pages pid)

theorem reached_subset (data : List UInt8) (pages : Nat → PageData) :
    ∀ frames, reached data pages frames ⊆ frames := by
  intro frames
  induction frames with
  | nil => exact List.Subset.refl []
  | cons pid frames ih =>
    rw [reached]
    split
    · exact List.cons_subset_cons pid (List.nil_subset frames)
    · exact List.cons_subset_cons pid ih

theorem reached_congr {data : List UInt8} {pages pages' : Nat → PageData} :
    ∀ {frames : List Nat}, (∀ pid ∈ frames, pid ≠ 0 → pages' pid = pages pid) →
      reached data pages' frames = reached data pages frames := by
  intro frames
  induction frames with
  | nil => exact fun _ => rfl
  | cons pid frames ih =>
    intro hsame
    have hhead : (pid ≠ 0 ∧ Accepts data (pages' pid)) ↔ (pid ≠ 0 ∧ Accepts data (pages pid)) :=
      and_congr_right fun h0 => by rw [hsame pid List.mem_cons_self h0]
    rw [reached, reached, ih fun other hother => hsame other (List.mem_cons_of_mem pid hother)]
    exact if_congr hhead rfl rfl

/-- What the search did to the store. -/
structure Searched (data : List UInt8) (s s' : RecordStore) (frames : List Nat) : Prop where
  cached : s'.frames = s.frames
  handedOut : s'.handedOut = s.handedOut
  used : s'.flat.used = s.flat.used
  requests : s'.flat.requests = s.flat.requests
  altered : ∀ pid, Altered data s.flat.pages frames pid →
    s'.flat.pages pid = insertedPage data (s.flat.pages pid)
  kept : ∀ pid, ¬ Altered data s.flat.pages frames pid → s'.flat.pages pid = s.flat.pages pid

/-- What the search found. -/
def Found (data : List UInt8) (pages : Nat → PageData) (frames : List Nat) :
    Option (Nat × Nat) → Prop
  | some (pid, i) => pid ∈ frames ∧ pid ≠ 0 ∧ Accepts data (pages pid) ∧
    (slotPageInsert (pages pid) data).1 = .ok i
  | none => ∀ pid ∈ frames, pid ≠ 0 → ¬ Accepts data (pages pid)

/-- The store behind a frame with which the search does not end. -/
structure Passed (data : List UInt8) (s s₁ : RecordStore) (pid : Nat) : Prop where
  goes : ¬ (pid ≠ 0 ∧ Accepts data (s.flat.pages pid))
  cached : s₁.frames = s.frames
  handedOut : s₁.handedOut = s.handedOut
  used : s₁.flat.used = s.flat.used
  requests : s₁.flat.requests = s.flat.requests
  self : s₁.flat.pages pid =
    if pid ≠ 0 ∧ TakenFor data (s.flat.pages pid) then insertedPage data (s.flat.pages pid)
    else s.flat.pages pid
  other : ∀ pid', pid' ≠ pid → s₁.flat.pages pid' = s.flat.pages pid'

section Passed

variable {data : List UInt8} {s s₁ s' : RecordStore} {pid : Nat} {rest : List Nat}
  (h : Passed data s s₁ pid) (hpid : pid ≠ 0 → pid ∉ rest)

include h hpid

theorem Passed.pages_rest : ∀ pid' ∈ rest, pid' ≠ 0 → s₁.flat.pages pid' = s.flat.pages pid' := by
  intro pid' hmem h0
  refine h.other pid' fun heq => ?_
  subst heq
  exact hpid h0 hmem

theorem Passed.found {found : Option (Nat × Nat)} (hfound : Found data s₁.flat.pages rest found) :
    Found data s.flat.pages (pid :: rest) found := by
  cases found with
  | none =>
    intro pid' hmem h0
    rcases List.mem_cons.mp hmem with rfl | hmem
    · exact fun haccepts => h.goes ⟨h0, haccepts⟩
    · rw [← h.pages_rest hpid pid' hmem h0]
      exact hfound pid' hmem h0
  | some p =>
    obtain ⟨hmem, h0, haccepts, hinsert⟩ := hfound
    rw [h.pages_rest hpid p.1 hmem h0] at haccepts hinsert
    exact ⟨List.mem_cons_of_mem pid hmem, h0, haccepts, hinsert⟩

theorem Passed.altered_iff {pid' : Nat} : Altered data s.flat.pages (pid :: rest) pid' ↔
    (pid' = pid ∧ pid ≠ 0 ∧ TakenFor data (s.flat.pages pid)) ∨
      (pid' ≠ pid ∧ Altered data s₁.flat.pages rest pid') := by
  have hreached : reached data s.flat.pages (pid :: rest) = pid :: reached data s₁.flat.pages rest := by
    rw [reached, if_neg h.goes, reached_congr (h.pages_rest hpid)]
  rw [Altered, Altered, hreached, List.mem_cons]
  by_cases heq : pid' = pid
  · subst heq
    simp
  · rw [h.other pid' heq]
    simp [heq]

theorem Passed.searched (hsearched : Searched data s₁ s' rest) : Searched data s s' (pid :: rest) where
  cached := hsearched.cached.trans h.cached
  handedOut := hsearched.handedOut.trans h.handedOut
  used := hsearched.used.trans h.used
  requests := hsearched.requests.trans h.requests
  altered := by
    intro pid' haltered
    rcases (h.altered_iff hpid).mp haltered with ⟨rfl, h0, htaken⟩ | ⟨hne, hrest⟩
    · have hkept : ¬ Altered data s₁.flat.pages rest pid' := fun hrest =>
        hpid h0 (reached_subset data _ rest hrest.2.1)
      rw [hsearched.kept pid' hkept, h.self, if_pos ⟨h0, htaken⟩]
    · rw [hsearched.altered pid' hrest, h.other pid' hne]
  kept := by
    intro pid' hkept
    have hrest : pid' ≠ pid → ¬ Altered data s₁.flat.pages rest pid' := fun hne hrest =>
      hkept ((h.altered_iff hpid).mpr (.inr ⟨hne, hrest⟩))
    by_cases heq : pid' = pid
    · subst heq
      have hnot : ¬ (pid' ≠ 0 ∧ TakenFor data (s.flat.pages pid')) := fun htaken =>
        hkept ((h.altered_iff hpid).mpr (.inl ⟨rfl, htaken⟩))
      have hself : ¬ Altered data s₁.flat.pages rest pid' := fun hrest' =>
        hpid hrest'.1 (reached_subset data _ rest hrest'.2.1)
      rw [hsearched.kept pid' hself, h.self, if_neg hnot]
    · rw [hsearched.kept pid' (hrest heq), h.other pid' heq]

end Passed

/-- **The search** through the frames. -/
theorem run_tryInsertLoop (layer : PageLayer) (data : List UInt8) : ∀ {rest pre : List Nat} {s : RecordStore},
    s.frames = pre ++ rest → DistinctFrames rest →
      ∃ (found : Option (Nat × Nat)) (s' : RecordStore),
        (tryInsertLoop data rest.length pre.length).run (recordStore layer) s = (found, s') ∧
          Found data s.flat.pages rest found ∧ Searched data s s' rest := by
  intro rest
  induction rest with
  | nil =>
    intro pre s _ _
    exact ⟨none, s, rfl, fun _ hmem => absurd hmem List.not_mem_nil, rfl, rfl, rfl, rfl,
      fun _ haltered => absurd haltered.2.1 List.not_mem_nil, fun _ _ => rfl⟩
  | cons pid rest ih =>
    intro pre s hframes hnodup
    have hsplit : s.frames = (pre ++ [pid]) ++ rest := by rw [hframes, List.append_assoc, List.singleton_append]
    have hget : s.frames.getD pre.length 0 = pid := by
      rw [hframes, List.getD_eq_getElem?_getD, List.getElem?_append_right (Nat.le_refl _), Nat.sub_self]
      rfl
    have hmem : pid ∈ s.frames := by
      rw [hframes]
      exact List.mem_append_right _ List.mem_cons_self
    rw [DistinctFrames] at hnodup
    have hrest : DistinctFrames rest := by
      rw [List.filter_cons] at hnodup
      split at hnodup
      · exact (List.nodup_cons.mp hnodup).2
      · exact hnodup
    have hpid : pid ≠ 0 → pid ∉ rest := by
      intro h0 hin
      rw [List.filter_cons, if_pos (by simpa using h0)] at hnodup
      exact (List.nodup_cons.mp hnodup).1 (List.mem_filter.mpr ⟨hin, by simpa using h0⟩)
    -- the loop goes on behind a frame with which it does not end
    have hgo : ∀ s₁, Passed data s s₁ pid → ∃ (found : Option (Nat × Nat)) (s' : RecordStore),
        (tryInsertLoop data rest.length (pre.length + 1)).run (recordStore layer) s₁ = (found, s') ∧
          Found data s.flat.pages (pid :: rest) found ∧ Searched data s s' (pid :: rest) := by
      intro s₁ hpassed
      obtain ⟨found, s', hrun, hfound, hsearched⟩ := @ih (pre ++ [pid]) s₁ (hpassed.cached.trans hsplit) hrest
      rw [List.length_append, List.length_singleton] at hrun
      exact ⟨found, s', hrun, hpassed.found hpid hfound, hpassed.searched hpid hsearched⟩
    rw [List.length_cons, tryInsertLoop]
    simp only [Prog.run_bind, run_poolPageId, hget, Prog.run_ite]
    by_cases h0 : pid = 0
    · rw [if_pos h0]
      exact hgo s ⟨fun hgoes => hgoes.1 h0, rfl, rfl, rfl, rfl, (if_neg fun hself => hself.1 h0).symm,
        fun _ _ => rfl⟩
    rw [if_neg h0]
    have hpin : s.pin layer pid = (some (s.flat.pages pid), s.pinned layer pid) := if_pos ⟨h0, .inl hmem⟩
    have hcached : (s.pinned layer pid).frames = s.frames := if_pos hmem
    simp only [Prog.run_bind, run_poolPin, hpin, Prog.run_ite]
    have hleave : ¬ TakenFor data (s.flat.pages pid) → Passed data s (s.pinned layer pid) pid := fun hnot =>
      ⟨fun hgoes => hnot hgoes.2.1, hcached, rfl, rfl, rfl, (if_neg fun hself => hnot hself.2).symm,
        fun _ _ => rfl⟩
    by_cases htype : pageType (s.flat.pages pid) = pageTypeRecord
    · rw [if_neg (not_not.mpr htype)]
      by_cases hroom : (data.length + slotEntrySize) % 2 ^ 16 ≤ slotPageFreeSpace (s.flat.pages pid)
      · have htaken : TakenFor data (s.flat.pages pid) := ⟨htype, hroom⟩
        rw [if_pos hroom]
        cases hinsert : slotPageInsert (s.flat.pages pid) data with
        | mk r page' =>
          have hinserted : insertedPage data (s.flat.pages pid) = page' := by rw [insertedPage, hinsert]
          have hself : ((s.pinned layer pid).set pid page').flat.pages pid = page' :=
            pages_set_self s.flat page'
          have hother : ∀ pid', pid' ≠ pid →
              ((s.pinned layer pid).set pid page').flat.pages pid' = s.flat.pages pid' :=
            fun pid' hne => pages_set_of_ne s.flat page' hne
          cases r with
          | ok i =>
            -- the search ends here
            have haccepts : Accepts data (s.flat.pages pid) := ⟨htaken, by rw [hinsert]; rfl⟩
            have hreached : reached data s.flat.pages (pid :: rest) = [pid] := by
              rw [reached, if_pos ⟨h0, haccepts⟩]
            refine ⟨some (pid, i), (s.pinned layer pid).set pid page', ?_,
              ⟨List.mem_cons_self, h0, haccepts, by rw [hinsert]⟩, hcached, rfl, rfl, rfl, ?_, ?_⟩
            · simp only [Prog.run_bind, run_poolWrite, run_poolDirty, run_poolUnpin, Prog.run_pure]
            · intro pid' haltered
              rw [Altered, hreached, List.mem_singleton] at haltered
              obtain ⟨-, rfl, -⟩ := haltered
              rw [hself, hinserted]
            · intro pid' hkept
              refine hother pid' fun heq => hkept ?_
              subst heq
              exact ⟨h0, by rw [hreached]; exact List.mem_singleton.mpr rfl, htaken⟩
          | error err =>
            simp only [Prog.run_bind, run_poolWrite, run_poolUnpin]
            refine hgo _ ⟨fun hgoes => ?_, hcached, rfl, rfl, rfl, ?_, hother⟩
            · have hok := hgoes.2.2
              rw [hinsert] at hok
              cases hok
            · rw [hself, if_pos ⟨h0, htaken⟩, hinserted]
      · rw [if_neg hroom]
        exact hgo _ (hleave fun htaken => hroom htaken.2)
    · rw [if_pos htype]
      exact hgo _ (hleave fun htaken => htype htaken.1)

/-! ## Pages of its own -/

/-- All pages that changed were handed out since. -/
structure OwnPages (s s' : RecordStore) : Prop where
  handedOut : s.handedOut ⊆ s'.handedOut
  changed : ∀ pid, s'.flat.pages pid ≠ s.flat.pages pid → pid ∈ s'.handedOut

namespace OwnPages

variable {s s' s'' : RecordStore}

theorem refl (s : RecordStore) : OwnPages s s := ⟨List.Subset.refl _, fun _ hne => absurd rfl hne⟩

theorem trans (h : OwnPages s s') (h' : OwnPages s' s'') : OwnPages s s'' := by
  refine ⟨List.Subset.trans h.handedOut h'.handedOut, fun pid hne => ?_⟩
  by_cases hfirst : s'.flat.pages pid = s.flat.pages pid
  · exact h'.changed pid (by rwa [hfirst])
  · exact h'.handedOut (h.changed pid hfirst)

theorem write (h : OwnPages s s') {pid : Nat} (hpid : pid ∈ s'.handedOut) (page : PageData) :
    OwnPages s (s'.set pid page) := by
  refine h.trans ⟨List.Subset.refl _, fun other hne => ?_⟩
  by_cases heq : other = pid
  · rw [heq]
    exact hpid
  · exact absurd (pages_set_of_ne s'.flat page heq) hne

end OwnPages

/-- Nothing was written, handed out or asked for, and the frames hold different pages. -/
structure Quiet (layer : PageLayer) (s s' : RecordStore) : Prop where
  pages : s'.flat.pages = s.flat.pages
  handedOut : s'.handedOut = s.handedOut
  requests : s'.flat.requests = s.flat.requests
  fewer : s'.flat.used.length ≤ s.flat.used.length
  distinct : layer.KeepsDistinct → DistinctFrames s.frames → DistinctFrames s'.frames

namespace Quiet

variable {layer : PageLayer} {s s' s'' : RecordStore}

theorem refl (layer : PageLayer) (s : RecordStore) : Quiet layer s s := ⟨rfl, rfl, rfl, le_rfl, fun _ h => h⟩

theorem trans (h : Quiet layer s s') (h' : Quiet layer s' s'') : Quiet layer s s'' :=
  ⟨h'.pages.trans h.pages, h'.handedOut.trans h.handedOut, h'.requests.trans h.requests,
    h'.fewer.trans h.fewer, fun hlayer hframes => h'.distinct hlayer (h.distinct hlayer hframes)⟩

theorem ownPages (h : Quiet layer s s') : OwnPages s s' :=
  ⟨h.handedOut ▸ List.Subset.refl _, fun pid hne => absurd (congrFun h.pages pid) hne⟩

end Quiet

section Own

variable (layer : PageLayer) (s : RecordStore)

theorem quiet_pinned (pid : Nat) : Quiet layer s (s.pinned layer pid) := by
  refine ⟨rfl, rfl, rfl, le_rfl, fun hlayer hframes => ?_⟩
  by_cases hmem : pid ∈ s.frames
  · rwa [show (s.pinned layer pid).frames = s.frames from if_pos hmem]
  · rw [show (s.pinned layer pid).frames = layer.load s.frames pid from if_neg hmem]
    exact hlayer s.frames pid hframes hmem

theorem quiet_pin (pid : Nat) : Quiet layer s (s.pin layer pid).2 := by
  rw [RecordStore.pin]
  split
  · exact quiet_pinned layer s pid
  · exact ⟨rfl, rfl, rfl, le_rfl, fun _ h => h⟩

theorem quiet_overflowFreeLoop : ∀ (fuel pid : Nat) (s : RecordStore),
    Quiet layer s ((overflowFreeLoop fuel pid).run (recordStore layer) s).2 := by
  intro fuel
  induction fuel with
  | zero => exact fun _ s => Quiet.refl layer s
  | succ fuel ih =>
    intro pid s
    rw [overflowFreeLoop]
    split
    · exact Quiet.refl layer s
    · rw [Prog.run_bind, run_poolPin]
      have hpin := quiet_pin layer s pid
      cases hpinned : s.pin layer pid with
      | mk page s₁ =>
        rw [hpinned] at hpin
        cases page with
        | none => exact hpin
        | some page =>
          have hrelease : Quiet layer s (s₁.release pid) :=
            ⟨hpin.pages, hpin.handedOut, hpin.requests,
              (List.length_filter_le _ _).trans hpin.fewer, hpin.distinct⟩
          exact hrelease.trans (ih (nextPage page) (s₁.release pid))

theorem quiet_dropChain (first : Nat) (s : RecordStore) :
    Quiet layer s ((dropChain first).run (recordStore layer) s).2 := by
  rw [dropChain]
  split
  · exact quiet_overflowFreeLoop layer _ _ s
  · exact Quiet.refl layer s

theorem allocate_granted (h : layer.grantsPage s.flat.requests = true) : s.allocate layer =
    (some (layer.allocator.pick s.flat.used, zeroPage), s.grow layer) := if_pos h

theorem allocate_refused (h : layer.grantsPage s.flat.requests = false) :
    s.allocate layer = (none, { s with flat := s.flat.refuse }) := if_neg (Bool.eq_false_iff.mp h)

theorem ownPages_refuse : OwnPages s { s with flat := s.flat.refuse } :=
  ⟨List.Subset.refl _, fun _ hne => absurd rfl hne⟩

theorem ownPages_grow : OwnPages s (s.grow layer) := by
  refine ⟨List.subset_cons_self _ _, fun pid hne => ?_⟩
  by_cases heq : pid = layer.allocator.pick s.flat.used
  · rw [heq]
    exact List.mem_cons_self
  · exact absurd (pages_grow_of_ne s.flat heq) hne

theorem ownPages_dropChain (first : Nat) :
    OwnPages s ((dropChain first).run (recordStore layer) s).2 :=
  (quiet_dropChain layer first s).ownPages

theorem ownPages_linkPrevious {prev : Nat} (hprev : prev ≠ 0 → prev ∈ s.handedOut) (pid : Nat) :
    OwnPages s ((linkPrevious prev pid).run (recordStore layer) s).2 := by
  rw [linkPrevious]
  split
  · next h0 =>
    rw [Prog.run_bind, run_poolPin]
    have hpin := (quiet_pin layer s prev).ownPages
    cases hpinned : s.pin layer prev with
    | mk page s₁ =>
      rw [hpinned] at hpin
      cases page with
      | none => exact hpin
      | some page => exact hpin.write (hpin.handedOut (hprev h0)) _
  · exact OwnPages.refl s

/-- **The loop of an insertion** writes to new pages only, the link of the one before among them. -/
theorem ownPages_buildChain : ∀ (fuel : Nat) (remaining : List UInt8) (first : Nat) {prev : Nat}
    (s : RecordStore), (prev ≠ 0 → prev ∈ s.handedOut) →
      OwnPages s ((buildChain fuel remaining first prev).run (recordStore layer) s).2 := by
  intro fuel
  induction fuel with
  | zero => exact fun _ _ _ s _ => OwnPages.refl s
  | succ fuel ih =>
    intro remaining first prev s hprev
    rw [buildChain]
    split
    · exact OwnPages.refl s
    · rw [Prog.run_bind, run_poolAlloc]
      cases hgrant : layer.grantsPage s.flat.requests with
      | true =>
        rw [allocate_granted layer s hgrant]
        set pid := layer.allocator.pick s.flat.used with hpid
        have hwritten := (ownPages_grow layer s).write List.mem_cons_self
          (spanPage (remaining.take overflowDataSpace))
        set s₁ := (s.grow layer).set pid (spanPage (remaining.take overflowDataSpace)) with hs₁
        have hlink := ownPages_linkPrevious layer s₁
          (fun h0 => (ownPages_grow layer s).handedOut (hprev h0)) pid
        simp only [Prog.run_bind, run_poolWrite, run_poolDirty, run_poolUnpin]
        exact (hwritten.trans hlink).trans (ih _ _ _ fun _ => hlink.handedOut List.mem_cons_self)
      | false =>
        rw [allocate_refused layer s hgrant]
        simp only [Prog.run_bind, Prog.run_pure]
        exact (ownPages_refuse s).trans (ownPages_dropChain layer _ first)

theorem ownPages_overflowInsert (data : List UInt8) :
    OwnPages s ((overflowInsert data).run (recordStore layer) s).2 := by
  rw [overflowInsert, Prog.run_bind]
  have hchain := @ownPages_buildChain layer data.length (data.drop maxInline) 0 0 s (fun h => absurd rfl h)
  cases hrun : (buildChain data.length (data.drop maxInline) 0 0).run (recordStore layer) s with
  | mk first s₁ =>
    rw [hrun] at hchain
    cases first with
    | none => exact hchain
    | some first =>
      dsimp only
      rw [Prog.run_bind, run_poolAlloc]
      cases hgrant : layer.grantsPage s₁.flat.requests with
      | true =>
        rw [allocate_granted layer s₁ hgrant]
        have hgrown := hchain.trans (ownPages_grow layer s₁)
        have hmem : layer.allocator.pick s₁.flat.used ∈ (s₁.grow layer).handedOut := List.mem_cons_self
        dsimp only
        cases slotPageInsert (slotPageInit (layer.allocator.pick s₁.flat.used)) (inlineRecord data first) with
        | mk r page =>
          cases r with
          | error err =>
            simp only [Prog.run_bind, run_poolWrite, run_poolUnpin, Prog.run_pure]
            exact (hgrown.write hmem page).trans (ownPages_dropChain layer _ first)
          | ok i => exact hgrown.write hmem _
      | false =>
        rw [allocate_refused layer s₁ hgrant]
        simp only [Prog.run_bind, Prog.run_pure]
        exact (hchain.trans (ownPages_refuse s₁)).trans (ownPages_dropChain layer _ first)

end Own

/-! ## Record pages and others -/

/-- No page has changed but record pages and pages that were handed out since. -/
def OnlyRecordPages (isRecord : Nat → Prop) (s s' : RecordStore) : Prop :=
  ∀ pid, s'.flat.pages pid ≠ s.flat.pages pid → isRecord pid ∨ pid ∈ s'.handedOut

/-- The search finds no room, and this is the page that is handed out then. -/
def TakenNew (layer : PageLayer) (data : List UInt8) (s : RecordStore) (pid : Nat) : Prop :=
  (∀ other ∈ s.frames, other ≠ 0 → ¬ Accepts data (s.flat.pages other)) ∧
    layer.grantsPage s.flat.requests = true ∧ pid = layer.allocator.pick s.flat.used

/-- The search comes to no other page that passes for a record page with room and that
`slot_page_insert` would change. -/
def SparesOthers (layer : PageLayer) (isRecord : Nat → Prop) (data : List UInt8) (s : RecordStore) : Prop :=
  ∀ pid, Altered data s.flat.pages s.frames pid →
    insertedPage data (s.flat.pages pid) ≠ s.flat.pages pid → isRecord pid ∨ TakenNew layer data s pid

theorem Searched.changed_iff {data : List UInt8} {s s' : RecordStore} {frames : List Nat}
    (h : Searched data s s' frames) (pid : Nat) : s'.flat.pages pid ≠ s.flat.pages pid ↔
      Altered data s.flat.pages frames pid ∧ insertedPage data (s.flat.pages pid) ≠ s.flat.pages pid := by
  by_cases haltered : Altered data s.flat.pages frames pid
  · rw [h.altered pid haltered]
    exact (and_iff_right haltered).symm
  · rw [h.kept pid haltered]
    exact iff_of_false (fun hne => hne rfl) fun hboth => haltered hboth.1

/-- How an insertion of an inline record ends, after the search. -/
inductive Ends (layer : PageLayer) (data : List UInt8) (s s₁ : RecordStore) :
    Option (Nat × Nat) → Except NostrDBError RecordId × RecordStore → Prop
  | existing {pid i : Nat} : Ends layer data s s₁ (some (pid, i)) (.ok (recordId pid i), s₁)
  | refused (refuse : layer.grantsPage s.flat.requests = false) :
    Ends layer data s s₁ none (.error .full, { s₁ with flat := s₁.flat.refuse })
  | fresh (grant : layer.grantsPage s.flat.requests = true) (i : Nat) :
    Ends layer data s s₁ none (.ok (recordId (layer.allocator.pick s.flat.used) i),
      (s₁.grow layer).set (layer.allocator.pick s.flat.used)
        (insertedPage data (slotPageInit (layer.allocator.pick s.flat.used))))

/-- **Where an insertion finds its page**: on a page of the search, or on a new one. -/
theorem run_recordInsert_inline (layer : PageLayer) {data : List UInt8} {s : RecordStore}
    (hlength : data.length ≠ 0) (hinline : data.length ≤ maxInlineRecordSize)
    (hframes : DistinctFrames s.frames) : ∃ (found : Option (Nat × Nat)) (s₁ : RecordStore),
      Found data s.flat.pages s.frames found ∧ Searched data s s₁ s.frames ∧
        Ends layer data s s₁ found ((recordInsert data).run (recordStore layer) s) := by
  obtain ⟨found, s₁, hrun, hfound, hsearched⟩ := @run_tryInsertLoop layer data s.frames [] s rfl hframes
  refine ⟨found, s₁, hfound, hsearched, ?_⟩
  rw [List.length_nil] at hrun
  simp only [recordInsert, if_neg hlength, if_neg (not_lt.mpr hinline), tryInsertExisting, Prog.run_bind,
    run_poolSize, hrun]
  cases found with
  | some p => exact .existing
  | none =>
    simp only [Prog.run_bind, run_poolAlloc]
    cases hgrant : layer.grantsPage s.flat.requests with
    | false =>
      rw [allocate_refused layer s₁ (by rwa [hsearched.requests])]
      exact .refused hgrant
    | true =>
      rw [allocate_granted layer s₁ (by rwa [hsearched.requests]), hsearched.used]
      have hmax : maxInlineRecordSize = 4068 := rfl
      have hroom : Slots.needed [] data ≤ Slots.free [] := by
        show data.length + 4 ≤ 4072
        omega
      obtain ⟨hok, -⟩ := (layout_slotPageInit (layer.allocator.pick s.flat.used)).slotPageInsert_of_le
        (List.ne_nil_of_length_pos (Nat.pos_of_ne_zero hlength)) (by omega) hroom
      have hpage : insertedPage data (slotPageInit (layer.allocator.pick s.flat.used)) =
        (slotPageInsert (slotPageInit (layer.allocator.pick s.flat.used)) data).2 := rfl
      have hends := @Ends.fresh layer data s s₁ hgrant (Slots.insert [] data).1
      rw [hpage] at hends
      dsimp only
      cases hinsert : slotPageInsert (slotPageInit (layer.allocator.pick s.flat.used)) data with
      | mk r page =>
        rw [hinsert] at hok hends
        obtain rfl : r = .ok (Slots.insert [] data).1 := hok
        exact hends

/-- Every request is granted, and a page that is loaded takes a new frame. -/
def newFrames : PageLayer := .granting .lowest fun frames pid => frames ++ [pid]

/-- The bytes of an event on its overflow page: with the header of that page in front, 2 at
the place of the page type, and a free space of 3841 bytes. -/
def lookalike : List UInt8 := [1, 1, 1, 1, 1, 15, 1, 1, 2, 0, 0]

/-- An event with a content of 3917 bytes and no tags, as it is stored. -/
def lookalikeEvent : List UInt8 :=
  (List.replicate 148 1 ++ toLE 2 3917 ++ toLE 2 2 ++ List.replicate 3908 1) ++ lookalike

/-- The store with that event: an overflow page and the primary page. -/
def lookalikeStore : RecordStore :=
  let s := ((RecordStore.mk .empty [] 0 []).grow newFrames).set 1 (spanPage lookalike)
  (s.grow newFrames).set 2
    (write16 (insertedPage (inlineRecord lookalikeEvent 1) (slotPageInit 2)) (slotAt 0 + 2) spannedMarker)

theorem run_recordInsert_lookalike : (recordInsert lookalikeEvent).run (recordStore newFrames)
    ⟨.empty, [], 0, []⟩ = (.ok (recordId 2 0), lookalikeStore) := by
  have hfirst : (List.replicate 148 1 ++ toLE 2 3917 ++ toLE 2 2 ++ List.replicate 3908 1).length = 4060 := by
    rw [List.length_append, List.length_append, List.length_append, List.length_replicate,
      List.length_replicate, length_toLE, length_toLE]
  have hlength : lookalikeEvent.length = 4071 := by
    rw [lookalikeEvent, List.length_append, hfirst]
    rfl
  have hdrop : lookalikeEvent.drop maxInline = lookalike := List.drop_left' hfirst
  have hmax : maxInlineRecordSize = 4068 := rfl
  have hchain : (buildChain 4071 lookalike 0 0).run (recordStore newFrames) ⟨.empty, [], 0, []⟩ =
      (some 1, ((RecordStore.mk .empty [] 0 []).grow newFrames).set 1 (spanPage lookalike)) := rfl
  obtain ⟨page, hinsert, -⟩ := primary_insert lookalikeEvent 2 1
  have hpick : newFrames.allocator.pick
      (((RecordStore.mk .empty [] 0 []).grow newFrames).set 1 (spanPage lookalike)).flat.used = 2 := rfl
  rw [recordInsert, if_neg (by omega), if_pos (by omega), overflowInsert, hlength, hdrop]
  simp only [Prog.run_bind, hchain, run_poolAlloc, allocate_granted newFrames _ rfl, hpick, hinsert,
    run_poolWrite, run_poolDirty, run_poolUnpin, Prog.run_pure]
  rw [lookalikeStore, insertedPage, hinsert]
  rfl

end OnionRelay.Db
