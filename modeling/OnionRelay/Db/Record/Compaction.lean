import OnionRelay.Db.Record.Layout

/-!
# Compaction of a record page

`slot_page_compact` copies the live records one after another to the end of a buffer
and then back to the page.  `Moved` is what holds after the first slots; the slots
stay what they were, and the free space is in one piece (`slotPageCompact_eq`).
-/

namespace OnionRelay.Db

open OnionRelay.Lib

namespace Layout

variable {page : PageData} {slots : Slots}

/-- The pages in the loop after the first `n` slots. -/
structure Moved (page : PageData) (slots : Slots) (n : Nat) (st : Compaction) : Prop where
  newEnd : st.newEnd + Slots.bytes (slots.take n) = dbPageSize
  length : ∀ j < slots.length, slotLength st.page j = slotLength page j
  waiting : ∀ j < slots.length, n ≤ j → slotOffset st.page j = slotOffset page j
  outside : ∀ off k, off + k ≤ 24 ∨ slotAt slots.length ≤ off → readAt st.page off k = readAt page off k
  deleted : ∀ j, slots[j]? = some none → SlotDeleted st.page j
  stored : ∀ j bytes, j < n → slots[j]? = some (some bytes) →
    st.newEnd ≤ slotOffset st.page j ∧ slotOffset st.page j + bytes.length ≤ dbPageSize ∧
      readAt st.temp (slotOffset st.page j) bytes.length = bytes
  apart : ∀ j k bytes bytes', j < n → k < n → slots[j]? = some (some bytes) →
    slots[k]? = some (some bytes') → j ≠ k → Apart st.page j k

theorem moved_zero (h : Layout page slots) : Moved page slots 0 ⟨page, zeroPage, dbPageSize⟩ where
  newEnd := rfl
  length := fun _ _ => rfl
  waiting := fun _ _ _ => rfl
  outside := fun _ _ _ => rfl
  deleted := h.deleted
  stored := nofun
  apart := nofun

/-- **One round of the loop.** -/
theorem Moved.succ (h : Layout page slots) {n : Nat} {st : Compaction} (hn : n < slots.length)
    (hst : Moved page slots n st) : Moved page slots (n + 1) (st.move n) := by
  have hmem := List.getElem?_eq_getElem hn
  have hbytes : Slots.bytes (slots.take (n + 1)) = Slots.bytes (slots.take n) + Slots.size slots[n] := by
    rw [List.take_succ_eq_append_getElem hn, Slots.bytes_append]
    rfl
  cases hslot : slots[n] with
  | none =>
    rw [hslot] at hmem hbytes
    -- a deleted slot is skipped
    rw [Compaction.move, if_pos (hst.deleted n hmem)]
    have hlive : ∀ j bytes, j < n + 1 → slots[j]? = some (some bytes) → j < n := by
      intro j bytes hj hlive
      refine Nat.lt_of_le_of_ne (Nat.le_of_lt_succ hj) ?_
      rintro rfl
      exact absurd (hmem.symm.trans hlive) nofun
    refine { hst with newEnd := ?_, waiting := ?_, stored := ?_, apart := ?_ }
    · rw [hbytes, Slots.size, Nat.add_zero]
      exact hst.newEnd
    · exact fun j hj hle => hst.waiting j hj (Nat.le_of_succ_le hle)
    · exact fun j bytes hj hmemj => hst.stored j bytes (hlive j bytes hj hmemj) hmemj
    · exact fun j k bytes bytes' hj hk hmemj hmemk =>
        hst.apart j k bytes bytes' (hlive j bytes hj hmemj) (hlive k bytes' hk hmemk) hmemj hmemk
  | some bytes =>
    rw [hslot] at hmem hbytes
    obtain ⟨hne, hlength, hbehind, hinside, hcontent⟩ := h.stored n bytes hmem
    have hsize : dbPageSize = 4096 := rfl
    have hdir := h.room
    have haccounts := h.accounts
    have hnewEnd := hst.newEnd
    have hbelow := slotAt_mono hn
    have hlow := header_le_slotAt n
    have htotal := Slots.bytes_take_le slots (n + 1)
    have hlen : slotLength st.page n = bytes.length := (hst.length n hn).trans hlength
    have hoff : slotOffset st.page n = slotOffset page n := hst.waiting n hn (Nat.le_refl n)
    have hpos := List.length_pos_of_ne_nil hne
    have hnot : ¬ SlotDeleted st.page n := fun hdel => by
      have hzero := hdel.2
      omega
    rw [Slots.size] at hbytes
    have hend : sub16 st.newEnd bytes.length = st.newEnd - bytes.length := sub16_eq (by omega) (by omega)
    have hread : readAt st.page (slotOffset page n) bytes.length = bytes := by
      rw [hst.outside _ _ (.inr (by omega)), hcontent]
    rw [Compaction.move, if_neg hnot]
    simp only [hlen, hoff, hend, hread]
    have hself : slotOffset (write16 st.page (slotAt n) (st.newEnd - bytes.length)) n =
        st.newEnd - bytes.length := read16_write16 (by omega)
    have hother : ∀ j, j ≠ n → slotOffset (write16 st.page (slotAt n) (st.newEnd - bytes.length)) j =
        slotOffset st.page j := fun j hj => slotOffset_write16_slotAt hj.symm
    have hlengths := slotLength_write16_slotAt st.page n
    have hsplit : ∀ j, j < n + 1 → j ≠ n → j < n := by omega
    refine ⟨?_, ?_, ?_, ?_, ?_, ?_, ?_⟩
    · simp only
      omega
    · exact fun j hj => (hlengths j _).trans (hst.length j hj)
    · exact fun j hj hle => (hother j (by omega)).trans (hst.waiting j hj (by omega))
    · intro off k hoff'
      exact (readAt_write16 (by omega)).trans (hst.outside off k hoff')
    · intro j hj
      have hjn : j ≠ n := by
        rintro rfl
        exact absurd (hmem.symm.trans hj) nofun
      exact ⟨(hother j hjn).trans (hst.deleted j hj).1, (hlengths j _).trans (hst.deleted j hj).2⟩
    · intro j bytes' hj hmemj
      dsimp only
      by_cases hjn : j = n
      · subst hjn
        obtain rfl := Option.some.inj (Option.some.inj (hmem.symm.trans hmemj))
        rw [hself]
        exact ⟨Nat.le_refl _, by omega, readAt_writeAt_same _ _ _ rfl⟩
      · obtain ⟨hbehind', hinside', hcontent'⟩ := hst.stored j bytes' (hsplit j hj hjn) hmemj
        rw [hother j hjn, readAt_writeAt_of_disjoint (.inr (by omega))]
        exact ⟨by omega, hinside', hcontent'⟩
    · -- the record is copied below all the others
      have hbelowAll : ∀ j bytes', j < n + 1 → j ≠ n → slots[j]? = some (some bytes') →
          slotOffset (write16 st.page (slotAt n) (st.newEnd - bytes.length)) n +
              slotLength (write16 st.page (slotAt n) (st.newEnd - bytes.length)) n ≤
            slotOffset (write16 st.page (slotAt n) (st.newEnd - bytes.length)) j := by
        intro j bytes' hj hjn hmemj
        obtain ⟨hbehind', -, -⟩ := hst.stored j bytes' (hsplit j hj hjn) hmemj
        rw [hself, hlengths, hlen, hother j hjn]
        omega
      intro j k bytes₁ bytes₂ hj hk hmemj hmemk hjk
      by_cases hjn : j = n
      · subst hjn
        exact .inl (hbelowAll k bytes₂ hk hjk.symm hmemk)
      by_cases hkn : k = n
      · subst hkn
        exact .inr (hbelowAll j bytes₁ hj hjk hmemj)
      · show _ + slotLength (write16 _ _ _) j ≤ _ ∨ _ + slotLength (write16 _ _ _) k ≤ _
        rw [hother j hjn, hother k hkn, hlengths, hlengths]
        exact hst.apart j k bytes₁ bytes₂ (hsplit j hj hjn) (hsplit k hk hkn) hmemj hmemk hjk

theorem moved_foldl (h : Layout page slots) : ∀ {n : Nat}, n ≤ slots.length →
    Moved page slots n ((List.range n).foldl Compaction.move ⟨page, zeroPage, dbPageSize⟩) := by
  intro n
  induction n with
  | zero => exact fun _ => h.moved_zero
  | succ n ih =>
    intro hn
    rw [List.range_succ, List.foldl_append, List.foldl_cons, List.foldl_nil]
    exact Moved.succ h hn (ih (Nat.le_of_succ_le hn))

section CopyBack

variable {st : Compaction}

theorem copyBack_eq (hend : st.newEnd ≤ dbPageSize) : st.copyBack =
    write16 (write16 (writeAt st.page st.newEnd
      (readAt st.temp st.newEnd (dbPageSize - st.newEnd))) 12 st.newEnd) 14 0 := by
  rw [Compaction.copyBack]
  split
  · rfl
  · next hle =>
    rw [show dbPageSize - st.newEnd = 0 by omega, show readAt st.temp st.newEnd 0 = [] from rfl, writeAt_nil]

theorem readAt_copyBack_low (hend : st.newEnd ≤ dbPageSize) {off k : Nat}
    (hoff : off + k ≤ st.newEnd) (hfield : off + k ≤ 12 ∨ 16 ≤ off) :
    readAt st.copyBack off k = readAt st.page off k := by
  rw [copyBack_eq hend, readAt_write16 (by omega), readAt_write16 (by omega),
    readAt_writeAt_of_disjoint (.inl hoff)]

theorem readAt_copyBack_high (hend : st.newEnd ≤ dbPageSize) (hlow : 16 ≤ st.newEnd) {off k : Nat}
    (hoff : st.newEnd ≤ off) (hinside : off + k ≤ dbPageSize) :
    readAt st.copyBack off k = readAt st.temp off k := by
  rw [copyBack_eq hend, readAt_write16 (by omega), readAt_write16 (by omega),
    readAt_writeAt_readAt _ _ hoff (by omega)]

theorem counters_copyBack (hend : st.newEnd ≤ dbPageSize) :
    freeSpaceEnd st.copyBack = st.newEnd ∧ fragmentedSpace st.copyBack = 0 := by
  have hsize : dbPageSize = 4096 := rfl
  rw [copyBack_eq hend, freeSpaceEnd, fragmentedSpace, read16_write16_of_ne (.inl (Nat.le_refl _)),
    read16_write16 (by omega), read16_write16 (by decide)]
  exact ⟨rfl, rfl⟩

end CopyBack

/-- What the loop leaves, with the records copied back. -/
theorem Moved.layout (h : Layout page slots) {st : Compaction} (hst : Moved page slots slots.length st) :
    Layout st.copyBack slots := by
  have hnewEnd := hst.newEnd
  have haccounts := h.accounts
  have hdir := h.room
  have hlow := header_le_slotAt slots.length
  rw [List.take_length] at hnewEnd
  have hend : st.newEnd ≤ dbPageSize := by omega
  obtain ⟨hfree, hfragmented⟩ := counters_copyBack hend
  have hheader : ∀ off, off + 2 ≤ 12 → read16 st.copyBack off = read16 page off := by
    intro off hoff
    rw [read16, readAt_copyBack_low hend (by omega) (.inl hoff), hst.outside _ _ (.inl (by omega)),
      read16]
  have hslot : ∀ j < slots.length, slotOffset st.copyBack j = slotOffset st.page j ∧
      slotLength st.copyBack j = slotLength st.page j := by
    intro j hj
    have hlowj := header_le_slotAt j
    have hmono := slotAt_mono hj
    rw [slotOffset, slotLength, read16, read16, readAt_copyBack_low hend (by omega) (by omega),
      readAt_copyBack_low hend (by omega) (by omega)]
    exact ⟨rfl, rfl⟩
  have hlive : ∀ {j : Nat} {slot : Option (List UInt8)}, slots[j]? = some slot → j < slots.length :=
    fun hj => (List.getElem?_eq_some_iff.mp hj).1
  refine ⟨(hheader 8 (by omega)).trans h.count, (hheader 10 (by omega)).trans h.start, ?_, ?_, ?_, ?_, ?_⟩
  · rw [hfree]
    omega
  · rw [hfree, hfragmented]
    exact hnewEnd
  · intro j hj
    rw [SlotDeleted, (hslot j (hlive hj)).1, (hslot j (hlive hj)).2]
    exact hst.deleted j hj
  · intro j bytes hj
    obtain ⟨hbehind, hinside, hcontent⟩ := hst.stored j bytes (hlive hj) hj
    obtain ⟨hne, hlength, -, -, -⟩ := h.stored j bytes hj
    obtain ⟨hoffset, hlen⟩ := hslot j (hlive hj)
    refine ⟨hne, hlen.trans ((hst.length j (hlive hj)).trans hlength), ?_, ?_, ?_⟩
    · rw [hfree, hoffset]
      exact hbehind
    · rw [hoffset]
      exact hinside
    · rw [hoffset, readAt_copyBack_high hend (by omega) hbehind hinside, hcontent]
  · intro j k bytes bytes' hj hk hjk
    rw [Apart, (hslot j (hlive hj)).1, (hslot j (hlive hj)).2, (hslot k (hlive hk)).1,
      (hslot k (hlive hk)).2]
    exact hst.apart j k bytes bytes' (hlive hj) (hlive hk) hj hk hjk

/-- **Compaction** changes no slot and leaves the free space in one piece. -/
theorem slotPageCompact_eq (h : Layout page slots) :
    Layout (slotPageCompact page) slots ∧ fragmentedSpace (slotPageCompact page) = 0 := by
  rw [slotPageCompact]
  split
  · next hzero => exact ⟨h, hzero⟩
  · have hmoved := h.moved_foldl (Nat.le_refl slots.length)
    have hnewEnd := hmoved.newEnd
    rw [h.count]
    exact ⟨hmoved.layout h, (counters_copyBack (by omega)).2⟩

end Layout

end OnionRelay.Db
