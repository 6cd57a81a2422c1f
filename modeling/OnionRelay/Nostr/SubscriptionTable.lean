import OnionRelay.Nostr.Subscription

/-!
# The subscription manager as a table

The searches of the manager take no notice of case, so two ids that differ in case only
are one subscription, which keeps the id as it was spelt first.  `folded` sees the slots
so: by client and id in lower case, with that spelling and the filters.

For ids that are not empty this needs no `Distinct`: each operation is that of the
`SlotMap` (`add_folded`, `remove_folded`, `folded_removeClient`).
-/

namespace OnionRelay.NostrSubscriptionManager

open OnionRelay.Lib

/-- Ids that differ in case only are one subscription. -/
def keyOf (fd : Int) (id : CStr) : Key := (fd, id.map lowerChr)

/-- The id as it was spelt first, and the filters. -/
abbrev Spelt := CStr × List NostrFilter

def foldedEntry (sub : NostrSubscription) : SlotMap.Slot Key Spelt :=
  if sub.active then some (keyOf sub.clientFd sub.subscriptionId, sub.subscriptionId, sub.filters) else none

def folded (manager : NostrSubscriptionManager) : List (SlotMap.Slot Key Spelt) :=
  manager.subscriptions.map foldedEntry

/-- No active subscription has the empty id, which no search finds. -/
def Named (manager : NostrSubscriptionManager) : Prop :=
  ∀ sub ∈ manager.subscriptions, sub.active = true → sub.subscriptionId ≠ []

theorem foldedEntry_eq_some_iff {sub : NostrSubscription} {key : Key} {id : CStr} {filters : List NostrFilter} :
    foldedEntry sub = some (key, id, filters) ↔ key = keyOf key.1 id ∧ sub = ⟨true, key.1, id, filters⟩ := by
  obtain ⟨active, fd, id', filters'⟩ := sub
  obtain ⟨fd', low⟩ := key
  cases active
  · simp [foldedEntry]
  · rw [foldedEntry, if_pos rfl]
    constructor
    · intro h
      obtain ⟨hkey, hspelt⟩ := Prod.mk.inj (Option.some.inj h)
      obtain ⟨rfl, rfl⟩ := Prod.mk.inj hspelt
      obtain ⟨rfl, rfl⟩ := Prod.mk.inj hkey
      exact ⟨rfl, rfl⟩
    · rintro ⟨hkey, hsub⟩
      obtain ⟨-, rfl, rfl, rfl⟩ := NostrSubscription.mk.inj hsub
      rw [hkey]

theorem isSome_foldedEntry (sub : NostrSubscription) : (foldedEntry sub).isSome = sub.active := by
  rw [foldedEntry]
  cases sub.active <;> rfl

variable {manager : NostrSubscriptionManager}

/-- A search looks for the key. -/
theorem findIdx?_isFor_folded (hnamed : manager.Named) (fd : Int) (id : CStr) :
    manager.subscriptions.findIdx? (isFor fd id) = SlotMap.slotOf manager.folded (keyOf fd id) := by
  have hkey : ∀ sub ∈ manager.subscriptions,
      isFor fd id sub = SlotMap.hasKey (keyOf fd id) (foldedEntry sub) := by
    intro sub hsub
    rw [Bool.eq_iff_iff, SlotMap.hasKey_iff, isFor, Bool.and_eq_true, Bool.and_eq_true,
      decide_eq_true_eq, sameId_iff, foldedEntry]
    constructor
    · rintro ⟨⟨hactive, rfl⟩, -, hlow⟩
      exact ⟨(sub.subscriptionId, sub.filters), by rw [if_pos hactive, keyOf, hlow, keyOf]⟩
    · rintro ⟨v, hv⟩
      split at hv
      · next hactive =>
        obtain ⟨hfd, hlow⟩ := Prod.mk.inj (Prod.mk.inj (Option.some.inj hv)).1
        exact ⟨⟨hactive, hfd⟩, hnamed sub hsub hactive, hlow⟩
      · cases hv
  rw [SlotMap.slotOf, folded, List.findIdx?_map]
  exact SlotMap.findIdx?_congr hkey

theorem findIdx?_free_folded (manager : NostrSubscriptionManager) :
    (manager.subscriptions.findIdx? fun sub => !sub.active) = SlotMap.freeSlot manager.folded := by
  rw [SlotMap.freeSlot, folded, List.findIdx?_map]
  congr 1
  funext sub
  rw [Function.comp_apply, ← Option.not_isSome, isSome_foldedEntry]

theorem folded_setSlot (i : Nat) (sub : NostrSubscription) (count : Nat) :
    (manager.setSlot i sub count).folded = manager.folded.set i (foldedEntry sub) := by
  rw [folded, setSlot, List.map_set]
  rfl

theorem slot_of_folded {i : Nat} {key : Key} {id : CStr} {filters : List NostrFilter}
    (h : manager.folded[i]? = some (some (key, id, filters))) :
    key = keyOf key.1 id ∧ manager.subscriptions[i]? = some ⟨true, key.1, id, filters⟩ := by
  rw [folded, List.getElem?_map, Option.map_eq_some_iff] at h
  obtain ⟨sub, hsub, hentry⟩ := h
  obtain ⟨hkey, rfl⟩ := foldedEntry_eq_some_iff.mp hentry
  exact ⟨hkey, hsub⟩

theorem folded_of_slot {i : Nat} {sub : NostrSubscription} (h : manager.subscriptions[i]? = some sub)
    (hactive : sub.active = true) : manager.folded[i]? =
      some (some (keyOf sub.clientFd sub.subscriptionId, sub.subscriptionId, sub.filters)) := by
  rw [folded, List.getElem?_map, h, Option.map_some, foldedEntry, if_pos hactive]

/-- What a request puts into the table: the id keeps its first spelling. -/
def spelt (manager : NostrSubscriptionManager) (fd : Int) (req : NostrReqMessage) : Spelt :=
  (((SlotMap.lookup manager.folded (keyOf fd req.subscriptionId)).map Prod.fst).getD req.subscriptionId, req.filters)

/-- `add` is the table's `put`. -/
theorem add_folded (hnamed : manager.Named) (hu : SlotMap.Unique manager.folded) (fd : Int) (req : NostrReqMessage) :
    ((manager.add fd req).1 = none ∧ (manager.add fd req).2 = manager ∧
        SlotMap.put manager.folded (keyOf fd req.subscriptionId) (manager.spelt fd req) = none) ∨
      ((manager.add fd req).1 ≠ none ∧
        SlotMap.put manager.folded (keyOf fd req.subscriptionId) (manager.spelt fd req) =
          some (manager.add fd req).2.folded) := by
  rw [add, findIdx?_isFor_folded hnamed, findIdx?_free_folded, SlotMap.put]
  cases hs : SlotMap.slotOf manager.folded (keyOf fd req.subscriptionId) with
  | some i =>
    obtain ⟨⟨id, filters⟩, hslot⟩ := (SlotMap.slotOf_eq_some_iff hu).mp hs
    obtain ⟨hkey, hsub⟩ := slot_of_folded hslot
    have hlookup := (SlotMap.lookup_eq_some_iff hu).mpr ⟨i, hslot⟩
    refine .inr ⟨Option.some_ne_none i, ?_⟩
    rw [spelt, hlookup]
    simp only [List.getD_eq_getElem?_getD, hsub, Option.getD_some, folded_setSlot]
    exact congrArg (fun k => some (manager.folded.set i (some (k, id, req.filters)))) hkey
  | none =>
    have hlookup := (SlotMap.lookup_eq_none_iff hu).mpr hs
    cases hf : SlotMap.freeSlot manager.folded with
    | some i =>
      refine .inr ⟨Option.some_ne_none i, ?_⟩
      rw [spelt, hlookup]
      simp only [folded_setSlot]
      rfl
    | none => exact .inl ⟨rfl, rfl, rfl⟩

/-- `remove` is the table's `erase`. -/
theorem remove_folded (hnamed : manager.Named) (fd : Int) (id : CStr) :
    (manager.remove fd id).2.folded = SlotMap.erase manager.folded (keyOf fd id) ∧
      ((manager.remove fd id).1 = true ↔ SlotMap.slotOf manager.folded (keyOf fd id) ≠ none) := by
  rw [remove, findIdx?_isFor_folded hnamed, SlotMap.erase]
  cases SlotMap.slotOf manager.folded (keyOf fd id) with
  | some i => exact ⟨folded_setSlot i .zero _, by simp⟩
  | none => exact ⟨rfl, by simp⟩

/-- `removeClient` frees the keys of the client. -/
theorem folded_removeClient (manager : NostrSubscriptionManager) (fd : Int) :
    (manager.removeClient fd).2.folded = SlotMap.eraseWhere manager.folded fun key => key.1 = fd := by
  rw [removeClient, folded, folded, SlotMap.eraseWhere, List.map_map, List.map_map]
  refine List.map_congr_left fun sub _ => ?_
  obtain ⟨active, fd', id, filters⟩ := sub
  cases active
  · rfl
  · by_cases hfd : fd' = fd <;> simp [foldedEntry, keyOf, Option.filter, hfd, NostrSubscription.zero]

/-! ## The ids -/

theorem named_init : init.Named := by
  intro sub hsub hactive
  rw [List.eq_of_mem_replicate hsub] at hactive
  cases hactive

theorem named_setSlot (hnamed : manager.Named) {sub : NostrSubscription}
    (hsub : sub.active = true → sub.subscriptionId ≠ []) (i count : Nat) : (manager.setSlot i sub count).Named :=
  fun sub' hsub' hactive => (List.mem_or_eq_of_mem_set hsub').elim (fun h => hnamed sub' h hactive) fun h => by
    subst h
    exact hsub hactive

theorem named_add (hnamed : manager.Named) {fd : Int} {req : NostrReqMessage} (hid : req.subscriptionId ≠ []) :
    (manager.add fd req).2.Named := by
  rw [add]
  split
  · next i hi =>
    obtain ⟨hlt, hfor, -⟩ := List.findIdx?_eq_some_iff_getElem.mp hi
    refine named_setSlot hnamed (fun hactive => ?_) i _
    have hget : manager.subscriptions.getD i .zero = manager.subscriptions[i] := by
      rw [List.getD_eq_getElem?_getD, List.getElem?_eq_getElem hlt, Option.getD_some]
    rw [hget] at hactive ⊢
    exact hnamed manager.subscriptions[i] (List.getElem_mem hlt) hactive
  · split
    · exact named_setSlot hnamed (fun _ => hid) _ _
    · exact hnamed

theorem named_remove (hnamed : manager.Named) (fd : Int) (id : CStr) : (manager.remove fd id).2.Named := by
  rw [remove]
  split
  · exact named_setSlot hnamed (fun hactive => absurd hactive Bool.false_ne_true) _ _
  · exact hnamed

theorem named_removeClient (hnamed : manager.Named) (fd : Int) : (manager.removeClient fd).2.Named := by
  intro sub hsub hactive
  obtain ⟨old, hold, rfl⟩ := List.mem_map.mp hsub
  split at hactive
  · cases hactive
  · next hkept =>
    rw [if_neg hkept]
    exact hnamed old hold hactive

theorem length_folded (manager : NostrSubscriptionManager) :
    manager.folded.length = NOSTR_SUBSCRIPTION_MAX_COUNT := by
  rw [folded, List.length_map, manager.size]

/-- `put` fails where a new key does not fit. -/
theorem put_folded_eq_none_iff (hu : SlotMap.Unique manager.folded) (key : Key) (value : Spelt) :
    SlotMap.put manager.folded key value = none ↔
      ¬ (SlotMap.lookup manager.folded key ≠ none ∨
        {k | SlotMap.lookup manager.folded k ≠ none}.ncard < NOSTR_SUBSCRIPTION_MAX_COUNT) := by
  have hkeys := SlotMap.ncard_keys hu fun _ => true
  simp only [and_true] at hkeys
  have hused : (manager.folded.countP fun slot => slot.any fun _ => true) = manager.folded.countP Option.isSome :=
    List.countP_congr fun slot _ => by cases slot <;> simp
  have hle : manager.folded.countP Option.isSome ≤ manager.folded.length := List.countP_le_length
  rw [SlotMap.put_eq_none_iff hu, hkeys, hused, not_or, not_not, Nat.not_lt]
  rw [length_folded] at hle ⊢
  exact and_congr_right fun _ => ⟨fun heq => Nat.le_of_eq heq.symm, fun hge => Nat.le_antisymm hle hge⟩

end OnionRelay.NostrSubscriptionManager
