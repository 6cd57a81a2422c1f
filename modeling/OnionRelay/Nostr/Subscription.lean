import OnionRelay.Lib.Reach
import OnionRelay.Lib.SlotMap
import OnionRelay.Nostr.Filter

/-!
# The subscription manager

A table of subscriptions, searched by client and subscription id.  The search
compares ids with the repository's own `strncmp`, which takes no notice of case and
finds no empty string (`sameId_iff`).

`entry` sees an active subscription as a key and its filters, and the table as a
`SlotMap`.  As long as no call names an id that is spelt differently in the table, and
none an empty id that is there (`Distinct`), the search finds the key itself, and each
operation is that of the map (`step_isMap`).
-/

namespace OnionRelay

open OnionRelay.Lib

def NOSTR_SUBSCRIPTION_MAX_COUNT : Nat := 256

structure NostrReqMessage where
  subscriptionId : CStr
  filters : List NostrFilter

structure NostrSubscription where
  active : Bool
  clientFd : Int
  subscriptionId : CStr
  filters : List NostrFilter
deriving DecidableEq, Repr

/-- A slot after `internal_memset`. -/
def NostrSubscription.zero : NostrSubscription := ⟨false, 0, [], []⟩

structure NostrSubscriptionManager where
  subscriptions : List NostrSubscription
  count : Nat
  size : subscriptions.length = NOSTR_SUBSCRIPTION_MAX_COUNT

namespace NostrSubscriptionManager

/-- `nostr_subscription_manager_init`: fresh pages. -/
def init : NostrSubscriptionManager :=
  ⟨List.replicate NOSTR_SUBSCRIPTION_MAX_COUNT .zero, 0, List.length_replicate⟩

variable (manager : NostrSubscriptionManager)

/-- The comparison of two ids, as each of the searches makes it. -/
def sameId (subId searchId : CStr) : Bool :=
  decide (subId.length = searchId.length) && nostrStrncmp subId searchId subId.length

/-- Whether a search for the id stops at a slot. -/
def isFor (clientFd : Int) (searchId : CStr) (sub : NostrSubscription) : Bool :=
  sub.active && decide (sub.clientFd = clientFd) && sameId sub.subscriptionId searchId

/-- Write slot `i`. -/
def setSlot (i : Nat) (sub : NostrSubscription) (count : Nat) : NostrSubscriptionManager :=
  ⟨manager.subscriptions.set i sub, count, by rw [List.length_set, manager.size]⟩

/-- `nostr_subscription_add`; the result is the slot. -/
def add (clientFd : Int) (req : NostrReqMessage) : Option Nat × NostrSubscriptionManager :=
  match manager.subscriptions.findIdx? (isFor clientFd req.subscriptionId) with
  | some i =>
    let sub := manager.subscriptions.getD i .zero
    (some i, manager.setSlot i { sub with filters := req.filters } manager.count)
  | none =>
    match manager.subscriptions.findIdx? fun sub => !sub.active with
    | some i =>
      (some i, manager.setSlot i ⟨true, clientFd, req.subscriptionId, req.filters⟩
        (manager.count + 1))
    | none => (none, manager)

/-- `nostr_subscription_remove`. -/
def remove (clientFd : Int) (subscriptionId : CStr) : Bool × NostrSubscriptionManager :=
  match manager.subscriptions.findIdx? (isFor clientFd subscriptionId) with
  | some i => (true, manager.setSlot i .zero (manager.count - 1))
  | none => (false, manager)

/-- `nostr_subscription_remove_client`. -/
def removeClient (clientFd : Int) : Nat × NostrSubscriptionManager :=
  let ofClient := fun sub : NostrSubscription => sub.active && decide (sub.clientFd = clientFd)
  let removed := manager.subscriptions.countP ofClient
  (removed,
    ⟨manager.subscriptions.map fun sub => if ofClient sub then .zero else sub,
      manager.count - removed, by rw [List.length_map, manager.size]⟩)

/-- `nostr_subscription_find`. -/
def find (clientFd : Int) (subscriptionId : CStr) : Option Nat :=
  manager.subscriptions.findIdx? (isFor clientFd subscriptionId)

end NostrSubscriptionManager

/-- `nostr_subscription_matches_event`. -/
def nostrSubscriptionMatchesEvent (sub : NostrSubscription) (event : NostrEventEntity) : Bool :=
  if !sub.active then false else sub.filters.any fun filter => nostrFilterMatches filter event

/-- `nostr_subscription_find_matching`: the slots the callback is invoked for, in
order; their number is returned. -/
def NostrSubscriptionManager.findMatching (manager : NostrSubscriptionManager)
    (event : NostrEventEntity) : List Nat :=
  (List.range NOSTR_SUBSCRIPTION_MAX_COUNT).filter fun i =>
    let sub := manager.subscriptions.getD i .zero
    sub.active && nostrSubscriptionMatchesEvent sub event

/-! ## The table as a map -/

namespace NostrSubscriptionManager

/-- A client and a subscription id. -/
abbrev Key := Int × CStr

def entry (sub : NostrSubscription) : SlotMap.Slot Key (List NostrFilter) :=
  if sub.active then some ((sub.clientFd, sub.subscriptionId), sub.filters) else none

def view (manager : NostrSubscriptionManager) : List (SlotMap.Slot Key (List NostrFilter)) :=
  manager.subscriptions.map entry

/-- No active subscription of the client has the id in another spelling, and none has
it if it is empty. -/
def Distinct (manager : NostrSubscriptionManager) (clientFd : Int) (id : CStr) : Prop :=
  ∀ sub ∈ manager.subscriptions, sub.active = true → sub.clientFd = clientFd →
    sub.subscriptionId.map lowerChr = id.map lowerChr → sub.subscriptionId = id ∧ id ≠ []

theorem sameId_iff {subId searchId : CStr} :
    sameId subId searchId = true ↔
      subId ≠ [] ∧ subId.map lowerChr = searchId.map lowerChr := by
  rw [sameId, Bool.and_eq_true, decide_eq_true_eq]
  constructor
  · rintro ⟨hlen, hcmp⟩
    exact (nostrStrncmp_iff hlen).mp hcmp
  · intro h
    have hlen : subId.length = searchId.length := by
      have hmap := congrArg List.length h.2
      rwa [List.length_map, List.length_map] at hmap
    exact ⟨hlen, (nostrStrncmp_iff hlen).mpr h⟩

theorem entry_eq_some_iff {sub : NostrSubscription} {key : Key} {filters : List NostrFilter} :
    entry sub = some (key, filters) ↔ sub = ⟨true, key.1, key.2, filters⟩ := by
  obtain ⟨active, clientFd, subscriptionId, filters'⟩ := sub
  obtain ⟨fd, id⟩ := key
  cases active <;> simp [entry, and_assoc]

theorem isSome_entry (sub : NostrSubscription) : (entry sub).isSome = sub.active := by
  rw [entry]
  cases sub.active <;> rfl

variable {manager : NostrSubscriptionManager}

/-- A search that meets no other spelling looks for the key itself. -/
theorem findIdx?_isFor {clientFd : Int} {id : CStr} (h : manager.Distinct clientFd id) :
    manager.subscriptions.findIdx? (isFor clientFd id) =
      SlotMap.slotOf manager.view (clientFd, id) := by
  have hkey : ∀ sub ∈ manager.subscriptions,
      isFor clientFd id sub = SlotMap.hasKey (clientFd, id) (entry sub) := by
    intro sub hsub
    rw [Bool.eq_iff_iff, SlotMap.hasKey_iff, isFor, Bool.and_eq_true, Bool.and_eq_true,
      decide_eq_true_eq, sameId_iff]
    simp only [entry_eq_some_iff]
    constructor
    · rintro ⟨⟨hactive, hfd⟩, hne, hcase⟩
      obtain ⟨hid, -⟩ := h sub hsub hactive hfd hcase
      refine ⟨sub.filters, ?_⟩
      rw [← hactive, ← hfd, ← hid]
    · rintro ⟨filters, rfl⟩
      obtain ⟨-, hne⟩ := h _ hsub rfl rfl rfl
      exact ⟨⟨rfl, rfl⟩, hne, rfl⟩
  rw [SlotMap.slotOf, view, List.findIdx?_map]
  exact SlotMap.findIdx?_congr hkey

theorem findIdx?_free (manager : NostrSubscriptionManager) :
    (manager.subscriptions.findIdx? fun sub => !sub.active) = SlotMap.freeSlot manager.view := by
  rw [SlotMap.freeSlot, view, List.findIdx?_map]
  congr 1
  funext sub
  rw [Function.comp_apply, ← Option.not_isSome, isSome_entry]

theorem view_setSlot (i : Nat) (sub : NostrSubscription) (count : Nat) :
    (manager.setSlot i sub count).view = manager.view.set i (entry sub) := by
  rw [view, setSlot, List.map_set]
  rfl

theorem getElem?_view (manager : NostrSubscriptionManager) (i : Nat) :
    manager.view[i]? = manager.subscriptions[i]?.map entry := List.getElem?_map ..

theorem slot_of_view {i : Nat} {key : Key} {filters : List NostrFilter}
    (h : manager.view[i]? = some (some (key, filters))) :
    manager.subscriptions[i]? = some ⟨true, key.1, key.2, filters⟩ := by
  rw [getElem?_view, Option.map_eq_some_iff] at h
  obtain ⟨sub, hsub, hentry⟩ := h
  rw [hsub, entry_eq_some_iff.mp hentry]

theorem view_of_slot {i : Nat} (key : Key) {filters : List NostrFilter}
    (h : manager.subscriptions[i]? = some ⟨true, key.1, key.2, filters⟩) :
    manager.view[i]? = some (some (key, filters)) := by
  rw [getElem?_view, h]
  rfl

/-- `add` is the map's `put`. -/
theorem add_eq {clientFd : Int} {req : NostrReqMessage}
    (h : manager.Distinct clientFd req.subscriptionId) (hu : SlotMap.Unique manager.view) :
    ((manager.add clientFd req).1 = none ∧ (manager.add clientFd req).2 = manager ∧
        SlotMap.put manager.view (clientFd, req.subscriptionId) req.filters = none) ∨
      ∃ i, (manager.add clientFd req).1 = some i ∧
        SlotMap.put manager.view (clientFd, req.subscriptionId) req.filters =
          some (manager.add clientFd req).2.view ∧
        (manager.add clientFd req).2.subscriptions[i]? =
          some ⟨true, clientFd, req.subscriptionId, req.filters⟩ := by
  rw [add, findIdx?_isFor h, findIdx?_free, SlotMap.put]
  cases hs : SlotMap.slotOf manager.view (clientFd, req.subscriptionId) with
  | some i =>
    obtain ⟨filters, hview⟩ := (SlotMap.slotOf_eq_some_iff hu).mp hs
    have hslot := slot_of_view hview
    have hlt := (List.getElem?_eq_some_iff.mp hslot).1
    have hget : manager.subscriptions.getD i .zero =
        ⟨true, clientFd, req.subscriptionId, filters⟩ := by
      rw [List.getD_eq_getElem?_getD, hslot]
      rfl
    refine .inr ⟨i, rfl, ?_, ?_⟩
    · simp only [hget, view_setSlot]
      rfl
    · simp only [hget]
      exact List.getElem?_set_self hlt
  | none =>
    cases hf : SlotMap.freeSlot manager.view with
    | some i =>
      have hlt : i < manager.subscriptions.length := by
        have hview := (List.getElem?_eq_some_iff.mp (SlotMap.freeSlot_eq_some hf)).1
        rwa [view, List.length_map] at hview
      refine .inr ⟨i, rfl, ?_, List.getElem?_set_self hlt⟩
      simp only [view_setSlot]
      rfl
    | none => exact .inl ⟨rfl, rfl, rfl⟩

/-- `remove` is the map's `erase`. -/
theorem remove_eq {clientFd : Int} {id : CStr} (h : manager.Distinct clientFd id) :
    (manager.remove clientFd id).2.view = SlotMap.erase manager.view (clientFd, id) ∧
      ((manager.remove clientFd id).1 = true ↔
        SlotMap.slotOf manager.view (clientFd, id) ≠ none) := by
  rw [remove, findIdx?_isFor h, SlotMap.erase]
  cases SlotMap.slotOf manager.view (clientFd, id) with
  | some i => exact ⟨view_setSlot i .zero _, by simp⟩
  | none => exact ⟨rfl, by simp⟩

/-- `removeClient` frees the keys of the client. -/
theorem view_removeClient (clientFd : Int) :
    (manager.removeClient clientFd).2.view =
      SlotMap.eraseWhere manager.view fun key => key.1 = clientFd := by
  rw [removeClient, view, view, SlotMap.eraseWhere, List.map_map, List.map_map]
  refine List.map_congr_left fun sub _ => ?_
  obtain ⟨active, fd, id, filters⟩ := sub
  cases active
  · rfl
  · by_cases hfd : fd = clientFd <;> simp [entry, Option.filter, hfd, NostrSubscription.zero]

/-! ## The counter -/

/-- The active slots. -/
def countActive (manager : NostrSubscriptionManager) : Nat :=
  manager.subscriptions.countP fun sub => sub.active

theorem countActive_le (manager : NostrSubscriptionManager) :
    manager.countActive ≤ NOSTR_SUBSCRIPTION_MAX_COUNT :=
  manager.size ▸ List.countP_le_length

theorem countP_view (manager : NostrSubscriptionManager) :
    manager.view.countP Option.isSome = manager.countActive := by
  rw [view, List.countP_map, countActive]
  refine List.countP_congr fun sub _ => ?_
  rw [Function.comp_apply, isSome_entry]

theorem countActive_setSlot {i : Nat} {old : NostrSubscription} (sub : NostrSubscription)
    (count : Nat) (hold : manager.subscriptions[i]? = some old) :
    (manager.setSlot i sub count).countActive + (if old.active then 1 else 0) =
      manager.countActive + (if sub.active then 1 else 0) := by
  obtain ⟨hlt, hget⟩ := List.getElem?_eq_some_iff.mp hold
  have hset := List.countP_set (p := fun sub : NostrSubscription => sub.active) (a := sub) hlt
  have hpos : (if old.active then 1 else 0) ≤ manager.countActive := by
    split
    · exact List.countP_pos_iff.mpr ⟨old, List.mem_of_getElem? hold, by assumption⟩
    · exact Nat.zero_le _
  rw [hget] at hset
  rw [countActive, setSlot, hset]
  rw [countActive] at hpos ⊢
  omega

theorem slot_of_findIdx? {p : NostrSubscription → Bool} {i : Nat}
    (h : manager.subscriptions.findIdx? p = some i) :
    manager.subscriptions[i]? = some (manager.subscriptions.getD i .zero) ∧
      p (manager.subscriptions.getD i .zero) = true := by
  obtain ⟨hlt, hp, -⟩ := List.findIdx?_eq_some_iff_getElem.mp h
  rw [List.getD_eq_getElem?_getD, List.getElem?_eq_getElem hlt]
  exact ⟨rfl, hp⟩

theorem active_of_isFor {clientFd : Int} {id : CStr} {sub : NostrSubscription}
    (h : isFor clientFd id sub = true) : sub.active = true := by
  rw [isFor, Bool.and_eq_true, Bool.and_eq_true] at h
  exact h.1.1

theorem count_add {clientFd : Int} {req : NostrReqMessage}
    (hcount : manager.count = manager.countActive) :
    (manager.add clientFd req).2.count = (manager.add clientFd req).2.countActive := by
  rw [add]
  split
  · rename_i i hi
    obtain ⟨hslot, hfor⟩ := slot_of_findIdx? hi
    have hset := countActive_setSlot
      { manager.subscriptions.getD i .zero with filters := req.filters } manager.count hslot
    dsimp only at hset ⊢
    show manager.count = _
    omega
  · split
    · rename_i i hi
      obtain ⟨hslot, hfree⟩ := slot_of_findIdx? hi
      have hset := countActive_setSlot ⟨true, clientFd, req.subscriptionId, req.filters⟩
        (manager.count + 1) hslot
      rw [Bool.not_eq_true'] at hfree
      rw [hfree, if_neg Bool.false_ne_true, if_pos rfl] at hset
      dsimp only
      show manager.count + 1 = _
      omega
    · exact hcount

theorem count_remove {clientFd : Int} {id : CStr} (hcount : manager.count = manager.countActive) :
    (manager.remove clientFd id).2.count = (manager.remove clientFd id).2.countActive := by
  rw [remove]
  split
  · rename_i i hi
    obtain ⟨hslot, hfor⟩ := slot_of_findIdx? hi
    have hset := countActive_setSlot .zero (manager.count - 1) hslot
    rw [active_of_isFor hfor, if_pos rfl] at hset
    simp only [NostrSubscription.zero, Bool.false_eq_true, if_false] at hset
    show manager.count - 1 = _
    simp only [NostrSubscription.zero]
    omega
  · exact hcount

theorem count_removeClient (clientFd : Int) (hcount : manager.count = manager.countActive) :
    (manager.removeClient clientFd).2.count =
      (manager.removeClient clientFd).2.countActive := by
  have hparts : ∀ subs : List NostrSubscription,
      (subs.map fun sub => if sub.active && decide (sub.clientFd = clientFd) then .zero
          else sub).countP (fun sub => sub.active) +
        subs.countP (fun sub => sub.active && decide (sub.clientFd = clientFd)) =
      subs.countP fun sub => sub.active := by
    intro subs
    induction subs with
    | nil => rfl
    | cons sub subs ih =>
      rw [List.map_cons, List.countP_cons, List.countP_cons, List.countP_cons, ← ih]
      cases hactive : sub.active
      · simp [hactive]
      · by_cases hfd : sub.clientFd = clientFd <;> simp [hactive, hfd, NostrSubscription.zero] <;>
          omega
  have hsum := hparts manager.subscriptions
  rw [countActive] at hcount
  rw [removeClient, countActive]
  dsimp only
  omega

end NostrSubscriptionManager

/-! ## Runs of calls -/

open NostrSubscriptionManager

inductive SubscriptionOp
  | add (clientFd : Int) (req : NostrReqMessage)
  | remove (clientFd : Int) (id : CStr)
  | removeClient (clientFd : Int)
  | find (clientFd : Int) (id : CStr)
  | findMatching (event : NostrEventEntity)

/-- What each client has subscribed to. -/
abbrev SubscriptionMap := Key → Option (List NostrFilter)

/-- A new key is accepted as long as there are fewer than the maximum. -/
def SubscriptionMap.Accepts (map : SubscriptionMap) (key : Key) : Prop :=
  map key ≠ none ∨ {k | map k ≠ none}.ncard < NOSTR_SUBSCRIPTION_MAX_COUNT

open Classical in
/-- The calls on the map. -/
noncomputable def SubscriptionMap.apply (map : SubscriptionMap) : SubscriptionOp → SubscriptionMap
  | .add clientFd req =>
    if map.Accepts (clientFd, req.subscriptionId) then
      Function.update map (clientFd, req.subscriptionId) (some req.filters)
    else map
  | .remove clientFd id => Function.update map (clientFd, id) none
  | .removeClient clientFd => fun key => if key.1 = clientFd then none else map key
  | .find _ _ => map
  | .findMatching _ => map

theorem apply_add {map : SubscriptionMap} {clientFd : Int} {req : NostrReqMessage}
    (h : map.Accepts (clientFd, req.subscriptionId)) :
    SubscriptionMap.apply map (.add clientFd req) =
      Function.update map (clientFd, req.subscriptionId) (some req.filters) := if_pos h

/-- The calls on the table. -/
def NostrSubscriptionManager.step (manager : NostrSubscriptionManager) :
    SubscriptionOp → NostrSubscriptionManager
  | .add clientFd req => (manager.add clientFd req).2
  | .remove clientFd id => (manager.remove clientFd id).2
  | .removeClient clientFd => (manager.removeClient clientFd).2
  | .find _ _ => manager
  | .findMatching _ => manager

/-- The table meets the id of a call in no other spelling, and not as the empty id. -/
def SubscriptionOp.Distinct (manager : NostrSubscriptionManager) : SubscriptionOp → Prop
  | .add clientFd req => manager.Distinct clientFd req.subscriptionId
  | .remove clientFd id => manager.Distinct clientFd id
  | .find clientFd id => manager.Distinct clientFd id
  | .removeClient _ => True
  | .findMatching _ => True

/-- The table and the map after the same calls. -/
abbrev SubscriptionRun (manager : NostrSubscriptionManager) (map : SubscriptionMap) : Prop :=
  Reaches (fun s op => (s.1.step op, SubscriptionMap.apply s.2 op))
    (fun s op => op.Distinct s.1) (NostrSubscriptionManager.init, fun _ => none) (manager, map)

theorem SubscriptionRun.next {manager : NostrSubscriptionManager} {map : SubscriptionMap}
    (h : SubscriptionRun manager map) {op : SubscriptionOp} (hop : op.Distinct manager) :
    SubscriptionRun (manager.step op) (SubscriptionMap.apply map op) :=
  Reaches.next h hop

structure IsMap (manager : NostrSubscriptionManager) (map : SubscriptionMap) : Prop where
  unique : SlotMap.Unique manager.view
  lookup : ∀ key, SlotMap.lookup manager.view key = map key
  count : manager.count = manager.countActive

theorem isMap_init : IsMap NostrSubscriptionManager.init fun _ => none := by
  have hfree : ∀ {i : Nat} {e : Key × List NostrFilter},
      NostrSubscriptionManager.init.view[i]? ≠ some (some e) := by
    intro i e h
    have hslot := List.eq_of_mem_replicate (List.mem_of_getElem? (slot_of_view h))
    cases hslot
  refine ⟨fun h _ _ => absurd h hfree, fun key => ?_, ?_⟩
  · rw [SlotMap.lookup, SlotMap.slotOf_eq_none_iff.mpr fun i v => hfree]
    rfl
  · rw [countActive, NostrSubscriptionManager.init, List.countP_replicate]
    rfl

theorem IsMap.ncard_keys {manager : NostrSubscriptionManager} {map : SubscriptionMap}
    (h : IsMap manager map) : {k | map k ≠ none}.ncard = manager.countActive := by
  have hkeys := SlotMap.ncard_keys h.unique fun _ => true
  simp only [h.lookup, and_true] at hkeys
  rw [hkeys, ← countP_view]
  refine List.countP_congr fun slot _ => ?_
  cases slot <;> simp

/-- `put` fails where the map does not accept. -/
theorem IsMap.put_eq_none_iff {manager : NostrSubscriptionManager} {map : SubscriptionMap}
    (h : IsMap manager map) (key : Key) (filters : List NostrFilter) :
    SlotMap.put manager.view key filters = none ↔ ¬ map.Accepts key := by
  rw [SlotMap.put_eq_none_iff h.unique, h.lookup, countP_view, view, List.length_map,
    manager.size, SubscriptionMap.Accepts, h.ncard_keys, not_or, not_not, Nat.not_lt]
  have hle := manager.countActive_le
  exact and_congr_right fun _ => ⟨fun heq => Nat.le_of_eq heq.symm, fun hge => by omega⟩

/-- **Each call does to the table what it does to the map.** -/
theorem step_isMap {manager : NostrSubscriptionManager} {map : SubscriptionMap}
    {op : SubscriptionOp} (h : IsMap manager map) (hop : op.Distinct manager) :
    IsMap (manager.step op) (SubscriptionMap.apply map op) := by
  cases op with
  | add clientFd req =>
    rw [SubscriptionMap.apply, step]
    rcases add_eq hop h.unique with ⟨-, hsame, hput⟩ | ⟨i, -, hput, -⟩
    · rw [hsame, if_neg ((h.put_eq_none_iff _ _).mp hput)]
      exact h
    · have haccepts : map.Accepts (clientFd, req.subscriptionId) := by
        by_contra hno
        rw [(h.put_eq_none_iff _ _).mpr hno] at hput
        cases hput
      obtain ⟨hunique, hlookup⟩ := SlotMap.lookup_put h.unique hput
      rw [if_pos haccepts]
      refine ⟨hunique, fun key => ?_, count_add h.count⟩
      rw [hlookup, Function.update_apply, h.lookup]
  | remove clientFd id =>
    obtain ⟨hview, -⟩ := remove_eq hop
    rw [SlotMap.erase_eq_eraseWhere h.unique] at hview
    obtain ⟨hunique, hlookup⟩ :=
      SlotMap.lookup_eraseWhere h.unique fun key => decide (key = (clientFd, id))
    rw [← hview] at hunique hlookup
    refine ⟨hunique, fun key => ?_, count_remove h.count⟩
    rw [step, hlookup, SubscriptionMap.apply, Function.update_apply, h.lookup]
    simp only [decide_eq_true_eq]
  | removeClient clientFd =>
    obtain ⟨hunique, hlookup⟩ :=
      SlotMap.lookup_eraseWhere h.unique fun key : Key => decide (key.1 = clientFd)
    rw [← view_removeClient] at hunique hlookup
    refine ⟨hunique, fun key => ?_, count_removeClient clientFd h.count⟩
    rw [step, hlookup, SubscriptionMap.apply, h.lookup]
    simp only [decide_eq_true_eq]
  | find clientFd id => exact h
  | findMatching event => exact h

theorem isMap_of_run {manager : NostrSubscriptionManager} {map : SubscriptionMap}
    (h : SubscriptionRun manager map) : IsMap manager map :=
  h.invariant (I := fun s => IsMap s.1 s.2) isMap_init fun _ _ hs hop => step_isMap hs hop

/-! ## What the calls answer -/

variable {manager : NostrSubscriptionManager} {map : SubscriptionMap}

/-- An entry of the map is one active slot. -/
theorem IsMap.slot_iff (h : IsMap manager map) (key : Key) (filters : List NostrFilter) :
    map key = some filters ↔
      ∃! i : Nat, manager.subscriptions[i]? = some ⟨true, key.1, key.2, filters⟩ := by
  rw [← h.lookup, SlotMap.lookup_eq_some_iff h.unique]
  constructor
  · rintro ⟨i, hi⟩
    exact ⟨i, slot_of_view hi, fun j hj => h.unique (view_of_slot key hj) hi rfl⟩
  · rintro ⟨i, hi, -⟩
    exact ⟨i, view_of_slot key hi⟩

theorem IsMap.add_eq_none_iff (h : IsMap manager map) {clientFd : Int} {req : NostrReqMessage}
    (hd : manager.Distinct clientFd req.subscriptionId) :
    (manager.add clientFd req).1 = none ↔
      map (clientFd, req.subscriptionId) = none ∧ manager.count = NOSTR_SUBSCRIPTION_MAX_COUNT := by
  have hput := h.put_eq_none_iff (clientFd, req.subscriptionId) req.filters
  have hle := manager.countActive_le
  rw [SubscriptionMap.Accepts, h.ncard_keys, ← h.count] at hput
  rcases NostrSubscriptionManager.add_eq hd h.unique with ⟨hnone, -, hfail⟩ | ⟨i, hsome, hok, -⟩
  · have hfull := hput.mp hfail
    rw [not_or, not_not, Nat.not_lt] at hfull
    exact ⟨fun _ => ⟨hfull.1, Nat.le_antisymm (h.count ▸ hle) hfull.2⟩, fun _ => hnone⟩
  · rw [hsome]
    refine ⟨fun hnone => absurd hnone (Option.some_ne_none i), fun hfull => ?_⟩
    rw [hok] at hput
    refine absurd (hput.mpr ?_) (Option.some_ne_none _)
    rintro (hold | hroom)
    · exact hold hfull.1
    · exact absurd hfull.2 (Nat.ne_of_lt hroom)

/-- A subscription is found exactly if the map has it, and in its slot. -/
theorem IsMap.find_eq_some_iff (h : IsMap manager map) {clientFd : Int} {id : CStr}
    (hd : manager.Distinct clientFd id) (i : Nat) :
    manager.find clientFd id = some i ↔
      ∃ filters, manager.subscriptions[i]? = some ⟨true, clientFd, id, filters⟩ := by
  rw [find, findIdx?_isFor hd, SlotMap.slotOf_eq_some_iff h.unique]
  exact exists_congr fun filters => ⟨slot_of_view, view_of_slot (clientFd, id)⟩

theorem IsMap.remove_iff (h : IsMap manager map) {clientFd : Int} {id : CStr}
    (hd : manager.Distinct clientFd id) :
    (manager.remove clientFd id).1 = true ↔ map (clientFd, id) ≠ none := by
  rw [(remove_eq hd).2, ← h.lookup, Ne, Ne, SlotMap.lookup_eq_none_iff h.unique]

/-- The callback is invoked for the active subscriptions with a filter that matches. -/
theorem mem_findMatching_iff (manager : NostrSubscriptionManager) (event : NostrEventEntity)
    (i : Nat) : i ∈ manager.findMatching event ↔
      ∃ sub, manager.subscriptions[i]? = some sub ∧ sub.active = true ∧
        ∃ filter ∈ sub.filters, nostrFilterMatches filter event = true := by
  rw [findMatching, List.mem_filter, List.mem_range, ← manager.size, List.getD_eq_getElem?_getD]
  constructor
  · rintro ⟨hlt, hsub⟩
    rw [List.getElem?_eq_getElem hlt, Option.getD_some, Bool.and_eq_true] at hsub
    refine ⟨_, List.getElem?_eq_getElem hlt, hsub.1, List.any_eq_true.mp ?_⟩
    simpa [nostrSubscriptionMatchesEvent, hsub.1] using hsub.2
  · rintro ⟨sub, hsub, hactive, hfilter⟩
    refine ⟨(List.getElem?_eq_some_iff.mp hsub).1, ?_⟩
    dsimp only
    rw [hsub, Option.getD_some, hactive, Bool.true_and, nostrSubscriptionMatchesEvent, hactive]
    exact List.any_eq_true.mpr hfilter

theorem nodup_findMatching (manager : NostrSubscriptionManager) (event : NostrEventEntity) :
    (manager.findMatching event).Nodup := List.nodup_range.filter _

/-- **The manager is a finite map, while ids are told apart by their letters**: in every
run of calls that meet no other spelling of their id and no empty id, the active slots are
the entries of the map, the counter is their number, and the calls answer as the map
does. -/
theorem subscriptions_isMap (h : SubscriptionRun manager map) :
    (∀ key filters, map key = some filters ↔
        ∃! i : Nat, manager.subscriptions[i]? = some ⟨true, key.1, key.2, filters⟩) ∧
      (manager.count = manager.countActive ∧ manager.count ≤ NOSTR_SUBSCRIPTION_MAX_COUNT ∧
        manager.count = {key | map key ≠ none}.ncard) ∧
      (∀ clientFd req, manager.Distinct clientFd req.subscriptionId →
        ((manager.add clientFd req).1 = none ↔
          map (clientFd, req.subscriptionId) = none ∧
            manager.count = NOSTR_SUBSCRIPTION_MAX_COUNT)) ∧
      (∀ clientFd id, manager.Distinct clientFd id →
        ((manager.remove clientFd id).1 = true ↔ map (clientFd, id) ≠ none) ∧
          ∀ i, manager.find clientFd id = some i ↔
            ∃ filters, manager.subscriptions[i]? = some ⟨true, clientFd, id, filters⟩) ∧
      ∀ event, (manager.findMatching event).Nodup ∧
        ∀ i, i ∈ manager.findMatching event ↔
          ∃ sub, manager.subscriptions[i]? = some sub ∧ sub.active = true ∧
            ∃ filter ∈ sub.filters, nostrFilterMatches filter event = true := by
  have hmap := isMap_of_run h
  refine ⟨hmap.slot_iff, ⟨hmap.count, hmap.count ▸ manager.countActive_le,
    hmap.count.trans hmap.ncard_keys.symm⟩, fun _ _ => hmap.add_eq_none_iff, ?_, ?_⟩
  · exact fun clientFd id hd => ⟨hmap.remove_iff hd, hmap.find_eq_some_iff hd⟩
  · exact fun event => ⟨nodup_findMatching manager event, mem_findMatching_iff manager event⟩

/-- A request for all events of a kind. -/
def kindReq (id : CStr) (kind : Nat) : NostrReqMessage :=
  ⟨id, [{ NostrFilter.init with kinds := [kind] }]⟩

theorem distinct_init (clientFd : Int) (id : CStr) :
    NostrSubscriptionManager.init.Distinct clientFd id := by
  intro sub hsub hactive
  rw [List.eq_of_mem_replicate hsub] at hactive
  cases hactive

theorem subscriptions_isMap_one :
    let manager := NostrSubscriptionManager.init.step (.add 4 (kindReq [97] 1))
    let map := SubscriptionMap.apply (fun _ => none) (.add 4 (kindReq [97] 1))
    manager.count = manager.countActive ∧ manager.count ≤ NOSTR_SUBSCRIPTION_MAX_COUNT ∧
      manager.count = {key | map key ≠ none}.ncard := by
  have hop : SubscriptionOp.Distinct .init (.add 4 (kindReq [97] 1)) := distinct_init 4 [97]
  exact (subscriptions_isMap (SubscriptionRun.next .start hop)).2.1

/-- Subscribing to `a` and then to `A` leaves no subscription `A`. -/
theorem spelling_merged : ¬ ∀ (ops : List SubscriptionOp) (key : Key) (filters : List NostrFilter),
    ops.foldl SubscriptionMap.apply (fun _ => none) key = some filters ↔
      ∃! i : Nat, (ops.foldl step NostrSubscriptionManager.init).subscriptions[i]? =
        some ⟨true, key.1, key.2, filters⟩ := by
  intro h
  have hone : IsMap (NostrSubscriptionManager.init.step (.add 4 (kindReq [97] 1)))
      (SubscriptionMap.apply (fun _ => none) (.add 4 (kindReq [97] 1))) :=
    step_isMap isMap_init (distinct_init 4 [97])
  have haccepts : (SubscriptionMap.apply (fun _ => none)
      (.add 4 (kindReq [97] 1))).Accepts (4, [65]) := by
    refine .inr ?_
    rw [hone.ncard_keys]
    decide +kernel
  have hmap : [SubscriptionOp.add 4 (kindReq [97] 1), .add 4 (kindReq [65] 4)].foldl
      SubscriptionMap.apply (fun _ => none) (4, [65]) = some (kindReq [65] 4).filters := by
    rw [List.foldl_cons, List.foldl_cons, List.foldl_nil, apply_add haccepts]
    exact Function.update_self ..
  obtain ⟨i, hi, -⟩ := (h [.add 4 (kindReq [97] 1), .add 4 (kindReq [65] 4)] (4, [65]) _).mp hmap
  have hnone : ([SubscriptionOp.add 4 (kindReq [97] 1), .add 4 (kindReq [65] 4)].foldl step
      NostrSubscriptionManager.init).subscriptions.any (fun sub => sub.subscriptionId = [65]) =
        false := by
    decide +kernel
  rw [List.any_eq_false] at hnone
  exact hnone _ (List.mem_of_getElem? hi) (by simp)

end OnionRelay
