import Mathlib.Data.Nat.Find
import Mathlib.Data.Nat.ModEq
import OnionRelay.Db.Buffer.Pool

/-!
# The clock

`clock_evict` looks at the frames from the hand on, for two turns.  `passed pool k` is the pool when the
hand has gone over `k` frames: of those that are not pinned the bit is cleared.  A turn clears the bits
of all of them, so the second turn stops at the first one.  `clockEvict_secondChance` says which frame is
found, from every position of the hand.
-/

namespace OnionRelay.Db.BufferPool

/-- The frame `i` steps behind the hand. -/
def fromHand (pool : BufferPool) (i : Nat) : Nat := (pool.clockHand + i) % pool.poolSize

def Unpinned (pool : BufferPool) (frame : Nat) : Prop := (pool.frames frame).pinCount = 0

/-- Neither pinned nor referenced. -/
def Free (pool : BufferPool) (frame : Nat) : Prop := pool.Unpinned frame ∧ (pool.frames frame).refBit = false

instance (pool : BufferPool) (frame : Nat) : Decidable (pool.Unpinned frame) := inferInstanceAs (Decidable (_ = _))

instance (pool : BufferPool) (frame : Nat) : Decidable (pool.Free frame) := inferInstanceAs (Decidable (_ ∧ _))

/-- The first frame from the hand for which `P` holds is `i` steps behind it. -/
structure FirstFromHand (pool : BufferPool) (P : Nat → Prop) (i : Nat) : Prop where
  lt : i < pool.poolSize
  holds : P (pool.fromHand i)
  first : ∀ j < i, ¬ P (pool.fromHand j)

/-- The first free frame from the hand, or the first unpinned one when no frame is free. -/
def IsVictim (pool : BufferPool) (i : Nat) : Prop :=
  pool.FirstFromHand pool.Free i ∨ (∀ j < pool.poolSize, ¬ pool.Free (pool.fromHand j)) ∧ pool.FirstFromHand pool.Unpinned i

/-- The hand goes over the frame: up to it no frame is free. -/
def PassedOver (pool : BufferPool) (frame : Nat) : Prop :=
  ∃ i < pool.poolSize, pool.fromHand i = frame ∧ ∀ j ≤ i, ¬ pool.Free (pool.fromHand j)

instance (pool : BufferPool) : DecidablePred pool.PassedOver := fun _ =>
  inferInstanceAs (Decidable (∃ i < pool.poolSize, _ ∧ ∀ j ≤ i, _))

/-- The frames when the bits of the unpinned ones among those that were passed are cleared. -/
def cleared (pool : BufferPool) (passed : Nat → Prop) [DecidablePred passed] (frame : Nat) : Frame :=
  if pool.Unpinned frame ∧ passed frame then { pool.frames frame with refBit := false } else pool.frames frame

/-- The hand has gone over the frame in `k` steps. -/
def Behind (pool : BufferPool) (k frame : Nat) : Prop := ∃ i < k, pool.fromHand i = frame

instance (pool : BufferPool) (k : Nat) : DecidablePred (pool.Behind k) := fun _ => inferInstanceAs (Decidable (∃ i < k, _))

/-- The pool when the hand has gone over `k` frames. -/
def passed (pool : BufferPool) (k : Nat) : BufferPool :=
  { pool with clockHand := pool.fromHand k, frames := pool.cleared (pool.Behind k) }

/-! ## The hand moves on -/

variable {pool : BufferPool}

theorem unpinned_of_not_pos {frame : Nat} (h : ¬ 0 < (pool.frames frame).pinCount) : pool.Unpinned frame := by
  rw [UInt8.lt_iff_toNat_lt] at h
  exact UInt8.toNat_inj.mp (Nat.eq_zero_of_not_pos h)

theorem not_pos_of_unpinned {frame : Nat} (h : pool.Unpinned frame) : ¬ 0 < (pool.frames frame).pinCount := by
  rw [h]
  decide

section

variable {passed : Nat → Prop} [DecidablePred passed] {frame : Nat}

theorem cleared_of_not (h : ¬ (pool.Unpinned frame ∧ passed frame)) : pool.cleared passed frame = pool.frames frame :=
  if_neg h

theorem cleared_of (hunpinned : pool.Unpinned frame) (h : passed frame) :
    pool.cleared passed frame = { pool.frames frame with refBit := false } := if_pos ⟨hunpinned, h⟩

theorem pinCount_cleared (passed : Nat → Prop) [DecidablePred passed] (frame : Nat) :
    (pool.cleared passed frame).pinCount = (pool.frames frame).pinCount := by
  rw [cleared]
  split <;> rfl

theorem cleared_congr {passed' : Nat → Prop} [DecidablePred passed']
    (h : ∀ frame, pool.Unpinned frame → (passed frame ↔ passed' frame)) : pool.cleared passed = pool.cleared passed' := by
  funext frame
  by_cases hboth : pool.Unpinned frame ∧ passed frame
  · rw [cleared_of hboth.1 hboth.2, cleared_of hboth.1 ((h frame hboth.1).mp hboth.2)]
  · rw [cleared_of_not hboth, cleared_of_not fun hboth' => hboth ⟨hboth'.1, (h frame hboth'.1).mpr hboth'.2⟩]

end

theorem passed_zero (hhand : pool.clockHand < pool.poolSize) : pool.passed 0 = pool := by
  have hframes : pool.cleared (pool.Behind 0) = pool.frames := by
    funext frame
    refine cleared_of_not ?_
    rintro ⟨-, i, hi, -⟩
    exact absurd hi (Nat.not_lt_zero i)
  rw [passed, hframes, fromHand, Nat.add_zero, Nat.mod_eq_of_lt hhand]

theorem fromHand_succ (k : Nat) : (pool.fromHand k + 1) % pool.poolSize = pool.fromHand (k + 1) := Nat.mod_add_mod _ _ 1

theorem unpinned_passed_iff {k frame : Nat} : (pool.passed k).Unpinned frame ↔ pool.Unpinned frame := by
  rw [Unpinned, passed, pinCount_cleared]
  rfl

theorem behind_succ_iff {k frame : Nat} : pool.Behind (k + 1) frame ↔ pool.Behind k frame ∨ pool.fromHand k = frame := by
  constructor
  · rintro ⟨i, hi, rfl⟩
    rcases Nat.lt_succ_iff_lt_or_eq.mp hi with hi | rfl
    · exact .inl ⟨i, hi, rfl⟩
    · exact .inr rfl
  · rintro (⟨i, hi, rfl⟩ | rfl)
    · exact ⟨i, Nat.lt_succ_of_lt hi, rfl⟩
    · exact ⟨k, Nat.lt_succ_self k, rfl⟩

/-- A pinned frame stays as it is. -/
theorem cleared_succ_of_pinned {k : Nat} (h : ¬ pool.Unpinned (pool.fromHand k)) :
    pool.cleared (pool.Behind (k + 1)) = pool.cleared (pool.Behind k) := by
  refine cleared_congr fun frame hunpinned => ?_
  rw [behind_succ_iff, or_iff_left]
  rintro rfl
  exact h hunpinned

/-- Of an unpinned one the bit is cleared. -/
theorem cleared_succ_of_unpinned {k : Nat} (h : pool.Unpinned (pool.fromHand k)) :
    pool.cleared (pool.Behind (k + 1)) = Function.update (pool.cleared (pool.Behind k)) (pool.fromHand k)
      { pool.cleared (pool.Behind k) (pool.fromHand k) with refBit := false } := by
  funext frame
  by_cases hframe : frame = pool.fromHand k
  · rw [hframe, Function.update_self, cleared_of h (behind_succ_iff.mpr (.inr rfl)), cleared]
    split <;> rfl
  · rw [Function.update_of_ne hframe, cleared, cleared]
    refine if_congr (and_congr_right fun _ => ?_) rfl rfl
    rw [behind_succ_iff, or_iff_left (Ne.symm hframe)]

/-- The hand goes over a frame that is not free. -/
theorem clockFrom_step {k : Nat} (s : Nat) (h : ¬ (pool.passed k).Free (pool.fromHand k)) :
    clockFrom (s + 1) (pool.passed k) = clockFrom s (pool.passed (k + 1)) := by
  have hhand : (pool.passed k).clockHand = pool.fromHand k := rfl
  rw [clockFrom]
  dsimp only
  rw [hhand]
  by_cases hunpinned : pool.Unpinned (pool.fromHand k)
  · have hbit : ((pool.passed k).frames (pool.fromHand k)).refBit = true := by
      by_contra hclear
      exact h ⟨unpinned_passed_iff.mpr hunpinned, Bool.eq_false_iff.mpr hclear⟩
    rw [if_neg (not_pos_of_unpinned (unpinned_passed_iff.mpr hunpinned)), if_pos hbit]
    have hnext : pool.passed (k + 1) = setFrame { pool.passed k with clockHand := (pool.fromHand k + 1) % pool.poolSize }
        (pool.fromHand k) { (pool.passed k).frames (pool.fromHand k) with refBit := false } := by
      rw [passed, cleared_succ_of_unpinned hunpinned, setFrame, fromHand_succ]
      rfl
    rw [hnext]
    rfl
  · have hpinned : 0 < ((pool.passed k).frames (pool.fromHand k)).pinCount := by
      by_contra hnot
      exact hunpinned (unpinned_passed_iff.mp (unpinned_of_not_pos hnot))
    have hnext : pool.passed (k + 1) = { pool.passed k with clockHand := (pool.fromHand k + 1) % pool.poolSize } := by
      rw [passed, cleared_succ_of_pinned hunpinned, fromHand_succ]
      rfl
    rw [if_pos hpinned, hnext]
    rfl

/-- A free frame is the victim. -/
theorem clockFrom_free {k : Nat} (s : Nat) (h : (pool.passed k).Free (pool.fromHand k)) :
    clockFrom (s + 1) (pool.passed k) =
      (some (pool.fromHand k), { pool.passed k with clockHand := pool.fromHand (k + 1) }) := by
  have hhand : (pool.passed k).clockHand = pool.fromHand k := rfl
  rw [clockFrom]
  dsimp only
  rw [hhand, if_neg (not_pos_of_unpinned h.1), h.2, if_neg Bool.false_ne_true, ← fromHand_succ]
  rfl

/-- The hand goes over `k` frames of which none is free. -/
theorem clockFrom_run (hhand : pool.clockHand < pool.poolSize) (s : Nat) : ∀ k,
    (∀ i < k, ¬ (pool.passed i).Free (pool.fromHand i)) → clockFrom (s + k) pool = clockFrom s (pool.passed k) := by
  intro k
  induction k generalizing s with
  | zero =>
    intro _
    rw [passed_zero hhand, Nat.add_zero]
  | succ k ih =>
    intro h
    rw [Nat.add_comm k 1, ← Nat.add_assoc, ih (s + 1) fun i hi => h i (Nat.lt_succ_of_lt hi),
      clockFrom_step s (h k (Nat.lt_succ_self k)), Nat.add_comm 1 k]

/-! ## Two turns -/

theorem fromHand_inj {i j : Nat} (hi : i < pool.poolSize) (hj : j < pool.poolSize)
    (h : pool.fromHand i = pool.fromHand j) : i = j := by
  have hmod : (pool.clockHand + i) % pool.poolSize = (pool.clockHand + j) % pool.poolSize := h
  have hij := Nat.ModEq.add_left_cancel' pool.clockHand hmod
  exact Nat.ModEq.eq_of_lt_of_lt hij hi hj

theorem exists_fromHand (hhand : pool.clockHand < pool.poolSize) {frame : Nat} (h : frame < pool.poolSize) :
    ∃ i < pool.poolSize, pool.fromHand i = frame := by
  rcases Nat.lt_or_ge frame pool.clockHand with hlt | hge
  · refine ⟨frame + pool.poolSize - pool.clockHand, by omega, ?_⟩
    rw [fromHand, show pool.clockHand + (frame + pool.poolSize - pool.clockHand) = frame + pool.poolSize by omega,
      Nat.add_mod_right, Nat.mod_eq_of_lt h]
  · refine ⟨frame - pool.clockHand, by omega, ?_⟩
    rw [fromHand, Nat.add_sub_cancel' hge, Nat.mod_eq_of_lt h]

theorem fromHand_add_poolSize (i : Nat) : pool.fromHand (pool.poolSize + i) = pool.fromHand i := by
  rw [fromHand, fromHand, Nat.add_left_comm, Nat.add_mod_left]

/-- In the first turn nothing has happened to the frame in front of the hand. -/
theorem free_passed_iff {i : Nat} (hi : i < pool.poolSize) :
    (pool.passed i).Free (pool.fromHand i) ↔ pool.Free (pool.fromHand i) := by
  have hframe : (pool.passed i).frames (pool.fromHand i) = pool.frames (pool.fromHand i) := by
    refine cleared_of_not ?_
    rintro ⟨-, j, hj, heq⟩
    exact absurd (fromHand_inj (hj.trans hi) hi heq) (Nat.ne_of_lt hj)
  rw [Free, Unpinned, hframe]
  rfl

/-- In the second turn all unpinned frames are free. -/
theorem free_passed_turn_iff {i : Nat} (hpos : 0 < pool.poolSize) :
    (pool.passed (pool.poolSize + i)).Free (pool.fromHand (pool.poolSize + i)) ↔ pool.Unpinned (pool.fromHand i) := by
  rw [fromHand_add_poolSize, Free, unpinned_passed_iff]
  refine and_iff_left_of_imp fun hunpinned => ?_
  have hbehind : pool.Behind (pool.poolSize + i) (pool.fromHand i) := by
    refine ⟨i % pool.poolSize, by have := Nat.mod_lt i hpos; omega, ?_⟩
    rw [fromHand, Nat.add_mod_mod]
    rfl
  show (pool.cleared _ _).refBit = false
  rw [cleared_of hunpinned hbehind]

open Classical in
theorem exists_firstFromHand {P : Nat → Prop} (h : ∃ i < pool.poolSize, P (pool.fromHand i)) :
    ∃ i, pool.FirstFromHand P i := by
  obtain ⟨hlt, hholds⟩ := Nat.find_spec h
  exact ⟨Nat.find h, hlt, hholds, fun j hj hP => Nat.find_min h hj ⟨hj.trans hlt, hP⟩⟩

/-- The scans are two turns. -/
theorem clockEvict_eq (hsize : pool.poolSize ≤ 2 ^ 30) :
    pool.clockEvict = clockFrom (pool.poolSize + pool.poolSize) pool := by
  rw [clockEvict, Nat.mul_two, Nat.mod_eq_of_lt (by omega)]

/-- Frames that were passed before the first free one. -/
theorem cleared_of_first {i : Nat} (h : pool.FirstFromHand pool.Free i) :
    pool.cleared (pool.Behind i) = pool.cleared pool.PassedOver := by
  refine cleared_congr fun frame _ => ⟨?_, ?_⟩
  · rintro ⟨j, hj, heq⟩
    exact ⟨j, hj.trans h.lt, heq, fun k hk => h.first k (Nat.lt_of_le_of_lt hk hj)⟩
  · rintro ⟨j, -, heq, hnone⟩
    exact ⟨j, Nat.lt_of_not_le fun hle => hnone i hle h.holds, heq⟩

/-- When none is free, one turn passes all of them. -/
theorem cleared_of_turn (hpos : 0 < pool.poolSize) (hnone : ∀ j < pool.poolSize, ¬ pool.Free (pool.fromHand j)) (i : Nat) :
    pool.cleared (pool.Behind (pool.poolSize + i)) = pool.cleared pool.PassedOver := by
  refine cleared_congr fun frame _ => ⟨?_, ?_⟩
  · rintro ⟨j, -, heq⟩
    have hlt := Nat.mod_lt j hpos
    refine ⟨j % pool.poolSize, hlt, ?_, fun k hk => hnone k (Nat.lt_of_le_of_lt hk hlt)⟩
    rw [← heq, fromHand, fromHand, Nat.add_mod_mod]
  · rintro ⟨j, hj, heq, -⟩
    exact ⟨j, Nat.lt_add_right i hj, heq⟩

section

variable (hsize : pool.poolSize ≤ 2 ^ 30) (hhand : pool.clockHand < pool.poolSize)

include hsize hhand

theorem clockEvict_of_free {i : Nat} (h : pool.FirstFromHand pool.Free i) :
    pool.clockEvict = (some (pool.fromHand i), { pool.passed i with clockHand := pool.fromHand (i + 1) }) := by
  have hlt := h.lt
  rw [clockEvict_eq hsize, show pool.poolSize + pool.poolSize = pool.poolSize + pool.poolSize - i - 1 + 1 + i by omega,
    clockFrom_run hhand _ i fun j hj => mt (free_passed_iff (hj.trans hlt)).mp (h.first j hj),
    clockFrom_free _ ((free_passed_iff hlt).mpr h.holds)]

/-- In the second turn the hand stops at the first unpinned frame. -/
theorem not_free_passed (hnone : ∀ j < pool.poolSize, ¬ pool.Free (pool.fromHand j)) {i : Nat}
    (h : ∀ j < i, ¬ pool.Unpinned (pool.fromHand j)) :
    ∀ j < pool.poolSize + i, ¬ (pool.passed j).Free (pool.fromHand j) := by
  intro j hj
  rcases Nat.lt_or_ge j pool.poolSize with hlt | hge
  · exact mt (free_passed_iff hlt).mp (hnone j hlt)
  · obtain ⟨k, rfl⟩ := Nat.exists_eq_add_of_le hge
    exact mt (free_passed_turn_iff (by omega)).mp (h k (by omega))

theorem clockEvict_of_turn (hnone : ∀ j < pool.poolSize, ¬ pool.Free (pool.fromHand j)) {i : Nat}
    (h : pool.FirstFromHand pool.Unpinned i) :
    pool.clockEvict = (some (pool.fromHand i),
      { pool.passed (pool.poolSize + i) with clockHand := pool.fromHand (pool.poolSize + i + 1) }) := by
  have hlt := h.lt
  rw [clockEvict_eq hsize,
    show pool.poolSize + pool.poolSize = pool.poolSize - i - 1 + 1 + (pool.poolSize + i) by omega,
    clockFrom_run hhand _ _ (not_free_passed hsize hhand hnone h.first),
    clockFrom_free _ ((free_passed_turn_iff (by omega)).mpr h.holds), fromHand_add_poolSize]

theorem clockEvict_of_pinned (hpinned : ∀ j < pool.poolSize, ¬ pool.Unpinned (pool.fromHand j)) :
    pool.clockEvict = (none, pool.passed (pool.poolSize + pool.poolSize)) := by
  have hnone : ∀ j < pool.poolSize, ¬ pool.Free (pool.fromHand j) := fun j hj hfree => hpinned j hj hfree.1
  rw [clockEvict_eq hsize, ← Nat.zero_add (pool.poolSize + pool.poolSize),
    clockFrom_run hhand 0 _ (not_free_passed hsize hhand hnone hpinned), clockFrom, Nat.zero_add]

/-- **The clock gives a second chance.**  An unpinned frame is found if there is one: the first free one
from the hand, or the first unpinned one after a turn that cleared all their bits.  Only the bits of
unpinned frames that the hand went over change. -/
theorem clockEvict_secondChance :
    ((∃ frame < pool.poolSize, pool.clockEvict.1 = some frame ∧ pool.Unpinned frame) ↔
      ∃ frame < pool.poolSize, pool.Unpinned frame) ∧
    (∀ frame, pool.clockEvict.1 = some frame → ∃ i, pool.IsVictim i ∧ frame = pool.fromHand i) ∧
    pool.clockEvict.2 =
      { pool with clockHand := pool.clockEvict.2.clockHand, frames := pool.cleared pool.PassedOver } := by
  have hpos : 0 < pool.poolSize := Nat.lt_of_le_of_lt (Nat.zero_le _) hhand
  have hinside : ∀ i, pool.fromHand i < pool.poolSize := fun i => Nat.mod_lt _ hpos
  have hleft : (∃ frame < pool.poolSize, pool.clockEvict.1 = some frame ∧ pool.Unpinned frame) →
      ∃ frame < pool.poolSize, pool.Unpinned frame := by
    rintro ⟨frame, hlt, -, hframe⟩
    exact ⟨frame, hlt, hframe⟩
  by_cases hfree : ∃ i < pool.poolSize, pool.Free (pool.fromHand i)
  · obtain ⟨i, hi⟩ := exists_firstFromHand hfree
    have hevict := clockEvict_of_free hsize hhand hi
    refine ⟨⟨hleft, fun _ => ⟨pool.fromHand i, hinside i, by rw [hevict], hi.holds.1⟩⟩, fun frame heq => ⟨i, .inl hi, ?_⟩, ?_⟩
    · rw [hevict] at heq
      exact (Option.some_inj.mp heq).symm
    · rw [hevict, ← cleared_of_first hi]
      rfl
  have hnone : ∀ j < pool.poolSize, ¬ pool.Free (pool.fromHand j) := fun j hj h => hfree ⟨j, hj, h⟩
  by_cases hunpinned : ∃ i < pool.poolSize, pool.Unpinned (pool.fromHand i)
  · obtain ⟨i, hi⟩ := exists_firstFromHand hunpinned
    have hevict := clockEvict_of_turn hsize hhand hnone hi
    refine ⟨⟨hleft, fun _ => ⟨pool.fromHand i, hinside i, by rw [hevict], hi.holds⟩⟩,
      fun frame heq => ⟨i, .inr ⟨hnone, hi⟩, ?_⟩, ?_⟩
    · rw [hevict] at heq
      exact (Option.some_inj.mp heq).symm
    · rw [hevict, ← cleared_of_turn hpos hnone i]
      rfl
  · have hpinned : ∀ j < pool.poolSize, ¬ pool.Unpinned (pool.fromHand j) := fun j hj h => hunpinned ⟨j, hj, h⟩
    have hevict := clockEvict_of_pinned hsize hhand hpinned
    refine ⟨⟨hleft, ?_⟩, fun frame heq => ?_, ?_⟩
    · rintro ⟨frame, hlt, hframe⟩
      obtain ⟨i, hi, rfl⟩ := exists_fromHand hhand hlt
      exact absurd hframe (hpinned i hi)
    · rw [hevict] at heq
      cases heq
    · rw [hevict, ← cleared_of_turn hpos hnone pool.poolSize]
      rfl

end

/-- Three frames without pages, and the hand at the last one. -/
def threeFrames : BufferPool := { init twoPages 3 7 with clockHand := 2 }

theorem clockEvict_secondChance_three :
    ∃ frame < threeFrames.poolSize, threeFrames.clockEvict.1 = some frame ∧ threeFrames.Unpinned frame :=
  (@clockEvict_secondChance threeFrames (by decide) (by decide)).1.mpr ⟨0, by decide, rfl⟩

end OnionRelay.Db.BufferPool
