import Mathlib.Data.List.Basic
import Mathlib.Data.List.TakeWhile
import Mathlib.Tactic.Common

/-!
# Recovery from before and after images

A change says of each place it covers which value it found there and which it
left.  A log is a list of changes, each under the mark of the work it belongs to.
`recover` makes the winners' changes again, oldest first, and then takes the
others back, newest first.

The images are only worth something if they were taken from the memory they are
applied to: `Tracks` and `Traced` say so, up to places where a change of lost
work stands in the log.  `recover_of_traced` reads the recovered value off the log:
it is what the winners had left before the first loser came.  `recover_eq_winners_iff`
says when that is the work of the winners alone.
-/

namespace OnionRelay.Lib

variable {L V τ : Type}

/-- What one update does to the places it covers: the value it finds, the value it leaves. -/
abbrev Change (L V : Type) := L → Option (V × V)

namespace Change

def redo (c : Change L V) (m : L → V) : L → V := fun l => ((c l).map Prod.snd).getD (m l)

def undo (c : Change L V) (m : L → V) : L → V := fun l => ((c l).map Prod.fst).getD (m l)

end Change

/-- Values set one after the other, at some places each. -/
abbrev Writes (L V : Type) := List (L → Option V)

namespace Writes

def put (w : L → Option V) (m : L → V) : L → V := fun l => (w l).getD (m l)

def putAll (ws : Writes L V) (m : L → V) : L → V := ws.foldl (fun m w => put w m) m

/-- The value that is set last at a place. -/
def newest : Writes L V → L → Option V
  | [], _ => none
  | w :: ws, l => (newest ws l).or (w l)

@[simp] theorem putAll_nil (m : L → V) : putAll [] m = m := rfl

@[simp] theorem putAll_cons (w : L → Option V) (ws : Writes L V) (m : L → V) :
    putAll (w :: ws) m = putAll ws (put w m) := rfl

@[simp] theorem putAll_append (ws ws' : Writes L V) (m : L → V) :
    putAll (ws ++ ws') m = putAll ws' (putAll ws m) := List.foldl_append

/-- **Only where nothing is set does the memory before show.** -/
theorem putAll_eq (ws : Writes L V) (m : L → V) : putAll ws m = fun l => (newest ws l).getD (m l) := by
  induction ws generalizing m with
  | nil => rfl
  | cons w ws ih =>
    funext l
    simp only [putAll_cons, ih, newest, put]
    cases newest ws l <;> rfl

/-- What was set is set again to the same values. -/
theorem putAll_putAll (ws : Writes L V) (m : L → V) : putAll ws (putAll ws m) = putAll ws m := by
  funext l
  simp only [putAll_eq]
  cases newest ws l <;> rfl

end Writes

/-- Changes in the order they were made, each with a mark. -/
abbrev ChangeLog (L V τ : Type) := List (τ × Change L V)

namespace ChangeLog

def redoAll (log : ChangeLog L V τ) (m : L → V) : L → V := log.foldl (fun m e => e.2.redo m) m

def undoAll (log : ChangeLog L V τ) (m : L → V) : L → V := log.foldr (fun e m => e.2.undo m) m

/-- The value the last change of a place left. -/
def newest : ChangeLog L V τ → L → Option V
  | [], _ => none
  | e :: log, l => (newest log l).or ((e.2 l).map Prod.snd)

/-- The value the first change of a place found. -/
def oldest : ChangeLog L V τ → L → Option V
  | [], _ => none
  | e :: log, l => ((e.2 l).map Prod.fst).or (oldest log l)

def recover (won : τ → Bool) (log : ChangeLog L V τ) (m : L → V) : L → V :=
  undoAll (log.filter fun e => !won e.1) (redoAll (log.filter fun e => won e.1) m)

/-- The log up to the first loser's change of `l`. -/
def sound (won : τ → Bool) (l : L) (log : ChangeLog L V τ) : ChangeLog L V τ :=
  log.takeWhile fun e => won e.1 || (e.2 l).isNone

/-- The memory holds what the log's changes left over `base`, except where lost
work has changed it. -/
def Tracks (lost : τ → Prop) (base : L → V) (log : ChangeLog L V τ) (m : L → V) : Prop :=
  ∀ l, (∀ e ∈ log, e.2 l ≠ none → ¬ lost e.1) → m l = (newest log l).getD (base l)

/-- Each change found what the log's changes in front of it had left over `base`,
except where lost work had changed it. -/
def Traced (lost : τ → Prop) (base : L → V) (log : ChangeLog L V τ) : Prop :=
  ∀ pre e post, log = pre ++ e :: post → ∀ l v, e.2 l = some v →
    (∀ e' ∈ pre, e'.2 l ≠ none → ¬ lost e'.1) → v.1 = (newest pre l).getD (base l)

/-- The last winner's change of a place behind the first loser's leaves what that
loser found. -/
def Settled (won : τ → Bool) (log : ChangeLog L V τ) : Prop :=
  ∀ l pre e post v, log = pre ++ e :: post → won e.1 = false → e.2 l = some v →
    (∀ e' ∈ pre, won e'.1 = false → e'.2 l = none) →
      ∀ w, newest (post.filter fun e => won e.1) l = some w → w = v.1

/-! ## Reading values off a log -/

theorem redoAll_apply (log : ChangeLog L V τ) (m : L → V) (l : L) :
    redoAll log m l = (newest log l).getD (m l) := by
  induction log generalizing m with
  | nil => rfl
  | cons e log ih =>
    change redoAll log (e.2.redo m) l = _
    rw [ih, newest]
    cases newest log l with
    | none => rfl
    | some v => rfl

theorem undoAll_apply (log : ChangeLog L V τ) (m : L → V) (l : L) :
    undoAll log m l = (oldest log l).getD (m l) := by
  induction log with
  | nil => rfl
  | cons e log ih =>
    change e.2.undo (undoAll log m) l = _
    rw [Change.undo, ih, oldest]
    cases e.2 l with
    | none => rfl
    | some v => rfl

theorem redoAll_append (log log' : ChangeLog L V τ) (m : L → V) :
    redoAll (log ++ log') m = redoAll log' (redoAll log m) := List.foldl_append

theorem newest_append (log log' : ChangeLog L V τ) (l : L) :
    newest (log ++ log') l = (newest log' l).or (newest log l) := by
  induction log with
  | nil => simp [newest]
  | cons e log ih => rw [List.cons_append, newest, ih, newest, Option.or_assoc]

theorem oldest_append (log log' : ChangeLog L V τ) (l : L) :
    oldest (log ++ log') l = (oldest log l).or (oldest log' l) := by
  induction log with
  | nil => simp [oldest]
  | cons e log ih => rw [List.cons_append, oldest, ih, oldest, Option.or_assoc]

theorem newest_eq_none_iff {log : ChangeLog L V τ} {l : L} :
    newest log l = none ↔ ∀ e ∈ log, e.2 l = none := by
  induction log with
  | nil => simp [newest]
  | cons e log ih => simp [newest, ih, and_comm]

theorem oldest_eq_none_iff {log : ChangeLog L V τ} {l : L} :
    oldest log l = none ↔ ∀ e ∈ log, e.2 l = none := by
  induction log with
  | nil => simp [oldest]
  | cons e log ih => simp [oldest, ih]

/-- Changes that do not cover a place may be left out. -/
theorem newest_filter {p : τ × Change L V → Bool} {log : ChangeLog L V τ} {l : L}
    (h : ∀ e ∈ log, p e = false → e.2 l = none) : newest (log.filter p) l = newest log l := by
  induction log with
  | nil => rfl
  | cons e log ih =>
    have ih := ih fun e' he' => h e' (List.mem_cons_of_mem e he')
    cases hp : p e with
    | true => rw [List.filter_cons_of_pos hp, newest, ih, newest]
    | false =>
      have hnone := h e List.mem_cons_self hp
      rw [List.filter_cons_of_neg (by simp [hp]), ih, newest, hnone]
      exact (Option.or_none).symm

theorem newest_map {σ : Type} {f : τ → σ} {log : ChangeLog L V τ} {l : L} :
    newest (log.map fun e => (f e.1, e.2)) l = newest log l := by
  induction log with
  | nil => rfl
  | cons e log ih => rw [List.map_cons, newest, ih, newest]

/-- A log is sound at a place up to the first loser's change of it, if there is one. -/
theorem sound_cases (won : τ → Bool) (l : L) (log : ChangeLog L V τ) :
    (sound won l log = log ∧ ∀ e ∈ log, won e.1 = false → e.2 l = none) ∨
    ∃ e post v, log = sound won l log ++ e :: post ∧ won e.1 = false ∧ e.2 l = some v := by
  induction log with
  | nil => exact .inl ⟨rfl, by simp⟩
  | cons e log ih =>
    by_cases he : (won e.1 || (e.2 l).isNone) = true
    · have hcons : sound won l (e :: log) = e :: sound won l log := List.takeWhile_cons_of_pos he
      rcases ih with ⟨hall, hnone⟩ | ⟨e', post, v, heq, hlost, hv⟩
      · refine .inl ⟨by rw [hcons, hall], fun e' he' hlost => ?_⟩
        rcases List.mem_cons.mp he' with rfl | he'
        · simpa [hlost] using he
        · exact hnone e' he' hlost
      · exact .inr ⟨e', post, v, by rw [hcons, List.cons_append, ← heq], hlost, hv⟩
    · have hnil : sound won l (e :: log) = [] := List.takeWhile_cons_of_neg he
      have hsplit : won e.1 = false ∧ e.2 l ≠ none := by simpa using he
      obtain ⟨v, hv⟩ := Option.ne_none_iff_exists'.mp hsplit.2
      exact .inr ⟨e, log, v, by rw [hnil, List.nil_append], hsplit.1, hv⟩

theorem of_mem_sound {won : τ → Bool} {l : L} {log : ChangeLog L V τ} {e : τ × Change L V}
    (h : e ∈ sound won l log) (hlost : won e.1 = false) : e.2 l = none := by
  simpa [hlost] using List.mem_takeWhile_imp h

theorem recover_apply (won : τ → Bool) (log : ChangeLog L V τ) (m : L → V) (l : L) :
    recover won log m l = (oldest (log.filter fun e => !won e.1) l).getD
      ((newest (log.filter fun e => won e.1) l).getD (m l)) := by
  rw [recover, undoAll_apply, redoAll_apply]

/-! ## Images taken from the memory -/

variable {lost lost' : τ → Prop} {base m : L → V} {log : ChangeLog L V τ}

theorem Traced.mono (h : Traced lost base log) (hle : ∀ e ∈ log, lost e.1 → lost' e.1) :
    Traced lost' base log := by
  intro pre e post heq l v hv hno
  refine h pre e post heq l v hv fun e' he' hc hl => hno e' he' hc (hle e' ?_ hl)
  rw [heq]
  exact List.mem_append_left _ he'

theorem Tracks.mono (h : Tracks lost base log m) (hle : ∀ e ∈ log, lost e.1 → lost' e.1) :
    Tracks lost' base log m :=
  fun l hno => h l fun e he hc hl => hno e he hc (hle e he hl)

theorem Traced.of_append {log' : ChangeLog L V τ} (h : Traced lost base (log ++ log')) :
    Traced lost base log := by
  intro pre e post heq
  exact h pre e (post ++ log') (by rw [heq, List.append_assoc, List.cons_append])

theorem Traced.nil : Traced lost base ([] : ChangeLog L V τ) := by
  intro pre e post heq
  simp at heq

theorem Tracks.nil : Tracks lost m ([] : ChangeLog L V τ) m := fun _ _ => rfl

/-- A change whose before-image is the memory's keeps the log traced. -/
theorem Traced.append (htraced : Traced lost base log) (htracks : Tracks lost base log m)
    {e : τ × Change L V} (he : ∀ l v, e.2 l = some v → v.1 = m l) :
    Traced lost base (log ++ [e]) := by
  intro pre e' post heq l v hv hno
  rcases List.eq_nil_or_concat post with rfl | ⟨post, last, rfl⟩
  · obtain ⟨rfl, hcons⟩ := List.append_inj' heq rfl
    obtain rfl : e = e' := by simpa using hcons
    rw [he l v hv]
    exact htracks l hno
  · rw [List.concat_eq_append, ← List.cons_append, ← List.append_assoc] at heq
    exact htraced pre e' post (List.append_inj' heq rfl).1 l v hv hno

theorem Tracks.append (h : Tracks lost base log m) (e : τ × Change L V) :
    Tracks lost base (log ++ [e]) (e.2.redo m) := by
  intro l hno
  rw [newest_append, newest, newest, Change.redo, Option.none_or]
  cases hc : e.2 l with
  | some v => rfl
  | none =>
    rw [Option.map_none, Option.none_or, Option.getD_none]
    exact h l fun e' he' => hno e' (List.mem_append_left [e] he')

/-- Marks may change as long as what was lost stays lost. -/
theorem Tracks.map {σ : Type} {lost' : σ → Prop} (h : Tracks lost base log m) {f : τ → σ}
    (hf : ∀ t, lost t → lost' (f t)) : Tracks lost' base (log.map fun e => (f e.1, e.2)) m := by
  intro l hno
  rw [newest_map]
  refine h l fun e he hc hl => ?_
  exact hno (f e.1, e.2) (List.mem_map_of_mem he) hc (hf e.1 hl)

/-- A memory that tracks a log over one that tracks another tracks both. -/
theorem Tracks.trans {initial : L → V} {past : ChangeLog L V τ} (h : Tracks lost initial past base)
    (h' : Tracks lost base log m) : Tracks lost initial (past ++ log) m := by
  intro l hno
  rw [newest_append, h' l fun e he => hno e (List.mem_append_right past he),
    h l fun e he => hno e (List.mem_append_left log he)]
  cases newest log l <;> rfl

/-- A log without losers is settled. -/
theorem settled_of_winners {won : τ → Bool} (h : ∀ e ∈ log, won e.1 = true) : Settled won log := by
  intro l pre e post v heq hlost
  have he := h e (heq ▸ List.mem_append_right _ List.mem_cons_self)
  rw [hlost] at he
  cases he

/-! ## What recovery leaves -/

section Recover

variable {won : τ → Bool} (hwon : ∀ t, lost t → won t = false)
  (hm : ∀ l, (∀ e ∈ log, e.2 l = none) → m l = base l)

include hwon hm

/-- **What recovery leaves at a place is what the winners had left there before the
first loser changed it.** -/
theorem recover_of_traced (h : Traced lost base log) (l : L) :
    recover won log m l = (newest (sound won l log) l).getD (base l) := by
  rw [recover_apply]
  rcases sound_cases won l log with ⟨hall, hnone⟩ | ⟨e, post, v, heq, hlost, hv⟩
  · have hold : oldest (log.filter fun e => !won e.1) l = none := by
      refine oldest_eq_none_iff.mpr fun e he => ?_
      obtain ⟨he, hw⟩ := List.mem_filter.mp he
      exact hnone e he (by simpa using hw)
    rw [hold, hall, Option.getD_none, newest_filter hnone]
    cases hnew : newest log l with
    | some w => rfl
    | none => exact hm l (newest_eq_none_iff.mp hnew)
  · -- the first loser's before-image is put back last
    have hold : oldest (log.filter fun e => !won e.1) l = some v.1 := by
      have hpre : oldest ((sound won l log).filter fun e => !won e.1) l = none := by
        refine oldest_eq_none_iff.mpr fun e' he' => ?_
        obtain ⟨he', hw⟩ := List.mem_filter.mp he'
        exact of_mem_sound he' (by simpa using hw)
      rw [heq, List.filter_append, oldest_append, hpre, Option.none_or,
        List.filter_cons_of_pos (by simp [hlost]), oldest, hv]
      rfl
    rw [hold, Option.getD_some]
    refine h _ e post heq l v hv fun e' he' hc hl => hc ?_
    exact of_mem_sound he' (hwon e'.1 hl)

/-- The memory tracks the log again after recovery, if all losers count as lost. -/
theorem tracks_recover (h : Traced lost base log) :
    Tracks (fun t => won t = false) base log (recover won log m) := by
  intro l hno
  rw [recover_of_traced hwon hm h l]
  rcases sound_cases won l log with ⟨hall, _⟩ | ⟨e, post, v, heq, hlost, hv⟩
  · rw [hall]
  · have he : e ∈ log := heq ▸ List.mem_append_right _ List.mem_cons_self
    exact absurd hlost (hno e he (by simp [hv]))

/-- **Recovery leaves the work of the winners alone exactly when the log is settled.** -/
theorem recover_eq_winners_iff (h : Traced lost base log) :
    (∀ l, recover won log m l = (newest (log.filter fun e => won e.1) l).getD (base l)) ↔
      Settled won log := by
  constructor
  · intro heff l pre e post v heq hlost hv hpre w hw
    have hl := heff l
    have hold : oldest (log.filter fun e => !won e.1) l = some v.1 := by
      have hnone : oldest (pre.filter fun e => !won e.1) l = none := by
        refine oldest_eq_none_iff.mpr fun e' he' => ?_
        obtain ⟨he', hw'⟩ := List.mem_filter.mp he'
        exact hpre e' he' (by simpa using hw')
      rw [heq, List.filter_append, oldest_append, hnone, Option.none_or,
        List.filter_cons_of_pos (by simp [hlost]), oldest, hv]
      rfl
    rw [recover_apply, hold, Option.getD_some, heq, List.filter_append, newest_append,
      List.filter_cons_of_neg (by simp [hlost]), hw, Option.some_or, Option.getD_some] at hl
    exact hl.symm
  · intro hsettled l
    rw [recover_of_traced hwon hm h l]
    rcases sound_cases won l log with ⟨hall, hnone⟩ | ⟨e, post, v, heq, hlost, hv⟩
    · rw [hall, newest_filter hnone]
    · have hpre : ∀ e' ∈ sound won l log, won e'.1 = false → e'.2 l = none :=
        fun e' he' hl => of_mem_sound he' hl
      have hwinners : newest (log.filter fun e => won e.1) l =
          (newest (post.filter fun e => won e.1) l).or (newest (sound won l log) l) := by
        conv_lhs => rw [heq]
        rw [List.filter_append, newest_append, newest_filter hpre,
          List.filter_cons_of_neg (by simp [hlost])]
      rw [hwinners]
      cases hw : newest (post.filter fun e => won e.1) l with
      | none => rw [Option.none_or]
      | some w =>
        -- the loser's before-image is what the winners in front of it had left
        have hfound := h _ e post heq l v hv fun e' he' hc hl => hc (hpre e' he' (hwon e'.1 hl))
        rw [← hfound, Option.some_or, Option.getD_some]
        exact (hsettled l _ e post v heq hlost hv hpre w hw).symm

end Recover

/-! ## Places rolled back -/

section RolledBack

variable {won : τ → Bool} {initial : L → V} {past : ChangeLog L V τ} {l : L} {v : V}

/-- A value is what the winners alone had left at a place at some moment, from the
first loser's change of it on. -/
def RolledBack (won : τ → Bool) (initial : L → V) (history : ChangeLog L V τ) (l : L) (v : V) :
    Prop :=
  ∃ pre, sound won l history <+: pre ∧ pre <+: history ∧
    v = (newest (pre.filter fun e => won e.1) l).getD (initial l)

theorem sound_append_prefix (won : τ → Bool) (l : L) (past log : ChangeLog L V τ) :
    sound won l (past ++ log) <+: past ++ sound won l log := by
  induction past with
  | nil => exact List.prefix_rfl
  | cons e past ih =>
    rw [List.cons_append, List.cons_append, sound, List.takeWhile_cons]
    split
    · exact (List.prefix_cons_inj e).mpr ih
    · exact List.nil_prefix

theorem filter_sound (won : τ → Bool) (l : L) (log : ChangeLog L V τ) :
    newest ((sound won l log).filter fun e => won e.1) l = newest (sound won l log) l :=
  newest_filter fun _ he hlost => of_mem_sound he hlost

theorem sound_map {σ : Type} {f : τ → σ} {won' : σ → Bool} {log : ChangeLog L V τ}
    (hf : ∀ e ∈ log, won' (f e.1) = won e.1) :
    sound won' l (log.map fun e => (f e.1, e.2)) =
      (sound won l log).map fun e => (f e.1, e.2) := by
  induction log with
  | nil => rfl
  | cons e log ih =>
    have ih := ih fun e' he' => hf e' (List.mem_cons_of_mem e he')
    rw [List.map_cons, sound, sound, List.takeWhile_cons, List.takeWhile_cons,
      hf e List.mem_cons_self]
    split
    · exact congrArg (_ :: ·) ih
    · rfl

/-- What the winners had left in front of the first loser of the log is rolled back. -/
theorem rolledBack_of_sound (h : newest (sound won l log) l = some v) :
    RolledBack won initial (past ++ log) l v := by
  refine ⟨past ++ sound won l log, sound_append_prefix won l past log, ?_, ?_⟩
  · exact (List.prefix_append_right_inj past).mpr (List.takeWhile_prefix _)
  · rw [List.filter_append, newest_append, filter_sound, h]
    rfl

/-- If all of the past has won, its content is rolled back where no winner comes in
front of the first loser of the log. -/
theorem rolledBack_of_winners (hpast : ∀ e ∈ past, won e.1 = true)
    (h : newest (sound won l log) l = none) :
    RolledBack won initial (past ++ log) l ((newest past l).getD (initial l)) := by
  refine ⟨past ++ sound won l log, sound_append_prefix won l past log, ?_, ?_⟩
  · exact (List.prefix_append_right_inj past).mpr (List.takeWhile_prefix _)
  · rw [List.filter_append, newest_append, filter_sound, h, Option.none_or,
      List.filter_eq_self.mpr hpast]

end RolledBack

/-! ## Work that does not overlap -/

section InOrder

variable [DecidableEq τ]

/-- The changes of one mark after the other. -/
def redoInOrder (marks : List τ) (log : ChangeLog L V τ) (m : L → V) : L → V :=
  marks.foldl (fun m mark => redoAll (log.filter fun e => e.1 = mark) m) m

variable {key : τ → Nat}

/-- In a log sorted by its marks the changes of the first mark come first. -/
theorem filter_mem_cons {mark : τ} {marks : List τ} {log : ChangeLog L V τ}
    (hsorted : log.Pairwise fun e e' => key e.1 ≤ key e'.1)
    (hfirst : ∀ mark' ∈ marks, key mark < key mark') :
    log.filter (fun e => e.1 ∈ mark :: marks) =
      log.filter (fun e => e.1 = mark) ++ log.filter fun e => e.1 ∈ marks := by
  induction log with
  | nil => rfl
  | cons e log ih =>
    obtain ⟨hle, hsorted⟩ := List.pairwise_cons.mp hsorted
    have ih := ih hsorted
    by_cases hmark : e.1 = mark
    · have hnot : e.1 ∉ marks := fun hmem => Nat.lt_irrefl _ (hmark ▸ hfirst _ hmem)
      rw [List.filter_cons_of_pos (by simp [hmark]), List.filter_cons_of_pos (by simp [hmark]),
        List.filter_cons_of_neg (by simp [hnot]), ih, List.cons_append]
    · by_cases hmem : e.1 ∈ marks
      · -- no change of the first mark comes behind this one
        have hnone : log.filter (fun e => e.1 = mark) = [] := by
          refine List.filter_eq_nil_iff.mpr fun e' he' heq => ?_
          have hlt := hfirst e.1 hmem
          have hle := hle e' he'
          rw [of_decide_eq_true heq] at hle
          omega
        rw [hnone] at ih
        rw [List.filter_cons_of_pos (by simp [hmem]), List.filter_cons_of_neg (by simp [hmark]),
          List.filter_cons_of_pos (by simp [hmem]), ih, hnone, List.nil_append, List.nil_append]
      · rw [List.filter_cons_of_neg (by simp [hmark, hmem]),
          List.filter_cons_of_neg (by simp [hmark]), List.filter_cons_of_neg (by simp [hmem]), ih]

/-- **Going through the marks in order is going through the log.** -/
theorem redoInOrder_eq {marks : List τ} {log : ChangeLog L V τ}
    (hsorted : log.Pairwise fun e e' => key e.1 ≤ key e'.1)
    (hmarks : marks.Pairwise fun mark mark' => key mark < key mark') (m : L → V) :
    redoInOrder marks log m = redoAll (log.filter fun e => e.1 ∈ marks) m := by
  induction marks generalizing m with
  | nil =>
    have hnone : log.filter (fun e => e.1 ∈ ([] : List τ)) = [] :=
      List.filter_eq_nil_iff.mpr fun e _ hmem => by simp at hmem
    rw [hnone]
    rfl
  | cons mark marks ih =>
    obtain ⟨hfirst, hmarks⟩ := List.pairwise_cons.mp hmarks
    rw [filter_mem_cons hsorted hfirst, redoAll_append, ← ih hmarks]
    rfl

end InOrder

end ChangeLog

end OnionRelay.Lib
