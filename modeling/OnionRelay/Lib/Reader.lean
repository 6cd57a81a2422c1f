import OnionRelay.Lib.Memory
import OnionRelay.Lib.Prog

/-!
# Programs that read a memory

A `Reader` asks for the bytes of a memory, one after the other.  `value` is what it comes
to and `reads` the addresses it asks for; `Within m P` says that all of them are in `P`.

* `congr`: a run depends on the bytes it reads and on nothing else.
* `within_bind`: the footprint of two programs, one behind the other.
-/

namespace OnionRelay.Lib

/-- The question for the byte at an address. -/
def ByteSig : Sig := ⟨Nat, fun _ => UInt8⟩

abbrev Reader := Prog ByteSig

namespace Reader

variable {α β : Type} {m m' : Mem} {P : Nat → Prop}

def byteAt (addr : Nat) : Reader UInt8 := Prog.call (S := ByteSig) addr

def value : Reader α → Mem → α
  | .ret a, _ => a
  | .ask addr k, m => value (k (m addr)) m

def reads : Reader α → Mem → List Nat
  | .ret _, _ => []
  | .ask addr k, m => addr :: reads (k (m addr)) m

/-- Nothing is read outside `P`. -/
def Within (m : Mem) (P : Nat → Prop) (p : Reader α) : Prop := ∀ addr ∈ reads p m, P addr

@[simp] theorem value_pure (a : α) : value (pure a : Reader α) m = a := (rfl)

@[simp] theorem reads_pure (a : α) : reads (pure a : Reader α) m = [] := (rfl)

@[simp] theorem value_byteAt (addr : Nat) : value (byteAt addr) m = m addr := (rfl)

@[simp] theorem reads_byteAt (addr : Nat) : reads (byteAt addr) m = [addr] := (rfl)

@[simp] theorem value_bind (p : Reader α) (f : α → Reader β) :
    value (p >>= f) m = value (f (value p m)) m := by
  induction p with
  | ret a => rfl
  | ask addr k ih => exact ih (m addr)

@[simp] theorem reads_bind (p : Reader α) (f : α → Reader β) :
    reads (p >>= f) m = reads p m ++ reads (f (value p m)) m := by
  induction p with
  | ret a => rfl
  | ask addr k ih => exact congrArg (addr :: ·) (ih (m addr))

@[simp] theorem value_ite (c : Prop) [Decidable c] (p q : Reader α) :
    value (if c then p else q) m = if c then value p m else value q m := by
  split <;> rfl

/-- **The bytes that are read decide.** -/
theorem congr (p : Reader α) (h : p.Within m fun addr => m addr = m' addr) :
    value p m' = value p m ∧ reads p m' = reads p m := by
  induction p with
  | ret a => exact ⟨rfl, rfl⟩
  | ask addr k ih =>
    have haddr : m addr = m' addr := h addr List.mem_cons_self
    obtain ⟨hvalue, hreads⟩ := ih (m addr) fun a ha => h a (List.mem_cons_of_mem _ ha)
    rw [value, value, reads, reads, ← haddr]
    exact ⟨hvalue, congrArg (addr :: ·) hreads⟩

theorem within_pure (a : α) : (pure a : Reader α).Within m P := fun _ h => absurd h List.not_mem_nil

theorem within_byteAt {addr : Nat} (h : P addr) : (byteAt addr).Within m P := fun a ha => by
  rw [reads_byteAt, List.mem_singleton] at ha
  exact ha ▸ h

theorem within_bind {p : Reader α} {f : α → Reader β} (hp : p.Within m P) (hf : (f (value p m)).Within m P) :
    (p >>= f).Within m P := by
  intro addr haddr
  rw [reads_bind, List.mem_append] at haddr
  exact haddr.elim (hp addr) (hf addr)

theorem within_ite {c : Prop} [Decidable c] {p q : Reader α} (hp : c → p.Within m P) (hq : ¬ c → q.Within m P) :
    (if c then p else q).Within m P := by
  split
  · exact hp ‹_›
  · exact hq ‹_›

/-! ### Several bytes -/

def bytesAt (addr : Nat) : Nat → Reader (List UInt8)
  | 0 => return []
  | n + 1 => do
    let b ← byteAt addr
    let bs ← bytesAt (addr + 1) n
    return b :: bs

theorem value_bytesAt (n : Nat) : ∀ addr : Nat, value (bytesAt addr n) m = readAt m addr n := by
  induction n with
  | zero => exact fun _ => rfl
  | succ n ih =>
    intro addr
    rw [bytesAt, value_bind, value_bind, ih, value_byteAt, value_pure, Nat.add_comm n 1, readAt_add, readAt_one]
    rfl

theorem reads_bytesAt (n : Nat) : ∀ addr : Nat, reads (bytesAt addr n) m = List.range' addr n := by
  induction n with
  | zero => exact fun _ => rfl
  | succ n ih =>
    intro addr
    rw [bytesAt, reads_bind, reads_bind, ih, reads_byteAt, reads_pure, List.append_nil, List.range'_succ]
    rfl

theorem within_bytesAt {addr n : Nat} (h : ∀ a, addr ≤ a → a < addr + n → P a) :
    (bytesAt addr n).Within m P := by
  intro a ha
  rw [reads_bytesAt, List.mem_range'_1] at ha
  exact h a ha.1 ha.2

end Reader

end OnionRelay.Lib
