import Mathlib.Data.List.Basic
import OnionRelay.Http.Request

/-!
# The bounds of a request

`extract_keyword` copies a word as it comes from the client, whatever the capacity of its array,
and a header line goes two bytes on behind its colon.  `RequestInside` says of the bytes alone
when nothing is read or written outside, and `extractHttpRequest_inside_iff` that the parser then
ends with every word it took terminated, and otherwise not.
-/

namespace OnionRelay.Http

open OnionRelay.Lib Checked

/-! ## What the searches find -/

/-- What `skip_token` finds. -/
def keywordLength (rest : List UInt8) (token : UInt8) : Int :=
  if token ∈ rest then toInt32 (rest.idxOf token) else -1

def lineLengthFrom : List UInt8 → Nat → Int
  | c :: d :: rest, pos =>
    if c = 0 then toInt32 pos
    else if c = 10 then toInt32 (pos + 1)
    else if d = 10 then toInt32 (pos + 2)
    else lineLengthFrom (d :: rest) (pos + 1)
  | _, pos => toInt32 pos

/-- What `skip_next_line` finds. -/
def lineLength (rest : List UInt8) : Int := if rest.length = 2 then 0 else lineLengthFrom rest 0

/-! ## The condition -/

/-- A word that was not found, or that fits with its terminator. -/
def KeywordFits (capacity : Nat) (k : Int) : Prop := k = -1 ∨ 0 ≤ k ∧ k < capacity

/-- The rest behind a word and `n` bytes. -/
def behind (rest : List UInt8) (k : Int) (n : Nat) : List UInt8 := rest.drop (k.toNat + n)

def keyLength (rest : List UInt8) : Int := keywordLength rest 58

def valueLength (rest : List UInt8) : Int := keywordLength (behind rest (keyLength rest) 2) 13

/-- The key and the value of a line fit, and the colon is not the last byte. -/
def HeaderInside (rest : List UInt8) : Prop :=
  KeywordFits httpHeaderKeyCapacity (keyLength rest) ∧
    (keyLength rest ≠ -1 → keyLength rest + 1 < rest.length ∧
      KeywordFits httpHeaderValueCapacity (valueLength rest))

def IsHeader (rest : List UInt8) : Prop := keyLength rest ≠ -1 ∧ valueLength rest ≠ -1

/-- The search for the empty line at `next` reads no byte behind the end.  Only an offset that
wraps, after a line of 2^31 bytes or more, does. -/
def EmptyLineInside (bytes : List UInt8) (next : Nat) : Prop :=
  (next + 2) % 2 ^ 64 ≤ bytes.length → next < bytes.length ∧ (bytes[next]? = some 13 → next + 1 < bytes.length)

def IsEmptyLine (bytes : List UInt8) (next : Nat) : Prop := bytes[next]? = some 13 ∧ bytes[next + 1]? = some 10

/-- The offset of the line behind the one at `pos`. -/
def nextLine (bytes : List UInt8) (pos : Nat) : Nat := (pos + toSize (lineLength (bytes.drop pos))) % 2 ^ 64

/-- The lines from `pos` on that are parsed, at most `left`. -/
def HeadersInside (bytes : List UInt8) : (left pos : Nat) → Prop
  | 0, _ => True
  | left + 1, pos => pos < bytes.length →
    HeaderInside (bytes.drop pos) ∧ (IsHeader (bytes.drop pos) → EmptyLineInside bytes (nextLine bytes pos) ∧
      (¬ IsEmptyLine bytes (nextLine bytes pos) → HeadersInside bytes left (nextLine bytes pos)))

def methodLength (buffer : List UInt8) : Int := keywordLength buffer 32

def targetRest (buffer : List UInt8) : List UInt8 := behind buffer (methodLength buffer) 1

def targetLength (buffer : List UInt8) : Int := keywordLength (targetRest buffer) 32

def versionRest (buffer : List UInt8) : List UInt8 := behind (targetRest buffer) (targetLength buffer) 1

def versionLength (buffer : List UInt8) : Int := keywordLength (versionRest buffer) 13

/-- The words of the request line fit. -/
def RequestLineInside (buffer : List UInt8) : Prop :=
  KeywordFits httpMethodCapacity (methodLength buffer) ∧ (methodLength buffer ≠ -1 →
    KeywordFits httpTargetCapacity (targetLength buffer) ∧ (targetLength buffer ≠ -1 →
      KeywordFits httpVersionCapacity (versionLength buffer)))

def IsRequestLine (buffer : List UInt8) : Prop :=
  methodLength buffer ≠ -1 ∧ targetLength buffer ≠ -1 ∧ versionLength buffer ≠ -1

def headersOffset (buffer : List UInt8) : Nat := toSize (lineLength buffer)

/-- Every word the parser comes to fits. -/
def RequestInside (buffer : List UInt8) : Prop :=
  RequestLineInside buffer ∧ (IsRequestLine buffer → headersOffset buffer ≠ buffer.length →
    headersOffset buffer < buffer.length ∧ HeadersInside (buffer.drop (headersOffset buffer)) httpHeaderCapacity 0)

/-! ## Termination of the words -/

def Terminated (capacity : Nat) (m : Mem) : Prop := ∃ i < capacity, m i = 0

/-- An array that was left as it is, or has a terminated word. -/
def Ended (capacity : Nat) (old new : Mem) : Prop := new = old ∨ Terminated capacity new

structure HTTPRequestLine.Ended (old new : HTTPRequestLine) : Prop where
  method : Http.Ended httpMethodCapacity old.method new.method
  target : Http.Ended httpTargetCapacity old.target new.target
  httpVersion : Http.Ended httpVersionCapacity old.httpVersion new.httpVersion

structure HTTPRequestLine.Terminated (line : HTTPRequestLine) : Prop where
  method : Http.Terminated httpMethodCapacity line.method
  target : Http.Terminated httpTargetCapacity line.target
  httpVersion : Http.Terminated httpVersionCapacity line.httpVersion

structure HTTPRequestHeaderLine.Ended (old new : HTTPRequestHeaderLine) : Prop where
  key : Http.Ended httpHeaderKeyCapacity old.key new.key
  value : Http.Ended httpHeaderValueCapacity old.value new.value

structure HTTPRequestHeaderLine.Terminated (line : HTTPRequestHeaderLine) : Prop where
  key : Http.Terminated httpHeaderKeyCapacity line.key
  value : Http.Terminated httpHeaderValueCapacity line.value

structure HTTPRequest.Ended (old new : HTTPRequest) : Prop where
  line : old.line.Ended new.line
  headers : ∀ i, (old.headers i).Ended (new.headers i)

/-- A request whose words are all terminated. -/
structure HTTPRequest.Terminated (request : HTTPRequest) : Prop where
  line : request.line.Terminated
  headerSize : 0 < request.headerSize ∧ request.headerSize ≤ httpHeaderCapacity
  headers : ∀ i < request.headerSize, (request.headers i).Terminated

/-! ## The searches -/

section Search

variable {buffer : List UInt8} {base size : Nat}

theorem skipTokenFrom_eq (token : UInt8) : ∀ left i, base + i + left = buffer.length →
    skipTokenFrom buffer base token left i =
      .ok (if token ∈ buffer.drop (base + i) then toInt32 (i + (buffer.drop (base + i)).idxOf token) else -1) := by
  intro left
  induction left with
  | zero =>
    intro i hend
    rw [List.drop_eq_nil_of_le (by omega), if_neg List.not_mem_nil]
    rfl
  | succ left ih =>
    intro i hend
    have hi : base + i < buffer.length := by omega
    have ih := ih (i + 1) (by omega)
    rw [show base + (i + 1) = base + i + 1 from rfl] at ih
    rw [skipTokenFrom, load_ok hi, bind_ok, ih, List.drop_eq_getElem_cons hi]
    by_cases hc : buffer[base + i] = token
    · rw [if_pos hc, if_pos (List.mem_cons.mpr (.inl hc.symm)), List.idxOf_cons_eq _ hc]
      rfl
    · have hmem : token ∈ buffer[base + i] :: buffer.drop (base + i + 1) ↔ token ∈ buffer.drop (base + i + 1) := by
        rw [List.mem_cons, or_iff_right (Ne.symm hc)]
      rw [if_neg hc, List.idxOf_cons_ne _ hc, Nat.succ_add_eq_add_succ]
      by_cases hin : token ∈ buffer.drop (base + i + 1)
      · rw [if_pos hin, if_pos (hmem.mpr hin)]
      · rw [if_neg hin, if_neg (mt hmem.mp hin)]

/-- `skip_token` up to the end of the buffer. -/
theorem skipToken_eq (hsync : base + size = buffer.length) (token : UInt8) :
    skipToken buffer base size token = .ok (keywordLength (buffer.drop base) token) := by
  rw [skipToken, keywordLength]
  by_cases hzero : size = 0
  · rw [if_pos hzero, List.drop_eq_nil_of_le (by omega), if_neg List.not_mem_nil]
    rfl
  · rw [if_neg hzero, skipTokenFrom_eq token size 0 hsync, Nat.add_zero, Nat.zero_add]

theorem skipNextLineFrom_eq : ∀ left pos, base + pos + left + 1 = buffer.length →
    skipNextLineFrom buffer base left pos = .ok (lineLengthFrom (buffer.drop (base + pos)) pos) := by
  intro left
  induction left with
  | zero =>
    intro pos hend
    have hpos : base + pos < buffer.length := by omega
    rw [skipNextLineFrom, load_ok hpos, bind_ok, List.drop_eq_getElem_cons hpos,
      List.drop_eq_nil_of_le (show buffer.length ≤ base + pos + 1 by omega), lineLengthFrom.eq_def]
    exact pure_eq _
  | succ left ih =>
    intro pos hend
    have hpos : base + pos < buffer.length := by omega
    have hnext : base + pos + 1 < buffer.length := by omega
    have ih := ih (pos + 1) (by omega)
    rw [show base + (pos + 1) = base + pos + 1 from rfl] at ih
    rw [skipNextLineFrom, load_ok hpos, bind_ok, load_ok hnext, bind_ok, ih, List.drop_eq_getElem_cons hpos,
      List.drop_eq_getElem_cons hnext, lineLengthFrom]
    split_ifs <;> rfl

theorem toSize_natCast {n : Nat} (h : n < 2 ^ 64) : toSize n = n := by
  rw [toSize]
  omega

/-- `skip_next_line` up to the end of the buffer. -/
theorem skipNextLine_eq (hsync : base + size = buffer.length) (hpos : 0 < size) (hsize : size < 2 ^ 64) :
    skipNextLine buffer base size = .ok (lineLength (buffer.drop base)) := by
  have hlen : (buffer.drop base).length = size := by rw [List.length_drop]; omega
  have htwo : toSize (size - 2) = 0 ↔ size = 2 := by
    rw [toSize]
    omega
  have hone : toSize (size - 1) = size - 1 := by
    rw [toSize]
    omega
  rw [skipNextLine, lineLength, hlen, hone]
  by_cases h : size = 2
  · rw [if_pos (htwo.mpr h), if_pos h]
    rfl
  · rw [if_neg (mt htwo.mp h), if_neg h, skipNextLineFrom_eq (size - 1) 0 (by omega)]
    rfl

theorem bmod_le (n m : Nat) : Int.bmod n m ≤ n := by
  have hle : (n : Int) % m ≤ n := by
    rw [← Int.natCast_mod]
    exact Int.ofNat_le.mpr (Nat.mod_le n m)
  rw [Int.bmod_def]
  split <;> omega

theorem toInt32_le (n : Nat) : toInt32 n ≤ n := by
  unfold toInt32
  exact bmod_le n _

theorem toInt32_bounds (n : Nat) : -2 ^ 31 ≤ toInt32 n ∧ toInt32 n < 2 ^ 31 := by
  have hlow := @Int.le_bmod n (2 ^ 32) (by decide)
  have hhigh := @Int.bmod_lt n (2 ^ 32) (by decide)
  unfold toInt32
  omega

/-- A word that was found lies in front of the end. -/
theorem keywordLength_lt {rest : List UInt8} {token : UInt8} (h : 0 ≤ keywordLength rest token) :
    keywordLength rest token < rest.length := by
  rw [keywordLength] at h ⊢
  by_cases hmem : token ∈ rest
  · rw [if_pos hmem] at h ⊢
    have hle := toInt32_le (rest.idxOf token)
    have hlt := List.idxOf_lt_length_of_mem hmem
    omega
  · rw [if_neg hmem] at h
    omega

theorem keywordLength_bounds (rest : List UInt8) (token : UInt8) :
    -2 ^ 31 ≤ keywordLength rest token ∧ keywordLength rest token < 2 ^ 31 := by
  rw [keywordLength]
  split
  · exact toInt32_bounds _
  · decide

end Search

/-! ## Words -/

section Keyword

variable {buffer : List UInt8} {base size capacity : Nat} {token : UInt8} {output : Mem}

theorem terminated_writeAt {n : Nat} (h : n < capacity) (m : Mem) : Terminated capacity (writeAt m n [0]) :=
  ⟨n, h, @writeAt_inside m n 0 [0] Nat.one_pos⟩

/-- **A word that fits** is taken and terminated. -/
theorem extractKeyword_ok (hsync : base + size = buffer.length)
    (hcap : capacity < 2 ^ 31) (hfits : KeywordFits capacity (keywordLength (buffer.drop base) token))
    (output : Mem) : ∃ output', extractKeyword buffer base size token capacity output =
        .ok (keywordLength (buffer.drop base) token, output') ∧ Ended capacity output output' ∧
      (keywordLength (buffer.drop base) token ≠ -1 → Terminated capacity output') := by
  rw [extractKeyword]
  by_cases hzero : size = 0
  · have hnone : keywordLength (buffer.drop base) token = -1 := by
      rw [keywordLength, List.drop_eq_nil_of_le (by omega), if_neg List.not_mem_nil]
    rw [if_pos hzero, hnone]
    exact ⟨output, rfl, .inl rfl, fun h => absurd rfl h⟩
  rw [if_neg hzero, skipToken_eq hsync, bind_ok]
  rcases hfits with hnone | ⟨hlow, hhigh⟩
  · rw [if_pos hnone, hnone]
    exact ⟨output, rfl, .inl rfl, fun h => absurd rfl h⟩
  · have hlt := keywordLength_lt hlow
    rw [List.length_drop] at hlt
    generalize keywordLength (buffer.drop base) token = k at *
    have hsize : toSize k = k.toNat := by
      rw [toSize]
      omega
    rw [if_neg (by omega), hsize, copy_ok output (by omega) (by omega), bind_ok, store_ok (by omega), bind_ok]
    have hdone := terminated_writeAt (show k.toNat < capacity by omega)
      (writeAt output 0 ((buffer.drop base).take k.toNat))
    exact ⟨_, rfl, .inr hdone, fun _ => hdone⟩

/-- A word that is taken without an access outside fits. -/
theorem fits_of_runs (hsync : base + size = buffer.length) (hcap : capacity < 2 ^ 31)
    (h : Runs (extractKeyword buffer base size token capacity output)) :
    KeywordFits capacity (keywordLength (buffer.drop base) token) := by
  obtain ⟨hlow, hhigh⟩ := keywordLength_bounds (buffer.drop base) token
  rw [extractKeyword] at h
  by_cases hzero : size = 0
  · exact .inl (by rw [keywordLength, List.drop_eq_nil_of_le (by omega), if_neg List.not_mem_nil])
  rw [if_neg hzero, skipToken_eq hsync, bind_ok] at h
  by_cases hnone : keywordLength (buffer.drop base) token = -1
  · exact .inl hnone
  · rw [if_neg hnone] at h
    obtain ⟨m, hcopy, h⟩ := runs_bind h
    obtain ⟨m', hstore, -⟩ := runs_bind h
    have hlt := lt_of_runs_store ⟨m', hstore⟩
    generalize keywordLength (buffer.drop base) token = k at *
    refine .inr ?_
    rw [toSize] at hlt
    omega

/-- What is taken is what `skip_token` finds. -/
theorem length_of_extractKeyword {k : Int} {output' : Mem} (hsync : base + size = buffer.length)
    (hcap : capacity < 2 ^ 31) (h : extractKeyword buffer base size token capacity output = .ok (k, output')) :
    k = keywordLength (buffer.drop base) token ∧ KeywordFits capacity k := by
  have hfits := fits_of_runs hsync hcap ⟨_, h⟩
  obtain ⟨m, heq, -, -⟩ := extractKeyword_ok hsync hcap hfits output
  rw [h] at heq
  obtain ⟨rfl, -⟩ := Prod.mk.inj (Except.ok.inj heq)
  exact ⟨rfl, hfits⟩

end Keyword

/-! ## Lines -/

theorem Ended.of_eq (capacity : Nat) (m : Mem) : Ended capacity m m := .inl rfl

section Line

variable {buffer : List UInt8} {base size : Nat}

/-- Behind a word and `n` bytes that are in the buffer, the size is still what is left of it. -/
theorem sync_behind {k z : Int} {n : Nat} (hsync : base + size = buffer.length) (hsize : size < 2 ^ 64) (hlow : 0 ≤ k)
    (hle : z ≤ size) (hz : z = k + n) :
    base + toSize z + toSize (size - z) = buffer.length ∧
      buffer.drop (base + toSize z) = behind (buffer.drop base) k n := by
  have hoff : toSize z = k.toNat + n := by
    rw [toSize]
    omega
  have hleft : toSize (size - z) = size - (k.toNat + n) := by
    rw [toSize]
    omega
  rw [hoff, hleft, behind, List.drop_drop]
  exact ⟨by omega, rfl⟩

theorem not_runs_skipToken {left : Nat} {token : UInt8} (hpast : buffer.length ≤ base) (hleft : 0 < left) :
    ¬ Runs (skipToken buffer base left token) := by
  obtain ⟨left, rfl⟩ := Nat.exists_eq_succ_of_ne_zero (Nat.ne_of_gt hleft)
  intro h
  rw [skipToken, if_neg (Nat.succ_ne_zero left), skipTokenFrom] at h
  obtain ⟨c, hload, -⟩ := runs_bind h
  exact not_runs_load hpast ⟨c, hload⟩

/-- A line whose colon is the last byte is read past the end. -/
theorem not_runs_past {token : UInt8} {capacity : Nat} {output : Mem} (hsync : base + size = buffer.length)
    {k : Int} (hlow : 0 ≤ k) (hhigh : k < 2 ^ 31) (hend : k + 1 = size) :
    ¬ Runs (extractKeyword buffer (base + toSize (k + 2)) (toSize (size - (k + 2))) token capacity output) := by
  have hoff : buffer.length ≤ base + toSize (k + 2) := by
    rw [toSize]
    omega
  have hleft : 0 < toSize (size - (k + 2)) := by
    rw [toSize]
    omega
  intro h
  rw [extractKeyword, if_neg (Nat.ne_of_gt hleft)] at h
  obtain ⟨z, hskip, -⟩ := runs_bind h
  exact not_runs_skipToken hoff hleft ⟨z, hskip⟩

theorem extractHttpRequestHeaderLine_ok (hsync : base + size = buffer.length) (hpos : 0 < size) (hsize : size < 2 ^ 64)
    (hinside : HeaderInside (buffer.drop base)) (line : HTTPRequestHeaderLine) :
    ∃ found line', extractHttpRequestHeaderLine buffer base size line = .ok (found, line') ∧ line.Ended line' ∧
      (found = true ↔ IsHeader (buffer.drop base)) ∧ (found = true → line'.Terminated) := by
  obtain ⟨hkey, hrest⟩ := hinside
  obtain ⟨key, heq, hkeyEnded, hkeyDone⟩ := extractKeyword_ok hsync (by decide) hkey line.key
  rw [extractHttpRequestHeaderLine, if_neg (by omega), heq, bind_ok]
  dsimp only
  by_cases hnone : keywordLength (buffer.drop base) 58 = -1
  · rw [if_pos hnone]
    exact ⟨false, _, rfl, ⟨hkeyEnded, .of_eq _ _⟩, iff_of_false Bool.false_ne_true fun h => h.1 hnone,
      fun h => absurd h Bool.false_ne_true⟩
  · obtain ⟨hcolon, hvalue⟩ := hrest hnone
    have hlow : 0 ≤ keywordLength (buffer.drop base) 58 := hkey.elim (fun h => absurd h hnone) And.left
    rw [List.length_drop] at hcolon
    have hle : keywordLength (buffer.drop base) 58 + 2 ≤ size := by
      rw [keyLength] at hcolon
      omega
    obtain ⟨hsync', hbehind⟩ := @sync_behind buffer base size _ _ 2 hsync hsize hlow hle rfl
    have hvalue' : KeywordFits httpHeaderValueCapacity
        (keywordLength (buffer.drop (base + toSize (keywordLength (buffer.drop base) 58 + 2))) 13) := by
      rw [hbehind]
      exact hvalue
    obtain ⟨value, heq', hvalueEnded, hvalueDone⟩ := extractKeyword_ok hsync' (by decide) hvalue' line.value
    rw [if_neg hnone, heq', bind_ok]
    dsimp only
    rw [hbehind] at heq' hvalueDone ⊢
    refine ⟨_, _, rfl, ⟨hkeyEnded, hvalueEnded⟩, ?_, fun h => ⟨hkeyDone hnone, hvalueDone (of_decide_eq_true h)⟩⟩
    rw [decide_eq_true_eq]
    exact ⟨fun h => ⟨hnone, h⟩, And.right⟩

theorem headerInside_of_runs (hsync : base + size = buffer.length) (hpos : 0 < size) (hsize : size < 2 ^ 64)
    {line : HTTPRequestHeaderLine} (h : Runs (extractHttpRequestHeaderLine buffer base size line)) :
    HeaderInside (buffer.drop base) := by
  rw [extractHttpRequestHeaderLine, if_neg (by omega)] at h
  obtain ⟨⟨k, key⟩, hextract, h⟩ := runs_bind h
  obtain ⟨rfl, hkey⟩ := length_of_extractKeyword hsync (by decide) hextract
  refine ⟨hkey, fun (hsome : keywordLength (buffer.drop base) 58 ≠ -1) => ?_⟩
  have hlow : 0 ≤ keywordLength (buffer.drop base) 58 := hkey.elim (fun h => absurd h hsome) And.left
  have hlt := keywordLength_lt hlow
  rw [List.length_drop] at hlt
  dsimp only at h
  rw [if_neg hsome] at h
  obtain ⟨⟨k, value⟩, hextract', -⟩ := runs_bind h
  have hcolon : keywordLength (buffer.drop base) 58 + 2 ≤ size := by
    by_contra hnot
    exact not_runs_past hsync hlow (keywordLength_bounds _ _).2 (by omega) ⟨_, hextract'⟩
  obtain ⟨hsync', hbehind⟩ := @sync_behind buffer base size _ _ 2 hsync hsize hlow hcolon rfl
  have hvalue := fits_of_runs hsync' (by decide) ⟨_, hextract'⟩
  rw [hbehind] at hvalue
  refine ⟨?_, hvalue⟩
  rw [keyLength, List.length_drop]
  omega

/-- Behind a word and its token comes the next word. -/
theorem sync_next {token : UInt8} {capacity : Nat} (hsync : base + size = buffer.length) (hsize : size < 2 ^ 64)
    (hfits : KeywordFits capacity (keywordLength (buffer.drop base) token))
    (hsome : keywordLength (buffer.drop base) token ≠ -1) :
    base + toSize (keywordLength (buffer.drop base) token + 1) +
        toSize (size - (keywordLength (buffer.drop base) token + 1)) = buffer.length ∧
      buffer.drop (base + toSize (keywordLength (buffer.drop base) token + 1)) =
        behind (buffer.drop base) (keywordLength (buffer.drop base) token) 1 := by
  have hlow : 0 ≤ keywordLength (buffer.drop base) token := hfits.elim (fun h => absurd h hsome) And.left
  have hlt := keywordLength_lt hlow
  rw [List.length_drop] at hlt
  exact @sync_behind buffer base size _ _ 1 hsync hsize hlow (by omega) rfl

theorem extractHttpRequestLine_ok (hpos : 0 < buffer.length) (hsize : buffer.length < 2 ^ 64)
    (hinside : RequestLineInside buffer) (line : HTTPRequestLine) :
    ∃ found line', extractHttpRequestLine buffer buffer.length line = .ok (found, line') ∧ line.Ended line' ∧
      (found = true ↔ IsRequestLine buffer) ∧ (found = true → line'.Terminated) := by
  obtain ⟨hmethod, hrest⟩ := hinside
  have hstart : 0 + buffer.length = buffer.length := Nat.zero_add _
  obtain ⟨method, heq, hmethodEnded, hmethodDone⟩ := extractKeyword_ok hstart (by decide) hmethod line.method
  rw [extractHttpRequestLine, if_neg (by omega), heq, bind_ok]
  dsimp only
  by_cases hnone : keywordLength (buffer.drop 0) 32 = -1
  · rw [if_pos hnone]
    exact ⟨false, _, rfl, ⟨hmethodEnded, .of_eq _ _, .of_eq _ _⟩, iff_of_false Bool.false_ne_true fun h => h.1 hnone,
      fun h => absurd h Bool.false_ne_true⟩
  obtain ⟨htarget, hrest⟩ := hrest hnone
  obtain ⟨hsync, hbehind⟩ := sync_next hstart hsize hmethod hnone
  rw [Nat.zero_add] at hsync hbehind
  have htarget' : KeywordFits httpTargetCapacity
      (keywordLength (buffer.drop (toSize (keywordLength (buffer.drop 0) 32 + 1))) 32) := by
    rw [hbehind]
    exact htarget
  obtain ⟨target, heq', htargetEnded, htargetDone⟩ := extractKeyword_ok hsync (by decide) htarget' line.target
  rw [if_neg hnone, heq', bind_ok]
  dsimp only
  by_cases hnone' : keywordLength (buffer.drop (toSize (keywordLength (buffer.drop 0) 32 + 1))) 32 = -1
  · rw [if_pos hnone']
    refine ⟨false, _, rfl, ⟨hmethodEnded, htargetEnded, .of_eq _ _⟩, iff_of_false Bool.false_ne_true fun h => h.2.1 ?_,
      fun h => absurd h Bool.false_ne_true⟩
    rw [hbehind] at hnone'
    exact hnone'
  obtain ⟨hsync', hbehind'⟩ := sync_next hsync (by omega) htarget' hnone'
  have hversion : KeywordFits httpVersionCapacity (versionLength buffer) := by
    refine hrest fun h => hnone' ?_
    rw [hbehind]
    exact h
  have hlength : keywordLength (behind (buffer.drop (toSize (keywordLength (buffer.drop 0) 32 + 1)))
      (keywordLength (buffer.drop (toSize (keywordLength (buffer.drop 0) 32 + 1))) 32) 1) 13 = versionLength buffer := by
    rw [hbehind]
    rfl
  rw [← hlength, ← hbehind'] at hversion
  obtain ⟨version, heq'', hversionEnded, hversionDone⟩ := extractKeyword_ok hsync' (by decide) hversion line.httpVersion
  rw [if_neg hnone', heq'', bind_ok]
  dsimp only
  rw [hbehind', hlength] at hversionDone ⊢
  refine ⟨_, _, rfl, ⟨hmethodEnded, htargetEnded, hversionEnded⟩, ?_,
    fun h => ⟨hmethodDone hnone, htargetDone hnone', hversionDone (of_decide_eq_true h)⟩⟩
  rw [decide_eq_true_eq]
  refine ⟨fun h => ⟨hnone, fun hnot => hnone' ?_, h⟩, fun h => h.2.2⟩
  rw [hbehind]
  exact hnot

theorem requestLineInside_of_runs (hpos : 0 < buffer.length) (hsize : buffer.length < 2 ^ 64)
    {line : HTTPRequestLine} (h : Runs (extractHttpRequestLine buffer buffer.length line)) :
    RequestLineInside buffer := by
  have hstart : 0 + buffer.length = buffer.length := Nat.zero_add _
  rw [extractHttpRequestLine, if_neg (by omega)] at h
  obtain ⟨⟨k, method⟩, hextract, h⟩ := runs_bind h
  obtain ⟨rfl, hmethod⟩ := length_of_extractKeyword hstart (by decide) hextract
  refine ⟨hmethod, fun (hsome : keywordLength (buffer.drop 0) 32 ≠ -1) => ?_⟩
  obtain ⟨hsync, hbehind⟩ := sync_next hstart hsize hmethod hsome
  rw [Nat.zero_add] at hsync hbehind
  dsimp only at h
  rw [if_neg hsome] at h
  obtain ⟨⟨k, target⟩, hextract', h⟩ := runs_bind h
  obtain ⟨rfl, htarget⟩ := length_of_extractKeyword hsync (by decide) hextract'
  have hlength : keywordLength (buffer.drop (toSize (keywordLength (buffer.drop 0) 32 + 1))) 32 = targetLength buffer := by
    rw [hbehind]
    rfl
  refine ⟨hlength ▸ htarget, fun hsome' => ?_⟩
  rw [← hlength] at hsome'
  obtain ⟨hsync', hbehind'⟩ := sync_next hsync (by omega) htarget hsome'
  dsimp only at h
  rw [if_neg hsome'] at h
  obtain ⟨⟨k, version⟩, hextract'', -⟩ := runs_bind h
  have hversion := fits_of_runs hsync' (by decide) ⟨_, hextract''⟩
  rw [hbehind', hbehind] at hversion
  exact hversion

end Line

/-! ## Headers -/

section Headers

variable {buffer : List UInt8} {base size : Nat}

instance (bytes : List UInt8) (next : Nat) : Decidable (IsEmptyLine bytes next) := inferInstanceAs (Decidable (_ ∧ _))

theorem atEmptyLine_ok {next : Nat} (hsync : base + size = buffer.length)
    (hinside : EmptyLineInside (buffer.drop base) next) (hsize : size < 2 ^ 64) :
    atEmptyLine buffer base size next = .ok (decide (IsEmptyLine (buffer.drop base) next)) := by
  have hlen : (buffer.drop base).length = size := by rw [List.length_drop]; omega
  rw [EmptyLineInside, hlen] at hinside
  rw [atEmptyLine]
  by_cases hnext : (next + 2) % 2 ^ 64 ≤ size
  · obtain ⟨hlt, hbehind⟩ := hinside hnext
    have hget : (buffer.drop base)[next]? = some buffer[base + next] := by
      rw [List.getElem?_drop, List.getElem?_eq_getElem]
    rw [if_pos hnext, load_ok (show base + next < buffer.length by omega), bind_ok]
    by_cases hc : buffer[base + next] = 13
    · have hlt' := hbehind (by rw [hget, hc])
      have hget' : (buffer.drop base)[next + 1]? = some buffer[base + next + 1] := by
        rw [List.getElem?_drop, ← Nat.add_assoc, List.getElem?_eq_getElem]
      rw [if_pos hc, load_ok (show base + next + 1 < buffer.length by omega), bind_ok]
      refine congrArg Except.ok (decide_eq_decide.mpr ?_)
      rw [IsEmptyLine, hget, hget', hc, and_iff_right rfl, Option.some_inj]
    · rw [if_neg hc]
      refine congrArg Except.ok (decide_eq_false fun h => hc ?_).symm
      rw [IsEmptyLine, hget] at h
      exact Option.some_inj.mp h.1
  · rw [if_neg hnext]
    refine congrArg Except.ok (decide_eq_false fun h => hnext ?_).symm
    obtain ⟨hlt, -⟩ := List.getElem?_eq_some_iff.mp h.2
    omega

theorem emptyLineInside_of_runs {next : Nat} (hsync : base + size = buffer.length)
    (h : Runs (atEmptyLine buffer base size next)) : EmptyLineInside (buffer.drop base) next := by
  have hlen : (buffer.drop base).length = size := by rw [List.length_drop]; omega
  intro hnext
  rw [hlen] at hnext ⊢
  rw [atEmptyLine, if_pos hnext] at h
  have hlt : next < size := by
    by_contra hnot
    obtain ⟨c, hload, -⟩ := runs_bind h
    exact not_runs_load (by omega) ⟨c, hload⟩
  refine ⟨hlt, fun hc => ?_⟩
  rw [List.getElem?_drop, List.getElem?_eq_getElem (by omega), Option.some_inj] at hc
  rw [load_ok (by omega), bind_ok, if_pos hc] at h
  by_contra hnot
  obtain ⟨d, hload, -⟩ := runs_bind h
  exact not_runs_load (by omega) ⟨d, hload⟩

/-- In front of the end, the size that is left goes up to the end. -/
theorem sync_nextLine {pos remain : Nat} {k : Int} (hsize : size < 2 ^ 64) (hremain : pos + remain = size)
    (hlt : (pos + toSize k) % 2 ^ 64 < size) : (pos + toSize k) % 2 ^ 64 + toSize (remain - k) = size := by
  rw [toSize, toSize] at *
  omega

/-- **The loop** ends in the table, with every line it took terminated.  The induction is on the
lines that are left in the table. -/
theorem extractHeaders_ok (hsync : base + size = buffer.length) (hsize : size < 2 ^ 64) :
    ∀ left pos remain headerPos headers, (pos < size → pos + remain = size) →
      headerPos + left = httpHeaderCapacity → HeadersInside (buffer.drop base) left pos →
        ∃ found n headers', extractHeaders buffer base size left pos remain headerPos headers = .ok (found, n, headers') ∧
          n ≤ httpHeaderCapacity ∧ (∀ i, (headers i).Ended (headers' i)) ∧ (∀ i < headerPos, headers' i = headers i) ∧
          (found = true → ∀ i, headerPos ≤ i → i < n → (headers' i).Terminated) := by
  have hlen : (buffer.drop base).length = size := by rw [List.length_drop]; omega
  intro left
  induction left with
  | zero =>
    intro pos remain headerPos headers _ htable _
    exact ⟨true, headerPos, headers, rfl, htable.le, fun i => ⟨.of_eq _ _, .of_eq _ _⟩, fun i _ => rfl,
      fun _ i hle hlt => absurd hlt (Nat.not_lt.mpr hle)⟩
  | succ left ih =>
    intro pos remain headerPos headers hremain htable hinside
    have hcell : headerPos < httpHeaderCapacity := by omega
    rw [extractHeaders]
    by_cases hpos : pos < size
    swap
    · rw [if_neg hpos]
      exact ⟨true, headerPos, headers, rfl, hcell.le, fun i => ⟨.of_eq _ _, .of_eq _ _⟩, fun i _ => rfl,
        fun _ i hle hlt => absurd hlt (Nat.not_lt.mpr hle)⟩
    have hremain := hremain hpos
    have hsync' : base + pos + remain = buffer.length := by omega
    obtain ⟨hheader, hnext⟩ := hinside (by omega)
    rw [List.drop_drop] at hheader hnext
    obtain ⟨found, line, hline, hended, hfound, hdone⟩ :=
      extractHttpRequestHeaderLine_ok hsync' (by omega) (by omega) hheader (headers headerPos)
    rw [if_pos hpos, cell_ok hcell, bind_ok, hline, bind_ok]
    dsimp only
    have hupdate : ∀ i, (headers i).Ended (Function.update headers headerPos line i) := by
      intro i
      by_cases hi : i = headerPos
      · rw [hi, Function.update_self]
        exact hended
      · rw [Function.update_of_ne hi]
        exact ⟨.of_eq _ _, .of_eq _ _⟩
    have hbefore : ∀ i < headerPos, Function.update headers headerPos line i = headers i :=
      fun i hi => Function.update_of_ne (Nat.ne_of_lt hi) _ _
    cases found with
    | false =>
      exact ⟨false, headerPos, _, rfl, hcell.le, hupdate, hbefore, fun h => absurd h Bool.false_ne_true⟩
    | true =>
      obtain ⟨hempty, hrest⟩ := hnext (hfound.mp rfl)
      have hnextLine : (pos + toSize (lineLength (buffer.drop (base + pos)))) % 2 ^ 64 = nextLine (buffer.drop base) pos := by
        rw [nextLine, List.drop_drop]
      rw [if_pos rfl, skipNextLine_eq hsync' (by omega) (by omega), bind_ok, hnextLine, atEmptyLine_ok hsync hempty hsize,
        bind_ok]
      by_cases hlast : IsEmptyLine (buffer.drop base) (nextLine (buffer.drop base) pos)
      · rw [if_pos (decide_eq_true hlast)]
        refine ⟨true, headerPos + 1, _, rfl, hcell, hupdate, hbefore, fun _ i hle hlt => ?_⟩
        rw [Nat.le_antisymm (Nat.le_of_lt_succ hlt) hle, Function.update_self]
        exact hdone rfl
      · rw [if_neg (by rw [decide_eq_false hlast]; exact Bool.false_ne_true)]
        have hstep := @sync_nextLine size pos remain (lineLength (buffer.drop (base + pos))) hsize hremain
        rw [hnextLine] at hstep
        obtain ⟨found, n, headers', heq, hn, hended', hsame, hterminated⟩ := ih (nextLine (buffer.drop base) pos)
          (toSize (remain - lineLength (buffer.drop (base + pos)))) (headerPos + 1)
          (Function.update headers headerPos line) hstep (by omega) (hrest hlast)
        refine ⟨found, n, headers', heq, hn, fun i => ?_, fun i hi => ?_, fun h i hle hlt => ?_⟩
        · by_cases hi : i = headerPos
          · rw [hi, hsame headerPos (Nat.lt_succ_self _), Function.update_self]
            exact hended
          · have h := hended' i
            rwa [Function.update_of_ne hi] at h
        · rw [hsame i (Nat.lt_succ_of_lt hi)]
          exact hbefore i hi
        · rcases Nat.eq_or_lt_of_le hle with rfl | hlt'
          · rw [hsame _ (Nat.lt_succ_self _), Function.update_self]
            exact hdone rfl
          · exact hterminated h i hlt' hlt

theorem headersInside_of_runs (hsync : base + size = buffer.length) (hsize : size < 2 ^ 64) :
    ∀ left pos remain headerPos headers, (pos < size → pos + remain = size) →
      headerPos + left = httpHeaderCapacity → Runs (extractHeaders buffer base size left pos remain headerPos headers) →
        HeadersInside (buffer.drop base) left pos := by
  have hlen : (buffer.drop base).length = size := by rw [List.length_drop]; omega
  intro left
  induction left with
  | zero => exact fun _ _ _ _ _ _ _ => trivial
  | succ left ih =>
    intro pos remain headerPos headers hremain htable h hpos
    rw [hlen] at hpos
    have hremain := hremain hpos
    have hsync' : base + pos + remain = buffer.length := by omega
    rw [extractHeaders, if_pos hpos, cell_ok (by omega), bind_ok] at h
    rw [List.drop_drop]
    obtain ⟨⟨found, line⟩, hline, h⟩ := runs_bind h
    have hheader := headerInside_of_runs hsync' (by omega) (by omega) ⟨_, hline⟩
    refine ⟨hheader, fun hIsHeader => ?_⟩
    obtain ⟨found', line', hline', -, hfound, -⟩ :=
      extractHttpRequestHeaderLine_ok hsync' (by omega) (by omega) hheader (headers headerPos)
    rw [hline] at hline'
    obtain ⟨rfl, rfl⟩ := Prod.mk.inj (Except.ok.inj hline')
    have hnextLine : (pos + toSize (lineLength (buffer.drop (base + pos)))) % 2 ^ 64 = nextLine (buffer.drop base) pos := by
      rw [nextLine, List.drop_drop]
    dsimp only at h
    rw [if_pos (hfound.mpr hIsHeader), skipNextLine_eq hsync' (by omega) (by omega), bind_ok, hnextLine] at h
    have hempty : EmptyLineInside (buffer.drop base) (nextLine (buffer.drop base) pos) := by
      obtain ⟨done, heq, -⟩ := runs_bind h
      exact emptyLineInside_of_runs hsync ⟨done, heq⟩
    refine ⟨hempty, fun hlast => ?_⟩
    rw [atEmptyLine_ok hsync hempty hsize, bind_ok, if_neg (by rw [decide_eq_false hlast]; exact Bool.false_ne_true)] at h
    have hstep := @sync_nextLine size pos remain (lineLength (buffer.drop (base + pos))) hsize hremain
    rw [hnextLine] at hstep
    exact ih _ _ _ _ hstep (by omega) h

theorem extractHttpRequestHeader_ok (hsync : base + size = buffer.length) (hsize : size < 2 ^ 64)
    (hinside : HeadersInside (buffer.drop base) httpHeaderCapacity 0) (request : HTTPRequest)
    (hline : request.line.Terminated) :
    ∃ found request', extractHttpRequestHeader buffer base size request = .ok (found, request') ∧
      request'.line = request.line ∧ (∀ i, (request.headers i).Ended (request'.headers i)) ∧
      (found = true → request'.Terminated) := by
  rw [extractHttpRequestHeader]
  by_cases hzero : size = 0
  · rw [if_pos hzero]
    exact ⟨false, request, rfl, rfl, fun i => ⟨.of_eq _ _, .of_eq _ _⟩, fun h => absurd h Bool.false_ne_true⟩
  obtain ⟨found, n, headers, heq, hn, hended, -, hdone⟩ :=
    extractHeaders_ok hsync hsize httpHeaderCapacity 0 size 0 request.headers (fun _ => Nat.zero_add _) rfl hinside
  rw [if_neg hzero, heq, bind_ok]
  dsimp only
  by_cases hfound : found = true ∧ 0 < n
  · rw [if_pos hfound]
    exact ⟨true, _, rfl, rfl, hended, fun _ => ⟨hline, ⟨hfound.2, hn⟩, fun i hi => hdone hfound.1 i (Nat.zero_le i) hi⟩⟩
  · rw [if_neg hfound]
    exact ⟨false, _, rfl, rfl, hended, fun h => absurd h Bool.false_ne_true⟩

theorem headersInside_of_runs_header (hsync : base + size = buffer.length) (hsize : size < 2 ^ 64)
    {request : HTTPRequest} (h : Runs (extractHttpRequestHeader buffer base size request)) (hzero : size ≠ 0) :
    HeadersInside (buffer.drop base) httpHeaderCapacity 0 := by
  rw [extractHttpRequestHeader, if_neg hzero] at h
  obtain ⟨result, heq, -⟩ := runs_bind h
  exact headersInside_of_runs hsync hsize _ _ _ _ _ (fun _ => Nat.zero_add _) rfl ⟨result, heq⟩

/-- Behind the end of the buffer the first read is outside. -/
theorem not_runs_extractHttpRequestHeader {request : HTTPRequest} (hpast : buffer.length ≤ base) (hsize : 0 < size) :
    ¬ Runs (extractHttpRequestHeader buffer base size request) := by
  intro h
  rw [extractHttpRequestHeader, if_neg (Nat.ne_of_gt hsize)] at h
  obtain ⟨result, heq, -⟩ := runs_bind h
  have hloop : Runs (extractHeaders buffer base size (31 + 1) 0 size 0 request.headers) := ⟨result, heq⟩
  rw [extractHeaders, if_pos hsize, cell_ok (by decide), bind_ok] at hloop
  obtain ⟨line, hline, -⟩ := runs_bind hloop
  have hline : Runs (extractHttpRequestHeaderLine buffer (base + 0) size (request.headers 0)) := ⟨line, hline⟩
  rw [extractHttpRequestHeaderLine, if_neg (Nat.ne_of_gt hsize)] at hline
  obtain ⟨word, hword, -⟩ := runs_bind hline
  have hword : Runs (extractKeyword buffer (base + 0) size 58 httpHeaderKeyCapacity (request.headers 0).key) := ⟨word, hword⟩
  rw [extractKeyword, if_neg (Nat.ne_of_gt hsize)] at hword
  obtain ⟨z, hskip, -⟩ := runs_bind hword
  exact not_runs_skipToken hpast hsize ⟨z, hskip⟩

end Headers

/-! ## The request -/

theorem lineLengthFrom_bounds : ∀ (rest : List UInt8) (pos : Nat),
    -2 ^ 31 ≤ lineLengthFrom rest pos ∧ lineLengthFrom rest pos < 2 ^ 31 := by
  intro rest
  induction rest with
  | nil => exact fun pos => toInt32_bounds pos
  | cons c rest ih =>
    intro pos
    cases rest with
    | nil => exact toInt32_bounds pos
    | cons d rest =>
      rw [lineLengthFrom]
      split_ifs
      · exact toInt32_bounds pos
      · exact toInt32_bounds (pos + 1)
      · exact toInt32_bounds (pos + 2)
      · exact ih (pos + 1)

theorem lineLength_bounds (rest : List UInt8) : -2 ^ 31 ≤ lineLength rest ∧ lineLength rest < 2 ^ 31 := by
  rw [lineLength]
  split
  · decide
  · exact lineLengthFrom_bounds rest 0

section Request

variable {buffer : List UInt8}

theorem sync_headers (hsize : buffer.length < 2 ^ 64) (hlt : headersOffset buffer < buffer.length) :
    toSize (lineLength buffer) + toSize (buffer.length - lineLength buffer) = buffer.length := by
  obtain ⟨hlow, hhigh⟩ := lineLength_bounds buffer
  rw [headersOffset, toSize] at hlt
  rw [toSize, toSize]
  omega

theorem requestInside_of_runs (hpos : 0 < buffer.length) (hsize : buffer.length < 2 ^ 64) {request : HTTPRequest}
    (h : Runs (extractHttpRequest buffer request)) : RequestInside buffer := by
  rw [extractHttpRequest, if_neg (Nat.ne_of_gt hpos)] at h
  obtain ⟨⟨found, line⟩, hline, h⟩ := runs_bind h
  have hinside := requestLineInside_of_runs hpos hsize ⟨_, hline⟩
  refine ⟨hinside, fun hIsRequestLine (hne : toSize (lineLength buffer) ≠ buffer.length) => ?_⟩
  obtain ⟨found', line', hline', -, hfound, -⟩ := extractHttpRequestLine_ok hpos hsize hinside request.line
  rw [hline] at hline'
  obtain ⟨rfl, rfl⟩ := Prod.mk.inj (Except.ok.inj hline')
  dsimp only at h
  rw [if_pos (hfound.mpr hIsRequestLine), skipNextLine_eq (Nat.zero_add _) hpos hsize, bind_ok, List.drop_zero,
    if_neg hne] at h
  rcases Nat.lt_or_gt_of_ne hne with hlt | hgt
  · have hsync := sync_headers hsize hlt
    exact ⟨hlt, headersInside_of_runs_header hsync (by omega) h (by omega)⟩
  · have hleft : 0 < toSize (buffer.length - lineLength buffer) := by
      obtain ⟨hlow, hhigh⟩ := lineLength_bounds buffer
      rw [toSize] at hgt ⊢
      omega
    exact absurd h (not_runs_extractHttpRequestHeader hgt.le hleft)

theorem extractHttpRequest_ok (hsize : buffer.length < 2 ^ 64) (hinside : RequestInside buffer)
    (request : HTTPRequest) : ∃ found request', extractHttpRequest buffer request = .ok (found, request') ∧
      request.Ended request' ∧ (found = true → request'.Terminated) := by
  rw [extractHttpRequest]
  by_cases hzero : buffer.length = 0
  · rw [if_pos hzero]
    exact ⟨false, request, rfl, ⟨⟨.of_eq _ _, .of_eq _ _, .of_eq _ _⟩, fun i => ⟨.of_eq _ _, .of_eq _ _⟩⟩,
      fun h => absurd h Bool.false_ne_true⟩
  have hpos : 0 < buffer.length := Nat.pos_of_ne_zero hzero
  obtain ⟨hrequestLine, hheaders⟩ := hinside
  obtain ⟨found, line, heq, hended, hfound, hdone⟩ := extractHttpRequestLine_ok hpos hsize hrequestLine request.line
  rw [if_neg hzero, heq, bind_ok]
  dsimp only
  cases found with
  | false =>
    exact ⟨false, _, rfl, ⟨hended, fun i => ⟨.of_eq _ _, .of_eq _ _⟩⟩, fun h => absurd h Bool.false_ne_true⟩
  | true =>
    rw [if_pos rfl, skipNextLine_eq (Nat.zero_add _) hpos hsize, bind_ok, List.drop_zero]
    by_cases hne : toSize (lineLength buffer) = buffer.length
    · rw [if_pos hne]
      exact ⟨false, _, rfl, ⟨hended, fun i => ⟨.of_eq _ _, .of_eq _ _⟩⟩, fun h => absurd h Bool.false_ne_true⟩
    obtain ⟨hlt, hlines⟩ := hheaders (hfound.mp rfl) hne
    have hsync := sync_headers hsize hlt
    rw [if_neg hne]
    obtain ⟨found, request', heq', hsame, hendedHeaders, hterminated⟩ :=
      extractHttpRequestHeader_ok hsync (by omega) hlines { request with line := line } (hdone rfl)
    refine ⟨found, request', heq', ⟨?_, hendedHeaders⟩, hterminated⟩
    rw [hsame]
    exact hended

theorem requestInside_iff_runs (hsize : buffer.length < 2 ^ 64) (request : HTTPRequest) :
    RequestInside buffer ↔ Runs (extractHttpRequest buffer request) := by
  constructor
  · intro hinside
    obtain ⟨found, request', heq, -⟩ := extractHttpRequest_ok hsize hinside request
    exact ⟨_, heq⟩
  · intro h
    rcases Nat.eq_zero_or_pos buffer.length with hzero | hpos
    · rw [List.eq_nil_of_length_eq_zero hzero]
      exact ⟨⟨.inl rfl, fun h => absurd rfl h⟩, fun h => absurd rfl h.1⟩
    · exact requestInside_of_runs hpos hsize h

/-- **A request is parsed in bounds**, with every word that was taken terminated, if and only if
every word the parser comes to fits in its array and every line goes on behind its colon. -/
theorem extractHttpRequest_inside_iff (hsize : buffer.length < 2 ^ 64) (request : HTTPRequest) :
    (∃ found request', extractHttpRequest buffer request = .ok (found, request') ∧ request.Ended request' ∧
      (found = true → request'.Terminated)) ↔ RequestInside buffer := by
  constructor
  · rintro ⟨found, request', heq, -⟩
    exact (requestInside_iff_runs hsize request).mpr ⟨_, heq⟩
  · exact fun hinside => extractHttpRequest_ok hsize hinside request

end Request

/-! ## Two requests -/

def emptyRequest : HTTPRequest where
  line := ⟨fun _ => 0, fun _ => 0, fun _ => 0⟩
  headers := fun _ => ⟨fun _ => 0, fun _ => 0⟩
  headerSize := 0

/-- `A A HTTP/1.1`, and the header `A: B`. -/
def smallRequest : List UInt8 :=
  [65, 32, 65, 32, 72, 84, 84, 80, 47, 49, 46, 49, 13, 10, 65, 58, 32, 66, 13, 10, 13, 10]

theorem extractHttpRequest_inside_iff_small :
    ∃ found request', extractHttpRequest smallRequest emptyRequest = .ok (found, request') ∧
      emptyRequest.Ended request' ∧ (found = true → request'.Terminated) :=
  (extractHttpRequest_inside_iff (by decide) emptyRequest).mpr
    ((requestInside_iff_runs (by decide) emptyRequest).mpr (by decide +kernel))

/-- A method of 16 bytes, whose terminator is stored in cell 16 of 16. -/
def longMethod : List UInt8 := List.replicate 16 65 ++ [32]

theorem extractHttpRequest_longMethod : extractHttpRequest longMethod emptyRequest = .error ⟨16, 16⟩ ∧
    ¬ ∃ found request', extractHttpRequest longMethod emptyRequest = .ok (found, request') := by
  have hfault : extractHttpRequest longMethod emptyRequest = .error ⟨16, 16⟩ := by with_unfolding_all rfl
  refine ⟨hfault, ?_⟩
  rintro ⟨found, request', h⟩
  rw [hfault] at h
  cases h

end OnionRelay.Http
