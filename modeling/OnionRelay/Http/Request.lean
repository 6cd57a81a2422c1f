import OnionRelay.Lib.Checked

/-!
# HTTP requests

`extract_http_request` takes the request of a client apart: the words of the request line and
the keys and values of the headers go into arrays of fixed capacities.  The buffer is the bytes
below `buffer_size`; an access outside of it or of an array is a fault.  An `int32_t` is an
integer, a `size_t` a number below 2^64, and the conversions wrap.
-/

namespace OnionRelay.Http

open OnionRelay.Lib Checked

def httpMethodCapacity : Nat := 16

def httpTargetCapacity : Nat := 256

def httpVersionCapacity : Nat := 16

def httpHeaderKeyCapacity : Nat := 32

def httpHeaderValueCapacity : Nat := 256

def httpHeaderCapacity : Nat := 32

structure HTTPRequestLine where
  method : Mem
  target : Mem
  httpVersion : Mem

structure HTTPRequestHeaderLine where
  key : Mem
  value : Mem

structure HTTPRequest where
  line : HTTPRequestLine
  headers : Nat → HTTPRequestHeaderLine
  headerSize : Nat

/-- A `size_t` as an `int32_t`. -/
@[irreducible] def toInt32 (n : Nat) : Int := Int.bmod n (2 ^ 32)

/-- An integer as a `size_t`. -/
def toSize (z : Int) : Nat := (z % 2 ^ 64).toNat

section

variable (buffer : List UInt8)

/-! ## Searches -/

/-- The loop of `skip_token`. -/
def skipTokenFrom (base : Nat) (token : UInt8) : Nat → Nat → Checked Int
  | 0, _ => return -1
  | left + 1, i => do
    let c ← load buffer (base + i)
    if c = token then return toInt32 i else skipTokenFrom base token left (i + 1)

/-- `skip_token` on the `size` bytes from `base` on. -/
def skipToken (base size : Nat) (token : UInt8) : Checked Int :=
  if size = 0 then return -1 else skipTokenFrom buffer base token size 0

/-- The loop of `skip_next_line`, with `left` rounds up to the last byte. -/
def skipNextLineFrom (base : Nat) : Nat → Nat → Checked Int
  | 0, pos => do
    -- the first condition of the loop reads the last byte
    let _ ← load buffer (base + pos)
    return toInt32 pos
  | left + 1, pos => do
    let current ← load buffer (base + pos)
    if current = 0 then return toInt32 pos
    else do
      let next ← load buffer (base + pos + 1)
      if current = 10 then return toInt32 (pos + 1)
      else if next = 10 then return toInt32 (pos + 2)
      else skipNextLineFrom base left (pos + 1)

/-- `skip_next_line` -/
def skipNextLine (base size : Nat) : Checked Int :=
  if toSize (size - 2) = 0 then return 0 else skipNextLineFrom buffer base (toSize (size - 1)) 0

/-! ## Lines -/

/-- `extract_keyword` into an array of `capacity` bytes. -/
def extractKeyword (base size : Nat) (token : UInt8) (capacity : Nat) (output : Mem) : Checked (Int × Mem) :=
  if size = 0 then return (-1, output)
  else do
    let keywordLength ← skipToken buffer base size token
    if keywordLength = -1 then return (-1, output)
    else do
      let output ← copy buffer base capacity (toSize keywordLength) output
      let output ← store capacity output (toSize keywordLength) 0
      return (keywordLength, output)

/-- `extract_http_request_line` -/
def extractHttpRequestLine (size : Nat) (line : HTTPRequestLine) : Checked (Bool × HTTPRequestLine) :=
  if size = 0 then return (false, line)
  else do
    let (k, method) ← extractKeyword buffer 0 size 32 httpMethodCapacity line.method
    let line := { line with method := method }
    if k = -1 then return (false, line)
    else do
      let base := toSize (k + 1)
      let size := toSize (size - (k + 1))
      let (k, target) ← extractKeyword buffer base size 32 httpTargetCapacity line.target
      let line := { line with target := target }
      if k = -1 then return (false, line)
      else do
        let base := base + toSize (k + 1)
        let size := toSize (size - (k + 1))
        let (k, httpVersion) ← extractKeyword buffer base size 13 httpVersionCapacity line.httpVersion
        return (k ≠ -1, { line with httpVersion := httpVersion })

/-- `extract_http_request_header_line` -/
def extractHttpRequestHeaderLine (base size : Nat) (line : HTTPRequestHeaderLine) :
    Checked (Bool × HTTPRequestHeaderLine) :=
  if size = 0 then return (false, line)
  else do
    let (k, key) ← extractKeyword buffer base size 58 httpHeaderKeyCapacity line.key
    let line := { line with key := key }
    if k = -1 then return (false, line)
    else do
      let (k, value) ← extractKeyword buffer (base + toSize (k + 2)) (toSize (size - (k + 2))) 13
        httpHeaderValueCapacity line.value
      return (k ≠ -1, { line with value := value })

/-! ## Headers -/

/-- Whether the empty line is at `pos`. -/
def atEmptyLine (base size pos : Nat) : Checked Bool :=
  if (pos + 2) % 2 ^ 64 ≤ size then do
    let c ← load buffer (base + pos)
    if c = 13 then do
      let d ← load buffer (base + pos + 1)
      return d = 10
    else return false
  else return false

/-- The loop of `extract_http_request_header`, with `left` lines left in the table; `false` when
a line is none. -/
def extractHeaders (base size : Nat) : (left pos remain headerPos : Nat) → (Nat → HTTPRequestHeaderLine) →
    Checked (Bool × Nat × (Nat → HTTPRequestHeaderLine))
  | 0, _, _, headerPos, headers => return (true, headerPos, headers)
  | left + 1, pos, remain, headerPos, headers =>
    if pos < size then do
      let i ← cell httpHeaderCapacity headerPos
      let (found, line) ← extractHttpRequestHeaderLine buffer (base + pos) remain (headers i)
      let headers := Function.update headers i line
      if found then do
        let newPos ← skipNextLine buffer (base + pos) remain
        let pos := (pos + toSize newPos) % 2 ^ 64
        let remain := toSize (remain - newPos)
        let done ← atEmptyLine buffer base size pos
        if done then return (true, headerPos + 1, headers)
        else extractHeaders base size left pos remain (headerPos + 1) headers
      else return (false, headerPos, headers)
    else return (true, headerPos, headers)

/-- `extract_http_request_header` -/
def extractHttpRequestHeader (base size : Nat) (request : HTTPRequest) : Checked (Bool × HTTPRequest) :=
  if size = 0 then return (false, request)
  else do
    let (found, headerPos, headers) ← extractHeaders buffer base size httpHeaderCapacity 0 size 0 request.headers
    let request := { request with headers := headers }
    if found = true ∧ 0 < headerPos then return (true, { request with headerSize := headerPos })
    else return (false, request)

/-- `extract_http_request` -/
def extractHttpRequest (request : HTTPRequest) : Checked (Bool × HTTPRequest) :=
  if buffer.length = 0 then return (false, request)
  else do
    let (found, line) ← extractHttpRequestLine buffer buffer.length request.line
    let request := { request with line := line }
    if found then do
      let newPos ← skipNextLine buffer 0 buffer.length
      if toSize newPos = buffer.length then return (false, request)
      else extractHttpRequestHeader buffer (toSize newPos) (toSize (buffer.length - newPos)) request
    else return (false, request)

end

end OnionRelay.Http
