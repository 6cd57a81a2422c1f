import OnionRelay.Crypto.Base64
import OnionRelay.Http.Inside

/-!
# The request of a handshake

`is_valid_request` judges the request line and every header whose name it knows, and
`select_websocket_client_key` looks for the key of the client.  The first compares names with
their terminator, the second without.
-/

namespace OnionRelay.Websocket

open OnionRelay.Lib OnionRelay.Http Checked

/-! ## Names and values -/

/-- `host` -/
def hostName : CStr := [104, 111, 115, 116]

/-- `upgrade`, a name and a value. -/
def upgradeName : CStr := [117, 112, 103, 114, 97, 100, 101]

/-- `connection` -/
def connectionName : CStr := [99, 111, 110, 110, 101, 99, 116, 105, 111, 110]

/-- `sec-webSocket-key` -/
def websocketKeyName : CStr := [115, 101, 99, 45, 119, 101, 98, 83, 111, 99, 107, 101, 116, 45, 107, 101, 121]

/-- `Sec-WebSocket-Key` -/
def clientKeyName : CStr := [83, 101, 99, 45, 87, 101, 98, 83, 111, 99, 107, 101, 116, 45, 75, 101, 121]

/-- `sec-websocket-version` -/
def websocketVersionName : CStr :=
  [115, 101, 99, 45, 119, 101, 98, 115, 111, 99, 107, 101, 116, 45, 118, 101, 114, 115, 105, 111, 110]

/-- `accept` -/
def acceptName : CStr := [97, 99, 99, 101, 112, 116]

/-- `websocket` -/
def websocketValue : CStr := [119, 101, 98, 115, 111, 99, 107, 101, 116]

/-- `13` -/
def versionValue : CStr := [49, 51]

/-- `application/nostr+json` -/
def nostrJsonValue : CStr :=
  [97, 112, 112, 108, 105, 99, 97, 116, 105, 111, 110, 47, 110, 111, 115, 116, 114, 43, 106, 115, 111, 110]

/-- `get` -/
def getMethod : CStr := [103, 101, 116]

/-- `http/1.1`, `http/2.0` and `http/3.0` -/
def httpVersions : List CStr :=
  [[104, 116, 116, 112, 47, 49, 46, 49], [104, 116, 116, 112, 47, 50, 46, 48], [104, 116, 116, 112, 47, 51, 46, 48]]

/-! ## Validation -/

/-- `IS_VALID_KEY` -/
def isValidKey (value : Mem) (expected : CStr) : Bool :=
  strncmpSensitive value (literal expected) httpHeaderKeyCapacity (expected.length + 1) false

/-- `is_valid_host` -/
def isValidHost (_host : Mem) : Bool := true

/-- `is_valid_upgrade` -/
def isValidUpgrade (value : Mem) : Bool := isValidKey value websocketValue

/-- `is_valid_connection` -/
def isValidConnection (value : Mem) : Bool := isValidKey value upgradeName

/-- `is_valid_version` -/
def isValidVersion (value : Mem) : Bool := isValidKey value versionValue

/-- `is_valid_websocket_key` -/
def isValidWebsocketKey (value : Mem) : Checked Bool :=
  if nostrStrnlen value httpHeaderValueCapacity < 16 then return false else isBase64 httpHeaderValueCapacity value

/-- `is_valid_request_header_line` -/
def isValidRequestHeaderLine (line : HTTPRequestHeaderLine) : Checked Bool :=
  if isValidKey line.key hostName then return isValidHost line.value
  else if isValidKey line.key upgradeName then return isValidUpgrade line.value
  else if isValidKey line.key connectionName then return isValidConnection line.value
  else if isValidKey line.key websocketKeyName then isValidWebsocketKey line.value
  else if isValidKey line.key websocketVersionName then return isValidVersion line.value
  else return true

/-- `is_valid_request_header`, with `left` headers left. -/
def isValidRequestHeader (headers : Nat → HTTPRequestHeaderLine) : (left i : Nat) → Checked Bool
  | 0, _ => return true
  | left + 1, i => do
    let valid ← isValidRequestHeaderLine (headers i)
    if valid then isValidRequestHeader headers left (i + 1) else return false

/-- `is_valid_method` -/
def isValidMethod (value : Mem) : Bool :=
  strncmpSensitive value (literal getMethod) httpMethodCapacity (getMethod.length + 1) false

/-- `is_valid_target` -/
def isValidTarget (value : Mem) : Bool := nostrStrnlen value httpTargetCapacity ≠ 0

/-- `is_valid_http_version` -/
def isValidHttpVersion (value : Mem) : Bool :=
  httpVersions.any fun expected =>
    strncmpSensitive value (literal expected) httpVersionCapacity (expected.length + 1) false

/-- `is_valid_request_line` -/
def isValidRequestLine (line : HTTPRequestLine) : Bool :=
  isValidMethod line.method && isValidTarget line.target && isValidHttpVersion line.httpVersion

/-- `is_valid_request` -/
def isValidRequest (request : HTTPRequest) : Checked Bool :=
  if isValidRequestLine request.line then isValidRequestHeader request.headers request.headerSize 0 else return false

/-- `is_nip11_request` -/
def isNip11Request (request : HTTPRequest) : Bool :=
  (List.range request.headerSize).any fun i =>
    isValidKey (request.headers i).key acceptName &&
      strncmpSensitive (request.headers i).value (literal nostrJsonValue) httpHeaderValueCapacity
        nostrJsonValue.length false

/-- `select_websocket_client_key`; the header whose value is the key. -/
def selectWebsocketClientKey (request : HTTPRequest) : Option Nat :=
  (List.range request.headerSize).find? fun i =>
    strncmpSensitive (request.headers i).key (literal clientKeyName) httpHeaderKeyCapacity clientKeyName.length false

/-! ## What is accepted -/

/-- The key of the header is `name`. -/
def Named (line : HTTPRequestHeaderLine) (name : CStr) : Prop := SameText httpHeaderKeyCapacity line.key name

/-- The value of the header is `value`. -/
def Valued (line : HTTPRequestHeaderLine) (value : CStr) : Prop := SameText httpHeaderValueCapacity line.value value

/-- What is accepted of a header that has one of the names. -/
structure ValidLine (line : HTTPRequestHeaderLine) : Prop where
  upgrade : Named line upgradeName → Valued line websocketValue
  connection : Named line connectionName → Valued line upgradeName
  websocketKey : Named line websocketKeyName → isValidWebsocketKey line.value = .ok true
  websocketVersion : Named line websocketVersionName → Valued line versionValue

section

variable {line : HTTPRequestHeaderLine} {request : HTTPRequest}

theorem named_iff {name : CStr} (hs : ∀ c ∈ name, c ≠ 0) (hcap : name.length < httpHeaderKeyCapacity) :
    isValidKey line.key name = true ↔ Named line name := sameText_iff hs hcap (le_refl _)

theorem valued_iff {value : CStr} (hs : ∀ c ∈ value, c ≠ 0) (hcap : value.length < httpHeaderKeyCapacity) :
    isValidKey line.value value = true ↔ Valued line value := sameText_iff hs hcap (by decide)

/-- A header that has a name has another one if the two are the same text. -/
theorem isValidKey_iff {name name' : CStr} (h : Named line name) (hs : ∀ c ∈ name', c ≠ 0)
    (hcap : name'.length < httpHeaderKeyCapacity) :
    isValidKey line.key name' = true ↔ name.map lowerChr = name'.map lowerChr :=
  (named_iff hs hcap).trans ⟨h.symm.trans, h.trans⟩

/-- What is asked of a header with this name. -/
theorem isValidRequestHeaderLine_of_named {name : CStr} (h : Named line name) : isValidRequestHeaderLine line =
    if name.map lowerChr = hostName.map lowerChr then .ok (isValidHost line.value)
    else if name.map lowerChr = upgradeName.map lowerChr then .ok (isValidUpgrade line.value)
    else if name.map lowerChr = connectionName.map lowerChr then .ok (isValidConnection line.value)
    else if name.map lowerChr = websocketKeyName.map lowerChr then isValidWebsocketKey line.value
    else if name.map lowerChr = websocketVersionName.map lowerChr then .ok (isValidVersion line.value)
    else .ok true := by
  rw [isValidRequestHeaderLine]
  simp only [@isValidKey_iff line name hostName h (by decide +kernel) (by decide),
    @isValidKey_iff line name upgradeName h (by decide +kernel) (by decide),
    @isValidKey_iff line name connectionName h (by decide +kernel) (by decide),
    @isValidKey_iff line name websocketKeyName h (by decide +kernel) (by decide),
    @isValidKey_iff line name websocketVersionName h (by decide +kernel) (by decide)]
  rfl

theorem validLine_of_accepted (h : isValidRequestHeaderLine line = .ok true) : ValidLine line where
  upgrade hname := by
    rw [isValidRequestHeaderLine_of_named hname, if_neg (by decide +kernel), if_pos rfl] at h
    exact (valued_iff (by decide +kernel) (by decide)).mp (Except.ok.inj h)
  connection hname := by
    rw [isValidRequestHeaderLine_of_named hname, if_neg (by decide +kernel), if_neg (by decide +kernel), if_pos rfl] at h
    exact (valued_iff (by decide +kernel) (by decide)).mp (Except.ok.inj h)
  websocketKey hname := by
    rwa [isValidRequestHeaderLine_of_named hname, if_neg (by decide +kernel), if_neg (by decide +kernel),
      if_neg (by decide +kernel), if_pos rfl] at h
  websocketVersion hname := by
    rw [isValidRequestHeaderLine_of_named hname, if_neg (by decide +kernel), if_neg (by decide +kernel),
      if_neg (by decide +kernel), if_neg (by decide +kernel), if_pos rfl] at h
    exact (valued_iff (by decide +kernel) (by decide)).mp (Except.ok.inj h)

theorem accepted_of_isValidRequestHeader {headers : Nat → HTTPRequestHeaderLine} : ∀ left i,
    isValidRequestHeader headers left i = .ok true →
      ∀ k, i ≤ k → k < i + left → isValidRequestHeaderLine (headers k) = .ok true := by
  intro left
  induction left with
  | zero => exact fun i _ k hle hlt => absurd hlt (Nat.not_lt.mpr hle)
  | succ left ih =>
    intro i h k hle hlt
    rw [isValidRequestHeader] at h
    obtain ⟨valid, hline, -⟩ := runs_bind ⟨true, h⟩
    rw [hline, bind_ok] at h
    cases valid with
    | false => cases h
    | true =>
      rw [if_pos rfl] at h
      rcases Nat.eq_or_lt_of_le hle with rfl | hgt
      · exact hline
      · exact ih (i + 1) h k hgt (by omega)

/-- Of a request that is accepted, every header is. -/
theorem validLine_of_isValidRequest (h : isValidRequest request = .ok true) {i : Nat} (hi : i < request.headerSize) :
    ValidLine (request.headers i) := by
  rw [isValidRequest] at h
  by_cases hline : isValidRequestLine request.line = true
  · rw [if_pos hline] at h
    exact validLine_of_accepted (accepted_of_isValidRequestHeader _ 0 h i (Nat.zero_le i) (by omega))
  · rw [if_neg hline] at h
    cases h

/-- Header `j` is the first one whose name begins with `Sec-WebSocket-Key`. -/
structure FirstKey (request : HTTPRequest) (j : Nat) : Prop where
  lt : j < request.headerSize
  starts : StartsWith httpHeaderKeyCapacity (request.headers j).key clientKeyName
  first : ∀ k < j, ¬ StartsWith httpHeaderKeyCapacity (request.headers k).key clientKeyName

theorem selectWebsocketClientKey_iff {j : Nat} : selectWebsocketClientKey request = some j ↔ FirstKey request j := by
  have hstarts : ∀ k, strncmpSensitive (request.headers k).key (literal clientKeyName) httpHeaderKeyCapacity
      clientKeyName.length false = true ↔ StartsWith httpHeaderKeyCapacity (request.headers k).key clientKeyName :=
    fun k => startsWith_iff (by decide +kernel) (by decide) (by decide) (le_refl _)
  rw [selectWebsocketClientKey, List.find?_range_eq_some]
  constructor
  · rintro ⟨hstart, hlt, hbefore⟩
    refine ⟨List.mem_range.mp hlt, (hstarts j).mp hstart, fun k hk h => ?_⟩
    have hnot := hbefore k hk
    rw [(hstarts k).mpr h] at hnot
    exact Bool.false_ne_true hnot
  · rintro ⟨hlt, hstart, hbefore⟩
    exact ⟨(hstarts j).mpr hstart, List.mem_range.mpr hlt,
      fun k hk => (Bool.not_eq_true' _).mpr (Bool.eq_false_iff.mpr fun h => hbefore k hk ((hstarts k).mp h))⟩

end

end OnionRelay.Websocket
