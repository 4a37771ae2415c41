import Shmfx.Ring.Fifo

/-! What a `Logger` pushes for each log call (`logger.cpp`). -/
namespace Shmfx

inductive LogLevel
  | trace
  | debug
  | info
  | warn
  | error
  | fatal
  deriving DecidableEq, Repr

/-- The word a `LogLevel` is stored as. -/
def LogLevel.code : LogLevel → UInt16
  | .trace => 0
  | .debug => 1
  | .info => 2
  | .warn => 3
  | .error => 4
  | .fatal => 5

/-- `decode_level`: a type outside the enumeration reads as `Info`. -/
def decodeLevel (type : UInt16) : LogLevel :=
  [.trace, .debug, .info, .warn, .error, .fatal].getD type.toNat .info

theorem decodeLevel_code (level : LogLevel) : decodeLevel level.code = level := by
  cases level <;> rfl

/-- `LogRecordFlags::Binary`. -/
def logFlagBinary : UInt16 := 2

/-- `kFormatBufferBytes`. -/
def formatBufferBytes : Nat := 1024

/-- What `vsnprintf` makes of a format and its arguments: the complete text, whose length it
returns, or a failure. -/
inductive Formatted
  | null
  | failed
  | text (bytes : List UInt8)

inductive LogCall
  | text (level : LogLevel) (message : List UInt8)
  | binary (level : LogLevel) (payload : List UInt8)
  | formatted (level : LogLevel) (result : Formatted)

def LogCall.level : LogCall → LogLevel
  | .text level _ | .binary level _ | .formatted level _ => level

/-- The bytes a caller asks to be logged. -/
def LogCall.message : LogCall → List UInt8
  | .text _ message => message
  | .binary _ payload => payload
  | .formatted _ (.text bytes) => bytes
  | .formatted _ _ => []

/-- `Logger::publish` at time `now`. -/
def publish (level : LogLevel) (flags : UInt16) (now : UInt64) (payload : List UInt8) : Push :=
  ⟨level.code, flags, now, payload⟩

/-- `Logger::vlog`: the buffer keeps all but its last byte for the text. -/
def vlog (level : LogLevel) (result : Formatted) (now : UInt64) : Except ErrorCode Push :=
  match result with
  | .null => .error .invalidName
  | .failed => .error .corruptedHeader
  | .text bytes =>
    .ok (publish level (if formatBufferBytes ≤ bytes.length then recordFlagTruncated else 0) now
      (bytes.take (formatBufferBytes - 1)))

/-- The push a log call makes, unless it fails before. -/
def LogCall.pushed (now : UInt64) : LogCall → Except ErrorCode Push
  | .text level message => .ok (publish level 0 now message)
  | .binary level payload => .ok (publish level logFlagBinary now payload)
  | .formatted level result => vlog level result now

section Pushed

variable {call : LogCall} {now : UInt64} {a : Push} {m : Nat}

theorem LogCall.pushed_level (h : call.pushed now = .ok a) : a.type = call.level.code := by
  rcases call with ⟨level, message⟩ | ⟨level, payload⟩ | ⟨level, _ | _ | bytes⟩ <;> cases h <;> rfl

theorem LogCall.pushed_user (h : call.pushed now = .ok a) : a.user = now := by
  rcases call with ⟨level, message⟩ | ⟨level, payload⟩ | ⟨level, _ | _ | bytes⟩ <;> cases h <;> rfl

/-- The format buffer cuts a message only with the flag set. -/
theorem LogCall.pushed_payload (h : call.pushed now = .ok a) :
    a.payload = call.message ∨ a.flags &&& recordFlagTruncated ≠ 0 := by
  rcases call with ⟨level, message⟩ | ⟨level, payload⟩ | ⟨level, _ | _ | bytes⟩ <;> cases h
  · exact .inl rfl
  · exact .inl rfl
  · by_cases hlong : formatBufferBytes ≤ bytes.length
    · refine .inr ?_
      simp only [publish, if_pos hlong]
      decide
    · refine .inl (List.take_of_length_le ?_)
      simp only [formatBufferBytes] at hlong ⊢
      omega

/-- No log call sets a flag that the slot's own mark could hide. -/
theorem LogCall.pushed_flags (h : call.pushed now = .ok a) :
    (a.flags ||| recordFlagTruncated) &&& recordFlagTruncated ≠ 0 := by
  rcases call with ⟨level, message⟩ | ⟨level, payload⟩ | ⟨level, _ | _ | bytes⟩ <;> cases h
  · simp only [publish]
    decide
  · simp only [publish]
    decide
  · simp only [publish]
    split <;> decide

/-- Neither does the slot: what is stored is the whole message or flagged. -/
theorem LogCall.stored_payload (h : call.pushed now = .ok a) (m : Nat) :
    (a.stored m).payload = call.message ∨ (a.stored m).flags &&& recordFlagTruncated ≠ 0 := by
  by_cases hfit : m < a.payload.length
  · refine .inr ?_
    simp only [Push.stored, Push.storedFlags, if_pos hfit]
    exact call.pushed_flags h
  · simp only [Push.stored, Push.storedFlags, if_neg hfit,
      List.take_of_length_le (Nat.not_lt.mp hfit)]
    exact call.pushed_payload h

end Pushed

end Shmfx
