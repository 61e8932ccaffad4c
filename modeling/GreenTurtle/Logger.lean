import GreenTurtle.FormatBounds
import Mathlib.Tactic

/-!
# Log records

`logger.h` and `logger.cc`.  A record is put together in an array on the stack:
a header, then the text, then a newline.  `Log` renders its text with `Format`
into an array of 4096 bytes; the `V` functions copy a prefix and call
`vsnprintf` in an array of 4097 bytes.  Address zero is the start of the array.
-/

namespace GreenTurtle.Logging

open FixedWidth
open Formatting
open Memory

def kLoggerLevelNone : Int8 := -1
def kLoggerLevelInfo : Int8 := 0
def kLoggerLevelDebug : Int8 := 1
def kLoggerLevelTrace : Int8 := 2
def kLoggerLevelWarn : Int8 := 3
def kLoggerLevelError : Int8 := 4
def kLoggerLevelFatal : Int8 := 5

def kLogEntryMaxLength : ℕ := 4096

/-! ## The header -/

def digit (value : ℕ) : Byte := UInt8.ofNat (48 + value % 10)

/-- An entry of `kMilliSecondsString`. -/
def milliSecondsString (i : ℕ) : List Byte :=
  let base := i % 1000
  [46, digit (base / 100), digit (base / 10), digit base]

/-- `LOGGER_LEVEL`, with the zeros that end the names. -/
def loggerLevel : List (List Byte) :=
  [[91, 73, 78, 70, 79, 32, 93, 32, 0],
    [91, 68, 69, 66, 85, 71, 93, 32, 0],
    [91, 84, 82, 65, 67, 69, 93, 32, 0],
    [91, 87, 65, 82, 78, 32, 93, 32, 0],
    [91, 69, 82, 82, 79, 82, 93, 32, 0],
    [91, 70, 65, 84, 65, 76, 93, 32, 0]]

/-- What the system calls report: the time and its local rendering. -/
structure CurrentTime where
  seconds : ℤ
  milliseconds : ℕ
  hour : Fin 24
  minute : Fin 60
  second : Fin 61

/-- `t_time` and `t_time_str` of a thread. -/
structure ThreadTime where
  time : ℤ
  text : List Byte
  text_length : text.length = 9

def twoDigits (value : ℕ) : List Byte := [digit (value / 10), digit value]

def CurrentTime.text (now : CurrentTime) : List Byte :=
  twoDigits now.hour ++ [58] ++ twoDigits now.minute ++ [58] ++
    twoDigits now.second ++ [0]

def ThreadTime.refresh (thread : ThreadTime) (now : CurrentTime) :
    ThreadTime :=
  if thread.time < now.seconds then ⟨now.seconds, now.text, rfl⟩
  else thread

def named (level : Int8) : Bool :=
  kLoggerLevelInfo ≤ level ∧ level ≤ kLoggerLevelFatal

/-- The header's size and the stores that make it. -/
def generateLogHeader
    (thread : ThreadTime) (now : CurrentTime) (level : Int8) :
    ℤ × StoreLog Byte :=
  let stamp : StoreLog Byte :=
    [(0, (thread.refresh now).text.take 8),
      (8, milliSecondsString (now.milliseconds % 1024)),
      (12, [32])]
  if named level then
    (21, stamp ++ [(13, loggerLevel.getD level.toInt.toNat [])])
  else (13, stamp)

/-! ## The two ways to write a record -/

/-- The stores of a call, and the length handed to `LogMessage` if the call
comes so far. -/
structure LogOutcome where
  stores : StoreLog Byte
  message : Option ℕ

/-- `LogMessage` puts the newline behind the text. -/
def logMessage (stores : StoreLog Byte) (len : ℕ) : LogOutcome :=
  ⟨stores ++ [((len : ℤ), [10])], some len⟩

/-- The end of `Log`, with what `Format` returned and wrote. -/
def finishLog (header formatted : ℤ × StoreLog Byte) : LogOutcome :=
  if 0 < formatted.1 then
    logMessage (header.2 ++ formatted.2) (toUInt64 (header.1 + formatted.1))
  else ⟨header.2 ++ formatted.2, none⟩

def log
    (thread : ThreadTime) (now : CurrentTime) (mem : ℤ → Byte)
    (level : Int8) (args : List FormatArgument) : Option LogOutcome :=
  let header := generateLogHeader thread now level
  let room := toInt32 (toUInt64 (kLogEntryMaxLength - header.1))
  (traceFrom args (applyLog mem header.2) header.1 room 0).map
    (finishLog header)

/-- The text goes into `room` bytes with a zero behind it, as far as it fits,
and the length of the whole text is returned.  A length that is no `int` is an
error. -/
def vsnprintf (cursor : ℤ) (room : ℕ) (text : List Byte) :
    ℤ × StoreLog Byte :=
  (if text.length ≤ 2147483647 then (text.length : ℤ) else -1,
    if room = 0 then [] else [(cursor, text.take (room - 1) ++ [0])])

/-- The prefix is copied without a look at the room. -/
def copyPrefix
    (header : ℤ × StoreLog Byte) (prefixText : List Byte) :
    ℤ × StoreLog Byte :=
  if prefixText ≠ [] then
    (toInt32 (toUInt64 (header.1 + prefixText.length)),
      header.2 ++ [(header.1, prefixText)])
  else header

/-- The end of `FormatMessage`.  There is no result when the sum of the lengths
is no `int`. -/
def printMessage (begun : ℤ × StoreLog Byte) (text : List Byte) :
    Option LogOutcome :=
  let room := toUInt64 (kLogEntryMaxLength + 1 - begun.1 - 2)
  let printed := vsnprintf begun.1 room text
  let size := begun.1 + printed.1
  if size < -2147483648 ∨ 2147483648 ≤ size then none
  else some (logMessage (begun.2 ++ printed.2) (toUInt64 size))

def formatMessage
    (thread : ThreadTime) (now : CurrentTime) (logLevel level : Int8)
    (prefixText text : List Byte) : Option LogOutcome :=
  if level < logLevel then some ⟨[], none⟩
  else
    printMessage
      (copyPrefix (generateLogHeader thread now level) prefixText) text

/-! ## Calls of a logger -/

inductive LogCall where
  | log (level : Int8) (args : List FormatArgument)
  | formatted (level : Int8) (prefixText text : List Byte)

def logDebug := LogCall.log kLoggerLevelDebug
def logInfo := LogCall.log kLoggerLevelInfo
def logTrace := LogCall.log kLoggerLevelTrace
def logWarn := LogCall.log kLoggerLevelWarn
def logError := LogCall.log kLoggerLevelError
def logFatal := LogCall.log kLoggerLevelFatal
def write := LogCall.log kLoggerLevelNone

def vDebug := LogCall.formatted kLoggerLevelDebug
def vFatal := LogCall.formatted kLoggerLevelFatal
def vError := LogCall.formatted kLoggerLevelError
def vWarn := LogCall.formatted kLoggerLevelWarn
def vInfo := LogCall.formatted kLoggerLevelInfo
def vTrace := LogCall.formatted kLoggerLevelTrace

namespace LogCall

def arraySize : LogCall → ℕ
  | .log _ _ => kLogEntryMaxLength
  | .formatted _ _ _ => kLogEntryMaxLength + 1

def outcome
    (thread : ThreadTime) (now : CurrentTime) (logLevel : Int8)
    (mem : ℤ → Byte) : LogCall → Option LogOutcome
  | .log level args => Logging.log thread now mem level args
  | .formatted level prefixText text =>
      formatMessage thread now logLevel level prefixText text

end LogCall

/-- Every store is inside the array, and so is the newline that `LogMessage`
adds. -/
def LogOutcome.Inside (arraySize : ℕ) (outcome : LogOutcome) : Prop :=
  (∀ address, Touched outcome.stores address →
      0 ≤ address ∧ address < arraySize) ∧
    ∀ len, outcome.message = some len → len + 1 ≤ arraySize

/-! ## The header fits -/

def headerSize (level : Int8) : ℕ := if named level then 21 else 13

theorem generateLogHeader_size
    (thread : ThreadTime) (now : CurrentTime) (level : Int8) :
    (generateLogHeader thread now level).1 = headerSize level := by
  unfold generateLogHeader headerSize
  split <;> rfl

theorem headerSize_le (level : Int8) : headerSize level ≤ 21 := by
  unfold headerSize
  split <;> omega

theorem headerSize_pos (level : Int8) : 0 < headerSize level := by
  unfold headerSize
  split <;> omega

theorem length_loggerLevel_getD (i : ℕ) :
    (loggerLevel.getD i []).length ≤ 9 := by
  by_cases hi : i < 6
  · interval_cases i <;> decide
  · have hmissing : loggerLevel[i]? = none :=
      List.getElem?_eq_none (by simpa [loggerLevel] using hi)
    simp [List.getD, hmissing]

theorem touched_generateLogHeader
    {thread : ThreadTime} {now : CurrentTime} {level : Int8} {address : ℤ}
    (htouched :
      Touched (generateLogHeader thread now level).2 address) :
    0 ≤ address ∧ address < 22 := by
  have hname := length_loggerLevel_getD level.toInt.toNat
  have hstamp := (thread.refresh now).text_length
  generalize hlevel : loggerLevel.getD level.toInt.toNat [] = name at hname
  simp only [generateLogHeader, hlevel] at htouched
  split at htouched <;>
    simp [milliSecondsString, hstamp] at htouched <;> omega

theorem logOutcome_inside_logMessage_iff
    (arraySize : ℕ) (stores : StoreLog Byte) (len : ℕ) :
    (logMessage stores len).Inside arraySize ↔
      (∀ address, Touched stores address →
          0 ≤ address ∧ address < arraySize) ∧
        len + 1 ≤ arraySize := by
  unfold logMessage LogOutcome.Inside
  simp only [touched_append, touched_cons, touched_nil, or_false,
    List.length_singleton, Option.some.injEq, forall_eq']
  constructor
  · intro hinside
    exact ⟨fun address htouched => hinside.1 address (.inl htouched),
      hinside.2⟩
  · intro hinside
    refine ⟨?_, hinside.2⟩
    intro address htouched
    cases htouched with
    | inl hstore => exact hinside.1 address hstore
    | inr hnewline => omega

/-! ## `Log` -/

theorem touched_header_append_iff
    {thread : ThreadTime} {now : CurrentTime} {level : Int8}
    {arraySize : ℕ} (hroom : 22 ≤ arraySize) (log : StoreLog Byte) :
    (∀ address,
        Touched ((generateLogHeader thread now level).2 ++ log) address →
          0 ≤ address ∧ address < arraySize) ↔
      ∀ address, Touched log address →
        0 ≤ address ∧ address < arraySize := by
  simp only [touched_append]
  constructor
  · intro hinside address htouched
    exact hinside address (.inr htouched)
  · intro hinside address htouched
    cases htouched with
    | inl hheader =>
        have hbounds := touched_generateLogHeader hheader
        omega
    | inr hlog => exact hinside address hlog

/-- The newline takes the place of the zero that `Format` has left. -/
theorem finishLog_inside_iff
    {thread : ThreadTime} {now : CurrentTime} {level : Int8}
    {arraySize : ℕ} (hroom : 22 ≤ arraySize) {formatted : ℤ × StoreLog Byte}
    (hend :
      formatted.1 = -1 ∨
        Touched formatted.2 (headerSize level + formatted.1)) :
    (finishLog (generateLogHeader thread now level) formatted).Inside
        arraySize ↔
      ∀ address, Touched formatted.2 address →
        0 ≤ address ∧ address < arraySize := by
  unfold finishLog
  split
  next hpositive =>
    rw [logOutcome_inside_logMessage_iff, touched_header_append_iff hroom,
      generateLogHeader_size]
    have hzero :
        Touched formatted.2 (headerSize level + formatted.1) := by
      cases hend with
      | inl herror => omega
      | inr hzero => exact hzero
    constructor
    · intro hinside
      exact hinside.1
    · intro hinside
      refine ⟨hinside, ?_⟩
      have hbounds := hinside _ hzero
      unfold toUInt64
      omega
  next hpositive =>
    unfold LogOutcome.Inside
    rw [touched_header_append_iff hroom]
    simp

theorem log_inside_iff
    (thread : ThreadTime) (now : CurrentTime) (mem : ℤ → Byte)
    (level : Int8) (args : List FormatArgument) :
    (∃ outcome, log thread now mem level args = some outcome ∧
        outcome.Inside kLogEntryMaxLength) ↔
      Inside kLogEntryMaxLength args
        (kLogEntryMaxLength - headerSize level) := by
  have hle := headerSize_le level
  have hmax : kLogEntryMaxLength = 4096 := rfl
  have hroom :
      toInt32 (toUInt64 (kLogEntryMaxLength - headerSize level)) =
        kLogEntryMaxLength - headerSize level := by
    rw [toUInt64_of_bounds (by omega) (by omega),
      toInt32_of_bounds (by omega) (by omega)]
    omega
  have hleft :
      (0 : ℤ) ≤ kLogEntryMaxLength - headerSize level := by omega
  have hrecursion := traceFrom_inside_iff args
    (applyLog mem (generateLogHeader thread now level).2)
    (show headerSize level ≤ kLogEntryMaxLength by omega)
    (by omega) hleft (by omega)
  rw [sub_sub_cancel, sub_self] at hrecursion
  rw [← hrecursion]
  simp only [log, generateLogHeader_size, hroom, StoresInside,
    Option.map_eq_some_iff]
  constructor
  · rintro ⟨_, ⟨formatted, hresult, rfl⟩, hinside⟩
    have hend := traceFrom_terminates_text hresult
    rw [sub_zero] at hend
    exact ⟨formatted, hresult,
      (finishLog_inside_iff (by decide) hend).mp hinside⟩
  · rintro ⟨formatted, hresult, hstores⟩
    have hend := traceFrom_terminates_text hresult
    rw [sub_zero] at hend
    exact ⟨_, ⟨formatted, hresult, rfl⟩,
      (finishLog_inside_iff (by decide) hend).mpr hstores⟩

/-! ## The `V` functions -/

theorem vsnprintf_inside_iff
    {cursor : ℤ} (hcursor : 0 ≤ cursor) (room : ℕ) (text : List Byte)
    (arraySize : ℕ) :
    (∀ address, Touched (vsnprintf cursor room text).2 address →
        0 ≤ address ∧ address < arraySize) ↔
      room = 0 ∨ cursor + min (room - 1 : ℕ) text.length < arraySize := by
  by_cases hroom : room = 0
  · simp [vsnprintf, hroom]
  · simp only [vsnprintf, if_neg hroom]
    rw [(Spans.single cursor _).within_iff]
    simp only [List.length_append, List.length_take,
      List.length_singleton]
    omega

theorem vsnprintf_returns
    (cursor : ℤ) (room : ℕ) (text : List Byte) :
    (text.length ≤ 2147483647 ∧
        (vsnprintf cursor room text).1 = text.length) ∨
      (2147483647 < text.length ∧
        (vsnprintf cursor room text).1 = -1) := by
  unfold vsnprintf
  split
  next hint => exact .inl ⟨hint, rfl⟩
  next hint => exact .inr ⟨by omega, rfl⟩

/-- The room is computed without a sign: behind 4095 bytes `vsnprintf` is told
that there is no end. -/
theorem printMessage_inside_iff
    {begun : ℤ × StoreLog Byte} {size : ℕ} (hsize : begun.1 = size)
    (hpositive : 0 < size) (hle : size ≤ kLogEntryMaxLength + 1)
    (hbegun :
      ∀ address, Touched begun.2 address →
        0 ≤ address ∧ address < (kLogEntryMaxLength + 1 : ℕ))
    (text : List Byte) :
    (∃ outcome, printMessage begun text = some outcome ∧
        outcome.Inside (kLogEntryMaxLength + 1)) ↔
      size + text.length ≤ kLogEntryMaxLength ∨
        (size < kLogEntryMaxLength ∧ 2147483647 < text.length) := by
  have hmax : kLogEntryMaxLength = 4096 := rfl
  have hprinted := vsnprintf_inside_iff
    (show (0 : ℤ) ≤ size by omega)
    (toUInt64 (kLogEntryMaxLength + 1 - size - 2)) text
    (kLogEntryMaxLength + 1)
  have hreturn := vsnprintf_returns size
    (toUInt64 (kLogEntryMaxLength + 1 - size - 2)) text
  simp only [printMessage, hsize]
  generalize vsnprintf size (toUInt64 (kLogEntryMaxLength + 1 - size - 2))
    text = printed at hprinted hreturn ⊢
  unfold toUInt64 at hprinted ⊢
  constructor
  · rintro ⟨outcome, hresult, hinside⟩
    split at hresult
    next => simp at hresult
    next hint =>
      obtain rfl := Option.some.inj hresult
      rw [logOutcome_inside_logMessage_iff] at hinside
      have hroom := hprinted.mp fun address htouched =>
        hinside.1 address (by simp [htouched])
      have hlast := hinside.2
      omega
  · intro hfits
    refine ⟨_, if_neg (by omega), ?_⟩
    rw [logOutcome_inside_logMessage_iff]
    refine ⟨?_, by omega⟩
    intro address htouched
    rw [touched_append] at htouched
    cases htouched with
    | inl hfirst => exact hbegun address hfirst
    | inr hsecond => exact hprinted.mpr (by omega) address hsecond

theorem touched_printMessage
    {begun : ℤ × StoreLog Byte} {text : List Byte} {outcome : LogOutcome}
    {address : ℤ} (hresult : printMessage begun text = some outcome)
    (htouched : Touched begun.2 address) :
    Touched outcome.stores address := by
  simp only [printMessage] at hresult
  split at hresult
  next => simp at hresult
  next =>
    obtain rfl := Option.some.inj hresult
    simp [logMessage, htouched]

/-- A prefix that fits is harmless. -/
theorem copyPrefix_of_fits
    {thread : ThreadTime} {now : CurrentTime} {level : Int8}
    {prefixText : List Byte} {arraySize : ℕ} (hroom : 22 ≤ arraySize)
    (hint : arraySize < 2147483648)
    (hfits : headerSize level + prefixText.length ≤ arraySize) :
    (copyPrefix (generateLogHeader thread now level) prefixText).1 =
        (headerSize level + prefixText.length : ℕ) ∧
      ∀ address,
        Touched
            (copyPrefix (generateLogHeader thread now level) prefixText).2
            address →
          0 ≤ address ∧ address < arraySize := by
  have hle := headerSize_le level
  have hsize := generateLogHeader_size thread now level
  unfold copyPrefix
  by_cases hempty : prefixText = []
  · subst hempty
    rw [if_neg (not_not_intro rfl), hsize]
    refine ⟨by simp, ?_⟩
    intro address htouched
    have hbounds := touched_generateLogHeader htouched
    omega
  · rw [if_pos hempty, hsize, toUInt64_of_bounds (by omega) (by omega),
      toInt32_of_bounds (by omega) (by omega)]
    refine ⟨by omega, ?_⟩
    rw [touched_header_append_iff hroom]
    intro address htouched
    simp only [touched_cons, touched_nil, or_false] at htouched
    omega

/-- A prefix that is too long is written behind the array. -/
theorem touched_copyPrefix
    {header : ℤ × StoreLog Byte} {prefixText : List Byte} {address : ℤ}
    (hle : header.1 ≤ address)
    (hlt : address < header.1 + prefixText.length) :
    Touched (copyPrefix header prefixText).2 address := by
  unfold copyPrefix
  have hnonempty : prefixText ≠ [] := by
    rintro rfl
    simp at hlt
    omega
  rw [if_pos hnonempty]
  simp only [touched_append, touched_cons]
  exact .inr (.inl ⟨hle, hlt⟩)

theorem formatMessage_inside_iff
    (thread : ThreadTime) (now : CurrentTime) (logLevel level : Int8)
    (prefixText text : List Byte) :
    (∃ outcome,
        formatMessage thread now logLevel level prefixText text =
            some outcome ∧
          outcome.Inside (kLogEntryMaxLength + 1)) ↔
      level < logLevel ∨
        headerSize level + prefixText.length + text.length ≤
            kLogEntryMaxLength ∨
          (headerSize level + prefixText.length < kLogEntryMaxLength ∧
            2147483647 < text.length) := by
  unfold formatMessage
  by_cases hsilent : level < logLevel
  · simp [hsilent, LogOutcome.Inside]
  · rw [if_neg hsilent, or_iff_right hsilent]
    have hmax : kLogEntryMaxLength = 4096 := rfl
    by_cases hfits :
        headerSize level + prefixText.length ≤ kLogEntryMaxLength + 1
    · obtain ⟨hsize, hbegun⟩ :=
        copyPrefix_of_fits (by decide) (by decide) hfits
      have hpositive := headerSize_pos level
      exact printMessage_inside_iff hsize (by omega) hfits hbegun text
    · have hheader := generateLogHeader_size thread now level
      have hle := headerSize_le level
      have hbehind :
          Touched (copyPrefix (generateLogHeader thread now level)
            prefixText).2 (kLogEntryMaxLength + 1 : ℕ) :=
        touched_copyPrefix (by omega) (by omega)
      constructor
      · rintro ⟨outcome, hresult, hinside⟩
        have hbounds :=
          hinside.1 _ (touched_printMessage hresult hbehind)
        omega
      · omega

/-! ## The result -/

/-- The call returns, writes only inside its array and hands on a length that
leaves room for the newline. -/
def LogCall.StaysInside
    (thread : ThreadTime) (now : CurrentTime) (logLevel : Int8)
    (mem : ℤ → Byte) (call : LogCall) : Prop :=
  ∃ outcome, call.outcome thread now logLevel mem = some outcome ∧
    outcome.Inside call.arraySize

/-- The text leaves a byte of the array free.  A text so long that `vsnprintf`
reports an error is cut off, and does no harm when the prefix was short. -/
def LogCall.Fits (logLevel : Int8) : LogCall → Prop
  | .log level args =>
      Inside kLogEntryMaxLength args (kLogEntryMaxLength - headerSize level)
  | .formatted level prefixText text =>
      level < logLevel ∨
        headerSize level + prefixText.length + text.length ≤
            kLogEntryMaxLength ∨
          (headerSize level + prefixText.length < kLogEntryMaxLength ∧
            2147483647 < text.length)

theorem log_fits_of_short
    (logLevel level : Int8) {args : List FormatArgument}
    (hshort : headerSize level + argumentsSize args < kLogEntryMaxLength) :
    (LogCall.log level args).Fits logLevel :=
  inside_of_size_lt (by omega) (by omega)

theorem logCall_staysInside_iff
    (thread : ThreadTime) (now : CurrentTime) (logLevel : Int8)
    (mem : ℤ → Byte) (call : LogCall) :
    call.StaysInside thread now logLevel mem ↔ call.Fits logLevel := by
  cases call with
  | log level args => exact log_inside_iff thread now mem level args
  | formatted level prefixText text =>
      exact formatMessage_inside_iff thread now logLevel level prefixText
        text

def midnight : CurrentTime := ⟨0, 0, 0, 0, 0⟩

def freshThread : ThreadTime := ⟨0, List.replicate 9 0, rfl⟩

theorem not_staysInside_of_filled
    {text : List Byte} (htext : text.length = 4075) :
    ¬ (logInfo [.slice text]).StaysInside freshThread midnight
      kLoggerLevelDebug (fun _ => 0) := by
  intro hinside
  have hroom := (log_inside_iff _ _ _ _ _).mp hinside
  refine not_inside_of_size_eq ?_ hroom
  simp [argumentsSize, FormatArgument.size, htext, headerSize, named,
    kLoggerLevelInfo, kLoggerLevelFatal, kLogEntryMaxLength]

theorem not_staysInside_of_long_message
    {text : List Byte} (htext : text.length = 4076) :
    ¬ (vError [] text).StaysInside freshThread midnight
      kLoggerLevelDebug (fun _ => 0) := by
  intro hinside
  have hroom := (formatMessage_inside_iff _ _ _ _ _ _).mp hinside
  revert hroom
  rw [htext]
  decide

/-- A string that fills the array of `Log`, and a message of the `V` functions
that is one byte longer than its array has room for. -/
theorem logCall_leaves_array :
    ¬ (logInfo [.slice (List.replicate 4075 97)]).StaysInside freshThread
        midnight kLoggerLevelDebug (fun _ => 0) ∧
      ¬ (vError [] (List.replicate 4076 97)).StaysInside freshThread
        midnight kLoggerLevelDebug (fun _ => 0) :=
  ⟨not_staysInside_of_filled List.length_replicate,
    not_staysInside_of_long_message List.length_replicate⟩

end GreenTurtle.Logging
