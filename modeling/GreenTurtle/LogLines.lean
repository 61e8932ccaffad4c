import GreenTurtle.LogFiles
import GreenTurtle.LogTimestamps
import Mathlib.Tactic

/-!
# The lines of a log

`logger.h` and `logger.cc` as a whole: threads that call `Log`, the macros
around it and the `V` functions, while files are changed, flushed and filled
behind a buffer.  The purpose of all this is a book with one list of lines for
each file, and as long as records fit into their arrays and files can be
opened, the logger keeps such a book.
-/

namespace GreenTurtle.LogLines

open Execution
open FixedWidth
open Formatting
open LogFiles
open Logging
open Memory

/-! ## The text of a record -/

def levelName (level : Int8) : List Byte :=
  if named level then (loggerLevel.getD level.toInt.toNat []).take 8
  else []

def headerText
    (thread : ThreadTime) (now : CurrentTime) (level : Int8) :
    List Byte :=
  (thread.refresh now).text.take 8 ++
    milliSecondsString (now.milliseconds % 1024) ++ [32] ++ levelName level

/-- The stores of a stamp lie one behind the other. -/
theorem applyLog_stamp
    (mem : ℤ → Byte) {clock : List Byte} (hclock : clock.length = 8)
    (milliseconds : ℕ) :
    applyLog mem
        [(0, clock), (8, milliSecondsString milliseconds), (12, [32])] =
      store mem 0 (clock ++ milliSecondsString milliseconds ++ [32]) := by
  have hfirst :=
    store_append mem 0 clock (milliSecondsString milliseconds)
  have hsecond :=
    store_append mem 0 (clock ++ milliSecondsString milliseconds) [32]
  rw [hclock] at hfirst
  rw [List.length_append, hclock] at hsecond
  rw [← hsecond, ← hfirst]
  rfl

theorem length_loggerLevel
    {level : Int8} (hnamed : named level = true) :
    (loggerLevel.getD level.toInt.toNat []).length = 9 := by
  simp only [named, kLoggerLevelInfo, kLoggerLevelFatal,
    decide_eq_true_eq, Int8.le_iff_toInt_le] at hnamed
  have hzero : (0 : Int8).toInt = 0 := rfl
  have hfive : (5 : Int8).toInt = 5 := rfl
  rw [hzero, hfive] at hnamed
  have hlt : level.toInt.toNat < 6 := by omega
  generalize level.toInt.toNat = i at hlt
  interval_cases i <;> rfl

theorem slice_generateLogHeader
    (thread : ThreadTime) (now : CurrentTime) (level : Int8)
    (mem : ℤ → Byte) :
    slice (applyLog mem (generateLogHeader thread now level).2) 0
        (headerSize level) =
      headerText thread now level := by
  have hclock : ((thread.refresh now).text.take 8).length = 8 := by
    simp [(thread.refresh now).text_length]
  have hstamp :
      ((thread.refresh now).text.take 8 ++
        milliSecondsString (now.milliseconds % 1024) ++ [32]).length =
          13 := by
    simp [hclock, milliSecondsString]
  unfold generateLogHeader headerSize headerText levelName
  by_cases hnamed : named level = true
  · simp only [hnamed, if_true, applyLog_append, applyLog_stamp mem hclock]
    have hname := length_loggerLevel hnamed
    generalize loggerLevel.getD level.toInt.toNat [] = name at hname ⊢
    generalize (thread.refresh now).text.take 8 ++
      milliSecondsString (now.milliseconds % 1024) ++ [32] = stamp at *
    have happended := slice_store_append (store mem 0 stamp) 0 13 name
    have hwritten := slice_store mem 0 stamp
    rw [hstamp] at hwritten
    have htaken := congrArg (List.take 21) happended
    rw [take_slice _ _ (by omega), hwritten, List.take_append, hstamp,
      List.take_of_length_le (by omega)] at htaken
    exact htaken
  · simp only [hnamed, Bool.false_eq_true, if_false,
      applyLog_stamp mem hclock]
    have hwritten :=
      slice_store mem 0 ((thread.refresh now).text.take 8 ++
        milliSecondsString (now.milliseconds % 1024) ++ [32])
    rw [hstamp] at hwritten
    rw [hwritten, List.append_nil]

theorem length_headerText
    (thread : ThreadTime) (now : CurrentTime) (level : Int8) :
    (headerText thread now level).length = headerSize level := by
  rw [← slice_generateLogHeader thread now level fun _ => 0, length_slice]

/-- A call comes to `LogMessage` with the text in its array. -/
def Composes
    (outcome : Option LogOutcome) (mem : ℤ → Byte) (text : List Byte) :
    Prop :=
  ∃ stores,
    outcome = some ⟨stores, some text.length⟩ ∧
      slice (applyLog mem stores) 0 text.length = text

theorem composes_logMessage
    {mem : ℤ → Byte} {stores : StoreLog Byte} {text : List Byte} {len : ℕ}
    (hlen : len = text.length)
    (htext : slice (applyLog mem stores) 0 text.length = text) :
    Composes (some (Logging.logMessage stores len)) mem text := by
  subst hlen
  refine ⟨_, rfl, ?_⟩
  rw [applyLog_append, applyLog_cons, applyLog_nil,
    slice_store_before _ _ (by omega), htext]

/-- `Log` leaves the header and the texts of its arguments in the array. -/
theorem log_composes
    (thread : ThreadTime) (now : CurrentTime) (mem : ℤ → Byte)
    (level : Int8) {args : List FormatValue}
    (hsome : texts args ≠ [])
    (hfits : headerSize level + (texts args).length < kLogEntryMaxLength) :
    Composes
      (Logging.log thread now mem level
        (args.map FormatValue.argument))
      mem (headerText thread now level ++ texts args) := by
  have hmax : kLogEntryMaxLength = 4096 := rfl
  have hpositive := List.length_pos_iff.mpr hsome
  have hheader := slice_generateLogHeader thread now level mem
  have hlength := length_headerText thread now level
  have hroom :
      toInt32 (toUInt64 (kLogEntryMaxLength - headerSize level)) =
        kLogEntryMaxLength - headerSize level := by
    rw [toUInt64_of_bounds (by omega) (by omega),
      toInt32_of_bounds (by omega) (by omega)]
    omega
  obtain ⟨final, hformat, htext, -, hframe⟩ :=
    formatFrom_fits args
      (applyLog mem (generateLogHeader thread now level).2)
      (headerSize level) (kLogEntryMaxLength - headerSize level) 0
      (by omega) (by omega) le_rfl (by omega)
  rw [formatFrom_eq_applyLog, Option.map_eq_some_iff] at hformat
  obtain ⟨formatted, htrace, hformatted⟩ := hformat
  simp only [Prod.mk.injEq] at hformatted
  obtain ⟨hreturned, hfinal⟩ := hformatted
  simp only [Logging.log, generateLogHeader_size, hroom, htrace,
    Option.map_some, finishLog, hreturned]
  rw [if_pos (by omega)]
  apply composes_logMessage
  · rw [toUInt64_of_bounds (by omega) (by omega), List.length_append,
      hlength]
    omega
  · have hkept :
        slice final 0 (headerSize level) = headerText thread now level := by
      rw [← hheader]
      apply slice_congr
      intro address _ hlt
      exact hframe address (by omega)
    rw [applyLog_append, hfinal, List.length_append, hlength, slice_add,
      hkept, zero_add, htext]

/-- A prefix that fits stands behind the header. -/
theorem copyPrefix_composes
    (thread : ThreadTime) (now : CurrentTime) (level : Int8)
    (mem : ℤ → Byte) {prefixText : List Byte}
    (hfits :
      headerSize level + prefixText.length < kLogEntryMaxLength) :
    (copyPrefix (generateLogHeader thread now level) prefixText).1 =
        (headerText thread now level ++ prefixText).length ∧
      slice
          (applyLog mem
            (copyPrefix (generateLogHeader thread now level) prefixText).2)
          0 (headerText thread now level ++ prefixText).length =
        headerText thread now level ++ prefixText := by
  have hmax : kLogEntryMaxLength = 4096 := rfl
  have hheader := slice_generateLogHeader thread now level mem
  have hlength := length_headerText thread now level
  unfold copyPrefix
  by_cases hempty : prefixText = []
  · subst hempty
    simp only [ne_eq, not_true_eq_false, if_false, List.append_nil, hlength,
      generateLogHeader_size]
    exact ⟨trivial, hheader⟩
  · simp only [ne_eq, hempty, not_false_eq_true, if_true,
      generateLogHeader_size, List.length_append, hlength]
    rw [toUInt64_of_bounds (by omega) (by omega),
      toInt32_of_bounds (by omega) (by omega)]
    refine ⟨by omega, ?_⟩
    have happended :=
      slice_store_append
        (applyLog mem (generateLogHeader thread now level).2) 0
        (headerSize level) prefixText
    rw [hheader, zero_add] at happended
    rw [applyLog_append]
    exact happended

/-- The `V` functions leave the header, the prefix and the text.  The last two
bytes of the array stay free. -/
theorem formatMessage_composes
    (thread : ThreadTime) (now : CurrentTime) (mem : ℤ → Byte)
    {logLevel level : Int8} (hlevel : ¬ level < logLevel)
    {prefixText text : List Byte}
    (hfits :
      headerSize level + prefixText.length + text.length + 1 <
        kLogEntryMaxLength) :
    Composes (formatMessage thread now logLevel level prefixText text) mem
      (headerText thread now level ++ prefixText ++ text) := by
  have hmax : kLogEntryMaxLength = 4096 := rfl
  obtain ⟨hsize, hbegun⟩ :=
    copyPrefix_composes thread now level mem
      (show headerSize level + prefixText.length < kLogEntryMaxLength by
        omega)
  rw [formatMessage, if_neg hlevel]
  have hlength :
      (headerText thread now level ++ prefixText).length =
        headerSize level + prefixText.length := by
    rw [List.length_append, length_headerText]
  generalize headerText thread now level ++ prefixText = begunText at *
  generalize copyPrefix (generateLogHeader thread now level) prefixText =
    begun at *
  have hroom :
      toUInt64 (kLogEntryMaxLength + 1 - begunText.length - 2) =
        4095 - begunText.length := by
    rw [toUInt64_of_bounds (by omega) (by omega)]
    omega
  have hprinted :
      vsnprintf begunText.length (4095 - begunText.length) text =
        ((text.length : ℤ), [((begunText.length : ℤ), text ++ [0])]) := by
    rw [vsnprintf, if_pos (by omega), if_neg (by omega),
      List.take_of_length_le (by omega)]
  simp only [printMessage, hsize, hroom, hprinted]
  rw [if_neg (by omega)]
  apply composes_logMessage
  · rw [toUInt64_of_bounds (by omega) (by omega), List.length_append]
    omega
  · have happended :=
      slice_store_append (applyLog mem begun.2) 0 begunText.length
        (text ++ [0])
    have htaken :=
      congrArg (List.take (begunText.length + text.length)) happended
    rw [take_slice _ _ (by simp), hbegun, ← List.append_assoc,
      ← List.length_append, List.take_left, zero_add] at htaken
    rw [applyLog_append]
    exact htaken

/-! ## Calls and the records they make -/

/-- A call, with the values that it formats.  The macros of `logger.h` look at
the level of the logger before they call it. -/
inductive Record where
  | log (level : Int8) (args : List FormatValue)
  | guarded (level : Int8) (args : List FormatValue)
  | formatted (level : Int8) (prefixText text : List Byte)

/-- In a build with assertions `Log` does not return without a record. -/
def checkedLog
    (checked : Bool) (thread : ThreadTime) (now : CurrentTime)
    (mem : ℤ → Byte) (level : Int8) (args : List FormatValue) :
    Option LogOutcome :=
  (Logging.log thread now mem level (args.map FormatValue.argument)).bind
    fun outcome =>
      if checked ∧ outcome.message.isNone then none else some outcome

namespace Record

def level : Record → Int8
  | .log level _ => level
  | .guarded level _ => level
  | .formatted level _ _ => level

def message : Record → List Byte
  | .log _ args => texts args
  | .guarded _ args => texts args
  | .formatted _ prefixText text => prefixText ++ text

/-- The call returns at once because of its level. -/
def silent (logLevel : Int8) : Record → Bool
  | .log _ _ => false
  | .guarded level _ => ¬ logLevel ≤ level
  | .formatted level _ _ => level < logLevel

def outcome
    (checked : Bool) (thread : ThreadTime) (now : CurrentTime)
    (logLevel : Int8) (mem : ℤ → Byte) : Record → Option LogOutcome
  | .log level args => checkedLog checked thread now mem level args
  | .guarded level args =>
      if logLevel ≤ level then
        checkedLog checked thread now mem level args
      else some ⟨[], none⟩
  | .formatted level prefixText text =>
      formatMessage thread now logLevel level prefixText text

/-- There is something to say, and there is room for it. -/
def Fits : Record → Prop
  | .log level args =>
      texts args ≠ [] ∧
        headerSize level + (texts args).length < kLogEntryMaxLength
  | .guarded level args =>
      texts args ≠ [] ∧
        headerSize level + (texts args).length < kLogEntryMaxLength
  | .formatted level prefixText text =>
      headerSize level + prefixText.length + text.length + 1 <
        kLogEntryMaxLength

instance : DecidablePred Fits
  | .log _ _ => inferInstanceAs (Decidable (_ ∧ _))
  | .guarded _ _ => inferInstanceAs (Decidable (_ ∧ _))
  | .formatted _ _ _ => inferInstanceAs (Decidable (_ < _))

end Record

theorem checkedLog_composes
    (checked : Bool) (thread : ThreadTime) (now : CurrentTime)
    (mem : ℤ → Byte) (level : Int8) {args : List FormatValue}
    (hsome : texts args ≠ [])
    (hfits : headerSize level + (texts args).length < kLogEntryMaxLength) :
    Composes (checkedLog checked thread now mem level args) mem
      (headerText thread now level ++ texts args) := by
  obtain ⟨stores, houtcome, htext⟩ :=
    log_composes thread now mem level hsome hfits
  refine ⟨stores, ?_, htext⟩
  rw [checkedLog, houtcome]
  simp

theorem Record.composes
    {record : Record} {logLevel : Int8} (hfits : record.Fits)
    (hspeaks : record.silent logLevel = false) (checked : Bool)
    (thread : ThreadTime) (now : CurrentTime) (mem : ℤ → Byte) :
    Composes (record.outcome checked thread now logLevel mem) mem
      (headerText thread now record.level ++ record.message) := by
  cases record with
  | log level args =>
      exact checkedLog_composes checked thread now mem level hfits.1 hfits.2
  | guarded level args =>
      have hlevel : logLevel ≤ level := by simpa [silent] using hspeaks
      rw [outcome, if_pos hlevel]
      exact checkedLog_composes checked thread now mem level hfits.1 hfits.2
  | formatted level prefixText text =>
      have hlevel : ¬ level < logLevel := by simpa [silent] using hspeaks
      have hcomposes := formatMessage_composes thread now mem hlevel hfits
      rwa [List.append_assoc] at hcomposes

theorem Record.outcome_silent
    {record : Record} {logLevel : Int8}
    (hsilent : record.silent logLevel = true) (checked : Bool)
    (thread : ThreadTime) (now : CurrentTime) (mem : ℤ → Byte) :
    record.outcome checked thread now logLevel mem = some ⟨[], none⟩ := by
  cases record with
  | log level args => simp [silent] at hsilent
  | guarded level args =>
      have hlevel : ¬ logLevel ≤ level := by simpa [silent] using hsilent
      rw [outcome, if_neg hlevel]
  | formatted level prefixText text =>
      have hlevel : level < logLevel := by simpa [silent] using hsilent
      rw [outcome, formatMessage, if_pos hlevel]

/-! ## Threads that share a logger -/

/-- The last field has the text that a thread has in its array when it calls
`LogMessage`. -/
structure LogSystem where
  files : LogState
  logLevel : Int8
  threads : ℕ → ThreadTime
  composed : ℕ → Option (List Byte)

/-- A thread puts a record together on its own stack, and another step hands
it to the file; other threads may run in between.  `LogMessage` takes no lock,
so that it is a single step is left to the callers. -/
inductive LogAction where
  | compose (thread : ℕ) (readings : Readings) (mem : ℤ → Byte)
      (record : Record)
  | logMessage (thread : ℕ) (drained : ℕ)
  | changeLoggerFile (newFile : FileName) (opened : Option FileId)
  | flush
  | logLevel (level : Int8)

namespace LogSystem

def new
    (fileName linkName : FileName) (opened : Option FileId) (disk : Disk)
    (logLevel : Int8) : LogSystem where
  files := LogState.new fileName linkName opened disk
  logLevel := logLevel
  threads := fun _ => freshThread
  composed := fun _ => none

def compose
    (checked : Bool) (rendering : Rendering) (thread : ℕ)
    (readings : Readings) (mem : ℤ → Byte) (record : Record)
    (system : LogSystem) : Option LogSystem :=
  let now := currentTime rendering readings
  (record.outcome checked (system.threads thread) now system.logLevel
    mem).map fun outcome =>
      { system with
        threads :=
          if record.silent system.logLevel then system.threads
          else
            Function.update system.threads thread
              ((system.threads thread).refresh now)
        composed :=
          Function.update system.composed thread
            (outcome.message.map fun len =>
              slice (applyLog mem outcome.stores) 0 len) }

/-- A thread takes its steps in order.  In a build with assertions a level
that has no name is not accepted. -/
def step (checked : Bool) (rendering : Rendering) (system : LogSystem) :
    LogAction → Option LogSystem
  | .compose thread readings mem record =>
      if (system.composed thread).isSome then none
      else system.compose checked rendering thread readings mem record
  | .logMessage thread drained =>
      (system.composed thread).bind fun text =>
        (LogFiles.logMessage checked text drained system.files).map
          fun files =>
            { system with
              files := files
              composed := Function.update system.composed thread none }
  | .changeLoggerFile newFile opened =>
      some
        { system with
          files := LogFiles.changeLoggerFile newFile opened system.files }
  | .flush => some { system with files := LogFiles.flush system.files }
  | .logLevel level =>
      if checked ∧ named level = false then none
      else some { system with logLevel := level }

end LogSystem

/-! ## The book -/

structure Line where
  second : ℤ
  milliseconds : ℕ
  level : Int8
  message : List Byte
deriving DecidableEq

namespace Line

def record (rendering : Rendering) (line : Line) : List Byte :=
  (renderedText rendering line.second).take 8 ++
    milliSecondsString line.milliseconds ++ [32] ++ levelName line.level ++
    line.message

def text (rendering : Rendering) (line : Line) : List Byte :=
  line.record rendering ++ [10]

end Line

/-- What a log is for: lines in the order in which they were finished, each in
the file that was open at that time. -/
structure Book where
  logLevel : Int8
  latest : ℕ → ℤ
  started : ℕ → Option Line
  lines : FileId → List Line
  name : FileName
  current : FileId

inductive BookEntry where
  | start (thread : ℕ) (readings : Readings) (record : Record)
  | finish (thread : ℕ)
  | turn (name : FileName) (opened : Option FileId)
  | logLevel (level : Int8)
  | rest

namespace Book

def new (name : FileName) (current : FileId) (logLevel : Int8) : Book where
  logLevel := logLevel
  latest := fun _ => 0
  started := fun _ => none
  lines := fun _ => []
  name := name
  current := current

def start
    (thread : ℕ) (readings : Readings) (record : Record) (book : Book) :
    Book :=
  if record.silent book.logLevel then book
  else
    let second := max (book.latest thread) readings.second
    { book with
      latest := Function.update book.latest thread second
      started :=
        Function.update book.started thread
          (some
            ⟨second, readings.milliseconds, record.level,
              record.message⟩) }

def finish (thread : ℕ) (line : Line) (book : Book) : Book :=
  { book with
    started := Function.update book.started thread none
    lines :=
      Function.update book.lines book.current
        (book.lines book.current ++ [line]) }

def step (book : Book) : BookEntry → Option Book
  | .start thread readings record =>
      if (book.started thread).isSome then none
      else some (book.start thread readings record)
  | .finish thread =>
      (book.started thread).map fun line => book.finish thread line
  | .turn name opened =>
      if book.name = name then some book
      else opened.map fun id => { book with name := name, current := id }
  | .logLevel level => some { book with logLevel := level }
  | .rest => some book

/-- All that a file has been given. -/
def text (rendering : Rendering) (book : Book) (id : FileId) : List Byte :=
  (book.lines id).flatMap (Line.text rendering)

end Book

def LogAction.entry : LogAction → BookEntry
  | .compose thread readings _ record => .start thread readings record
  | .logMessage thread _ => .finish thread
  | .changeLoggerFile newFile opened => .turn newFile opened
  | .flush => .rest
  | .logLevel level => .logLevel level

/-! ## The logger keeps the book -/

/-- The disk and the buffer of the current file hold the lines of the book,
behind what was in the files at first. -/
structure Keeps
    (rendering : Rendering) (first : FileId → List Byte)
    (system : LogSystem) (book : Book) : Prop where
  logLevel : system.logLevel = book.logLevel
  name : system.files.logger.fileName = book.name
  stream :
    ∃ buffered,
      system.files.logger.file.file = some ⟨book.current, buffered⟩
  backup :
    ∀ old, system.files.logger.backupFile = some old →
      ∀ id, old.pending id = []
  lines :
    ∀ id,
      system.files.disk.content id ++
          system.files.logger.file.pending id =
        first id ++ book.text rendering id
  threads :
    ∀ thread,
      Renders rendering (system.threads thread) ∧
        (system.threads thread).time = book.latest thread
  composed :
    ∀ thread,
      system.composed thread =
        (book.started thread).map (Line.record rendering)

/-- Clocks are past the first second, records fit, files can be opened, and a
thread takes its steps in order. -/
def Admissible (system : LogSystem) : LogAction → Prop
  | .compose thread readings _ record =>
      system.composed thread = none ∧ 0 < readings.second ∧ record.Fits
  | .logMessage thread _ => (system.composed thread).isSome
  | .changeLoggerFile _ opened => opened.isSome
  | .flush => True
  | .logLevel level => named level

instance (system : LogSystem) : DecidablePred (Admissible system)
  | .compose _ _ _ _ => inferInstanceAs (Decidable (_ ∧ _ ∧ _))
  | .logMessage _ _ => inferInstanceAs (Decidable (_ = true))
  | .changeLoggerFile _ _ => inferInstanceAs (Decidable (_ = true))
  | .flush => instDecidableTrue
  | .logLevel _ => inferInstanceAs (Decidable (_ = true))

theorem headerText_append
    {rendering : Rendering} {thread : ThreadTime}
    (hrenders : Renders rendering thread) {readings : Readings}
    (hpos : 0 < readings.second) (level : Int8) (message : List Byte) :
    headerText thread (currentTime rendering readings) level ++ message =
      Line.record rendering
        ⟨max thread.time readings.second, readings.milliseconds, level,
          message⟩ := by
  have htime := thread.time_refresh (currentTime rendering readings)
  have hlate :
      0 < (thread.refresh (currentTime rendering readings)).time := by
    rw [htime]
    exact lt_max_of_lt_right (Int.natCast_pos.mpr hpos)
  have hshort : readings.milliseconds % 1024 = readings.milliseconds := by
    apply Nat.mod_eq_of_lt
    unfold Readings.milliseconds
    omega
  rw [headerText, Line.record, hrenders.refresh readings hlate, htime]
  simp only [currentTime, hshort]

namespace Keeps

variable {rendering : Rendering} {first : FileId → List Byte}
    {system : LogSystem} {book : Book}

theorem new
    (rendering : Rendering) (fileName linkName : FileName) (id : FileId)
    (disk : Disk) (logLevel : Int8) :
    Keeps rendering disk.content
      (LogSystem.new fileName linkName (some id) disk logLevel)
      (Book.new fileName id logLevel) := by
  constructor
  · rfl
  · rfl
  · exact ⟨[], rfl⟩
  · intro old hold
    cases hold
  · intro other
    simp [LogSystem.new, LogState.new, LogFile.new, LogFile.pending,
      Book.new, Book.text]
  · intro thread
    exact ⟨renders_freshThread rendering, rfl⟩
  · intro thread
    rfl

/-- The book is told what the array holds. -/
theorem compose
    (hkeeps : Keeps rendering first system book) (checked : Bool)
    {thread : ℕ} {readings : Readings} (mem : ℤ → Byte) {record : Record}
    (hidle : system.composed thread = none) (hpos : 0 < readings.second)
    (hfits : record.Fits) :
    ∃ next,
      system.compose checked rendering thread readings mem record =
          some next ∧
        Keeps rendering first next (book.start thread readings record) := by
  by_cases hsilent : record.silent system.logLevel = true
  · have hkept : Function.update system.composed thread none =
        system.composed := by
      rw [← hidle, Function.update_eq_self]
    refine ⟨system, ?_, ?_⟩
    · simp only [LogSystem.compose, Record.outcome_silent hsilent,
        Option.map_some, Option.map_none, hsilent, if_true, hkept]
    · rw [hkeeps.logLevel] at hsilent
      rwa [Book.start, if_pos hsilent]
  · have hspeaks : record.silent system.logLevel = false := by
      simpa using hsilent
    obtain ⟨hrenders, htime⟩ := hkeeps.threads thread
    obtain ⟨stores, houtcome, htext⟩ :=
      Record.composes hfits hspeaks checked (system.threads thread)
        (currentTime rendering readings) mem
    rw [headerText_append hrenders hpos, htime] at htext
    refine ⟨_, by rw [LogSystem.compose, houtcome, Option.map_some], ?_⟩
    have hwritten : record.silent book.logLevel = false := by
      rw [← hkeeps.logLevel, hspeaks]
    simp only [Book.start, hwritten, hspeaks, Bool.false_eq_true, if_false,
      Option.map_some]
    refine ⟨hkeeps.logLevel, hkeeps.name, hkeeps.stream, hkeeps.backup,
      hkeeps.lines, ?_, ?_⟩
    · intro other
      by_cases hother : other = thread
      · subst hother
        simp only [Function.update_self]
        refine ⟨hrenders.refresh readings, ?_⟩
        rw [ThreadTime.time_refresh, htime]
        rfl
      · simp only [Function.update_of_ne hother]
        exact hkeeps.threads other
    · intro other
      by_cases hother : other = thread
      · subst hother
        rw [headerText_append hrenders hpos, htime]
        simp only [Function.update_self, Option.map_some, htext]
      · simp only [Function.update_of_ne hother]
        exact hkeeps.composed other

/-- Whatever the stream hands on, the line is behind what was there. -/
theorem logMessage
    (hkeeps : Keeps rendering first system book) (checked : Bool)
    {thread : ℕ} (drained : ℕ) {line : Line}
    (hstarted : book.started thread = some line) :
    ∃ files,
      LogFiles.logMessage checked (line.record rendering) drained
          system.files = some files ∧
        Keeps rendering first
          { system with
            files := files
            composed := Function.update system.composed thread none }
          (book.finish thread line) := by
  obtain ⟨buffered, hstream⟩ := hkeeps.stream
  simp only [LogFiles.logMessage, LogFile.write, hstream]
  refine ⟨_, if_neg (by simp), ?_⟩
  refine ⟨hkeeps.logLevel, hkeeps.name, ⟨_, rfl⟩, hkeeps.backup, ?_,
    hkeeps.threads, ?_⟩
  · intro id
    have hlines := hkeeps.lines id
    simp only [LogFile.pending, hstream] at hlines
    simp only [Disk.content_append, LogFile.pending, Book.text, Book.finish]
    by_cases hid : book.current = id
    · subst hid
      simp only [if_true, Function.update_self, List.flatMap_append,
        List.flatMap_singleton] at hlines ⊢
      rw [List.append_assoc, List.take_append_drop, ← List.append_assoc,
        hlines, Book.text, List.append_assoc]
      rfl
    · simp only [hid, if_false, List.append_nil] at hlines ⊢
      rw [Function.update_of_ne (Ne.symm hid), hlines, Book.text]
  · intro other
    by_cases hother : other = thread
    · subst hother
      simp [Book.finish]
    · simp only [Book.finish, Function.update_of_ne hother]
      exact hkeeps.composed other

/-- The old file is flushed before it becomes the backup. -/
theorem changeLoggerFile
    (hkeeps : Keeps rendering first system book) {newFile : FileName}
    (hnew : system.files.logger.fileName ≠ newFile) (id : FileId) :
    Keeps rendering first
      { system with
        files :=
          LogFiles.changeLoggerFile newFile (some id) system.files }
      { book with name := newFile, current := id } := by
  have hinstalled := installed_changeLoggerFile hnew id
  refine ⟨hkeeps.logLevel, hinstalled.fileName, ⟨[], ?_⟩, ?_, ?_,
    hkeeps.threads, hkeeps.composed⟩
  · rw [hinstalled.file]
    rfl
  · intro other hother
    rw [hinstalled.backup, Option.some.injEq] at hother
    subst hother
    exact LogFile.pending_flushed _
  · intro other
    have hnothing :
        (system.files.logger.backupFile.elim [] fun file =>
          file.pending other) = [] := by
      cases hbackup : system.files.logger.backupFile with
      | none => rfl
      | some file => exact hkeeps.backup file hbackup other
    have hfresh : (LogFile.new newFile (some id)).pending other = [] := by
      simp [LogFile.new, LogFile.pending]
    rw [hinstalled.content other, hinstalled.file, hnothing, hfresh,
      List.append_nil, List.append_nil]
    exact hkeeps.lines other

theorem flush (hkeeps : Keeps rendering first system book) :
    Keeps rendering first
      { system with files := LogFiles.flush system.files } book := by
  obtain ⟨buffered, hstream⟩ := hkeeps.stream
  refine ⟨hkeeps.logLevel, hkeeps.name, ⟨[], ?_⟩, hkeeps.backup, ?_,
    hkeeps.threads, hkeeps.composed⟩
  · simp only [LogFiles.flush, LogFile.flush, hstream]
  · intro id
    simp only [LogFiles.flush, LogFile.content_flush, LogFile.flush_fst,
      LogFile.pending_flushed, List.append_nil]
    exact hkeeps.lines id

/-- One step of the logger is one step of the book. -/
theorem step
    (hkeeps : Keeps rendering first system book) (checked : Bool)
    {action : LogAction} (hadmissible : Admissible system action) :
    ∃ next after,
      system.step checked rendering action = some next ∧
        book.step action.entry = some after ∧
          Keeps rendering first next after := by
  cases action with
  | compose thread readings mem record =>
      obtain ⟨hidle, hpos, hfits⟩ := hadmissible
      obtain ⟨next, hnext, hkept⟩ :=
        hkeeps.compose checked mem hidle hpos hfits
      have hfree : book.started thread = none := by
        have hcomposed := hkeeps.composed thread
        rw [hidle] at hcomposed
        exact Option.map_eq_none_iff.mp hcomposed.symm
      refine ⟨next, _, ?_, ?_, hkept⟩
      · rw [LogSystem.step, hidle]
        exact hnext
      · rw [LogAction.entry, Book.step, hfree]
        rfl
  | logMessage thread drained =>
      have hcomposed := hkeeps.composed thread
      obtain ⟨text, htext⟩ := Option.isSome_iff_exists.mp hadmissible
      rw [htext] at hcomposed
      obtain ⟨line, hstarted, hline⟩ :=
        Option.map_eq_some_iff.mp hcomposed.symm
      subst hline
      obtain ⟨files, hfiles, hkept⟩ :=
        hkeeps.logMessage checked drained hstarted
      refine ⟨_, _, ?_, ?_, hkept⟩
      · rw [LogSystem.step, htext, Option.bind_some, hfiles,
          Option.map_some]
      · rw [LogAction.entry, Book.step, hstarted, Option.map_some]
  | changeLoggerFile newFile opened =>
      obtain ⟨id, rfl⟩ := Option.isSome_iff_exists.mp hadmissible
      by_cases hsame : system.files.logger.fileName = newFile
      · refine ⟨system, book, ?_, ?_, hkeeps⟩
        · rw [LogSystem.step, LogFiles.changeLoggerFile, if_pos hsame]
        · rw [LogAction.entry, Book.step, ← hkeeps.name, if_pos hsame]
      · refine ⟨_, _, rfl, ?_, hkeeps.changeLoggerFile hsame id⟩
        rw [LogAction.entry, Book.step, ← hkeeps.name, if_neg hsame,
          Option.map_some]
  | flush => exact ⟨_, _, rfl, rfl, hkeeps.flush⟩
  | logLevel level =>
      refine ⟨{ system with logLevel := level },
        { book with logLevel := level }, ?_, rfl, rfl, hkeeps.name,
        hkeeps.stream, hkeeps.backup, hkeeps.lines, hkeeps.threads,
        hkeeps.composed⟩
      rw [LogSystem.step, if_neg]
      rintro ⟨-, hunnamed⟩
      rw [Admissible, hunnamed] at hadmissible
      cases hadmissible

end Keeps

/-- A run of the logger is a run of the book. -/
theorem Keeps.run
    {rendering : Rendering} {first : FileId → List Byte}
    {system : LogSystem} {book : Book}
    (hkeeps : Keeps rendering first system book) (checked : Bool)
    {actions : List LogAction}
    (hadmissible :
      EachStep (LogSystem.step checked rendering) Admissible system
        actions) :
    ∃ final last,
      run (LogSystem.step checked rendering) system actions =
          some final ∧
        run Book.step book (actions.map LogAction.entry) = some last ∧
          Keeps rendering first final last := by
  obtain ⟨final, last, hfinal, hlast, hkept⟩ :=
    run_total_simulates (LogSystem.step checked rendering) Book.step
      (fun _ => LogAction.entry) (Keeps rendering first) Admissible
      (fun _ _ _ hkeeps hadmissible => hkeeps.step checked hadmissible)
      hkeeps hadmissible
  rw [translated_of_run _ _ hfinal] at hlast
  exact ⟨final, last, hfinal, hlast, hkept⟩

/-- Two threads: the record of the second is handed over first, and the file
is changed before that of the first. -/
def crossedActions : List LogAction :=
  [.compose 0 ⟨1500000, 1500100⟩ (fun _ => 0) (.log 0 [.slice [120]]),
    .compose 1 ⟨1600000, 1600100⟩ (fun _ => 0) (.formatted 4 [121] [122]),
    .logMessage 1 3, .changeLoggerFile [98] (some 1), .logMessage 0 0,
    .flush]

/-- Files only grow. -/
theorem step_content_grows
    {checked : Bool} {rendering : Rendering} {system next : LogSystem}
    {action : LogAction}
    (hstep : system.step checked rendering action = some next)
    (id : FileId) :
    system.files.disk.content id <+: next.files.disk.content id := by
  cases action with
  | compose thread readings mem record =>
      rw [LogSystem.step] at hstep
      split at hstep
      next => cases hstep
      next =>
        obtain ⟨outcome, -, rfl⟩ := Option.map_eq_some_iff.mp hstep
        exact List.prefix_rfl
  | logMessage thread drained =>
      obtain ⟨text, -, hfiles⟩ := Option.bind_eq_some_iff.mp hstep
      obtain ⟨files, hmessage, rfl⟩ := Option.map_eq_some_iff.mp hfiles
      simp only [LogFiles.logMessage] at hmessage
      split at hmessage
      next => cases hmessage
      next =>
        obtain rfl := Option.some.inj hmessage
        exact LogFile.content_write_grows _ _ _ _ _
  | changeLoggerFile newFile opened =>
      obtain rfl := Option.some.inj hstep
      simp only [LogFiles.changeLoggerFile]
      split
      next => exact List.prefix_rfl
      next =>
        simp only [content_createLink, content_closeBackup,
          LogFile.content_flush, List.append_assoc]
        exact List.prefix_append _ _
  | flush =>
      obtain rfl := Option.some.inj hstep
      simp only [LogFiles.flush, LogFile.content_flush]
      exact List.prefix_append _ _
  | logLevel level =>
      rw [LogSystem.step] at hstep
      split at hstep
      next => cases hstep
      next =>
        obtain rfl := Option.some.inj hstep
        exact List.prefix_rfl

theorem run_content_grows
    {checked : Bool} {rendering : Rendering} {system final : LogSystem}
    {actions : List LogAction}
    (hrun :
      run (LogSystem.step checked rendering) system actions = some final)
    (id : FileId) :
    system.files.disk.content id <+: final.files.disk.content id :=
  run_invariant (LogSystem.step checked rendering)
    (fun state =>
      system.files.disk.content id <+: state.files.disk.content id)
    (fun _ _ _ hgrown hstep => hgrown.trans (step_content_grows hstep id))
    List.prefix_rfl hrun

/-- A flush leaves nothing in the buffer. -/
theorem Keeps.content_flush
    {rendering : Rendering} {first : FileId → List Byte}
    {system : LogSystem} {book : Book}
    (hkeeps : Keeps rendering first system book) (id : FileId) :
    (LogFiles.flush system.files).disk.content id =
      first id ++ book.text rendering id := by
  simp only [LogFiles.flush, LogFile.content_flush]
  exact hkeeps.lines id

end GreenTurtle.LogLines
