import GreenTurtle.Execution
import GreenTurtle.Logger
import Mathlib.Tactic

/-!
# The files of a logger

`log_file.cc`, and the parts of `logger.cc` that open, change and fill the log
file.  A file that cannot be opened gives a `LogFile` with a null stream, which
has an `operator bool` of its own; `ChangeLoggerFile` tests the pointer to the
`LogFile` instead, and that is never null.  The offset of a `LogFile` is set to
the result of `fseek`, which is zero when the call succeeds.
-/

namespace GreenTurtle.LogFiles

open Execution
open Memory

abbrev FileName := List Byte

/-- What a stream is open on.  Several names may lead to one file. -/
abbrev FileId := ℕ

/-- The files, and where the logger's link points to. -/
structure Disk where
  content : FileId → List Byte
  link : Option FileName

def Disk.append (disk : Disk) (id : FileId) (bytes : List Byte) : Disk :=
  { disk with
    content := Function.update disk.content id (disk.content id ++ bytes) }

/-- A `FILE` opened for appending, with the bytes that are still in its
buffer. -/
structure Stream where
  id : FileId
  buffered : List Byte
deriving DecidableEq

structure LogFile where
  file : Option Stream
  fileName : FileName
  offset : ℕ
deriving DecidableEq

namespace LogFile

/-- What `fseek` returns when it succeeds. -/
def fseek : ℕ := 0

/-- The constructor, with the file that `fopen` finds or creates. -/
def new (fileName : FileName) (opened : Option FileId) : LogFile where
  file := opened.map fun id => ⟨id, []⟩
  fileName := fileName
  offset := opened.elim 0 fun _ => fseek

/-- The stream hands the first `drained` bytes of its buffer on. -/
def write (str : List Byte) (drained : ℕ) (file : LogFile) (disk : Disk) :
    ℕ × LogFile × Disk :=
  match file.file with
  | none => (0, file, disk)
  | some stream =>
      let buffered := stream.buffered ++ str
      (str.length,
        { file with
          file := some { stream with buffered := buffered.drop drained }
          offset := file.offset + str.length },
        disk.append stream.id (buffered.take drained))

def flush (file : LogFile) (disk : Disk) : LogFile × Disk :=
  match file.file with
  | none => (file, disk)
  | some stream =>
      ({ file with file := some { stream with buffered := [] } },
        disk.append stream.id stream.buffered)

end LogFile

structure Logger where
  file : LogFile
  backupFile : Option LogFile
  size : ℕ
  fileName : FileName
  linkName : FileName
deriving DecidableEq

/-- The part of a name behind the last slash. -/
def baseName (name : FileName) : FileName :=
  (name.reverse.takeWhile (· ≠ 47)).reverse

/-- The link is removed, and made again unless its target is the empty name. -/
def Logger.createLink (logger : Logger) (disk : Disk) : Disk :=
  if logger.fileName ≠ logger.linkName ∧ logger.linkName ≠ [] then
    { disk with
      link :=
        if baseName logger.fileName = [] then none
        else some (baseName logger.fileName) }
  else disk

/-- The logger and the disk.  The last field is not in the source: it is the
length that the current file had when it became the current one. -/
structure LogState where
  logger : Logger
  disk : Disk
  openedLength : ℕ

/-- Bytes that a `LogFile` holds back from a file. -/
def LogFile.pending (file : LogFile) (id : FileId) : List Byte :=
  match file.file with
  | none => []
  | some stream => if stream.id = id then stream.buffered else []

/-- The length of the current file, with the bytes that are still buffered. -/
def currentLength (logger : Logger) (disk : Disk) : ℕ :=
  match logger.file.file with
  | none => 0
  | some stream => (disk.content stream.id).length + stream.buffered.length

/-- The constructor of the logger. -/
def LogState.new
    (fileName linkName : FileName) (opened : Option FileId) (disk : Disk) :
    LogState :=
  let file := LogFile.new fileName opened
  let logger : Logger :=
    { file := file
      backupFile := none
      size := file.offset
      fileName := fileName
      linkName := linkName }
  let disk := logger.createLink disk
  { logger := logger
    disk := disk
    openedLength := currentLength logger disk }

/-- Closing a file writes what is buffered. -/
def closeBackup (backup : Option LogFile) (disk : Disk) : Disk :=
  backup.elim disk fun file => (file.flush disk).2

def changeLoggerFile
    (newFile : FileName) (opened : Option FileId) (state : LogState) :
    LogState :=
  if state.logger.fileName = newFile then state
  else
    let file := LogFile.new newFile opened
    let old := state.logger.file.flush state.disk
    let disk := closeBackup state.logger.backupFile old.2
    let logger : Logger :=
      { file := file
        backupFile := some old.1
        size := file.offset
        fileName := newFile
        linkName := state.logger.linkName }
    let disk := logger.createLink disk
    { logger := logger
      disk := disk
      openedLength := currentLength logger disk }

/-- In a build with assertions there is no result when the record is not
written. -/
def logMessage
    (checked : Bool) (text : List Byte) (drained : ℕ) (state : LogState) :
    Option LogState :=
  let str := text ++ [10]
  let written := state.logger.file.write str drained state.disk
  if checked ∧ written.1 ≠ str.length then none
  else
    some
      { state with
        logger :=
          { state.logger with
            file := written.2.1
            size := state.logger.size + written.1 }
        disk := written.2.2 }

def flush (state : LogState) : LogState :=
  let flushed := state.logger.file.flush state.disk
  { state with
    logger := { state.logger with file := flushed.1 }
    disk := flushed.2 }

inductive LogOp where
  | logMessage (text : List Byte) (drained : ℕ)
  | changeLoggerFile (newFile : FileName) (opened : Option FileId)
  | flush

def step (checked : Bool) (state : LogState) : LogOp → Option LogState
  | .logMessage text drained => logMessage checked text drained state
  | .changeLoggerFile newFile opened =>
      some (changeLoggerFile newFile opened state)
  | .flush => some (flush state)

/-! ## Single operations -/

/-- The string that `logMessage` writes is what the array of the record holds
after the newline has been put into it. -/
theorem slice_record
    (mem : ℤ → Byte) (stores : StoreLog Byte) (len : ℕ) :
    slice (applyLog mem (Logging.logMessage stores len).stores) 0
        (len + 1) =
      slice (applyLog mem stores) 0 len ++ [10] := by
  have happended := slice_store_append (applyLog mem stores) 0 len [10]
  rw [zero_add] at happended
  simpa [Logging.logMessage] using happended

@[simp] theorem Disk.content_append
    (disk : Disk) (id other : FileId) (bytes : List Byte) :
    (disk.append id bytes).content other =
      disk.content other ++ if id = other then bytes else [] := by
  by_cases hid : id = other
  · subst hid
    simp [Disk.append]
  · simp [Disk.append, hid, Ne.symm hid]

@[simp] theorem Disk.link_append
    (disk : Disk) (id : FileId) (bytes : List Byte) :
    (disk.append id bytes).link = disk.link := rfl

@[simp] theorem content_createLink (logger : Logger) (disk : Disk) :
    (logger.createLink disk).content = disk.content := by
  unfold Logger.createLink
  split <;> rfl

theorem LogFile.content_flush
    (file : LogFile) (disk : Disk) (id : FileId) :
    (file.flush disk).2.content id = disk.content id ++ file.pending id := by
  unfold flush pending
  split
  next hnone => simp
  next stream hsome => simp

@[simp] theorem LogFile.link_flush (file : LogFile) (disk : Disk) :
    (file.flush disk).2.link = disk.link := by
  unfold flush
  split <;> rfl

/-- The same file with nothing in its buffer. -/
def LogFile.flushed (file : LogFile) : LogFile :=
  { file with
    file := file.file.map fun stream => { stream with buffered := [] } }

theorem LogFile.flush_fst (file : LogFile) (disk : Disk) :
    (file.flush disk).1 = file.flushed := by
  cases hfile : file.file with
  | none =>
      rw [flush, flushed, hfile]
      exact congrArg (LogFile.mk · _ _) hfile
  | some stream => simp [flush, flushed, hfile]

theorem LogFile.pending_flushed (file : LogFile) (id : FileId) :
    file.flushed.pending id = [] := by
  cases hfile : file.file with
  | none => simp [flushed, pending, hfile]
  | some stream => simp [flushed, pending, hfile]

theorem LogFile.content_write_grows
    (str : List Byte) (drained : ℕ) (file : LogFile) (disk : Disk)
    (id : FileId) :
    disk.content id <+: (file.write str drained disk).2.2.content id := by
  unfold write
  split
  next => exact List.prefix_rfl
  next =>
    rw [Disk.content_append]
    exact List.prefix_append _ _

theorem LogFile.fileName_write
    (str : List Byte) (drained : ℕ) (file : LogFile) (disk : Disk) :
    (file.write str drained disk).2.1.fileName = file.fileName := by
  unfold write
  split <;> rfl

theorem content_closeBackup
    (backup : Option LogFile) (disk : Disk) (id : FileId) :
    (closeBackup backup disk).content id =
      disk.content id ++ backup.elim [] fun file => file.pending id := by
  cases backup with
  | none => simp [closeBackup]
  | some file => exact file.content_flush disk id

@[simp] theorem link_closeBackup (backup : Option LogFile) (disk : Disk) :
    (closeBackup backup disk).link = disk.link := by
  cases backup with
  | none => rfl
  | some file => exact file.link_flush disk

/-- Without a stream a record goes nowhere: the assertion fails, or nothing
happens. -/
theorem logMessage_of_null
    {state : LogState} (hnull : state.logger.file.file = none)
    (checked : Bool) (text : List Byte) (drained : ℕ) :
    logMessage checked text drained state =
      if checked then none else some state := by
  cases checked <;>
    simp [logMessage, LogFile.write, hnull]

/-! ## Changing the file -/

/-- The switch has been made, as a whole. -/
structure Installed
    (newFile : FileName) (id : FileId) (before after : LogState) : Prop where
  file : after.logger.file = LogFile.new newFile (some id)
  fileName : after.logger.fileName = newFile
  size : after.logger.size = after.logger.file.offset
  link :
    after.disk.link =
      if newFile ≠ before.logger.linkName ∧ before.logger.linkName ≠ [] then
        if baseName newFile = [] then none else some (baseName newFile)
      else before.disk.link
  backup : after.logger.backupFile = some before.logger.file.flushed
  content :
    ∀ other,
      after.disk.content other =
        before.disk.content other ++ before.logger.file.pending other ++
          before.logger.backupFile.elim [] fun file => file.pending other

/-- Nothing has happened, and nothing comes of it later. -/
structure Untouched (before after : LogState) : Prop where
  file : after.logger.file = before.logger.file
  fileName : after.logger.fileName = before.logger.fileName
  size : after.logger.size = before.logger.size
  link : after.disk.link = before.disk.link
  later :
    ∀ checked ops,
      (run (step checked) after ops).map (fun state => state.disk.content) =
        (run (step checked) before ops).map fun state => state.disk.content

/-- The new file is installed if it can be opened, and if it cannot then
everything stays. -/
def SwitchesAtomically
    (newFile : FileName) (opened : Option FileId) (before after : LogState) :
    Prop :=
  (∃ id, opened = some id ∧ Installed newFile id before after) ∨
    opened = none ∧ Untouched before after

theorem installed_changeLoggerFile
    {newFile : FileName} {state : LogState}
    (hnew : state.logger.fileName ≠ newFile) (id : FileId) :
    Installed newFile id state
      (changeLoggerFile newFile (some id) state) := by
  unfold changeLoggerFile
  rw [if_neg hnew]
  constructor
  · rfl
  · rfl
  · rfl
  · simp only [Logger.createLink]
    split <;> simp
  · exact congrArg some (LogFile.flush_fst _ _)
  · intro other
    simp only [content_createLink, content_closeBackup,
      LogFile.content_flush]

/-- The current file has the name of the logger, and the one before it had
another name. -/
structure Named (state : LogState) : Prop where
  current : state.logger.file.fileName = state.logger.fileName
  backup :
    ∀ old, state.logger.backupFile = some old →
      old.fileName ≠ state.logger.fileName

theorem named_new
    (fileName linkName : FileName) (opened : Option FileId) (disk : Disk) :
    Named (LogState.new fileName linkName opened disk) :=
  ⟨rfl, fun _ hold => by cases hold⟩

theorem Named.changeLoggerFile
    {state : LogState} (hnamed : Named state) (newFile : FileName)
    (opened : Option FileId) :
    Named (changeLoggerFile newFile opened state) := by
  unfold LogFiles.changeLoggerFile
  split
  next => exact hnamed
  next hnew =>
    refine ⟨rfl, ?_⟩
    intro old hold
    obtain rfl := Option.some.inj hold
    rw [LogFile.flush_fst]
    exact fun hsame => hnew (hnamed.current.symm.trans hsame)

theorem Named.step
    {state next : LogState} (hnamed : Named state) {checked : Bool}
    {op : LogOp} (hstep : step checked state op = some next) :
    Named next := by
  cases op with
  | logMessage text drained =>
      simp only [LogFiles.step, logMessage] at hstep
      split at hstep
      next => cases hstep
      next =>
        obtain rfl := Option.some.inj hstep
        exact ⟨(LogFile.fileName_write _ _ _ _).trans hnamed.current,
          hnamed.backup⟩
  | changeLoggerFile newFile opened =>
      obtain rfl := Option.some.inj hstep
      exact hnamed.changeLoggerFile newFile opened
  | flush =>
      obtain rfl := Option.some.inj hstep
      refine ⟨?_, hnamed.backup⟩
      exact (congrArg LogFile.fileName (LogFile.flush_fst _ _)).trans
        hnamed.current

/-- A call with the current name does not install the file. -/
theorem Named.not_installed
    {state : LogState} (hnamed : Named state) {newFile : FileName}
    {id : FileId} : ¬ Installed newFile id state state := by
  intro hinstalled
  exact hnamed.backup _ hinstalled.backup hnamed.current

/-- An operation that leaves the choice of the file alone. -/
def LogOp.Records : LogOp → Prop
  | .changeLoggerFile _ _ => False
  | _ => True

/-- After a switch that failed, whatever is logged and flushed changes neither
the logger nor the disk. -/
theorem run_after_failed_switch
    {newFile : FileName} {state : LogState}
    (hnew : state.logger.fileName ≠ newFile) {ops : List LogOp}
    (hops : ∀ op ∈ ops, op.Records) :
    run (step false) (changeLoggerFile newFile none state) ops =
      some (changeLoggerFile newFile none state) := by
  have hnull :
      (changeLoggerFile newFile none state).logger.file.file = none := by
    rw [changeLoggerFile, if_neg hnew]
    rfl
  obtain ⟨final, hrun, hfinal⟩ :=
    run_total (step false)
      (· = changeLoggerFile newFile none state) (fun _ op => op.Records)
      (by
        rintro _ op rfl hop
        refine ⟨_, ?_, rfl⟩
        cases op with
        | logMessage text drained =>
            rw [step, logMessage_of_null hnull]
            rfl
        | changeLoggerFile newFile opened => exact hop.elim
        | flush => simp [step, flush, LogFile.flush, hnull])
      rfl (EachStep.of_forall _ (fun op hop _ => hops op hop) _)
  rw [hrun, hfinal]

def emptyDisk : Disk := ⟨fun _ => [], none⟩

theorem openedLength_new
    (fileName linkName : FileName) (id : FileId) (disk : Disk) :
    (LogState.new fileName linkName (some id) disk).openedLength =
      (disk.content id).length := by
  simp [LogState.new, currentLength, LogFile.new]

/-- What the old streams still held back for the new file counts. -/
theorem openedLength_changeLoggerFile
    {newFile : FileName} {state : LogState}
    (hnew : state.logger.fileName ≠ newFile) (id : FileId) :
    (changeLoggerFile newFile (some id) state).openedLength =
      (state.disk.content id ++ state.logger.file.pending id ++
        state.logger.backupFile.elim [] fun file =>
          file.pending id).length := by
  rw [← (installed_changeLoggerFile hnew id).content id, changeLoggerFile,
    if_neg hnew]
  simp [currentLength, LogFile.new]

/-- Both counters tell the length of the current file. -/
def Tracks (state : LogState) : Prop :=
  state.logger.size = currentLength state.logger state.disk ∧
    state.logger.file.offset = currentLength state.logger state.disk

/-- The counters agree, and tell what has been added since the opening. -/
structure Counting (state : LogState) : Prop where
  stream : state.logger.file.file.isSome
  offset_eq : state.logger.file.offset = state.logger.size
  added :
    state.logger.size + state.openedLength =
      currentLength state.logger state.disk

theorem Counting.tracks_iff {state : LogState} (hcounting : Counting state) :
    Tracks state ↔ state.openedLength = 0 := by
  have hoffset := hcounting.offset_eq
  have hadded := hcounting.added
  unfold Tracks
  omega

theorem Counting.new
    (fileName linkName : FileName) (id : FileId) (disk : Disk) :
    Counting (LogState.new fileName linkName (some id) disk) := by
  constructor
  · rfl
  · rfl
  · exact Nat.zero_add _

theorem Counting.changeLoggerFile
    {state : LogState} (hcounting : Counting state) (newFile : FileName)
    (id : FileId) :
    Counting (changeLoggerFile newFile (some id) state) := by
  unfold LogFiles.changeLoggerFile
  split
  next => exact hcounting
  next =>
    constructor
    · rfl
    · rfl
    · exact Nat.zero_add _

theorem Counting.logMessage
    {state : LogState} (hcounting : Counting state) (checked : Bool)
    (text : List Byte) (drained : ℕ) :
    ∃ next, logMessage checked text drained state = some next ∧
      Counting next := by
  obtain ⟨stream, hstream⟩ := Option.isSome_iff_exists.mp hcounting.stream
  have hoffset := hcounting.offset_eq
  have hadded := hcounting.added
  simp only [currentLength, hstream] at hadded
  simp only [LogFiles.logMessage, LogFile.write, hstream]
  refine ⟨_, if_neg (by simp), ?_⟩
  constructor
  · rfl
  · exact congrArg (· + _) hoffset
  · simp only [currentLength, Disk.content_append, List.length_append]
    simp
    omega

theorem Counting.flush
    {state : LogState} (hcounting : Counting state) :
    Counting (flush state) := by
  obtain ⟨stream, hstream⟩ := Option.isSome_iff_exists.mp hcounting.stream
  have hoffset := hcounting.offset_eq
  have hadded := hcounting.added
  simp only [currentLength, hstream] at hadded
  simp only [LogFiles.flush, LogFile.flush, hstream]
  constructor
  · rfl
  · exact hoffset
  · simp [currentLength]
    omega

/-- Every switch opens its file. -/
def LogOp.Opens : LogOp → Prop
  | .changeLoggerFile _ opened => opened.isSome
  | _ => True

theorem Counting.step
    {state : LogState} (hcounting : Counting state) (checked : Bool)
    {op : LogOp} (hopens : op.Opens) :
    ∃ next, step checked state op = some next ∧ Counting next := by
  cases op with
  | logMessage text drained =>
      exact hcounting.logMessage checked text drained
  | changeLoggerFile newFile opened =>
      obtain ⟨id, rfl⟩ := Option.isSome_iff_exists.mp hopens
      exact ⟨_, rfl, hcounting.changeLoggerFile newFile id⟩
  | flush => exact ⟨_, rfl, hcounting.flush⟩

/-- After any operations without errors, the counters tell the length of the
current file exactly when that file was empty when it was opened. -/
theorem written_size_tracks_iff
    (checked : Bool) (fileName linkName : FileName) (id : FileId)
    (disk : Disk) {ops : List LogOp} (hopens : ∀ op ∈ ops, op.Opens) :
    ∃ final,
      run (step checked) (LogState.new fileName linkName (some id) disk)
          ops = some final ∧
        (Tracks final ↔ final.openedLength = 0) := by
  obtain ⟨final, hrun, hcounting⟩ :=
    run_total (LogFiles.step checked) Counting (fun _ op => op.Opens)
      (fun _ _ hcounting hop => hcounting.step checked hop)
      (Counting.new fileName linkName id disk)
      (EachStep.of_forall _ (fun op hop _ => hopens op hop) _)
  exact ⟨final, hrun, hcounting.tracks_iff⟩

theorem written_size_tracks_fresh :
    (∀ op ∈ [LogOp.logMessage [120] 0, .changeLoggerFile [98] (some 1),
        .logMessage [121, 122] 1], op.Opens) ∧
      ∃ final,
        run (step true) (LogState.new [97] [] (some 0) emptyDisk)
            [.logMessage [120] 0, .changeLoggerFile [98] (some 1),
              .logMessage [121, 122] 1] = some final ∧
          Tracks final := by
  have hopens :
      ∀ op ∈ [LogOp.logMessage [120] 0, .changeLoggerFile [98] (some 1),
        .logMessage [121, 122] 1], op.Opens := by
    simp [LogOp.Opens]
  obtain ⟨final, hrun, htracks⟩ :=
    written_size_tracks_iff true [97] [] 0 emptyDisk hopens
  have hlength :
      (run (step true) (LogState.new [97] [] (some 0) emptyDisk)
        [.logMessage [120] 0, .changeLoggerFile [98] (some 1),
          .logMessage [121, 122] 1]).map LogState.openedLength =
        some 0 := by
    decide
  rw [hrun] at hlength
  exact ⟨hopens, final, hrun, htracks.mpr (Option.some.inj hlength)⟩

/-- A file that holds one byte is opened: both counters say zero. -/
theorem written_size_ignores_content :
    (LogState.new [97] [] (some 0) ⟨fun _ => [120], none⟩).logger.size = 0 ∧
      (LogState.new [97] [] (some 0)
        ⟨fun _ => [120], none⟩).logger.file.offset = 0 ∧
      currentLength
          (LogState.new [97] [] (some 0) ⟨fun _ => [120], none⟩).logger
          (LogState.new [97] [] (some 0) ⟨fun _ => [120], none⟩).disk =
        1 := by
  decide

end GreenTurtle.LogFiles
