import GreenTurtle.Execution
import GreenTurtle.FixedWidth
import Mathlib.Tactic

/-!
# The cache of XML documents

`xml_doc_cache.h`.  Each entry remembers the time stamp of its file, and
`ReloadFile` reads again the files whose time stamp is another one.  The entry's
time stamp is set when the file is first loaded and never after, so that it is
that of the cached document only until the first reload.  A time stamp counts
whole seconds: the nanoseconds of the modification time are dropped.
-/

namespace GreenTurtle.XmlDocCache

open FixedWidth
open Execution

abbrev FileName := ℕ
abbrev Callback := ℕ

/-- Everything but success is a number of the parser's. -/
inductive ParseStatus where
  | ok
  | failed (code : ℕ)
  deriving DecidableEq

/-- The field `st_mtim` that `stat` fills in. -/
structure Timespec where
  tvSec : ℤ
  tvNsec : ℕ
  deriving DecidableEq

/-- A file as `stat` and `load_file` see it.  There is no modification time
when `stat` fails. -/
structure File where
  time : Option Timespec
  parsed : Except ℕ ℕ

def getFileModifyTime (file : File) : ℕ :=
  match file.time with
  | none => 0
  | some stMtim => toUInt64 stMtim.tvSec

def File.loads (file : File) : Bool :=
  match file.parsed with
  | .ok _ => true
  | .error _ => false

/-- A parsed document, with the modification time its file had when it was
read.  The program does not keep this time. -/
structure Document where
  content : ℕ
  fileTime : Option Timespec
  deriving DecidableEq

structure XmlDocInfo where
  fileName : FileName
  sharedDoc : Option Document
  modifyTime : ℕ
  parseFile : Callback
  deriving DecidableEq

inductive Event where
  | parsed (fileName : FileName)
  | called (fileName : FileName) (parseFile : Callback)
  deriving DecidableEq

/-- The entries stand in the order in which the container is walked. -/
structure State where
  files : FileName → File
  container : List XmlDocInfo

abbrev ParseResult := Bool × ParseStatus

def State.initial (files : FileName → File) : State where
  files := files
  container := []

/-! ## The operations -/

section Operations

variable (answer : Callback → Bool)

def loadFile
    (fileName : FileName) (parseFile : Callback) (state : State) :
    ParseResult × State × List Event :=
  if state.container.any fun info => info.fileName == fileName then
    ((true, .ok), state, [])
  else
    match (state.files fileName).parsed with
    | .ok content =>
        let doc : Document :=
          { content := content, fileTime := (state.files fileName).time }
        let info : XmlDocInfo :=
          { fileName := fileName
            sharedDoc := some doc
            modifyTime := getFileModifyTime (state.files fileName)
            parseFile := parseFile }
        let events := [.parsed fileName, .called fileName parseFile]
        if answer parseFile then
          ((true, .ok), { state with container := info :: state.container },
            events)
        else ((false, .ok), state, events)
    | .error code => ((true, .failed code), state, [.parsed fileName])

def reloadLoop (files : FileName → File) (needAbort : Bool) :
    List XmlDocInfo → ParseResult × List XmlDocInfo × List Event
  | [] => ((true, .ok), [], [])
  | info :: rest =>
      let tail := reloadLoop files needAbort rest
      let fileModifyTime := getFileModifyTime (files info.fileName)
      if fileModifyTime ≠ info.modifyTime then
        match (files info.fileName).parsed with
        | .ok content =>
            let doc : Document :=
              { content := content, fileTime := (files info.fileName).time }
            let info' := { info with sharedDoc := some doc }
            let events :=
              [.parsed info.fileName, .called info.fileName info.parseFile]
            if !answer info.parseFile && needAbort then
              ((false, .ok), info' :: rest, events)
            else (tail.1, info' :: tail.2.1, events ++ tail.2.2)
        | .error _ =>
            (tail.1, info :: tail.2.1, .parsed info.fileName :: tail.2.2)
      else (tail.1, info :: tail.2.1, tail.2.2)

def reloadFile
    (needAbort : Bool) (state : State) :
    ParseResult × State × List Event :=
  let reloaded := reloadLoop answer state.files needAbort state.container
  (reloaded.1, { state with container := reloaded.2.1 }, reloaded.2.2)

end Operations

def clear (state : State) : State :=
  { state with container := [] }

def clearFile (fileName : FileName) (state : State) : State :=
  { state with
    container :=
      state.container.filter fun info => info.fileName != fileName }

def loadComplete (state : State) : State :=
  { state with
    container :=
      state.container.map fun info => { info with sharedDoc := none } }

/-! ## Histories -/

/-- Calls on the cache and changes of the files.  A container that grows may
rearrange its entries. -/
inductive Label where
  | load (fileName : FileName) (parseFile : Callback)
  | reload (needAbort : Bool)
  | clear
  | clearFile (fileName : FileName)
  | loadComplete
  | change (fileName : FileName) (file : File)
  | rearrange (container : List XmlDocInfo)

/-- The callbacks return true. -/
def accepts : Callback → Bool := fun _ => true

def step (state : State) : Label → Option State
  | .load fileName parseFile =>
      some (loadFile accepts fileName parseFile state).2.1
  | .reload needAbort => some (reloadFile accepts needAbort state).2.1
  | .clear => some (clear state)
  | .clearFile fileName => some (clearFile fileName state)
  | .loadComplete => some (loadComplete state)
  | .change fileName file =>
      some { state with files := Function.update state.files fileName file }
  | .rearrange container =>
      if container.Perm state.container then
        some { state with container := container }
      else none

/-! ## One entry -/

def now (state : State) (info : XmlDocInfo) : Option Timespec :=
  (state.files info.fileName).time

def reloadedInfo (files : FileName → File) (info : XmlDocInfo) :
    XmlDocInfo :=
  if getFileModifyTime (files info.fileName) ≠ info.modifyTime then
    match (files info.fileName).parsed with
    | .ok content =>
        { info with
          sharedDoc :=
            some
              { content := content
                fileTime := (files info.fileName).time } }
    | .error _ => info
  else info

def reloadEvents (files : FileName → File) (info : XmlDocInfo) :
    List Event :=
  if getFileModifyTime (files info.fileName) ≠ info.modifyTime then
    match (files info.fileName).parsed with
    | .ok _ =>
        [.parsed info.fileName, .called info.fileName info.parseFile]
    | .error _ => [.parsed info.fileName]
  else []

/-- With callbacks that return true the loop treats each entry alone. -/
theorem reloadLoop_accepts
    (files : FileName → File) (needAbort : Bool)
    (container : List XmlDocInfo) :
    reloadLoop accepts files needAbort container =
      ((true, .ok), container.map (reloadedInfo files),
        container.flatMap (reloadEvents files)) := by
  induction container with
  | nil => rfl
  | cons info rest ih =>
      rw [reloadLoop, ih, List.map_cons, List.flatMap_cons, reloadedInfo,
        reloadEvents]
      split
      next =>
        cases (files info.fileName).parsed with
        | ok content => rfl
        | error code => rfl
      next => rfl

@[simp] theorem reloadedInfo_fileName
    (files : FileName → File) (info : XmlDocInfo) :
    (reloadedInfo files info).fileName = info.fileName := by
  unfold reloadedInfo
  split
  next => split <;> rfl
  next => rfl

@[simp] theorem reloadedInfo_modifyTime
    (files : FileName → File) (info : XmlDocInfo) :
    (reloadedInfo files info).modifyTime = info.modifyTime := by
  unfold reloadedInfo
  split
  next => split <;> rfl
  next => rfl

/-! ## Names are unique -/

def UniqueNames (state : State) : Prop :=
  (state.container.map XmlDocInfo.fileName).Nodup

theorem UniqueNames.loadFile
    {state : State} (hunique : UniqueNames state)
    (answer : Callback → Bool) (fileName : FileName)
    (parseFile : Callback) :
    UniqueNames (loadFile answer fileName parseFile state).2.1 := by
  unfold XmlDocCache.loadFile
  split
  next => exact hunique
  next hnew =>
    split
    next =>
      dsimp only
      split
      next =>
        have hfresh :
            fileName ∉ state.container.map XmlDocInfo.fileName := by
          intro hmem
          rcases List.mem_map.mp hmem with ⟨info, hinfo, hname⟩
          apply hnew
          rw [List.any_eq_true]
          exact ⟨info, hinfo, beq_iff_eq.mpr hname⟩
        exact List.nodup_cons.mpr ⟨hfresh, hunique⟩
      next => exact hunique
    next => exact hunique

theorem UniqueNames.of_map
    {state : State} (hunique : UniqueNames state)
    (change : XmlDocInfo → XmlDocInfo)
    (hchange : ∀ info, (change info).fileName = info.fileName) :
    ((state.container.map change).map XmlDocInfo.fileName).Nodup := by
  have hsame :
      XmlDocInfo.fileName ∘ change = XmlDocInfo.fileName := by
    funext info
    exact hchange info
  rw [List.map_map, hsame]
  exact hunique

theorem UniqueNames.step
    {state next : State} {label : Label} (hunique : UniqueNames state)
    (hstep : step state label = some next) : UniqueNames next := by
  cases label with
  | load fileName parseFile =>
      cases hstep
      exact hunique.loadFile accepts fileName parseFile
  | reload needAbort =>
      cases hstep
      simp only [UniqueNames, reloadFile, reloadLoop_accepts]
      exact hunique.of_map _ (reloadedInfo_fileName state.files)
  | clear =>
      cases hstep
      exact List.nodup_nil
  | clearFile fileName =>
      cases hstep
      exact hunique.sublist (List.filter_sublist.map _)
  | loadComplete =>
      cases hstep
      exact hunique.of_map _ fun _ => rfl
  | change fileName file =>
      cases hstep
      exact hunique
  | rearrange container =>
      simp only [XmlDocCache.step] at hstep
      split at hstep
      next hperm =>
        cases hstep
        exact (hperm.map XmlDocInfo.fileName).nodup_iff.mpr hunique
      next => cases hstep

/-! ## Exactness -/

/-- `ReloadFile` reads a cached file again and calls its callback, once, exactly
when the modification time of the file is not that of the cached document. -/
def ReloadExact (needAbort : Bool) (state : State) : Prop :=
  ∀ info ∈ state.container, ∀ doc, info.sharedDoc = some doc →
    (reloadFile accepts needAbort state).2.2.count (.parsed info.fileName) =
        (if now state info ≠ doc.fileTime then 1 else 0) ∧
      (reloadFile accepts needAbort state).2.2.count
          (.called info.fileName info.parseFile) =
        if now state info ≠ doc.fileTime then 1 else 0

/-- The second in which the file of a cached document was last modified is that
of the entry's time stamp exactly when the file has not been modified since the
document was read, and if it has been then it can be loaded. -/
def InStep (state : State) : Prop :=
  ∀ info ∈ state.container, ∀ doc, info.sharedDoc = some doc →
    (getFileModifyTime (state.files info.fileName) = info.modifyTime ↔
        now state info = doc.fileTime) ∧
      (now state info ≠ doc.fileTime →
        (state.files info.fileName).loads = true)

/-! ### The events of one entry -/

def Event.fileName : Event → FileName
  | .parsed fileName => fileName
  | .called fileName _ => fileName

theorem fileName_of_mem_reloadEvents
    {files : FileName → File} {info : XmlDocInfo} {event : Event}
    (hmem : event ∈ reloadEvents files info) :
    event.fileName = info.fileName := by
  unfold reloadEvents at hmem
  split at hmem
  next =>
    split at hmem
    next =>
      simp only [List.mem_cons, List.not_mem_nil, or_false] at hmem
      rcases hmem with rfl | rfl <;> rfl
    next =>
      rw [List.mem_singleton] at hmem
      rw [hmem]
      rfl
  next => cases hmem

theorem count_reloadEvents_of_ne
    {files : FileName → File} {info : XmlDocInfo} {event : Event}
    (hne : event.fileName ≠ info.fileName) :
    (reloadEvents files info).count event = 0 := by
  rw [List.count_eq_zero]
  intro hmem
  exact hne (fileName_of_mem_reloadEvents hmem)

theorem count_flatMap_of_notMem
    {files : FileName → File} {container : List XmlDocInfo} {event : Event}
    (hnew : event.fileName ∉ container.map XmlDocInfo.fileName) :
    (container.flatMap (reloadEvents files)).count event = 0 := by
  rw [List.count_eq_zero]
  intro hmem
  rcases List.mem_flatMap.mp hmem with ⟨info, hinfo, hevent⟩
  apply hnew
  rw [fileName_of_mem_reloadEvents hevent]
  exact List.mem_map_of_mem hinfo

/-- The events of a file come from its entry. -/
theorem count_flatMap_reloadEvents
    {files : FileName → File} {container : List XmlDocInfo}
    (hunique : (container.map XmlDocInfo.fileName).Nodup)
    {info : XmlDocInfo} (hinfo : info ∈ container) {event : Event}
    (hevent : event.fileName = info.fileName) :
    (container.flatMap (reloadEvents files)).count event =
      (reloadEvents files info).count event := by
  induction container with
  | nil => cases hinfo
  | cons first rest ih =>
      rw [List.map_cons, List.nodup_cons] at hunique
      rw [List.flatMap_cons, List.count_append]
      rcases List.mem_cons.mp hinfo with hfirst | hrest
      · rw [← hfirst] at hunique ⊢
        rw [← hevent] at hunique
        rw [count_flatMap_of_notMem hunique.1, Nat.add_zero]
      · have hne : event.fileName ≠ first.fileName := by
          intro heq
          apply hunique.1
          rw [← heq, hevent]
          exact List.mem_map_of_mem hrest
        rw [count_reloadEvents_of_ne hne, Nat.zero_add,
          ih hunique.2 hrest]

theorem count_parsed (files : FileName → File) (info : XmlDocInfo) :
    (reloadEvents files info).count (.parsed info.fileName) =
      if getFileModifyTime (files info.fileName) ≠ info.modifyTime then 1
      else 0 := by
  unfold reloadEvents
  split
  next => split <;> simp
  next => rfl

theorem count_called (files : FileName → File) (info : XmlDocInfo) :
    (reloadEvents files info).count
        (.called info.fileName info.parseFile) =
      if getFileModifyTime (files info.fileName) ≠ info.modifyTime ∧
          (files info.fileName).loads = true then 1
      else 0 := by
  unfold reloadEvents File.loads
  by_cases hchanged :
      getFileModifyTime (files info.fileName) ≠ info.modifyTime
  · cases hparsed : (files info.fileName).parsed <;> simp [hchanged]
  · simp [hchanged]

/-! ### The result -/

theorem UniqueNames.reloadExact_iff
    {state : State} (hunique : UniqueNames state) (needAbort : Bool) :
    ReloadExact needAbort state ↔ InStep state := by
  simp only [ReloadExact, InStep, reloadFile, reloadLoop_accepts, now]
  refine forall₂_congr fun info hinfo => forall₂_congr fun doc _ => ?_
  rw [count_flatMap_reloadEvents hunique hinfo rfl, count_parsed,
    count_flatMap_reloadEvents hunique hinfo rfl, count_called]
  by_cases hentry :
      getFileModifyTime (state.files info.fileName) = info.modifyTime <;>
    by_cases hdoc : (state.files info.fileName).time = doc.fileTime <;>
    cases hloads : (state.files info.fileName).loads <;>
    simp [hentry, hdoc]

/-- A reload right after another one calls nothing if it is in step. -/
theorem InStep.second_reload_silent
    {state : State} (first second : Bool)
    (hnext : InStep (reloadFile accepts first state).2.1)
    (fileName : FileName) (parseFile : Callback) :
    .called fileName parseFile ∉
      (reloadFile accepts second
        (reloadFile accepts first state).2.1).2.2 := by
  simp only [reloadFile, reloadLoop_accepts] at hnext ⊢
  intro hmem
  rcases List.mem_flatMap.mp hmem with ⟨info', hinfo', hevent⟩
  rcases List.mem_map.mp hinfo' with ⟨info, hinfo, rfl⟩
  unfold reloadEvents at hevent
  rw [reloadedInfo_fileName] at hevent
  split at hevent
  next hchanged =>
    cases hparsed : (state.files info.fileName).parsed with
    | error code => simp [hparsed] at hevent
    | ok content =>
        rw [reloadedInfo_modifyTime] at hchanged
        have hdoc :
            (reloadedInfo state.files info).sharedDoc =
              some
                { content := content
                  fileTime := (state.files info.fileName).time } := by
          unfold reloadedInfo
          rw [if_pos hchanged, hparsed]
        have hentry := (hnext _ hinfo' _ hdoc).1
        simp only [now, reloadedInfo_fileName, reloadedInfo_modifyTime,
          iff_true] at hentry
        exact hchanged hentry
  next => cases hevent

/-- In every state that a history reaches, a call of `ReloadFile` is exact if
and only if the entries are in step with their documents and the changed files
can be loaded. -/
theorem reload_exact_iff
    (files : FileName → File) (labels : List Label) (state : State)
    (hrun : run step (State.initial files) labels = some state)
    (needAbort : Bool) :
    (ReloadExact needAbort state ↔ InStep state) ∧
      (InStep (reloadFile accepts needAbort state).2.1 →
        ∀ fileName parseFile,
          .called fileName parseFile ∉
            (reloadFile accepts needAbort
              (reloadFile accepts needAbort state).2.1).2.2) := by
  have hstart : UniqueNames (State.initial files) := List.nodup_nil
  have hunique : UniqueNames state :=
    run_invariant step UniqueNames
      (fun _ _ _ hstate hstep => hstate.step hstep) hstart hrun
  refine ⟨hunique.reloadExact_iff needAbort, ?_⟩
  intro hnext fileName parseFile
  exact InStep.second_reload_silent needAbort needAbort hnext fileName
    parseFile

/-- A file that changes once after it was loaded. -/
def editedFiles : FileName → File :=
  fun _ => { time := some ⟨1, 0⟩, parsed := .ok 10 }

def editedOnce : List Label :=
  [.load 0 7, .change 0 { time := some ⟨2, 0⟩, parsed := .ok 20 }]

theorem reload_exact_iff_first_reload :
    ∃ state, run step (State.initial editedFiles) editedOnce = some state ∧
      InStep state ∧ ReloadExact false state := by
  have hin :
      ∀ state,
        run step (State.initial editedFiles) editedOnce = some state →
          InStep state := by
    intro state hrun
    cases hrun
    intro info hinfo doc hdoc
    have hone :
        info =
          { fileName := 0
            sharedDoc := some { content := 10, fileTime := some ⟨1, 0⟩ }
            modifyTime := 1
            parseFile := 7 } :=
      List.mem_singleton.mp hinfo
    subst hone
    cases hdoc
    decide
  exact ⟨_, rfl, hin _ rfl,
    (reload_exact_iff editedFiles editedOnce _ rfl false).1.mpr
      (hin _ rfl)⟩

/-- The second of two reloads after one change calls the callback again. -/
theorem second_reload_not_exact :
    ∃ state,
      run step (State.initial editedFiles)
          (editedOnce ++ [.reload false]) = some state ∧
        (reloadFile accepts false state).2.2 =
            [.parsed 0, .called 0 7] ∧
          ¬ ReloadExact false state := by
  refine ⟨_, rfl, rfl, ?_⟩
  intro hexact
  have hcalled :=
    (hexact _ (List.mem_singleton.mpr rfl) _ rfl).2
  revert hcalled
  decide

end GreenTurtle.XmlDocCache
