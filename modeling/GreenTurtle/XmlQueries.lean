import GreenTurtle.XmlDocCache
import Mathlib.Tactic

/-!
# Queries of cached documents

`ForEach` and `First` of `xml_doc_cache.h`.  A query looks up the entry of its
file and passes the selected nodes of the document to a callback.  What a query
finds depends only on the calls and changes that concern its own file, and it
is what the file held when it was last read.
-/

namespace GreenTurtle.XmlDocCache

open Execution

/-! ## The two queries -/

def State.entry (state : State) (fileName : FileName) : Option XmlDocInfo :=
  state.container.find? fun info => info.fileName == fileName

section Queries

variable {Node σ : Type} (selectNodes : ℕ → List Node)
    (callback : Node → σ → Bool × σ)

/-- The loop of `ForEach`.  The callback may remember what it was given. -/
def visitNodes : List Node → σ → Bool × σ
  | [], memory => (true, memory)
  | node :: rest, memory =>
      match callback node memory with
      | (true, after) => visitNodes rest after
      | (false, after) => (false, after)

def visitFirst : List Node → σ → Bool × σ
  | [], memory => (true, memory)
  | node :: _, memory =>
      match callback node memory with
      | (true, after) => (true, after)
      | (false, after) => (false, after)

/-- What both queries share.  There is no result when the document has been
released, because the source then follows a null pointer. -/
def queryFile
    (walk : List Node → σ → Bool × σ) (fileName : FileName) (state : State)
    (memory : σ) : Option (Bool × σ) :=
  match state.entry fileName with
  | none => some (false, memory)
  | some info =>
      match info.sharedDoc with
      | none => none
      | some doc => some (walk (selectNodes doc.content) memory)

def forEach :
    FileName → State → σ → Option (Bool × σ) :=
  queryFile selectNodes (visitNodes callback)

def first :
    FileName → State → σ → Option (Bool × σ) :=
  queryFile selectNodes (visitFirst callback)

end Queries

/-! ## The entry of one file -/

variable {state next : State} {fileName : FileName} {info : XmlDocInfo}

theorem State.fileName_of_entry (hentry : state.entry fileName = some info) :
    info.fileName = fileName := by
  have hname := List.find?_some hentry
  exact beq_iff_eq.mp hname

/-- Names are unique, so that the order of the entries does not matter. -/
theorem UniqueNames.entry_eq_some_iff (hunique : UniqueNames state) :
    state.entry fileName = some info ↔
      info ∈ state.container ∧ info.fileName = fileName := by
  constructor
  · intro hentry
    exact ⟨List.mem_of_find?_eq_some hentry, state.fileName_of_entry hentry⟩
  · rintro ⟨hmem, rfl⟩
    cases hfound : state.entry info.fileName with
    | none =>
        have hnone := List.find?_eq_none.mp hfound info hmem
        simp at hnone
    | some found =>
        have hsame : found.fileName = info.fileName :=
          state.fileName_of_entry hfound
        rw [List.inj_on_of_nodup_map hunique
          (List.mem_of_find?_eq_some hfound) hmem hsame]

theorem UniqueNames.entry_eq_of_perm
    (hunique : UniqueNames state) (hnext : UniqueNames next)
    (hperm : next.container.Perm state.container) :
    next.entry fileName = state.entry fileName := by
  apply Option.ext
  intro info
  rw [hnext.entry_eq_some_iff, hunique.entry_eq_some_iff, hperm.mem_iff]

theorem find?_map_infos
    (container : List XmlDocInfo) (change : XmlDocInfo → XmlDocInfo)
    (hchange : ∀ info, (change info).fileName = info.fileName) :
    ((container.map change).find? fun info => info.fileName == fileName) =
      (container.find? fun info => info.fileName == fileName).map change := by
  rw [List.find?_map]
  congr 2
  funext info
  simp only [Function.comp_apply, hchange]

/-- The entry that `LoadFile` makes of a file. -/
def loadedEntry
    (file : File) (fileName : FileName) (parseFile : Callback) :
    Option XmlDocInfo :=
  match file.parsed with
  | .ok content =>
      some
        { fileName := fileName
          sharedDoc :=
            some
              { content := content, fileTime := file.time }
          modifyTime := getFileModifyTime file
          parseFile := parseFile }
  | .error _ => none

theorem State.any_fileName (state : State) (other : FileName) :
    (state.container.any fun info => info.fileName == other) =
      (state.entry other).isSome := by
  rw [State.entry, List.isSome_find?]

/-- A load puts the entry of the file in front unless there is one. -/
theorem state_loadFile (other : FileName) (parseFile : Callback) :
    (loadFile accepts other parseFile state).2.1 =
      { state with
        container :=
          if (state.entry other).isSome then state.container
          else
            (loadedEntry (state.files other) other parseFile).toList ++
              state.container } := by
  unfold loadFile
  rw [state.any_fileName]
  cases (state.entry other).isSome with
  | true => rfl
  | false =>
      cases hparsed : (state.files other).parsed with
      | ok content => simp [accepts, loadedEntry, hparsed]
      | error code => simp [loadedEntry, hparsed]

theorem fileName_of_loadedEntry
    {file : File} {parseFile : Callback}
    (hloaded : loadedEntry file fileName parseFile = some info) :
    info.fileName = fileName := by
  unfold loadedEntry at hloaded
  split at hloaded
  next =>
    obtain rfl := Option.some.inj hloaded
    rfl
  next => cases hloaded

theorem entry_loadFile (parseFile : Callback) :
    (loadFile accepts fileName parseFile state).2.1.entry fileName =
      (state.entry fileName).or
        (loadedEntry (state.files fileName) fileName parseFile) := by
  rw [state_loadFile]
  cases hentry : state.entry fileName with
  | some info => exact hentry
  | none =>
      rw [State.entry] at hentry ⊢
      simp only [Option.isSome_none, Bool.false_eq_true, if_false,
        List.find?_append, hentry, Option.or_none, Option.none_or]
      cases hloaded :
          loadedEntry (state.files fileName) fileName parseFile with
      | none => rfl
      | some info =>
          simp [fileName_of_loadedEntry hloaded]

theorem entry_loadFile_of_ne
    {other : FileName} (hne : other ≠ fileName) (parseFile : Callback) :
    (loadFile accepts other parseFile state).2.1.entry fileName =
      state.entry fileName := by
  rw [state_loadFile]
  cases hentry : (state.entry other).isSome with
  | true => rfl
  | false =>
      have hskip :
          ((loadedEntry (state.files other) other parseFile).toList.find?
            fun info => info.fileName == fileName) = none := by
        rw [List.find?_eq_none]
        intro info hmem
        rw [fileName_of_loadedEntry (Option.mem_toList.mp hmem), beq_iff_eq]
        exact hne
      simp only [State.entry, Bool.false_eq_true, if_false,
        List.find?_append, hskip, Option.none_or]

theorem entry_reloadFile (needAbort : Bool) :
    (reloadFile accepts needAbort state).2.1.entry fileName =
      (state.entry fileName).map (reloadedInfo state.files) := by
  simp only [reloadFile, reloadLoop_accepts, State.entry]
  exact find?_map_infos _ _ (reloadedInfo_fileName state.files)

theorem entry_loadComplete :
    (loadComplete state).entry fileName =
      (state.entry fileName).map fun info =>
        { info with sharedDoc := none } :=
  find?_map_infos _ _ fun _ => rfl

theorem entry_clearFile : (clearFile fileName state).entry fileName = none := by
  rw [State.entry, List.find?_eq_none]
  intro info hmem
  have hkept := (List.mem_filter.mp hmem).2
  simpa using hkept

theorem entry_clearFile_of_ne {other : FileName} (hne : other ≠ fileName) :
    (clearFile other state).entry fileName = state.entry fileName := by
  rw [State.entry, State.entry, clearFile, List.find?_filter]
  congr 1
  funext info
  by_cases hname : info.fileName = fileName
  · simp [hname, hne.symm]
  · simp [hname]

theorem reloadedInfo_congr
    {files others : FileName → File}
    (hsame : files info.fileName = others info.fileName) :
    reloadedInfo files info = reloadedInfo others info := by
  unfold reloadedInfo
  rw [hsame]

/-! ## Files do not influence each other -/

/-- What is called or changed for a file: calls for the whole cache, and those
for the file itself. -/
def Label.concerns (fileName : FileName) : Label → Bool
  | .load other _ => other == fileName
  | .reload _ => true
  | .clear => true
  | .clearFile other => other == fileName
  | .loadComplete => true
  | .change other _ => other == fileName
  | .rearrange _ => false

/-- The cache with all files and a cache in which only one of them is used. -/
structure AgreeOn (fileName : FileName) (state alone : State) : Prop where
  file : alone.files fileName = state.files fileName
  entry : alone.entry fileName = state.entry fileName
  only : ∀ info ∈ alone.container, info.fileName = fileName

variable {alone : State} {label : Label}

theorem AgreeOn.of_not_concerns
    (hagree : AgreeOn fileName state alone) (hunique : UniqueNames state)
    (hconcerns : label.concerns fileName = false)
    (hstep : step state label = some next) :
    AgreeOn fileName next alone := by
  have hnext := hunique.step hstep
  cases label with
  | load other parseFile =>
      obtain rfl := Option.some.inj hstep
      have hne : other ≠ fileName := beq_eq_false_iff_ne.mp hconcerns
      refine ⟨?_, ?_, hagree.only⟩
      · rw [state_loadFile, hagree.file]
      · rw [entry_loadFile_of_ne hne, hagree.entry]
  | reload needAbort => cases hconcerns
  | clear => cases hconcerns
  | clearFile other =>
      obtain rfl := Option.some.inj hstep
      have hne : other ≠ fileName := beq_eq_false_iff_ne.mp hconcerns
      refine ⟨hagree.file, ?_, hagree.only⟩
      rw [entry_clearFile_of_ne hne, hagree.entry]
  | loadComplete => cases hconcerns
  | change other file =>
      obtain rfl := Option.some.inj hstep
      have hne : other ≠ fileName := beq_eq_false_iff_ne.mp hconcerns
      refine ⟨?_, hagree.entry, hagree.only⟩
      exact hagree.file.trans (Function.update_of_ne hne.symm _ _).symm
  | rearrange container =>
      simp only [step] at hstep
      split at hstep
      next hperm =>
        obtain rfl := Option.some.inj hstep
        refine ⟨hagree.file, ?_, hagree.only⟩
        rw [hagree.entry]
        exact (hunique.entry_eq_of_perm hnext hperm).symm
      next => cases hstep

theorem only_loadFile
    (honly : ∀ info ∈ alone.container, info.fileName = fileName)
    (parseFile : Callback) :
    ∀ info ∈ (loadFile accepts fileName parseFile alone).2.1.container,
      info.fileName = fileName := by
  intro info hmem
  rw [state_loadFile] at hmem
  dsimp only at hmem
  split at hmem
  next => exact honly info hmem
  next =>
    rcases List.mem_append.mp hmem with hnew | hold
    · exact fileName_of_loadedEntry (Option.mem_toList.mp hnew)
    · exact honly info hold

theorem only_map
    (honly : ∀ info ∈ alone.container, info.fileName = fileName)
    (change : XmlDocInfo → XmlDocInfo)
    (hchange : ∀ info, (change info).fileName = info.fileName) :
    ∀ info ∈ alone.container.map change, info.fileName = fileName := by
  rw [List.forall_mem_map]
  intro info hmem
  rw [hchange, honly info hmem]

/-- A label that concerns the file is possible in both, with the same effect on
the entry. -/
theorem AgreeOn.of_concerns
    (hagree : AgreeOn fileName state alone)
    (hconcerns : label.concerns fileName = true)
    (hstep : step state label = some next) :
    ∃ after, step alone label = some after ∧
      AgreeOn fileName next after := by
  cases label with
  | load other parseFile =>
      obtain rfl := Option.some.inj hstep
      obtain rfl : other = fileName := beq_iff_eq.mp hconcerns
      refine ⟨_, rfl, ?_, ?_, only_loadFile hagree.only parseFile⟩
      · rw [state_loadFile, state_loadFile, hagree.file]
      · rw [entry_loadFile, entry_loadFile, hagree.entry, hagree.file]
  | reload needAbort =>
      obtain rfl := Option.some.inj hstep
      refine ⟨_, rfl, hagree.file, ?_, ?_⟩
      · rw [entry_reloadFile, entry_reloadFile, hagree.entry]
        apply Option.map_congr
        intro info hentry
        apply reloadedInfo_congr
        rw [state.fileName_of_entry hentry, hagree.file]
      · simp only [reloadFile, reloadLoop_accepts]
        exact only_map hagree.only _ (reloadedInfo_fileName alone.files)
  | clear =>
      obtain rfl := Option.some.inj hstep
      exact ⟨_, rfl, hagree.file, rfl, fun _ hmem => by cases hmem⟩
  | clearFile other =>
      obtain rfl := Option.some.inj hstep
      obtain rfl : other = fileName := beq_iff_eq.mp hconcerns
      refine ⟨_, rfl, hagree.file, ?_, ?_⟩
      · rw [entry_clearFile, entry_clearFile]
      · intro info hmem
        exact hagree.only info (List.mem_filter.mp hmem).1
  | loadComplete =>
      obtain rfl := Option.some.inj hstep
      refine ⟨_, rfl, hagree.file, ?_, ?_⟩
      · rw [entry_loadComplete, entry_loadComplete, hagree.entry]
      · exact only_map hagree.only _ fun _ => rfl
  | change other file =>
      obtain rfl := Option.some.inj hstep
      obtain rfl : other = fileName := beq_iff_eq.mp hconcerns
      refine ⟨_, rfl, ?_, hagree.entry, hagree.only⟩
      simp only [Function.update_self]
  | rearrange container => cases hconcerns

theorem uniqueNames_of_run
    {files : FileName → File} {labels : List Label}
    (hrun : run step (.initial files) labels = some state) :
    UniqueNames state := by
  have hfirst : UniqueNames (.initial files) := List.nodup_nil
  refine run_invariant step UniqueNames ?_ hfirst hrun
  intro earlier label later hunique hstep
  exact hunique.step hstep

theorem AgreeOn.of_run
    {files : FileName → File} {labels : List Label}
    (fileName : FileName)
    (hrun : run step (.initial files) labels = some state) :
    ∃ alone,
      run step (.initial files) (labels.filter (·.concerns fileName)) =
          some alone ∧
        AgreeOn fileName state alone := by
  refine run_history step
    (fun past state =>
      ∃ alone,
        run step (.initial files) (past.filter (·.concerns fileName)) =
            some alone ∧
          AgreeOn fileName state alone)
    ?_ ⟨_, rfl, rfl, rfl, fun _ hmem => by cases hmem⟩ hrun
  intro past earlier label later hpast hbefore hstep
  obtain ⟨alone, halone, hagree⟩ := hbefore
  rw [List.filter_append]
  cases hconcerns : label.concerns fileName with
  | true =>
      obtain ⟨after, hafter, hkept⟩ := hagree.of_concerns hconcerns hstep
      refine ⟨after, ?_, hkept⟩
      rw [run_append step halone, List.filter_singleton, hconcerns]
      simp only [cond_true, run, hafter]
  | false =>
      refine ⟨alone, ?_, ?_⟩
      · rw [List.filter_singleton, hconcerns, cond_false, List.append_nil,
          halone]
      · exact hagree.of_not_concerns (uniqueNames_of_run hpast) hconcerns
          hstep

/-- Leave out of any run all that does not concern a file: the rest is a run as
well, its cache holds nothing else, and at its end every query of the file has
the same result and the same effect on what the callback remembers. -/
theorem queries_follow_own_file
    {files : FileName → File} {labels : List Label} {final : State}
    (hrun : run step (.initial files) labels = some final)
    (fileName : FileName) :
    ∃ alone,
      run step (.initial files) (labels.filter (·.concerns fileName)) =
          some alone ∧
        (∀ info ∈ alone.container, info.fileName = fileName) ∧
        ∀ (Node σ : Type) (selectNodes : ℕ → List Node)
          (callback : Node → σ → Bool × σ) (memory : σ),
          forEach selectNodes callback fileName final memory =
              forEach selectNodes callback fileName alone memory ∧
            first selectNodes callback fileName final memory =
              first selectNodes callback fileName alone memory := by
  obtain ⟨alone, halone, hagree⟩ := AgreeOn.of_run fileName hrun
  refine ⟨alone, halone, hagree.only, ?_⟩
  intro Node σ selectNodes callback memory
  constructor
  · rw [forEach, queryFile, queryFile, hagree.entry]
  · rw [first, queryFile, queryFile, hagree.entry]

/-- Two files are loaded and changed, and one of them is read again before the
other is forgotten. -/
def twoFilesUsed : List Label :=
  [.load 0 7, .load 1 8, .change 1 { time := some ⟨2, 0⟩, parsed := .ok 30 },
    .change 0 { time := some ⟨2, 0⟩, parsed := .ok 20 }, .reload false,
    .clearFile 1]

def collect (node : ℕ) (seen : List ℕ) : Bool × List ℕ :=
  (true, node :: seen)

theorem queries_follow_own_file_two_used :
    ∃ final alone,
      run step (.initial editedFiles) twoFilesUsed = some final ∧
        run step (.initial editedFiles) (editedOnce ++ [.reload false]) =
            some alone ∧
          forEach List.range collect 0 final [] =
            forEach List.range collect 0 alone [] := by
  obtain ⟨alone, halone, -, hsame⟩ :=
    @queries_follow_own_file editedFiles twoFilesUsed _ rfl 0
  exact ⟨_, alone, rfl, halone, (hsame ℕ (List ℕ) List.range collect []).1⟩

/-! ## What a query finds -/

/-- What a call does, besides changing the cache. -/
def Label.events (state : State) : Label → List Event
  | .load fileName parseFile =>
      (loadFile accepts fileName parseFile state).2.2
  | .reload needAbort => (reloadFile accepts needAbort state).2.2
  | _ => []

def Label.releases (fileName : FileName) : Label → Bool
  | .clear => true
  | .clearFile other => other == fileName
  | .loadComplete => true
  | _ => false

/-- The document of a file is neither released nor read again. -/
def Leaves (fileName : FileName) (state : State) (label : Label) : Prop :=
  label.releases fileName = false ∧
    (.parsed fileName ∈ label.events state →
      (state.files fileName).loads = false)

/-- A load reads the file unless it is cached. -/
theorem parsed_mem_loadFile_iff (other : FileName) (parseFile : Callback) :
    .parsed fileName ∈ (loadFile accepts other parseFile state).2.2 ↔
      other = fileName ∧ state.entry fileName = none := by
  unfold loadFile
  rw [state.any_fileName]
  cases hentry : state.entry other with
  | some info =>
      refine iff_of_false List.not_mem_nil ?_
      rintro ⟨rfl, hnone⟩
      rw [hentry] at hnone
      cases hnone
  | none =>
      have hread : fileName = other ↔
          other = fileName ∧ state.entry fileName = none := by
        constructor
        · rintro rfl
          exact ⟨rfl, hentry⟩
        · intro hsame
          exact hsame.1.symm
      cases (state.files other).parsed with
      | ok content => simpa [accepts] using hread
      | error code => simpa using hread

/-- A reload reads a cached file when its time stamp is another one. -/
theorem UniqueNames.parsed_mem_reloadFile_iff
    (hunique : UniqueNames state)
    (hentry : state.entry fileName = some info) (needAbort : Bool) :
    .parsed fileName ∈ (reloadFile accepts needAbort state).2.2 ↔
      getFileModifyTime (state.files fileName) ≠ info.modifyTime := by
  obtain ⟨hmem, rfl⟩ := hunique.entry_eq_some_iff.mp hentry
  simp only [reloadFile, reloadLoop_accepts]
  rw [← List.count_pos_iff, count_flatMap_reloadEvents hunique hmem rfl,
    count_parsed]
  split
  next hchanged => exact iff_of_true Nat.one_pos hchanged
  next hsame => exact iff_of_false (lt_irrefl 0) hsame

theorem content_of_loadedEntry
    {file : File} {parseFile : Callback} {doc : Document}
    (hentry : loadedEntry file fileName parseFile = some info)
    (hdoc : info.sharedDoc = some doc) : file.parsed = .ok doc.content := by
  unfold loadedEntry at hentry
  split at hentry
  next content hparsed =>
    obtain rfl := Option.some.inj hentry
    obtain rfl := Option.some.inj hdoc
    exact hparsed
  next => cases hentry

theorem reloadedInfo_cases (files : FileName → File) (info : XmlDocInfo) :
    (reloadedInfo files info = info ∧
        (getFileModifyTime (files info.fileName) ≠ info.modifyTime →
          (files info.fileName).loads = false)) ∨
      getFileModifyTime (files info.fileName) ≠ info.modifyTime ∧
        ∃ doc, (reloadedInfo files info).sharedDoc = some doc ∧
          (files info.fileName).parsed = .ok doc.content := by
  unfold reloadedInfo
  split
  next hchanged =>
    split
    next content hparsed => exact Or.inr ⟨hchanged, _, rfl, hparsed⟩
    next code hparsed =>
      refine Or.inl ⟨rfl, fun _ => ?_⟩
      rw [File.loads, hparsed]
  next hsame => exact Or.inl ⟨rfl, fun hchanged => absurd hchanged hsame⟩

/-- A document after a step was there before, or the step has read it. -/
theorem document_of_step
    {doc : Document} (hunique : UniqueNames state)
    (hstep : step state label = some next)
    (hentry : next.entry fileName = some info)
    (hdoc : info.sharedDoc = some doc) :
    (state.entry fileName = some info ∧ Leaves fileName state label) ∨
      (.parsed fileName ∈ label.events state ∧
        (state.files fileName).parsed = .ok doc.content) := by
  have hnext := hunique.step hstep
  cases label with
  | load other parseFile =>
      obtain rfl := Option.some.inj hstep
      have hcached :
          state.entry fileName = some info →
            Leaves fileName state (.load other parseFile) := by
        intro hold
        refine ⟨rfl, fun hparsed => ?_⟩
        have hnone := ((parsed_mem_loadFile_iff other parseFile).mp hparsed).2
        rw [hold] at hnone
        cases hnone
      by_cases hname : other = fileName
      · obtain rfl := hname
        rw [entry_loadFile, Option.or_eq_some_iff] at hentry
        rcases hentry with hold | ⟨hnone, hnew⟩
        · exact Or.inl ⟨hold, hcached hold⟩
        · exact Or.inr
            ⟨(parsed_mem_loadFile_iff other parseFile).mpr ⟨rfl, hnone⟩,
              content_of_loadedEntry hnew hdoc⟩
      · rw [entry_loadFile_of_ne hname] at hentry
        exact Or.inl ⟨hentry, hcached hentry⟩
  | reload needAbort =>
      obtain rfl := Option.some.inj hstep
      rw [entry_reloadFile, Option.map_eq_some_iff] at hentry
      obtain ⟨old, hold, rfl⟩ := hentry
      have hparsed_iff := hunique.parsed_mem_reloadFile_iff hold needAbort
      have hcases := reloadedInfo_cases state.files old
      rw [state.fileName_of_entry hold] at hcases
      rcases hcases with ⟨hkept, hfailed⟩ | ⟨hchanged, read, hshared, hread⟩
      · rw [hkept]
        exact Or.inl
          ⟨hold, rfl, fun hparsed => hfailed (hparsed_iff.mp hparsed)⟩
      · obtain rfl : read = doc := Option.some.inj (hshared.symm.trans hdoc)
        exact Or.inr ⟨hparsed_iff.mpr hchanged, hread⟩
  | clear =>
      obtain rfl := Option.some.inj hstep
      cases hentry
  | clearFile other =>
      obtain rfl := Option.some.inj hstep
      by_cases hname : other = fileName
      · obtain rfl := hname
        rw [entry_clearFile] at hentry
        cases hentry
      · rw [entry_clearFile_of_ne hname] at hentry
        exact Or.inl ⟨hentry, beq_eq_false_iff_ne.mpr hname,
          fun hparsed => by cases hparsed⟩
  | loadComplete =>
      obtain rfl := Option.some.inj hstep
      rw [entry_loadComplete, Option.map_eq_some_iff] at hentry
      obtain ⟨old, -, rfl⟩ := hentry
      cases hdoc
  | change other file =>
      obtain rfl := Option.some.inj hstep
      exact Or.inl ⟨hentry, rfl, fun hparsed => by cases hparsed⟩
  | rearrange container =>
      simp only [step] at hstep
      split at hstep
      next hperm =>
        obtain rfl := Option.some.inj hstep
        rw [hunique.entry_eq_of_perm hnext hperm] at hentry
        exact Or.inl ⟨hentry, rfl, fun hparsed => by cases hparsed⟩
      next => cases hstep

/-- The file held this content when it was last read: a call has read it, and
no call since has released the document or has got another one from the
file. -/
def LastRead
    (files : FileName → File) (labels : List Label) (fileName : FileName)
    (content : ℕ) : Prop :=
  ∃ before reader after earlier later,
    labels = before ++ reader :: after ∧
      run step (.initial files) before = some earlier ∧
        step earlier reader = some later ∧
          .parsed fileName ∈ reader.events earlier ∧
            (earlier.files fileName).parsed = .ok content ∧
              EachStep step (Leaves fileName) later after

theorem LastRead.snoc
    {files : FileName → File} {past : List Label} {content : ℕ}
    (hlast : LastRead files past fileName content)
    (hpast : run step (.initial files) past = some state)
    (hleaves : Leaves fileName state label) :
    LastRead files (past ++ [label]) fileName content := by
  obtain ⟨before, reader, after, earlier, later, rfl, hbefore, hreader,
    hread, hparsed, hkept⟩ := hlast
  have hafter : run step later after = some state := by
    rw [run_append step hbefore] at hpast
    simpa only [run, hreader] using hpast
  refine ⟨before, reader, after ++ [label], earlier, later, ?_, hbefore,
    hreader, hread, hparsed, ?_⟩
  · rw [List.append_assoc, List.cons_append]
  · exact hkept.append step hafter (EachStep.singleton step hleaves)

theorem lastRead_of_run
    {files : FileName → File} {labels : List Label}
    (hrun : run step (.initial files) labels = some state) {doc : Document}
    (hentry : state.entry fileName = some info)
    (hdoc : info.sharedDoc = some doc) :
    LastRead files labels fileName doc.content := by
  revert info doc
  refine run_history step
    (fun past state =>
      ∀ {info : XmlDocInfo} {doc : Document},
        state.entry fileName = some info → info.sharedDoc = some doc →
          LastRead files past fileName doc.content)
    ?_ (fun hentry => by cases hentry) hrun
  intro past earlier label later hpast hbefore hstep info doc hentry hdoc
  rcases document_of_step (uniqueNames_of_run hpast) hstep hentry hdoc with
    ⟨hold, hleaves⟩ | ⟨hread, hparsed⟩
  · exact (hbefore hold hdoc).snoc hpast hleaves
  · exact ⟨past, label, [], earlier, later, rfl, hpast, hstep, hread,
      hparsed, trivial⟩

/-- Whatever has been called and changed, a query that returns has either found
no entry, and then the callback was not called, or it has walked over the nodes
of what the file held when it was last read. -/
theorem queries_show_last_read
    {files : FileName → File} {labels : List Label} {final : State}
    (hrun : run step (.initial files) labels = some final)
    {Node σ : Type} {selectNodes : ℕ → List Node}
    {walk : List Node → σ → Bool × σ} {fileName : FileName} {memory : σ}
    {result : Bool × σ}
    (hquery :
      queryFile selectNodes walk fileName final memory = some result) :
    (final.entry fileName = none ∧ result = (false, memory)) ∨
      ∃ info content,
        final.entry fileName = some info ∧
          LastRead files labels fileName content ∧
            result = walk (selectNodes content) memory := by
  unfold queryFile at hquery
  split at hquery
  next hnone => exact Or.inl ⟨hnone, (Option.some.inj hquery).symm⟩
  next info hentry =>
    split at hquery
    next => cases hquery
    next doc hdoc =>
      exact Or.inr ⟨info, doc.content, hentry,
        lastRead_of_run hrun hentry hdoc, (Option.some.inj hquery).symm⟩

theorem queries_show_last_read_edited :
    ∃ final content,
      run step (.initial editedFiles) twoFilesUsed = some final ∧
        forEach (fun content => [content]) collect 0 final [] =
            some (true, [20]) ∧
          LastRead editedFiles twoFilesUsed 0 content ∧
            (true, [20]) = visitNodes collect [content] [] := by
  rcases @queries_show_last_read editedFiles twoFilesUsed _ rfl ℕ (List ℕ)
      (fun content => [content]) (visitNodes collect) 0 [] (true, [20]) rfl
    with ⟨hnone, -⟩ | ⟨-, content, -, hlast, hresult⟩
  · cases hnone
  · exact ⟨_, content, rfl, rfl, hlast, hresult⟩

end GreenTurtle.XmlDocCache
