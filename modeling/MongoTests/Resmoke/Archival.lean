import Mathlib.Algebra.BigOperators.Group.List.Basic
import Mathlib.Data.List.ReduceOption
import MongoTests.Lib.Lock
import MongoTests.Lib.Machine

/-!
# Archival

`Archival` of `resmokelib/utils/archival.py`. The jobs ask for archives of their data files, one at a
time under a lock; a worker uploads the archives, and a second one writes the names of the uploaded
ones to a JSON file. The workers are fed by queues and stop at a sentinel. The environment answers for
the file system and for S3.

* `Jobs`, `jobStep`: `archive_files_to_s3`; `Pipeline`, `uploaderStep`, `recorderStep`: the workers.
* `step`: one step of a job, of `exit` or of a worker.
* `JobsInv`: the counters and the limits; `PipelineInv`: where each archive is.
* **`archival_limits`**: the limits, and the JSON file when the workers have stopped.
-/

namespace MongoTests.Resmoke.Archival

open MongoTests.Lib

/-! ## The jobs -/

/-- The arguments of `Archival`; a limit of `0` is none. -/
structure Config where
  archivalJsonFile : String
  limitSizeMb : ℤ
  limitFiles : ℤ
  deriving DecidableEq, Repr

/-- The arguments of `archive_files_to_s3`. A single name is the list of it, and an empty name is no
file. -/
structure Request where
  displayName : String
  inputFiles : List String
  s3Bucket : String
  s3Path : String
  deriving DecidableEq, Repr

structure UploadArgs where
  archivalFile : String
  displayName : String
  localFile : String
  contentType : String
  s3Bucket : String
  s3Path : String
  deleteFile : Bool
  deriving DecidableEq, Repr

/-- What comes of the temporary file and `tarfile`. -/
inductive TarResult
  /-- The archive, its size in bytes, and the message with the files that could not be added. -/
  | created (localFile message : String) (bytes : ℕ)
  /-- There is not enough space, or the archive cannot be created. -/
  | failed (message : String)
  /-- An exception that is not caught. -/
  | raised (e : String)
  deriving DecidableEq, Repr

structure Response where
  status : ℕ
  message : String
  deriving DecidableEq, Repr

/-- The size in megabytes, rounded up. -/
def megabytes (bytes : ℕ) : ℕ := (bytes + (1024 * 1024 - 1)) / (1024 * 1024)

/-- An archive that was created. -/
structure Archive where
  args : UploadArgs
  sizeMb : ℕ
  deriving DecidableEq, Repr

/-- Where a thread is in `archive_files_to_s3`: outside, before the lock, at the checks, at
`_archive_files`, at the updates of the counters, or about to leave the lock. -/
inductive Pc
  | idle
  | acquire (request : Request)
  | check (request : Request)
  | archive (request : Request)
  | countFile (response : Response) (fileSizeMb : ℕ)
  | addSize (response : Response) (fileSizeMb : ℕ)
  | release (result : Except String Response)
  | returned (result : Except String Response)

/-- What the calls share, without the time that they take. -/
structure Jobs (ι : Type) where
  lock : Option ι
  sizeMb : ℕ
  numFiles : ℕ
  pc : ι → Pc
  /-- The archives that were created, in order. -/
  created : List Archive

inductive JobAct
  | request (request : Request)
  | tar (result : TarResult)
  | next
  deriving DecidableEq, Repr

section JobStep

variable {ι : Type} [DecidableEq ι] (cfg : Config)

/-- The message with which a request is refused. -/
def refusal (sizeMb numFiles : ℕ) (request : Request) : Option String :=
  if request.inputFiles = [] then some "No input_files specified"
  else if cfg.limitSizeMb ≠ 0 ∧ sizeMb ≥ cfg.limitSizeMb then
    some ("Files not archived, " ++ toString cfg.limitSizeMb ++ "MB size limit reached")
  else if cfg.limitFiles ≠ 0 ∧ numFiles ≥ cfg.limitFiles then
    some ("Files not archived, " ++ toString cfg.limitFiles ++ " file limit reached")
  else none

def uploadArgs (request : Request) (localFile : String) : UploadArgs where
  archivalFile := cfg.archivalJsonFile
  displayName := request.displayName
  localFile := localFile
  contentType := "application/x-gzip"
  s3Bucket := request.s3Bucket
  s3Path := request.s3Path
  deleteFile := true

def Jobs.goto (s : Jobs ι) (i : ι) (p : Pc) : Jobs ι := { s with pc := Function.update s.pc i p }

/-- One step of thread `i`, with what it puts in the upload queue. -/
def jobStep (s : Jobs ι) (i : ι) (a : JobAct) : Option (Jobs ι × Option UploadArgs) :=
  match s.pc i, a with
  | .idle, .request request | .returned _, .request request =>
    some (s.goto i (.acquire request), none)
  | .acquire request, .next =>
    if s.lock.isNone then some ({ s.goto i (.check request) with lock := some i }, none) else none
  | .check request, .next =>
    match refusal cfg s.sizeMb s.numFiles request with
    | some message => some (s.goto i (.release (.ok ⟨1, message⟩)), none)
    | none => some (s.goto i (.archive request), none)
  | .archive request, .tar (.created localFile message bytes) =>
    let args := uploadArgs cfg request localFile
    some ({ s.goto i (.countFile ⟨0, message⟩ (megabytes bytes)) with
      created := s.created ++ [⟨args, megabytes bytes⟩] }, some args)
  | .archive _, .tar (.failed message) => some (s.goto i (.addSize ⟨1, message⟩ 0), none)
  | .archive _, .tar (.raised e) => some (s.goto i (.release (.error e)), none)
  | .countFile response fileSizeMb, .next =>
    some ({ s.goto i (.addSize response fileSizeMb) with numFiles := s.numFiles + 1 }, none)
  | .addSize response fileSizeMb, .next =>
    some ({ s.goto i (.release (.ok response)) with sizeMb := s.sizeMb + fileSizeMb }, none)
  | .release result, .next => some ({ s.goto i (.returned result) with lock := none }, none)
  | _, _ => none

end JobStep

/-! ## The workers -/

structure ArchiveArgs where
  archivalFile : String
  displayName : String
  remoteFile : String
  deriving DecidableEq, Repr

structure ArchivalRecord where
  name : String
  link : String
  visibility : String
  deriving DecidableEq, Repr

def archiveArgs (args : UploadArgs) : ArchiveArgs where
  archivalFile := args.archivalFile
  displayName := args.displayName
  remoteFile := "https://s3.amazonaws.com/" ++ args.s3Bucket ++ "/" ++ args.s3Path

def archivalRecord (args : ArchiveArgs) : ArchivalRecord where
  name := args.displayName
  link := args.remoteFile
  visibility := "private"

/-- Where `_upload_to_s3_wkr` is. It removes the local file before it goes on. -/
inductive Uploader
  | get
  | upload (args : UploadArgs)
  | forward (args : UploadArgs) (uploadCompleted : Bool)
  /-- It has received the sentinel. -/
  | stop
  | terminated
  deriving DecidableEq, Repr

/-- Where `_update_archive_file_wkr` is. -/
inductive Recorder
  | get
  | append (args : ArchiveArgs)
  | write (archivalFile : String)
  | terminated
  deriving DecidableEq, Repr

/-- The queues, with `None` as the sentinel, and the workers. -/
structure Pipeline where
  uploadQueue : List (Option UploadArgs)
  uploader : Uploader
  /-- The uploads that were tried, in order, and whether they succeeded. -/
  uploads : List (UploadArgs × Bool)
  archiveFileQueue : List (Option ArchiveArgs)
  recorder : Recorder
  archivalJson : List ArchivalRecord
  /-- The JSON files. -/
  files : String → Option (List ArchivalRecord)

/-- One step of the upload worker. S3 answers whether an upload is completed. -/
def uploaderStep (p : Pipeline) (uploadCompleted : Bool) : Option Pipeline :=
  match p.uploader with
  | .get =>
    match p.uploadQueue with
    | [] => none
    | none :: rest => some { p with uploadQueue := rest, uploader := .stop }
    | some args :: rest => some { p with uploadQueue := rest, uploader := .upload args }
  | .upload args => some { p with
      uploads := p.uploads ++ [(args, uploadCompleted)]
      uploader := .forward args uploadCompleted }
  | .forward args true => some { p with
      archiveFileQueue := p.archiveFileQueue ++ [some (archiveArgs args)], uploader := .get }
  | .forward _ false => some { p with uploader := .get }
  | .stop => some { p with
      archiveFileQueue := p.archiveFileQueue ++ [none], uploader := .terminated }
  | .terminated => none

/-- One step of the worker of the JSON file, which writes the whole list each time. -/
def recorderStep (p : Pipeline) : Option Pipeline :=
  match p.recorder with
  | .get =>
    match p.archiveFileQueue with
    | [] => none
    | none :: rest => some { p with archiveFileQueue := rest, recorder := .terminated }
    | some args :: rest => some { p with archiveFileQueue := rest, recorder := .append args }
  | .append args => some { p with
      archivalJson := p.archivalJson ++ [archivalRecord args]
      recorder := .write args.archivalFile }
  | .write archivalFile => some { p with
      files := Function.update p.files archivalFile (some p.archivalJson), recorder := .get }
  | .terminated => none

/-- `Queue.put` of the upload queue. -/
def Pipeline.put (p : Pipeline) (args : Option UploadArgs) : Pipeline :=
  { p with uploadQueue := p.uploadQueue ++ [args] }

/-! ## Runs -/

structure State (ι : Type) where
  jobs : Jobs ι
  pipeline : Pipeline

/-- A step of a job, the sentinel of `exit`, or a step of a worker. -/
inductive Label (ι : Type)
  | job (i : ι) (a : JobAct)
  | exit
  | uploader (uploadCompleted : Bool)
  | recorder

def step {ι : Type} [DecidableEq ι] (cfg : Config) (s : State ι) : Label ι → Option (State ι)
  | .job i a => (jobStep cfg s.jobs i a).map fun x =>
    match x with
    | (jobs, none) => { s with jobs }
    | (jobs, some args) => { jobs, pipeline := s.pipeline.put (some args) }
  | .exit => some { s with pipeline := s.pipeline.put none }
  | .uploader uploadCompleted =>
    (uploaderStep s.pipeline uploadCompleted).map fun pipeline => { s with pipeline }
  | .recorder => (recorderStep s.pipeline).map fun pipeline => { s with pipeline }

/-- A new `Archival`, with the JSON files that there are. -/
def initial (ι : Type) (files : String → Option (List ArchivalRecord)) : State ι where
  jobs := ⟨none, 0, 0, fun _ => .idle, []⟩
  pipeline := ⟨[], .get, [], [], .get, [], files⟩

/-! ## The limits -/

/-- The thread is in the lock. -/
def Pc.Critical : Pc → Prop
  | .check _ | .archive _ | .countFile _ _ | .addSize _ _ | .release _ => True
  | _ => False

/-- The archives that a thread has created and not yet counted. -/
def Pc.pendingFiles : Pc → ℕ
  | .countFile _ _ => 1
  | _ => 0

/-- The megabytes that a thread has not yet added. -/
def Pc.pendingSize : Pc → ℕ
  | .countFile _ fileSizeMb | .addSize _ fileSizeMb => fileSizeMb
  | _ => 0

/-- The size of some archives. -/
def totalSize (archives : List Archive) : ℕ := (archives.map (·.sizeMb)).sum

/-- The counters and the archives, while the thread in the lock is at `p`. -/
structure Counted (cfg : Config) (sizeMb numFiles : ℕ) (created : List Archive) (p : Pc) : Prop where
  files : created.length = numFiles + p.pendingFiles
  size : totalSize created = sizeMb + p.pendingSize
  passed : ∀ request, p = .archive request → refusal cfg sizeMb numFiles request = none

/-- The archives keep the limits, and they belong to the JSON file. -/
structure WithinLimits (cfg : Config) (created : List Archive) : Prop where
  files : cfg.limitFiles ≠ 0 → created ≠ [] → created.length ≤ cfg.limitFiles
  size : cfg.limitSizeMb ≠ 0 → ∀ last ∈ created.getLast?,
    totalSize created < cfg.limitSizeMb + last.sizeMb
  archivalFile : ∀ a ∈ created, a.args.archivalFile = cfg.archivalJsonFile

structure JobsInv {ι : Type} (cfg : Config) (s : Jobs ι) : Prop where
  guarded : Guarded Pc.Critical s.lock s.pc
  held : ∀ i, (s.pc i).Critical → Counted cfg s.sizeMb s.numFiles s.created (s.pc i)
  free : s.lock = none → Counted cfg s.sizeMb s.numFiles s.created .idle
  limits : WithinLimits cfg s.created

section Jobs

variable {ι : Type} {cfg : Config} {s s' : Jobs ι} {i : ι}

theorem JobsInv.initial (ι : Type) (cfg : Config) :
    JobsInv cfg (⟨none, 0, 0, fun _ => .idle, []⟩ : Jobs ι) where
  guarded := fun _ => False.elim
  held := fun _ => False.elim
  free := fun _ => ⟨rfl, rfl, nofun⟩
  limits := ⟨fun _ h => absurd rfl h, nofun, nofun⟩

theorem refusal_eq_none {sizeMb numFiles : ℕ} {request : Request}
    (h : refusal cfg sizeMb numFiles request = none) :
    (cfg.limitSizeMb ≠ 0 → sizeMb < cfg.limitSizeMb) ∧
      (cfg.limitFiles ≠ 0 → numFiles < cfg.limitFiles) := by
  unfold refusal at h
  split_ifs at h with hinput hsize hfiles
  exact ⟨fun hlimit => not_le.mp fun hge => hsize ⟨hlimit, hge⟩,
    fun hlimit => not_le.mp fun hge => hfiles ⟨hlimit, hge⟩⟩

theorem totalSize_append (created : List Archive) (a : Archive) :
    totalSize (created ++ [a]) = totalSize created + a.sizeMb := by
  simp [totalSize]

/-- An archive that is created below the limits. -/
theorem WithinLimits.append {sizeMb numFiles : ℕ} {created : List Archive} {request : Request}
    {a : Archive} (h : WithinLimits cfg created)
    (hcounted : Counted cfg sizeMb numFiles created (.archive request))
    (ha : a.args.archivalFile = cfg.archivalJsonFile) : WithinLimits cfg (created ++ [a]) := by
  obtain ⟨hsize, hfiles⟩ := refusal_eq_none (hcounted.passed request rfl)
  have hlength : created.length = numFiles := hcounted.files
  have htotal : totalSize created = sizeMb := hcounted.size
  refine ⟨fun hlimit _ => ?_, fun hlimit last hlast => ?_, ?_⟩
  · have hlt := hfiles hlimit
    rw [List.length_append, List.length_singleton, hlength]
    omega
  · rw [List.getLast?_concat] at hlast
    cases hlast
    have hlt := hsize hlimit
    rw [totalSize_append, htotal]
    omega
  · exact List.forall_mem_append.mpr ⟨h.archivalFile, List.forall_mem_singleton.mpr ha⟩

variable [DecidableEq ι]

/-- A thread outside of the lock moves. -/
theorem JobsInv.outside (h : JobsInv cfg s) {p : Pc} (hp : ¬ p.Critical) :
    JobsInv cfg (s.goto i p) :=
  ⟨h.guarded.move fun hcritical => absurd hcritical hp,
    (Function.forall_update_iff s.pc fun _ p => p.Critical → Counted cfg _ _ _ p).mpr
      ⟨fun hcritical => absurd hcritical hp, fun j _ => h.held j⟩,
    h.free, h.limits⟩

theorem JobsInv.acquire (h : JobsInv cfg s) (hlock : s.lock = none) {request : Request} :
    JobsInv cfg { s.goto i (.check request) with lock := some i } := by
  have hguarded : Guarded Pc.Critical none s.pc := hlock ▸ h.guarded
  obtain ⟨hfiles, hsize, -⟩ := h.free hlock
  refine ⟨hguarded.acquire, ?_, nofun, h.limits⟩
  exact (Function.forall_update_iff s.pc fun _ p => p.Critical → Counted cfg _ _ _ p).mpr
    ⟨fun _ => ⟨hfiles, hsize, nofun⟩, fun j _ hj => absurd hj (hguarded.not_critical j)⟩

/-- The thread in the lock moves. -/
theorem JobsInv.inside (h : JobsInv cfg s) {p p' : Pc} (hpc : s.pc i = p) (hp : p.Critical)
    {sizeMb numFiles : ℕ} {created : List Archive}
    (hcounted : Counted cfg sizeMb numFiles created p') (hlimits : WithinLimits cfg created) :
    JobsInv cfg ⟨s.lock, sizeMb, numFiles, Function.update s.pc i p', created⟩ := by
  have hi : (s.pc i).Critical := hpc ▸ hp
  have hlock := h.guarded i hi
  refine ⟨h.guarded.move fun _ => hlock, ?_, fun hnone => ?_, hlimits⟩
  · exact (Function.forall_update_iff s.pc fun _ p => p.Critical → Counted cfg _ _ _ p).mpr
      ⟨fun _ => hcounted, fun j hj hcritical => absurd hcritical (h.guarded.alone hi hj)⟩
  · rw [hlock] at hnone
    cases hnone

/-- The thread in the lock has created an archive. -/
theorem JobsInv.create (h : JobsInv cfg s) {request : Request} (hpc : s.pc i = .archive request)
    {a : Archive} {response : Response} (ha : a.args.archivalFile = cfg.archivalJsonFile) :
    JobsInv cfg { s.goto i (.countFile response a.sizeMb) with created := s.created ++ [a] } := by
  have hcounted : Counted cfg s.sizeMb s.numFiles s.created (.archive request) := by
    rw [← hpc]
    exact h.held i (by rw [hpc]; trivial)
  refine h.inside hpc trivial ⟨?_, ?_, nofun⟩ (h.limits.append hcounted ha)
  · rw [List.length_append, hcounted.files]
    rfl
  · rw [totalSize_append, hcounted.size]
    rfl

theorem JobsInv.release (h : JobsInv cfg s) {result : Except String Response}
    (hi : s.pc i = .release result) :
    JobsInv cfg { s.goto i (.returned result) with lock := none } := by
  have hcritical : (s.pc i).Critical := by
    rw [hi]
    trivial
  obtain ⟨hfiles, hsize, -⟩ := h.held i hcritical
  rw [hi] at hfiles hsize
  refine ⟨h.guarded.release hcritical id, ?_, fun _ => ⟨hfiles, hsize, nofun⟩, h.limits⟩
  exact (Function.forall_update_iff s.pc fun _ p => p.Critical → Counted cfg _ _ _ p).mpr
    ⟨nofun, fun j hj hcritical' => absurd hcritical' (h.guarded.alone hcritical hj)⟩

/-- **A step of a job**: it creates at most one archive, which it puts in the queue. -/
theorem JobsInv.step (h : JobsInv cfg s) {a : JobAct} {put : Option UploadArgs}
    (hstep : jobStep cfg s i a = some (s', put)) :
    JobsInv cfg s' ∧ s'.created.map (·.args) = s.created.map (·.args) ++ put.toList := by
  have hheld : ∀ p, s.pc i = p → p.Critical → Counted cfg s.sizeMb s.numFiles s.created p := by
    rintro p rfl hp
    exact h.held i hp
  unfold jobStep at hstep
  split at hstep
  · cases hstep
    exact ⟨h.outside id, (List.append_nil _).symm⟩
  · cases hstep
    exact ⟨h.outside id, (List.append_nil _).symm⟩
  · split_ifs at hstep with hlock
    cases hstep
    exact ⟨h.acquire (Option.isNone_iff_eq_none.mp hlock), (List.append_nil _).symm⟩
  · rename_i request hpc
    obtain ⟨hfiles, hsize, -⟩ := hheld _ hpc trivial
    split at hstep
    · cases hstep
      exact ⟨h.inside hpc trivial ⟨hfiles, hsize, nofun⟩ h.limits, (List.append_nil _).symm⟩
    · rename_i hpassed
      cases hstep
      refine ⟨h.inside hpc trivial ⟨hfiles, hsize, ?_⟩ h.limits, (List.append_nil _).symm⟩
      rintro _ ⟨⟩
      exact hpassed
  · rename_i request localFile message bytes hpc
    cases hstep
    exact ⟨h.create (a := ⟨uploadArgs cfg request localFile, megabytes bytes⟩) hpc rfl,
      List.map_append⟩
  · rename_i request message hpc
    obtain ⟨hfiles, hsize, -⟩ := hheld _ hpc trivial
    cases hstep
    exact ⟨h.inside hpc trivial ⟨hfiles, hsize, nofun⟩ h.limits, (List.append_nil _).symm⟩
  · rename_i request e hpc
    obtain ⟨hfiles, hsize, -⟩ := hheld _ hpc trivial
    cases hstep
    exact ⟨h.inside hpc trivial ⟨hfiles, hsize, nofun⟩ h.limits, (List.append_nil _).symm⟩
  · rename_i response fileSizeMb hpc
    obtain ⟨hfiles, hsize, -⟩ := hheld _ hpc trivial
    cases hstep
    exact ⟨h.inside hpc trivial ⟨hfiles, hsize, nofun⟩ h.limits, (List.append_nil _).symm⟩
  · rename_i response fileSizeMb hpc
    obtain ⟨hfiles, hsize, -⟩ := hheld _ hpc trivial
    cases hstep
    exact ⟨h.inside hpc trivial ⟨hfiles, hsize, nofun⟩ h.limits, (List.append_nil _).symm⟩
  · rename_i result hpc
    cases hstep
    exact ⟨h.release hpc, (List.append_nil _).symm⟩
  · cases hstep

end Jobs

/-! ## Where each archive is -/

/-- The archive that is being uploaded. -/
def Uploader.uploading : Uploader → List UploadArgs
  | .upload args => [args]
  | _ => []

/-- The archive that was uploaded and is to be passed on. -/
def Uploader.forwarding : Uploader → List UploadArgs
  | .forward args true => [args]
  | _ => []

/-- The archive that is to be recorded. -/
def Recorder.appending : Recorder → List ArchiveArgs
  | .append args => [args]
  | _ => []

/-- The archives whose uploads succeeded, in the order of the uploads. -/
def Pipeline.succeeded (p : Pipeline) : List UploadArgs := (p.uploads.filter (·.2)).map (·.1)

/-- The entry of the JSON file for an archive. -/
def record (args : UploadArgs) : ArchivalRecord := archivalRecord (archiveArgs args)

/-- The entries that were written. -/
def Pipeline.written (p : Pipeline) : List ArchivalRecord :=
  match p.recorder with
  | .write _ => p.archivalJson.dropLast
  | _ => p.archivalJson

/-- The file after these entries were written; without entries it is as it was. -/
def fileAfter (file : Option (List ArchivalRecord)) (entries : List ArchivalRecord) :
    Option (List ArchivalRecord) :=
  if entries = [] then file else some entries

/-- The names of the JSON file that travel through the pipeline. -/
structure Pipeline.Names (jsonFile : String) (p : Pipeline) : Prop where
  uploadQueue : ∀ args ∈ p.uploadQueue.reduceOption, args.archivalFile = jsonFile
  uploading : ∀ args ∈ p.uploader.uploading, args.archivalFile = jsonFile
  forwarding : ∀ args ∈ p.uploader.forwarding, args.archivalFile = jsonFile
  archiveFileQueue : ∀ args ∈ p.archiveFileQueue.reduceOption, args.archivalFile = jsonFile
  appending : ∀ args ∈ p.recorder.appending, args.archivalFile = jsonFile
  writing : ∀ file, p.recorder = .write file → file = jsonFile

/-- The sentinel is in the second queue while the first worker has stopped and the second has not. -/
def Pipeline.Sentinel (p : Pipeline) : Prop :=
  if p.uploader = .terminated then
    if p.recorder = .terminated then p.archiveFileQueue = []
    else ∃ args : List ArchiveArgs, p.archiveFileQueue = args.map some ++ [none]
  else p.recorder ≠ .terminated ∧ ∃ args : List ArchiveArgs, p.archiveFileQueue = args.map some

/-- The archives that were sent are uploaded, being uploaded or waiting, in this order; and so are the
successful ones on their way to the JSON file. -/
structure PipelineInv (jsonFile : String) (files : String → Option (List ArchivalRecord))
    (sent : List UploadArgs) (p : Pipeline) : Prop where
  sent : sent = p.uploads.map (·.1) ++ (p.uploader.uploading ++ p.uploadQueue.reduceOption)
  succeeded : p.succeeded.map record = p.archivalJson ++ (p.recorder.appending ++
    (p.archiveFileQueue.reduceOption ++ p.uploader.forwarding.map archiveArgs)).map archivalRecord
  names : p.Names jsonFile
  sentinel : p.Sentinel
  appended : ∀ file, p.recorder = .write file → p.archivalJson ≠ []
  file : p.files jsonFile = fileAfter (files jsonFile) p.written

section Pipeline

variable {jsonFile : String} {files : String → Option (List ArchivalRecord)}
  {sent : List UploadArgs} {p p' : Pipeline}

theorem PipelineInv.initial (jsonFile : String) (files : String → Option (List ArchivalRecord)) :
    PipelineInv jsonFile files [] ⟨[], .get, [], [], .get, [], files⟩ where
  sent := rfl
  succeeded := rfl
  names := ⟨nofun, nofun, nofun, nofun, nofun, nofun⟩
  sentinel := ⟨nofun, [], rfl⟩
  appended := nofun
  file := rfl

theorem PipelineInv.put (h : PipelineInv jsonFile files sent p) (args : Option UploadArgs)
    (hargs : ∀ a ∈ args, a.archivalFile = jsonFile) :
    PipelineInv jsonFile files (sent ++ args.toList) (p.put args) := by
  have hqueue : (p.uploadQueue ++ [args]).reduceOption =
      p.uploadQueue.reduceOption ++ args.toList := by
    rw [List.reduceOption_append]
    cases args <;> rfl
  refine ⟨?_, h.succeeded, ⟨?_, h.names.uploading, h.names.forwarding, h.names.archiveFileQueue,
    h.names.appending, h.names.writing⟩, h.sentinel, h.appended, h.file⟩
  · rw [h.sent, Pipeline.put]
    dsimp only
    rw [hqueue, List.append_assoc, List.append_assoc]
  · rw [Pipeline.put]
    dsimp only
    rw [hqueue, List.forall_mem_append]
    exact ⟨h.names.uploadQueue, by simpa using hargs⟩

/-- **A step of the upload worker.** -/
theorem PipelineInv.uploaderStep (h : PipelineInv jsonFile files sent p) {uploadCompleted : Bool}
    (hstep : Archival.uploaderStep p uploadCompleted = some p') :
    PipelineInv jsonFile files sent p' := by
  obtain ⟨hsent, hsucceeded, ⟨hqueued, huploading, hforwarding, harchive, happending, hwriting⟩,
    hsentinel, happended, hfile⟩ := h
  unfold Archival.uploaderStep at hstep
  split at hstep
  · rename_i hu
    rw [hu] at hsent hsucceeded
    rw [Pipeline.Sentinel, hu] at hsentinel
    split at hstep
    · cases hstep
    · rename_i rest hqueue
      rw [hqueue] at hsent hqueued
      cases hstep
      exact ⟨hsent, hsucceeded, ⟨hqueued, nofun, nofun, harchive, happending, hwriting⟩, hsentinel,
        happended, hfile⟩
    · rename_i args rest hqueue
      rw [hqueue, List.reduceOption_cons_of_some] at hsent hqueued
      cases hstep
      refine ⟨hsent, hsucceeded, ⟨?_, ?_, nofun, harchive, happending, hwriting⟩, hsentinel,
        happended, hfile⟩
      · exact fun a ha => hqueued a (List.mem_cons_of_mem _ ha)
      · exact List.forall_mem_singleton.mpr (hqueued args List.mem_cons_self)
  · rename_i args hu
    rw [hu] at hsent hsucceeded huploading
    rw [Pipeline.Sentinel, hu] at hsentinel
    cases hstep
    refine ⟨?_, ?_, ⟨hqueued, nofun, ?_, harchive, happending, hwriting⟩, hsentinel,
        happended, hfile⟩
    · rw [hsent, List.map_append, List.append_assoc]
      rfl
    -- A successful upload is the last of those on their way.
    · cases uploadCompleted with
      | false =>
        rw [Pipeline.succeeded] at hsucceeded ⊢
        rw [List.filter_append, List.map_append]
        simpa [Uploader.forwarding] using hsucceeded
      | true =>
        rw [Pipeline.succeeded] at hsucceeded ⊢
        dsimp only
        rw [List.filter_append, List.map_append, List.map_append, hsucceeded]
        simp [Uploader.forwarding, record]
    · cases uploadCompleted with
      | false => exact nofun
      | true => exact huploading
  · rename_i args hu
    rw [hu] at hsent hsucceeded hforwarding
    rw [Pipeline.Sentinel, hu] at hsentinel
    obtain ⟨hrecorder, queue, hqueue⟩ := hsentinel
    cases hstep
    refine ⟨hsent, ?_, ⟨hqueued, nofun, nofun, ?_, happending, hwriting⟩, ?_, happended, hfile⟩
    · rw [List.reduceOption_append]
      simpa [Uploader.forwarding, Pipeline.succeeded] using hsucceeded
    · rw [List.reduceOption_append, List.forall_mem_append]
      exact ⟨harchive, List.forall_mem_singleton.mpr (hforwarding args List.mem_cons_self)⟩
    · refine ⟨hrecorder, queue ++ [archiveArgs args], ?_⟩
      rw [List.map_append, ← hqueue]
      rfl
  · rename_i args hu
    rw [hu] at hsent hsucceeded
    rw [Pipeline.Sentinel, hu] at hsentinel
    cases hstep
    exact ⟨hsent, hsucceeded, ⟨hqueued, nofun, nofun, harchive, happending, hwriting⟩, hsentinel,
      happended, hfile⟩
  · rename_i hu
    rw [hu] at hsent hsucceeded
    rw [Pipeline.Sentinel, hu] at hsentinel
    obtain ⟨hrecorder, queue, hqueue⟩ := hsentinel
    cases hstep
    have happend : (p.archiveFileQueue ++ [none]).reduceOption = p.archiveFileQueue.reduceOption := by
      rw [List.reduceOption_append]
      exact List.append_nil _
    refine ⟨hsent, ?_, ⟨hqueued, nofun, nofun, ?_, happending, hwriting⟩, ?_, happended, hfile⟩
    · dsimp only
      rw [happend]
      exact hsucceeded
    · dsimp only
      rw [happend]
      exact harchive
    · rw [Pipeline.Sentinel, if_pos rfl, if_neg hrecorder]
      exact ⟨queue, by rw [hqueue]⟩
  · cases hstep

/-- The second worker goes on. -/
theorem Pipeline.Sentinel.working (h : p.Sentinel) (hr : p.recorder ≠ .terminated)
    (hr' : p'.recorder ≠ .terminated) (hu : p'.uploader = p.uploader)
    (hq : p'.archiveFileQueue = p.archiveFileQueue) : p'.Sentinel := by
  rw [Pipeline.Sentinel, if_neg hr] at h
  rw [Pipeline.Sentinel, if_neg hr', hu, hq]
  split_ifs at h ⊢
  · exact h
  · exact ⟨hr', h.2⟩

/-- **A step of the worker of the JSON file.** -/
theorem PipelineInv.recorderStep (h : PipelineInv jsonFile files sent p)
    (hstep : Archival.recorderStep p = some p') : PipelineInv jsonFile files sent p' := by
  obtain ⟨hsent, hsucceeded, ⟨hqueued, huploading, hforwarding, harchive, happending, hwriting⟩,
    hsentinel, happended, hfile⟩ := h
  unfold Archival.recorderStep at hstep
  split at hstep
  · rename_i hr
    rw [hr] at hsucceeded
    rw [Pipeline.written, hr] at hfile
    rw [Pipeline.Sentinel, hr] at hsentinel
    split at hstep
    · cases hstep
    · rename_i rest hqueue
      rw [hqueue] at hsucceeded harchive hsentinel
      cases hstep
      refine ⟨hsent, hsucceeded, ⟨hqueued, huploading, hforwarding, harchive, nofun, nofun⟩, ?_,
        nofun, hfile⟩
      -- The sentinel was the last in the queue.
      split_ifs at hsentinel with hu
      · obtain ⟨args, hargs⟩ := hsentinel
        cases args with
        | nil =>
          cases hargs
          rw [Pipeline.Sentinel, if_pos hu, if_pos rfl]
        | cons a args => cases hargs
      · obtain ⟨-, args, hargs⟩ := hsentinel
        cases args <;> cases hargs
    · rename_i args rest hqueue
      rw [hqueue, List.reduceOption_cons_of_some] at hsucceeded harchive
      rw [hqueue] at hsentinel
      cases hstep
      refine ⟨hsent, hsucceeded, ⟨hqueued, huploading, hforwarding, ?_, ?_, nofun⟩, ?_, nofun,
        hfile⟩
      · exact fun a ha => harchive a (List.mem_cons_of_mem _ ha)
      · exact List.forall_mem_singleton.mpr (harchive args List.mem_cons_self)
      · rw [Pipeline.Sentinel]
        split_ifs at hsentinel ⊢ with hu
        · obtain ⟨l, hl⟩ := hsentinel
          cases l with
          | nil => cases hl
          | cons a l => exact ⟨l, (List.cons.inj hl).2⟩
        · obtain ⟨-, l, hl⟩ := hsentinel
          cases l with
          | nil => cases hl
          | cons a l => exact ⟨nofun, l, (List.cons.inj hl).2⟩
  · rename_i args hr
    rw [hr] at hsucceeded happending
    rw [Pipeline.written, hr] at hfile
    cases hstep
    refine ⟨hsent, ?_, ⟨hqueued, huploading, hforwarding, harchive, nofun, ?_⟩,
      hsentinel.working (by simp [hr]) nofun rfl rfl, ?_, ?_⟩
    · exact hsucceeded.trans (by simp [Recorder.appending])
    · rintro file ⟨⟩
      exact happending args List.mem_cons_self
    · exact fun _ _ => List.append_ne_nil_of_right_ne_nil _ (List.cons_ne_nil _ _)
    · rw [Pipeline.written]
      dsimp only
      rw [List.dropLast_concat]
      exact hfile
  · rename_i file hr
    have hname := hwriting file hr
    rw [hr] at hsucceeded
    cases hstep
    refine ⟨hsent, hsucceeded, ⟨hqueued, huploading, hforwarding, harchive, nofun, nofun⟩,
      hsentinel.working (by simp [hr]) nofun rfl rfl, nofun, ?_⟩
    rw [Pipeline.written]
    dsimp only
    rw [hname, Function.update_self, fileAfter, if_neg (happended file hr)]
  · cases hstep

end Pipeline

/-! ## All runs -/

/-- The invariant of a run that started with `files`. -/
structure Inv {ι : Type} (cfg : Config) (files : String → Option (List ArchivalRecord))
    (s : State ι) : Prop where
  jobs : JobsInv cfg s.jobs
  pipeline : PipelineInv cfg.archivalJsonFile files (s.jobs.created.map (·.args)) s.pipeline

section Runs

variable {ι : Type} [DecidableEq ι] {cfg : Config} {files : String → Option (List ArchivalRecord)}
  {s s' : State ι}

theorem Inv.step {l : Label ι} (h : Inv cfg files s) (hstep : Archival.step cfg s l = some s') :
    Inv cfg files s' := by
  cases l with
  | job i a =>
    obtain ⟨⟨jobs, put⟩, hjob, hs'⟩ := Option.map_eq_some_iff.mp hstep
    obtain ⟨hjobs, hcreated⟩ := h.jobs.step hjob
    cases put with
    | none =>
      subst hs'
      have hsame : jobs.created.map (·.args) = s.jobs.created.map (·.args) :=
        hcreated.trans (List.append_nil _)
      exact ⟨hjobs, hsame ▸ h.pipeline⟩
    | some args =>
      subst hs'
      -- What is put in the queue is the last archive, and it belongs to the JSON file.
      have hmem : args ∈ jobs.created.map (·.args) := by
        rw [hcreated]
        exact List.mem_append_right _ List.mem_cons_self
      obtain ⟨archive, harchive, rfl⟩ := List.mem_map.mp hmem
      have hput := h.pipeline.put (some archive.args) fun a ha =>
        Option.mem_some_iff.mp ha ▸ hjobs.limits.archivalFile archive harchive
      rw [← hcreated] at hput
      exact ⟨hjobs, hput⟩
  | exit =>
    cases hstep
    have hput := h.pipeline.put none nofun
    rw [Option.toList_none, List.append_nil] at hput
    exact ⟨h.jobs, hput⟩
  | uploader uploadCompleted =>
    obtain ⟨pipeline, hpipeline, rfl⟩ := Option.map_eq_some_iff.mp hstep
    exact ⟨h.jobs, h.pipeline.uploaderStep hpipeline⟩
  | recorder =>
    obtain ⟨pipeline, hpipeline, rfl⟩ := Option.map_eq_some_iff.mp hstep
    exact ⟨h.jobs, h.pipeline.recorderStep hpipeline⟩

theorem inv_of_reach (h : Reach (Archival.step cfg) Free (· = initial ι files) s) :
    Inv cfg files s := by
  refine h.inv (I := Inv cfg files) ?_ fun _ _ _ hinv _ hstep => hinv.step hstep
  rintro _ rfl
  exact ⟨JobsInv.initial ι cfg, PipelineInv.initial _ files⟩

/-- When the workers have stopped, no successful upload is on its way to the JSON file. -/
theorem PipelineInv.terminated {jsonFile : String} {sent : List UploadArgs} {p : Pipeline}
    (h : PipelineInv jsonFile files sent p) (hu : p.uploader = .terminated)
    (hr : p.recorder = .terminated) :
    p.files jsonFile = fileAfter (files jsonFile) (p.succeeded.map record) := by
  have hsentinel := h.sentinel
  rw [Pipeline.Sentinel, if_pos hu, if_pos hr] at hsentinel
  have hwritten : p.written = p.archivalJson := by rw [Pipeline.written, hr]
  have hsucceeded : p.succeeded.map record = p.archivalJson := by
    rw [h.succeeded, hu, hr, hsentinel]
    exact List.append_nil _
  rw [h.file, hwritten, hsucceeded]

/-- **Limits and record.** In every interleaving of the jobs, of `exit` and of the workers, with every
result of `tarfile` and of S3: the archives do not exceed a limit of files, and they exceed a limit of
the size by less than the last of them. The uploads are tried in the order of the archives; when both
workers have stopped, the JSON file lists those that succeeded, each once and in this order. -/
theorem archival_limits (h : Reach (Archival.step cfg) Free (· = initial ι files) s) :
    (cfg.limitFiles ≠ 0 → s.jobs.created.length ≤ max cfg.limitFiles 0) ∧
    (cfg.limitSizeMb ≠ 0 → ∀ last ∈ s.jobs.created.getLast?,
      totalSize s.jobs.created < cfg.limitSizeMb + last.sizeMb) ∧
    s.pipeline.uploads.map (·.1) <+: s.jobs.created.map (·.args) ∧
    (s.pipeline.uploader = .terminated → s.pipeline.recorder = .terminated →
      s.pipeline.files cfg.archivalJsonFile =
        fileAfter (files cfg.archivalJsonFile) (s.pipeline.succeeded.map record)) := by
  have hinv := inv_of_reach h
  refine ⟨fun hlimit => ?_, hinv.jobs.limits.size, ⟨_, hinv.pipeline.sent.symm⟩,
    hinv.pipeline.terminated⟩
  by_cases hnil : s.jobs.created = []
  · rw [hnil]
    exact le_max_right _ _
  · exact (hinv.jobs.limits.files hlimit hnil).trans (le_max_left _ _)

end Runs

/-- One job asks twice, the first upload fails and the second does not. -/
def twoUploads : List (Label Unit) :=
  let archived (name : String) : List (Label Unit) :=
    [.job () (.request ⟨name, ["data"], "bucket", name⟩), .job () .next, .job () .next,
      .job () (.tar (.created name "" 1)), .job () .next, .job () .next, .job () .next]
  archived "a" ++ archived "b" ++ [.exit, .uploader true, .uploader false, .uploader true,
    .uploader true, .uploader true, .uploader true, .uploader true, .uploader true,
    .recorder, .recorder, .recorder, .recorder]

theorem archival_limits_two_uploads :
    ∃ s : State Unit, s.jobs.created.length = 2 ∧
      s.pipeline.files "archive.json" =
        some [⟨"b", "https://s3.amazonaws.com/bucket/b", "private"⟩] := by
  have hrun : ∃ s : State Unit,
      Reach (step ⟨"archive.json", 10, 2⟩) Free (· = initial Unit fun _ => none) s ∧
        s.jobs.created.length = 2 ∧ s.pipeline.uploader = .terminated ∧
        s.pipeline.recorder = .terminated ∧ s.pipeline.succeeded.map record =
          [⟨"b", "https://s3.amazonaws.com/bucket/b", "private"⟩] :=
    Reach.exists_of_run (.start rfl) twoUploads (by decide)
  obtain ⟨s, hs, hcreated, hu, hr, hsucceeded⟩ := hrun
  have hfile := (archival_limits hs).2.2.2 hu hr
  rw [hsucceeded] at hfile
  exact ⟨s, hcreated, hfile⟩

end MongoTests.Resmoke.Archival
