import AgentAware.Dynamic.DynamicRecord
import AgentAware.Lib.Prog
import Mathlib.Logic.Function.Basic

/-!
# The dynamic directory

What the dynamic directory holds, and the file operations the store performs on it. The log and
the tables are byte files with the part that has reached the file and the part still in the
stream's buffer: a `write` appends to the buffer, `flush` and `close` empty it, and a crash may
lose any part of it. The manifest and the tables' `.meta` files are small text files of integers;
they are kept as the integers they hold.

Paths are relative to the dynamic directory, and a table is addressed by its base path.

## Main definitions

- `File`, `Path`, `Disk` — the directory
- `Disk.crash` — what a crash leaves of it
- `create`, `openAppend`, `write`, `flush`, `removeFile` — the operations on byte files
-/

namespace Dynamic

structure File where
  synced : Bytes := []
  buffered : Bytes := []
  deriving DecidableEq, Repr

/-- The byte files: `wal/wal.log`, and `.data` and `.index` of the table with a base path. -/
inductive Path
  | wal
  | data (base : String)
  | index (base : String)
  deriving DecidableEq, Repr

/-- The contents of a `.meta` file. -/
structure SSTableMeta where
  version : ℕ
  sstable_id : ℕ
  level : ℤ
  record_count : ℕ
  min_sequence_id : ℕ
  max_sequence_id : ℕ
  deriving DecidableEq, Repr

structure ManifestSSTableEntry where
  id : ℕ := 0
  level : ℤ := 0
  base_path : String := ""
  deriving DecidableEq, Repr

structure ManifestData where
  version : ℕ := 1
  next_sequence_id : ℕ := 1
  next_sstable_id : ℕ := 1
  sstables : List ManifestSSTableEntry := []
  wal_checkpoint : ℕ := 0
  deriving DecidableEq, Repr

/-- `manifest` is `manifest.json`, `manifestTmp` is `manifest.json.tmp`; a `.meta` file that is
absent, truncated or half written is `none`. -/
structure Disk where
  files : Path → Option File := fun _ => none
  metas : String → Option SSTableMeta := fun _ => none
  manifest : Option ManifestData := none
  manifestTmp : Option ManifestData := none

namespace Disk

def setFile (disk : Disk) (path : Path) (file : Option File) : Disk :=
  { disk with files := Function.update disk.files path file }

def setMeta (disk : Disk) (base : String) (value : Option SSTableMeta) : Disk :=
  { disk with metas := Function.update disk.metas base value }

/-- Change a file, creating it empty first if it is absent. -/
def modifyFile (disk : Disk) (path : Path) (f : File → File) : Disk :=
  disk.setFile path (some (f ((disk.files path).getD {})))

/-- What a reader finds in a file. -/
def read (disk : Disk) (path : Path) : Option Bytes := (disk.files path).map File.synced

end Disk

namespace File

/-- Everything written so far. -/
def contents (file : File) : Bytes := file.synced ++ file.buffered

def append (file : File) (chunk : Bytes) : File :=
  { file with buffered := file.buffered ++ chunk }

/-- The first `n` bytes of the buffer reach the file. -/
def drain (file : File) (n : ℕ) : File :=
  { synced := file.synced ++ file.buffered.take n, buffered := file.buffered.drop n }

def flush (file : File) : File := { synced := file.contents, buffered := [] }

/-- A crash keeps the first `keep` bytes of the buffer and loses the others. -/
def crash (file : File) (keep : ℕ) : File :=
  { synced := file.synced ++ file.buffered.take keep, buffered := [] }

end File

/-- What a crash leaves of the directory. `keep` says how much of each stream's buffer had
reached its file. -/
def Disk.crash (disk : Disk) (keep : Path → ℕ) : Disk :=
  { disk with files := fun path => (disk.files path).map fun file => file.crash (keep path) }

/-- Open for writing, truncating. -/
def create (path : Path) : Prog Disk Bool :=
  .attempt (fun disk => disk.setFile path (some {})) fun _ disk => disk

/-- Open for appending. -/
def openAppend (path : Path) : Prog Disk Bool :=
  .attempt (fun disk => disk.modifyFile path id) fun _ disk => disk

/-- Write a chunk to a stream; a failing write may have passed on part of it. -/
def write (path : Path) (chunk : Bytes) : Prog Disk Bool :=
  .attempt (fun disk => disk.modifyFile path fun file => file.append chunk)
    fun k disk => disk.modifyFile path fun file => file.append (chunk.take k)

def flush (path : Path) : Prog Disk Bool :=
  .attempt (fun disk => disk.modifyFile path File.flush)
    fun k disk => disk.modifyFile path fun file => file.drain k

def removeFile (path : Path) : Prog Disk Bool :=
  .attempt (fun disk => disk.setFile path none) fun _ disk => disk

def writeMetaFile (base : String) (value : Option SSTableMeta) : Prog Disk Bool :=
  .attempt (fun disk => disk.setMeta base value) fun _ disk => disk.setMeta base none

section

variable (disk : Disk) (path path' : Path) (base base' : String)

@[simp] theorem setFile_files_self (file : Option File) :
    (disk.setFile path file).files path = file := by
  simp [Disk.setFile]

theorem setFile_files_of_ne {path path' : Path} (h : path' ≠ path) (file : Option File) :
    (disk.setFile path file).files path' = disk.files path' := by
  simp [Disk.setFile, h]

@[simp] theorem setFile_metas (file : Option File) :
    (disk.setFile path file).metas = disk.metas := rfl

@[simp] theorem setFile_manifest (file : Option File) :
    (disk.setFile path file).manifest = disk.manifest := rfl

@[simp] theorem modifyFile_files_self (f : File → File) :
    (disk.modifyFile path f).files path = some (f ((disk.files path).getD {})) := by
  simp [Disk.modifyFile]

theorem modifyFile_files_of_ne {path path' : Path} (h : path' ≠ path) (f : File → File) :
    (disk.modifyFile path f).files path' = disk.files path' :=
  setFile_files_of_ne disk h _

@[simp] theorem modifyFile_metas (f : File → File) :
    (disk.modifyFile path f).metas = disk.metas := rfl

@[simp] theorem modifyFile_manifest (f : File → File) :
    (disk.modifyFile path f).manifest = disk.manifest := rfl

@[simp] theorem setMeta_files (value : Option SSTableMeta) :
    (disk.setMeta base value).files = disk.files := rfl

@[simp] theorem setMeta_manifest (value : Option SSTableMeta) :
    (disk.setMeta base value).manifest = disk.manifest := rfl

@[simp] theorem setMeta_metas_self (value : Option SSTableMeta) :
    (disk.setMeta base value).metas base = value := by
  simp [Disk.setMeta]

theorem setMeta_metas_of_ne {base base' : String} (h : base' ≠ base)
    (value : Option SSTableMeta) : (disk.setMeta base value).metas base' = disk.metas base' := by
  simp [Disk.setMeta, h]

end

theorem modifyFile_modifyFile (disk : Disk) (path : Path) (f g : File → File) :
    (disk.modifyFile path f).modifyFile path g = disk.modifyFile path (g ∘ f) := by
  simp [Disk.modifyFile, Disk.setFile]

@[simp] theorem setFile_setFile (disk : Disk) (path : Path) (file file' : Option File) :
    (disk.setFile path file).setFile path file' = disk.setFile path file' := by
  simp [Disk.setFile]

@[simp] theorem modifyFile_setFile (disk : Disk) (path : Path) (file : Option File)
    (f : File → File) :
    (disk.setFile path file).modifyFile path f = disk.setFile path (some (f (file.getD {}))) := by
  simp [Disk.modifyFile]

theorem modifyFile_eq_self {disk : Disk} {path : Path} {file : File} {f : File → File}
    (hfile : disk.files path = some file) (hf : f file = file) : disk.modifyFile path f = disk := by
  have hupdate : Function.update disk.files path (some file) = disk.files := by
    rw [← hfile, Function.update_eq_self]
  simp [Disk.modifyFile, Disk.setFile, hfile, hf, hupdate]

@[simp] theorem File.append_nil (file : File) : file.append [] = file := by
  simp [File.append]

theorem File.append_append (file : File) (p q : Bytes) :
    (file.append p).append q = file.append (p ++ q) := by
  simp [File.append]

@[simp] theorem File.contents_append (file : File) (chunk : Bytes) :
    (file.append chunk).contents = file.contents ++ chunk := by
  simp [File.contents, File.append]

@[simp] theorem File.contents_flush (file : File) : file.flush.contents = file.contents := by
  simp [File.contents, File.flush]

/-- Writing chunks one by one appends them all; in between, a prefix was appended. -/
theorem wp_writeAll {α : Type} {disk : Disk} {path : Path} {file : File} (chunk : α → Bytes)
    (as : List α) (hfile : disk.files path = some file) :
    (Prog.forEach (fun a => write path (chunk a)) as).wp Prog.Quiet
      (fun _ d => ∃ p q, (as.map chunk).flatten = p ++ q ∧
        d = disk.modifyFile path fun file => file.append p)
      (fun ok d => ok = true ∧
        d = disk.modifyFile path fun file => file.append (as.map chunk).flatten) disk := by
  have hself : disk = disk.modifyFile path fun file => file.append [] :=
    (modifyFile_eq_self hfile (File.append_nil file)).symm
  refine Prog.wp_post (Prog.wp_forEach
    (fun done d => d = disk.modifyFile path fun file => file.append (done.map chunk).flatten)
    (fun _ => False) as ?_ hself) fun ok d hd => ?_
  · rintro done a rest d heq rfl
    have hnext : (disk.modifyFile path fun file => file.append (done.map chunk).flatten).modifyFile
        path (fun file => file.append (chunk a)) =
        disk.modifyFile path fun file => file.append ((done ++ [a]).map chunk).flatten := by
      rw [modifyFile_modifyFile]
      congr 1
      funext file
      simp [File.append_append]
    simp only [write, Prog.wp_attempt_quiet, hnext, if_true]
    refine ⟨⟨((done ++ [a]).map chunk).flatten, (rest.map chunk).flatten, ?_, rfl⟩, trivial⟩
    rw [heq]
    simp
  · cases ok with
    | true => exact ⟨rfl, hd⟩
    | false => exact hd.elim

end Dynamic
