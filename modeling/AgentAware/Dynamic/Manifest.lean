import AgentAware.Dynamic.Disk

/-!
# The manifest

`manifest.json` names the live tables and the counters. `save` writes a temporary file and renames
it over the manifest, so the manifest is the old one or the new one at every moment.

## Main definitions

- `Manifest.loadable` — what the parser accepts
- `Manifest.load`, `Manifest.save`
-/

namespace Dynamic.Manifest

def kManifestVersion : ℕ := 1

/-- Integers are parsed as `std::int64_t`; both counters must be positive. -/
def loadable (data : ManifestData) : Bool :=
  data.version == kManifestVersion && data.next_sequence_id < 2 ^ 63 &&
    data.next_sstable_id < 2 ^ 63 && data.wal_checkpoint < 2 ^ 63 &&
    0 < data.next_sequence_id && 0 < data.next_sstable_id

/-- What `load` finds: the default where there is no manifest, nothing where it is rejected. -/
def stored (disk : Disk) : Option ManifestData :=
  match disk.manifest with
  | none => some {}
  | some data => if loadable data then some data else none

def load : Prog Disk (Option ManifestData) := do
  let disk ← Prog.look
  if disk.manifest.isNone then
    return some {}
  else if ← Prog.probe then
    return stored disk
  else
    return none

/-- The name of the temporary file replaces that of the manifest. -/
def rename (disk : Disk) : Disk :=
  { disk with manifest := disk.manifestTmp, manifestTmp := none }

/-- The contents `save` writes. -/
def saved (data : ManifestData) : ManifestData := { data with version := kManifestVersion }

/-- When the rename fails the manifest is removed and the rename is tried again. -/
def save (data : ManifestData) : Prog Disk Bool := do
  if ← Prog.probe then
    if ← .attempt (fun disk => { disk with manifestTmp := none }) fun _ disk => disk then
      if ← .attempt (fun disk => { disk with manifestTmp := some (saved data) })
          fun _ disk => disk then
        if ← .attempt rename fun _ disk => disk then
          return true
        else
          let _ ← .attempt (fun disk => { disk with manifest := none }) fun _ disk => disk
          .attempt rename fun _ disk => disk
      else return false
    else return false
  else return false

theorem loadable_of_stored {disk : Disk} {data : ManifestData} (h : stored disk = some data) :
    loadable data = true := by
  rw [stored] at h
  split at h
  · cases h
    simp [loadable, kManifestVersion]
  · split at h
    · next hload =>
      cases h
      exact hload
    · cases h

theorem loadable_iff {data : ManifestData} :
    loadable data = true ↔ data.version = kManifestVersion ∧ data.next_sequence_id < 2 ^ 63 ∧
      data.next_sstable_id < 2 ^ 63 ∧ data.wal_checkpoint < 2 ^ 63 ∧ 0 < data.next_sequence_id ∧
      0 < data.next_sstable_id := by
  simp only [loadable, Bool.and_eq_true, beq_iff_eq, decide_eq_true_eq, and_assoc]

theorem wp_load {R : Disk → Disk → Prop} {Q : Option ManifestData → Disk → Prop} {disk : Disk}
    (hR : R disk disk) (hQ : Q (stored disk) disk) : load.wp Prog.Quiet R Q disk := by
  simp only [load, Prog.wp_bind, Prog.wp_look]
  cases hmanifest : disk.manifest with
  | none => simpa [stored, hmanifest] using hQ
  | some data => simpa using ⟨hR, hQ⟩

/-- Without I/O errors the manifest is the old one until it is the new one, and no other file
changes. -/
theorem wp_save (data : ManifestData) (disk : Disk) :
    (save data).wp Prog.Quiet
      (fun _ d => d.files = disk.files ∧ d.metas = disk.metas ∧
        (d.manifest = disk.manifest ∨ d.manifest = some (saved data)))
      (fun ok d => ok = true ∧ d.files = disk.files ∧ d.metas = disk.metas ∧
        d.manifest = some (saved data)) disk := by
  simp [save, saved, rename]

end Dynamic.Manifest
