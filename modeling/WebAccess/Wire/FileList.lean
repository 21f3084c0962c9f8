/-
The file list a sender gives for `FileGroupDescriptorW`, as `ironrdp-cliprdr`'s
`format_data/file_list.rs` decodes it. The decoder copies the whole wire name into `name` and
leaves `relative_path` empty: only `ironrdp-cliprdr`'s own channel processor, which the proxy does
not use, splits a path off the name.
-/
import WebAccess.Wire.Cliprdr

namespace WebAccess.Wire

open Codec

/-- `ClipboardFileFlags::ATTRIBUTES` -/
def fdAttributes : Nat := 0x0000_0004
/-- `ClipboardFileFlags::LAST_WRITE_TIME` -/
def fdLastWriteTime : Nat := 0x0000_0020
/-- `ClipboardFileFlags::FILE_SIZE` -/
def fdFileSize : Nat := 0x0000_0040
/-- `ClipboardFileFlags::SHOW_PROGRESS_UI` -/
def fdProgressUi : Nat := 0x0000_4000
/-- `ClipboardFileAttributes::DIRECTORY` -/
def attributeDirectory : Nat := 0x0000_0010

def maxFileCount : Nat := 100000

structure FileDescriptor where
  attributes : Option Nat
  lastWriteTime : Option Nat
  fileSize : Option Nat
  name : Text
  relativePath : Option Text
  deriving DecidableEq

/-- `FileDescriptor::decode`: 592 bytes, the last 520 of them the name. -/
def FileDescriptor.decode : Reader FileDescriptor := do
  let flags ← uintLe 4
  let _ ← slice 32
  let attributes ← uintLe 4
  let _ ← slice 16
  let lastWriteTime ← uintLe 8
  let sizeHi ← uintLe 4
  let sizeLo ← uintLe 4
  let nameField ← slice 520
  let (name, _) ← ((readString .unicode).run nameField : Option (Text × Bytes))
  pure {
    attributes := if hasBits flags fdAttributes then some attributes else none
    lastWriteTime := if hasBits flags fdLastWriteTime then some lastWriteTime else none
    fileSize := if hasBits flags fdFileSize then some (sizeLo + 2 ^ 32 * sizeHi) else none
    name
    relativePath := none }

/-- `PackedFileList::decode` -/
def packedFileList : Reader (List FileDescriptor) := do
  let count ← uintLe 4
  require (decide (count ≤ maxFileCount))
  repeatN FileDescriptor.decode count

variable {bs : Bytes} {files : List FileDescriptor}

theorem packedFileList_run (h : packedFileList.run' bs = some files) :
    ∃ count bs₁ rest, count ≤ maxFileCount ∧ (repeatN FileDescriptor.decode count).run bs₁ = some (files, rest) := by
  have h' : (packedFileList.run bs).map Prod.fst = some files := h
  simp only [packedFileList, StateT.run_bind, Option.bind_eq_bind, Option.map_eq_some_iff,
    Option.bind_eq_some_iff] at h'
  obtain ⟨⟨as, rest⟩, ⟨⟨count, bs₁⟩, _, ⟨u, bs₂⟩, hreq, hrep⟩, rfl⟩ := h'
  refine ⟨count, bs₂, rest, ?_, hrep⟩
  simp only [StateT.run, require] at hreq
  split at hreq
  · rename_i hle
    exact of_decide_eq_true hle
  · cases hreq

theorem length_packedFileList (h : packedFileList.run' bs = some files) : files.length ≤ maxFileCount := by
  obtain ⟨count, bs₁, rest, hle, hrep⟩ := packedFileList_run h
  rw [length_repeatN hrep]
  exact hle

def FileDescriptor.wireName (f : FileDescriptor) : Text :=
  match f.relativePath with
  | some (c :: path) => c :: path ++ '\\' :: f.name
  | _ => f.name

def FileDescriptor.encode (f : FileDescriptor) : Option Bytes :=
  let flags := fdProgressUi + (if f.attributes.isSome then fdAttributes else 0) +
    (if f.lastWriteTime.isSome then fdLastWriteTime else 0) + (if f.fileSize.isSome then fdFileSize else 0)
  let size := f.fileSize.getD 0
  let name := toUtf16Bytes f.wireName ++ [0, 0]
  if 520 < name.length then none
  else some (leBytes 4 flags ++ List.replicate 32 0 ++ leBytes 4 (f.attributes.getD 0) ++ List.replicate 16 0 ++
    leBytes 8 (f.lastWriteTime.getD 0) ++ leBytes 4 (size / 2 ^ 32) ++ leBytes 4 (size % 2 ^ 32) ++
    (name ++ List.replicate (520 - name.length) 0))

/-- `PackedFileList::encode` -/
def encodeFileList (files : List FileDescriptor) : Option Bytes := do
  let entries ← files.mapM FileDescriptor.encode
  if files.length < 2 ^ 32 then some (leBytes 4 files.length ++ entries.flatten) else none

def FormatDataResponse.toFileList (resp : FormatDataResponse) : Option (List FileDescriptor) :=
  packedFileList.run' resp.data

/-- The declared size of a file, as the proxy reads it. -/
def FileDescriptor.size (f : FileDescriptor) : Nat := f.fileSize.getD 0

/-- The entry is a directory by its attributes. -/
def FileDescriptor.isDirectory (f : FileDescriptor) : Bool :=
  match f.attributes with
  | some a => hasBits a attributeDirectory
  | none => false

end WebAccess.Wire
