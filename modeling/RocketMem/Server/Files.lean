import Mathlib.Logic.Function.Basic
import RocketMem.Framework.Decimal

namespace RocketMem

open List

abbrev Path := Bytes

/-- A file: the bytes that survive a crash, then those that only the page cache holds. Its length
fits the `i64` the system counts it in. -/
structure File where
  durable : Bytes
  pending : Bytes
  fits : ((durable.length + pending.length : Nat) : Int) ≤ i64Max

namespace File

def content (f : File) : Bytes := f.durable ++ f.pending

def empty : File := ⟨[], [], by decide⟩

def append (f : File) (b : Bytes) : Option File :=
  if h : ((f.durable.length + (f.pending ++ b).length : Nat) : Int) ≤ i64Max then
    some ⟨f.durable, f.pending ++ b, h⟩
  else none

def sync (f : File) : File where
  durable := f.content
  pending := []
  fits := by simpa [content] using f.fits

/-- A crash keeps what was synced and `n` more bytes. -/
def crash (n : Nat) (f : File) : File where
  durable := f.durable ++ f.pending.take n
  pending := []
  fits := by
    have hfits := f.fits
    simp only [length_append, length_take, length_nil]
    omega

/-- `set_len`, for a length the file reaches. -/
def truncate (n : Nat) (f : File) : File where
  durable := f.content.take n
  pending := []
  fits := by
    have hfits := f.fits
    simp only [content, length_take, length_append, length_nil]
    omega

@[simp] theorem content_empty : empty.content = [] := rfl

@[simp] theorem content_sync (f : File) : f.sync.content = f.content := append_nil _

@[simp] theorem content_truncate (n : Nat) (f : File) : (f.truncate n).content = f.content.take n :=
  append_nil _

@[simp] theorem content_crash (n : Nat) (f : File) :
    (f.crash n).content = f.durable ++ f.pending.take n :=
  append_nil _

theorem content_length_le (f : File) : (f.content.length : Int) ≤ i64Max := by
  simpa [content] using f.fits

theorem append_eq_some {f f' : File} {b : Bytes} (h : f.append b = some f') :
    f'.durable = f.durable ∧ f'.content = f.content ++ b := by
  unfold append at h
  split at h
  · cases h
    exact ⟨rfl, (append_assoc _ _ _).symm⟩
  · cases h

theorem crash_eq_take (n : Nat) (f : File) :
    ∃ k, f.durable.length ≤ k ∧ k ≤ f.content.length ∧ (f.crash n).content = f.content.take k := by
  refine ⟨f.durable.length + min n f.pending.length, by omega, ?_, ?_⟩
  · simp only [content, length_append]
    omega
  · rw [content_crash, content, take_length_add_append]
    rcases le_total n f.pending.length with h | h
    · rw [min_eq_left h]
    · rw [min_eq_right h, take_of_length_le h, take_length]

end File

abbrev Disk := Path → Option File

def Disk.read (disk : Disk) (path : Path) : Option Bytes := (disk path).map File.content

def Disk.crash (keep : Path → Nat) (disk : Disk) : Disk := fun p => (disk p).map (File.crash (keep p))

inductive FsyncPolicy where
  | always
  | everySecond
  | never
  deriving DecidableEq, Repr

/-- The start-up configuration. The two configured paths are so far apart that no name derived from
one is a name derived from the other. -/
structure Settings where
  aofPath : Path
  snapshotPath : Path
  policy : FsyncPolicy
  apart : ¬ aofPath <+: snapshotPath ∧ ¬ snapshotPath <+: aofPath

def Settings.ofPolicy (policy : FsyncPolicy) : Settings where
  aofPath := txt "./appendonly.aof"
  snapshotPath := txt "./dump.snapshot"
  policy := policy
  apart := by decide

abbrev Settings.eachSecond : Settings := .ofPolicy .everySecond

def manifestPath (snapshotPath : Path) : Path := snapshotPath ++ txt ".manifest"

def generationSuffix (gen : UInt64) : Bytes :=
  if gen = 0 then [] else txt "." ++ showNat gen.toNat

/-- `generation_path`: the base itself for generation 0. -/
def generationPath (base : Path) (gen : UInt64) : Path := base ++ generationSuffix gen

def tmpPath (path : Path) : Path := path ++ txt ".tmp"

namespace Settings

variable (cfg : Settings)

def aofFile (gen : UInt64) : Path := generationPath cfg.aofPath gen

def snapshotFile (gen : UInt64) : Path := generationPath cfg.snapshotPath gen

def manifest : Path := manifestPath cfg.snapshotPath

end Settings

section

variable (cfg : Settings)

theorem Settings.aof_ne_snapshot (x y : Bytes) : cfg.aofPath ++ x ≠ cfg.snapshotPath ++ y := by
  intro h
  rcases prefix_or_prefix_of_prefix (prefix_append cfg.aofPath x)
    (h ▸ prefix_append cfg.snapshotPath y) with hp | hp
  · exact cfg.apart.1 hp
  · exact cfg.apart.2 hp

theorem Settings.aofFile_ne_manifest (g : UInt64) : cfg.aofFile g ≠ cfg.manifest :=
  cfg.aof_ne_snapshot _ _

end

/-- The UTF-8 encodings of the characters that `str::trim` removes. -/
def whitespace : List Bytes :=
  ([9, 10, 11, 12, 13, 32].map fun b => [b]) ++ [[0xC2, 0x85], [0xC2, 0xA0], [0xE1, 0x9A, 0x80]] ++
    ([0x80, 0x81, 0x82, 0x83, 0x84, 0x85, 0x86, 0x87, 0x88, 0x89, 0x8A, 0xA8, 0xA9, 0xAF].map
      fun b => [0xE2, 0x80, b]) ++
    [[0xE2, 0x81, 0x9F], [0xE3, 0x80, 0x80]]

/-- Strip leading occurrences of the given words; the fuel is the length of the text. -/
def stripWords (words : List Bytes) : Nat → Bytes → Bytes
  | 0, b => b
  | fuel + 1, b =>
    match words.find? (·.isPrefixOf b) with
    | some w => stripWords words fuel (b.drop w.length)
    | none => b

def trim (b : Bytes) : Bytes :=
  let b := stripWords whitespace b.length b
  (stripWords (whitespace.map List.reverse) b.length b.reverse).reverse

/-- The digit loop of `u64::from_str`, with the texts of its errors. -/
def readU64 : Nat → Bytes → Except Bytes Nat
  | acc, [] => .ok acc
  | acc, b :: bs =>
    match digitValue b with
    | none => .error (txt "invalid digit found in string")
    | some d =>
      if acc * 10 + d ≤ u64Max then readU64 (acc * 10 + d) bs
      else .error (txt "number too large to fit in target type")

def parseGeneration (contents : Bytes) : Except Bytes UInt64 :=
  if !validUtf8 contents then .error (txt "stream did not contain valid UTF-8")
  else match trim contents with
    | [] => .error (txt "cannot parse integer from empty string")
    | [43] => .error (txt "invalid digit found in string")
    | 43 :: ds => (readU64 0 ds).map UInt64.ofNat
    | ds => (readU64 0 ds).map UInt64.ofNat

/-- What `read_generation` makes of the manifest: a missing one means generation 0. -/
def generationOf : Option Bytes → Except Bytes UInt64
  | none => .ok 0
  | some contents => parseGeneration contents

end RocketMem
