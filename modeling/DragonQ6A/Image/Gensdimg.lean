import DragonQ6A.Layout.FreeRuns
import DragonQ6A.Shell.Arith

/-!
# The SD card image script

`gensdimg-uefi.sh`: the creation of the image and `add_part`, in the shell's 64-bit arithmetic.  The
programs it runs on the image, `sgdisk` and `dd`, are the parameter `Tools`, with what the script
relies on.  The messages are left out, and so is how the partition images are made.
-/

open Layout

namespace DragonQ6A.Image

/-- A file; sizes fit the shell's integers. -/
structure File where
  bytes : List UInt8
  size_lt : bytes.length < 2 ^ 63

namespace File

def size (f : File) : ℕ := f.bytes.length

/-- `stat -c%s`. -/
def stat (f : File) : Int64 := Int64.ofNat f.size

end File

/-- An entry of the partition table. -/
structure Part where
  number : Int64
  range : Range
  name : String
deriving DecidableEq

/-- `$SDIMG`: its bytes, and what its partition table says. -/
structure Disk where
  size : ℕ
  bytes : ℕ → UInt8
  parts : List Part

namespace Disk

variable (d : Disk)

/-- The number of 512-byte sectors. -/
def sectors : ℕ := d.size / 512

/-- The usable area: all but sectors 0-33 and the last 33. -/
def Usable (x : ℕ) : Prop := 34 ≤ x ∧ x < d.sectors - 33

/-- The byte `i` belongs to the main or the backup table. -/
def InTables (i : ℕ) : Prop := ¬ d.Usable (i / 512)

/-- `r` is one of the largest runs of free sectors in the usable area. -/
def LargestFree (r : Range) : Prop := Largest 34 (d.sectors - 33) (d.parts.map Part.range) r

/-- `d'` is `d` with the entry `p` added: only the tables were rewritten. -/
structure AddsPart (p : Part) (d' : Disk) : Prop where
  size : d'.size = d.size
  parts : d'.parts = d.parts ++ [p]
  bytes : ∀ i, ¬ d.InTables i → d'.bytes i = d.bytes i

end Disk

/-- The bytes `dd bs=4096 count=<count> seek=<seek>` writes: `min(count * bs, size)` of them. -/
def DdCovers (f : File) (count seek : Int64) (i : ℕ) : Prop :=
  seek.toInt * 4096 ≤ i ∧ i < seek.toInt * 4096 + min (count.toInt * 4096) f.size

/-- What `dd conv=notrunc` makes of `d`. -/
structure Disk.DdWrites (d : Disk) (f : File) (count seek : Int64) (d' : Disk) : Prop where
  size : (∀ i, DdCovers f count seek i → i < d.size) → d'.size = d.size
  parts : (∀ i, DdCovers f count seek i → ¬ d.InTables i) → d'.parts = d.parts
  covered : ∀ i, DdCovers f count seek i →
    f.bytes[i - seek.toInt.toNat * 4096]? = some (d'.bytes i)
  other : ∀ i, ¬ DdCovers f count seek i → d'.bytes i = d.bytes i

/-- The programs the script runs on the image. -/
structure Tools where
  /-- `sgdisk --set-alignment=1 --new n:first:last --change-name=n:name` -/
  sgdiskNew : Disk → Int64 → Int64 → Int64 → String → Option Disk
  /-- `sgdisk --set-alignment=1 --largest-new=n --change-name=n:name` -/
  sgdiskLargestNew : Disk → Int64 → String → Option Disk
  /-- `dd bs=4096 count=<count> seek=<seek> conv=notrunc` -/
  dd : Disk → File → Int64 → Int64 → Disk
  /-- it creates exactly the requested range, inside the usable area, or fails -/
  new_spec : ∀ {d n first last name d'}, sgdiskNew d n first last name = some d' →
    ∃ r : Range, first.toInt = r.first ∧ last.toInt = r.last ∧ r.first ≤ r.last ∧
      d.Usable r.first ∧ d.Usable r.last ∧ d.AddsPart ⟨n, r, name⟩ d'
  /-- it takes the whole of a largest run of free sectors, or fails -/
  largestNew_spec : ∀ {d n name d'}, sgdiskLargestNew d n name = some d' →
    ∃ r : Range, d.LargestFree r ∧ d.AddsPart ⟨n, r, name⟩ d'
  dd_spec : ∀ (d : Disk) (f : File) {count seek : Int64}, 0 ≤ count.toInt → 0 ≤ seek.toInt →
    d.DdWrites f count seek (dd d f count seek)

/-- The image and the variables of the script. -/
structure Script where
  disk : Disk
  PTR : Int64
  pn : Int64

def ALIGN : Int64 := 2048 * 512

/-- The `sgdisk` call of `add_part`. -/
def createPart (t : Tools) (s : Script) (SIZE : Int64) (name fillRest : String) : Option Disk :=
  if fillRest = "" then
    t.sgdiskNew s.disk s.pn (s.PTR / 512) ((s.PTR + SIZE - 1) / 512) name
  else t.sgdiskLargestNew s.disk s.pn name

/-- The `count` and `seek` of the `dd` call of `add_part`. -/
def ddCount (SIZE : Int64) : Int64 := SIZE / 4096 + 1

def ddSeek (s : Script) : Int64 := s.PTR / 4096

/-- `add_part`; a failing `sgdisk` ends the script. -/
def addPart (t : Tools) (s : Script) (file : File) (name fillRest : String) : Option Script := do
  let SIZE := file.stat
  let disk ← createPart t s SIZE name fillRest
  pure {
    disk := t.dd disk file (ddCount SIZE) (ddSeek s)
    PTR := (s.PTR + SIZE + ALIGN - 1) / ALIGN * ALIGN
    pn := s.pn + 1 }

/-- The image right after its creation: `dd if=/dev/zero bs=1M count=$((SIZE_GB * 1024))` and
`sgdisk --zap-all`.  No file is larger than `2 ^ 63` bytes. -/
def createImage (SIZE_GB : Int64) : Option Disk :=
  let count := SIZE_GB * 1024
  if 0 ≤ count.toInt ∧ count.toInt * 1048576 < 2 ^ 63 then
    some ⟨count.toInt.toNat * 1048576, fun _ => 0, []⟩
  else none

/-- The script when the first partition is added. -/
def start (d : Disk) : Script := ⟨d, 2048 * 512, 1⟩

end DragonQ6A.Image
