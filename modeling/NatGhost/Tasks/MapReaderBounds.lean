import NatGhost.Foundation.MemoryReads
import NatGhost.Tasks.MemoryMap

/-!
# Which bytes `map_reader` reads

`map_reader` computes the layout of the segment from its own argument and takes the length of the
task list from the segment. It asks neither how long the segment is, as `burst_wawe` does before it
maps the same segment, nor whether the count fits its layout. So what it reads depends on who wrote
the segment, and with which number of machines.

The segment is a list of bytes, and behind it in memory is anything. The loop condition loads the
count again before each task; that is the same cell of the same memory, and is left out.
-/

namespace NatGhost

open ReadTree

/-! ## The code -/

/-- `block_size` of `map_reader`. -/
def readerBlockSize (vmCount : Int32) : ℕ := 8 + 4 * (portSpace / vmCount.toInt.toNat)

/-- `total_size`, the number of bytes that are mapped. -/
def mappedSize (vmCount : Int32) : ℕ := readerBlockSize vmCount * vmCount.toInt.toNat

/-- The loop over the tasks, from task `i` on. -/
def readTasks (block : ℕ) : ℕ → ℕ → ReadTree ℕ UInt8 (List Int32)
  | _, 0 => pure []
  | i, n + 1 => do
    let task ← readInt (block + 8 + i * 4)
    let tasks ← readTasks block (i + 1) n
    pure (task :: tasks)

/-- `main` of `map_reader`, from its two numbers on, as a program that reads the segment. -/
def mapReaderProgram (vmCount vmId : Int32) : ReadTree ℕ UInt8 (Option VmTaskBlock) :=
  if vmCount ≤ 0 ∨ vmId < 0 ∨ vmCount ≤ vmId then pure none
  else do
    let block := vmId.toInt.toNat * readerBlockSize vmCount
    let id ← readInt block
    let taskCount ← readInt (block + 4)
    let taskList ← readTasks block 0 taskCount.toInt.toNat
    pure (some ⟨id, taskCount, taskList⟩)

/-! ## What is read -/

section

variable {mem : ℕ → UInt8} {block i n : ℕ}

theorem run_readTasks : run mem (readTasks block i n)
    = (List.range' i n).map fun i ↦ loadInt mem (block + 8 + i * 4) := by
  induction n generalizing i with
  | zero => rfl
  | succ n ih =>
    rw [readTasks, run_bind, run_readInt, run_bind, ih, run_pure, List.range'_succ, List.map_cons]

/-- **The program prints what `map_reader` prints.** -/
theorem run_mapReaderProgram (vmCount vmId : Int32) :
    run mem (mapReaderProgram vmCount vmId) = mapReader vmCount vmId mem := by
  rw [mapReaderProgram, mapReader]
  split_ifs
  · rfl
  · rw [run_bind, run_readInt, run_bind, run_readInt, run_bind, run_readTasks, run_pure,
      ← List.range_eq_range']
    rfl

theorem mem_reads_readTasks_iff {a : ℕ} : a ∈ reads mem (readTasks block i n)
    ↔ block + 8 + i * 4 ≤ a ∧ a < block + 8 + (i + n) * 4 := by
  induction n generalizing i with
  | zero =>
    rw [readTasks, reads_pure]
    exact iff_of_false List.not_mem_nil (by omega)
  | succ n ih =>
    rw [readTasks, reads_bind, reads_readInt, reads_bind, reads_pure, List.append_nil,
      List.mem_append, ih]
    simp only [List.mem_cons, List.not_mem_nil, or_false]
    omega

/-- **The bytes that are read** start with the block and end with the last task. -/
theorem mem_reads_mapReaderProgram_iff {vmCount vmId : Int32}
    (haccepted : ¬(vmCount ≤ 0 ∨ vmId < 0 ∨ vmCount ≤ vmId)) {a : ℕ} :
    a ∈ reads mem (mapReaderProgram vmCount vmId) ↔
      vmId.toInt.toNat * readerBlockSize vmCount ≤ a ∧
      a < vmId.toInt.toNat * readerBlockSize vmCount + 8
        + (loadInt mem (vmId.toInt.toNat * readerBlockSize vmCount + 4)).toInt.toNat * 4 := by
  rw [mapReaderProgram, if_neg haccepted]
  simp only [reads_bind, reads_readInt, run_readInt, reads_pure, List.append_nil, List.mem_append,
    List.mem_cons, List.not_mem_nil, or_false, mem_reads_readTasks_iff]
  omega

end

/-! ## Inside the block -/

/-- Every byte that is read lies in the block of the machine, and the segment has as many bytes as
are mapped. -/
structure StaysInBlock (segment : List UInt8) (mem : ℕ → UInt8) (vmCount vmId : Int32) : Prop where
  inBlock : ∀ a ∈ reads (overlay 0 segment mem) (mapReaderProgram vmCount vmId),
    vmId.toInt.toNat * readerBlockSize vmCount ≤ a ∧
      a < (vmId.toInt.toNat + 1) * readerBlockSize vmCount
  mapped : mappedSize vmCount ≤ segment.length

/-- The `task_count` of a machine in the segment. -/
def storedTaskCount (segment : List UInt8) (vmCount vmId : Int32) : ℤ :=
  (loadInt (fun i ↦ segment.getD i 0) (vmId.toInt.toNat * readerBlockSize vmCount + 4)).toInt

section

variable {segment : List UInt8} {vmCount vmId : Int32}

theorem loadInt_overlay (mem : ℕ → UInt8) {a : ℕ} (h : a + 4 ≤ segment.length) :
    loadInt (overlay 0 segment mem) a = loadInt (fun i ↦ segment.getD i 0) a :=
  loadInt_congr fun _ _ hp ↦ overlay_zero_eq_getD mem (hp.trans_le h) 0

theorem block_le_mappedSize (hid : 0 ≤ vmId) (hlt : vmId < vmCount) :
    (vmId.toInt.toNat + 1) * readerBlockSize vmCount ≤ mappedSize vmCount := by
  have hid' : (0 : ℤ) ≤ vmId.toInt := Int32.le_iff_toInt_le.mp hid
  have hlt' : vmId.toInt < vmCount.toInt := Int32.lt_iff_toInt_lt.mp hlt
  rw [mappedSize, Nat.mul_comm (readerBlockSize vmCount)]
  exact Nat.mul_le_mul_right _ (by omega)

theorem accepted_iff : ¬(vmCount ≤ 0 ∨ vmId < 0 ∨ vmCount ≤ vmId) ↔ 0 ≤ vmId ∧ vmId < vmCount := by
  have hzero : (0 : Int32).toInt = 0 := rfl
  rw [Int32.le_iff_toInt_le, Int32.lt_iff_toInt_lt, Int32.le_iff_toInt_le, Int32.le_iff_toInt_le,
    Int32.lt_iff_toInt_lt, hzero]
  omega

end

/-- **When the reader stays in its block.** The segment has to be as long as the reader's layout,
and the count stored in the block has to fit the reader's block size. -/
theorem staysInBlock_iff (segment : List UInt8) (mem : ℕ → UInt8) (vmCount vmId : Int32)
    (hid : 0 ≤ vmId) (hlt : vmId < vmCount) :
    StaysInBlock segment mem vmCount vmId ↔
      (8 + 4 * (65536 / vmCount.toInt.toNat)) * vmCount.toInt.toNat ≤ segment.length ∧
        storedTaskCount segment vmCount vmId ≤ (65536 / vmCount.toInt.toNat : ℕ) := by
  have haccepted := accepted_iff.mpr ⟨hid, hlt⟩
  have hblock := block_le_mappedSize hid hlt
  have hsize : readerBlockSize vmCount = 8 + 4 * (65536 / vmCount.toInt.toNat) := rfl
  have hend : (vmId.toInt.toNat + 1) * readerBlockSize vmCount
      = vmId.toInt.toNat * readerBlockSize vmCount + 8 + (65536 / vmCount.toInt.toNat) * 4 := by
    rw [Nat.succ_mul, hsize]
    omega
  have hcount : mappedSize vmCount ≤ segment.length →
      loadInt (overlay 0 segment mem) (vmId.toInt.toNat * readerBlockSize vmCount + 4)
        = loadInt (fun i ↦ segment.getD i 0) (vmId.toInt.toNat * readerBlockSize vmCount + 4) :=
    fun hmapped ↦ loadInt_overlay mem (by omega)
  rw [storedTaskCount]
  constructor
  · rintro ⟨hin, hmapped⟩
    refine ⟨hmapped, ?_⟩
    by_contra hlong
    -- the first task behind the block is read
    have hbehind := (hin ((vmId.toInt.toNat + 1) * readerBlockSize vmCount)
      ((mem_reads_mapReaderProgram_iff haccepted).mpr (by rw [hcount hmapped]; omega))).2
    exact absurd hbehind (Nat.lt_irrefl _)
  · rintro ⟨hmapped, hfits⟩
    refine ⟨fun a ha ↦ ?_, hmapped⟩
    rw [mem_reads_mapReaderProgram_iff haccepted, hcount hmapped] at ha
    omega

theorem storedTaskCount_memoryMap {vmCount vmId : Int32} (hid : 0 ≤ vmId) (hlt : vmId < vmCount) :
    storedTaskCount (cellsAt (writeBlocks vmCount.toInt.toNat).mem 0 (mappedSize vmCount))
      vmCount vmId = (65536 / vmCount.toInt.toNat : ℕ) := by
  have hid' : (0 : ℤ) ≤ vmId.toInt := Int32.le_iff_toInt_le.mp hid
  have hlt' : vmId.toInt < vmCount.toInt := Int32.lt_iff_toInt_lt.mp hlt
  have hblock := block_le_mappedSize hid hlt
  have hsize : readerBlockSize vmCount = blockSize vmCount.toInt.toNat :=
    congrArg (8 + ·) (Nat.mul_comm ..)
  have hi : vmId.toInt.toNat < vmCount.toInt.toNat := by omega
  have hcell (p : ℕ) (hp : p < mappedSize vmCount) :
      (cellsAt (writeBlocks vmCount.toInt.toNat).mem 0 (mappedSize vmCount)).getD p 0
        = (writeBlocks vmCount.toInt.toNat).mem p := by
    rw [List.getD_eq_getElem _ _ (by rwa [cellsAt, List.length_map, List.length_range])]
    simp [cellsAt]
  have hstored := congrArg (fun block ↦ block.taskCount.toInt) (readBlock_writeBlocks hi)
  rw [Nat.succ_mul, readerBlockSize] at hblock
  rw [storedTaskCount, loadInt_congr fun p _ hp ↦ hcell p (by rw [readerBlockSize] at hp; omega),
    hsize]
  exact hstored.trans (toInt_ofNat_of_le (eachTask_le _))

/-- The second of two machines, with the segment `memory_map` writes for two. -/
theorem staysInBlock_twoMachines :
    StaysInBlock (cellsAt (writeBlocks 2).mem 0 (mappedSize 2)) (fun _ ↦ 0xFF) 2 1 := by
  refine (staysInBlock_iff _ _ 2 1 (by decide) (by decide)).mpr ⟨?_, ?_⟩
  · rw [cellsAt, List.length_map, List.length_range]
    exact Nat.le_refl _
  · have hcount : storedTaskCount _ 2 1 = _ := storedTaskCount_memoryMap (by decide) (by decide)
    exact hcount.le

/-- **A segment for one machine, read for two**: the reader maps more bytes than there are. -/
theorem otherCount_leaves_block :
    ¬∀ (segment : List UInt8) (mem : ℕ → UInt8) (vmCount vmId : Int32), 0 ≤ vmId → vmId < vmCount →
      StaysInBlock segment mem vmCount vmId := by
  intro h
  have hmapped := (h (cellsAt (writeBlocks 1).mem 0 (totalSize 1)) (fun _ ↦ 0) 2 0 (by decide)
    (by decide)).mapped
  rw [cellsAt, List.length_map, List.length_range] at hmapped
  exact absurd hmapped (by decide)

end NatGhost
