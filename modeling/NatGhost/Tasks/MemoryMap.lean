import NatGhost.Foundation.Chunks
import NatGhost.Foundation.Memory

/-!
# The task lists in shared memory

`memory_map` divides the task numbers 1 to 65536 among virtual machines: it writes a block for each
one, with the number of the machine, how many tasks it has, and their numbers. `map_reader` prints
one of the blocks. The two programs share no code, so each has its own structure, constants and
offsets, and the first thing to know is that they agree.

Each machine gets `65536 / vm_count` tasks. The remainder of that division is computed and not used:
the tasks behind the last full list are in no list.

Counts, sizes and offsets are not negative and are natural numbers here; what is stored are numbers
of type `int`.
-/

namespace NatGhost

/-! ## The writer -/

/-- `OVERALL_TASK`. -/
def overallTask : ℕ := 65536

/-- `each_task`, for a positive number of machines. -/
def eachTask (vmCount : ℕ) : ℕ := overallTask / vmCount

/-- `remain_tasks`, which no statement of the program uses. -/
def remainTasks (vmCount : ℕ) : ℕ := overallTask % vmCount

/-- `block_size`: two numbers of type `int`, and the flexible array. -/
def blockSize (vmCount : ℕ) : ℕ := 8 + eachTask vmCount * 4

/-- `total_size`. -/
def totalSize (vmCount : ℕ) : ℕ := blockSize vmCount * vmCount

/-- The mapped segment and the counter `current`. -/
structure MapState where
  mem : ℕ → UInt8
  current : Int32

/-- `block->task_list[j] = ++current`. -/
def writeTask (block : ℕ) (s : MapState) (j : ℕ) : MapState where
  mem := storeInt s.mem (block + 8 + j * 4) (s.current + 1)
  current := s.current + 1

/-- One round of the outer loop: the block of machine `i`. -/
def writeBlock (vmCount : ℕ) (s : MapState) (i : ℕ) : MapState :=
  let block := i * blockSize vmCount
  let mem := storeInt s.mem block (Int32.ofNat i)
  let mem := storeInt mem (block + 4) (Int32.ofNat (eachTask vmCount))
  (List.range (eachTask vmCount)).foldl (writeTask block) { mem := mem, current := s.current }

/-- The outer loop. The segment is truncated and extended, hence all zero, before. -/
def writeBlocks (vmCount : ℕ) : MapState :=
  (List.range vmCount).foldl (writeBlock vmCount) { mem := fun _ ↦ 0, current := 0 }

/-- `main` of `memory_map`, from `vm_count` on: the segment it leaves. -/
def memoryMap (vmCount : Int32) : Option (ℕ → UInt8) :=
  if vmCount ≤ 0 then none else some (writeBlocks vmCount.toInt.toNat).mem

/-! ## The reader -/

/-- `PORT_SPACE`. -/
def portSpace : ℕ := 65536

/-- What `map_reader` prints. -/
structure VmTaskBlock where
  id : Int32
  taskCount : Int32
  taskList : List Int32
  deriving DecidableEq

/-- The block at an address, as `map_reader` prints it. -/
def readBlock (mem : ℕ → UInt8) (block : ℕ) : VmTaskBlock where
  id := loadInt mem block
  taskCount := loadInt mem (block + 4)
  taskList := (List.range (loadInt mem (block + 4)).toInt.toNat).map fun i ↦
    loadInt mem (block + 8 + i * 4)

/-- `main` of `map_reader`, from its two numbers on. -/
def mapReader (vmCount vmId : Int32) (shared : ℕ → UInt8) : Option VmTaskBlock :=
  if vmCount ≤ 0 ∨ vmId < 0 ∨ vmCount ≤ vmId then none
  else
    let eachTaskc := portSpace / vmCount.toInt.toNat
    let blockSize := 8 + 4 * eachTaskc
    some (readBlock shared (vmId.toInt.toNat * blockSize))

/-! ## What is written -/

/-- The bytes of a block whose tasks follow `current`. -/
def blockBytes (id taskCount : ℕ) (current : Int32) : List UInt8 :=
  intBytes (Int32.ofNat id) ++ intBytes (Int32.ofNat taskCount)
    ++ (List.range taskCount).flatMap fun j ↦ intBytes (current + Int32.ofNat (j + 1))

theorem length_taskBytes (taskCount : ℕ) (current : Int32) :
    ((List.range taskCount).flatMap fun j ↦ intBytes (current + Int32.ofNat (j + 1))).length
      = taskCount * 4 := by
  induction taskCount with
  | zero => exact (Nat.zero_mul 4).symm
  | succ k ih =>
    rw [List.range_succ, List.flatMap_append, List.length_append, ih, List.flatMap_singleton,
      length_intBytes, Nat.succ_mul]

theorem length_blockBytes (id taskCount : ℕ) (current : Int32) :
    (blockBytes id taskCount current).length = 8 + taskCount * 4 := by
  rw [blockBytes, List.length_append, length_taskBytes]
  rfl

theorem foldl_writeTask (block k : ℕ) (s : MapState) :
    (List.range k).foldl (writeTask block) s =
      { mem := overlay (block + 8)
          ((List.range k).flatMap fun j ↦ intBytes (s.current + Int32.ofNat (j + 1))) s.mem
        current := s.current + Int32.ofNat k } := by
  induction k with
  | zero =>
    rw [List.range_zero, List.foldl_nil, List.flatMap_nil, overlay_nil]
    exact congrArg (MapState.mk s.mem) (Int32.add_zero s.current).symm
  | succ k ih =>
    rw [List.range_succ, List.foldl_append, ih, List.foldl_cons, List.foldl_nil, writeTask,
      List.flatMap_append, ← overlay_append, length_taskBytes, List.flatMap_singleton, storeInt,
      Int32.ofNat_add, Int32.add_assoc]
    rfl

/-- **One block.** A round of the outer loop copies the bytes of a block to its place, and nothing
else. -/
theorem writeBlock_eq (vmCount : ℕ) (s : MapState) (i : ℕ) :
    writeBlock vmCount s i =
      { mem := overlay (i * blockSize vmCount) (blockBytes i (eachTask vmCount) s.current) s.mem
        current := s.current + Int32.ofNat (eachTask vmCount) } := by
  rw [writeBlock, foldl_writeTask, blockBytes, ← overlay_append, ← overlay_append]
  rfl

/-! ## The outer loop -/

/-- The bytes block `i` occupies. -/
def blockRange (vmCount i : ℕ) : List ℕ := chunk 0 (blockSize vmCount) i

theorem mem_blockRange {vmCount i p : ℕ} :
    p ∈ blockRange vmCount i ↔ i * blockSize vmCount ≤ p ∧ p < (i + 1) * blockSize vmCount := by
  rw [blockRange, mem_chunk, Nat.zero_add, Nat.zero_add]

/-- **Frame.** Writing a block changes no byte outside it. -/
theorem writeBlock_frame {vmCount i p : ℕ} (s : MapState) (hp : p ∉ blockRange vmCount i) :
    (writeBlock vmCount s i).mem p = s.mem p := by
  rw [mem_blockRange, not_and_or, Nat.not_le, Nat.not_lt, Nat.succ_mul] at hp
  rw [writeBlock_eq]
  rcases hp with hp | hp
  · exact overlay_of_lt _ _ hp
  · exact overlay_of_ge _ (by rwa [length_blockBytes])

theorem lt_totalSize {vmCount i p : ℕ} (hi : i < vmCount) (hp : p ∈ blockRange vmCount i) :
    p < totalSize vmCount := by
  rw [mem_blockRange] at hp
  calc p < (i + 1) * blockSize vmCount := hp.2
    _ ≤ vmCount * blockSize vmCount := Nat.mul_le_mul_right _ hi
    _ = totalSize vmCount := Nat.mul_comm _ _

/-- The tasks before block `i` have been counted. -/
def currentAt (vmCount i : ℕ) : Int32 := Int32.ofNat (i * eachTask vmCount)

/-- What the outer loop keeps: the finished blocks are in memory, and `current` is the last number
used. -/
structure BlocksWritten (vmCount k : ℕ) (s : MapState) : Prop where
  holds : ∀ i < k, Holds s.mem (i * blockSize vmCount)
    (blockBytes i (eachTask vmCount) (currentAt vmCount i))
  current : s.current = currentAt vmCount k

theorem BlocksWritten.step {vmCount k : ℕ} {s : MapState} (hs : BlocksWritten vmCount k s) :
    BlocksWritten vmCount (k + 1) (writeBlock vmCount s k) where
  holds i hi := by
    rcases Nat.lt_succ_iff_lt_or_eq.mp hi with hlt | rfl
    · refine (hs.holds i hlt).congr fun p hge hp ↦ writeBlock_frame s fun hmem ↦ hlt.ne ?_
      rw [length_blockBytes] at hp
      refine chunk_unique (mem_blockRange.mpr ⟨hge, ?_⟩) hmem
      rwa [Nat.succ_mul]
    · rw [writeBlock_eq, hs.current]
      exact holds_overlay _ _ _
  current := by
    rw [writeBlock_eq, hs.current, currentAt, currentAt, Nat.succ_mul, Int32.ofNat_add]

/-- **All blocks are written.** -/
theorem blocksWritten (vmCount k : ℕ) : BlocksWritten vmCount k
    ((List.range k).foldl (writeBlock vmCount) { mem := fun _ ↦ 0, current := 0 }) := by
  induction k with
  | zero =>
    refine ⟨fun i hi ↦ absurd hi (Nat.not_lt_zero i), ?_⟩
    rw [currentAt, Nat.zero_mul]
    rfl
  | succ k ih =>
    rw [List.range_succ, List.foldl_append]
    exact ih.step

/-! ## Reading back -/

/-- The block of machine `i`: its number, how many tasks it has, and the tasks. -/
def vmBlock (vmCount i : ℕ) : VmTaskBlock where
  id := Int32.ofNat i
  taskCount := Int32.ofNat (eachTask vmCount)
  taskList := (chunk 1 (eachTask vmCount) i).map Int32.ofNat

theorem eachTask_le (vmCount : ℕ) : eachTask vmCount ≤ 65536 := Nat.div_le_self 65536 vmCount

theorem readBlock_eq {mem : ℕ → UInt8} {block vmCount i : ℕ}
    (h : Holds mem block (blockBytes i (eachTask vmCount) (currentAt vmCount i))) :
    readBlock mem block = vmBlock vmCount i := by
  rw [blockBytes, holds_append_iff, holds_append_iff, length_intBytes, List.length_append,
    length_intBytes, length_intBytes] at h
  obtain ⟨⟨hid, hcount⟩, htasks⟩ := h
  have hlength : (Int32.ofNat (eachTask vmCount)).toInt.toNat = eachTask vmCount := by
    rw [Int32.toInt_ofNat_of_lt ((eachTask_le vmCount).trans_lt (by decide)), Int.toNat_natCast]
  rw [readBlock, hid.loadInt_eq, hcount.loadInt_eq, hlength, vmBlock]
  congr 1
  refine List.ext_getElem (by rw [List.length_map, List.length_map, length_chunk,
      List.length_range])
    fun j hj hj' ↦ ?_
  rw [List.length_map, List.length_range] at hj
  have htask := htasks.record (fun _ ↦ length_intBytes _) (i := j) (by rwa [List.length_range])
  rw [List.getElem_range] at htask
  rw [List.getElem_map, List.getElem_map, List.getElem_range, htask.loadInt_eq, currentAt,
    ← Int32.ofNat_add]
  simp only [chunk, List.getElem_range']
  congr 1
  omega

/-- **The segment `memory_map` leaves** has the blocks of all machines. -/
theorem readBlock_writeBlocks {vmCount i : ℕ} (hi : i < vmCount) :
    readBlock (writeBlocks vmCount).mem (i * blockSize vmCount) = vmBlock vmCount i :=
  readBlock_eq ((blocksWritten vmCount vmCount).holds i hi)

/-! ## Which tasks are in the lists -/

section

variable {vmCount i k : ℕ}

theorem le_of_mem_chunk (hi : i < vmCount) (hk : k ∈ chunk 1 (eachTask vmCount) i) : k ≤ 65536 := by
  have hend : (i + 1) * eachTask vmCount ≤ vmCount * eachTask vmCount := Nat.mul_le_mul_right _ hi
  have hmul : vmCount * eachTask vmCount ≤ 65536 := Nat.mul_div_le 65536 vmCount
  rw [mem_chunk] at hk
  omega

theorem toInt_ofNat_of_le (h : k ≤ 65536) : (Int32.ofNat k).toInt = k :=
  Int32.toInt_ofNat_of_lt (h.trans_lt (by decide))

theorem eq_of_ofNat_eq {l : ℕ} (hk : k ≤ 65536) (hl : l ≤ 65536)
    (h : Int32.ofNat k = Int32.ofNat l) :
    k = l := by
  have hint := congrArg Int32.toInt h
  rw [toInt_ofNat_of_le hk, toInt_ofNat_of_le hl] at hint
  exact Int.ofNat_inj.mp hint

theorem mem_taskList (hi : i < vmCount) (hk : k ≤ 65536) :
    Int32.ofNat k ∈ (vmBlock vmCount i).taskList ↔ k ∈ chunk 1 (eachTask vmCount) i := by
  constructor
  · intro h
    obtain ⟨l, hl, heq⟩ := List.mem_map.mp h
    rwa [← eq_of_ofNat_eq (le_of_mem_chunk hi hl) hk heq]
  · intro h
    exact List.mem_map_of_mem h

theorem nodup_taskList (hi : i < vmCount) : (vmBlock vmCount i).taskList.Nodup :=
  nodup_chunk.map_on fun _ hk _ hl heq ↦
    eq_of_ofNat_eq (le_of_mem_chunk hi hk) (le_of_mem_chunk hi hl) heq

/-- **The tasks nobody gets** are the last ones, as many as `remain_tasks`. -/
theorem exists_mem_chunk_iff (hk : 1 ≤ k) :
    (∃ i < vmCount, k ∈ chunk 1 (eachTask vmCount) i) ↔ k ≤ 65536 - remainTasks vmCount := by
  have hall : (∃ i < vmCount, k ∈ chunk 1 (eachTask vmCount) i)
      ↔ k ∈ (List.range vmCount).flatMap (chunk 1 (eachTask vmCount)) := by
    simp only [List.mem_flatMap, List.mem_range]
  have hsplit : vmCount * eachTask vmCount + remainTasks vmCount = 65536 :=
    Nat.div_add_mod 65536 vmCount
  rw [hall, flatMap_chunk, List.mem_range'_1]
  omega

end

/-- Every task number is in the list of exactly one machine, and there once. -/
def EveryTaskOnce (vmCount : ℕ) (shared : ℕ → UInt8) : Prop :=
  ∀ task : Int32, 1 ≤ task → task ≤ 65536 →
    ∃ i < vmCount, (readBlock shared (i * blockSize vmCount)).taskList.count task = 1 ∧
      ∀ k < vmCount, k ≠ i → task ∉ (readBlock shared (k * blockSize vmCount)).taskList

theorem exists_eq_ofNat {task : Int32} (h : 1 ≤ task) (h' : task ≤ 65536) :
    ∃ k, 1 ≤ k ∧ k ≤ 65536 ∧ task = Int32.ofNat k := by
  have hge : (1 : ℤ) ≤ task.toInt := Int32.le_iff_toInt_le.mp h
  have hle : task.toInt ≤ (65536 : ℤ) := Int32.le_iff_toInt_le.mp h'
  refine ⟨task.toInt.toNat, by omega, by omega, Int32.toInt_inj.mp ?_⟩
  rw [toInt_ofNat_of_le (by omega)]
  omega

theorem everyTaskOnce_iff (vmCount : ℕ) :
    EveryTaskOnce vmCount (writeBlocks vmCount).mem ↔ vmCount ∣ 65536 := by
  rw [Nat.dvd_iff_mod_eq_zero]
  change _ ↔ remainTasks vmCount = 0
  constructor
  · intro h
    obtain ⟨i, hi, hcount, -⟩ := h 65536 (by decide) (by decide)
    rw [readBlock_writeBlocks hi] at hcount
    have hmem : Int32.ofNat 65536 ∈ (vmBlock vmCount i).taskList :=
      List.count_pos_iff.mp (hcount ▸ Nat.one_pos)
    have hlast := (exists_mem_chunk_iff (by decide)).mp
      ⟨i, hi, (mem_taskList hi (Nat.le_refl 65536)).mp hmem⟩
    omega
  · intro hzero task hge hle
    obtain ⟨k, hk, hk', rfl⟩ := exists_eq_ofNat hge hle
    have hmem : ∃ i < vmCount, k ∈ chunk 1 (eachTask vmCount) i :=
      (exists_mem_chunk_iff hk).mpr (by rwa [hzero])
    obtain ⟨i, hi, hchunk⟩ := hmem
    refine ⟨i, hi, ?_, fun j hj hne hmem ↦ hne ?_⟩
    · rw [readBlock_writeBlocks hi]
      exact List.count_eq_one_of_mem (nodup_taskList hi) ((mem_taskList hi hk').mpr hchunk)
    · rw [readBlock_writeBlocks hj] at hmem
      exact chunk_unique ((mem_taskList hj hk').mp hmem) hchunk

/-! ## The two programs -/

theorem memoryMap_eq {vmCount : Int32} (h : 1 ≤ vmCount) :
    memoryMap vmCount = some (writeBlocks vmCount.toInt.toNat).mem := by
  have hint : (1 : ℤ) ≤ vmCount.toInt := Int32.le_iff_toInt_le.mp h
  refine if_neg fun hle ↦ ?_
  have hle' : vmCount.toInt ≤ (0 : ℤ) := Int32.le_iff_toInt_le.mp hle
  omega

/-- **When the task lists partition the tasks.** Every task number is in exactly one list, once, if
and only if the number of machines divides 65536. -/
theorem taskLists_partition_iff (vmCount : Int32) (h : 1 ≤ vmCount) :
    (∃ shared, memoryMap vmCount = some shared ∧ EveryTaskOnce vmCount.toInt.toNat shared) ↔
      vmCount.toInt.toNat ∣ 65536 := by
  rw [memoryMap_eq h, ← everyTaskOnce_iff]
  constructor
  · rintro ⟨shared, hshared, hall⟩
    rwa [Option.some.inj hshared]
  · intro hall
    exact ⟨_, rfl, hall⟩

/-- Four machines. -/
theorem taskLists_partition_four :
    ∃ shared, memoryMap 4 = some shared ∧ EveryTaskOnce 4 shared :=
  (taskLists_partition_iff 4 (by decide)).mpr (by decide)

/-- **Three machines leave task 65536 out.** -/
theorem threeMachines_lose_a_task :
    (1 : Int32) ≤ 3 ∧ ¬∃ shared, memoryMap 3 = some shared ∧ EveryTaskOnce 3 shared := by
  refine ⟨by decide, ?_⟩
  rintro ⟨shared, hshared, hall⟩
  rw [memoryMap_eq (by decide)] at hshared
  rw [← Option.some.inj hshared] at hall
  exact absurd ((everyTaskOnce_iff 3).mp hall) (by decide)

/-- The blocks are disjoint parts of the segment, and writing one changes no byte of an earlier
one. -/
structure BlocksSeparate (vmCount : ℕ) : Prop where
  inside : ∀ i < vmCount, ∀ p ∈ blockRange vmCount i, p < totalSize vmCount
  disjoint : ∀ i < vmCount, ∀ j < vmCount, i ≠ j → ∀ p ∈ blockRange vmCount i,
    p ∉ blockRange vmCount j
  frame : ∀ (s : MapState) (i j : ℕ), i < j → j < vmCount →
    ∀ p ∈ blockRange vmCount i, (writeBlock vmCount s j).mem p = s.mem p

theorem blocksSeparate (vmCount : ℕ) : BlocksSeparate vmCount where
  inside _ hi _ hp := lt_totalSize hi hp
  disjoint _ _ _ _ hne _ hp hp' := hne (chunk_unique hp hp')
  frame s _ _ hij _ _ hp := writeBlock_frame s fun hp' ↦ hij.ne (chunk_unique hp hp')

theorem mapReader_eq {vmCount vmId : Int32} (hcount : 1 ≤ vmCount) (hid : 0 ≤ vmId)
    (hlt : vmId < vmCount) :
    mapReader vmCount vmId (writeBlocks vmCount.toInt.toNat).mem
      = some (vmBlock vmCount.toInt.toNat vmId.toInt.toNat) := by
  have hcount' : (1 : ℤ) ≤ vmCount.toInt := Int32.le_iff_toInt_le.mp hcount
  have hid' : (0 : ℤ) ≤ vmId.toInt := Int32.le_iff_toInt_le.mp hid
  have hlt' : vmId.toInt < vmCount.toInt := Int32.lt_iff_toInt_lt.mp hlt
  set n := vmCount.toInt.toNat with hn
  have hi : vmId.toInt.toNat < n := by omega
  have hvalid : ¬(vmCount ≤ 0 ∨ vmId < 0 ∨ vmCount ≤ vmId) := by
    rw [Int32.le_iff_toInt_le, Int32.lt_iff_toInt_lt, Int32.le_iff_toInt_le]
    change ¬(vmCount.toInt ≤ 0 ∨ vmId.toInt < 0 ∨ vmCount.toInt ≤ vmId.toInt)
    omega
  -- the reader multiplies in the other order
  have hsize : 8 + 4 * (portSpace / n) = blockSize n := by
    rw [Nat.mul_comm]
    rfl
  rw [mapReader, if_neg hvalid]
  simp only [← hn]
  rw [hsize, readBlock_writeBlocks hi]

theorem map_toInt_taskList {vmCount i : ℕ} (hi : i < vmCount) :
    (vmBlock vmCount i).taskList.map Int32.toInt
      = (List.range' (i * eachTask vmCount + 1) (eachTask vmCount)).map Int.ofNat := by
  change ((chunk 1 (eachTask vmCount) i).map Int32.ofNat).map Int32.toInt = _
  rw [List.map_map, Nat.add_comm, ← chunk]
  exact List.map_congr_left fun k hk ↦ toInt_ofNat_of_le (le_of_mem_chunk hi hk)

/-- **What the reader gets.** Run with the same number of machines, it prints the number of the
machine, the number of its tasks and the tasks, also when the lists are empty. The blocks are
disjoint parts of the segment, and writing one changes no byte of an earlier one. -/
theorem mapReader_memoryMap (vmCount vmId : Int32) (hcount : 1 ≤ vmCount) (hid : 0 ≤ vmId)
    (hlt : vmId < vmCount) :
    (∃ shared block, memoryMap vmCount = some shared ∧ mapReader vmCount vmId shared = some block ∧
      block.id = vmId ∧ block.taskCount.toInt = (65536 / vmCount.toInt.toNat : ℕ) ∧
      block.taskList.map Int32.toInt
        = (List.range' (vmId.toInt.toNat * (65536 / vmCount.toInt.toNat) + 1)
            (65536 / vmCount.toInt.toNat)).map Int.ofNat) ∧
      BlocksSeparate vmCount.toInt.toNat := by
  have hid' : (0 : ℤ) ≤ vmId.toInt := Int32.le_iff_toInt_le.mp hid
  have hlt' : vmId.toInt < vmCount.toInt := Int32.lt_iff_toInt_lt.mp hlt
  have hi : vmId.toInt.toNat < vmCount.toInt.toNat := by omega
  refine ⟨⟨_, vmBlock vmCount.toInt.toNat vmId.toInt.toNat, memoryMap_eq hcount,
    mapReader_eq hcount hid hlt, ?_, ?_, ?_⟩, blocksSeparate _⟩
  · have hbound := vmId.toInt_lt
    apply Int32.toInt_inj.mp
    change (Int32.ofNat vmId.toInt.toNat).toInt = vmId.toInt
    rw [Int32.toInt_ofNat_of_lt (by omega), Int.toNat_of_nonneg hid']
  · exact toInt_ofNat_of_le (eachTask_le _)
  · exact map_toInt_taskList hi

/-- Machine 2 of 5: 13107 tasks, from 26215 on. -/
theorem mapReader_memoryMap_five :
    ∃ shared block, memoryMap 5 = some shared ∧ mapReader 5 2 shared = some block ∧
      block.id = 2 ∧ block.taskCount.toInt = 13107 ∧
      block.taskList.map Int32.toInt = (List.range' 26215 13107).map Int.ofNat :=
  (mapReader_memoryMap 5 2 (by decide) (by decide) (by decide)).1

end NatGhost
