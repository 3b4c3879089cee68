import NatGhost.Foundation.CText
import NatGhost.Foundation.Chunks
import NatGhost.Scan.Worker

/-!
# The ranges of the workers

`run_master` divides the ports 1 to 65535 among its workers: each gets the same number of ports, and
the last one whatever is left. It starts a worker with a command line, on which the two numbers of
the range stand as text, and the worker reads them back.

The number of processes is a parameter here; in the source it is the constant `PROCESS_COUNT`. A
command line is split into arguments by the rules of the C runtime on Windows: the program name is
what stands between the quotes, and the other arguments are separated by blanks.
-/

namespace NatGhost

/-! ## The master -/

/-- `PROCESS_COUNT`. -/
def processCount : ℕ := 16

/-- The two numbers a worker is started with. -/
structure PortRange where
  startPort : UInt16
  endPort : UInt16
  deriving DecidableEq

/-- `total_ports_to_scan`. -/
def totalPortsToScan : UInt16 := 65535

/-- `ports_per_process`. -/
def portsPerProcess (processCount : ℕ) : ℕ := totalPortsToScan.toNat / processCount

/-- The range `run_master` computes for worker `i`. -/
def masterRange (processCount i : ℕ) : PortRange where
  startPort := UInt16.ofNat (i * portsPerProcess processCount + 1)
  endPort :=
    if i = processCount - 1 then totalPortsToScan
    else UInt16.ofNat ((i + 1) * portsPerProcess processCount)

/-- The addresses `main` passes to `run_master`. -/
def masterSourceIp : List Char := "192.168.1.15".toList

/-- The addresses `main` passes to `run_master`. -/
def masterDestIp : List Char := "192.168.1.254".toList

/-- `"\"%s\" %s %s %u %u"`. -/
def commandText (selfPath sourceIp destIp : List Char) (range : PortRange) : List Char :=
  '"' :: selfPath ++ '"' :: ' ' :: sourceIp ++ ' ' :: destIp ++ ' ' ::
    Nat.toDigits 10 range.startPort.toNat ++ ' ' :: Nat.toDigits 10 range.endPort.toNat

/-- The `sprintf` of `run_master` into `command_line`; `none` if the text and its NUL do not fit
into the 256 bytes. -/
def commandLine (selfPath sourceIp destIp : List Char) (range : PortRange) : Option (List Char) :=
  let text := commandText selfPath sourceIp destIp range
  if text.length < 256 then some text else none

/-! ## The arguments of a worker -/

/-- A blank between arguments. -/
def isArgSpace (c : Char) : Bool := c == ' ' || c == '\t'

/-- One argument, and what follows it: blanks end it outside quotes, quotes switch, backslashes in
front of a quote are halved and an odd one makes the quote literal. `slashes` counts the backslashes
just read. -/
def nextArg (quoted : Bool) (slashes : ℕ) (acc : List Char) : List Char → List Char × List Char
  | [] => (acc ++ List.replicate slashes '\\', [])
  | c :: text =>
    if c = '\\' then nextArg quoted (slashes + 1) acc text
    else if c = '"' then
      let acc := acc ++ List.replicate (slashes / 2) '\\'
      if slashes % 2 = 0 then nextArg (!quoted) 0 acc text else nextArg quoted 0 (acc ++ ['"']) text
    else
      let acc := acc ++ List.replicate slashes '\\'
      if !quoted && isArgSpace c then (acc, c :: text) else nextArg quoted 0 (acc ++ [c]) text

/-- The arguments behind the program name, at most `fuel` of them. -/
def splitArgs : ℕ → List Char → List (List Char)
  | 0, _ => []
  | fuel + 1, text =>
    match text.dropWhile isArgSpace with
    | [] => []
    | c :: text =>
      let arg := nextArg false 0 [] (c :: text)
      arg.1 :: splitArgs fuel arg.2

/-- The program name: up to a blank outside quotes. Backslashes are ordinary characters. -/
def programName (quoted : Bool) (acc : List Char) : List Char → List Char × List Char
  | [] => (acc, [])
  | c :: text =>
    if c = '"' then programName (!quoted) acc text
    else if !quoted && isArgSpace c then (acc, c :: text)
    else programName quoted (acc ++ [c]) text

/-- `argv` of a process started with this command line. -/
def argvOf (text : List Char) : List (List Char) :=
  let program := programName false [] text
  program.1 :: splitArgs text.length program.2

/-- What `run_worker` is called with. -/
structure WorkerCall where
  sourceIp : List Char
  destIp : List Char
  range : PortRange

/-- `run_worker_from_args`: the call of `run_worker`, if there is one. -/
def runWorkerFromArgs (argv : List (List Char)) : Option WorkerCall :=
  match argv with
  | [_, sourceIp, destIp, startText, endText] =>
    some ⟨sourceIp, destIp, ⟨UInt16.ofInt (atoi startText), UInt16.ofInt (atoi endText)⟩⟩
  | _ => none

/-! ## The ranges -/

def PortRange.Contains (range : PortRange) (port : ℕ) : Prop :=
  range.startPort.toNat ≤ port ∧ port ≤ range.endPort.toNat

/-- The ranges number 0 to `count - 1` cut `first` to `last` into pieces. -/
structure IsPartition (ranges : ℕ → PortRange) (count first last : ℕ) : Prop where
  nonempty : ∀ i < count, (ranges i).startPort ≤ (ranges i).endPort
  consecutive : ∀ i, i + 1 < count →
    (ranges (i + 1)).startPort.toNat = (ranges i).endPort.toNat + 1
  disjoint : ∀ i < count, ∀ j < count, i ≠ j → ∀ port, (ranges i).Contains port →
    ¬(ranges j).Contains port
  union : ∀ port, (∃ i < count, (ranges i).Contains port) ↔ first ≤ port ∧ port ≤ last

section

variable {P i : ℕ}

theorem portsPerProcess_mul_le (P : ℕ) : P * portsPerProcess P ≤ 65535 := Nat.mul_div_le 65535 P

theorem portsPerProcess_pos (hP : 1 ≤ P) (hP' : P ≤ 65535) : 0 < portsPerProcess P :=
  Nat.div_pos hP' hP

theorem toNat_startPort (hP : 1 ≤ P) (hP' : P ≤ 65535) (hi : i < P) :
    (masterRange P i).startPort.toNat = i * portsPerProcess P + 1 := by
  have hpos := portsPerProcess_pos hP hP'
  have hle : (i + 1) * portsPerProcess P ≤ P * portsPerProcess P := Nat.mul_le_mul_right _ hi
  rw [Nat.succ_mul] at hle
  have hmul := portsPerProcess_mul_le P
  exact UInt16.toNat_ofNat_of_lt' (show i * portsPerProcess P + 1 < 65536 by omega)

theorem toNat_endPort (hi : i < P) : (masterRange P i).endPort.toNat
    = if i = P - 1 then 65535 else (i + 1) * portsPerProcess P := by
  have hle : (i + 1) * portsPerProcess P ≤ P * portsPerProcess P := Nat.mul_le_mul_right _ hi
  have hmul := portsPerProcess_mul_le P
  rw [masterRange]
  split_ifs
  · rfl
  · exact UInt16.toNat_ofNat_of_lt' (show (i + 1) * portsPerProcess P < 65536 by omega)

theorem contains_masterRange_iff (hP : 1 ≤ P) (hP' : P ≤ 65535) (hi : i < P) {port : ℕ} :
    (masterRange P i).Contains port ↔ i * portsPerProcess P + 1 ≤ port ∧
      port ≤ if i = P - 1 then 65535 else (i + 1) * portsPerProcess P := by
  rw [PortRange.Contains, toNat_startPort hP hP' hi, toNat_endPort hi]

theorem masterRange_end_lt (hP : 1 ≤ P) (hP' : P ≤ 65535) {j : ℕ} (hij : i < j) (hj : j < P) :
    (masterRange P i).endPort.toNat < (masterRange P j).startPort.toNat := by
  rw [toNat_endPort (hij.trans hj), toNat_startPort hP hP' hj, if_neg (by omega)]
  exact Nat.lt_succ_of_le (Nat.mul_le_mul_right _ hij)

/-- **The ranges of the workers** partition the ports from 1 on. -/
theorem isPartition_masterRange (hP : 1 ≤ P) (hP' : P ≤ 65535) :
    IsPartition (masterRange P) P 1 65535 where
  nonempty i hi := by
    have hpos := portsPerProcess_pos hP hP'
    have hle : (i + 1) * portsPerProcess P ≤ P * portsPerProcess P := Nat.mul_le_mul_right _ hi
    have hmul := portsPerProcess_mul_le P
    rw [Nat.succ_mul] at hle
    rw [UInt16.le_iff_toNat_le, toNat_startPort hP hP' hi, toNat_endPort hi, Nat.succ_mul]
    split_ifs <;> omega
  consecutive i hi := by
    rw [toNat_startPort hP hP' hi, toNat_endPort (Nat.lt_of_succ_lt hi), if_neg (by omega)]
  disjoint i hi j hj hne port hport hport' := by
    rcases Nat.lt_or_gt_of_ne hne with hlt | hgt
    · have := masterRange_end_lt hP hP' hlt hj
      exact absurd (hport'.1.trans hport.2) (Nat.not_le.mpr this)
    · have := masterRange_end_lt hP hP' hgt hi
      exact absurd (hport.1.trans hport'.2) (Nat.not_le.mpr this)
  union port := by
    have hmul := portsPerProcess_mul_le P
    constructor
    · rintro ⟨i, hi, hport⟩
      have hend := (masterRange P i).endPort.toNat_lt
      rw [PortRange.Contains, toNat_startPort hP hP' hi] at hport
      omega
    · rintro ⟨hfirst, hlast⟩
      have hchunk := mem_chunk_div (portsPerProcess_pos hP hP') hfirst
      rw [mem_chunk] at hchunk
      set k := (port - 1) / portsPerProcess P
      -- behind the last full chunk everything belongs to the last worker
      rcases Nat.lt_or_ge k (P - 1) with hk | hk
      · refine ⟨k, by omega, (contains_masterRange_iff hP hP' (by omega)).mpr ?_⟩
        rw [if_neg hk.ne]
        omega
      · have hle : (P - 1) * portsPerProcess P ≤ k * portsPerProcess P := Nat.mul_le_mul_right _ hk
        refine ⟨P - 1, by omega, (contains_masterRange_iff hP hP' (by omega)).mpr ?_⟩
        rw [if_pos rfl]
        omega

end

/-! ## From the command line to the worker -/

/-- Text that is one argument as it stands. -/
structure IsArg (text : List Char) : Prop where
  ne_nil : text ≠ []
  isPlain : ∀ c ∈ text, c ≠ '\\' ∧ c ≠ '"' ∧ isArgSpace c = false

/-- The arguments of a command line, each behind a blank. -/
def argText (args : List (List Char)) : List Char := args.flatMap (' ' :: ·)

theorem nextArg_append {text rest : List Char}
    (h : ∀ c ∈ text, c ≠ '\\' ∧ c ≠ '"' ∧ isArgSpace c = false) (acc : List Char)
    (hrest : rest = [] ∨ ∃ more, rest = ' ' :: more) :
    nextArg false 0 acc (text ++ rest) = (acc ++ text, rest) := by
  induction text generalizing acc with
  | nil =>
    rcases hrest with rfl | ⟨more, rfl⟩
    · rfl
    · rw [List.nil_append, nextArg, if_neg (by decide), if_neg (by decide)]
      rfl
  | cons c text ih =>
    obtain ⟨hslash, hquote, hspace⟩ := h c List.mem_cons_self
    rw [List.cons_append, nextArg, if_neg hslash, if_neg hquote, hspace]
    change nextArg false 0 (acc ++ [] ++ [c]) (text ++ rest) = _
    rw [ih fun d hd ↦ h d (List.mem_cons_of_mem c hd), List.append_nil, List.append_assoc,
      List.singleton_append]

theorem argText_head (args : List (List Char)) :
    argText args = [] ∨ ∃ more, argText args = ' ' :: more := by
  cases args with
  | nil => exact Or.inl rfl
  | cons arg args => exact Or.inr ⟨arg ++ argText args, rfl⟩

theorem length_le_argText (args : List (List Char)) : args.length ≤ (argText args).length := by
  induction args with
  | nil => exact Nat.le_refl 0
  | cons arg args ih =>
    change args.length + 1 ≤ ((' ' :: arg) ++ argText args).length
    rw [List.length_append, List.length_cons]
    omega

theorem splitArgs_argText {args : List (List Char)} (h : ∀ arg ∈ args, IsArg arg) {fuel : ℕ}
    (hfuel : args.length ≤ fuel) : splitArgs fuel (argText args) = args := by
  induction args generalizing fuel with
  | nil => cases fuel <;> rfl
  | cons arg args ih =>
    cases fuel with
    | zero => exact absurd hfuel (Nat.not_succ_le_zero _)
    | succ fuel =>
      have harg := h arg List.mem_cons_self
      have hdrop : (argText (arg :: args)).dropWhile isArgSpace = arg ++ argText args := by
        change (' ' :: (arg ++ argText args)).dropWhile isArgSpace = _
        rw [List.dropWhile_cons_of_pos rfl]
        cases arg with
        | nil => exact absurd rfl harg.ne_nil
        | cons c text =>
          have hc := (harg.isPlain c List.mem_cons_self).2.2
          rw [List.cons_append, List.dropWhile_cons_of_neg (by rw [hc]; exact Bool.false_ne_true)]
      have hnext := nextArg_append harg.isPlain [] (argText_head args)
      have hrest := ih (fun a ha ↦ h a (List.mem_cons_of_mem arg ha)) (Nat.le_of_succ_le_succ hfuel)
      rw [splitArgs, hdrop]
      cases htext : arg ++ argText args with
      | nil => exact absurd (List.append_eq_nil_iff.mp htext).1 harg.ne_nil
      | cons c text =>
        rw [htext] at hnext
        simp only [hnext, hrest, List.nil_append]

theorem programName_append {text : List Char} (h : '"' ∉ text) (acc rest : List Char) :
    programName true acc (text ++ '"' :: rest) = programName false (acc ++ text) rest := by
  induction text generalizing acc with
  | nil => rw [List.nil_append, programName, if_pos rfl, List.append_nil]; rfl
  | cons c text ih =>
    rw [List.mem_cons, not_or] at h
    rw [List.cons_append, programName, if_neg (Ne.symm h.1)]
    change programName true (acc ++ [c]) (text ++ '"' :: rest) = _
    rw [ih h.2, List.append_assoc, List.singleton_append]

/-- **Splitting a command line** of a program path in quotes and plain arguments. -/
theorem argvOf_quoted {path : List Char} (hpath : '"' ∉ path) {args : List (List Char)}
    (h : ∀ arg ∈ args, IsArg arg) :
    argvOf ('"' :: path ++ '"' :: argText args) = path :: args := by
  have hprogram : programName false [] ('"' :: path ++ '"' :: argText args)
      = (path, argText args) := by
    rw [List.cons_append, programName, if_pos rfl]
    change programName true [] (path ++ '"' :: argText args) = _
    rw [programName_append hpath, List.nil_append]
    rcases argText_head args with hnil | ⟨more, hmore⟩
    · rw [hnil, programName]
    · rw [hmore, programName, if_neg (by decide)]
      rfl
  rw [argvOf, hprogram]
  simp only
  rw [splitArgs_argText h]
  calc args.length ≤ (argText args).length := length_le_argText args
    _ ≤ ('"' :: argText args).length := Nat.le_succ _
    _ ≤ ('"' :: path ++ '"' :: argText args).length := List.length_append ▸ Nat.le_add_left _ _

theorem IsNumeral.isArg {text : List Char} {k : ℕ} (h : IsNumeral text k) : IsArg text where
  ne_nil := h.ne_nil
  isPlain c hc := by
    have hdigit := h.isDigit c hc
    refine ⟨ne_of_isDigit hdigit rfl, ne_of_isDigit hdigit rfl, ?_⟩
    have hspace : c ≠ ' ' := ne_of_isDigit hdigit rfl
    have htab : c ≠ '\t' := ne_of_isDigit hdigit rfl
    rw [isArgSpace, beq_false_of_ne hspace, beq_false_of_ne htab]
    rfl

theorem ofInt_atoi_toDigits (x : UInt16) : UInt16.ofInt (atoi (Nat.toDigits 10 x.toNat)) = x := by
  have hx := x.toNat_lt
  have hmod : ((x.toNat : ℤ) % 2 ^ 16).toNat = x.toNat := by omega
  rw [atoi_toDigits, UInt16.ofInt, hmod, UInt16.ofNat_toNat]

theorem runWorkerFromArgs_toDigits (program sourceIp destIp : List Char) (range : PortRange) :
    runWorkerFromArgs [program, sourceIp, destIp, Nat.toDigits 10 range.startPort.toNat,
      Nat.toDigits 10 range.endPort.toNat] = some ⟨sourceIp, destIp, range⟩ := by
  rw [runWorkerFromArgs, ofInt_atoi_toDigits, ofInt_atoi_toDigits]

theorem commandText_eq (selfPath sourceIp destIp : List Char) (range : PortRange) :
    commandText selfPath sourceIp destIp range
      = '"' :: selfPath ++ '"' :: argText [sourceIp, destIp,
        Nat.toDigits 10 range.startPort.toNat, Nat.toDigits 10 range.endPort.toNat] := by
  simp [commandText, argText]

theorem isArg_of_all {text : List Char} (hne : text ≠ [])
    (h : text.all (fun c ↦ c != '\\' && c != '"' && !isArgSpace c) = true) : IsArg text where
  ne_nil := hne
  isPlain c hc := by
    have htest := List.all_eq_true.mp h c hc
    rw [Bool.and_eq_true, Bool.and_eq_true, bne_iff_ne, bne_iff_ne, Bool.not_eq_true'] at htest
    exact ⟨htest.1.1, htest.1.2, htest.2⟩

theorem isArg_masterSourceIp : IsArg masterSourceIp := isArg_of_all (by decide) (by decide)

theorem isArg_masterDestIp : IsArg masterDestIp := isArg_of_all (by decide) (by decide)

theorem commandLine_eq {selfPath : List Char} (h : selfPath.length ≤ 214) (range : PortRange) :
    commandLine selfPath masterSourceIp masterDestIp range
      = some (commandText selfPath masterSourceIp masterDestIp range) := by
  have hdigits : ∀ x : UInt16, (Nat.toDigits 10 x.toNat).length ≤ 5 := fun x ↦
    (Nat.length_toDigits_le_iff (by decide) (by decide)).mpr (x.toNat_lt.trans (by decide))
  have hstart := hdigits range.startPort
  have hend := hdigits range.endPort
  have hsource : masterSourceIp.length = 12 := by decide
  have hdest : masterDestIp.length = 13 := by decide
  refine if_pos ?_
  simp only [commandText, List.length_append, List.length_cons, hsource, hdest]
  omega

theorem runWorkerFromArgs_argvOf {selfPath : List Char} (h : '"' ∉ selfPath) (range : PortRange) :
    runWorkerFromArgs (argvOf (commandText selfPath masterSourceIp masterDestIp range))
      = some ⟨masterSourceIp, masterDestIp, range⟩ := by
  rw [commandText_eq, argvOf_quoted h, runWorkerFromArgs_toDigits]
  intro arg harg
  simp only [List.mem_cons, List.not_mem_nil, or_false] at harg
  rcases harg with rfl | rfl | rfl | rfl
  · exact isArg_masterSourceIp
  · exact isArg_masterDestIp
  · exact (isNumeral_toDigits _).isArg
  · exact (isNumeral_toDigits _).isArg

/-- **The master's division of the ports.** For every number of processes the numbers of a range fit
into sixteen bits, the ranges partition the ports 1 to 65535, and every worker gets the range
computed for it: from whatever arguments carry the two printed numbers, and in particular from the
command line, whose program path has no quotes in it and leaves room for the rest in the buffer. -/
theorem masterRanges_reach_workers (P : ℕ) (hP : 1 ≤ P) (hP' : P ≤ 65535) :
    (∀ i < P, (masterRange P i).startPort.toNat = i * (65535 / P) + 1 ∧
      (masterRange P i).endPort.toNat = if i = P - 1 then 65535 else (i + 1) * (65535 / P)) ∧
      IsPartition (masterRange P) P 1 65535 ∧
      (∀ i < P, ∀ program sourceIp destIp : List Char,
        runWorkerFromArgs [program, sourceIp, destIp,
          Nat.toDigits 10 (masterRange P i).startPort.toNat,
          Nat.toDigits 10 (masterRange P i).endPort.toNat]
          = some ⟨sourceIp, destIp, masterRange P i⟩) ∧
      ∀ i < P, ∀ selfPath : List Char, '"' ∉ selfPath → selfPath.length ≤ 214 →
        ∃ text, commandLine selfPath masterSourceIp masterDestIp (masterRange P i) = some text ∧
          runWorkerFromArgs (argvOf text)
            = some ⟨masterSourceIp, masterDestIp, masterRange P i⟩ := by
  refine ⟨fun i hi ↦ ⟨toNat_startPort hP hP' hi, toNat_endPort hi⟩, isPartition_masterRange hP hP',
    ?_, ?_⟩
  · intro i _ program sourceIp destIp
    exact runWorkerFromArgs_toDigits program sourceIp destIp (masterRange P i)
  · intro i _ selfPath hquote hlength
    exact ⟨_, commandLine_eq hlength (masterRange P i), runWorkerFromArgs_argvOf hquote _⟩

/-- The sixteen processes of the source. -/
theorem masterRanges_reach_workers_sixteen :
    IsPartition (masterRange processCount) 16 1 65535 ∧
      ∃ text, commandLine "C:\\natghost forge\\forge.exe".toList masterSourceIp masterDestIp
          (masterRange processCount 15) = some text ∧
        runWorkerFromArgs (argvOf text) = some ⟨masterSourceIp, masterDestIp, ⟨61426, 65535⟩⟩ :=
  have h := masterRanges_reach_workers processCount (by decide) (by decide)
  ⟨h.2.1, h.2.2.2 15 (by decide) "C:\\natghost forge\\forge.exe".toList (by decide) (by decide)⟩

end NatGhost
