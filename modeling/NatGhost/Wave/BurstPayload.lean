import NatGhost.Wave.Burst

/-!
# What a burst discloses

The rows of `burst_worker`'s array `payload` are not initialised. `snprintf` writes the text and a
NUL to a row, ten bytes for a port, and `sendmmsg` is given all twenty. What is behind the NUL is
what was on the stack before, and it is sent: two runs that differ there send different datagrams.

Here the array is the hidden input. The port is an `int` and may be any, so the text has up to
fifteen characters, and at least four bytes of a row are sent as they were.
-/

namespace NatGhost

/-! ## The code -/

/-- `base_port + i`. -/
def slotPort (basePort : Int32) (i : ℕ) : Int32 := basePort + Int32.ofNat i

/-- `"PORT%05d"` for any `int`. -/
def slotText (basePort : Int32) (i : ℕ) : List Char :=
  "PORT".toList ++ printPaddedInt 5 (slotPort basePort i).toInt

/-- The bytes of slot `i` that are given to `sendmmsg`, with what the array held. -/
def sentPayload (payload : ℕ → Vector UInt8 20) (basePort : Int32) (i : ℕ) : List UInt8 :=
  snprintf payloadSize (utf8Bytes (slotText basePort i)) (payload i).toList

/-- How many bytes of its row the text of a slot and its NUL take. -/
def writtenBytes (basePort : Int32) (i : ℕ) : ℕ := (slotText basePort i).length + 1

/-! ## The text -/

section

variable (basePort : Int32) (i : ℕ)

theorem isAscii_slotText : ∀ c ∈ slotText basePort i, c.toNat < 128 := by
  intro c hc
  rcases List.mem_append.mp hc with hc | hc
  · have hall : "PORT".toList.all (fun c ↦ decide (c.toNat < 128)) = true := by decide
    exact of_decide_eq_true (List.all_eq_true.mp hall c hc)
  · exact isAscii_printPaddedInt 5 _ c hc

theorem length_utf8Bytes_slotText :
    (utf8Bytes (slotText basePort i)).length + 1 = writtenBytes basePort i := by
  rw [length_utf8Bytes (isAscii_slotText basePort i), writtenBytes]

theorem writtenBytes_add_four_le : writtenBytes basePort i + 4 ≤ payloadSize := by
  have hlo := (slotPort basePort i).le_toInt
  have hhi := (slotPort basePort i).toInt_lt
  have hlength : (printPaddedInt 5 (slotPort basePort i).toInt).length ≤ 10 + 1 :=
    length_printPaddedInt_le (by decide) (by decide) (by omega)
  rw [writtenBytes, slotText, List.length_append, payloadSize]
  have hmark : "PORT".toList.length = 4 := rfl
  omega

theorem writtenBytes_of_port (h₀ : 0 ≤ (slotPort basePort i).toInt)
    (h : (slotPort basePort i).toInt < 100000) : writtenBytes basePort i = 10 := by
  obtain ⟨k, hk⟩ := Int.eq_ofNat_of_zero_le h₀
  have hlength : (printPadded 5 k).length = 5 := length_printPadded (by decide) (by omega)
  rw [writtenBytes, slotText, hk, List.length_append]
  change 4 + (printPadded 5 k).length + 1 = 10
  rw [hlength]

/-- **What is sent**: the text, its NUL, and the rest of the row as it was. -/
theorem sentPayload_eq (payload : ℕ → Vector UInt8 20) :
    sentPayload payload basePort i = utf8Bytes (slotText basePort i)
      ++ 0 :: (payload i).toList.drop (writtenBytes basePort i) := by
  have hlength := length_utf8Bytes_slotText basePort i
  have hfits := writtenBytes_add_four_le basePort i
  rw [sentPayload, snprintf_of_lt (by omega), hlength]

end

theorem payload_burstMessages (payload : ℕ → Vector UInt8 20) {basePort i : ℕ}
    (h : basePort + i < 2 ^ 31) :
    burstPayload (payload i) (basePort + i) = sentPayload payload (Int32.ofNat basePort) i := by
  have hport : (slotPort (Int32.ofNat basePort) i).toInt = (basePort + i : ℕ) := by
    rw [slotPort, ← Int32.ofNat_add, Int32.toInt_ofNat_of_lt h]
  rw [burstPayload, sentPayload, slotText, hport]
  rfl

/-- **When two runs of a burst cannot be told apart**: if the arrays agree behind the text. There
are always at least four such bytes, and for a port there are ten. -/
theorem sentPayload_eq_iff (basePort : Int32) (i : ℕ) (payload payload' : ℕ → Vector UInt8 20) :
    (sentPayload payload basePort i = sentPayload payload' basePort i ↔
      (payload i).toList.drop (writtenBytes basePort i)
        = (payload' i).toList.drop (writtenBytes basePort i)) ∧
      writtenBytes basePort i + 4 ≤ payloadSize ∧
      (0 ≤ (slotPort basePort i).toInt → (slotPort basePort i).toInt < 100000 →
        writtenBytes basePort i = 10) := by
  refine ⟨?_, writtenBytes_add_four_le basePort i, writtenBytes_of_port basePort i⟩
  rw [sentPayload_eq, sentPayload_eq, List.append_cancel_left_eq, List.cons.injEq]
  exact and_iff_right rfl

/-- **A byte of the stack is sent.** -/
theorem stackByte_sent :
    ¬∀ (basePort : Int32) (i : ℕ) (payload payload' : ℕ → Vector UInt8 20), i < portsPerThread →
      sentPayload payload basePort i = sentPayload payload' basePort i := by
  intro h
  have hsame := h 512 0 (fun _ ↦ Vector.replicate 20 0) (fun _ ↦ Vector.replicate 20 1) (by decide)
  exact absurd hsame (by decide)

end NatGhost
