import Mathlib.Logic.Function.Basic
import Mathlib.Order.Lattice
import Mathlib.Tactic.Linarith
import NatGhost.Stun.Wire

/-!
# The table of STUN servers

`stun_ctx_t` and the small functions over one entry: sending a request, deciding whether an entry
has a usable address, and comparing two entries by round-trip time. The table itself is a function
on `Fin n`, with `n` the current `stun_count`, so an index into it is always in range.

## Time

`clock_gettime` returns a normalised `struct timespec`, and that is part of the type here. The only
thing the program computes from two readings is a difference in milliseconds, in `long` arithmetic
whose division truncates toward zero; `elapsedMs_nonneg` is where the truncation is dealt with.
-/

namespace NatGhost

/-! ## Clock readings -/

/-- A normalised `struct timespec`. -/
structure Timespec where
  tvSec : ℤ
  tvNsec : ℤ
  /-- Nanoseconds are never negative. -/
  nsec_nonneg : 0 ≤ tvNsec
  /-- Nanoseconds stay below a second. -/
  nsec_lt : tvNsec < 1000000000

namespace Timespec

instance : NeZero 1000000000 := ⟨Nat.succ_ne_zero 999999999⟩

def reading (tvSec : ℤ) (tvNsec : Fin 1000000000) : Timespec where
  tvSec := tvSec
  tvNsec := tvNsec
  nsec_nonneg := Int.natCast_nonneg _
  nsec_lt := Int.ofNat_lt.mpr tvNsec.isLt

@[simp] theorem reading_tvSec (tvSec : ℤ) (tvNsec : Fin 1000000000) :
    (reading tvSec tvNsec).tvSec = tvSec := rfl

@[simp] theorem reading_tvNsec (tvSec : ℤ) (tvNsec : Fin 1000000000) :
    (reading tvSec tvNsec).tvNsec = tvNsec := rfl

def nanos (t : Timespec) : ℤ := t.tvSec * 1000000000 + t.tvNsec

/-- Readings are ordered as instants. -/
instance : Preorder Timespec where
  le s t := s.nanos ≤ t.nanos
  le_refl _ := Int.le_refl _
  le_trans _ _ _ := Int.le_trans

instance : DecidableLE Timespec := fun s t ↦ inferInstanceAs (Decidable (s.nanos ≤ t.nanos))

theorem le_iff {s t : Timespec} : s ≤ t ↔ s.nanos ≤ t.nanos := Iff.rfl

/-- `(later.tv_sec - earlier.tv_sec)*1000 + (later.tv_nsec - earlier.tv_nsec)/1000000`, with the C
division. -/
def elapsedMs (later earlier : Timespec) : ℤ :=
  (later.tvSec - earlier.tvSec) * 1000 + (later.tvNsec - earlier.tvNsec).tdiv 1000000

theorem elapsedMs_nonneg {later earlier : Timespec} (h : earlier ≤ later) :
    0 ≤ elapsedMs later earlier := by
  rw [le_iff, nanos, nanos] at h
  have h₁ := later.nsec_nonneg
  have h₂ := later.nsec_lt
  have h₃ := earlier.nsec_nonneg
  have h₄ := earlier.nsec_lt
  rw [elapsedMs]
  rcases Int.le_total earlier.tvNsec later.tvNsec with hle | hle
  · rw [Int.tdiv_eq_ediv_of_nonneg (by omega)]
    omega
  · have hneg : later.tvNsec - earlier.tvNsec = -(earlier.tvNsec - later.tvNsec) := by omega
    rw [hneg, Int.neg_tdiv, Int.tdiv_eq_ediv_of_nonneg (by omega)]
    omega

end Timespec

/-! ## Table entries -/

/-- The part of `struct sockaddr_in` the program looks at. -/
structure SockaddrIn where
  sinPort : UInt16
  sinAddr : UInt32
  deriving DecidableEq

/-- `stun_ctx_t`. The character arrays are kept as the text up to their terminator. -/
structure StunCtx where
  host : String
  ipStr : String
  port : UInt16
  addr : SockaddrIn
  transactionId : Vector UInt8 12
  sendTime : Timespec
  rttMs : ℤ
  publicIp : String
  publicPort : UInt16

/-- `stun_list[0 .. stun_count)`. -/
abbrev StunList (n : ℕ) := Fin n → StunCtx

namespace StunCtx

/-- The entry has been answered: `rtt_ms` no longer holds the sentinel. -/
def Answered (ctx : StunCtx) : Prop := ctx.rttMs ≠ -1

def mapped (ctx : StunCtx) : MappedOut := ⟨ctx.publicIp, ctx.publicPort⟩

instance (ctx : StunCtx) : Decidable ctx.Answered := inferInstanceAs (Decidable (_ ≠ _))

end StunCtx

variable {n : ℕ}

/-- `is_valid_stun`. -/
def isValidStun (stunList : StunList n) (i : Fin n) : Prop :=
  (stunList i).publicIp ≠ "" ∧ (stunList i).publicPort ≠ 0

instance (stunList : StunList n) (i : Fin n) : Decidable (isValidStun stunList i) :=
  inferInstanceAs (Decidable (_ ∧ _))

/-- `cmp_rtt`, as `qsort` calls it on two entries. -/
def cmpRtt (a b : StunCtx) : ℤ :=
  if a.rttMs < 0 ∧ b.rttMs < 0 then 0
  else if a.rttMs < 0 then 1
  else if b.rttMs < 0 then -1
  else (if a.rttMs > b.rttMs then 1 else 0) - (if a.rttMs < b.rttMs then 1 else 0)

/-! ## Sending -/

/-- A datagram handed to `sendto`. -/
structure Sent where
  pkt : List UInt8
  addr : SockaddrIn
  deriving DecidableEq

/-- `send_request`: draw a transaction id, remember it and the time, and send a Binding Request with
it. -/
def sendRequest (stunList : StunList n) (idx : Fin n) (transactionId : Vector UInt8 12)
    (sendTime : Timespec) : StunList n × Sent :=
  (Function.update stunList idx
      { stunList idx with transactionId := transactionId, sendTime := sendTime },
    { pkt := [0x00, 0x01, 0x00, 0x00] ++ bytesLe32 (htonl magicCookie) ++ transactionId.toList,
      addr := (stunList idx).addr })

/-- `burst_send_all`, with the ids and clock readings drawn for each server. -/
def burstSendAll (targets : List (Fin n)) (transactionIds : Fin n → Vector UInt8 12)
    (sendTimes : Fin n → Timespec) (stunList : StunList n) : StunList n × List Sent :=
  targets.foldl
    (fun acc k ↦
      let r := sendRequest acc.1 k (transactionIds k) (sendTimes k)
      (r.1, acc.2 ++ [r.2]))
    (stunList, [])

/-! ## What sending changes -/

/-- An entry after a request has been sent for it. -/
def StunCtx.requested (ctx : StunCtx) (transactionId : Vector UInt8 12) (sendTime : Timespec) :
    StunCtx :=
  { ctx with transactionId := transactionId, sendTime := sendTime }

theorem burstSendAll_fst (targets : List (Fin n)) (transactionIds : Fin n → Vector UInt8 12)
    (sendTimes : Fin n → Timespec) (stunList : StunList n) :
    (burstSendAll targets transactionIds sendTimes stunList).1
      = targets.foldl
          (fun st k ↦ Function.update st k ((st k).requested (transactionIds k) (sendTimes k)))
          stunList := by
  have hstep : ∀ (ts : List (Fin n)) (acc : StunList n × List Sent),
      (ts.foldl (fun acc k ↦
        let r := sendRequest acc.1 k (transactionIds k) (sendTimes k)
        (r.1, acc.2 ++ [r.2])) acc).1
        = ts.foldl
          (fun st k ↦ Function.update st k ((st k).requested (transactionIds k) (sendTimes k)))
          acc.1 := by
    intro ts
    induction ts with
    | nil => exact fun _ ↦ rfl
    | cons k ts ih => exact fun acc ↦ ih _
  exact hstep targets (stunList, [])

theorem burstSendAll_apply (targets : List (Fin n)) (transactionIds : Fin n → Vector UInt8 12)
    (sendTimes : Fin n → Timespec) (stunList : StunList n) (k : Fin n) :
    (burstSendAll targets transactionIds sendTimes stunList).1 k
      = if k ∈ targets then (stunList k).requested (transactionIds k) (sendTimes k)
        else stunList k := by
  rw [burstSendAll_fst]
  induction targets generalizing stunList with
  | nil => simp
  | cons j targets ih =>
    rw [List.foldl_cons, ih]
    by_cases hj : k = j
    · subst hj
      simp [StunCtx.requested]
    · simp [hj]

theorem burstSendAll_sent (targets : List (Fin n)) (transactionIds : Fin n → Vector UInt8 12)
    (sendTimes : Fin n → Timespec) (stunList : StunList n) :
    (burstSendAll targets transactionIds sendTimes stunList).2
      = targets.map fun k ↦
          { pkt := [0x00, 0x01, 0x00, 0x00, 0x21, 0x12, 0xA4, 0x42] ++ (transactionIds k).toList,
            addr := (stunList k).addr } := by
  -- ids and times change, the addresses do not
  have hstep : ∀ (ts : List (Fin n)) (acc : StunList n × List Sent),
      (∀ k, (acc.1 k).addr = (stunList k).addr) →
      (ts.foldl (fun acc k ↦
        let r := sendRequest acc.1 k (transactionIds k) (sendTimes k)
        (r.1, acc.2 ++ [r.2])) acc).2
        = acc.2 ++ ts.map fun k ↦
          { pkt := [0x00, 0x01, 0x00, 0x00, 0x21, 0x12, 0xA4, 0x42] ++ (transactionIds k).toList,
            addr := (stunList k).addr } := by
    intro ts
    induction ts with
    | nil => simp
    | cons j ts ih =>
      intro acc hacc
      rw [List.foldl_cons, ih]
      · have hcookie : bytesLe32 (htonl magicCookie) = [0x21, 0x12, 0xA4, 0x42] := by decide
        simp [sendRequest, hcookie, hacc]
      · intro k
        by_cases hk : k = j
        · subst hk
          simp [sendRequest, hacc]
        · simp [sendRequest, hk, hacc]
  exact (hstep targets (stunList, []) fun _ ↦ rfl).trans (List.nil_append _)

end NatGhost
