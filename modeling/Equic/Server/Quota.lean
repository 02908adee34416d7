import Equic.Foundation.CInt
import Equic.Foundation.Ledger
import Equic.Net.Sockaddr
import Mathlib.Data.List.GetD

/-!
# User-space connection quota

The fallback of `http_server.c` for runs without eBPF: an array of counters indexed by the
last octet of the peer's address. The octet is cut out of the text that `inet_ntoa`
prints, so §1 follows the C string functions involved; `extractLastOctet_inetNtoa` says
that the detour gives the octet back, and `quotaIndex` packs the result as an index that
is in bounds by construction.
-/

namespace Equic.Server

open Equic.Foundation Equic.Net

/-! ## §1 `extract_last_octet` -/

/-- `isspace` in the C locale. -/
def isSpace (c : Char) : Bool := c = ' ' || (9 ≤ c.toNat && c.toNat ≤ 13)

/-- `atoi` on the bytes known to be initialized; `none` if it would read past them. -/
def atoi (s : List Char) : Option ℤ :=
  let s := s.dropWhile isSpace
  let (negative, s) := match s with
    | '-' :: s => (true, s)
    | '+' :: s => (false, s)
    | s => (false, s)
  let digits := s.takeWhile Char.isDigit
  if digits.length < s.length then
    let value : ℤ := Nat.ofDigitChars 10 digits 0
    some (if negative then -value else value)
  else none

/-- The `n` bytes that `strncpy(dst, src, n)` writes: `src` up to its end, then NULs. -/
def strncpy (src : List Char) (n : ℕ) : List Char :=
  src.take n ++ List.replicate (n - src.length) '\x00'

/-- The backward scan of `extract_last_octet`: from `i` down to 1, counting in `n`, it
    stops behind the last dot. Returns `index` and `n`. -/
def scanLastOctet (addr : List Char) : ℕ → ℕ → ℕ × ℕ
  | 0, n => (0, n)
  | i + 1, n =>
    -- `addr[strlen(addr)]` is the terminating NUL
    if addr.getD (i + 1) '\x00' = '.' then (i + 2, n)
    else scanLastOctet addr i (n + 1)

/-- `sizeof(octet)`. -/
def sizeofOctet : ℕ := 4

/-- `int i=strlen(addr)`. The loop does not run for a negative `i`. -/
def scanStart (addr : List Char) : ℕ := (BitVec.ofNat 32 addr.length : CInt).toInt.toNat

/-- What `extract_last_octet` copies to `octet`. -/
def copiedOctet (addr : List Char) : List Char :=
  let (index, n) := scanLastOctet addr (scanStart addr) 0
  strncpy (addr.drop index) n

/-- `extract_last_octet`; `none` if the copy overruns `octet` or `atoi` reads past it. -/
def extractLastOctet (addr : List Char) : Option ℤ :=
  if (copiedOctet addr).length ≤ sizeofOctet then atoi (copiedOctet addr) else none

/-- An `int` holds the length of a string exactly below `2 ^ 31`. -/
theorem scanStart_eq {addr : List Char} (h : addr.length < 2 ^ 31) :
    scanStart addr = addr.length := by
  rw [scanStart, BitVec.toInt_ofNat', Int.bmod_def]
  split <;> omega

/-- The scan of a longer string starts inside it or not at all. -/
theorem scanStart_lt {addr : List Char} (h : 2 ^ 31 ≤ addr.length) :
    scanStart addr < addr.length := by
  rw [scanStart, BitVec.toInt_ofNat', Int.bmod_def]
  split <;> omega

/-- Scanning backwards over characters other than a dot only counts them. -/
theorem scanLastOctet_append {p ds : List Char} (hp : p ≠ []) (hds : '.' ∉ ds) (n : ℕ) :
    scanLastOctet (p ++ '.' :: ds) (p ++ '.' :: ds).length n =
      (p.length + 1, n + ds.length + 1) := by
  -- the scan position is `p.length + j`; induct on the distance `j` to the dot
  have hscan : ∀ j, j ≤ ds.length + 1 → ∀ n,
      scanLastOctet (p ++ '.' :: ds) (p.length + j) n = (p.length + 1, n + j) := by
    intro j
    induction j with
    | zero =>
      intro _ n
      obtain ⟨l, hl⟩ := Nat.exists_eq_succ_of_ne_zero (List.length_pos_iff.mpr hp).ne'
      simp [hl, scanLastOctet, List.getD_eq_getElem?_getD]
    | succ j ih =>
      intro hj n
      have hchar : (p ++ '.' :: ds).getD (p.length + j + 1) '\x00' ≠ '.' := by
        rw [List.getD_append_right _ _ _ _ (by omega)]
        rw [show p.length + j + 1 - p.length = j + 1 by omega, List.getD_cons_succ]
        intro hdot
        by_cases hlt : j < ds.length
        · rw [List.getD_eq_getElem _ _ hlt] at hdot
          exact hds (hdot ▸ List.getElem_mem hlt)
        · rw [List.getD_eq_default _ _ (by omega)] at hdot
          exact absurd hdot (by decide)
      rw [← Nat.add_assoc, scanLastOctet, if_neg hchar, ih (by omega)]
      congr 1
      omega
  have hlen : (p ++ '.' :: ds).length = p.length + (ds.length + 1) := by simp
  rw [hlen, hscan _ le_rfl]
  rfl

private theorem isSpace_of_isDigit {c : Char} (hc : c.isDigit = true) : isSpace c = false := by
  have hlow : 48 ≤ c.toNat := by
    simp only [Char.isDigit, Bool.and_eq_true, decide_eq_true_eq] at hc
    exact UInt32.le_iff_toNat_le.mp hc.1
  have hblank : c ≠ ' ' := by
    rintro rfl
    exact absurd hlow (by decide)
  simp only [isSpace, hblank, decide_false, Bool.false_or, Bool.and_eq_false_iff,
    decide_eq_false_iff_not]
  exact .inr (by omega)

/-- `atoi` of NUL-terminated digits is their decimal value. -/
theorem atoi_digits {ds : List Char} (hds : ∀ c ∈ ds, c.isDigit = true) :
    atoi (ds ++ ['\x00']) = some (Nat.ofDigitChars 10 ds 0 : ℤ) := by
  have htake : (ds ++ ['\x00']).takeWhile Char.isDigit = ds := by
    rw [List.takeWhile_append_of_pos hds]
    simp [List.takeWhile]
  cases ds with
  | nil => rfl
  | cons d ds =>
    have hd : d.isDigit = true := hds d List.mem_cons_self
    -- a digit is neither white space nor a sign
    have hspace : isSpace d = false := isSpace_of_isDigit hd
    have hminus : d ≠ '-' := by
      rintro rfl
      exact absurd hd (by decide)
    have hplus : d ≠ '+' := by
      rintro rfl
      exact absurd hd (by decide)
    have hdrop : (d :: ds ++ ['\x00']).dropWhile isSpace = d :: ds ++ ['\x00'] := by
      simp [hspace]
    simp only [atoi, hdrop]
    split
    · rename_i heq
      simp_all
    · rename_i heq
      simp_all
    · rw [htake]
      simp

/-- `extract_last_octet` on text that ends in a dot and digits copies the digits and the
    NUL. -/
theorem copiedOctet_append {p ds : List Char} (hp : p ≠ [])
    (hds : ∀ c ∈ ds, c.isDigit = true) (hlong : (p ++ '.' :: ds).length < 2 ^ 31) :
    copiedOctet (p ++ '.' :: ds) = ds ++ ['\x00'] := by
  have hdot : '.' ∉ ds := fun h => absurd (hds '.' h) (by decide)
  have hdrop : (p ++ '.' :: ds).drop (p.length + 1) = ds := by simp
  -- the scan has counted the digits and the NUL, and this is what is copied
  rw [copiedOctet, scanStart_eq hlong, scanLastOctet_append hp hdot]
  simp only [Nat.zero_add, hdrop]
  rw [strncpy, List.take_of_length_le (by omega)]
  simp

/-- With one to three digits they fit `octet`, and their value is returned. -/
theorem extractLastOctet_append {p ds : List Char} (hp : p ≠ [])
    (hds : ∀ c ∈ ds, c.isDigit = true) (hlen : ds.length ≤ 3)
    (hlong : (p ++ '.' :: ds).length < 2 ^ 31) :
    extractLastOctet (p ++ '.' :: ds) = some (Nat.ofDigitChars 10 ds 0 : ℤ) := by
  have hfits : (ds ++ ['\x00']).length ≤ sizeofOctet := by
    rw [List.length_append, sizeofOctet]
    exact Nat.succ_le_succ hlen
  rw [extractLastOctet, copiedOctet_append hp hds hlong, if_pos hfits]
  exact atoi_digits hds

/-- Extraction undoes the formatting of an address. -/
theorem extractLastOctet_inetNtoa (a : InAddr) :
    extractLastOctet (inetNtoa a) = some (a.o4.toNat : ℤ) := by
  have hlong : (inetNtoa a).length < 2 ^ 31 := (inetNtoa_length_le a).trans_lt (by decide)
  obtain ⟨p, hp, heq⟩ := inetNtoa_eq_append a
  rw [heq] at hlong ⊢
  rw [extractLastOctet_append hp (fun c => octetDigits_isDigit) (octetDigits_length_le a.o4) hlong,
    ofDigitChars_octetDigits]

/-! ## §2 The quota array -/

/-- `Quotas`: the counters, keyed by the last octet of an IPv4 address. -/
abbrev Quotas := Fin 256 → CInt

/-- `QUOTA_LIMIT`: upper bound limit for clients connection quota. -/
def quotaLimit : ℤ := 5

/-- The entry of `Quotas` that belongs to a peer: `extract_last_octet` of its `inet_ntoa`
    text, which is always a valid index. -/
def quotaIndex (peer : Sockaddr) : Fin 256 :=
  ⟨((extractLastOctet (inetNtoa peer.sinAddr)).getD 0).toNat, by
    rw [extractLastOctet_inetNtoa]
    simpa using peer.sinAddr.o4.toNat_lt⟩

@[simp] theorem quotaIndex_val (peer : Sockaddr) :
    (quotaIndex peer).val = peer.sinAddr.o4.toNat := by
  simp [quotaIndex, extractLastOctet_inetNtoa]

/-- Inside one /24 network the index identifies the address. -/
theorem quotaIndex_eq_iff {p q : Sockaddr} (h : p.sinAddr.SameNet24 q.sinAddr) :
    quotaIndex p = quotaIndex q ↔ p.sinAddr = q.sinAddr := by
  rw [Fin.ext_iff, quotaIndex_val, quotaIndex_val, h.eq_iff, UInt8.toNat_inj]

/-- A quota log line: the peer's text and the value printed. -/
inductive QuotaLine where
  | increment (key : List Char) (value : CInt)
  | decrement (key : List Char) (value : CInt)
  | exceeded (key : List Char) (value : CInt)
  | notExceeded (key : List Char) (value : CInt)
  deriving DecidableEq, Repr

/-- `inc_quota`. -/
def incQuota (quotas : Quotas) (peer : Sockaddr) : Quotas × QuotaLine :=
  let octet := quotaIndex peer
  let quotas' := Function.update quotas octet (quotas octet + 1#32)
  (quotas', .increment (inetNtoa peer.sinAddr) (quotas' octet))

/-- `dec_quota`: decrement unless the entry is not positive. -/
def decQuota (quotas : Quotas) (peer : Sockaddr) : Quotas × QuotaLine :=
  let octet := quotaIndex peer
  let quotas' :=
    if (quotas octet).toInt > 0 then Function.update quotas octet (quotas octet - 1#32) else quotas
  (quotas', .decrement (inetNtoa peer.sinAddr) (quotas' octet))

/-- `reached_quota_limit`. -/
def reachedQuotaLimit (quotas : Quotas) (peer : Sockaddr) : Bool × QuotaLine :=
  let octet := quotaIndex peer
  if (quotas octet).toInt ≥ quotaLimit then
    (true, .exceeded (inetNtoa peer.sinAddr) (quotas octet))
  else
    (false, .notExceeded (inetNtoa peer.sinAddr) (quotas octet))

/-! ## §3 Specifications -/

/-- The array as numbers. -/
def quotaLevel (quotas : Quotas) (k : Fin 256) : ℤ := (quotas k).toInt

theorem reachedQuotaLimit_iff (quotas : Quotas) (peer : Sockaddr) :
    (reachedQuotaLimit quotas peer).1 = true ↔
      quotaLimit ≤ quotaLevel quotas (quotaIndex peer) := by
  by_cases h : quotaLimit ≤ (quotas (quotaIndex peer)).toInt <;>
    simp [reachedQuotaLimit, quotaLevel, h]

private theorem quotaLevel_update {quotas : Quotas} {k : Fin 256} {v : CInt} {d : ℤ}
    (hv : v.toInt = quotaLevel quotas k + d) :
    quotaLevel (Function.update quotas k v) = shift (quotaLevel quotas) (some k) d := by
  funext j
  by_cases hj : j = k
  · subst hj
    simpa [quotaLevel, shift] using hv
  · simp [quotaLevel, shift, Function.update_of_ne hj, Ne.symm hj]

/-- Below the limit `inc_quota` raises the peer's entry by one and leaves the others. -/
theorem incQuota_level {quotas : Quotas} {peer : Sockaddr}
    (h : (reachedQuotaLimit quotas peer).1 = false) :
    quotaLevel (incQuota quotas peer).1 =
      shift (quotaLevel quotas) (some (quotaIndex peer)) 1 := by
  have hlt : quotaLevel quotas (quotaIndex peer) < quotaLimit := by
    rw [← not_le, ← reachedQuotaLimit_iff, h]
    simp
  -- an entry below the limit is far from `INT_MAX`
  apply quotaLevel_update
  apply (CInt.toInt_add_one_iff _).mpr
  exact lt_trans hlt (by decide)

/-- The entry that `dec_quota` lowers, if it lowers one. -/
def releasedIndex (quotas : Quotas) (peer : Sockaddr) : Option (Fin 256) :=
  if quotaLevel quotas (quotaIndex peer) > 0 then some (quotaIndex peer) else none

/-- `dec_quota` lowers the entry `releasedIndex` by one and leaves the others. -/
theorem decQuota_level (quotas : Quotas) (peer : Sockaddr) :
    quotaLevel (decQuota quotas peer).1 =
      shift (quotaLevel quotas) (releasedIndex quotas peer) (-1) := by
  unfold decQuota releasedIndex
  by_cases hpos : quotaLevel quotas (quotaIndex peer) > 0
  · have hpos' : (quotas (quotaIndex peer)).toInt > 0 := hpos
    simp only [if_pos hpos, if_pos hpos']
    exact quotaLevel_update (CInt.toInt_sub_one hpos'.le)
  · have hpos' : ¬ (quotas (quotaIndex peer)).toInt > 0 := hpos
    simp only [if_neg hpos, if_neg hpos', shift_none]

end Equic.Server
