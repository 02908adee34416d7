import Equic.Server.Quota

/-!
# Extraction of the last octet

`extract_last_octet` scans a text back from its terminator to the last dot, counting the
terminator too, and copies as many bytes as it has counted. On a text that ends in a dot and
one to three digits these are the digits and the terminator (`OctetText.Extracted`), provided
that the length of the text fits the `int` that the scan starts from. The texts of
`inet_ntoa` are far below that.
-/

namespace Equic.Server

open Equic.Foundation Equic.Net

/-! ## §1 Texts that end in an octet -/

/-- A C string that ends in a dot and one to three digits, with something before them. -/
structure OctetText where
  pre : List Char
  digits : List Char
  pre_ne : pre ≠ []
  pre_nul : '\x00' ∉ pre
  digits_isDigit : ∀ c ∈ digits, c.isDigit = true
  length_pos : 1 ≤ digits.length
  length_le : digits.length ≤ 3

namespace OctetText

/-- The string, without its terminator. -/
def text (t : OctetText) : List Char := t.pre ++ '.' :: t.digits

/-- The digits are copied to `octet` with a terminator, and their value is returned. -/
structure Extracted (t : OctetText) : Prop where
  copied : copiedOctet t.text = t.digits ++ ['\x00']
  fits : (copiedOctet t.text).length ≤ sizeofOctet
  value : extractLastOctet t.text = some (Nat.ofDigitChars 10 t.digits 0 : ℤ)

theorem nul_notMem_text (t : OctetText) : '\x00' ∉ t.text := by
  intro h
  obtain hpre | hrest := List.mem_append.mp h
  · exact t.pre_nul hpre
  · obtain hdot | hdigit := List.mem_cons.mp hrest
    · exact absurd hdot (by decide)
    · exact absurd (t.digits_isDigit _ hdigit) (by decide)

end OctetText

/-! ## §2 What is copied -/

/-- The scan counts at most the bytes from where it stops to where it began. -/
theorem scanLastOctet_le (addr : List Char) (i n : ℕ) :
    (scanLastOctet addr i n).1 + (scanLastOctet addr i n).2 ≤ i + n + 1 := by
  induction i generalizing n with
  | zero =>
    simp only [scanLastOctet]
    omega
  | succ i ih =>
    unfold scanLastOctet
    split
    · dsimp only
      omega
    · have hrest := ih (n + 1)
      omega

/-- A scan that begins inside a string never gets to its terminator. -/
theorem nul_notMem_copiedOctet {addr : List Char} (hnul : '\x00' ∉ addr)
    (hstart : scanStart addr < addr.length) : '\x00' ∉ copiedOctet addr := by
  have hle := scanLastOctet_le addr (scanStart addr) 0
  have hpad : (scanLastOctet addr (scanStart addr) 0).2 -
      (addr.drop (scanLastOctet addr (scanStart addr) 0).1).length = 0 := by
    rw [List.length_drop]
    omega
  have hcopied : copiedOctet addr = strncpy (addr.drop (scanLastOctet addr (scanStart addr) 0).1)
      (scanLastOctet addr (scanStart addr) 0).2 := rfl
  rw [hcopied, strncpy, hpad, List.replicate_zero, List.append_nil]
  exact fun h => hnul (List.mem_of_mem_drop (List.mem_of_mem_take h))

/-- **The digits are extracted exactly if the length of the text fits an `int`.** -/
theorem OctetText.extracted_iff (t : OctetText) : t.Extracted ↔ t.text.length < 2 ^ 31 := by
  constructor
  · intro h
    by_contra hlong
    apply nul_notMem_copiedOctet t.nul_notMem_text (scanStart_lt (Nat.le_of_not_lt hlong))
    rw [h.copied]
    exact List.mem_append_right _ (List.mem_singleton.mpr rfl)
  · intro hlong
    have hcopied : copiedOctet t.text = t.digits ++ ['\x00'] :=
      copiedOctet_append t.pre_ne t.digits_isDigit hlong
    refine ⟨hcopied, ?_, extractLastOctet_append t.pre_ne t.digits_isDigit t.length_le hlong⟩
    rw [hcopied, List.length_append, sizeofOctet]
    exact Nat.succ_le_succ t.length_le

/-! ## §3 Addresses -/

/-- The text of `inet_ntoa`. -/
def OctetText.ofInAddr (a : InAddr) : OctetText where
  pre := octetDigits a.o1 ++ '.' :: octetDigits a.o2 ++ '.' :: octetDigits a.o3
  digits := octetDigits a.o4
  pre_ne := by simp
  pre_nul := by
    have hdigits : ∀ o, '\x00' ∉ octetDigits o := by
      intro o h
      exact absurd (octetDigits_isDigit h) (by decide)
    simp [hdigits]
  digits_isDigit := fun _ => octetDigits_isDigit
  length_pos := Nat.length_toDigits_pos
  length_le := octetDigits_length_le a.o4

theorem OctetText.text_ofInAddr (a : InAddr) : (OctetText.ofInAddr a).text = inetNtoa a := by
  simp [OctetText.ofInAddr, OctetText.text, inetNtoa]

/-- **Extraction undoes the formatting and stays in its buffer**, and what it returns for the
    address of a peer is the index into `Quotas`. -/
theorem extraction_exact :
    (∀ t : OctetText, t.Extracted ↔ t.text.length < 2 ^ 31) ∧
    (∀ a : InAddr, ∃ t : OctetText, t.text = inetNtoa a ∧ t.Extracted ∧
      extractLastOctet (inetNtoa a) = some (a.o4.toNat : ℤ)) ∧
    ∀ peer : Sockaddr,
      extractLastOctet (inetNtoa peer.sinAddr) = some ((quotaIndex peer).val : ℤ) := by
  refine ⟨OctetText.extracted_iff, fun a => ?_, fun peer => ?_⟩
  · have htext := OctetText.text_ofInAddr a
    refine ⟨OctetText.ofInAddr a, htext, ?_, extractLastOctet_inetNtoa a⟩
    rw [OctetText.extracted_iff, htext]
    exact (inetNtoa_length_le a).trans_lt (by decide)
  · rw [extractLastOctet_inetNtoa, quotaIndex_val]

/-- The digit 1 behind a dot and `n + 1` letters. -/
def OctetText.padded (n : ℕ) : OctetText where
  pre := List.replicate (n + 1) 'a'
  digits := ['1']
  pre_ne := by simp
  pre_nul := fun h => absurd (List.eq_of_mem_replicate h) (by decide)
  digits_isDigit := fun _ h => List.mem_singleton.mp h ▸ rfl
  length_pos := le_rfl
  length_le := Nat.le_add_left 1 2

theorem OctetText.length_text_padded (n : ℕ) : (OctetText.padded n).text.length = n + 3 := by
  rw [text, padded, List.length_append, List.length_replicate]
  rfl

/-- Of a text of more than `INT_MAX` bytes nothing is copied: the scan starts from a negative
    number. -/
theorem OctetText.padded_not_extracted : ¬ (OctetText.padded (2 ^ 31)).Extracted := by
  rw [OctetText.extracted_iff, OctetText.length_text_padded, Nat.not_lt]
  exact Nat.le_add_right _ _

end Equic.Server
