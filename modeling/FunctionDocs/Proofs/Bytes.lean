import FunctionDocs.Files.Bytes
import FunctionDocs.Proofs.Functions

/-!
# Texts survive storage

The bytes of a character are read as that character, whatever follows them, so a text that is stored is read as it was. Only
its line ends may change, and a text without carriage returns keeps these too.
-/

namespace FunctionDocs.Bytes

variable {k n : Nat}

/-! ## One character -/

lemma toNat_byte (h : n < 256) : n.toUInt8.toNat = n := by
  exact Nat.mod_eq_of_lt h

lemma following_byte (h : k < 256) : following? k.toUInt8 =
    if k < 0x80 then some 0 else if k < 0xC2 then none else if k < 0xE0 then some 1 else if k < 0xF0 then some 2
    else if k < 0xF5 then some 3 else none := by
  simp only [following?, UInt8.lt_iff_toNat_lt, toNat_byte h]
  rfl

lemma leadBits_byte (h : k < 256) :
    leadBits k.toUInt8 = if k < 0x80 then k else if k < 0xE0 then k - 0xC0 else if k < 0xF0 then k - 0xE0 else k - 0xF0 := by
  rw [leadBits, toNat_byte h]

lemma followers_byte {range : UInt8 × UInt8} (hlo : range.1.toNat ≤ k) (hhi : k ≤ range.2.toNat)
    (left good n : Nat) (bs : List UInt8) : followers range (left + 1) good n (k.toUInt8 :: bs) =
      followers (0x80, 0xBF) left (good + 1) (n * 64 + (k - 0x80)) bs := by
  have hk : k < 256 := Nat.lt_of_le_of_lt hhi (UInt8.toNat_lt range.2)
  have hrange : (decide (range.1 ≤ k.toUInt8) && decide (k.toUInt8 ≤ range.2)) := by
    simp only [UInt8.le_iff_toNat_le, toNat_byte hk, Bool.and_eq_true, decide_eq_true_eq]
    exact ⟨hlo, hhi⟩
  rw [followers, if_pos hrange, toNat_byte hk]

lemma secondRange_byte {m : Nat} (hk : k < 256) (hlo : 0x80 ≤ m) (hhi : m ≤ 0xBF) (h0 : k = 0xE0 → 0xA0 ≤ m)
    (hd : k = 0xED → m ≤ 0x9F) (hf : k = 0xF0 → 0x90 ≤ m) (h4 : k = 0xF4 → m ≤ 0x8F) :
    (secondRange k.toUInt8).1.toNat ≤ m ∧ m ≤ (secondRange k.toUInt8).2.toNat := by
  have hbeq : ∀ b : UInt8, (k.toUInt8 == b) = decide (k = b.toNat) := by
    intro b
    rw [Bool.eq_iff_iff, beq_iff_eq, decide_eq_true_eq, ← UInt8.toNat_inj, toNat_byte hk]
  simp only [secondRange, hbeq, decide_eq_true_eq]
  split
  next h =>
    exact ⟨h0 h, hhi⟩
  · split
    next h =>
      exact ⟨hlo, hd h⟩
    · split
      next h =>
        exact ⟨hf h, hhi⟩
      · split
        next h =>
          exact ⟨hlo, h4 h⟩
        · exact ⟨hlo, hhi⟩

lemma char_of_followers {first : UInt8} {bs rest : List UInt8} (hcount : following? first = some k)
    (h : followers (secondRange first) k 1 (leadBits first) bs = .ok (n, rest)) :
    char? (first :: bs) = .ok (.ofNat n, rest) := by
  rw [char?, hcount]
  simp only [h]
  rfl

lemma char_oneByte (h : n < 0x80) (rest : List UInt8) : char? (n.toUInt8 :: rest) = .ok (.ofNat n, rest) := by
  refine char_of_followers (by rw [following_byte (by omega), if_pos h]) ?_
  rw [followers, leadBits_byte (by omega), if_pos h]

lemma char_twoBytes (hlo : 0x80 ≤ n) (hhi : n < 0x800) (rest : List UInt8) :
    char? ((0xC0 + n / 64).toUInt8 :: (0x80 + n % 64).toUInt8 :: rest) = .ok (.ofNat n, rest) := by
  have hcount : following? (0xC0 + n / 64).toUInt8 = some 1 := by
    rw [following_byte (by omega), if_neg (by omega), if_neg (by omega), if_pos (by omega)]
  have hlead : leadBits (0xC0 + n / 64).toUInt8 = n / 64 := by
    rw [leadBits_byte (by omega), if_neg (by omega), if_pos (by omega)]
    omega
  have hsecond := @secondRange_byte (0xC0 + n / 64) (0x80 + n % 64) (by omega) (by omega) (by omega) (by omega) (by omega)
    (by omega) (by omega)
  have hsum : n / 64 * 64 + (0x80 + n % 64 - 0x80) = n := by omega
  refine char_of_followers hcount ?_
  rw [hlead, followers_byte hsecond.1 hsecond.2, followers, hsum]

lemma followers_later (n left good m : Nat) (bs : List UInt8) :
    followers (0x80, 0xBF) (left + 1) good m ((0x80 + n % 64).toUInt8 :: bs) =
      followers (0x80, 0xBF) left (good + 1) (m * 64 + n % 64) bs := by
  rw [followers_byte (by change 0x80 ≤ _; omega) (by change _ ≤ 0xBF; omega), Nat.add_sub_cancel_left]

lemma char_threeBytes (hlo : 0x800 ≤ n) (hhi : n < 0x10000) (hvalid : n < 0xD800 ∨ 0xDFFF < n)
    (rest : List UInt8) : char? ((0xE0 + n / 4096).toUInt8 :: (0x80 + n / 64 % 64).toUInt8 :: (0x80 + n % 64).toUInt8 :: rest) =
      .ok (.ofNat n, rest) := by
  have hcount : following? (0xE0 + n / 4096).toUInt8 = some 2 := by
    rw [following_byte (by omega), if_neg (by omega), if_neg (by omega), if_neg (by omega), if_pos (by omega)]
  have hlead : leadBits (0xE0 + n / 4096).toUInt8 = n / 4096 := by
    rw [leadBits_byte (by omega), if_neg (by omega), if_neg (by omega), if_pos (by omega)]
    omega
  have hsecond := @secondRange_byte (0xE0 + n / 4096) (0x80 + n / 64 % 64) (by omega) (by omega) (by omega) (by omega)
    (by omega) (by omega) (by omega)
  have hsum : (n / 4096 * 64 + (0x80 + n / 64 % 64 - 0x80)) * 64 + n % 64 = n := by omega
  refine char_of_followers hcount ?_
  rw [hlead, followers_byte hsecond.1 hsecond.2, followers_later, followers, hsum]

lemma char_fourBytes (hlo : 0x10000 ≤ n) (hhi : n < 0x110000) (rest : List UInt8) :
    char? ((0xF0 + n / 262144).toUInt8 :: (0x80 + n / 4096 % 64).toUInt8 :: (0x80 + n / 64 % 64).toUInt8 ::
      (0x80 + n % 64).toUInt8 :: rest) = .ok (.ofNat n, rest) := by
  have hcount : following? (0xF0 + n / 262144).toUInt8 = some 3 := by
    rw [following_byte (by omega), if_neg (by omega), if_neg (by omega), if_neg (by omega), if_neg (by omega), if_pos (by omega)]
  have hlead : leadBits (0xF0 + n / 262144).toUInt8 = n / 262144 := by
    rw [leadBits_byte (by omega), if_neg (by omega), if_neg (by omega), if_neg (by omega)]
    omega
  have hsecond := @secondRange_byte (0xF0 + n / 262144) (0x80 + n / 4096 % 64) (by omega) (by omega) (by omega) (by omega)
    (by omega) (by omega) (by omega)
  have hsum : ((n / 262144 * 64 + (0x80 + n / 4096 % 64 - 0x80)) * 64 + n / 64 % 64) * 64 + n % 64 = n := by omega
  refine char_of_followers hcount ?_
  rw [hlead, followers_byte hsecond.1 hsecond.2, followers_later, followers_later, followers, hsum]

lemma char_ofChar (c : Char) (rest : List UInt8) : char? (ofChar c ++ rest) = .ok (c, rest) := by
  have hvalid : c.toNat < 0xD800 ∨ 0xDFFF < c.toNat ∧ c.toNat < 0x110000 := c.valid
  suffices h : char? (ofChar c ++ rest) = .ok (.ofNat c.toNat, rest) by rwa [Char.ofNat_toNat] at h
  rw [ofChar]
  split
  · exact char_oneByte (by assumption) rest
  · split
    · exact char_twoBytes (by omega) (by assumption) rest
    · split
      · exact char_threeBytes (by omega) (by assumption) (by omega) rest
      · exact char_fourBytes (by omega) (by omega) rest

/-! ## Whole texts -/

lemma ofChar_ne_nil (c : Char) : ofChar c ≠ [] := by
  rw [ofChar]
  split
  · simp
  · split
    · simp
    · split <;> simp

lemma toTextFrom_ofText (t : Text) : ∀ {fuel place : Nat}, (ofText t).length ≤ fuel → toTextFrom fuel place (ofText t) = .ok t := by
  induction t with
  | nil =>
    intro fuel place _
    rw [ofText, List.flatMap_nil, toTextFrom]
  | cons c t ih =>
    intro fuel place hfuel
    have hbytes : ofText (c :: t) = ofChar c ++ ofText t := List.flatMap_cons
    have hlength := List.length_pos_iff.mpr (ofChar_ne_nil c)
    rw [hbytes, List.length_append] at hfuel
    obtain ⟨fuel, rfl⟩ : ∃ k, fuel = k + 1 := ⟨fuel - 1, by omega⟩
    rw [hbytes, toTextFrom, char_ofChar]
    · simp only [ih (show (ofText t).length ≤ fuel by omega)]
      rfl
    · simp [ofChar_ne_nil]

lemma toText_ofText (t : Text) : toText (ofText t) = .ok t := toTextFrom_ofText t (Nat.le_refl _)

lemma unifyLineEnds_eq {t : Text} (h : '\r' ∉ t) : unifyLineEnds t = t := by
  fun_induction unifyLineEnds t with
  | case1 => rfl
  | case2 r ih => exact absurd List.mem_cons_self h
  | case3 c r _ ih =>
    rw [List.mem_cons, not_or] at h
    rw [ih h.2, if_neg (by simpa using Ne.symm h.1)]

end FunctionDocs.Bytes
