import NormalOrder.Text.Utf8
import Mathlib.Tactic.SplitIfs

namespace NormalOrder.Text.Utf8

/-- The bytes of a text in UTF-8. -/
def encode (cs : List Char) : List UInt8 := cs.flatMap String.utf8EncodeChar

theorem toNat_byte {n : Nat} (h : n < 256) : (UInt8.ofNat n).toNat = n := by
  simp [Nat.mod_eq_of_lt h]

@[simp] theorem extend_value (s : Sequence) (b : UInt8) :
    (s.extend b).value = 64 * s.value + (b.toNat - 0x80) := rfl

@[simp] theorem extend_missing (s : Sequence) (b : UInt8) :
    (s.extend b).missing = s.missing - 1 := rfl

@[simp] theorem extend_low (s : Sequence) (b : UInt8) : (s.extend b).low = 0x80 := rfl

@[simp] theorem extend_high (s : Sequence) (b : UInt8) : (s.extend b).high = 0xBF := rfl

theorem decodeFrom_ascii (offset : Nat) (b : UInt8) (bs : List UInt8) (h : b.toNat < 0x80) :
    decodeFrom offset none (b :: bs) =
      (Char.ofNat b.toNat :: (decodeFrom (offset + 1) none bs).1,
        (decodeFrom (offset + 1) none bs).2) := by
  simp [decodeFrom, h]

theorem decodeFrom_start (offset : Nat) (b : UInt8) (bs : List UInt8) (s : Sequence)
    (h : 0x80 ≤ b.toNat) (hs : Sequence.start? b = some s) :
    decodeFrom offset none (b :: bs) = decodeFrom (offset + 1) (some s) bs := by
  have hb : ¬b.toNat < 0x80 := by omega
  simp [decodeFrom, hb, hs]

theorem decodeFrom_extend (offset : Nat) (s : Sequence) (b : UInt8) (bs : List UInt8)
    (hlow : s.low ≤ b.toNat) (hhigh : b.toNat ≤ s.high) (hmissing : 1 < s.missing) :
    decodeFrom offset (some s) (b :: bs) = decodeFrom (offset + 1) (some (s.extend b)) bs := by
  have hopen : ¬s.missing - 1 = 0 := by omega
  simp [decodeFrom, hlow, hhigh, hopen]

theorem decodeFrom_complete (offset : Nat) (s : Sequence) (b : UInt8) (bs : List UInt8)
    (hlow : s.low ≤ b.toNat) (hhigh : b.toNat ≤ s.high) (hmissing : s.missing = 1) :
    decodeFrom offset (some s) (b :: bs) =
      (Char.ofNat (64 * s.value + (b.toNat - 0x80)) :: (decodeFrom (offset + 1) none bs).1,
        (decodeFrom (offset + 1) none bs).2) := by
  simp [decodeFrom, hlow, hhigh, hmissing]

theorem start?_two (b : UInt8) (hlow : 0xC2 ≤ b.toNat) (hhigh : b.toNat ≤ 0xDF) :
    Sequence.start? b = some ⟨b.toNat - 0xC0, 1, 0x80, 0xBF, [b]⟩ := by
  simp [Sequence.start?, hlow, hhigh]

theorem start?_three (b : UInt8) (hlow : 0xE0 ≤ b.toNat) (hhigh : b.toNat ≤ 0xEF) :
    Sequence.start? b =
      some ⟨b.toNat - 0xE0, 2, if b.toNat = 0xE0 then 0xA0 else 0x80,
        if b.toNat = 0xED then 0x9F else 0xBF, [b]⟩ := by
  have h : ¬b.toNat ≤ 0xDF := by omega
  simp [Sequence.start?, h, hlow, hhigh]

theorem start?_four (b : UInt8) (hlow : 0xF0 ≤ b.toNat) (hhigh : b.toNat ≤ 0xF4) :
    Sequence.start? b =
      some ⟨b.toNat - 0xF0, 3, if b.toNat = 0xF0 then 0x90 else 0x80,
        if b.toNat = 0xF4 then 0x8F else 0xBF, [b]⟩ := by
  have h2 : ¬b.toNat ≤ 0xDF := by omega
  have h3 : ¬b.toNat ≤ 0xEF := by omega
  simp [Sequence.start?, h2, h3, hlow, hhigh]

theorem decodeFrom_two (offset v : Nat) (bs : List UInt8) (hlow : 0x80 ≤ v) (hhigh : v ≤ 0x7FF) :
    decodeFrom offset none
        (UInt8.ofNat (v / 64 % 32 + 192) :: UInt8.ofNat (v % 64 + 128) :: bs) =
      (Char.ofNat v :: (decodeFrom (offset + 2) none bs).1, (decodeFrom (offset + 2) none bs).2) := by
  have h0 := toNat_byte (n := v / 64 % 32 + 192) (by omega)
  have h1 := toNat_byte (n := v % 64 + 128) (by omega)
  have hv : 64 * (v / 64 % 32 + 192 - 0xC0) + (v % 64 + 128 - 0x80) = v := by omega
  rw [decodeFrom_start _ _ _ _ (by omega) (start?_two _ (by omega) (by omega)),
    decodeFrom_complete _ _ _ _ (by dsimp only; omega) (by dsimp only; omega) rfl]
  rw [h0, h1, hv]

theorem decodeFrom_three (offset v : Nat) (bs : List UInt8) (hlow : 0x800 ≤ v) (hhigh : v ≤ 0xFFFF)
    (hvalid : v < 0xD800 ∨ 0xDFFF < v) :
    decodeFrom offset none
        (UInt8.ofNat (v / 4096 % 16 + 224) :: UInt8.ofNat (v / 64 % 64 + 128) ::
          UInt8.ofNat (v % 64 + 128) :: bs) =
      (Char.ofNat v :: (decodeFrom (offset + 3) none bs).1, (decodeFrom (offset + 3) none bs).2) := by
  have h0 := toNat_byte (n := v / 4096 % 16 + 224) (by omega)
  have h1 := toNat_byte (n := v / 64 % 64 + 128) (by omega)
  have h2 := toNat_byte (n := v % 64 + 128) (by omega)
  have hv : 64 * (64 * (v / 4096 % 16 + 224 - 0xE0) + (v / 64 % 64 + 128 - 0x80)) +
      (v % 64 + 128 - 0x80) = v := by omega
  rw [decodeFrom_start _ _ _ _ (by omega) (start?_three _ (by omega) (by omega)), h0,
    decodeFrom_extend _ _ _ _ (by dsimp only; split <;> omega) (by dsimp only; split <;> omega)
      (by dsimp only; omega),
    decodeFrom_complete _ _ _ _ (by rw [extend_low]; omega) (by rw [extend_high]; omega) (by rfl)]
  rw [extend_value, h1, h2, hv]

theorem decodeFrom_four (offset v : Nat) (bs : List UInt8) (hlow : 0x10000 ≤ v)
    (hhigh : v < 0x110000) :
    decodeFrom offset none
        (UInt8.ofNat (v / 262144 % 8 + 240) :: UInt8.ofNat (v / 4096 % 64 + 128) ::
          UInt8.ofNat (v / 64 % 64 + 128) :: UInt8.ofNat (v % 64 + 128) :: bs) =
      (Char.ofNat v :: (decodeFrom (offset + 4) none bs).1, (decodeFrom (offset + 4) none bs).2) := by
  have h0 := toNat_byte (n := v / 262144 % 8 + 240) (by omega)
  have h1 := toNat_byte (n := v / 4096 % 64 + 128) (by omega)
  have h2 := toNat_byte (n := v / 64 % 64 + 128) (by omega)
  have h3 := toNat_byte (n := v % 64 + 128) (by omega)
  have hv : 64 * (64 * (64 * (v / 262144 % 8 + 240 - 0xF0) + (v / 4096 % 64 + 128 - 0x80)) +
      (v / 64 % 64 + 128 - 0x80)) + (v % 64 + 128 - 0x80) = v := by omega
  rw [decodeFrom_start _ _ _ _ (by omega) (start?_four _ (by omega) (by omega)), h0,
    decodeFrom_extend _ _ _ _ (by dsimp only; split <;> omega) (by dsimp only; split <;> omega)
      (by dsimp only; omega),
    decodeFrom_extend _ _ _ _ (by rw [extend_low]; omega) (by rw [extend_high]; omega)
      (by simp only [extend_missing]; omega),
    decodeFrom_complete _ _ _ _ (by rw [extend_low]; omega) (by rw [extend_high]; omega) (by rfl)]
  rw [extend_value, extend_value, h1, h2, h3, hv]

/-- The bytes of one character are read as that character, and what follows is read after it. -/
theorem decodeFrom_char (offset : Nat) (c : Char) (bs : List UInt8) :
    ∃ next, decodeFrom offset none (String.utf8EncodeChar c ++ bs) =
      (c :: (decodeFrom next none bs).1, (decodeFrom next none bs).2) := by
  have hvalid : c.toNat < 0xD800 ∨ 0xDFFF < c.toNat ∧ c.toNat < 0x110000 := c.valid
  have hchar : Char.ofNat c.toNat = c := Char.ofNat_toNat c
  rw [String.utf8EncodeChar.eq_1, show c.val.toNat = c.toNat from rfl]
  generalize c.toNat = v at *
  split_ifs with h1 h2 h3
  · have hb := toNat_byte (n := v) (by omega)
    refine ⟨offset + 1, ?_⟩
    rw [List.singleton_append, decodeFrom_ascii _ _ _ (by omega), hb, hchar]
  · refine ⟨offset + 2, ?_⟩
    have h := decodeFrom_two offset v bs (by omega) h2
    rwa [hchar] at h
  · refine ⟨offset + 3, ?_⟩
    have h := decodeFrom_three offset v bs (by omega) h3 (by omega)
    rwa [hchar] at h
  · refine ⟨offset + 4, ?_⟩
    have h := decodeFrom_four offset v bs (by omega) (by omega)
    rwa [hchar] at h

theorem decode_encode (cs : List Char) : decode (encode cs) = (cs, .clean) := by
  suffices h : ∀ offset, decodeFrom offset none (encode cs) = (cs, .clean) from h 0
  induction cs with
  | nil => exact fun offset => rfl
  | cons c cs ih =>
    intro offset
    obtain ⟨next, hnext⟩ := decodeFrom_char offset c (encode cs)
    rw [encode, List.flatMap_cons, ← encode, hnext, ih]

end NormalOrder.Text.Utf8
