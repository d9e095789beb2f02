/-
Which changes of a stored payload the two checksums of the raw format find.
The CRC register is reversible, and four bytes can be told from what they
make of it; so changed bits within four consecutive bytes of what one of the
checksums covers are always found (`raw_detects_bursts`).
-/
import DtUtils.FormatRawFacts
import DtUtils.Lib.Register
import Mathlib.Data.List.Nodup

namespace DtUtils
open Lib

/-! ## The CRC register -/

theorem crcTable_size : crcTable.size = 256 := by decide +kernel

/-- An entry of the table can be told from its highest byte. -/
theorem crcTable_nodup : (crcTable.toList.map fun w : UInt32 => (w >>> 24).toNat).Nodup := by decide +kernel

theorem crcTable_inj {i j : Nat} (hi : i < 256) (hj : j < 256)
    (h : (crcTable.getD i 0) >>> 24 = (crcTable.getD j 0) >>> 24) : i = j := by
  have hlen : (crcTable.toList.map fun w : UInt32 => (w >>> 24).toNat).length = 256 := by
    rw [List.length_map, Array.length_toList, crcTable_size]
  have hget : ∀ k, (hk : k < (crcTable.toList.map fun w : UInt32 => (w >>> 24).toNat).length) →
      (crcTable.toList.map fun w : UInt32 => (w >>> 24).toNat)[k] = ((crcTable.getD k 0) >>> 24).toNat := fun k hk => by
    rw [List.getElem_map, Array.getElem_toList, Array.getD_eq_getD_getElem?, Array.getElem?_eq_getElem,
        Option.getD_some]
  rw [← hlen] at hi hj
  refine (@List.Nodup.getElem_inj_iff _ _ crcTable_nodup _ hi _ hj).1 ?_
  rw [hget i hi, hget j hj, h]

theorem toNat_and_ff (c : UInt32) : (c &&& 0xff).toNat = c.toNat % 256 := by
  rw [UInt32.toNat_and, show (0xff : UInt32).toNat = 2 ^ 8 - 1 from rfl, Nat.and_two_pow_sub_one_eq_mod]

theorem toNat_shift (c : UInt32) : (c >>> 8).toNat = c.toNat / 256 := by
  rw [UInt32.toNat_shiftRight, Nat.shiftRight_eq_div_pow]
  rfl

/-- `x` in front of the bits of `b`, as an exclusive or. -/
theorem xor_mul_256 {b : Nat} (x : Nat) (hb : b < 256) : b ^^^ (256 * x) = b + 256 * x := by
  refine Nat.eq_of_testBit_eq fun i => ?_
  have hmul := Nat.testBit_two_pow_mul_add x (show (0 : Nat) < 2 ^ 8 by decide) i
  have hadd := Nat.testBit_two_pow_mul_add x (show b < 2 ^ 8 from hb) i
  rw [Nat.add_zero] at hmul
  rw [Nat.testBit_xor, Nat.add_comm, show 256 = 2 ^ 8 from rfl, hmul, hadd]
  by_cases hi : i < 8
  · simp [hi]
  · have hpow : 2 ^ 8 ≤ 2 ^ i := Nat.pow_le_pow_right (by decide) (by omega)
    have hfalse : b.testBit i = false := Nat.testBit_lt_two_pow (Nat.lt_of_lt_of_le hb hpow)
    simp [hi, hfalse]

/-- The register after a byte of zero. -/
def crcShift (c : UInt32) : UInt32 := crcTable.getD (c &&& 0xff).toNat 0 ^^^ (c >>> 8)

theorem crcStep_eq (c : UInt32) (b : UInt8) : crcStep c b = crcShift (c ^^^ b.toUInt32) := by
  have hb : b.toUInt32 >>> 8 = 0 := by
    apply UInt32.toNat_inj.1
    rw [toNat_shift, UInt8.toNat_toUInt32, Nat.div_eq_of_lt b.toNat_lt]
    rfl
  have hshift : (c ^^^ b.toUInt32) >>> 8 = c >>> 8 := by
    rw [UInt32.shiftRight_xor, hb, UInt32.xor_zero]
  rw [crcShift, crcStep, hshift]

theorem crcShift_injective : Function.Injective crcShift := by
  intro c d h
  have htop : ∀ x : UInt32, crcShift x >>> 24 = (crcTable.getD (x &&& 0xff).toNat 0) >>> 24 := fun x => by
    have hx : (x >>> 8) >>> 24 = 0 := by
      apply UInt32.toNat_inj.1
      rw [UInt32.toNat_shiftRight, toNat_shift, Nat.shiftRight_eq_div_pow]
      have := x.toNat_lt
      simp
      omega
    rw [crcShift, UInt32.shiftRight_xor, hx, UInt32.xor_zero]
  have hlow : (c &&& 0xff).toNat = (d &&& 0xff).toNat := by
    refine crcTable_inj ?_ ?_ (by rw [← htop, ← htop, h])
    · rw [toNat_and_ff]
      omega
    · rw [toNat_and_ff]
      omega
  rw [crcShift, crcShift, hlow, UInt32.xor_right_inj] at h
  have hhigh := congrArg UInt32.toNat h
  rw [toNat_shift, toNat_shift] at hhigh
  rw [toNat_and_ff, toNat_and_ff] at hlow
  exact UInt32.toNat_inj.1 (by omega)

theorem crcStep_reversible : Reversible crcStep := by
  intro b c d h
  simp only [crcStep_eq] at h
  exact (UInt32.xor_left_inj _).1 (crcShift_injective h)

/-- Bytes as a word to be added to the register. -/
def crcWord (bs : Bytes) : UInt32 := .ofNat (leNat bs)

theorem crcWord_toNat {bs : Bytes} (h : bs.length ≤ 4) : (crcWord bs).toNat = leNat bs := by
  have hlt := leNat_lt bs
  have hle : 256 ^ bs.length ≤ 256 ^ 4 := Nat.pow_le_pow_right (by omega) h
  rw [crcWord, UInt32.toNat_ofNat_of_lt' (show leNat bs < 2 ^ 32 by omega)]

theorem crcShift_xor {bs : Bytes} (h : bs.length ≤ 3) (c : UInt32) (b : UInt8) :
    crcShift (c ^^^ b.toUInt32) ^^^ crcWord bs = crcShift (c ^^^ crcWord (b :: bs)) := by
  have hlt := leNat_lt bs
  have hle : 256 ^ bs.length ≤ 256 ^ 3 := Nat.pow_le_pow_right (by omega) h
  have hb := b.toNat_lt
  obtain ⟨w, hw⟩ : ∃ w, w = UInt32.ofNat (256 * leNat bs) := ⟨_, rfl⟩
  have hwNat : w.toNat = 256 * leNat bs := by rw [hw, UInt32.toNat_ofNat_of_lt' (show 256 * leNat bs < 2 ^ 32 by omega)]
  have hcons : crcWord (b :: bs) = b.toUInt32 ^^^ w := by
    apply UInt32.toNat_inj.1
    rw [crcWord_toNat (show (b :: bs).length ≤ 4 from Nat.succ_le_succ h), UInt32.toNat_xor, UInt8.toNat_toUInt32,
        hwNat, xor_mul_256 _ hb, leNat]
  have hhigh : w >>> 8 = crcWord bs := by
    apply UInt32.toNat_inj.1
    rw [toNat_shift, hwNat, crcWord_toNat (by omega)]
    omega
  have hindex : ((c ^^^ b.toUInt32 ^^^ w) &&& 0xff).toNat = ((c ^^^ b.toUInt32) &&& 0xff).toNat := by
    rw [toNat_and_ff, toNat_and_ff, UInt32.toNat_xor _ w, show 256 = 2 ^ 8 from rfl, Nat.xor_mod_two_pow, hwNat,
      Nat.mul_mod_right, Nat.xor_zero]
  rw [hcons, ← UInt32.xor_assoc, crcShift, crcShift, hindex, UInt32.xor_assoc, ← hhigh, ← UInt32.shiftRight_xor]

theorem crcStep_foldl : ∀ {bs : Bytes}, bs.length ≤ 4 →
    ∀ c, bs.foldl crcStep c = crcShift^[bs.length] (c ^^^ crcWord bs)
  | [], _, c => by simp [crcWord, leNat]
  | b :: bs, h, c => by
    rw [List.length_cons] at h
    rw [List.foldl_cons, crcStep_foldl (by omega), crcStep_eq, crcShift_xor (by omega), List.length_cons,
      Function.iterate_succ_apply]

theorem crcStep_separates : Separates crcStep 4 := by
  intro s w w' hlen h4 h
  rw [crcStep_foldl h4, crcStep_foldl (by omega), hlen] at h
  have hword := (UInt32.xor_right_inj _).1 (crcShift_injective.iterate _ h)
  refine leNat_inj hlen ?_
  rw [← crcWord_toNat (by omega), hword, crcWord_toNat h4]

/-- **The CRC finds every burst** of up to four bytes. -/
theorem crc32_detects {off : Nat} {bs bs' : Bytes} (h : Burst off 4 bs bs') (hne : bs' ≠ bs) (crc : UInt32) :
    crc32 crc bs' ≠ crc32 crc bs := by
  intro he
  exact h.detected crcStep_reversible crcStep_separates hne _ ((UInt32.xor_left_inj _).1 he)

/-! ## The raw format -/

/-- Something is changed, within four consecutive bytes: of the twelve header
bytes in front of the header's checksum, or of the data. -/
structure RawBurst (buf buf' : Bytes) : Prop where
  changed : buf' ≠ buf
  place : ∃ off, Burst off 4 buf buf' ∧ ((∀ i, buf'[i]? ≠ buf[i]? → i < 12) ∨
    ∀ i, buf'[i]? ≠ buf[i]? → formatRawMinLength ≤ i ∧ i < formatRawMinLength + (BackendRawHeader.parse buf).dataLen)

theorem drop_eq_of_lt {n : Nat} {l l' : Bytes} (h : ∀ i, l'[i]? ≠ l[i]? → i < n) : l'.drop n = l.drop n := by
  refine List.ext_getElem? fun i => ?_
  by_contra hi
  rw [List.getElem?_drop, List.getElem?_drop] at hi
  have := h _ hi
  omega

theorem take_eq_of_le {n : Nat} {l l' : Bytes} (h : ∀ i, l'[i]? ≠ l[i]? → n ≤ i) : l'.take n = l.take n := by
  refine List.ext_getElem? fun i => ?_
  rw [List.getElem?_take, List.getElem?_take]
  split
  · by_contra hi
    have := h _ hi
    omega
  · rfl

/-- In the header, the checksum over it finds the change. -/
theorem RawBurst.header {buf buf' : Bytes} {off : Nat} (hb : Burst off 4 buf buf') (hne : buf' ≠ buf)
    (h : ∀ i, buf'[i]? ≠ buf[i]? → i < 12) :
    crc32 0 (buf'.take 12) ≠ crc32 0 (buf.take 12) ∧
      (BackendRawHeader.parse buf').headerCrc = (BackendRawHeader.parse buf).headerCrc := by
  have hdrop := drop_eq_of_lt h
  refine ⟨crc32_detects (hb.take 12) (fun he => hne ?_) 0, ?_⟩
  · rw [← List.take_append_drop 12 buf', ← List.take_append_drop 12 buf, he, hdrop]
  · simp only [BackendRawHeader.parse, slice, hdrop]

/-- In the data, the checksum over them does; the header is the same. -/
theorem RawBurst.data {buf buf' : Bytes} {off n : Nat} (hb : Burst off 4 buf buf') (hne : buf' ≠ buf)
    (h : ∀ i, buf'[i]? ≠ buf[i]? → 16 ≤ i ∧ i < 16 + n) :
    buf'.take 16 = buf.take 16 ∧ crc32 0 (slice 16 n buf') ≠ crc32 0 (slice 16 n buf) := by
  have hhead := take_eq_of_le fun i hi => (h i hi).1
  have hrest := drop_eq_of_lt fun i hi => (h i hi).2
  have hsplit : ∀ x : Bytes, x = x.take 16 ++ (slice 16 n x ++ x.drop (16 + n)) := fun x => by
    rw [slice, ← List.drop_drop, List.take_append_drop, List.take_append_drop]
  refine ⟨hhead, crc32_detects ((hb.drop 16).take n) (fun he => hne ?_) 0⟩
  rw [hsplit buf', hsplit buf, hhead, hrest]
  exact congrArg (fun x => buf.take 16 ++ (x ++ buf.drop (16 + n))) he

/-- Without authentication, `verify` is the check of the header and then that
of the data. -/
theorem verify_plain {magic : UInt32} {noAuth : Bool} {raw : RawFormat} (hauth : raw.algo = none ∨ noAuth = true)
    {buf : Bytes} {len : Int} : backendFormatRawVerify magic noAuth raw buf len =
      if len < formatRawMinLength then some (raw, -EINVAL, len)
      else if buf.length < formatRawMinLength then none
      else if (crc32 0 (buf.take 12)).toNat ≠ (BackendRawHeader.parse buf).headerCrc then some (raw, -EINVAL, len)
      else if magic ≠ 0 ∧ magic.toNat ≠ (BackendRawHeader.parse buf).magic then some (raw, -EINVAL, len)
      else (backendFormatRawVerifyData none buf len).map fun r => (raw, r) := by
  have hno : ¬ (raw.algo.isSome ∧ noAuth = false) := by
    rintro ⟨halgo, rfl⟩
    rcases hauth with h | h
    · simp [h] at halgo
    · cases h
  simp only [backendFormatRawVerify, if_neg hno]

/-- **The raw format finds every burst**: what it accepts without
authentication it rejects once bits within four consecutive bytes of the
header's covered bytes, or of the data, are changed. -/
theorem raw_detects_bursts {magic : UInt32} {noAuth : Bool} {raw raw₁ : RawFormat} {buf buf' : Bytes} {len lenp : Int}
    (hauth : raw.algo = none ∨ noAuth = true)
    (haccept : backendFormatRawVerify magic noAuth raw buf len = some (raw₁, 0, lenp)) (h : RawBurst buf buf') :
    ∃ ret, ret ≠ 0 ∧ backendFormatRawVerify magic noAuth raw buf' len = some (raw, ret, len) := by
  obtain ⟨hne, off, hb, hplace⟩ := h
  have hlen := hb.length
  have herr : -EINVAL ≠ 0 := by decide
  refine ⟨-EINVAL, herr, ?_⟩
  rw [verify_plain hauth] at haccept ⊢
  split at haccept
  · simp [EINVAL] at haccept
  next h16 =>
  split at haccept
  · cases haccept
  next hbuf =>
  split at haccept
  · simp [EINVAL] at haccept
  next hcrc =>
  split at haccept
  · simp [EINVAL] at haccept
  next hmagic =>
  rw [if_neg h16, if_neg (by omega)]
  rcases hplace with hheader | hdata
  · obtain ⟨hcrc', hsame⟩ := RawBurst.header hb hne hheader
    rw [if_pos]
    rw [hsame]
    intro he
    exact hcrc' (UInt32.toNat_inj.1 (he.trans (not_not.1 hcrc).symm))
  · obtain ⟨hhead, hcrc'⟩ := RawBurst.data hb hne hdata
    have hparse := parse_congr hhead
    have h12 : buf'.take 12 = buf.take 12 := by
      rw [← Nat.min_eq_left (show 12 ≤ 16 by omega), ← List.take_take, ← List.take_take, hhead]
    rw [hparse, h12, if_neg hcrc, if_neg hmagic]
    simp only [backendFormatRawVerifyData, hparse, hlen] at haccept ⊢
    split
    · rfl
    next hcomplete =>
    rw [if_neg hcomplete] at haccept
    split at haccept
    · cases haccept
    next hshort =>
    rw [if_neg hshort, if_pos]
    · rfl
    intro he
    split at haccept
    · simp [EINVAL] at haccept
    · next hd => exact hcrc' (UInt32.toNat_inj.1 (he.trans (not_not.1 hd).symm))

/-- A packed payload of five bytes of data, the last four of which are `w`. -/
def burstPayload (w : Bytes) : Bytes := (rawPackHeader 1 5 [1, 2, 3, 4, 5]).bytes ++ [1] ++ w ++ []

/-- The middle two of them, changed. -/
theorem raw_detects_bursts_small : ∃ ret, ret ≠ 0 ∧
    backendFormatRawVerify 1 false (backendFormatRawCreate none) (burstPayload [2, 0, 0xff, 5]) 21 =
      some (backendFormatRawCreate none, ret, 21) := by
  have hlen : ((rawPackHeader 1 5 [1, 2, 3, 4, 5]).bytes ++ [1]).length = 17 := by decide +kernel
  have hb : Burst 17 4 (burstPayload [2, 3, 4, 5]) (burstPayload [2, 0, 0xff, 5]) := by
    have := Burst.mid ((rawPackHeader 1 5 [1, 2, 3, 4, 5]).bytes ++ [1]) []
      (show ([2, 0, 0xff, 5] : Bytes).length = ([2, 3, 4, 5] : Bytes).length from rfl)
    rwa [hlen] at this
  have hdata : (BackendRawHeader.parse (burstPayload [2, 3, 4, 5])).dataLen = 5 := by decide +kernel
  have haccept : (backendFormatRawVerify 1 false (backendFormatRawCreate none)
      (burstPayload [2, 3, 4, 5]) 21).map Prod.snd =
      some (0, 21) := by decide +kernel
  obtain ⟨⟨raw₁, r⟩, hverify, rfl⟩ := Option.map_eq_some_iff.1 haccept
  refine raw_detects_bursts (.inl rfl) hverify ⟨by decide +kernel, 17, hb, .inr fun i hi => ?_⟩
  have := hb.inside i hi
  rw [hdata]
  simp only [formatRawMinLength]
  omega

end DtUtils
