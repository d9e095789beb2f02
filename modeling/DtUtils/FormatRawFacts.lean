/-
What `backend_format_raw_verify` accepts (`RawAccepted`): it looks at nothing
behind the buffer's length (`raw_judges`), accepts whatever comes behind a
payload it accepts (`RawAccepted.append`), and without authentication needs
no more than the part it passes on (`RawAccepted.take`).
-/
import DtUtils.FormatRaw
import DtUtils.StorageFacts

namespace DtUtils
open Lib

theorem parse_congr {p q : Bytes} (h : p.take 16 = q.take 16) :
    BackendRawHeader.parse p = BackendRawHeader.parse q := by
  have hs : ∀ off n, off + n ≤ 16 → slice off n p = slice off n q := by
    intro off n hle
    have hp : slice off n (slice 0 16 p) = slice off n p := by rw [slice_slice hle, Nat.zero_add]
    have hq : slice off n (slice 0 16 q) = slice off n q := by rw [slice_slice hle, Nat.zero_add]
    rw [← hp, ← hq, slice_zero_left, slice_zero_left, h]
  simp only [BackendRawHeader.parse]
  rw [hs 0 4 (by omega), hs 4 2 (by omega), hs 6 2 (by omega), hs 8 4 (by omega), hs 12 4 (by omega)]

@[simp] theorem parse_take {p : Bytes} {n : Nat} (h : 16 ≤ n) :
    BackendRawHeader.parse (p.take n) = BackendRawHeader.parse p :=
  parse_congr (by rw [List.take_take, Nat.min_eq_left h])

@[simp] theorem parse_append {p t : Bytes} (h : 16 ≤ p.length) :
    BackendRawHeader.parse (p ++ t) = BackendRawHeader.parse p :=
  parse_congr (List.take_append_of_le_length h)

theorem parse_dataLen_lt (p : Bytes) : (BackendRawHeader.parse p).dataLen < 2 ^ 16 := by
  have h := leNat_lt (slice 6 2 p)
  have hl := slice_length_le 6 2 p
  have hp : 256 ^ (slice 6 2 p).length ≤ 256 ^ 2 := Nat.pow_le_pow_right (by omega) hl
  simp only [BackendRawHeader.parse]
  omega

theorem hmacMatches_take {auth : Option Digest} {p : Bytes} {l n : Nat} (h : l + authLength auth ≤ n) :
    hmacMatches auth (p.take n) l = hmacMatches auth p l := by
  cases auth with
  | none => rfl
  | some d =>
    simp only [authLength] at h
    have hs : slice l d.length (p.take n) = slice l d.length p := by
      rw [← slice_zero_left, slice_slice h, Nat.zero_add]
    simp only [hmacMatches]
    rw [hs, List.take_take, Nat.min_eq_left (by omega)]

theorem hmacMatches_append {auth : Option Digest} {p t : Bytes} {l : Nat} (h : l + authLength auth ≤ p.length) :
    hmacMatches auth (p ++ t) l = hmacMatches auth p l := by
  rw [← hmacMatches_take h, List.take_left]

/-- The digest to verify with, or why there is none. -/
def effectiveAuth (noAuth : Bool) (algo : Option (Option Digest)) : Except Int (Option Digest) :=
  match algo, noAuth with
  | none, _ => .ok none
  | _, true => .ok none
  | some none, false => .error (-ENODEV)
  | some (some d), false => if d.ready ≠ 0 then .error d.ready else .ok (some d)

/-- The bytes `p` begin with an intact header and data of `l` bytes together,
and the HMAC if one is asked for. -/
structure RawAccepted (magic : UInt32) (auth : Option Digest) (p : Bytes) (l : Nat) : Prop where
  header : 16 ≤ p.length
  headerCrc : (crc32 0 (p.take 12)).toNat = (BackendRawHeader.parse p).headerCrc
  magic : magic = 0 ∨ magic.toNat = (BackendRawHeader.parse p).magic
  len : l = (BackendRawHeader.parse p).dataLen + 16
  complete : l + authLength auth ≤ p.length
  dataCrc : (crc32 0 (slice 16 (BackendRawHeader.parse p).dataLen p)).toNat = (BackendRawHeader.parse p).dataCrc
  hmac : hmacMatches auth p l

section
variable {magic : UInt32} {auth : Option Digest} {p : Bytes} {l : Nat}

theorem RawAccepted.le (h : RawAccepted magic auth p l) : l ≤ p.length := by have := h.complete; omega

theorem RawAccepted.append (h : RawAccepted magic auth p l) (t : Bytes) : RawAccepted magic auth (p ++ t) l := by
  have h16 := h.header
  have hc := h.complete
  have hlen := h.len
  have hp := parse_append (t := t) h16
  refine ⟨by simp; omega, ?_, ?_, ?_, by simp; omega, ?_, ?_⟩
  · rw [hp, List.take_append_of_le_length (by omega)]; exact h.headerCrc
  · rw [hp]; exact h.magic
  · rw [hp]; exact h.len
  · rw [hp, slice_append_left (by omega)]; exact h.dataCrc
  · rw [hmacMatches_append hc]; exact h.hmac

/-- Two accepted payloads of one length with the same first eight bytes (the
magic and the data's length) differ in their data if they differ at all. -/
theorem RawAccepted.eq_of_data {q : Bytes} (hp : RawAccepted magic auth p l) (hq : RawAccepted magic auth q l)
    (hlp : p.length = l + authLength auth) (hlq : q.length = l + authLength auth) (h8 : p.take 8 = q.take 8)
    (hdata : slice 16 (l - 16) p = slice 16 (l - 16) q) : p = q := by
  have h16 := hp.header
  have h16' := hq.header
  have hl := hp.len
  have hl' := hq.len
  have hdl : (BackendRawHeader.parse p).dataLen = l - 16 := by omega
  have hdl' : (BackendRawHeader.parse q).dataLen = l - 16 := by omega
  have hword : ∀ {off : Nat}, off + 4 ≤ 16 → leNat (slice off 4 p) = leNat (slice off 4 q) →
      slice off 4 p = slice off 4 q := by
    intro off hoff h
    exact leNat_inj (by rw [slice_length (by omega), slice_length (by omega)]) h
  have hdc : slice 8 4 p = slice 8 4 q := by
    have h1 := hp.dataCrc
    have h2 := hq.dataCrc
    rw [hdl] at h1
    rw [hdl'] at h2
    rw [hdata] at h1
    exact hword (by omega) (h1.symm.trans h2)
  have h12 : p.take 12 = q.take 12 := by
    have ht : ∀ x : Bytes, x.take 12 = x.take 8 ++ slice 8 4 x := fun x => by
      rw [← slice_zero_left, show 12 = 8 + 4 from rfl, slice_eq_append, slice_zero_left]
    rw [ht p, ht q, h8, hdc]
  have hhc : slice 12 4 p = slice 12 4 q := by
    have h1 := hp.headerCrc
    have h2 := hq.headerCrc
    rw [h12] at h1
    exact hword (by omega) (h1.symm.trans h2)
  have hhead : p.take l = q.take l := by
    have ht : ∀ x : Bytes, x.take l = x.take 12 ++ slice 12 4 x ++ slice 16 (l - 16) x := fun x => by
      rw [← slice_zero_left, show l = 12 + 4 + (l - 16) by omega, slice_eq_append, slice_eq_append, slice_zero_left]
      simp
    rw [ht p, ht q, h12, hhc, hdata]
  have hmac : slice l (authLength auth) p = slice l (authLength auth) q := by
    have h1 := hp.hmac
    have h2 := hq.hmac
    cases auth with
    | none => simp [authLength, slice]
    | some d =>
      simp only [hmacMatches, decide_eq_true_eq] at h1 h2
      rw [hhead] at h1
      exact h1.symm.trans h2
  have hwhole : ∀ x : Bytes, x.length = l + authLength auth → x = x.take l ++ slice l (authLength auth) x := by
    intro x hx
    have : slice 0 (l + authLength auth) x = _ := slice_eq_append x
    rwa [slice_zero_left, slice_zero_left, List.take_of_length_le (by omega), Nat.zero_add] at this
  rw [hwhole p hlp, hwhole q hlq, hhead, hmac]

/-- Without an HMAC the part that is passed on is accepted itself. -/
theorem RawAccepted.take (h : RawAccepted magic auth p l) : RawAccepted magic none (p.take l) l := by
  have hlen := h.len
  have hle := h.le
  have hl : (p.take l).length = l := by simp [hle]
  have hp : BackendRawHeader.parse (p.take l) = BackendRawHeader.parse p := parse_take (by omega)
  refine ⟨by omega, ?_, ?_, ?_, by simp [authLength, hle], ?_, rfl⟩
  · rw [hp, List.take_take, Nat.min_eq_left (by omega)]; exact h.headerCrc
  · rw [hp]; exact h.magic
  · rw [hp]; exact h.len
  · rw [hp, ← h.dataCrc]
    have : slice 16 (BackendRawHeader.parse p).dataLen (slice 0 l p) =
        slice 16 (BackendRawHeader.parse p).dataLen p := by
      rw [slice_slice (by omega), Nat.zero_add]
    rw [slice_zero_left] at this
    rw [this]

end

/-! ## The verdict -/

theorem backendFormatRawVerifyData_eq (auth : Option Digest) {buf : Bytes} {n : Nat} (hn : n ≤ buf.length)
    (h16 : 16 ≤ n) :
    backendFormatRawVerifyData auth buf n = backendFormatRawVerifyData auth (buf.take n) n ∧
      ∃ r, backendFormatRawVerifyData auth buf n = some r ∧ 0 ≤ r.2 ∧ r.2 ≤ n := by
  have hp : BackendRawHeader.parse (buf.take n) = BackendRawHeader.parse buf := parse_take h16
  have hl : (buf.take n).length = n := by simp [hn]
  simp only [backendFormatRawVerifyData, hp, hl, formatRawMinLength]
  generalize (BackendRawHeader.parse buf).dataLen = dataLen
  by_cases hle : dataLen + authLength auth + 16 ≤ n
  · have hs : slice 16 dataLen (buf.take n) = slice 16 dataLen buf := by
      rw [← slice_zero_left, slice_slice (by omega), Nat.zero_add]
    have hm : hmacMatches auth (buf.take n) (dataLen + 16) = hmacMatches auth buf (dataLen + 16) :=
      hmacMatches_take (by omega)
    have hgt : ¬ ((dataLen + authLength auth + 16 : Nat) : Int) > n := by omega
    have hbuf : ¬ buf.length < dataLen + authLength auth + 16 := by omega
    have htake : ¬ n < dataLen + authLength auth + 16 := by omega
    simp only [hgt, hbuf, htake, if_false, hs, hm, true_and]
    split
    · exact ⟨_, rfl, by simp, by simp⟩
    · exact ⟨_, rfl, by simp only; omega, by simp only; omega⟩
  · have hgt : ((dataLen + authLength auth + 16 : Nat) : Int) > n := by omega
    simp only [hgt, if_true, true_and]
    exact ⟨_, rfl, by simp, by simp⟩

/-- The return value and `*lenp` for the bytes `p`. -/
def rawCheck (magic : UInt32) (auth : Except Int (Option Digest)) (p : Bytes) : Int × Int :=
  if p.length < 16 ∨ (crc32 0 (p.take 12)).toNat ≠ (BackendRawHeader.parse p).headerCrc ∨
      (magic ≠ 0 ∧ magic.toNat ≠ (BackendRawHeader.parse p).magic) then (-EINVAL, p.length)
  else
    match auth with
    | .error ret => (ret, p.length)
    | .ok d => (backendFormatRawVerifyData d p p.length).getD (-EFAULT, p.length)

/-- `verify` looks at the first `n` bytes alone, and does not depend on
whether it has been called before. -/
theorem backendFormatRawVerify_take {magic : UInt32} {noAuth : Bool} {raw : RawFormat} {buf : Bytes} {n : Nat}
    (hn : n ≤ buf.length) : ∃ raw', raw'.algo = raw.algo ∧ backendFormatRawVerify magic noAuth raw buf n =
      some (raw', rawCheck magic (effectiveAuth noAuth raw.algo) (buf.take n)) := by
  have hl : (buf.take n).length = n := by simp [hn]
  have hmin : formatRawMinLength = 16 := rfl
  simp only [rawCheck, hl]
  by_cases h16 : n < 16
  · rw [if_pos (.inl h16), backendFormatRawVerify, if_pos (by omega)]
    exact ⟨raw, rfl, rfl⟩
  have hp : BackendRawHeader.parse (buf.take n) = BackendRawHeader.parse buf := parse_take (by omega)
  have h12 : (buf.take n).take 12 = buf.take 12 := by rw [List.take_take, Nat.min_eq_left (by omega)]
  rw [hp, h12, backendFormatRawVerify, if_neg (by omega), if_neg (by omega)]
  simp only
  by_cases hcrc : (crc32 0 (buf.take 12)).toNat ≠ (BackendRawHeader.parse buf).headerCrc
  · rw [if_pos hcrc, if_pos (.inr (.inl hcrc))]
    exact ⟨raw, rfl, rfl⟩
  rw [if_neg hcrc]
  by_cases hmagic : magic ≠ 0 ∧ magic.toNat ≠ (BackendRawHeader.parse buf).magic
  · rw [if_pos hmagic, if_pos (.inr (.inr hmagic))]
    exact ⟨raw, rfl, rfl⟩
  have hhead : ¬ (n < 16 ∨ (crc32 0 (buf.take 12)).toNat ≠ (BackendRawHeader.parse buf).headerCrc ∨
      (magic ≠ 0 ∧ magic.toNat ≠ (BackendRawHeader.parse buf).magic)) := by
    simp only [not_or]
    exact ⟨h16, hcrc, hmagic⟩
  rw [if_neg hmagic, if_neg hhead]
  -- The digest that is set up, if any, is the one of `effectiveAuth`.
  have hdata : ∀ d, ∃ r, backendFormatRawVerifyData d buf n = some r ∧
      (backendFormatRawVerifyData d (buf.take n) n).getD (-EFAULT, n) = r := by
    intro d
    obtain ⟨heq, r, hr, -⟩ := backendFormatRawVerifyData_eq d hn (by omega)
    exact ⟨r, hr, by rw [← heq, hr]; rfl⟩
  have hplain : ∃ raw' : RawFormat, raw'.algo = raw.algo ∧
      ((backendFormatRawVerifyData none buf n).map fun r => (raw, r)) =
        some (raw', (backendFormatRawVerifyData none (buf.take n) n).getD (-EFAULT, n)) := by
    obtain ⟨r, hr, hget⟩ := hdata none
    exact ⟨raw, rfl, by rw [hr, hget]; rfl⟩
  cases ha : raw.algo with
  | none =>
    rw [if_neg (by simp)]
    simp only [effectiveAuth]
    rw [← ha]
    exact hplain
  | some a =>
    cases noAuth with
    | true =>
      rw [if_neg (by simp)]
      simp only [effectiveAuth]
      rw [← ha]
      exact hplain
    | false =>
      rw [if_pos (by simp)]
      cases a with
      | none =>
        have hi : backendRawDigestInit raw = (raw, -ENODEV) := by
          unfold backendRawDigestInit
          split
          · next d hd => rw [ha] at hd; simp at hd
          · rfl
        simp only [effectiveAuth, hi]
        exact ⟨raw, ha, rfl⟩
      | some d =>
        have hi : ∃ raw', backendRawDigestInit raw = (raw', d.ready) ∧ raw'.algo = raw.algo ∧ raw'.digest = some d := by
          unfold backendRawDigestInit
          split
          · next d' hd =>
            rw [ha] at hd
            simp only [Option.some.injEq] at hd
            subst hd
            exact ⟨_, rfl, rfl, rfl⟩
          · next hd => exact absurd ha (hd d)
        obtain ⟨raw', hi, halgo, hdig⟩ := hi
        simp only [effectiveAuth, hi]
        by_cases hready : d.ready ≠ 0
        · rw [if_pos hready, if_pos hready]
          exact ⟨raw', halgo.trans ha, rfl⟩
        · rw [if_neg hready, if_neg hready]
          obtain ⟨r, hr, hget⟩ := hdata (some d)
          simp only [hdig, hr, hget]
          exact ⟨raw', halgo.trans ha, rfl⟩

theorem rawCheck_len (magic : UInt32) (auth : Except Int (Option Digest)) (p : Bytes) :
    0 ≤ (rawCheck magic auth p).2 ∧ (rawCheck magic auth p).2 ≤ p.length := by
  unfold rawCheck
  split
  · simp
  next h =>
  simp only [not_or] at h
  cases auth with
  | error => simp
  | ok d =>
    obtain ⟨-, r, hr, h0, hle⟩ := backendFormatRawVerifyData_eq d (le_refl p.length) (by omega)
    simp only [hr, Option.getD_some]
    exact ⟨h0, hle⟩

/-- The raw format judges the bytes a bucket delivers, however often it is used. -/
theorem raw_judges (magic : UInt32) (noAuth : Bool) (algo : Option (Option Digest)) :
    Judges (backendFormatRawVerify magic noAuth) (fun raw => raw.algo = algo)
      (rawCheck magic (effectiveAuth noAuth algo)) where
  judge f buf n hf hn := by
    obtain ⟨raw', halgo, h⟩ := backendFormatRawVerify_take hn
    rw [hf] at halgo h
    exact ⟨raw', halgo, h⟩
  len_nonneg p := (rawCheck_len _ _ p).1
  len_le p := (rawCheck_len _ _ p).2

theorem rawCheck_eq_zero {magic : UInt32} {auth : Except Int (Option Digest)} {p : Bytes} {l : Int}
    (hauth : ∀ e, auth = .error e → e ≠ 0) :
    rawCheck magic auth p = (0, l) ↔ ∃ d n, auth = .ok d ∧ l = (n : Nat) ∧ RawAccepted magic d p n := by
  constructor
  · intro h
    unfold rawCheck at h
    split at h
    · simp [EINVAL] at h
    next hhead =>
    simp only [not_or, not_and, ne_eq, not_not, not_lt] at hhead
    obtain ⟨h16, hcrc, hmagic⟩ := hhead
    cases auth with
    | error e => simp only [Prod.mk.injEq] at h; exact absurd h.1 (hauth e rfl)
    | ok d =>
      simp only [backendFormatRawVerifyData, formatRawMinLength] at h
      split at h
      · simp [EINVAL] at h
      next hle =>
      split at h
      · simp [EFAULT] at h
      split at h
      · simp [EINVAL] at h
      next hdcrc =>
      simp only [Option.getD_some, Prod.mk.injEq] at h
      obtain ⟨hm, rfl⟩ := h
      refine ⟨d, _, rfl, rfl, ⟨h16, hcrc, ?_, rfl, by omega, by simpa using hdcrc, ?_⟩⟩
      · by_cases h0 : magic = 0
        · exact .inl h0
        · exact .inr (hmagic h0)
      · by_contra hne
        rw [if_neg hne] at hm
        simp [EINVAL] at hm
  · rintro ⟨d, n, rfl, rfl, h⟩
    have hc := h.complete
    have hlen := h.len
    have hmagic := h.magic
    rw [rawCheck, if_neg]
    · have h1 : ¬ (((BackendRawHeader.parse p).dataLen + authLength d + 16 : Nat) : Int) > p.length := by omega
      have h2 : ¬ p.length < (BackendRawHeader.parse p).dataLen + authLength d + 16 := by omega
      have h3 := h.dataCrc
      have h4 := h.hmac
      simp only [backendFormatRawVerifyData, formatRawMinLength, h1, h2, h3, ← hlen, h4, if_false, if_true, ne_eq,
        not_true_eq_false, Option.getD_some]
    · simp only [not_or]
      refine ⟨by have := h.header; omega, by simp [h.headerCrc], ?_⟩
      rintro ⟨h0, h1⟩
      rcases hmagic with hm | hm
      · exact h0 hm
      · exact h1 hm

theorem effectiveAuth_error {noAuth : Bool} {algo : Option (Option Digest)} :
    ∀ e, effectiveAuth noAuth algo = .error e → e ≠ 0 := by
  intro e h
  unfold effectiveAuth at h
  split at h
  · cases h
  · cases h
  · cases h; decide
  · split at h
    · next hr => cases h; exact hr
    · cases h

end DtUtils
