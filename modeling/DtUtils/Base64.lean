/-
`decode_base64` of `base64.c`. Up to three bytes are written once one of them
has room, and a `=` where a group would begin even gives room back, so the
buffer can be left (`decode_base64_iff`). What `encodeBase64` writes is decoded
into the bytes it was made of.
-/
import DtUtils.DeviceTree
import DtUtils.Common
import DtUtils.Lib.Base64

namespace DtUtils
open Lib

/-! ## The decoder -/

/-- `uuenc_tbl_base64` -/
def uuencTblBase64 : Bytes := (cstr "ABCDEFGHIJKLMNOPQRSTUVWXYZabcdefghijklmnopqrstuvwxyz0123456789+/=").1

/-- Where `strchr` finds a character in the table. -/
def base64Index (ch : UInt8) : Option Nat := uuencTblBase64.findIdx? (· = ch)

/-- The inner loop: up to four 6-bit values behind those in `sixBit`, and the
rest of the source. `none` at its end. -/
def fetchSixBit (sixBit : Bytes) (src : Bytes) : Option (Bytes × Bytes) :=
  if sixBit.length < 4 then
    match src with
    | [] => none
    | ch :: src =>
      match base64Index ch with
      | none => fetchSixBit sixBit src
      | some i => if i = 64 then some (sixBit, src) else fetchSixBit (sixBit ++ [.ofNat i]) src
  else some (sixBit, src)

/-- The bytes that are written for these values. -/
def sixBitBytes (sixBit : Bytes) : Bytes :=
  let six := fun i => sixBit.getD i 0
  (if 1 < sixBit.length then [six 0 <<< 2 ||| six 1 >>> 4] else []) ++
    (if 2 < sixBit.length then [six 1 <<< 4 ||| six 2 >>> 2] else []) ++
    if 3 < sixBit.length then [six 2 <<< 6 ||| six 3] else []

/-- The groups of a source behind the values in `sixBit`: four characters of
the alphabet, or fewer up to a `=`. -/
def base64Groups (sixBit : Bytes) : Bytes → List Bytes
  | [] => []
  | ch :: src =>
    match base64Index ch with
    | none => base64Groups sixBit src
    | some i =>
      if i = 64 then sixBit :: base64Groups [] src
      else if sixBit.length = 3 then (sixBit ++ [.ofNat i]) :: base64Groups [] src
      else base64Groups (sixBit ++ [.ofNat i]) src

theorem fetchSixBit_full {sixBit src : Bytes} (h : sixBit.length = 4) :
    fetchSixBit sixBit src = some (sixBit, src) := by
  rw [fetchSixBit.eq_def, if_neg (by omega)]

theorem fetchSixBit_groups {src sixBit : Bytes} (hlen : sixBit.length < 4) :
    match fetchSixBit sixBit src with
    | none => base64Groups sixBit src = []
    | some (got, rest) =>
      base64Groups sixBit src = got :: base64Groups [] rest ∧ got.length ≤ 4 ∧ rest.length < src.length := by
  induction src generalizing sixBit with
  | nil =>
    rw [fetchSixBit.eq_def, if_pos hlen]
    rfl
  | cons ch src ih =>
    rw [fetchSixBit.eq_def, if_pos hlen]
    simp only [base64Groups]
    cases base64Index ch with
    | none =>
      have hrest := ih hlen
      simp only
      split at hrest
      · next hnone => simpa only [hnone] using hrest
      · simp only [List.length_cons]
        exact ⟨hrest.1, hrest.2.1, by omega⟩
    | some i =>
      simp only
      by_cases hpad : i = 64
      · simp only [if_pos hpad, List.length_cons]
        exact ⟨trivial, by omega, by omega⟩
      by_cases hfull : sixBit.length = 3
      · have hfour : (sixBit ++ [UInt8.ofNat i]).length = 4 := by simp [hfull]
        simp only [if_neg hpad, if_pos hfull, fetchSixBit_full hfour, hfour, List.length_cons]
        exact ⟨trivial, le_refl 4, by omega⟩
      · have hless : (sixBit ++ [UInt8.ofNat i]).length < 4 := by simp; omega
        have hrest := ih hless
        simp only [if_neg hpad, if_neg hfull]
        split at hrest
        · next hnone => simpa only [hnone] using hrest
        · simp only [List.length_cons]
          exact ⟨hrest.1, hrest.2.1, by omega⟩

theorem fetchSixBit_length {sixBit src rest got : Bytes} (hlen : sixBit.length < 4)
    (h : fetchSixBit sixBit src = some (got, rest)) : rest.length < src.length := by
  have hgroups := @fetchSixBit_groups src sixBit hlen
  rw [h] at hgroups
  exact hgroups.2.2

/-- The outer loop, with what was written so far. `none` if an `int`
overflows. -/
def decodeBase64Loop (dst : Bytes) (dstLen length : Int) (src : Bytes) : Option (Bytes × Int) :=
  if dstLen ≤ 0 then some (dst, length)
  else
    match hfetch : fetchSixBit [] src with
    | none => some (dst, length)
    | some (sixBit, rest) =>
      let count : Int := sixBit.length
      let dstLen' := dstLen - (count - 1)
      let length' := if count ≠ 0 then length + (count - 1) else length
      if 2 ^ 31 ≤ dstLen' ∨ 2 ^ 31 ≤ length' then none
      else
        have := fetchSixBit_length (by decide) hfetch
        decodeBase64Loop (dst ++ sixBitBytes sixBit) dstLen' length' rest
termination_by src.length

/-- `decode_base64`: what was written to `p_dst`, and the return value. -/
def decodeBase64 (dstLen : Int) (src : CString) : Option (Bytes × Int) := decodeBase64Loop [] dstLen 0 src.1

/-! ## Groups -/

def decodedBytes (groups : List Bytes) : Bytes := groups.flatMap sixBitBytes

/-- What is left of `dst_len` behind these groups: an empty one adds to it. -/
def roomLeft (dstLen : Int) (groups : List Bytes) : Int :=
  dstLen + groups.count [] - (decodedBytes groups).length

/-- The outer loop over groups. -/
def decodeGroups (dst : Bytes) (dstLen length : Int) : List Bytes → Option (Bytes × Int)
  | [] => some (dst, length)
  | sixBit :: groups =>
    if dstLen ≤ 0 then some (dst, length)
    else if 2 ^ 31 ≤ roomLeft dstLen [sixBit] ∨ 2 ^ 31 ≤ length + (sixBitBytes sixBit).length then none
    else
      decodeGroups (dst ++ sixBitBytes sixBit) (roomLeft dstLen [sixBit]) (length + (sixBitBytes sixBit).length) groups

theorem sixBitBytes_length {sixBit : Bytes} (h : sixBit.length ≤ 4) :
    (sixBitBytes sixBit).length = sixBit.length - 1 := by
  simp only [sixBitBytes, List.length_append]
  split <;> split <;> split <;> simp <;> omega

theorem roomLeft_singleton {dstLen : Int} {sixBit : Bytes} (h : sixBit.length ≤ 4) :
    roomLeft dstLen [sixBit] = dstLen - (sixBit.length - 1) := by
  have hlen := sixBitBytes_length h
  cases sixBit with
  | nil => simp [roomLeft, decodedBytes, sixBitBytes]
  | cons x xs =>
    simp only [roomLeft, decodedBytes, List.flatMap_cons, List.flatMap_nil, List.append_nil, hlen, List.length_cons]
    simp

theorem decodeGroups_stop {dst : Bytes} {dstLen length : Int} (h : dstLen ≤ 0) (groups : List Bytes) :
    decodeGroups dst dstLen length groups = some (dst, length) := by
  cases groups with
  | nil => rfl
  | cons => exact if_pos h

theorem decodeBase64Loop_groups (dst : Bytes) (dstLen length : Int) (src : Bytes) :
    decodeBase64Loop dst dstLen length src = decodeGroups dst dstLen length (base64Groups [] src) := by
  induction hn : src.length using Nat.strong_induction_on generalizing dst dstLen length src with
  | _ n ih =>
    have hgroups := @fetchSixBit_groups src [] (by decide)
    rw [decodeBase64Loop]
    by_cases hstop : dstLen ≤ 0
    · rw [if_pos hstop, decodeGroups_stop hstop]
    rw [if_neg hstop]
    split
    · next hnone =>
      rw [hnone] at hgroups
      rw [show base64Groups [] src = [] from hgroups, decodeGroups]
    · next sixBit rest hsome =>
      rw [hsome] at hgroups
      obtain ⟨hfirst, hfour, hless⟩ := hgroups
      have hlength : (if (sixBit.length : Int) ≠ 0 then length + ((sixBit.length : Int) - 1) else length) =
          length + (sixBitBytes sixBit).length := by
        rw [sixBitBytes_length hfour]
        split <;> omega
      simp only [hfirst, decodeGroups, if_neg hstop, roomLeft_singleton hfour, hlength]
      split
      · rfl
      · exact ih rest.length (hn ▸ hless) _ _ _ rest rfl

/-! ## Buffers -/

section
variable {dst : Bytes} {dstLen length : Int}

theorem decodedBytes_append (p q : List Bytes) : decodedBytes (p ++ q) = decodedBytes p ++ decodedBytes q :=
  List.flatMap_append

@[simp] theorem roomLeft_nil : roomLeft dstLen [] = dstLen := by simp [roomLeft, decodedBytes]

theorem roomLeft_append (p q : List Bytes) : roomLeft dstLen (p ++ q) = roomLeft (roomLeft dstLen p) q := by
  simp only [roomLeft, decodedBytes_append, List.count_append, List.length_append]
  omega

/-- Without empty groups what is left is what was there without the bytes. -/
theorem roomLeft_of_not_mem {p : List Bytes} (h : [] ∉ p) :
    roomLeft dstLen p = dstLen - (decodedBytes p).length := by
  simp only [roomLeft, List.count_eq_zero_of_not_mem h]
  omega

theorem decodeGroups_append {p q : List Bytes} (hempty : [] ∉ p) (hroom : (decodedBytes p).length ≤ dstLen)
    (hint : dstLen < 2 ^ 31) (hlength : length + (decodedBytes p).length < 2 ^ 31) :
    decodeGroups dst dstLen length (p ++ q) =
      decodeGroups (dst ++ decodedBytes p) (dstLen - (decodedBytes p).length) (length + (decodedBytes p).length) q := by
  induction p generalizing dst dstLen length with
  | nil => simp [decodedBytes]
  | cons sixBit p ih =>
    rw [List.mem_cons, not_or] at hempty
    have hsplit : decodedBytes (sixBit :: p) = sixBitBytes sixBit ++ decodedBytes p := rfl
    have hone : roomLeft dstLen [sixBit] = dstLen - (sixBitBytes sixBit).length := by
      rw [roomLeft_of_not_mem (by simpa using hempty.1)]
      simp [decodedBytes]
    rw [hsplit, List.length_append] at hroom hlength ⊢
    rw [List.cons_append]
    by_cases hstop : dstLen ≤ 0
    · -- Nothing is decoded into no room.
      have hbytes : sixBitBytes sixBit ++ decodedBytes p = [] :=
        List.eq_nil_of_length_eq_zero (by rw [List.length_append]; omega)
      rw [decodeGroups_stop hstop, hbytes, decodeGroups_stop (by omega)]
      simp
      omega
    · rw [decodeGroups, if_neg hstop, hone, if_neg (by omega), ih hempty.2 (by omega) (by omega) (by omega),
        List.append_assoc]
      congr 1 <;> omega

/-- A run without an overflow decodes the groups up to some point. -/
theorem decodeGroups_total {groups : List Bytes} (hroom : ∀ p q, groups = p ++ q → roomLeft dstLen p < 2 ^ 31)
    (hlength : length + (decodedBytes groups).length < 2 ^ 31) :
    ∃ p q, groups = p ++ q ∧
      decodeGroups dst dstLen length groups = some (dst ++ decodedBytes p, length + (decodedBytes p).length) := by
  induction groups generalizing dst dstLen length with
  | nil => exact ⟨[], [], rfl, by simp [decodeGroups, decodedBytes]⟩
  | cons sixBit groups ih =>
    have hsplit : decodedBytes (sixBit :: groups) = sixBitBytes sixBit ++ decodedBytes groups := rfl
    rw [hsplit, List.length_append] at hlength
    by_cases hstop : dstLen ≤ 0
    · exact ⟨[], sixBit :: groups, rfl, by rw [decodeGroups_stop hstop]; simp [decodedBytes]⟩
    have hfirst := hroom [sixBit] groups rfl
    obtain ⟨p, q, rfl, hrun⟩ := @ih (dst ++ sixBitBytes sixBit) (roomLeft dstLen [sixBit])
      (length + (sixBitBytes sixBit).length) (fun p q hpq => by
        rw [← roomLeft_append]
        exact hroom (sixBit :: p) q (by rw [hpq]; rfl)) (by omega)
    refine ⟨sixBit :: p, q, rfl, ?_⟩
    rw [decodeGroups, if_neg hstop, if_neg (by omega), hrun]
    simp only [decodedBytes, List.flatMap_cons, List.append_assoc, List.length_append]
    congr 2
    omega

/-- What a run decoded: all groups, or those that filled the room. -/
theorem decodeGroups_eq_some {groups : List Bytes} {out : Bytes} {ret : Int}
    (h : decodeGroups dst dstLen length groups = some (out, ret)) :
    ∃ p q, groups = p ++ q ∧ out = dst ++ decodedBytes p ∧ ret = length + (decodedBytes p).length ∧
      (q = [] ∨ roomLeft dstLen p ≤ 0) ∧ ∀ p₁ p₂, p = p₁ ++ p₂ → p₁ ≠ [] → roomLeft dstLen p₁ < 2 ^ 31 := by
  induction groups generalizing dst dstLen length with
  | nil =>
    cases h
    exact ⟨[], [], rfl, by simp [decodedBytes], by simp [decodedBytes], .inl rfl,
      fun p₁ p₂ hp hne => absurd (List.append_eq_nil_iff.1 hp.symm).1 hne⟩
  | cons sixBit groups ih =>
    rw [decodeGroups] at h
    split at h
    · next hstop =>
      cases h
      exact ⟨[], sixBit :: groups, rfl, by simp [decodedBytes], by simp [decodedBytes],
        .inr (by rwa [roomLeft_nil]), fun p₁ p₂ hp hne => absurd (List.append_eq_nil_iff.1 hp.symm).1 hne⟩
    · split at h
      · cases h
      · next hstop hfits =>
        obtain ⟨p, q, rfl, rfl, rfl, hend, hroom⟩ := ih h
        refine ⟨sixBit :: p, q, rfl, ?_, ?_, ?_, ?_⟩
        · simp [decodedBytes]
        · simp only [decodedBytes, List.flatMap_cons, List.length_append]
          omega
        · rwa [← roomLeft_append] at hend
        · intro p₁ p₂ hp hne
          obtain ⟨x, p₁, rfl⟩ := List.exists_cons_of_ne_nil hne
          rw [List.cons_append, List.cons.injEq] at hp
          obtain ⟨rfl, hp⟩ := hp
          rw [show sixBit :: p₁ = [sixBit] ++ p₁ from rfl, roomLeft_append]
          by_cases hnil : p₁ = []
          · rw [hnil, roomLeft_nil]
            omega
          · exact hroom p₁ p₂ hp hnil

end

/-- The decoder writes no more than `dst_len` bytes, and returns their number. -/
def DecodesInBounds (dstLen : Int) (src : CString) : Prop :=
  ∃ out, decodeBase64 dstLen src = some (out, out.length) ∧ out.length ≤ dstLen.toNat

/-- Groups at the beginning, none of them empty, fill the buffer exactly, or all
of them fit and the empty ones do not bring what is left above an `int`. -/
def FitsBuffer (dstLen : Int) (groups : List Bytes) : Prop :=
  (∃ p q, groups = p ++ q ∧ [] ∉ p ∧ (decodedBytes p).length = dstLen.toNat) ∨
    (decodedBytes groups).length ≤ dstLen.toNat ∧ ∀ p q, groups = p ++ q → roomLeft dstLen p < 2 ^ 31

theorem decodesInBounds_iff {dstLen : Int} (hint : dstLen < 2 ^ 31) (src : CString) :
    DecodesInBounds dstLen src ↔ FitsBuffer dstLen (base64Groups [] src.1) := by
  rw [DecodesInBounds, decodeBase64, decodeBase64Loop_groups]
  constructor
  · rintro ⟨out, hrun, hbound⟩
    obtain ⟨p, q, hgroups, rfl, -, hend, hroom⟩ := decodeGroups_eq_some hrun
    rw [List.nil_append] at hbound
    rcases hend with rfl | hfull
    · right
      rw [List.append_nil] at hgroups
      rw [hgroups]
      refine ⟨hbound, fun p₁ p₂ hp => ?_⟩
      by_cases hnil : p₁ = []
      · rw [hnil, roomLeft_nil]
        exact hint
      · exact hroom p₁ p₂ hp hnil
    · left
      by_cases hneg : dstLen ≤ 0
      · exact ⟨[], _, rfl, List.not_mem_nil, by simp [decodedBytes, Int.toNat_of_nonpos hneg]⟩
      rw [roomLeft] at hfull
      have hcount : p.count [] = 0 := by omega
      exact ⟨p, q, hgroups, List.count_eq_zero.1 hcount, by omega⟩
  · rintro (⟨p, q, hgroups, hempty, hbytes⟩ | ⟨hbound, hroom⟩)
    · refine ⟨decodedBytes p, ?_, by omega⟩
      rw [hgroups]
      by_cases hneg : dstLen ≤ 0
      · have hnil : decodedBytes p = [] := List.eq_nil_of_length_eq_zero (by omega)
        rw [decodeGroups_stop hneg, hnil]
        rfl
      · rw [decodeGroups_append hempty (by omega) hint (by omega), decodeGroups_stop (by omega)]
        simp
    · obtain ⟨p, q, hgroups, hrun⟩ := @decodeGroups_total [] dstLen 0 _ hroom (by omega)
      rw [hgroups, decodedBytes_append, List.length_append] at hbound
      refine ⟨decodedBytes p, by rw [hrun]; simp, by omega⟩

/-- What is returned is the number of bytes written, also outside the buffer. -/
theorem decodeBase64_returns {dstLen ret : Int} {src : CString} {out : Bytes}
    (h : decodeBase64 dstLen src = some (out, ret)) : ret = out.length := by
  rw [decodeBase64, decodeBase64Loop_groups] at h
  obtain ⟨p, q, -, rfl, rfl, -⟩ := decodeGroups_eq_some h
  simp

/-! ## What was encoded -/

theorem uuencTblBase64_eq : uuencTblBase64 = base64Alphabet ++ [base64Pad] := by decide

theorem base64Index_char {six : UInt8} (h : six.toNat < 64) : base64Index (base64Char six) = some six.toNat := by
  have hall : ∀ n < 64, (base64Alphabet ++ [base64Pad]).findIdx? (· = base64Char (.ofNat n)) = some n := by decide
  have hsix := hall six.toNat h
  rwa [UInt8.ofNat_toNat, ← uuencTblBase64_eq] at hsix

theorem base64Index_pad : base64Index base64Pad = some 64 := by
  rw [base64Index.eq_def, uuencTblBase64_eq]
  decide

section
variable {sixBit src : Bytes}

theorem base64Groups_filter :
    base64Groups sixBit (src.filter fun ch => (base64Index ch).isSome) = base64Groups sixBit src := by
  induction src generalizing sixBit with
  | nil => rfl
  | cons ch src ih =>
    cases hch : base64Index ch with
    | none =>
      rw [List.filter_cons_of_neg (by simp [hch]), ih]
      simp only [base64Groups, hch]
    | some i =>
      rw [List.filter_cons_of_pos (by simp [hch])]
      simp only [base64Groups, hch, ih]

theorem base64Groups_char {six : UInt8} (h : six.toNat < 64) : base64Groups sixBit (base64Char six :: src) =
    if sixBit.length = 3 then (sixBit ++ [six]) :: base64Groups [] src else base64Groups (sixBit ++ [six]) src := by
  simp only [base64Groups, base64Index_char h, UInt8.ofNat_toNat]
  rw [if_neg (by omega)]

theorem base64Groups_pad : base64Groups sixBit (base64Pad :: src) = sixBit :: base64Groups [] src := by
  simp only [base64Groups, base64Index_pad, if_true]

end

/-- The groups of an encoding, with an empty one at the end if there are two
characters of padding. -/
theorem base64Groups_encodeBase64 : ∀ b : Bytes, ∃ p q, base64Groups [] (encodeBase64 b) = p ++ q ∧ [] ∉ p ∧
    decodedBytes p = b ∧ (q = [] ∨ q = [[]] ∧ b ≠ [])
  | [] => ⟨[], [], rfl, by simp, rfl, .inl rfl⟩
  | [a] => by
    refine ⟨[[sextet₁ a, sextet₂ a 0]], [[]], ?_, by simp, ?_, .inr ⟨rfl, by simp⟩⟩
    · simp only [encodeBase64, base64Groups_char (sextet₁_lt a), base64Groups_char (sextet₂_lt a 0), base64Groups_pad]
      rfl
    · exact congrArg (· :: []) (sextets_first a 0)
  | [a, b] => by
    refine ⟨[[sextet₁ a, sextet₂ a b, sextet₃ b 0]], [], ?_, by simp, ?_, .inl rfl⟩
    · simp only [encodeBase64, base64Groups_char (sextet₁_lt a), base64Groups_char (sextet₂_lt a b),
        base64Groups_char (sextet₃_lt b 0), base64Groups_pad]
      rfl
    · exact congrArg₂ (fun x y => [x, y]) (sextets_first a b) (sextets_second a b 0)
  | a :: b :: c :: rest => by
    obtain ⟨p, q, hgroups, hempty, hbytes, hend⟩ := base64Groups_encodeBase64 rest
    refine ⟨[sextet₁ a, sextet₂ a b, sextet₃ b c, sextet₄ c] :: p, q, ?_, by simp [hempty], ?_, ?_⟩
    · simp only [encodeBase64, base64Groups_char (sextet₁_lt a), base64Groups_char (sextet₂_lt a b),
        base64Groups_char (sextet₃_lt b c), base64Groups_char (sextet₄_lt c), hgroups]
      rfl
    · have hfirst : sixBitBytes [sextet₁ a, sextet₂ a b, sextet₃ b c, sextet₄ c] = [a, b, c] := by
        simp only [sixBitBytes]
        simp [sextets_first, sextets_second, sextets_third]
      rw [← hbytes]
      exact congrArg (· ++ decodedBytes p) hfirst
    · exact hend.imp id fun h => ⟨h.1, by simp⟩

/-- What was encoded is decoded, with other characters in between. -/
theorem decodeBase64_encodeBase64 {dstLen : Int} (hint : dstLen < 2 ^ 31) {src : CString} {b : Bytes}
    (hsrc : src.1.filter (fun ch => (base64Index ch).isSome) = encodeBase64 b) (hlen : b.length ≤ dstLen) :
    decodeBase64 dstLen src = some (b, (b.length : Int)) := by
  obtain ⟨p, q, hgroups, hempty, rfl, hend⟩ := base64Groups_encodeBase64 b
  rw [decodeBase64, decodeBase64Loop_groups, ← base64Groups_filter, hsrc, hgroups,
    decodeGroups_append hempty hlen hint (by omega)]
  rcases hend with rfl | ⟨rfl, hne⟩
  · simp [decodeGroups]
  · -- The second `=` gives back what the bytes took, at most.
    have hpos : 0 < (decodedBytes p).length := List.length_pos_of_ne_nil hne
    have hroom : roomLeft (dstLen - (decodedBytes p).length) [[]] = dstLen - (decodedBytes p).length + 1 := by
      simp [roomLeft, decodedBytes, sixBitBytes]
    rw [decodeGroups, hroom]
    split
    · simp
    · rw [if_neg (by simp [sixBitBytes]; omega)]
      simp [decodeGroups, sixBitBytes]

/-- **Decoding** stays inside the buffer exactly if the text fits it, or fills
it exactly with whole groups; it inverts the encoding where there is room. -/
theorem decode_base64_iff {dstLen : Int} (hint : dstLen < 2 ^ 31) :
    (∀ src : CString, DecodesInBounds dstLen src ↔ FitsBuffer dstLen (base64Groups [] src.1)) ∧
      (∀ src out ret, decodeBase64 dstLen src = some (out, ret) → ret = out.length) ∧
      ∀ (src : CString) (b : Bytes), src.1.filter (fun ch => (base64Index ch).isSome) = encodeBase64 b →
        b.length ≤ dstLen → decodeBase64 dstLen src = some (b, (b.length : Int)) :=
  ⟨decodesInBounds_iff hint, fun _ _ _ => decodeBase64_returns, fun _ _ => decodeBase64_encodeBase64 hint⟩

/-- Two bytes with a line break in their text. -/
theorem decode_base64_two : decodeBase64 2 (cstr "TW\nE=") = some ([77, 97], 2) :=
  (@decode_base64_iff 2 (by decide)).2.2 (cstr "TW\nE=") [77, 97] (by decide +kernel) (by decide)

/-- Three bytes go into a buffer of one. -/
theorem decode_base64_overruns : decodeBase64 1 (cstr "TWFu") = some ([77, 97, 110], 3) ∧
    ¬ DecodesInBounds 1 (cstr "TWFu") := by
  have hrun : decodeBase64 1 (cstr "TWFu") = some ([77, 97, 110], 3) := by
    rw [decodeBase64, decodeBase64Loop_groups]
    decide +kernel
  refine ⟨hrun, ?_⟩
  rintro ⟨out, hout, hbound⟩
  rw [hrun] at hout
  cases hout
  exact absurd hbound (by decide)

end DtUtils
