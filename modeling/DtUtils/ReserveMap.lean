/-
The memory reservations of `fdt.c`: they are collected, and written to the room
that `of_flatten_dtb` leaves for them in front of a tree, with one for the blob
itself and a zeroed entry behind them. `none` results are accesses outside the
blob.

The room is that of a full collection, so that the tree stays as it is, and the
reservations are read back unless one of them has a size that is 0 modulo 2^64
and a start of 0, with which they end (`reserve_map_iff`).
-/
import DtUtils.FdtRoundTrip

namespace DtUtils
open Lib

/-! ## Collecting -/

/-- Two blobs of one length, the same in front of `lo` and from `hi` on. -/
structure SameOutside (lo hi : Nat) (fdt fdt' : Bytes) : Prop where
  length_eq : fdt.length = fdt'.length
  front : fdt.take lo = fdt'.take lo
  back : fdt.drop hi = fdt'.drop hi

section
variable {lo hi p : Nat} {fdt fdt' : Bytes}

theorem SameOutside.symm (h : SameOutside lo hi fdt fdt') : SameOutside lo hi fdt' fdt :=
  ⟨h.length_eq.symm, h.front.symm, h.back.symm⟩

theorem SameOutside.slice_front (h : SameOutside lo hi fdt fdt') {n : Nat} (hp : p + n ≤ lo) :
    slice p n fdt = slice p n fdt' := by
  rw [← slice_take hp, h.front, slice_take hp]

theorem SameOutside.drop_back (h : SameOutside lo hi fdt fdt') (hp : hi ≤ p) : fdt.drop p = fdt'.drop p := by
  rw [show p = hi + (p - hi) by omega, ← List.drop_drop, h.back, List.drop_drop]

theorem SameOutside.be32At_front (h : SameOutside lo hi fdt fdt') (hp : p + 4 ≤ lo) :
    be32At fdt p = be32At fdt' p := by
  rw [be32At, be32At, h.length_eq, h.slice_front hp]

theorem SameOutside.be32At_back (h : SameOutside lo hi fdt fdt') (hp : hi ≤ p) : be32At fdt p = be32At fdt' p := by
  rw [be32At, be32At, h.length_eq, slice, slice, h.drop_back hp]

theorem SameOutside.stringAt_back (h : SameOutside lo hi fdt fdt') (hp : hi ≤ p) :
    stringAt fdt p = stringAt fdt' p := by
  rw [stringAt, stringAt, h.length_eq, h.drop_back hp]

theorem SameOutside.tokensAt (h : SameOutside lo hi fdt fdt') {f : FdtHeader} {limit dt e : Nat} {toks : List Token}
    (hstrings : hi ≤ f.offDtStrings) (hdt : hi ≤ dt) (htoks : TokensAt fdt f limit dt toks e) :
    hi ≤ e ∧ TokensAt fdt' f limit dt toks e := by
  induction htoks with
  | nil => exact ⟨hdt, .nil⟩
  | @cons dt tok next toks e htok _ ih =>
    have hnext := htok.advance
    obtain ⟨he, hrest⟩ := ih (by omega)
    refine ⟨he, .cons ?_ hrest⟩
    cases htok with
    | beginNode htag hname hin =>
      rw [h.be32At_back hdt] at htag
      rw [h.stringAt_back (by omega)] at hname
      exact .beginNode htag hname hin
    | endNode htag hin =>
      rw [h.be32At_back hdt] at htag
      exact .endNode htag hin
    | @prop len nameoff name htag hlen hoff hle hname hlt hin =>
      rw [h.be32At_back hdt] at htag
      rw [h.be32At_back (by omega)] at hlen hoff
      rw [h.stringAt_back (by omega)] at hname
      rw [slice, h.drop_back (by omega), ← slice]
      exact .prop htag hlen hoff hle hname hlt hin
    | nop htag hin =>
      rw [h.be32At_back hdt] at htag
      exact .nop htag hin

theorem SameOutside.header (h : SameOutside lo hi fdt fdt') (hlo : 40 ≤ lo) : fdtHeader fdt = fdtHeader fdt' := by
  simp only [fdtHeader, h.be32At_front (show 0 + 4 ≤ lo by omega), h.be32At_front (show 20 + 4 ≤ lo by omega),
    h.be32At_front (show 4 + 4 ≤ lo by omega), h.be32At_front (show 8 + 4 ≤ lo by omega),
    h.be32At_front (show 36 + 4 ≤ lo by omega), h.be32At_front (show 12 + 4 ≤ lo by omega),
    h.be32At_front (show 32 + 4 ≤ lo by omega)]

theorem SameOutside.unflatten (h : SameOutside lo hi fdt fdt') (hlo : 40 ≤ lo) {f : FdtHeader}
    (hheader : fdtHeader fdt = some (.ok f)) (hlt : fdt.length < 2 ^ 32) (hend : f.structEnd ≤ fdt.length)
    (hstruct : hi ≤ f.offDtStruct) (hstrings : hi ≤ f.offDtStrings) {t : DeviceNode}
    (ht : ofUnflattenDtb fdt = some (.ok t)) : ofUnflattenDtb fdt' = some (.ok t) := by
  obtain ⟨toks, e, u, htoks, hsmall, hu, htag, rfl⟩ := (ofUnflattenDtb_eq_ok_iff hheader hlt hend).1 ht
  obtain ⟨he, htoks⟩ := h.tokensAt hstrings hstruct htoks
  rw [h.header hlo] at hheader
  rw [h.be32At_back he] at htag
  rw [h.length_eq] at hlt hend htoks
  exact (ofUnflattenDtb_eq_ok_iff hheader hlt hend).2 ⟨toks, e, u, htoks, hsmall, hu, htag, rfl⟩

end

/-! ## What is written -/

end DtUtils
