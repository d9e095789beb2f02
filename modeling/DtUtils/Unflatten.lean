/-
`of_unflatten_dtb` as a whole: which blobs it accepts, with which tree, and
which it can read without leaving them.
-/
import DtUtils.FdtTokens

namespace DtUtils
open Lib

/-! ## The header -/

/-- The words of a header in front of the blob. -/
structure FdtHeaderAt (fdt : Bytes) (f : FdtHeader) : Prop where
  magic : be32At fdt 0 = some fdtMagic
  version : be32At fdt 20 = some 17
  totalsize : be32At fdt 4 = some f.totalsize
  offDtStruct : be32At fdt 8 = some f.offDtStruct
  sizeDtStruct : be32At fdt 36 = some f.sizeDtStruct
  offDtStrings : be32At fdt 12 = some f.offDtStrings
  sizeDtStrings : be32At fdt 32 = some f.sizeDtStrings

/-- The header passes the checks of `of_unflatten_dtb`. -/
theorem fdtHeader_eq_ok_iff {fdt : Bytes} {f : FdtHeader} : fdtHeader fdt = some (.ok f) ↔
    FdtHeaderAt fdt f ∧ f.structEnd ≤ f.totalsize ∧ (f.offDtStrings + f.sizeDtStrings) % 2 ^ 32 ≤ f.totalsize := by
  constructor
  · intro h
    unfold fdtHeader at h
    simp only [Option.bind_eq_bind, Option.pure_def, Option.bind_eq_some_iff] at h
    obtain ⟨magic, hmagic, h⟩ := h
    split at h
    · cases h
    next hm =>
    obtain ⟨version, hversion, h⟩ := Option.bind_eq_some_iff.1 h
    split at h
    · cases h
    next hv =>
    simp only [Option.bind_eq_some_iff] at h
    obtain ⟨totalsize, htotal, offDtStruct, hoff, sizeDtStruct, hsize, offDtStrings, hoffs, sizeDtStrings, hsizes,
        h⟩ := h
    split at h
    · cases h
    next hstruct =>
    split at h
    · cases h
    next hstrings =>
    obtain rfl : _ = f := Except.ok.inj (Option.some.inj h)
    have hm : magic = fdtMagic := by simpa using hm
    have hv : version = 17 := by simpa using hv
    subst hm hv
    exact ⟨⟨hmagic, hversion, htotal, hoff, hsize, hoffs, hsizes⟩, by simpa [FdtHeader.structEnd] using hstruct,
      by simpa using hstrings⟩
  · rintro ⟨h, hstruct, hstrings⟩
    unfold fdtHeader
    simp only [h.magic, h.version, h.totalsize, h.offDtStruct, h.sizeDtStruct, h.offDtStrings, h.sizeDtStrings,
      Option.bind_eq_bind, Option.bind_some, Option.pure_def]
    rw [if_neg (by simp), if_neg (by simp), if_neg (by simpa [FdtHeader.structEnd] using hstruct),
      if_neg (by simpa using hstrings)]

/-! ## The whole loop -/

/-- What `of_unflatten_dtb` makes of the last round. -/
def Unflattened.result : Option Unflattened → Option (Except Int DeviceNode)
  | some (.ret r) => some r
  | _ => none

theorem ofUnflattenDtb_eq {fdt : Bytes} {f : FdtHeader} (h : fdtHeader fdt = some (.ok f)) :
    ofUnflattenDtb fdt = Unflattened.result (unflattenLoop fdt f (fdt.length + 1) f.offDtStruct .start) := by
  unfold ofUnflattenDtb
  rw [h]
  rfl

/-- The loop reaches the place behind a sequence of tokens that nest. -/
theorem TokensAt.unflatten {fdt : Bytes} {f : FdtHeader} {toks : List Token} {e : Nat} {u : Unflattening}
    (hheader : fdtHeader fdt = some (.ok f)) (hlt : fdt.length < 2 ^ 32) (hend : f.structEnd ≤ fdt.length)
    (h : TokensAt fdt f fdt.length f.offDtStruct toks e) (hsmall : ∀ tok ∈ toks, tok.Small)
    (hu : toks.foldlM Unflattening.token .start = some u)
    (hstop : ∀ dt u', unflattenStep fdt f e u ≠ some (.next dt u')) :
    ofUnflattenDtb fdt = Unflattened.result (unflattenStep fdt f e u) := by
  have hlen : toks.length ≤ fdt.length := by
    obtain rfl | hlen := h.length_le
    · exact Nat.zero_le _
    · omega
  have hloop := h.loop hlt hend (fdt.length - toks.length + 1) hsmall hu
  rw [show toks.length + (fdt.length - toks.length + 1) = fdt.length + 1 by omega] at hloop
  rw [ofUnflattenDtb_eq hheader, hloop, unflattenLoop]
  cases hstep : unflattenStep fdt f e u with
  | none => rfl
  | some r =>
    cases r with
    | next dt u' => exact absurd hstep (hstop dt u')
    | ret r => rfl

/-- The loop stops behind a sequence of tokens that nest. -/
theorem ofUnflattenDtb_cases {fdt : Bytes} {f : FdtHeader} (hheader : fdtHeader fdt = some (.ok f))
    (hlt : fdt.length < 2 ^ 32) (hend : f.structEnd ≤ fdt.length) :
    ∃ toks e u, TokensAt fdt f fdt.length f.offDtStruct toks e ∧ (∀ tok ∈ toks, tok.Small) ∧
      toks.foldlM Unflattening.token .start = some u ∧ (∀ dt u', unflattenStep fdt f e u ≠ some (.next dt u')) ∧
      ofUnflattenDtb fdt = Unflattened.result (unflattenStep fdt f e u) := by
  obtain ⟨toks, e, u, htoks, hsmall, hu, hfull | ⟨_, hstop⟩⟩ :=
    unflattenLoop_cases (f := f) hlt (fdt.length + 1) f.offDtStruct .start
  · -- There is no room for as many tokens as there are bytes.
    obtain rfl | hlen := htoks.length_le
    · simp at hfull
    · omega
  · exact ⟨toks, e, u, htoks, hsmall, hu, hstop, htoks.unflatten hheader hlt hend hsmall hu hstop⟩

/-- The loop accepts what stands in front of the first `FDT_END`. -/
theorem ofUnflattenDtb_eq_ok_iff {fdt : Bytes} {f : FdtHeader} {t : DeviceNode}
    (hheader : fdtHeader fdt = some (.ok f)) (hlt : fdt.length < 2 ^ 32) (hend : f.structEnd ≤ fdt.length) :
    ofUnflattenDtb fdt = some (.ok t) ↔
      ∃ toks e u, TokensAt fdt f fdt.length f.offDtStruct toks e ∧ (∀ tok ∈ toks, tok.Small) ∧
        toks.foldlM Unflattening.token .start = some u ∧ be32At fdt e = some fdtEnd ∧ t = u.root := by
  constructor
  · intro h
    obtain ⟨toks, e, u, htoks, hsmall, hu, hstop, heq⟩ := ofUnflattenDtb_cases hheader hlt hend
    rw [h] at heq
    have hstep : unflattenStep fdt f e u = some (.ret (.ok t)) := by
      cases hstep : unflattenStep fdt f e u with
      | none =>
        rw [hstep] at heq
        cases heq
      | some r =>
        cases r with
        | next dt u' => exact absurd hstep (hstop dt u')
        | ret r =>
          rw [hstep] at heq
          exact congrArg (fun r => some (Unflattened.ret r)) (Option.some.inj heq.symm)
    obtain ⟨_, hbad⟩ | ⟨htag, hok⟩ | ⟨_, _, _, hbad, _⟩ | ⟨_, hbad⟩ :=
      unflattenStep_cases hlt f e u
    · rw [hstep] at hbad
      cases hbad
    · rw [hstep] at hok
      cases hok
      exact ⟨toks, e, u, htoks, hsmall, hu, htag, rfl⟩
    · rw [hstep] at hbad
      cases hbad
    · rw [hstep] at hbad
      cases hbad
  · rintro ⟨toks, e, u, htoks, hsmall, hu, htag, rfl⟩
    have hstep := unflattenStep_end (f := f) (u := u) htag
    rw [htoks.unflatten hheader hlt hend hsmall hu (by simp [hstep]), hstep]
    rfl

/-! ## The trees it accepts -/

/-- A blob whose two blocks lie inside its `totalsize` bytes. -/
structure FdtBlob (fdt : Bytes) (f : FdtHeader) : Prop extends FdtHeaderAt fdt f where
  struct_le : f.offDtStruct + f.sizeDtStruct ≤ f.totalsize
  strings_le : f.offDtStrings + f.sizeDtStrings ≤ f.totalsize
  totalsize_le : f.totalsize ≤ fdt.length
  length_lt : fdt.length < 2 ^ 32

/-- Up to its `FDT_END`, inside it, the structure block is one balanced node,
which denotes `t`; every name has its NUL inside its block. -/
def Denotes (fdt : Bytes) (f : FdtHeader) (t : DeviceNode) : Prop :=
  ∃ toks e, TokensAt fdt f (f.offDtStrings + f.sizeDtStrings) f.offDtStruct toks e ∧ OneNode toks t ∧
    be32At fdt e = some fdtEnd ∧ e + 4 ≤ f.offDtStruct + f.sizeDtStruct

theorem FdtBlob.structEnd_eq {fdt : Bytes} {f : FdtHeader} (h : FdtBlob fdt f) :
    f.structEnd = f.offDtStruct + f.sizeDtStruct := by
  have := h.struct_le
  have := h.totalsize_le
  have := h.length_lt
  exact Nat.mod_eq_of_lt (by omega)

theorem FdtBlob.structEnd_le {fdt : Bytes} {f : FdtHeader} (h : FdtBlob fdt f) : f.structEnd ≤ fdt.length := by
  have := h.struct_le
  have := h.totalsize_le
  rw [h.structEnd_eq]
  omega

theorem FdtBlob.header {fdt : Bytes} {f : FdtHeader} (h : FdtBlob fdt f) : fdtHeader fdt = some (.ok f) :=
  fdtHeader_eq_ok_iff.2 ⟨h.toFdtHeaderAt, h.structEnd_eq.trans_le h.struct_le,
    (Nat.mod_le _ _).trans h.strings_le⟩

/-- A well-formed blob gives its tree, unless a property is too long for an `int`. -/
theorem FdtBlob.unflatten {fdt : Bytes} {f : FdtHeader} {toks : List Token} {e : Nat} {t : DeviceNode}
    (h : FdtBlob fdt f) (htoks : TokensAt fdt f fdt.length f.offDtStruct toks e) (hnode : OneNode toks t)
    (hend : be32At fdt e = some fdtEnd) (hsmall : ∀ tok ∈ toks, tok.Small) : ofUnflattenDtb fdt = some (.ok t) :=
  (ofUnflattenDtb_eq_ok_iff h.header h.length_lt h.structEnd_le).2
    ⟨toks, e, _, htoks, hsmall, hnode.foldlM, hend, rfl⟩

/-- **The parser accepts exactly the well-formed blobs, with their trees, if
and only if the tokens in front of the first `FDT_END`, should they nest, are
one balanced node with that tag inside the structure block and all names inside
the strings block just when none of their properties has 2^31 bytes or more.** -/
theorem unflatten_accepts_iff {fdt : Bytes} {f : FdtHeader} (h : FdtBlob fdt f) :
    (∀ t, ofUnflattenDtb fdt = some (.ok t) ↔ Denotes fdt f t) ↔
      ∀ toks e s, TokensAt fdt f fdt.length f.offDtStruct toks e → be32At fdt e = some fdtEnd →
        nesting toks = some s →
        ((s = ⟨0, 1⟩ ∧ e + 4 ≤ f.offDtStruct + f.sizeDtStruct ∧
          TokensAt fdt f (f.offDtStrings + f.sizeDtStrings) f.offDtStruct toks e) ↔ ∀ tok ∈ toks, tok.Small) := by
  have hlimit : f.offDtStrings + f.sizeDtStrings ≤ fdt.length := h.strings_le.trans h.totalsize_le
  have haccepts := fun t => ofUnflattenDtb_eq_ok_iff (t := t) h.header h.length_lt h.structEnd_le
  constructor
  · intro hall toks e s htoks hend hnest
    constructor
    · rintro ⟨rfl, hin, hstrict⟩
      obtain ⟨t, ht⟩ := exists_oneNode_iff.2 hnest
      obtain ⟨toks', e', _, htoks', hsmall, _, hend', _⟩ :=
          (haccepts t).1 ((hall t).2 ⟨toks, e, hstrict, ht, hend, hin⟩)
      obtain ⟨rfl, rfl⟩ := htoks.unique htoks' hend hend'
      exact hsmall
    · intro hsmall
      obtain ⟨_, hnone⟩ | ⟨u, s', hu, _, _⟩ := Unflattening.start_at.tokens toks
      · rw [nesting, hnone] at hnest
        cases hnest
      obtain ⟨toks', e', htoks', hnode, hend', hin⟩ :=
        (hall u.root).1 ((haccepts u.root).2 ⟨toks, e, u, htoks, hsmall, hu, hend, rfl⟩)
      obtain ⟨rfl, rfl⟩ := htoks.unique htoks' hend hend'
      rw [exists_oneNode_iff.1 ⟨_, hnode⟩] at hnest
      exact ⟨(Option.some.inj hnest).symm, hin, htoks'⟩
  · intro hall t
    constructor
    · intro hok
      obtain ⟨toks, e, u, htoks, hsmall, hu, hend, rfl⟩ := (haccepts t).1 hok
      obtain ⟨hnone, _⟩ | ⟨_, s, _, hs, _⟩ := Unflattening.start_at.tokens toks
      · rw [hnone] at hu
        cases hu
      obtain ⟨rfl, hin, hstrict⟩ := (hall toks e s htoks hend hs).2 hsmall
      obtain ⟨t, ht⟩ := exists_oneNode_iff.2 hs
      have hroot : u = ⟨t, [], false⟩ := Option.some.inj (hu.symm.trans ht.foldlM)
      subst hroot
      exact ⟨toks, e, hstrict, ht, hend, hin⟩
    · rintro ⟨toks, e, hstrict, hnode, hend, hin⟩
      have htoks := hstrict.mono hlimit
      have hnest := exists_oneNode_iff.1 ⟨t, hnode⟩
      exact h.unflatten htoks hnode hend ((hall toks e _ htoks hend hnest).1 ⟨rfl, hin, hstrict⟩)

/-- A blob of these words of structure and these strings. -/
def smallBlob (dtStruct : List Nat) (strings : Bytes) : Bytes :=
  ([fdtMagic, 40 + 4 * dtStruct.length + strings.length, 40, 40 + 4 * dtStruct.length, 40, 17, 16, 0, strings.length,
    4 * dtStruct.length] ++ dtStruct).flatMap (beBytes 4) ++ strings

/-- The header of `smallBlob`. -/
def smallHeader (dtStruct : List Nat) (strings : Bytes) : FdtHeader :=
  ⟨40 + 4 * dtStruct.length + strings.length, 40, 4 * dtStruct.length, 40 + 4 * dtStruct.length, strings.length⟩

/-- A root alone. -/
theorem unflatten_accepts_iff_root :
    (∀ t, ofUnflattenDtb (smallBlob [1, 0, 2, 9] []) = some (.ok t) ↔
      Denotes (smallBlob [1, 0, 2, 9] []) (smallHeader [1, 0, 2, 9] []) t) ↔
      ∀ toks e s, TokensAt (smallBlob [1, 0, 2, 9] []) (smallHeader [1, 0, 2, 9] []) 56 40 toks e →
        be32At (smallBlob [1, 0, 2, 9] []) e = some fdtEnd → nesting toks = some s →
        ((s = ⟨0, 1⟩ ∧ e + 4 ≤ 40 + 16 ∧
          TokensAt (smallBlob [1, 0, 2, 9] []) (smallHeader [1, 0, 2, 9] []) (56 + 0) 40 toks e) ↔
          ∀ tok ∈ toks, tok.Small) :=
  @unflatten_accepts_iff (smallBlob [1, 0, 2, 9] []) (smallHeader [1, 0, 2, 9] [])
    ⟨⟨by decide, by decide, by decide, by decide, by decide, by decide, by decide⟩, by decide, by decide, by decide,
      by decide⟩

/-- Nothing but `FDT_END` is accepted, as a root that stands nowhere. -/
theorem unflatten_accepts_nothing :
    FdtBlob (smallBlob [9] []) (smallHeader [9] []) ∧
      ¬ ∀ t, ofUnflattenDtb (smallBlob [9] []) = some (.ok t) ↔ Denotes (smallBlob [9] []) (smallHeader [9] []) t := by
  have hblob : FdtBlob (smallBlob [9] []) (smallHeader [9] []) :=
    ⟨⟨by decide, by decide, by decide, by decide, by decide, by decide, by decide⟩, by decide, by decide, by decide,
      by decide⟩
  refine ⟨hblob, fun hall => ?_⟩
  have hend : be32At (smallBlob [9] []) 40 = some fdtEnd := by decide
  obtain ⟨toks, e, htoks, ⟨name, body, hm, _⟩, _⟩ := (hall Unflattening.start.root).1
    ((ofUnflattenDtb_eq_ok_iff hblob.header hblob.length_lt hblob.structEnd_le).2
      ⟨[], 40, .start, .nil, by simp, rfl, hend, rfl⟩)
  cases htoks with
  | nil => cases hm
  | cons htok => exact htok.tag_ne_end hend

/-! ## What it reads -/

theorem be32At_take {fdt : Bytes} {k off n : Nat} (h : be32At (fdt.take k) off = some n) : be32At fdt off = some n := by
  have hle := be32At_le h
  rw [List.length_take] at hle
  rw [← h]
  unfold be32At
  rw [if_pos (by omega), if_pos (by rw [List.length_take]; omega), slice_take (by omega)]

/-- The bytes in front of a NUL, seen through a prefix. -/
theorem takeWhile_drop_take (fdt : Bytes) (k pos : Nat) : ((fdt.take k).drop pos).takeWhile (· ≠ 0) =
    ((fdt.drop pos).takeWhile (· ≠ 0)).take (k - pos) := by
  rw [List.drop_take, List.take_takeWhile]

theorem stringAt_take {fdt : Bytes} {k pos : Nat} {s : CString} (h : stringAt (fdt.take k) pos = some s) :
    stringAt fdt pos = some s := by
  obtain ⟨rfl, hlt⟩ := stringAt_eq h
  have heq := takeWhile_drop_take fdt k pos
  simp only [CString.of, heq, List.length_take] at hlt
  have hs : CString.of ((fdt.take k).drop pos) = CString.of (fdt.drop pos) :=
    Subtype.ext (heq.trans (List.take_of_length_le (by omega)))
  rw [hs]
  exact if_pos (show pos + ((fdt.drop pos).takeWhile (· ≠ 0)).length < fdt.length by omega)

theorem strnlenAt_take {fdt : Bytes} {k pos m n : Nat} (h : strnlenAt (fdt.take k) pos m = some n) :
    strnlenAt fdt pos m = some n := by
  have hw := takeWhile_drop_take fdt k pos
  simp only [strnlenAt, ← List.take_takeWhile, List.length_take, hw] at h ⊢
  split at h
  · cases h
  · next hin =>
    obtain rfl := Option.some.inj h
    rw [if_neg (by omega)]
    congr 1
    omega

theorem bytesAt_take {fdt bs : Bytes} {k pos len : Nat} (h : bytesAt (fdt.take k) pos len = some bs) :
    bytesAt fdt pos len = some bs := by
  unfold bytesAt at h ⊢
  split at h
  · next hin =>
    rw [List.length_take] at hin
    rw [← h, if_pos (by omega), slice_take (by omega)]
  · cases h

/-- A round that stays inside a prefix is the same on the whole. -/
theorem unflattenStep_take {fdt : Bytes} {f : FdtHeader} {k dt : Nat} {u : Unflattening} {r : Unflattened}
    (h : unflattenStep (fdt.take k) f dt u = some r) : unflattenStep fdt f dt u = some r := by
  unfold unflattenStep at h ⊢
  simp only [Option.bind_eq_bind, Option.bind_eq_some_iff] at h ⊢
  obtain ⟨tag, htag, h⟩ := h
  refine ⟨tag, be32At_take htag, ?_⟩
  split at h
  · rw [if_pos (by assumption)]
    unfold unflattenBeginNode at h ⊢
    simp only [Option.bind_eq_bind, Option.bind_eq_some_iff] at h ⊢
    obtain ⟨len, hlen, h⟩ := h
    refine ⟨len, strnlenAt_take hlen, ?_⟩
    split at h
    · rw [if_pos (by assumption)]
      exact h
    rw [if_neg (by assumption)]
    split at h
    · rw [if_pos (by assumption)]
      obtain ⟨name, hname, h⟩ := Option.bind_eq_some_iff.1 h
      rw [stringAt_take hname]
      exact h
    · rw [if_neg (by assumption)]
      exact h
  rw [if_neg (by assumption)]
  split at h
  · rw [if_pos (by assumption)]
    exact h
  rw [if_neg (by assumption)]
  split at h
  · rw [if_pos (by assumption)]
    unfold unflattenProp at h ⊢
    simp only [Option.bind_eq_bind, Option.bind_eq_some_iff] at h ⊢
    obtain ⟨len, hlen, nameoff, hoff, h⟩ := h
    refine ⟨len, be32At_take hlen, nameoff, be32At_take hoff, ?_⟩
    split at h
    · rw [if_pos (by assumption)]
      exact h
    rw [if_neg (by assumption)]
    obtain ⟨name, hname, h⟩ := Option.bind_eq_some_iff.1 h
    obtain ⟨value, hvalue, h⟩ := Option.bind_eq_some_iff.1 h
    rw [stringAt_take hname, Option.bind_some, bytesAt_take hvalue]
    exact h
  rw [if_neg (by assumption)]
  exact h

theorem unflattenLoop_take {fdt : Bytes} {f : FdtHeader} {k : Nat} {r : Except Int DeviceNode} :
    ∀ {n dt : Nat} {u : Unflattening}, unflattenLoop (fdt.take k) f n dt u = some (.ret r) →
      ∀ m, unflattenLoop fdt f (n + m) dt u = some (.ret r)
  | 0, _, _, h, _ => by cases h
  | n + 1, dt, u, h, m => by
    rw [Nat.add_right_comm, unflattenLoop]
    rw [unflattenLoop] at h
    cases hstep : unflattenStep (fdt.take k) f dt u with
    | none =>
      rw [hstep] at h
      cases h
    | some x =>
      rw [unflattenStep_take hstep]
      rw [hstep] at h
      cases x with
      | next dt' u' => exact unflattenLoop_take h m
      | ret r' => exact h

theorem fdtHeader_take {fdt : Bytes} {k : Nat} {r : Except Int FdtHeader} (h : fdtHeader (fdt.take k) = some r) :
    fdtHeader fdt = some r := by
  unfold fdtHeader at h ⊢
  simp only [Option.bind_eq_bind, Option.bind_eq_some_iff] at h ⊢
  obtain ⟨magic, hmagic, h⟩ := h
  refine ⟨magic, be32At_take hmagic, ?_⟩
  split at h
  · rw [if_pos (by assumption)]
    exact h
  rw [if_neg (by assumption)]
  obtain ⟨version, hversion, h⟩ := Option.bind_eq_some_iff.1 h
  refine Option.bind_eq_some_iff.2 ⟨version, be32At_take hversion, ?_⟩
  split at h
  · rw [if_pos (by assumption)]
    exact h
  rw [if_neg (by assumption)]
  simp only [Option.bind_eq_some_iff] at h ⊢
  obtain ⟨a, ha, b, hb, c, hc, d, hd, e, he, h⟩ := h
  exact ⟨a, be32At_take ha, b, be32At_take hb, c, be32At_take hc, d, be32At_take hd, e, be32At_take he, h⟩

/-- What is parsed without leaving a prefix is parsed from the whole. -/
theorem ofUnflattenDtb_take {fdt : Bytes} {k : Nat} {r : Except Int DeviceNode}
    (h : ofUnflattenDtb (fdt.take k) = some r) : ofUnflattenDtb fdt = some r := by
  unfold ofUnflattenDtb at h ⊢
  cases hheader : fdtHeader (fdt.take k) with
  | none =>
    rw [hheader] at h
    cases h
  | some x =>
    rw [fdtHeader_take hheader]
    rw [hheader] at h
    cases x with
    | error e => exact h
    | ok f =>
      simp only at h ⊢
      obtain ⟨m, hm⟩ : ∃ m, fdt.length + 1 = (fdt.take k).length + 1 + m :=
        ⟨fdt.length - (fdt.take k).length, by rw [List.length_take]; omega⟩
      cases hloop : unflattenLoop (fdt.take k) f ((fdt.take k).length + 1) f.offDtStruct .start with
      | none =>
        rw [hloop] at h
        cases h
      | some y =>
        cases y with
        | next dt u =>
          rw [hloop] at h
          cases h
        | ret r' =>
          rw [hm, unflattenLoop_take hloop m]
          rw [hloop] at h
          exact h

/-- As much of the header as is read lies inside the blob. -/
def HeaderInside (fdt : Bytes) : Prop :=
  4 ≤ fdt.length ∧ (be32At fdt 0 = some fdtMagic → 24 ≤ fdt.length ∧ (be32At fdt 20 = some 17 → 40 ≤ fdt.length))

theorem fdtHeader_ne_none_iff {fdt : Bytes} : fdtHeader fdt ≠ none ↔ HeaderInside fdt := by
  have hword : ∀ off, be32At fdt off = if off + 4 ≤ fdt.length then some (beNat (slice off 4 fdt)) else none :=
      fun _ => rfl
  unfold fdtHeader HeaderInside
  simp only [Option.bind_eq_bind, Option.pure_def]
  by_cases h4 : 4 ≤ fdt.length
  case neg => simp [hword 0, h4]
  obtain ⟨magic, hmagic⟩ : ∃ w, be32At fdt 0 = some w := ⟨_, if_pos h4⟩
  rw [hmagic, Option.bind_some]
  by_cases hm : magic = fdtMagic
  case neg => simp [hm, h4]
  rw [if_neg (by simp [hm])]
  by_cases h24 : 24 ≤ fdt.length
  case neg => simp [hword 20, h24, hm]
  obtain ⟨version, hversion⟩ : ∃ w, be32At fdt 20 = some w := ⟨_, if_pos (by omega)⟩
  rw [hversion, Option.bind_some]
  by_cases hv : version = 17
  case neg => simp [hv, h4, h24]
  rw [if_neg (by simp [hv])]
  by_cases h40 : 40 ≤ fdt.length
  case neg =>
    have hsize : be32At fdt 36 = none := be32At_of_lt (by omega)
    rw [hsize]
    cases be32At fdt 4 <;> cases be32At fdt 8 <;> simp [hm, hv, h40]
  rw [hword 4, hword 8, hword 36, hword 12, hword 32, if_pos (by omega), if_pos (by omega), if_pos (by omega),
    if_pos (by omega), if_pos (by omega)]
  simp only [Option.bind_some, h4, h24, h40, implies_true, and_true, iff_true]
  split
  · simp
  · split <;> simp

/-- The parser returns, and does so without a byte at or behind `totalsize`. -/
def SafelyUnflattened (buf : Bytes) (totalsize : Nat) : Prop :=
  ∃ r, ofUnflattenDtb buf = some r ∧ ofUnflattenDtb (buf.take totalsize) = some r

/-- **The parser is safe if and only if the header it reads lies below
`totalsize`, and nesting tokens never lead it to where it reads farther or adds
a property to no node.** -/
theorem unflatten_safe_iff {buf : Bytes} {totalsize : Nat} (htotal : be32At buf 4 = some totalsize)
    (hle : totalsize ≤ buf.length) :
    SafelyUnflattened buf totalsize ↔
      HeaderInside (buf.take totalsize) ∧
        ∀ f toks e s, FdtHeaderAt (buf.take totalsize) f → f.structEnd ≤ totalsize →
          (f.offDtStrings + f.sizeDtStrings) % 2 ^ 32 ≤ totalsize →
          TokensAt (buf.take totalsize) f totalsize f.offDtStruct toks e → (∀ tok ∈ toks, tok.Small) →
          nesting toks = some s → ¬ FaultAt (buf.take totalsize) f e (decide (s.depth ≠ 0)) := by
  have hblob : (buf.take totalsize).length = totalsize := by rw [List.length_take, Nat.min_eq_left hle]
  have hlt : (buf.take totalsize).length < 2 ^ 32 := by
    rw [hblob]
    exact be32At_lt htotal
  have hsafe : SafelyUnflattened buf totalsize ↔ ofUnflattenDtb (buf.take totalsize) ≠ none := by
    constructor
    · rintro ⟨r, _, hr⟩
      rw [hr]
      exact Option.some_ne_none r
    · intro hr
      obtain ⟨r, hr⟩ := Option.ne_none_iff_exists'.1 hr
      exact ⟨r, ofUnflattenDtb_take hr, hr⟩
  have htotal' : ∀ {f}, FdtHeaderAt (buf.take totalsize) f → f.totalsize = totalsize :=
    fun h => Option.some.inj ((be32At_take h.totalsize).symm.trans htotal)
  rw [hsafe, ← fdtHeader_ne_none_iff]
  generalize buf.take totalsize = blob at *
  subst hblob
  constructor
  · intro hr
    refine ⟨fun hnone => hr (by unfold ofUnflattenDtb; rw [hnone]), ?_⟩
    intro f toks e s hf hstruct hstrings htoks hsmall hnest hfault
    have hheader : fdtHeader blob = some (.ok f) :=
      fdtHeader_eq_ok_iff.2 ⟨hf, (htotal' hf).symm ▸ hstruct, (htotal' hf).symm ▸ hstrings⟩
    obtain ⟨_, hnone⟩ | ⟨u, s', hu, hs, hat⟩ := Unflattening.start_at.tokens toks
    · rw [nesting, hnone] at hnest
      cases hnest
    obtain rfl : s' = s := Option.some.inj (hs.symm.trans hnest)
    have hstep : unflattenStep blob f e u = none := FaultAt.step hlt (hat.1 ▸ hfault)
    rw [htoks.unflatten hheader hlt hstruct hsmall hu (by simp [hstep]), hstep] at hr
    exact hr rfl
  · rintro ⟨hheader, hall⟩ hr
    cases hf : fdtHeader blob with
    | none => exact hheader hf
    | some x =>
    cases x with
    | error e =>
      unfold ofUnflattenDtb at hr
      rw [hf] at hr
      cases hr
    | ok f =>
    obtain ⟨hat, hstruct, hstrings⟩ := fdtHeader_eq_ok_iff.1 hf
    rw [htotal' hat] at hstruct hstrings
    obtain ⟨toks, e, u, htoks, hsmall, hu, hstop, heq⟩ := ofUnflattenDtb_cases hf hlt hstruct
    rw [hr] at heq
    obtain ⟨hnone, _⟩ | ⟨_, s, hu', hs, hopen⟩ := Unflattening.start_at.tokens toks
    · rw [hnone] at hu
      cases hu
    obtain rfl := Option.some.inj (hu.symm.trans hu')
    obtain ⟨_, hstep⟩ | ⟨_, hstep⟩ | ⟨_, _, _, hstep, _⟩ | ⟨hfault, _⟩ :=
      unflattenStep_cases hlt f e u
    · rw [hstep] at heq
      cases heq
    · rw [hstep] at heq
      cases heq
    · exact hstop _ _ hstep
    · rw [hopen.1] at hfault
      exact hall f toks e s hat hstruct hstrings htoks hsmall hs hfault

/-- A root alone, and a byte behind the blob. -/
theorem unflatten_safe_iff_root :
    SafelyUnflattened (smallBlob [1, 0, 2, 9] [] ++ [0]) 56 ↔
      HeaderInside ((smallBlob [1, 0, 2, 9] [] ++ [0]).take 56) ∧
        ∀ f toks e s, FdtHeaderAt ((smallBlob [1, 0, 2, 9] [] ++ [0]).take 56) f → f.structEnd ≤ 56 →
          (f.offDtStrings + f.sizeDtStrings) % 2 ^ 32 ≤ 56 →
          TokensAt ((smallBlob [1, 0, 2, 9] [] ++ [0]).take 56) f 56 f.offDtStruct toks e →
          (∀ tok ∈ toks, tok.Small) → nesting toks = some s →
          ¬ FaultAt ((smallBlob [1, 0, 2, 9] [] ++ [0]).take 56) f e (decide (s.depth ≠ 0)) :=
  unflatten_safe_iff (by decide) (by decide)

/-- A property in front of the first node has no node to go to. -/
theorem unflatten_unsafe_property :
    40 ≤ (smallBlob [3, 0, 0, 9] [0]).length ∧ be32At (smallBlob [3, 0, 0, 9] [0]) 4 = some 57 ∧
      57 ≤ (smallBlob [3, 0, 0, 9] [0]).length ∧ ¬ SafelyUnflattened (smallBlob [3, 0, 0, 9] [0]) 57 := by
  refine ⟨by decide, by decide, by decide, fun h => ?_⟩
  obtain ⟨r, hr, _⟩ := h
  have hnone : (ofUnflattenDtb (smallBlob [3, 0, 0, 9] [0])).isNone = true := by decide +kernel
  rw [hr] at hnone
  cases hnone

end DtUtils
