/-
The tokens of a blob's structure block, and `of_unflatten_dtb` on a blob as
the fold of its loop over the tokens in front of the first `FDT_END`.
-/
import DtUtils.FdtGrammar

namespace DtUtils
open Lib

/-- The next multiple of 4. -/
def pad4 (x : Nat) : Nat := (x + 3) / 4 * 4

theorem le_pad4 (x : Nat) : x ≤ pad4 x := by
  unfold pad4
  omega

theorem pad4_lt (x : Nat) : pad4 x < x + 4 := by
  unfold pad4
  omega

/-- The end of the structure block. -/
def FdtHeader.structEnd (f : FdtHeader) : Nat := (f.offDtStruct + f.sizeDtStruct) % 2 ^ 32

/-- The token at `dt` and where the next one is. It ends inside the structure
block, with its padding. A property's name ends in front of `limit`. -/
inductive TokenAt (fdt : Bytes) (f : FdtHeader) (limit dt : Nat) : Token → Nat → Prop
  | beginNode {name} (htag : be32At fdt dt = some fdtBeginNode) (hname : stringAt fdt (dt + 4) = some name)
      (hend : pad4 (dt + (4 + name.1.length + 1)) ≤ f.structEnd) :
      TokenAt fdt f limit dt (.beginNode name) (pad4 (dt + (4 + name.1.length + 1)))
  | endNode (htag : be32At fdt dt = some fdtEndNode) (hend : pad4 (dt + 4) ≤ f.structEnd) :
      TokenAt fdt f limit dt .endNode (pad4 (dt + 4))
  | prop {len nameoff name} (htag : be32At fdt dt = some fdtProp) (hlen : be32At fdt (dt + 4) = some len)
      (hoff : be32At fdt (dt + 8) = some nameoff) (hle : nameoff ≤ f.sizeDtStrings)
      (hname : stringAt fdt (f.offDtStrings + nameoff) = some name)
      (hlimit : f.offDtStrings + nameoff + name.1.length < limit) (hend : pad4 (dt + (12 + len)) ≤ f.structEnd) :
      TokenAt fdt f limit dt (.prop ⟨name, slice (dt + 12) len fdt⟩) (pad4 (dt + (12 + len)))
  | nop (htag : be32At fdt dt = some fdtNop) (hend : pad4 (dt + 4) ≤ f.structEnd) :
      TokenAt fdt f limit dt .nop (pad4 (dt + 4))

/-- The tokens from `dt` on, up to `e`. -/
inductive TokensAt (fdt : Bytes) (f : FdtHeader) (limit : Nat) : Nat → List Token → Nat → Prop
  | nil {e} : TokensAt fdt f limit e [] e
  | cons {dt tok next toks e} : TokenAt fdt f limit dt tok next → TokensAt fdt f limit next toks e →
      TokensAt fdt f limit dt (tok :: toks) e

/-- A property's length is not negative as an `int`. -/
def Token.Small : Token → Prop
  | .prop p => p.value.length < 2 ^ 31
  | _ => True

instance (tok : Token) : Decidable tok.Small := by
  cases tok <;> unfold Token.Small <;> infer_instance

/-! ## Reading -/

theorem be32At_lt {fdt : Bytes} {off n : Nat} (h : be32At fdt off = some n) : n < 2 ^ 32 := by
  unfold be32At at h
  split at h
  · next hle =>
    obtain rfl := Option.some.inj h
    have hl := beNat_lt (slice off 4 fdt)
    rwa [slice_length hle] at hl
  · cases h

theorem be32At_le {fdt : Bytes} {off n : Nat} (h : be32At fdt off = some n) : off + 4 ≤ fdt.length := by
  unfold be32At at h
  split at h
  · assumption
  · cases h

theorem stringAt_eq {fdt : Bytes} {pos : Nat} {s : CString} (h : stringAt fdt pos = some s) :
    s = CString.of (fdt.drop pos) ∧ pos + s.1.length < fdt.length := by
  unfold stringAt at h
  simp only at h
  split at h
  · obtain rfl := Option.some.inj h
    exact ⟨rfl, by assumption⟩
  · cases h

theorem strnlenAt_of_string {fdt : Bytes} {pos m : Nat} {s : CString} (h : stringAt fdt pos = some s) :
    strnlenAt fdt pos m = some (min m s.1.length) := by
  obtain ⟨rfl, hlt⟩ := stringAt_eq h
  simp only [CString.of] at hlt
  simp only [strnlenAt, CString.of, ← List.take_takeWhile, List.length_take]
  rw [if_neg (by omega)]

/-- Without a NUL `strnlen` stops at its bound, inside the bytes. -/
theorem strnlenAt_of_none {fdt : Bytes} {pos m : Nat} (h : stringAt fdt pos = none) :
    strnlenAt fdt pos m = if fdt.length - pos < m then none else some m := by
  have hge : fdt.length - pos ≤ ((fdt.drop pos).takeWhile (· ≠ 0)).length := by
    by_contra hlt
    have hs : stringAt fdt pos = some (CString.of (fdt.drop pos)) :=
      if_pos (show pos + ((fdt.drop pos).takeWhile (· ≠ 0)).length < fdt.length by omega)
    rw [hs] at h
    cases h
  have hle := (List.takeWhile_prefix (l := fdt.drop pos) (· ≠ 0)).length_le
  rw [List.length_drop] at hle
  simp only [strnlenAt, ← List.take_takeWhile, List.length_take]
  split
  · rw [if_pos (by omega)]
  · rw [if_neg (by omega), Nat.min_eq_left (by omega)]

/-! ## One round -/

theorem unflattenAdvance_eq {f : FdtHeader} {dt size : Nat} {u : Unflattening} (h : dt + size ≤ 2 ^ 32)
    (h₀ : 0 < size) : unflattenAdvance f dt size u =
      if pad4 (dt + size) ≤ f.structEnd then .next (pad4 (dt + size)) u else .ret (.error (-ESPIPE)) := by
  have hlt : f.structEnd < 2 ^ 32 := Nat.mod_lt _ (by decide)
  have hadv : dtStructAdvance f dt size = if pad4 (dt + size) ≤ f.structEnd then pad4 (dt + size) else 0 := by
    show (if f.structEnd < align4 ((dt + size) % 2 ^ 32) then 0 else align4 ((dt + size) % 2 ^ 32)) = _
    by_cases hw : dt + size + 3 < 2 ^ 32
    · have ha : align4 ((dt + size) % 2 ^ 32) = pad4 (dt + size) := by
        rw [align4, Nat.mod_eq_of_lt (show dt + size < 2 ^ 32 by omega), Nat.mod_eq_of_lt hw, pad4]
      rw [ha]
      by_cases hle : pad4 (dt + size) ≤ f.structEnd
      · rw [if_neg (by omega), if_pos hle]
      · rw [if_pos (by omega), if_neg hle]
    · -- The alignment wraps around.
      have ha : align4 ((dt + size) % 2 ^ 32) = 0 := by
        unfold align4
        omega
      have hge : 2 ^ 32 ≤ pad4 (dt + size) := by
        unfold pad4
        omega
      rw [ha, if_neg (by omega), if_neg (by omega)]
  have hpos := le_pad4 (dt + size)
  simp only [unflattenAdvance, hadv]
  split
  · rw [if_neg (by omega)]
  · rw [if_pos rfl]

/-- The name of a node that gets none is not looked at. -/
theorem Unflattening.beginNode_of_not_isOpen {u : Unflattening} (h : u.isOpen = false) (name name' : CString) :
    u.beginNode name = u.beginNode name' := by simp [Unflattening.beginNode, h]

theorem FdtHeader.maxlen_eq (f : FdtHeader) (dt : Nat) (h : dt + 4 < 2 ^ 32) :
    f.maxlen dt = if dt + 4 ≤ f.structEnd then f.structEnd - (dt + 4) else f.structEnd + 2 ^ 32 - (dt + 4) := by
  split <;> unfold FdtHeader.maxlen <;> unfold FdtHeader.structEnd at * <;> omega

theorem unflattenBeginNode_of_string {fdt : Bytes} {f : FdtHeader} {dt : Nat} {u : Unflattening} {name : CString}
    (hlt : fdt.length < 2 ^ 32) (h : stringAt fdt (dt + 4) = some name) :
    unflattenBeginNode fdt f dt u =
      some (if pad4 (dt + (4 + name.1.length + 1)) ≤ f.structEnd then
        .next (pad4 (dt + (4 + name.1.length + 1))) (u.beginNode name) else .ret (.error (-ESPIPE))) := by
  have hin := (stringAt_eq h).2
  have hpad := le_pad4 (dt + (4 + name.1.length + 1))
  have hE : f.structEnd < 2 ^ 32 := Nat.mod_lt _ (by decide)
  have hmax := f.maxlen_eq dt (by omega)
  have hbody : unflattenBeginNode fdt f dt u =
      if f.maxlen dt < min ((f.maxlen dt + 1) % 2 ^ 32) name.1.length % 2 ^ 32 then some (.ret (.error (-ESPIPE)))
      else some (unflattenAdvance f dt (4 + min ((f.maxlen dt + 1) % 2 ^ 32) name.1.length + 1)
          (u.beginNode name)) := by
    unfold unflattenBeginNode
    simp only [strnlenAt_of_string h, Option.bind_eq_bind, Option.bind_some, Option.pure_def]
    cases ho : u.isOpen
    · rw [u.beginNode_of_not_isOpen ho name .empty]
      rfl
    · rw [if_pos rfl, h]
      rfl
  rw [hbody]
  by_cases hzero : (f.maxlen dt + 1) % 2 ^ 32 = 0
  · -- `maxlen + 1` has wrapped around: the name is taken for empty.
    rw [hzero, Nat.zero_min, if_neg (by omega), unflattenAdvance_eq (by omega) (by omega), if_neg, if_neg]
    all_goals
      have hpad' := le_pad4 (dt + (4 + 0 + 1))
      split at hmax <;> omega
  by_cases hle : name.1.length ≤ f.maxlen dt
  · have hmin : min ((f.maxlen dt + 1) % 2 ^ 32) name.1.length = name.1.length := by
      split at hmax <;> omega
    rw [hmin, if_neg (by omega), unflattenAdvance_eq (by omega) (by omega)]
  · have hmin : min ((f.maxlen dt + 1) % 2 ^ 32) name.1.length = f.maxlen dt + 1 := by
      split at hmax <;> omega
    rw [hmin, if_pos, if_neg]
    all_goals split at hmax <;> omega

/-- Without a NUL behind it a `FDT_BEGIN_NODE` is an error, or its name is
read to beyond the blob. -/
theorem unflattenBeginNode_of_none {fdt : Bytes} {f : FdtHeader} {dt : Nat} {u : Unflattening}
    (hlt : fdt.length < 2 ^ 32) (hdt : dt + 4 ≤ fdt.length) (h : stringAt fdt (dt + 4) = none) :
    unflattenBeginNode fdt f dt u =
      if fdt.length - (dt + 4) < (f.maxlen dt + 1) % 2 ^ 32 ∨ ((f.maxlen dt + 1) % 2 ^ 32 = 0 ∧ u.isOpen) then none
      else some (.ret (.error (-ESPIPE))) := by
  have hE : f.structEnd < 2 ^ 32 := Nat.mod_lt _ (by decide)
  have hmax := f.maxlen_eq dt (by omega)
  unfold unflattenBeginNode
  rw [strnlenAt_of_none h]
  by_cases hshort : fdt.length - (dt + 4) < (f.maxlen dt + 1) % 2 ^ 32
  · rw [if_pos hshort, if_pos (.inl hshort)]
    rfl
  rw [if_neg hshort]
  simp only [Option.bind_eq_bind, Option.bind_some, Option.pure_def]
  by_cases hzero : (f.maxlen dt + 1) % 2 ^ 32 = 0
  · cases ho : u.isOpen
    · have hout : unflattenAdvance f dt (4 + 0 + 1) (u.beginNode .empty) = .ret (.error (-ESPIPE)) := by
        have hpad := le_pad4 (dt + (4 + 0 + 1))
        rw [unflattenAdvance_eq (by omega) (by omega), if_neg]
        split at hmax <;> omega
      rw [hzero, if_neg (by omega), if_neg (by simp), if_neg (by simp), hout]
    · rw [hzero, if_neg (by omega), if_pos rfl, h, if_pos (.inr ⟨rfl, rfl⟩)]
      rfl
  · rw [if_pos (by split at hmax <;> omega), if_neg (fun hn => hn.elim hshort fun hn => hzero hn.1)]

theorem unflattenProp_eq {fdt : Bytes} {f : FdtHeader} {dt len nameoff : Nat} {u : Unflattening}
    (hlt : fdt.length < 2 ^ 32) (hlen : be32At fdt (dt + 4) = some len) (hoff : be32At fdt (dt + 8) = some nameoff) :
    unflattenProp fdt f dt u =
      if f.sizeDtStrings < nameoff then some (.ret (.error (-ESPIPE)))
      else match stringAt fdt (f.offDtStrings + nameoff) with
        | none => none
        | some name =>
          if len < 2 ^ 31 ∧ dt + 12 + len ≤ fdt.length ∧ u.isOpen then
            some (if pad4 (dt + (12 + len)) ≤ f.structEnd then
              .next (pad4 (dt + (12 + len))) (u.addProperty ⟨name, slice (dt + 12) len fdt⟩)
            else .ret (.error (-ESPIPE)))
          else none := by
  unfold unflattenProp
  simp only [hlen, hoff, Option.bind_eq_bind, Option.bind_some, Option.pure_def]
  split
  · rfl
  cases stringAt fdt (f.offDtStrings + nameoff) with
  | none => rfl
  | some name =>
    simp only [Option.bind_some]
    unfold bytesAt
    by_cases hval : len < 2 ^ 31 ∧ dt + 12 + len ≤ fdt.length
    · rw [if_pos hval, Option.bind_some]
      cases ho : u.isOpen
      · simp
      · rw [if_pos rfl, if_pos ⟨hval.1, hval.2, rfl⟩, unflattenAdvance_eq (by omega) (by omega)]
    · rw [if_neg hval, if_neg (fun hn => hval ⟨hn.1, hn.2.1⟩)]
      rfl

theorem unflattenStep_beginNode {fdt : Bytes} {f : FdtHeader} {dt : Nat} {u : Unflattening}
    (h : be32At fdt dt = some fdtBeginNode) : unflattenStep fdt f dt u = unflattenBeginNode fdt f dt u := by
  simp [unflattenStep, h]

theorem unflattenStep_endNode {fdt : Bytes} {f : FdtHeader} {dt : Nat} {u : Unflattening} (hlt : fdt.length < 2 ^ 32)
    (h : be32At fdt dt = some fdtEndNode) :
    unflattenStep fdt f dt u = some (if u.isOpen then
      if pad4 (dt + 4) ≤ f.structEnd then .next (pad4 (dt + 4)) u.endNode else .ret (.error (-ESPIPE))
      else .ret (.error (-EINVAL))) := by
  have hdt := be32At_le h
  rw [← unflattenAdvance_eq (by omega) (by omega)]
  simp [unflattenStep, h, fdtBeginNode, fdtEndNode]

theorem unflattenStep_prop {fdt : Bytes} {f : FdtHeader} {dt : Nat} {u : Unflattening}
    (h : be32At fdt dt = some fdtProp) : unflattenStep fdt f dt u = unflattenProp fdt f dt u := by
  simp [unflattenStep, h, fdtBeginNode, fdtEndNode, fdtProp]

theorem unflattenStep_nop {fdt : Bytes} {f : FdtHeader} {dt : Nat} {u : Unflattening} (hlt : fdt.length < 2 ^ 32)
    (h : be32At fdt dt = some fdtNop) :
    unflattenStep fdt f dt u =
      some (if pad4 (dt + 4) ≤ f.structEnd then .next (pad4 (dt + 4)) u else .ret (.error (-ESPIPE))) := by
  have hdt := be32At_le h
  rw [← unflattenAdvance_eq (by omega) (by omega)]
  simp [unflattenStep, h, fdtBeginNode, fdtEndNode, fdtProp, fdtNop]

theorem unflattenStep_end {fdt : Bytes} {f : FdtHeader} {dt : Nat} {u : Unflattening}
    (h : be32At fdt dt = some fdtEnd) : unflattenStep fdt f dt u = some (.ret (.ok u.root)) := by
  simp [unflattenStep, h, fdtBeginNode, fdtEndNode, fdtProp, fdtNop, fdtEnd]

theorem unflattenStep_unknown {fdt : Bytes} {f : FdtHeader} {dt tag : Nat} {u : Unflattening}
    (h : be32At fdt dt = some tag) (htag : tag ∉ [fdtBeginNode, fdtEndNode, fdtProp, fdtNop, fdtEnd]) :
    unflattenStep fdt f dt u = some (.ret (.error (-EINVAL))) := by
  simp only [List.mem_cons, List.not_mem_nil, or_false, not_or] at htag
  simp [unflattenStep, h, htag]

/-- The loop, at `dt`, reads outside the blob or uses a node that is missing.
Any part of the tag's data is read before the cursor is checked. -/
inductive FaultAt (fdt : Bytes) (f : FdtHeader) (dt : Nat) (isOpen : Bool) : Prop
  | tag (h : fdt.length < dt + 4)
  | nodeName (htag : be32At fdt dt = some fdtBeginNode) (hname : stringAt fdt (dt + 4) = none)
      (h : fdt.length - (dt + 4) < (f.maxlen dt + 1) % 2 ^ 32 ∨ ((f.maxlen dt + 1) % 2 ^ 32 = 0 ∧ isOpen = true))
  | property (htag : be32At fdt dt = some fdtProp) (h : fdt.length < dt + 12)
  | propertyName {nameoff} (htag : be32At fdt dt = some fdtProp) (hoff : be32At fdt (dt + 8) = some nameoff)
      (hle : nameoff ≤ f.sizeDtStrings) (h : stringAt fdt (f.offDtStrings + nameoff) = none)
  | propertyData {len nameoff} (htag : be32At fdt dt = some fdtProp) (hlen : be32At fdt (dt + 4) = some len)
      (hoff : be32At fdt (dt + 8) = some nameoff) (hle : nameoff ≤ f.sizeDtStrings)
      (h : 2 ^ 31 ≤ len ∨ fdt.length < dt + 12 + len)
  | noNode {nameoff} (htag : be32At fdt dt = some fdtProp) (hoff : be32At fdt (dt + 8) = some nameoff)
      (hle : nameoff ≤ f.sizeDtStrings) (h : isOpen = false)

theorem be32At_eq_none {fdt : Bytes} {off : Nat} (h : be32At fdt off = none) : fdt.length < off + 4 := by
  unfold be32At at h
  split at h
  · cases h
  · omega

theorem be32At_of_lt {fdt : Bytes} {off : Nat} (h : fdt.length < off + 4) : be32At fdt off = none := if_neg (by omega)

/-- The length in front of a property's name offset can be read as well. -/
theorem exists_len {fdt : Bytes} {dt nameoff : Nat} (h : be32At fdt (dt + 8) = some nameoff) :
    ∃ len, be32At fdt (dt + 4) = some len := by
  have hle := be32At_le h
  exact ⟨_, if_pos (by omega)⟩

/-- What a round of the loop can come to: an error, the root, the next token,
or a fault. -/
theorem unflattenStep_cases {fdt : Bytes} (hlt : fdt.length < 2 ^ 32) (f : FdtHeader) (dt : Nat) (u : Unflattening) :
    (∃ e, unflattenStep fdt f dt u = some (.ret (.error e))) ∨
    (be32At fdt dt = some fdtEnd ∧ unflattenStep fdt f dt u = some (.ret (.ok u.root))) ∨
    (∃ tok dt' u', unflattenStep fdt f dt u = some (.next dt' u') ∧ TokenAt fdt f fdt.length dt tok dt' ∧ tok.Small ∧
      u.token tok = some u') ∨
    (FaultAt fdt f dt u.isOpen ∧ unflattenStep fdt f dt u = none) := by
  cases htag : be32At fdt dt with
  | none => exact .inr (.inr (.inr ⟨.tag (be32At_eq_none htag), by simp [unflattenStep, htag]⟩))
  | some tag =>
  by_cases hknown : tag ∉ [fdtBeginNode, fdtEndNode, fdtProp, fdtNop, fdtEnd]
  · exact .inl ⟨_, unflattenStep_unknown htag hknown⟩
  simp only [not_not, List.mem_cons, List.not_mem_nil, or_false] at hknown
  obtain rfl | rfl | rfl | rfl | rfl := hknown
  · rw [unflattenStep_beginNode htag]
    cases hname : stringAt fdt (dt + 4) with
    | none =>
      rw [unflattenBeginNode_of_none hlt (be32At_le htag) hname]
      split
      · next h => exact .inr (.inr (.inr ⟨.nodeName htag hname h, rfl⟩))
      · exact .inl ⟨_, rfl⟩
    | some name =>
      rw [unflattenBeginNode_of_string hlt hname]
      split
      · next h => exact .inr (.inr (.inl ⟨_, _, _, rfl, .beginNode htag hname h, trivial, rfl⟩))
      · exact .inl ⟨_, rfl⟩
  · rw [unflattenStep_endNode hlt htag]
    split
    · next ho =>
      split
      · next h => exact .inr (.inr (.inl ⟨_, _, _, rfl, .endNode htag h, trivial, if_pos ho⟩))
      · exact .inl ⟨_, rfl⟩
    · exact .inl ⟨_, rfl⟩
  · rw [unflattenStep_prop htag]
    cases hoff : be32At fdt (dt + 8) with
    | none =>
      have hshort := be32At_eq_none hoff
      refine .inr (.inr (.inr ⟨.property htag (by omega), ?_⟩))
      cases hlen : be32At fdt (dt + 4) <;> simp [unflattenProp, hlen, hoff]
    | some nameoff =>
    cases hlen : be32At fdt (dt + 4) with
    | none =>
      have hshort := be32At_eq_none hlen
      have := be32At_le hoff
      omega
    | some len =>
    rw [unflattenProp_eq hlt hlen hoff]
    split
    · exact .inl ⟨_, rfl⟩
    next hle =>
    cases hname : stringAt fdt (f.offDtStrings + nameoff) with
    | none => exact .inr (.inr (.inr ⟨.propertyName htag hoff (by omega) hname, rfl⟩))
    | some name =>
    simp only
    split
    · next hval =>
      split
      · next hpad =>
        refine .inr (.inr (.inl ⟨_, _, _, rfl, .prop htag hlen hoff (by omega) hname (stringAt_eq hname).2 hpad, ?_,
          if_pos hval.2.2⟩))
        show (slice (dt + 12) len fdt).length < 2 ^ 31
        rw [slice_length hval.2.1]
        exact hval.1
      · exact .inl ⟨_, rfl⟩
    · next hval =>
      refine .inr (.inr (.inr ⟨?_, rfl⟩))
      by_cases hdata : len < 2 ^ 31 ∧ dt + 12 + len ≤ fdt.length
      · refine .noNode htag hoff (by omega) ?_
        cases ho : u.isOpen
        · rfl
        · exact absurd ⟨hdata.1, hdata.2, ho⟩ hval
      · exact .propertyData htag hlen hoff (by omega) (by omega)
  · rw [unflattenStep_nop hlt htag]
    split
    · next h => exact .inr (.inr (.inl ⟨_, _, _, rfl, .nop htag h, trivial, rfl⟩))
    · exact .inl ⟨_, rfl⟩
  · exact .inr (.inl ⟨rfl, unflattenStep_end htag⟩)

/-- The loop goes on at every token that the tree can take. -/
theorem unflattenStep_token {fdt : Bytes} {f : FdtHeader} {dt dt' : Nat} {u u' : Unflattening} {tok : Token}
    (hlt : fdt.length < 2 ^ 32) (hend : f.structEnd ≤ fdt.length) (htok : TokenAt fdt f fdt.length dt tok dt')
    (hsmall : tok.Small) (hu : u.token tok = some u') : unflattenStep fdt f dt u = some (.next dt' u') := by
  cases htok with
  | beginNode htag hname hpad =>
    obtain rfl := Option.some.inj hu
    rw [unflattenStep_beginNode htag, unflattenBeginNode_of_string hlt hname, if_pos hpad]
  | endNode htag hpad =>
    simp only [Unflattening.token] at hu
    split at hu
    · next ho =>
      obtain rfl := Option.some.inj hu
      rw [unflattenStep_endNode hlt htag, if_pos ho, if_pos hpad]
    · cases hu
  | @prop len nameoff name htag hlen hoff hle hname hlimit hpad =>
    have hin : dt + 12 + len ≤ fdt.length := by
      have := le_pad4 (dt + (12 + len))
      omega
    simp only [Unflattening.token] at hu
    simp only [Token.Small, slice_length hin] at hsmall
    split at hu
    · next ho =>
      obtain rfl := Option.some.inj hu
      rw [unflattenStep_prop htag, unflattenProp_eq hlt hlen hoff, if_neg (by omega), hname]
      simp only
      rw [if_pos ⟨hsmall, hin, ho⟩, if_pos hpad]
    · cases hu
  | nop htag hpad =>
    obtain rfl := Option.some.inj hu
    rw [unflattenStep_nop hlt htag, if_pos hpad]

theorem FaultAt.step {fdt : Bytes} {f : FdtHeader} {dt : Nat} {u : Unflattening} (hlt : fdt.length < 2 ^ 32)
    (h : FaultAt fdt f dt u.isOpen) : unflattenStep fdt f dt u = none := by
  cases h with
  | tag h => simp [unflattenStep, be32At_of_lt h]
  | nodeName htag hname h =>
    rw [unflattenStep_beginNode htag, unflattenBeginNode_of_none hlt (be32At_le htag) hname, if_pos h]
  | property htag h =>
    rw [unflattenStep_prop htag]
    have hoff : be32At fdt (dt + 8) = none := be32At_of_lt (by omega)
    cases hlen : be32At fdt (dt + 4) <;> simp [unflattenProp, hlen, hoff]
  | @propertyName nameoff htag hoff hle h =>
    obtain ⟨len, hlen⟩ := exists_len hoff
    rw [unflattenStep_prop htag, unflattenProp_eq hlt hlen hoff, if_neg (by omega), h]
  | @propertyData len nameoff htag hlen hoff hle h =>
    rw [unflattenStep_prop htag, unflattenProp_eq hlt hlen hoff, if_neg (by omega)]
    cases stringAt fdt (f.offDtStrings + nameoff) with
    | none => rfl
    | some name => exact if_neg (by omega)
  | @noNode nameoff htag hoff hle h =>
    obtain ⟨len, hlen⟩ := exists_len hoff
    rw [unflattenStep_prop htag, unflattenProp_eq hlt hlen hoff, if_neg (by omega)]
    cases stringAt fdt (f.offDtStrings + nameoff) with
    | none => rfl
    | some name => exact if_neg (by simp [h])

/-! ## The loop -/

theorem TokenAt.advance {fdt : Bytes} {f : FdtHeader} {limit dt next : Nat} {tok : Token}
    (h : TokenAt fdt f limit dt tok next) : dt + 4 ≤ next ∧ next ≤ f.structEnd := by
  cases h with
  | @beginNode name _ _ hpad =>
    have := le_pad4 (dt + (4 + name.1.length + 1))
    omega
  | endNode _ hpad | nop _ hpad =>
    have := le_pad4 (dt + 4)
    omega
  | @prop len _ _ _ _ _ _ _ _ hpad =>
    have := le_pad4 (dt + (12 + len))
    omega

theorem TokensAt.length_le {fdt : Bytes} {f : FdtHeader} {limit dt e : Nat} {toks : List Token}
    (h : TokensAt fdt f limit dt toks e) : toks = [] ∨ dt + 4 * toks.length ≤ e ∧ e ≤ f.structEnd := by
  induction h with
  | nil => exact .inl rfl
  | @cons dt tok next toks e htok _ ih =>
    have hadv := htok.advance
    right
    rw [List.length_cons]
    obtain rfl | ih := ih
    · rename_i hrest
      cases hrest
      simp only [List.length_nil]
      omega
    · omega

theorem TokenAt.unique {fdt : Bytes} {f : FdtHeader} {limit limit' dt next next' : Nat} {tok tok' : Token}
    (h : TokenAt fdt f limit dt tok next) (h' : TokenAt fdt f limit' dt tok' next') : tok = tok' ∧ next = next' := by
  have htags : ∀ {a b : Nat}, be32At fdt dt = some a → be32At fdt dt = some b → a = b :=
    fun ha hb => Option.some.inj (ha.symm.trans hb)
  cases h with
  | beginNode htag hname =>
    cases h' with
    | beginNode _ hname' =>
      obtain rfl := Option.some.inj (hname.symm.trans hname')
      exact ⟨rfl, rfl⟩
    | endNode htag' | prop htag' | nop htag' => exact absurd (htags htag htag') (by decide)
  | endNode htag =>
    cases h' with
    | endNode => exact ⟨rfl, rfl⟩
    | beginNode htag' | prop htag' | nop htag' => exact absurd (htags htag htag') (by decide)
  | prop htag hlen hoff _ hname =>
    cases h' with
    | prop _ hlen' hoff' _ hname' =>
      obtain rfl := Option.some.inj (hlen.symm.trans hlen')
      obtain rfl := Option.some.inj (hoff.symm.trans hoff')
      obtain rfl := Option.some.inj (hname.symm.trans hname')
      exact ⟨rfl, rfl⟩
    | beginNode htag' | endNode htag' | nop htag' => exact absurd (htags htag htag') (by decide)
  | nop htag =>
    cases h' with
    | nop => exact ⟨rfl, rfl⟩
    | beginNode htag' | endNode htag' | prop htag' => exact absurd (htags htag htag') (by decide)

theorem TokenAt.tag_ne_end {fdt : Bytes} {f : FdtHeader} {limit dt next : Nat} {tok : Token}
    (h : TokenAt fdt f limit dt tok next) : be32At fdt dt ≠ some fdtEnd := by
  cases h with
  | beginNode htag | endNode htag | prop htag | nop htag =>
    rw [htag]
    decide

theorem TokensAt.unique {fdt : Bytes} {f : FdtHeader} {limit limit' dt e e' : Nat} {toks toks' : List Token}
    (h : TokensAt fdt f limit dt toks e) (h' : TokensAt fdt f limit' dt toks' e') (hend : be32At fdt e = some fdtEnd)
    (hend' : be32At fdt e' = some fdtEnd) : toks = toks' ∧ e = e' := by
  induction h generalizing toks' with
  | nil =>
    cases h' with
    | nil => exact ⟨rfl, rfl⟩
    | cons htok => exact absurd hend htok.tag_ne_end
  | cons htok _ ih =>
    cases h' with
    | nil => exact absurd hend' htok.tag_ne_end
    | cons htok' hrest' =>
      obtain ⟨rfl, rfl⟩ := htok.unique htok'
      obtain ⟨rfl, rfl⟩ := ih hrest' hend
      exact ⟨rfl, rfl⟩

theorem TokenAt.mono {fdt : Bytes} {f : FdtHeader} {limit limit' dt next : Nat} {tok : Token} (hle : limit ≤ limit')
    (h : TokenAt fdt f limit dt tok next) : TokenAt fdt f limit' dt tok next := by
  cases h with
  | beginNode htag hname hpad => exact .beginNode htag hname hpad
  | endNode htag hpad => exact .endNode htag hpad
  | prop htag hlen hoff hname hstr hlimit hpad =>
    exact .prop htag hlen hoff hname hstr (lt_of_lt_of_le hlimit hle) hpad
  | nop htag hpad => exact .nop htag hpad

theorem TokensAt.mono {fdt : Bytes} {f : FdtHeader} {limit limit' dt e : Nat} {toks : List Token} (hle : limit ≤ limit')
    (h : TokensAt fdt f limit dt toks e) : TokensAt fdt f limit' dt toks e := by
  induction h with
  | nil => exact .nil
  | cons htok _ ih => exact .cons (htok.mono hle) ih

/-- The loop runs through tokens as the fold does. -/
theorem TokensAt.loop {fdt : Bytes} {f : FdtHeader} {dt e : Nat} {toks : List Token} (hlt : fdt.length < 2 ^ 32)
    (hend : f.structEnd ≤ fdt.length) (h : TokensAt fdt f fdt.length dt toks e) (n : Nat) :
    ∀ {u u' : Unflattening}, (∀ tok ∈ toks, tok.Small) → toks.foldlM Unflattening.token u = some u' →
      unflattenLoop fdt f (toks.length + n) dt u = unflattenLoop fdt f n e u' := by
  induction h with
  | nil =>
    intro u u' _ hu
    obtain rfl := Option.some.inj hu
    simp
  | @cons dt tok next toks e htok _ ih =>
    intro u u' hsmall hu
    rw [List.foldlM_cons] at hu
    obtain ⟨u₁, hu₁, hu⟩ := Option.bind_eq_some_iff.1 hu
    have hstep := unflattenStep_token hlt hend htok (hsmall tok (.head _)) hu₁
    rw [List.length_cons, Nat.add_right_comm, unflattenLoop, hstep]
    exact ih (fun tok htok => hsmall tok (.tail _ htok)) hu

/-- Where the loop has come to after `n` rounds, or where it stopped before. -/
theorem unflattenLoop_cases {fdt : Bytes} {f : FdtHeader} (hlt : fdt.length < 2 ^ 32) :
    ∀ (n dt : Nat) (u : Unflattening),
    ∃ toks e u', TokensAt fdt f fdt.length dt toks e ∧ (∀ tok ∈ toks, tok.Small) ∧
      toks.foldlM Unflattening.token u = some u' ∧
      (toks.length = n ∨ unflattenLoop fdt f n dt u = unflattenStep fdt f e u' ∧
        ∀ dt' u'', unflattenStep fdt f e u' ≠ some (.next dt' u''))
  | 0, dt, u => ⟨[], dt, u, .nil, by simp, rfl, .inl rfl⟩
  | n + 1, dt, u => by
    rw [unflattenLoop]
    obtain ⟨e, hstep⟩ | ⟨_, hstep⟩ | ⟨tok, dt', u', hstep, htok, hsmall, hu⟩ | ⟨_, hstep⟩ :=
      unflattenStep_cases hlt f dt u
    · refine ⟨[], dt, u, .nil, by simp, rfl, .inr ⟨?_, ?_⟩⟩ <;> simp [hstep]
    · refine ⟨[], dt, u, .nil, by simp, rfl, .inr ⟨?_, ?_⟩⟩ <;> simp [hstep]
    · obtain ⟨toks, e, u'', htoks, hsmalls, hfold, hstop⟩ := unflattenLoop_cases hlt n dt' u'
      refine ⟨tok :: toks, e, u'', .cons htok htoks, ?_, ?_, ?_⟩
      · simpa using ⟨hsmall, hsmalls⟩
      · rw [List.foldlM_cons, hu]
        exact hfold
      · rw [hstep, List.length_cons, Nat.add_right_cancel_iff]
        exact hstop
    · refine ⟨[], dt, u, .nil, by simp, rfl, .inr ⟨?_, ?_⟩⟩ <;> simp [hstep]

end DtUtils
