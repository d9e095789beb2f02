/-
`mtd_buf_all_ff` step by step: its three loops share a pointer and an
`unsigned int` that counts what is left. No step reads outside the buffer or
takes more off the counter than there is, and the last one returns whether
every byte is `0xff` (`mtd_buf_all_ff_exact`).
-/
import DtUtils.Common
import DtUtils.Lib.Run

namespace DtUtils
open Lib

/-- The loop that `mtd_buf_all_ff` is in: up to a word boundary, over whole
words, and over what is left. -/
inductive AllFfLoop
  | bytes
  | words
  | tail

/-- `buf` has advanced by `pos`. -/
structure AllFfState where
  loop : AllFfLoop
  pos : Nat
  len : UInt32

/-- What an iteration ends with. -/
inductive AllFfNext
  | goes (s : AllFfState)
  | returns (ret : Bool)
  /-- It reads outside the buffer. -/
  | faults

/-- One iteration of the loop, or the step into the next one. -/
def mtdBufAllFfStep (addr : Nat) (buf : Bytes) (s : AllFfState) : AllFfNext :=
  match s.loop with
  | .bytes =>
    if (addr + s.pos) % 4 = 0 then .goes { s with loop := .words }
    else
      match buf[s.pos]? with
      | none => .faults
      | some b =>
        if b ≠ 0xff then .returns false
        else if s.len - 1 = 0 then .returns true
        else .goes { s with pos := s.pos + 1, len := s.len - 1 }
  | .words =>
    if s.len ≤ 3 then .goes { s with loop := .tail }
    else if buf.length < s.pos + 4 then .faults
    else if leNat (slice s.pos 4 buf) ≠ 0xffffffff then .returns false
    else if s.len - 4 = 0 then .returns true
    else .goes { s with pos := s.pos + 4, len := s.len - 4 }
  | .tail =>
    if s.len = 0 then .returns true
    else
      match buf[s.pos]? with
      | none => .faults
      | some b => if b ≠ 0xff then .returns false else .goes { s with pos := s.pos + 1, len := s.len - 1 }

/-- What the iteration subtracts from the counter, if it gets there. -/
def AllFfState.takes (addr : Nat) (s : AllFfState) : Nat :=
  match s.loop with
  | .bytes => if (addr + s.pos) % 4 = 0 then 0 else 1
  | .words => if s.len ≤ 3 then 0 else 4
  | .tail => if s.len = 0 then 0 else 1

def mtdBufAllFfSystem (addr : Nat) (buf : Bytes) (len : UInt32) : System AllFfState Unit where
  init s := s = ⟨.bytes, 0, len⟩
  step s _ s' := mtdBufAllFfStep addr buf s = .goes s'

/-- What `mtd_buf_all_ff` returns from here. -/
def AllFfState.result (addr : Nat) (buf : Bytes) (s : AllFfState) : Option Bool :=
  match s.loop with
  | .bytes => mtdBufAllFf (addr + s.pos) (buf.drop s.pos) s.len.toNat
  | .words => mtdBufAllFfWords (buf.drop s.pos) s.len.toNat
  | .tail => mtdBufAllFfTail (buf.drop s.pos) s.len.toNat

section
variable {addr : Nat} {buf : Bytes}

theorem uint32_sub_toNat (len k : UInt32) : (len - k).toNat = (len.toNat + (2 ^ 32 - k.toNat)) % 2 ^ 32 := by
  rw [UInt32.toNat_sub, Nat.add_comm]

theorem uint32_sub_eq_zero (len k : UInt32) : len - k = 0 ↔ (len.toNat + (2 ^ 32 - k.toNat)) % 2 ^ 32 = 0 := by
  rw [← uint32_sub_toNat, ← UInt32.toNat_inj]
  rfl

theorem mtdBufAllFfWords_small {len : Nat} (h : len ≤ 3) : mtdBufAllFfWords buf len = mtdBufAllFfTail buf len := by
  rw [mtdBufAllFfWords.eq_def]
  split <;> rw [if_pos h]

theorem mtdBufAllFfWords_short {len : Nat} (h : ¬ len ≤ 3) (hshort : buf.length < 4) :
    mtdBufAllFfWords buf len = none := by
  rw [mtdBufAllFfWords.eq_def]
  split
  · simp only [List.length_cons] at hshort
    omega
  · rw [if_neg h]

theorem mtdBufAllFfStep_result (s : AllFfState) :
    match mtdBufAllFfStep addr buf s with
    | .goes s' => s'.result addr buf = s.result addr buf
    | .returns ret => s.result addr buf = some ret
    | .faults => s.result addr buf = none := by
  obtain ⟨loop, pos, len⟩ := s
  have hhead : buf[pos]? = (buf.drop pos).head? := List.head?_drop.symm
  have htail : buf.drop (pos + 1) = (buf.drop pos).tail := List.tail_drop.symm
  have hone : (1 : UInt32).toNat = 1 := rfl
  cases loop with
  | bytes =>
    simp only [mtdBufAllFfStep, AllFfState.result, hhead, uint32_sub_eq_zero, hone]
    cases hd : buf.drop pos with
    | nil =>
      by_cases haddr : (addr + pos) % 4 = 0
      · simp only [if_pos haddr, hd, mtdBufAllFf]
      · simp only [if_neg haddr, List.head?_nil, mtdBufAllFf]
    | cons b rest =>
      by_cases haddr : (addr + pos) % 4 = 0
      · simp only [if_pos haddr, hd, mtdBufAllFf]
      simp only [if_neg haddr, List.head?_cons, mtdBufAllFf]
      by_cases hb : b ≠ 0xff
      · simp only [if_pos hb]
      have hsub := uint32_sub_toNat len 1
      rw [hone] at hsub
      simp only [if_neg hb]
      generalize (len.toNat + (2 ^ 32 - 1)) % 2 ^ 32 = left at hsub
      by_cases hlen : left = 0
      · simp only [if_pos hlen]
      · simp only [if_neg hlen, htail, hd, List.tail_cons, hsub, Nat.add_assoc]
  | words =>
    have hfour : (4 : UInt32).toNat = 4 := rfl
    have hle : len ≤ 3 ↔ len.toNat ≤ 3 := UInt32.le_iff_toNat_le
    simp only [mtdBufAllFfStep, AllFfState.result, uint32_sub_eq_zero, hfour, hle]
    by_cases hsmall : len.toNat ≤ 3
    · simp only [if_pos hsmall, mtdBufAllFfWords_small hsmall]
    have hlength : buf.length < pos + 4 ↔ (buf.drop pos).length < 4 := by
      rw [List.length_drop]
      omega
    simp only [if_neg hsmall, hlength, slice]
    by_cases hshort : (buf.drop pos).length < 4
    · simp only [if_pos hshort, mtdBufAllFfWords_short hsmall hshort]
    obtain ⟨a, b, c, d, rest, hd⟩ : ∃ a b c d rest, buf.drop pos = a :: b :: c :: d :: rest := by
      rcases hd : buf.drop pos with _ | ⟨a, _ | ⟨b, _ | ⟨c, _ | ⟨d, rest⟩⟩⟩⟩
      all_goals first | exact ⟨_, _, _, _, _, rfl⟩ | (rw [hd] at hshort; simp at hshort)
    have hrest : buf.drop (pos + 4) = rest := by
      rw [← List.drop_drop, hd]
      rfl
    have htake : (a :: b :: c :: d :: rest).take 4 = [a, b, c, d] := rfl
    rw [hd] at hshort
    simp only [hd, if_neg hshort, htake, mtdBufAllFfWords, if_neg hsmall]
    by_cases hff : leNat [a, b, c, d] ≠ 0xffffffff
    · simp only [if_pos hff]
    have hsub := uint32_sub_toNat len 4
    rw [hfour] at hsub
    simp only [if_neg hff]
    generalize (len.toNat + (2 ^ 32 - 4)) % 2 ^ 32 = left at hsub
    by_cases hlen : left = 0
    · simp only [if_pos hlen]
    · simp only [if_neg hlen, hrest, hsub]
  | tail =>
    simp only [mtdBufAllFfStep, AllFfState.result, hhead]
    by_cases hlen : len = 0
    · subst hlen
      cases buf.drop pos <;> rfl
    obtain ⟨n, hn⟩ : ∃ n, len.toNat = n + 1 :=
      Nat.exists_eq_add_one_of_ne_zero fun h => hlen (UInt32.toNat_inj.1 h)
    have hlt := len.toNat_lt
    rw [if_neg hlen, hn]
    cases hd : buf.drop pos with
    | nil => rfl
    | cons b rest =>
      simp only [List.head?_cons, mtdBufAllFfTail]
      by_cases hb : b = 0xff
      · rw [if_neg (by simp [hb]), if_neg (by simp [hb])]
        have hsub : (len - 1).toNat = n := by
          rw [uint32_sub_toNat, hone, hn]
          omega
        simp only [htail, hd, List.tail_cons, hsub]
      · rw [if_pos hb, if_pos hb]

/-- How many loops are still to come. -/
def AllFfLoop.left : AllFfLoop → Nat
  | .bytes => 2
  | .words => 1
  | .tail => 0

/-- An iteration that goes on enters the next loop, or advances by what it
takes off the counter. -/
theorem mtdBufAllFfStep_goes {s s' : AllFfState} (h : mtdBufAllFfStep addr buf s = .goes s') :
    (s'.pos = s.pos ∧ s'.len = s.len ∧ s'.loop.left < s.loop.left) ∨
      (s'.loop = s.loop ∧ s'.pos = s.pos + s.takes addr ∧ s'.len = s.len - .ofNat (s.takes addr) ∧
        0 < s.takes addr ∧ (s'.loop = .tail ∨ s'.len ≠ 0)) := by
  obtain ⟨loop, pos, len⟩ := s
  cases loop with
  | bytes =>
    simp only [mtdBufAllFfStep] at h
    split at h
    · cases h
      exact .inl ⟨rfl, rfl, (by decide : 1 < 2)⟩
    · next haddr =>
      split at h
      · cases h
      · split at h
        · cases h
        · split at h
          · cases h
          · next hlen =>
            cases h
            have htakes : (AllFfState.mk .bytes pos len).takes addr = 1 := if_neg haddr
            rw [htakes]
            exact .inr ⟨rfl, rfl, rfl, by decide, .inr hlen⟩
  | words =>
    simp only [mtdBufAllFfStep] at h
    split at h
    · cases h
      exact .inl ⟨rfl, rfl, (by decide : 0 < 1)⟩
    · next hsmall =>
      split at h
      · cases h
      · split at h
        · cases h
        · split at h
          · cases h
          · next hlen =>
            cases h
            have htakes : (AllFfState.mk .words pos len).takes addr = 4 := if_neg hsmall
            rw [htakes]
            exact .inr ⟨rfl, rfl, rfl, by decide, .inr hlen⟩
  | tail =>
    simp only [mtdBufAllFfStep] at h
    split at h
    · cases h
    · next hlen =>
      split at h
      · cases h
      · split at h
        · cases h
        · cases h
          have htakes : (AllFfState.mk .tail pos len).takes addr = 1 := if_neg hlen
          rw [htakes]
          exact .inr ⟨rfl, rfl, rfl, by decide, .inl rfl⟩

/-- The counter says how much of the buffer is left, and something is left
until the last loop. -/
structure AllFfState.Counts (buf : Bytes) (s : AllFfState) : Prop where
  rest : s.pos + s.len.toNat = buf.length
  more : s.loop = .tail ∨ 0 < s.len.toNat

/-- There is no less on the counter than is taken off it. -/
theorem AllFfState.Counts.takes_le {s : AllFfState} (h : s.Counts buf) : s.takes addr ≤ s.len.toNat := by
  obtain ⟨loop, pos, len⟩ := s
  have hmore := h.more
  cases loop with
  | bytes =>
    simp only [reduceCtorEq, false_or] at hmore
    simp only [takes]
    split <;> omega
  | words =>
    simp only [takes]
    split
    · exact Nat.zero_le _
    · next hsmall =>
      have hgt : ¬ len.toNat ≤ 3 := fun hle => hsmall (UInt32.le_iff_toNat_le.2 hle)
      omega
  | tail =>
    simp only [takes]
    split
    · exact Nat.zero_le _
    · next hlen =>
      have hne : len.toNat ≠ 0 := fun h0 => hlen (UInt32.toNat_inj.1 h0)
      omega

/-- So an iteration keeps the count, and comes nearer to the end. -/
theorem AllFfState.Counts.goes {s s' : AllFfState} (h : s.Counts buf)
    (hstep : mtdBufAllFfStep addr buf s = .goes s') :
    s'.Counts buf ∧ 3 * s'.len.toNat + s'.loop.left < 3 * s.len.toNat + s.loop.left := by
  have hle : s.takes addr ≤ s.len.toNat := h.takes_le
  have hlt := s.len.toNat_lt
  rcases mtdBufAllFfStep_goes hstep with ⟨hpos, hlen, hloop⟩ | ⟨hloop, hpos, hlen, htakes, hmore⟩
  · rw [hlen]
    refine ⟨⟨by rw [hpos, hlen, h.rest], ?_⟩, by omega⟩
    rw [hlen]
    refine .inr (h.more.resolve_left fun htail => ?_)
    rw [htail] at hloop
    exact absurd hloop (Nat.not_lt_zero _)
  · have hsub : s'.len.toNat = s.len.toNat - s.takes addr := by
      rw [hlen, uint32_sub_toNat, UInt32.toNat_ofNat', Nat.mod_eq_of_lt (a := s.takes addr) (by omega)]
      omega
    refine ⟨⟨by rw [hpos, hsub, ← h.rest]; omega, hmore.imp id fun hne => ?_⟩, by rw [hsub, hloop]; omega⟩
    exact Nat.pos_of_ne_zero fun h0 => hne (UInt32.toNat_inj.1 h0)

end

/-- **The check is exact**: it returns whether every byte is `0xff`, after some
iterations of which none reads outside the buffer or takes more off the counter
than there is. -/
theorem mtd_buf_all_ff_exact {addr : Nat} {buf : Bytes} {len : UInt32} (hlen : 1 ≤ len)
    (hbuf : buf.length = len.toNat) :
    mtdBufAllFf addr buf len.toNat = some (decide (AllFf buf)) ∧
      (∃ ls s, (mtdBufAllFfSystem addr buf len).Run ls s ∧
        mtdBufAllFfStep addr buf s = .returns (decide (AllFf buf))) ∧
      ∀ ls s, (mtdBufAllFfSystem addr buf len).Run ls s →
        s.takes addr ≤ s.len.toNat ∧ mtdBufAllFfStep addr buf s ≠ .faults ∧
        ∀ ret, mtdBufAllFfStep addr buf s = .returns ret → ret = decide (AllFf buf) := by
  have hpos : 0 < len.toNat := UInt32.le_iff_toNat_le.1 hlen
  have hresult : mtdBufAllFf addr buf len.toNat = some (decide (AllFf buf)) := by
    rw [mtdBufAllFf_eq hpos (by omega) len.toNat_lt, List.take_of_length_le (by omega)]
  have hinv : (mtdBufAllFfSystem addr buf len).Invariant fun _ s =>
      s.Counts buf ∧ s.result addr buf = some (decide (AllFf buf)) := by
    refine ⟨fun hinit => ?_, fun {_ s _ s'} hI hstep => ?_⟩
    · cases hinit
      exact ⟨⟨by simp [hbuf], .inr hpos⟩, hresult⟩
    · have hsame := @mtdBufAllFfStep_result addr buf s
      rw [show mtdBufAllFfStep addr buf s = .goes s' from hstep] at hsame
      exact ⟨(hI.1.goes hstep).1, hsame.trans hI.2⟩
  have hstep : ∀ ls s, (mtdBufAllFfSystem addr buf len).Run ls s →
      s.takes addr ≤ s.len.toNat ∧ mtdBufAllFfStep addr buf s ≠ .faults ∧
        ∀ ret, mtdBufAllFfStep addr buf s = .returns ret → ret = decide (AllFf buf) := by
    intro ls s hrun
    obtain ⟨hcounts, hs⟩ := hinv.run hrun
    have hsame := @mtdBufAllFfStep_result addr buf s
    refine ⟨hcounts.takes_le, fun hfaults => ?_, fun ret hreturns => ?_⟩
    · rw [hfaults] at hsame
      cases hs.symm.trans hsame
    · rw [hreturns] at hsame
      exact Option.some.inj (hsame.symm.trans hs)
  -- From every state that is reached the end is, by induction on what is left.
  have hends : ∀ n ls s, 3 * s.len.toNat + s.loop.left = n → (mtdBufAllFfSystem addr buf len).Run ls s →
      ∃ ls s, (mtdBufAllFfSystem addr buf len).Run ls s ∧
        mtdBufAllFfStep addr buf s = .returns (decide (AllFf buf)) := by
    intro n
    induction n using Nat.strong_induction_on with
    | _ n ih =>
      intro ls s hn hrun
      obtain ⟨-, hfaults, hreturns⟩ := hstep ls s hrun
      cases hnext : mtdBufAllFfStep addr buf s with
      | goes s' =>
        have hless := ((hinv.run hrun).1.goes hnext).2
        exact ih _ (hn ▸ hless) (() :: ls) s' rfl (hrun.step hnext)
      | returns ret => exact ⟨ls, s, hrun, hreturns ret hnext ▸ hnext⟩
      | faults => exact absurd hnext hfaults
  exact ⟨hresult, hends _ [] _ rfl (.init rfl), hstep⟩

/-- A byte and a word that are erased, and a word that is not. -/
theorem mtd_buf_all_ff_exact_nine : mtdBufAllFf 3 (List.replicate 8 0xff ++ [0]) 9 = some false :=
  (@mtd_buf_all_ff_exact 3 (List.replicate 8 0xff ++ [0]) 9 (by decide) (by decide)).1.trans (by decide)

end DtUtils
