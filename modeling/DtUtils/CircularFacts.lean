/-
Facts about the circular bucket: what the scan of `bucketCircularInit` finds
(`usedEnd`), the invariant `Ready` of an open bucket, and what each operation
can do (`bucketCircularWrite_cases`, `bucketCircularRead_cases`,
`bucketCircularCreate_cases`), and what a block that ends in a record holds
(`Stored.payload`). Everything proved later about the bucket goes through these.
-/
import DtUtils.Circular

namespace DtUtils
open Lib

theorem Geometry.writesize_pos (g : Geometry) : 0 < g.writesize := by have := g.le_writesize; omega

theorem Geometry.writesize_le (g : Geometry) : g.writesize ≤ g.erasesize := Nat.le_of_dvd g.pos g.dvd

/-! ## The last used page -/

/-- The number of pages among the first `n` up to the last one that is not erased. -/
def usedPages (ws : Nat) (block : Bytes) : Nat → Nat
  | 0 => 0
  | n + 1 => if AllFf (slice (n * ws) ws block) then usedPages ws block n else n + 1

/-- The end of the last page of `block` that is not erased. -/
def usedEnd (ws : Nat) (block : Bytes) : Nat := usedPages ws block (block.length / ws) * ws

theorem usedPages_le (ws : Nat) (block : Bytes) (n : Nat) : usedPages ws block n ≤ n := by
  induction n with
  | zero => simp [usedPages]
  | succ n ih => simp only [usedPages]; split <;> omega

theorem usedPages_allFf (ws : Nat) (block : Bytes) (n : Nat) :
    AllFf (slice (usedPages ws block n * ws) ((n - usedPages ws block n) * ws) block) := by
  induction n with
  | zero => simp [usedPages, slice]
  | succ n ih =>
    simp only [usedPages]
    split
    · next hff =>
      have hle := usedPages_le ws block n
      have hsum : (n + 1 - usedPages ws block n) * ws = (n - usedPages ws block n) * ws + ws := by
        rw [Nat.succ_sub hle, Nat.succ_mul]
      have hend : usedPages ws block n * ws + (n - usedPages ws block n) * ws = n * ws := by
        rw [← Nat.add_mul, Nat.add_sub_cancel' hle]
      rw [hsum, slice_eq_append, hend, AllFf.append]
      exact ⟨ih, hff⟩
    · simp [slice]

theorem usedPages_not_allFf {ws n m : Nat} {block : Bytes} (h : usedPages ws block n = m + 1) :
    ¬ AllFf (slice (m * ws) ws block) := by
  induction n with
  | zero => simp [usedPages] at h
  | succ n ih =>
    simp only [usedPages] at h
    split at h
    · exact ih h
    · next hff => obtain rfl : n = m := by omega
                  exact hff

section
variable {ws : Nat} {block : Bytes}

theorem dvd_usedEnd : ws ∣ usedEnd ws block := Nat.dvd_mul_left _ _

theorem usedEnd_le (ws : Nat) (block : Bytes) : usedEnd ws block ≤ block.length :=
  Nat.le_trans (Nat.mul_le_mul_right _ (usedPages_le _ _ _)) (Nat.div_mul_le_self _ _)

theorem drop_usedEnd (hd : ws ∣ block.length) : AllFf (block.drop (usedEnd ws block)) := by
  have h := usedPages_allFf ws block (block.length / ws)
  rw [Nat.sub_mul, Nat.div_mul_cancel hd] at h
  have ht : slice (usedEnd ws block) (block.length - usedEnd ws block) block =
      block.drop (usedEnd ws block) := by
    rw [slice, List.take_of_length_le (by simp)]
  rwa [← ht]

theorem last_page_used (h : usedEnd ws block ≠ 0) : ¬ AllFf (slice (usedEnd ws block - ws) ws block) := by
  cases hn : usedPages ws block (block.length / ws) with
  | zero => simp [usedEnd, hn] at h
  | succ m =>
    have hff := usedPages_not_allFf hn
    rwa [usedEnd, hn, Nat.succ_mul, Nat.add_sub_cancel]

/-- The used end is the only page boundary with nothing but erased bytes
behind it and a page in use before it. -/
theorem usedEnd_unique {e : Nat} (hws : 0 < ws) (hd : ws ∣ block.length) (he : ws ∣ e) (hle : e ≤ block.length)
    (hff : AllFf (block.drop e)) (hlast : e = 0 ∨ ¬ AllFf (slice (e - ws) ws block)) :
    usedEnd ws block = e := by
  obtain ⟨k, rfl⟩ := he
  obtain ⟨m, hm⟩ : ws ∣ usedEnd ws block := dvd_usedEnd
  rw [hm]
  congr 1
  by_contra hne
  rcases Nat.lt_or_gt_of_ne hne with hlt | hgt
  · -- The page before `e` is erased, being behind the used end.
    have hk : ws * m + ws ≤ ws * k := by rw [← Nat.mul_succ]; exact Nat.mul_le_mul_left _ hlt
    rcases hlast with h0 | hlast
    · omega
    apply hlast
    have h := (drop_usedEnd hd).slice (ws * k - ws - ws * m) ws
    rw [hm] at h
    rwa [slice, List.drop_drop, Nat.add_sub_cancel' (by omega)] at h
  · -- The last used page is erased, being behind `e`.
    have hk : ws * k + ws ≤ ws * m := by rw [← Nat.mul_succ]; exact Nat.mul_le_mul_left _ hgt
    have hn := last_page_used (show usedEnd ws block ≠ 0 by omega)
    rw [hm] at hn
    apply hn
    have h := hff.slice (ws * m - ws - ws * k) ws
    rwa [slice, List.drop_drop, Nat.add_sub_cancel' (by omega)] at h

theorem usedEnd_eq_zero (hws : 0 < ws) (hd : ws ∣ block.length) (h : AllFf block) : usedEnd ws block = 0 :=
  usedEnd_unique hws hd (Nat.dvd_zero _) (Nat.zero_le _) (by simpa using h) (.inl rfl)

end

/-- The loop of the scan, from the end of page `n` down. -/
theorem circularScan_eq {ws : Nat} {buf : Bytes} (hws : 0 < ws) (hlt : ws < 2 ^ 32) :
    ∀ (fuel n : Nat), n < fuel → n * ws ≤ buf.length →
      circularScan buf ws fuel ((n * ws : Nat) - ws) = (usedPages ws buf n * ws : Nat) - ws
  | fuel + 1, 0, _, _ => by
    rw [circularScan, if_pos (by omega)]
    simp [usedPages]
  | fuel + 1, n + 1, hf, hl => by
    have hsub : (((n + 1) * ws : Nat) : Int) - ws = (n * ws : Nat) := by
      rw [Nat.succ_mul]; push_cast; ring
    rw [hsub, circularScan, if_neg (by omega), Int.toNat_natCast,
      mtdBufAllFf_eq hws (by rw [Nat.succ_mul] at hl; simp; omega) hlt]
    simp only [usedPages, Option.some.injEq, decide_eq_true_eq]
    by_cases hff : AllFf (slice (n * ws) ws buf)
    · rw [if_pos (by simpa [slice] using hff), if_pos hff]
      exact circularScan_eq hws hlt fuel n (by omega) (by rw [Nat.succ_mul] at hl; omega)
    · rw [if_neg (by simpa [slice] using hff), if_neg hff, hsub]

/-! ## An open bucket -/

/-- What holds of a bucket while a process has it open: the free area is
page-aligned and erased, or the next write will erase the block. -/
structure Ready (c : BucketCircular) : Prop where
  length : c.block.length = c.geo.erasesize
  int : c.geo.erasesize < 2 ^ 31
  dvd : c.geo.writesize ∣ c.writeArea
  le : c.writeArea ≤ c.geo.erasesize
  free : c.writeArea = 0 ∨ AllFf (c.block.drop c.writeArea)

theorem Ready.reset {c : BucketCircular} (h : Ready c) : Ready { c with writeArea := 0 } :=
  ⟨h.length, h.int, Nat.dvd_zero _, Nat.zero_le _, .inl rfl⟩

/-- An open bucket's requests reach the bytes they name. -/
theorem peb_rel {g : Geometry} (hint : g.erasesize < 2 ^ 31) {off : Nat} (h : off ≤ g.erasesize) :
    cInt off + ((g.eraseblock * g.erasesize % 2 ^ 32 : Nat) : Int) - g.eraseblock * g.erasesize = off := by
  rw [cInt_of_lt (by omega) (by omega), Nat.mod_eq_of_lt g.start_lt]
  push_cast
  ring

/-- The requests made for a transfer: one, unless the process is stopped. -/
def Env.request (env : Env) (e : Event) : List Event := if env.alive then e :: env.trace else env.trace

theorem ite_log_trace (env : Env) (e : Event) :
    (if env.alive then env.log e else env).trace = env.request e := by
  unfold Env.request; split <;> rfl

theorem stateMtdPebRead_cases {env env' : Env} {c : BucketCircular} {off len : Nat} {ret : Int} {buf : Bytes}
    (hint : c.geo.erasesize < 2 ^ 31) (hl : off + len ≤ c.geo.erasesize)
    (h : stateMtdPebRead env c off len = (env', ret, buf)) :
    env'.trace = env.request (.read off len) ∧ ret ≤ 0 ∧
      ∃ k, buf = (slice off len c.block).take k ++
        List.replicate (len - ((slice off len c.block).take k).length) 0 := by
  have hoff : cInt off = off := cInt_of_lt (by omega) (by omega)
  have hlen : cInt len = len := cInt_of_lt (by omega) (by omega)
  simp only [stateMtdPebRead, hoff, hlen, Int.add_sub_cancel, Int.toNat_natCast] at h
  rw [if_neg (by omega)] at h
  rcases hrf : readFull (if env.alive then env.log (.read off len) else env) (slice off len c.block)
    with ⟨env₁, r, got⟩
  rw [hrf] at h
  have htr := readFull_trace (if env.alive then env.log (.read off len) else env) (slice off len c.block)
  obtain ⟨k, hk⟩ := readFull_delivered (if env.alive then env.log (.read off len) else env) (slice off len c.block)
  simp only [hrf, ite_log_trace] at htr hk
  subst hk
  by_cases hr : r < 0
  · simp only [hr, if_true, Prod.mk.injEq] at h
    obtain ⟨rfl, rfl, rfl⟩ := h
    exact ⟨htr, by omega, k, rfl⟩
  · simp only [hr, if_false, Prod.mk.injEq] at h
    obtain ⟨rfl, rfl, rfl⟩ := h
    exact ⟨htr, by omega, k, rfl⟩

theorem stateMtdPebRead_clean {env : Env} {c : BucketCircular} {off len : Nat} (henv : env.Clean)
    (hint : c.geo.erasesize < 2 ^ 31) (hl : off + len ≤ c.geo.erasesize) (hb : c.block.length = c.geo.erasesize) :
    stateMtdPebRead env c off len = ((env.log (.read off len)).pop, 0, slice off len c.block) := by
  have hoff : cInt off = off := cInt_of_lt (by omega) (by omega)
  have hlen : cInt len = len := cInt_of_lt (by omega) (by omega)
  have hs : (slice off len c.block).length = len := slice_length (by omega)
  simp only [stateMtdPebRead, hoff, hlen, Int.add_sub_cancel, Int.toNat_natCast]
  rw [if_neg (by omega), if_pos henv.1, readFull_clean (henv.log _)]
  simp [hs]

/-! ## Opening -/

/-- The length word in front of position `e`: 0 when there is no magic. -/
def lengthWord (e : Nat) (buf : Bytes) : Nat :=
  if leNat (slice (e - 8) 4 buf) = circularMagic then leNat (slice (e - 4) 4 buf) else 0

/-- Foreign content in front of position `e`: a magic word that is neither
the bucket's nor erased nor zero. -/
def foreignWord (e : Nat) (buf : Bytes) : Bool :=
  let magic := leNat (slice (e - 8) 4 buf)
  magic ≠ circularMagic ∧ magic ≠ 0xffffffff ∧ magic ≠ 0

/-- What `bucketCircularInit` makes of a bucket whose block reads as `buf`. -/
def BucketCircular.scanned (c : BucketCircular) (buf : Bytes) : BucketCircular :=
  let e := usedEnd c.geo.writesize buf
  { c with
    writeArea := e
    lastWrittenLength := if e = 0 then 0 else lengthWord e buf
    wrongMagic := if e ≠ 0 ∧ foreignWord e buf then true else c.wrongMagic }

theorem circularScan_init {g : Geometry} {buf : Bytes} (hint : g.erasesize < 2 ^ 31) (hb : buf.length = g.erasesize) :
    circularScan buf g.writesize (g.erasesize + 1) (cInt (g.erasesize - g.writesize)) =
      (usedEnd g.writesize buf : Int) - g.writesize := by
  have hle := g.writesize_le
  rw [cInt_of_lt (by omega) (by omega)]
  have hn : g.erasesize / g.writesize * g.writesize = g.erasesize := Nat.div_mul_cancel g.dvd
  have hf : g.erasesize / g.writesize < g.erasesize + 1 := Nat.lt_succ_of_le (Nat.div_le_self _ _)
  have h := circularScan_eq g.writesize_pos (by omega) (g.erasesize + 1) (g.erasesize / g.writesize) hf
    (show g.erasesize / g.writesize * g.writesize ≤ buf.length by omega)
  rwa [hn, ← hb, ← usedEnd, hb] at h

theorem bucketCircularInit_eq {env env' : Env} {c : BucketCircular} {ret : Int} {buf : Bytes}
    (hint : c.geo.erasesize < 2 ^ 31) (hb : buf.length = c.geo.erasesize)
    (h : stateMtdPebRead env c 0 c.geo.erasesize = (env', ret, buf)) :
    bucketCircularInit env c = if ret ≠ 0 ∧ ret ≠ -EUCLEAN then (env', c, ret) else (env', c.scanned buf, 0) := by
  have hws := c.geo.writesize_pos
  have h8 := c.geo.le_writesize
  rw [bucketCircularInit, h]
  simp only [bucketCircularInitScan, circularScan_init hint hb]
  by_cases hret : ret ≠ 0 ∧ ret ≠ -EUCLEAN
  · rw [if_pos hret, if_pos hret]
  simp only [if_neg hret]
  obtain ⟨k, hk⟩ : c.geo.writesize ∣ usedEnd c.geo.writesize buf := dvd_usedEnd
  have hadd : ((usedEnd c.geo.writesize buf : Int) - c.geo.writesize + c.geo.writesize).toNat =
      usedEnd c.geo.writesize buf := by omega
  simp only [hadd]
  by_cases h0 : usedEnd c.geo.writesize buf = 0
  · rw [if_pos (by omega)]
    simp [BucketCircular.scanned, h0]
  have hle : c.geo.writesize ≤ usedEnd c.geo.writesize buf := Nat.le_of_dvd (Nat.pos_of_ne_zero h0) dvd_usedEnd
  rw [if_neg (by omega)]
  have h4 : usedEnd c.geo.writesize buf - circularMetaSize + 4 = usedEnd c.geo.writesize buf - 4 := by
    simp only [circularMetaSize]; omega
  rw [h4]
  by_cases hm : leNat (slice (usedEnd c.geo.writesize buf - 8) 4 buf) = circularMagic
  · rw [if_neg (by simpa [circularMetaSize] using hm)]
    simp [BucketCircular.scanned, h0, lengthWord, foreignWord, hm]
  · rw [if_pos (by simpa [circularMetaSize] using hm)]
    simp only [circularMagic] at hm
    by_cases h1 : leNat (slice (usedEnd c.geo.writesize buf - 8) 4 buf) = 0xffffffff <;>
      by_cases h2 : leNat (slice (usedEnd c.geo.writesize buf - 8) 4 buf) = 0 <;>
      simp [BucketCircular.scanned, h0, lengthWord, foreignWord, circularMetaSize, circularMagic, h1, h2, hm]

theorem padded_length (k len : Nat) (l : Bytes) (h : l.length = len) :
    (l.take k ++ List.replicate (len - (l.take k).length) 0).length = len := by
  simp [h]

theorem bucketCircularCreate_cases {env env' : Env} {g : Geometry} {block : Bytes} {o : Option BucketCircular}
    (hb : block.length = g.erasesize) (h : bucketCircularCreate env g block = (env', o)) :
    (env'.trace = env.trace ∨ env'.trace = env.request (.read 0 g.erasesize)) ∧
      ∀ c, o = some c → Ready c ∧ c.geo = g ∧ c.block = block ∧
        (AllFf block → c.writeArea = 0 ∨ c.writeArea = g.erasesize) := by
  simp only [bucketCircularCreate] at h
  split at h
  · simp only [Prod.mk.injEq] at h; obtain ⟨rfl, rfl⟩ := h; exact ⟨.inl rfl, by simp⟩
  · simp only [Prod.mk.injEq] at h; obtain ⟨rfl, rfl⟩ := h; exact ⟨.inl rfl, by simp⟩
  let c₀ : BucketCircular := ⟨g, 0, 0, false, block⟩
  rcases hr : stateMtdPebRead env.pop c₀ 0 g.erasesize with ⟨env₁, ret, buf⟩
  by_cases hint : g.erasesize < 2 ^ 31
  · have hz : ((0 : Nat) : Int) = 0 := rfl
    obtain ⟨htr, -, k, hbuf⟩ := stateMtdPebRead_cases (c := c₀) hint
      (show 0 + g.erasesize ≤ g.erasesize by omega) hr
    have hblk : slice 0 c₀.geo.erasesize c₀.block = block := by
      rw [show c₀.geo.erasesize = block.length from hb.symm]; exact slice_zero_length block
    rw [hblk] at hbuf
    have hbl : buf.length = g.erasesize := by rw [hbuf]; exact padded_length _ _ _ hb
    rw [bucketCircularInit_eq (c := c₀) hint hbl hr] at h
    have htr' : env₁.trace = env.request (.read 0 g.erasesize) := by rw [htr]; rfl
    by_cases hret : ret ≠ 0 ∧ ret ≠ -EUCLEAN
    · rw [if_pos hret] at h
      simp only [bucketCircularCreated, ne_eq, hret.1, not_false_eq_true, if_true, Prod.mk.injEq] at h
      obtain ⟨rfl, rfl⟩ := h
      exact ⟨.inr htr', by simp⟩
    rw [if_neg hret] at h
    simp only [bucketCircularCreated, ne_eq, not_true_eq_false, if_false, Prod.mk.injEq] at h
    obtain ⟨rfl, rfl⟩ := h
    refine ⟨.inr htr', fun c hc => ?_⟩
    cases hc
    -- Zeros of a short read end up in front of the free area.
    have hend : buf = block ∨ usedEnd g.writesize buf = g.erasesize := by
      by_cases hk : g.erasesize ≤ k
      · left; rw [hbuf, List.take_of_length_le (by omega)]; simp [hb]
      right
      by_contra hne
      have hlt : usedEnd g.writesize buf < g.erasesize := by
        have := usedEnd_le g.writesize buf; omega
      have hlast : buf[g.erasesize - 1]? = some 0 := by
        have hlen : (block.take k).length ≤ g.erasesize - 1 := by simp; omega
        rw [hbuf, List.getElem?_append_right hlen, List.getElem?_replicate]
        simp [hb]; omega
      have hmem : (0 : UInt8) ∈ buf.drop (usedEnd g.writesize buf) := by
        have : (buf.drop (usedEnd g.writesize buf))[g.erasesize - 1 - usedEnd g.writesize buf]? = some 0 := by
          rw [List.getElem?_drop, ← hlast]; congr 1; omega
        exact List.mem_of_getElem? this
      exact absurd (drop_usedEnd (hbl ▸ g.dvd) 0 hmem) (by decide)
    refine ⟨⟨hb, hint, dvd_usedEnd, ?_, .inr ?_⟩, rfl, rfl, fun hff => ?_⟩
    · simpa [BucketCircular.scanned, c₀, hbl] using usedEnd_le g.writesize buf
    · change AllFf (block.drop (usedEnd g.writesize buf))
      rcases hend with rfl | hend
      · exact drop_usedEnd (hbl ▸ g.dvd)
      · rw [hend, List.drop_eq_nil_of_le (by omega)]
        exact AllFf.nil
    · change usedEnd g.writesize buf = 0 ∨ usedEnd g.writesize buf = g.erasesize
      rcases hend with rfl | hend
      · exact .inl (usedEnd_eq_zero g.writesize_pos (hbl ▸ g.dvd) hff)
      · exact .inr hend
  · -- The length is negative as an `int`, and the read fails.
    have hneg : cInt (g.erasesize : Int) < 0 := cInt_neg (by omega) (by have := g.erasesize_lt; omega)
    have hr' : stateMtdPebRead env.pop c₀ 0 g.erasesize = (env.pop, -1, []) := by
      simp only [stateMtdPebRead, hneg, if_true]
    have hi : bucketCircularInit env.pop c₀ = (env.pop, c₀, -1) := by
      rw [bucketCircularInit, hr', bucketCircularInitScan]
      simp [EUCLEAN]
    rw [hi, bucketCircularCreated] at h
    simp only [ne_eq, Int.reduceNeg, neg_eq_zero, one_ne_zero, not_false_eq_true, if_true, Prod.mk.injEq] at h
    obtain ⟨rfl, rfl⟩ := h
    exact ⟨.inl rfl, by simp⟩

theorem bucketCircularCreate_clean {env : Env} {g : Geometry} {block : Bytes} (henv : env.Clean)
    (hint : g.erasesize < 2 ^ 31) (hb : block.length = g.erasesize) :
    bucketCircularCreate env g block =
      ((env.pop.log (.read 0 g.erasesize)).pop, some (BucketCircular.scanned ⟨g, 0, 0, false, block⟩ block)) := by
  have hr := stateMtdPebRead_clean (c := ⟨g, 0, 0, false, block⟩) henv.pop hint
    (show 0 + g.erasesize ≤ g.erasesize by omega) hb
  rw [← hb, slice_zero_length, hb] at hr
  simp only [bucketCircularCreate, henv.next]
  rw [bucketCircularInit_eq hint hb hr]
  simp [bucketCircularCreated]

/-! ## Reading -/

@[simp] theorem bucketCircularFetched_env (c : BucketCircular) (n : Int) (x : Env × Int × Bytes) :
    (bucketCircularFetched c n x).1 = x.1 := by
  simp only [bucketCircularFetched]
  split <;> rfl

@[simp] theorem bucketCircularFetched_bucket (c : BucketCircular) (n : Int) (x : Env × Int × Bytes) :
    (bucketCircularFetched c n x).2.1 = c := by
  simp only [bucketCircularFetched]
  split <;> rfl

theorem bucketCircularFetched_cases {env env' : Env} {c c' : BucketCircular} {readLen ret len : Int} {buf : Bytes}
    {r : Env × Int × Bytes} (hlen : 0 ≤ readLen) (h8 : c.lastWrittenLength ≠ 0 → 8 ≤ readLen)
    (htr : r.1.trace = env.trace) (h : bucketCircularFetched c readLen r = (env', c', ret, buf, len)) :
    c' = c ∧ 0 ≤ len ∧ env'.trace = env.trace := by
  obtain ⟨env₁, r, b⟩ := r
  simp only [bucketCircularFetched, circularMetaSize] at h
  split at h
  · simp only [Prod.mk.injEq] at h
    obtain ⟨rfl, rfl, -, -, rfl⟩ := h
    exact ⟨rfl, by omega, htr⟩
  · simp only [Prod.mk.injEq] at h
    obtain ⟨rfl, rfl, -, -, rfl⟩ := h
    refine ⟨rfl, ?_, htr⟩
    split
    · next h0 => have := h8 h0; omega
    · exact hlen

/-- A read makes at most one request, inside the block, reports a length that
is not negative, and at most forgets the position. -/
theorem bucketCircularRead_cases {env env' : Env} {c c' : BucketCircular} {ret len : Int} {buf : Bytes} (hc : Ready c)
    (h : bucketCircularRead env c = (env', c', ret, buf, len)) :
    (c' = c ∨ c' = { c with writeArea := 0 }) ∧ 0 ≤ len ∧
      (env'.trace = env.trace ∨
        ∃ off n : Nat, off + n ≤ c.geo.erasesize ∧ env'.trace = env.request (.read off n)) := by
  have h8 := c.geo.le_writesize
  have hle := c.geo.writesize_le
  have hwa := hc.le
  simp only [bucketCircularRead] at h
  split at h
  · simp only [Prod.mk.injEq] at h
    obtain ⟨rfl, rfl, -, -, rfl⟩ := h
    exact ⟨.inl rfl, by omega, .inl rfl⟩
  next h0 =>
  split at h
  · next hl0 =>
    -- Without a length: the first bytes, at most a block less the metadata.
    obtain ⟨n, hn⟩ : ∃ n : Nat, min (c.writeArea : Int) (c.geo.erasesize - circularMetaSize) = n ∧
        n ≤ c.geo.erasesize :=
      ⟨min c.writeArea (c.geo.erasesize - 8), by simp only [circularMetaSize]; omega, by omega⟩
    rw [hn.1] at h
    rcases hr : stateMtdPebRead env { c with writeArea := 0 } ((0 : Nat) : Int) n with ⟨env₁, r, b⟩
    obtain ⟨htr, -, -⟩ := stateMtdPebRead_cases (c := { c with writeArea := 0 }) hc.int (by simpa using hn.2) hr
    rw [show (0 : Int) = ((0 : Nat) : Int) from rfl, hr] at h
    have := bucketCircularFetched_cases (by omega) (by simp [hl0]) (show (env₁, r, b).1.trace = env₁.trace from rfl) h
    exact ⟨.inr this.1, this.2.1, .inr ⟨0, n, by simpa using hn.2, by rw [this.2.2, htr]⟩⟩
  next hl0 =>
  split at h
  · simp only [Prod.mk.injEq] at h
    obtain ⟨rfl, rfl, -, -, rfl⟩ := h
    exact ⟨.inr rfl, by omega, .inl rfl⟩
  · next hv =>
    simp only [not_or, not_lt, ne_eq, not_not] at hv
    have hlw : 8 ≤ c.lastWrittenLength := by
      have := Nat.le_of_dvd (Nat.pos_of_ne_zero hl0) (Nat.dvd_of_mod_eq_zero hv.2)
      omega
    rw [← Nat.cast_sub hv.1] at h
    rcases hr : stateMtdPebRead env c ((c.writeArea - c.lastWrittenLength : Nat) : Int) c.lastWrittenLength
      with ⟨env₁, r, b⟩
    obtain ⟨htr, -, -⟩ := stateMtdPebRead_cases hc.int (by omega) hr
    rw [hr] at h
    have := bucketCircularFetched_cases (by omega) (fun _ => by omega)
        (show (env₁, r, b).1.trace = env₁.trace from rfl) h
    exact ⟨.inl this.1, this.2.1, .inr ⟨c.writeArea - c.lastWrittenLength, c.lastWrittenLength, by omega,
      by rw [this.2.2, htr]⟩⟩

theorem bucketCircularRead_ready {env env' : Env} {c c' : BucketCircular} {ret len : Int} {buf : Bytes} (hc : Ready c)
    (h : bucketCircularRead env c = (env', c', ret, buf, len)) :
    Ready c' ∧ c'.block = c.block ∧ c'.geo = c.geo := by
  obtain ⟨rfl | rfl, -, -⟩ := bucketCircularRead_cases hc h
  · exact ⟨hc, rfl, rfl⟩
  · exact ⟨hc.reset, rfl, rfl⟩

theorem Ready.scanned {c : BucketCircular} (hint : c.geo.erasesize < 2 ^ 31) (hb : c.block.length = c.geo.erasesize) :
    Ready (c.scanned c.block) :=
  ⟨hb, hint, dvd_usedEnd, hb ▸ usedEnd_le _ _, .inr (drop_usedEnd (hb ▸ c.geo.dvd))⟩

/-- The bytes a read of the bucket is to deliver: the last record up to its
metadata, or the front of the block if there is no length. -/
def BucketCircular.readable (c : BucketCircular) : Option Bytes :=
  if c.writeArea = 0 then none
  else if c.lastWrittenLength = 0 then some (c.block.take (min c.writeArea (c.geo.erasesize - 8)))
  else if c.writeArea < c.lastWrittenLength ∨ c.lastWrittenLength % c.geo.writesize ≠ 0 then none
  else some (slice (c.writeArea - c.lastWrittenLength) (c.lastWrittenLength - 8) c.block)

/-- What a block holds for the process that opens it next. -/
def circularPayload (g : Geometry) (block : Bytes) : Option Bytes :=
  (BucketCircular.scanned ⟨g, 0, 0, false, block⟩ block).readable

theorem bucketCircularRead_clean {env : Env} {c : BucketCircular} (henv : env.Clean) (hc : Ready c) :
    ∃ env' c' ret buf len, env'.Clean ∧ bucketCircularRead env c = (env', c', ret, buf, len) ∧
      match c.readable with
      | none => ret < 0 ∧ buf = [] ∧ len = 0
      | some p => ret = 0 ∧ buf.take p.length = p ∧ len = p.length := by
  have h8 := c.geo.le_writesize
  have hws := c.geo.writesize_le
  have hle := hc.le
  have hb := hc.length
  simp only [bucketCircularRead, BucketCircular.readable]
  by_cases h0 : c.writeArea = 0
  · rw [if_pos h0, if_pos h0]
    exact ⟨env, c, -ENODATA, [], 0, henv, rfl, by decide, rfl, rfl⟩
  rw [if_neg h0, if_neg h0]
  by_cases hl : c.lastWrittenLength = 0
  · rw [if_pos hl, if_pos hl]
    obtain ⟨n, hn, hnat⟩ : ∃ n : Nat, n = min c.writeArea (c.geo.erasesize - 8) ∧
        min (c.writeArea : Int) (c.geo.erasesize - circularMetaSize) = n :=
      ⟨_, rfl, by simp only [circularMetaSize]; omega⟩
    rw [hnat, ← hn]
    have hr := stateMtdPebRead_clean (c := { c with writeArea := 0 }) henv hc.int
      (show 0 + n ≤ c.geo.erasesize by omega) hb
    rw [show (0 : Int) = ((0 : Nat) : Int) from rfl, hr]
    simp only [bucketCircularFetched, hl, ne_eq, not_true_eq_false, if_false]
    rw [if_neg (by omega)]
    refine ⟨_, _, _, _, _, (henv.log _).pop, rfl, rfl, ?_, ?_⟩
    · rw [slice_zero_left, List.take_of_length_le (by simp)]
    · simp; omega
  rw [if_neg hl, if_neg hl]
  by_cases hv : c.writeArea < c.lastWrittenLength ∨ c.lastWrittenLength % c.geo.writesize ≠ 0
  · rw [if_pos hv, if_pos hv]
    exact ⟨env, _, -EINVAL, [], 0, henv, rfl, by decide, rfl, rfl⟩
  rw [if_neg hv, if_neg hv]
  simp only [not_or, not_lt, ne_eq, not_not] at hv
  have hlw : 8 ≤ c.lastWrittenLength := by
    have := Nat.le_of_dvd (Nat.pos_of_ne_zero hl) (Nat.dvd_of_mod_eq_zero hv.2)
    omega
  have hlen : (slice (c.writeArea - c.lastWrittenLength) (c.lastWrittenLength - 8) c.block).length =
      c.lastWrittenLength - 8 := slice_length (by omega)
  rw [← Nat.cast_sub hv.1, stateMtdPebRead_clean henv hc.int (by omega) hb]
  simp only [bucketCircularFetched, circularMetaSize]
  refine ⟨_, _, _, _, _, (henv.log (.read _ _)).pop, by rw [if_neg (by omega)], rfl, ?_, ?_⟩
  · rw [hlen]
    simp only [slice, List.take_take]
    congr 1
    omega
  · rw [hlen, if_pos hl]; omega

/-! ## Writing -/

/-- Where a record of `n` bytes goes: behind the last one, or to the front of
the block, which has just been erased. -/
inductive Room (c : BucketCircular) (n : Nat) (t : List Event) : BucketCircular → List Event → Prop
  | behind : c.writeArea ≠ 0 → c.writeArea + n < c.geo.erasesize → Room c n t c t
  | erased : n ≤ c.geo.erasesize →
      Room c n t { c with writeArea := 0, block := List.replicate c.geo.erasesize 0xff } (.erase true :: t)

/-- A bucket with `n` erased bytes from `writeArea` on. -/
structure HasRoom (b : BucketCircular) (n : Nat) : Prop where
  length : b.block.length = b.geo.erasesize
  int : b.geo.erasesize < 2 ^ 31
  dvd : b.geo.writesize ∣ b.writeArea
  le : b.writeArea + n ≤ b.geo.erasesize
  free : AllFf (b.block.drop b.writeArea)

theorem Room.hasRoom {c b : BucketCircular} {n : Nat} {t t' : List Event} (hc : Ready c) (h : Room c n t b t') :
    HasRoom b n := by
  cases h with
  | behind h0 hlt => exact ⟨hc.length, hc.int, hc.dvd, by omega, hc.free.resolve_left h0⟩
  | erased hn => exact ⟨by simp, hc.int, Nat.dvd_zero _, by simpa using hn, by simp⟩

theorem Room.same {c b : BucketCircular} {n : Nat} {t t' : List Event} (h : Room c n t b t') :
    b.geo = c.geo ∧ b.lastWrittenLength = c.lastWrittenLength ∧ b.wrongMagic = c.wrongMagic := by
  cases h <;> exact ⟨rfl, rfl, rfl⟩

/-- A length that has room for the payload was not truncated. -/
theorem circularWrittenLength_eq {g : Geometry} {len : Nat} (h : len + 8 ≤ circularWrittenLength g len) :
    circularWrittenLength g len = roundup (len + 8) g.writesize := by
  have hlt := roundup_lt (x := len + 8) g.writesize_pos
  have hws := g.writesize_le
  have hes := g.erasesize_lt
  simp only [circularWrittenLength, circularMetaSize] at h ⊢
  omega

theorem circularRecord_length {buf : Bytes} {n : Nat} (h : buf.length + 8 ≤ n) : (circularRecord buf n).length = n := by
  simp [circularRecord, circularMeta, circularMetaSize]; omega

/-- A write that gets as far as the transfer: `k` bytes of the record reach
the medium, and the position moves behind all of it. -/
def BucketCircular.append (b : BucketCircular) (record : Bytes) (k : Nat) : BucketCircular :=
  { b with
    writeArea := b.writeArea + record.length
    block := splice b.writeArea (record.take k) b.block }

theorem bucketCircularAppend_cases {env env' : Env} {b c' : BucketCircular} {record : Bytes} {ret : Int}
    (hb : HasRoom b record.length) (h : bucketCircularAppend env b record = (env', c', ret)) :
    ret ≤ 0 ∧ (∃ k, c' = b.append record k ∧ (env.Honest → ret = 0 → k = record.length)) ∧
      env'.trace = env.request (.program b.writeArea record.length (slice b.writeArea record.length b.block)) := by
  have hle := hb.le
  have hrel := peb_rel hb.int (show b.writeArea ≤ b.geo.erasesize by omega)
  have hlen : cInt (record.length : Int) = record.length := cInt_of_lt (by omega) (by have := hb.int; omega)
  simp only [bucketCircularAppend, stateMtdPebWrite, hrel, hlen, Int.toNat_natCast] at h
  rw [if_neg (by omega)] at h
  rcases hwf : writeFull (if env.alive then
      env.log (.program b.writeArea record.length (slice b.writeArea record.length b.block)) else env) record
    with ⟨env₁, r, taken⟩
  rw [hwf] at h
  have htr := writeFull_trace (if env.alive then
      env.log (.program b.writeArea record.length (slice b.writeArea record.length b.block)) else env) record
  obtain ⟨k, hk, hfull⟩ := writeFull_taken (if env.alive then
      env.log (.program b.writeArea record.length (slice b.writeArea record.length b.block)) else env) record
  have hhon : env.Honest → (if env.alive then
      env.log (.program b.writeArea record.length (slice b.writeArea record.length b.block)) else env).Honest := by
    intro hh
    split
    · exact hh.log _
    · exact hh
  simp only [hwf, ite_log_trace] at htr hk hfull
  subst hk
  have hps : pebSplice (b.writeArea : Int) (record.take k) b.block = splice b.writeArea (record.take k) b.block := by
    rw [pebSplice, if_pos, Int.toNat_natCast]
    refine ⟨by omega, ?_⟩
    have hbl := hb.length
    simp only [Int.toNat_natCast, List.length_take]
    omega
  simp only [hps] at h
  by_cases hr : r < 0
  · simp only [hr, if_true, Prod.mk.injEq] at h
    obtain ⟨rfl, rfl, rfl⟩ := h
    exact ⟨by omega, ⟨k, rfl, fun _ h0 => by omega⟩, htr⟩
  · simp only [hr, if_false, Prod.mk.injEq] at h
    obtain ⟨rfl, rfl, rfl⟩ := h
    exact ⟨by omega, ⟨k, rfl, fun hh _ => hfull (hhon hh) (by omega)⟩, htr⟩

theorem bucketCircularAppend_clean {env : Env} {b : BucketCircular} {record : Bytes} (henv : env.Clean)
    (hb : HasRoom b record.length) : ∃ env', env'.Clean ∧
      bucketCircularAppend env b record = (env', b.append record record.length, 0) := by
  have hle := hb.le
  have hrel := peb_rel hb.int (show b.writeArea ≤ b.geo.erasesize by omega)
  have hlen : cInt (record.length : Int) = record.length := cInt_of_lt (by omega) (by have := hb.int; omega)
  have hps : pebSplice (b.writeArea : Int) record b.block = splice b.writeArea record b.block := by
    rw [pebSplice, if_pos, Int.toNat_natCast]
    have hbl := hb.length
    exact ⟨by omega, by simp only [Int.toNat_natCast]; omega⟩
  let e : Event := .program b.writeArea record.length (slice b.writeArea record.length b.block)
  refine ⟨(env.log e).pop, (henv.log e).pop, ?_⟩
  simp only [bucketCircularAppend, stateMtdPebWrite, hrel, hlen, Int.toNat_natCast]
  rw [if_neg (by omega), if_pos henv.1, writeFull_clean (henv.log _)]
  simp only [hps]
  rw [if_neg (by omega)]
  simp [BucketCircular.append, e]

/-- An erase that reports success was carried out; another one may still have
taken effect, if it was issued at all. -/
theorem stateMtdPebErase_cases {env env' : Env} {c c' : BucketCircular} {ret : Int}
    (h : stateMtdPebErase env c = (env', c', ret)) :
    (ret = 0 ∧ env.alive = true ∧ env' = (env.log (.erase true)).pop ∧
      c' = { c with block := List.replicate c.geo.erasesize 0xff }) ∨
    (ret = -1 ∧ env' = env ∧ c' = c) ∨
    ∃ ok, ret = -1 ∧ env'.trace = .erase ok :: env.trace ∧
      c' = { c with block := if ok then List.replicate c.geo.erasesize 0xff else c.block } := by
  simp only [stateMtdPebErase] at h
  split at h
  · next halive =>
    split at h <;> simp only [Prod.mk.injEq] at h <;> obtain ⟨rfl, rfl, rfl⟩ := h
    · exact .inl ⟨rfl, halive, rfl, rfl⟩
    · exact .inr (.inr ⟨false, rfl, rfl, rfl⟩)
    · exact .inr (.inr ⟨false, rfl, rfl, rfl⟩)
    · exact .inr (.inr ⟨true, rfl, rfl, rfl⟩)
  · simp only [Prod.mk.injEq] at h
    obtain ⟨rfl, rfl, rfl⟩ := h
    exact .inr (.inl ⟨rfl, rfl, rfl⟩)

theorem stateMtdPebErase_clean {env : Env} (henv : env.Clean) (c : BucketCircular) :
    stateMtdPebErase env c =
      ((env.log (.erase true)).pop, { c with block := List.replicate c.geo.erasesize 0xff }, 0) := by
  simp only [stateMtdPebErase, henv.1, henv.next, if_true]

/-- The position `bucketCircularWrite` settles on: the front of the block when
the record would reach its end. -/
def BucketCircular.wrap (c : BucketCircular) (n : Nat) : BucketCircular :=
  if c.geo.erasesize ≤ c.writeArea + n then { c with writeArea := 0 } else c

theorem BucketCircular.wrap_cases (c : BucketCircular) (n : Nat) :
    ((c.wrap n).writeArea = 0 ∧ c.wrap n = { c with writeArea := 0 }) ∨
    (c.writeArea ≠ 0 ∧ c.writeArea + n < c.geo.erasesize ∧ c.wrap n = c) := by
  unfold wrap
  split
  · exact .inl ⟨rfl, rfl⟩
  · next hlt =>
    by_cases h0 : c.writeArea = 0
    · obtain ⟨g, w, l, m, bl⟩ := c
      simp only at h0
      subst h0
      exact .inl ⟨rfl, rfl⟩
    · exact .inr ⟨h0, by omega, rfl⟩

/-- Everything a write can do: refuse, stop at the erase, or append a record
of which the medium keeps the first `k` bytes. -/
theorem bucketCircularWrite_cases {env env' : Env} {c c' : BucketCircular} {buf : Bytes} {ret : Int} (hc : Ready c)
    (h : bucketCircularWrite env c buf = (env', c', ret)) :
    (ret < 0 ∧ env'.trace = env.trace ∧ (c' = c ∨ c' = { c with writeArea := 0 })) ∨
    (∃ ok, ret < 0 ∧ env'.trace = .erase ok :: env.trace ∧
      c' = { c with writeArea := 0, block := if ok then List.replicate c.geo.erasesize 0xff else c.block }) ∨
    ∃ n b t k, n = circularWrittenLength c.geo buf.length ∧ buf.length + 8 ≤ n ∧ n ≤ c.geo.erasesize ∧
      Room c n env.trace b t ∧ c' = b.append (circularRecord buf n) k ∧ ret ≤ 0 ∧
      (env.Honest → ret = 0 → k = n) ∧
      env'.trace = if env.alive then .program b.writeArea n (slice b.writeArea n b.block) :: t else t := by
  simp only [bucketCircularWrite, circularMetaSize] at h
  generalize hn : circularWrittenLength c.geo buf.length = n at h
  rw [show (if c.geo.erasesize ≤ c.writeArea + n then { c with writeArea := 0 } else c) = c.wrap n from rfl] at h
  split at h
  · simp only [Prod.mk.injEq] at h
    obtain ⟨rfl, rfl, rfl⟩ := h
    exact .inl ⟨by decide, rfl, .inl rfl⟩
  next hbig =>
  split at h
  · simp only [Prod.mk.injEq] at h
    obtain ⟨rfl, rfl, rfl⟩ := h
    exact .inl ⟨by decide, rfl, .inl rfl⟩
  next hshort =>
  have hrec : (circularRecord buf n).length = n := circularRecord_length (by omega)
  rcases c.wrap_cases n with ⟨h0, hw⟩ | ⟨h0, hlt, hw⟩
  · -- The block is erased first.
    rw [if_pos h0, hw] at h
    rcases he : stateMtdPebErase env { c with writeArea := 0 } with ⟨env₁, c₁, r⟩
    rw [he] at h
    rcases stateMtdPebErase_cases he with ⟨rfl, halive, rfl, rfl⟩ | ⟨rfl, rfl, rfl⟩ | ⟨ok, rfl, htr, rfl⟩
    · simp only [ne_eq, not_true_eq_false, if_false] at h
      have hroom : Room c n env.trace _ _ := Room.erased (by omega)
      obtain ⟨hret, ⟨k, hk, hfull⟩, htr⟩ := bucketCircularAppend_cases (by rw [hrec]; exact hroom.hasRoom hc) h
      rw [hrec] at hfull
      refine .inr (.inr ⟨n, _, _, k, rfl, by omega, by omega, hroom, hk, hret,
        fun hh => hfull (hh.log (.erase true)).pop, ?_⟩)
      rw [htr, hrec]
      simp [Env.request, halive]
    · simp only [ne_eq, Int.reduceNeg, neg_eq_zero, one_ne_zero, not_false_eq_true, if_true,
        Prod.mk.injEq] at h
      obtain ⟨rfl, rfl, rfl⟩ := h
      exact .inl ⟨by omega, rfl, .inr rfl⟩
    · simp only [ne_eq, Int.reduceNeg, neg_eq_zero, one_ne_zero, not_false_eq_true, if_true,
        Prod.mk.injEq] at h
      obtain ⟨rfl, rfl, rfl⟩ := h
      exact .inr (.inl ⟨ok, by omega, htr, rfl⟩)
  · rw [hw, if_neg h0] at h
    have hroom : Room c n env.trace _ _ := Room.behind h0 hlt
    obtain ⟨hret, ⟨k, hk, hfull⟩, htr⟩ := bucketCircularAppend_cases (by rw [hrec]; exact hroom.hasRoom hc) h
    rw [hrec] at hfull
    refine .inr (.inr ⟨n, _, _, k, rfl, by omega, by omega, hroom, hk, hret, hfull, ?_⟩)
    rw [htr, hrec, Env.request]

/-- With a device that does what it is asked a record that fits is written. -/
theorem bucketCircularWrite_clean {env : Env} {c : BucketCircular} {buf : Bytes} (henv : env.Clean) (hc : Ready c)
    (hfit : roundup (buf.length + 8) c.geo.writesize ≤ c.geo.erasesize) :
    ∃ env' b t, env'.Clean ∧ Room c (roundup (buf.length + 8) c.geo.writesize) env.trace b t ∧
      bucketCircularWrite env c buf = (env', b.append (circularRecord buf (roundup (buf.length + 8) c.geo.writesize))
        (roundup (buf.length + 8) c.geo.writesize), 0) := by
  have hle := le_roundup (x := buf.length + 8) c.geo.writesize_pos
  have hn : circularWrittenLength c.geo buf.length = roundup (buf.length + 8) c.geo.writesize := by
    rw [circularWrittenLength, circularMetaSize, Nat.mod_eq_of_lt]
    have := hc.int
    omega
  simp only [bucketCircularWrite, circularMetaSize, hn]
  generalize roundup (buf.length + 8) c.geo.writesize = n at *
  rw [show (if c.geo.erasesize ≤ c.writeArea + n then { c with writeArea := 0 } else c) = c.wrap n from rfl,
    if_neg (by omega), if_neg (by omega)]
  have hrec : (circularRecord buf n).length = n := circularRecord_length (by omega)
  rcases c.wrap_cases n with ⟨h0, hw⟩ | ⟨h0, hlt, hw⟩
  · have hroom : Room c n env.trace _ _ := Room.erased (by omega)
    rw [if_pos h0, hw, stateMtdPebErase_clean henv]
    simp only [ne_eq, not_true_eq_false, if_false]
    have hb := hroom.hasRoom hc
    rw [← hrec] at hb
    obtain ⟨env', henv', h⟩ := bucketCircularAppend_clean (henv.log _).pop hb
    rw [hrec] at h
    exact ⟨env', _, _, henv', hroom, h⟩
  · have hroom : Room c n env.trace _ _ := Room.behind h0 hlt
    rw [hw, if_neg h0]
    have hb := hroom.hasRoom hc
    rw [← hrec] at hb
    obtain ⟨env', henv', h⟩ := bucketCircularAppend_clean henv hb
    rw [hrec] at h
    exact ⟨env', _, _, henv', hroom, h⟩

/-- The bucket stays in order through any write. -/
theorem bucketCircularWrite_ready {env env' : Env} {c c' : BucketCircular} {buf : Bytes} {ret : Int} (hc : Ready c)
    (h : bucketCircularWrite env c buf = (env', c', ret)) : Ready c' ∧ c'.geo = c.geo := by
  obtain ⟨-, -, rfl | rfl⟩ | ⟨ok, -, -, rfl⟩ | ⟨n, b, t, k, hn, hlen, hle, hroom, rfl, -, -, -⟩ :=
    bucketCircularWrite_cases hc h
  · exact ⟨hc, rfl⟩
  · exact ⟨hc.reset, rfl⟩
  · refine ⟨⟨?_, hc.int, Nat.dvd_zero _, Nat.zero_le _, .inl rfl⟩, rfl⟩
    cases ok
    · exact hc.length
    · simp
  · have hb := hroom.hasRoom hc
    have hbl := hb.length
    have hble := hb.le
    have hgeo := hroom.same.1
    have hrec : (circularRecord buf n).length = n := circularRecord_length hlen
    have hdn : b.geo.writesize ∣ n := by
      rw [hgeo, hn, circularWrittenLength_eq (by omega)]
      exact dvd_roundup _ _
    refine ⟨⟨?_, hb.int, ?_, ?_, .inr ?_⟩, hgeo⟩
    · rw [BucketCircular.append, splice_length (by simp only [List.length_take]; omega)]
      exact hbl
    · simpa [BucketCircular.append, hrec] using Nat.dvd_add hb.dvd hdn
    · simpa [BucketCircular.append, hrec] using hble
    · simp only [BucketCircular.append, hrec]
      rw [drop_splice (by omega) (by simp only [List.length_take]; omega)]
      have := hb.free.drop n
      rwa [List.drop_drop] at this

/-! ## The last record -/

/-- The block ends in a record of the payload `p`, but for erased bytes. -/
structure Stored (g : Geometry) (p block : Bytes) : Prop where
  length : block.length = g.erasesize
  int : g.erasesize < 2 ^ 31
  record : ∃ front free, block = front ++ circularRecord p (roundup (p.length + 8) g.writesize) ++ free ∧
    g.writesize ∣ front.length ∧ AllFf free

theorem recordLength_ge (g : Geometry) (p : Bytes) : p.length + 8 ≤ roundup (p.length + 8) g.writesize :=
  le_roundup g.writesize_pos

/-- The metadata of a record, where the scan looks for it. -/
theorem circularRecord_meta {p : Bytes} {n : Nat} (h : p.length + 8 ≤ n) :
    slice (n - 8) 4 (circularRecord p n) = leBytes 4 circularMagic ∧
      slice (n - 4) 4 (circularRecord p n) = leBytes 4 n := by
  have hz : (p ++ List.replicate (n - circularMetaSize - p.length) (0 : UInt8)).length = n - 8 := by
    simp [circularMetaSize]; omega
  rw [circularRecord, circularMeta]
  constructor
  · rw [slice_append_right (by omega), hz, Nat.sub_self, slice_append_left (by simp), slice_zero_left,
      List.take_of_length_le (by simp)]
  · rw [slice_append_right (by omega), hz, slice_append_right (by simp; omega), leBytes_length,
      show n - 4 - (n - 8) - 4 = 0 by omega, slice_zero_left, List.take_of_length_le (by simp)]

theorem Stored.usedEnd {g : Geometry} {p front free : Bytes} {n : Nat} (hn : n = roundup (p.length + 8) g.writesize)
    (hlen : (front ++ circularRecord p n ++ free).length = g.erasesize) (hd : g.writesize ∣ front.length)
    (hff : AllFf free) :
    DtUtils.usedEnd g.writesize (front ++ circularRecord p n ++ free) = front.length + n := by
  have hpn : p.length + 8 ≤ n := hn ▸ recordLength_ge g p
  have hrec : (circularRecord p n).length = n := circularRecord_length hpn
  have hdn : g.writesize ∣ n := hn ▸ dvd_roundup _ _
  have h8 := g.le_writesize
  have hle : g.writesize ≤ n := Nat.le_of_dvd (by omega) hdn
  simp only [List.length_append, hrec] at hlen
  refine usedEnd_unique g.writesize_pos (by simp only [List.length_append, hrec, hlen]; exact g.dvd)
    (Nat.dvd_add hd hdn) (by simp [hrec]) ?_ (.inr ?_)
  · rw [List.drop_left' (by simp [hrec])]; exact hff
  · -- The last page holds the magic.
    intro hlast
    have hmagic : slice (g.writesize - 8) 4 (slice (front.length + n - g.writesize) g.writesize
        (front ++ circularRecord p n ++ free)) = leBytes 4 circularMagic := by
      rw [slice_slice (by omega), slice_append_left (by simp [hrec]; omega), slice_append_right (by omega),
        ← (circularRecord_meta hpn).1]
      congr 1
      omega
    have := hlast.slice (g.writesize - 8) 4
    rw [hmagic] at this
    revert this
    decide

theorem Stored.payload {g : Geometry} {p block : Bytes} (h : Stored g p block) :
    circularPayload g block =
      some (p ++ List.replicate (roundup (p.length + 8) g.writesize - 8 - p.length) 0) := by
  obtain ⟨hlen, hint, front, free, rfl, hd, hff⟩ := h
  generalize hn : roundup (p.length + 8) g.writesize = n at *
  have he := Stored.usedEnd hn.symm hlen hd hff
  have hpn : p.length + 8 ≤ n := hn ▸ recordLength_ge g p
  have hrec : (circularRecord p n).length = n := circularRecord_length hpn
  have hdn : g.writesize ∣ n := hn ▸ dvd_roundup _ _
  simp only [List.length_append, hrec] at hlen
  obtain ⟨hm, hl⟩ := circularRecord_meta hpn
  have hword : lengthWord (front.length + n) (front ++ circularRecord p n ++ free) = n := by
    have h1 : slice (front.length + n - 8) 4 (front ++ circularRecord p n ++ free) = leBytes 4 circularMagic := by
      rw [slice_append_left (by simp [hrec]; omega), slice_append_right (by omega), ← hm]
      congr 1; omega
    have h2 : slice (front.length + n - 4) 4 (front ++ circularRecord p n ++ free) = leBytes 4 n := by
      rw [slice_append_left (by simp [hrec]; omega), slice_append_right (by omega), ← hl]
      congr 1; omega
    rw [lengthWord, h1, h2, if_pos (by decide), leNat_leBytes_of_lt (by omega)]
  have h0 : front.length + n ≠ 0 := by omega
  have hv : ¬ (front.length + n < n ∨ n % g.writesize ≠ 0) := by
    simp only [not_or, not_lt, ne_eq, not_not]
    exact ⟨by omega, Nat.mod_eq_zero_of_dvd hdn⟩
  simp only [circularPayload, BucketCircular.scanned, BucketCircular.readable, he, hword, if_neg h0]
  rw [if_neg (by omega), if_neg hv, Nat.add_sub_cancel, slice_append_left (by simp [hrec]),
    slice_append_right (le_refl _), Nat.sub_self, slice_zero_left, circularRecord,
    List.take_left' (by simp [circularMetaSize]; omega)]
  rfl

theorem Stored.append {b : BucketCircular} {p : Bytes} {n : Nat} (hn : n = roundup (p.length + 8) b.geo.writesize)
    (hb : HasRoom b n) : Stored b.geo p (b.append (circularRecord p n) n).block := by
  have hrec : (circularRecord p n).length = n := circularRecord_length (hn ▸ recordLength_ge b.geo p)
  have hlen := hb.length
  have hle := hb.le
  refine ⟨?_, hb.int, b.block.take b.writeArea, b.block.drop (b.writeArea + n), ?_, ?_, ?_⟩
  · rw [BucketCircular.append, List.take_of_length_le (by omega), splice_length (by omega), hlen]
  · rw [BucketCircular.append, List.take_of_length_le (by omega), splice, hrec, hn]
  · rw [List.length_take, Nat.min_eq_left (by omega)]; exact hb.dvd
  · have := hb.free.drop n
    rwa [List.drop_drop] at this

end DtUtils
