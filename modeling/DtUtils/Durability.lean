/-
What a save is worth when some bucket writes fail. A `Cell` is a bucket seen
from outside: what a read of it delivers, and what becomes of a write to it.

A failed write that leaves the old payload intact in front of the first
bucket that was written makes the next load go back to the old payload
(`save_durable_iff`): a save counts as done as soon as one bucket was
written, but a load takes the first bucket that verifies.
-/
import DtUtils.StorageFacts
import DtUtils.FormatRawFacts

namespace DtUtils
open Lib

/-- What becomes of a write to a bucket. -/
inductive Fate
  /-- It succeeds; reads deliver the payload and some padding. -/
  | written (pad : Bytes)
  /-- It fails and leaves the contents as they are. -/
  | failed (err : Nat)
  /-- It fails and leaves these contents, if anything that can be read. -/
  | torn (err : Nat) (contents : Option Bytes)
deriving DecidableEq

structure Cell where
  contents : Option Bytes
  fate : Fate
deriving DecidableEq

def cellDriver : Driver Cell where
  read env c :=
    match c.contents with
    | none => (env, c, - EIO, none)
    | some p => (env, c, 0, some (p, p.length))
  write env c buf :=
    match c.fate with
    | .written pad => (env, { c with contents := some (buf ++ pad) }, 0)
    | .failed err => (env, c, -(err + 1 : Int))
    | .torn err t => (env, { c with contents := t }, -(err + 1 : Int))

/-- A cell's contents after a write. -/
def Cell.after (c : Cell) (buf : Bytes) : Option Bytes :=
  match c.fate with
  | .written pad => some (buf ++ pad)
  | .failed _ => c.contents
  | .torn _ t => t

/-- A packed payload: it is accepted whatever padding follows, and `n` of its
bytes are passed on. -/
structure Valid (check : Bytes → Int × Int) (p : Bytes) (n : Nat) : Prop where
  le : n ≤ p.length
  accepted : ∀ pad, check (p ++ pad) = (0, (n : Int))

/-- Whether the first bucket that is not torn was written. -/
def firstIntact : List Cell → Option Bool
  | [] => none
  | c :: cells =>
    match c.fate with
    | .written _ => some true
    | .failed _ => some false
    | .torn _ _ => firstIntact cells

section
variable {F : Type} (verify : Verify F) (f : F) (env : Env)

/-- A load in a fresh process returns the `n` bytes that `new` passes on,
and rewrites no bucket that holds `new`. -/
def ReturnsNew (new : Bytes) (n : Nat) (cells : List Cell) : Prop :=
  let r := stateStorageRead cellDriver verify env f (.fresh false cells)
  r.ret = 0 ∧ r.buf.take r.len.toNat = new.take n ∧
    List.Forall₂ (fun c repair => (∃ pad, c.contents = some (new ++ pad)) → repair = none) cells r.repairs

end

section
variable {F : Type} {verify : Verify F} {P : F → Prop} {check : Bytes → Int × Int}

theorem Valid.passedOn {p : Bytes} {n : Nat} (h : Valid check p n) (pad : Bytes) :
    DtUtils.passedOn check (p ++ pad) = p.take n := by
  simp only [DtUtils.passedOn, h.accepted, Int.toNat_natCast]
  rw [List.take_append_of_le_length h.le]

/-- A bucket that holds a payload does not differ from what it passes on. -/
theorem Valid.not_differs {p : Bytes} {n : Nat} (h : Valid check p n) (pad : Bytes) :
    ¬ differs check (p.take n) (some (p ++ pad, false)) := by
  have hl : (p.take n).length = n := by simp [h.le]
  simp only [differs, h.accepted, hl, Bool.false_eq_true, ne_eq, not_true_eq_false, false_or, not_not]
  exact List.take_append_of_le_length h.le

theorem cellDriver_read (env : Env) (c : Cell) : (cellDriver.read env c).1 = env ∧
    Fetch.Of (c.contents.map (·, false)) (cellDriver.read env c).2.2.1 (cellDriver.read env c).2.2.2 := by
  simp only [cellDriver]
  cases c.contents with
  | none => exact ⟨rfl, by simp [ EIO], by simp [ EIO, EUCLEAN], rfl⟩
  | some q => exact ⟨rfl, rfl, .inr ⟨q, rfl, by simp⟩⟩

/-- The return values of the writes tell which cells were written. -/
theorem cellDriver_write (env : Env) (c : Cell) (buf : Bytes) :
    (cellDriver.write env c buf).1 = env ∧ (cellDriver.write env c buf).2.1.contents = c.after buf ∧
      (0 ≤ (cellDriver.write env c buf).2.2 ↔ ∃ pad, c.fate = .written pad) := by
  simp only [cellDriver, Cell.after]
  cases c.fate with
  | written pad => exact ⟨rfl, rfl, by simp⟩
  | failed err => exact ⟨rfl, rfl, by simp; omega⟩
  | torn err t => exact ⟨rfl, rfl, by simp; omega⟩

theorem sweep_writeBucket (env : Env) (buf : Bytes) (cells : List Cell) :
    ∃ r, sweep (writeBucket cellDriver buf) env (cells.map fun c => { priv := c }) = (env, r) ∧
      r.map (fun x => x.1.priv.contents) = cells.map (fun c => c.after buf) ∧
      (1 ≤ ((r.map Prod.snd).filter (0 ≤ ·)).length ↔ ∃ c ∈ cells, ∃ pad, c.fate = .written pad) := by
  induction cells with
  | nil => exact ⟨[], rfl, rfl, by simp⟩
  | cons c cells ih =>
    obtain ⟨r, hs, hcont, hcount⟩ := ih
    obtain ⟨henv, hafter, hret⟩ := cellDriver_write env c buf
    rcases hw : cellDriver.write env c buf with ⟨env', c', ret⟩
    rw [hw] at henv hafter hret
    simp only at henv hafter hret
    subst henv
    refine ⟨({ priv := c' }, ret) :: r, ?_, ?_, ?_⟩
    · rw [List.map_cons, sweep_cons]
      simp only [writeBucket, hw, hs]
    · rw [List.map_cons, List.map_cons, hcont, hafter]
    · by_cases h0 : 0 ≤ ret
      · simp only [List.map_cons, List.filter_cons, h0, decide_true, if_true, List.length_cons]
        exact ⟨fun _ => ⟨c, by simp, hret.1 h0⟩, fun _ => by omega⟩
      · simp only [List.map_cons, List.filter_cons, h0, decide_false, Bool.false_eq_true, if_false, hcount]
        constructor
        · rintro ⟨c₁, hc₁, hpad⟩
          exact ⟨c₁, by simp [hc₁], hpad⟩
        · rintro ⟨c₁, hc₁, hpad⟩
          rcases List.mem_cons.1 hc₁ with rfl | hc₁
          · exact absurd (hret.2 hpad) h0
          · exact ⟨c₁, hc₁, hpad⟩

theorem save_cells {env env' : Env} {cells : List Cell} {s' : Storage Cell} {new : Bytes} {rets : List Int}
    (h : stateStorageWrite cellDriver env (.fresh false cells) new = (env', s', 0, rets)) :
    s'.buckets.map (fun b => b.priv.contents) = cells.map (fun c => c.after new) ∧
      ∃ c ∈ cells, ∃ pad, c.fate = .written pad := by
  obtain ⟨r, hs, hcont, hcount⟩ := sweep_writeBucket env new cells
  simp only [stateStorageWrite, Storage.fresh, Bool.false_eq_true, if_false, hs, minBucketsWritten, Prod.mk.injEq] at h
  obtain ⟨-, rfl, hret, -⟩ := h
  refine ⟨?_, ?_⟩
  · rw [← hcont]; simp
  · rw [← hcount]
    by_contra hne
    rw [if_neg hne] at hret
    simp [ EIO] at hret

/-- The bytes that are used after a save, by the first cell that is not torn. -/
theorem chosen_after {old new : Bytes} {n₀ n : Nat} (hold : Valid check old n₀) (hnew : Valid check new n)
    {cells : List Cell} (hall : ∀ c ∈ cells, ∃ pad, c.contents = some (old ++ pad))
    (htorn : ∀ c ∈ cells, ∀ err t, c.fate = .torn err (some t) → (check t).1 ≠ 0) :
    match firstIntact cells with
    | none => True
    | some true => ∃ pad, chosen check (cells.map fun c => (c.after new).map (·, false)) = some (new ++ pad)
    | some false => ∃ pad, chosen check (cells.map fun c => (c.after new).map (·, false)) = some (old ++ pad) := by
  induction cells with
  | nil => trivial
  | cons c cells ih =>
    obtain ⟨pad₀, hc⟩ := hall c (by simp)
    have htc := htorn c (by simp)
    rw [List.map_cons]
    simp only [firstIntact, Cell.after]
    cases hfate : c.fate with
    | written pad => exact ⟨pad, by simp [chosen, hnew.accepted]⟩
    | failed err => exact ⟨pad₀, by simp [chosen, hc, hold.accepted]⟩
    | torn err t =>
      have hskip : ∀ xs, chosen check (Option.map (·, false) t :: xs) = chosen check xs := by
        intro xs
        cases t with
        | none => rfl
        | some t => simp [chosen, htc err t hfate]
      simp only [hskip]
      exact ih (fun c hc => hall c (by simp [hc])) (fun c hc => htorn c (by simp [hc]))

theorem firstIntact_some {cells : List Cell} (h : ∃ c ∈ cells, ∃ pad, c.fate = .written pad) :
    ∃ b, firstIntact cells = some b := by
  induction cells with
  | nil => obtain ⟨c, hc, -⟩ := h; cases hc
  | cons c cells ih =>
    simp only [firstIntact]
    cases hfate : c.fate with
    | written => exact ⟨true, rfl⟩
    | failed => exact ⟨false, rfl⟩
    | torn =>
      refine ih ?_
      obtain ⟨c', hc', pad, hpad⟩ := h
      rcases List.mem_cons.1 hc' with rfl | hc'
      · rw [hfate] at hpad; cases hpad
      · exact ⟨c', hc', pad, hpad⟩

/-- A load from cells: it uses what `chosen` says, and rewrites what differs. -/
theorem load_cells (hj : Judges verify P check) {f : F} (hf : P f) {env : Env} (henv : env.alive = true)
    {cells : List Cell} {p : Bytes} (hp : chosen check (cells.map fun c => c.contents.map (·, false)) = some p) :
    let r := stateStorageRead cellDriver verify env f (.fresh false cells)
    r.ret = 0 ∧ r.buf.take r.len.toNat = passedOn check p ∧
      List.Forall₂ (fun c repair => ¬ differs check (passedOn check p) (c.contents.map (·, false)) → repair = none)
        cells r.repairs := by
  have hread : ∀ env, ∀ c ∈ cells, env.alive = true → (cellDriver.read env c).1.alive = true ∧
      ∃ x : Fetch, x.Of (cellDriver.read env c).2.2.1 (cellDriver.read env c).2.2.2 ∧
        x = c.contents.map (·, false) := by
    intro env c _ halive
    obtain ⟨henv, hof⟩ := cellDriver_read env c
    exact ⟨by rw [henv]; exact halive, _, hof, rfl⟩
  obtain ⟨-, -, hload⟩ := stateStorageRead_loaded (L := fun (c : Cell) x _ => x = c.contents.map (·, false)) hj
    (fun _ h => h) hread (fun _ _ _ env c _ c' halive _ => by rw [(cellDriver_write env c' _).1]; exact halive)
    henv hf false
  cases hload with
  | none ms hms hL hc =>
    have : ms.map (fun m => m.2.1) = cells.map fun c => c.contents.map (·, false) := by
      rw [hms, List.map_map]
      exact List.map_congr_left hL
    rw [this, hp] at hc
    cases hc
  | some ms q hms hc hm hret hbuf _ _ hrep =>
    have hfetch : ms.map Mend.fetch = cells.map fun c => c.contents.map (·, false) := by
      rw [hms, List.map_map]
      refine List.map_congr_left fun m hmem => ?_
      cases hm m hmem with
      | same h => exact h
      | rewritten h => exact h
    rw [hfetch, hp] at hc
    cases hc
    refine ⟨hret, hbuf, ?_⟩
    rw [hrep, hms]
    refine List.forall₂_map_left_iff.2 (List.forall₂_map_right_iff.2 (List.forall₂_same.2 fun m hmem => ?_))
    cases hm m hmem with
    | same => exact fun _ => rfl
    | rewritten h hd => rw [h] at hd; exact fun hn => absurd hd hn

/-- **Durability of a save**: after a save that reports success a fresh
process loads the new payload exactly if the first bucket that is not torn was
written, or the two payloads pass on the same bytes. -/
theorem save_durable_iff (hj : Judges verify P check) {f : F} (hf : P f) {env₁ env₁' env₂ : Env}
    (henv : env₂.alive = true) {old new : Bytes} {n₀ n : Nat} (hold : Valid check old n₀) (hnew : Valid check new n)
    {cells again : List Cell} {s' : Storage Cell} {rets : List Int}
    (hall : ∀ c ∈ cells, ∃ pad, c.contents = some (old ++ pad))
    (htorn : ∀ c ∈ cells, ∀ err t, c.fate = .torn err (some t) → (check t).1 ≠ 0)
    (hsave : stateStorageWrite cellDriver env₁ (.fresh false cells) new = (env₁', s', 0, rets))
    (hagain : again.map Cell.contents = s'.buckets.map fun b => b.priv.contents) :
    ReturnsNew verify f env₂ new n again ↔ firstIntact cells ≠ some false ∨ old.take n₀ = new.take n := by
  obtain ⟨hcont, hwritten⟩ := save_cells hsave
  have hx : (again.map fun c => c.contents.map (·, false)) = cells.map fun c => (c.after new).map (·, false) := by
    have h := congrArg (List.map (Option.map fun p : Bytes => (p, false))) (hagain.trans hcont)
    simpa [Function.comp_def] using h
  have hch := chosen_after hold hnew hall htorn
  rw [← hx] at hch
  obtain ⟨b, hb⟩ := firstIntact_some hwritten
  rw [hb] at hch ⊢
  -- A load that passes on the new payload's bytes leaves the buckets that hold it alone.
  have hreturns : ∀ q, chosen check (again.map fun c => c.contents.map (·, false)) = some q →
      passedOn check q = new.take n → ReturnsNew verify f env₂ new n again := by
    intro q hq hpass
    obtain ⟨hret, hbuf, hrep⟩ := load_cells hj hf henv hq
    rw [hpass] at hbuf hrep
    refine ⟨hret, hbuf, hrep.imp fun c repair h hnew' => ?_⟩
    obtain ⟨pad, hpad⟩ := hnew'
    rw [hpad] at h
    exact h (hnew.not_differs pad)
  cases b with
  | true =>
    obtain ⟨pad, hch⟩ := hch
    exact ⟨fun _ => .inl (by decide), fun _ => hreturns _ hch (hnew.passedOn pad)⟩
  | false =>
    obtain ⟨pad, hch⟩ := hch
    constructor
    · rintro ⟨-, hbuf, -⟩
      obtain ⟨-, hbuf', -⟩ := load_cells hj hf henv hch
      rw [hold.passedOn] at hbuf'
      exact .inr (hbuf'.symm.trans hbuf)
    · rintro (h | h)
      · exact absurd rfl h
      · exact hreturns _ hch ((hold.passedOn pad).trans h)

end

/-! ## With the raw format -/

theorem RawAccepted.valid {magic : UInt32} {noAuth : Bool} {algo : Option (Option Digest)} {d : Option Digest}
    {p : Bytes}
    {n : Nat} (hauth : effectiveAuth noAuth algo = .ok d) (h : RawAccepted magic d p n) :
    Valid (rawCheck magic (effectiveAuth noAuth algo)) p n where
  le := h.le
  accepted pad := (rawCheck_eq_zero effectiveAuth_error).2 ⟨d, n, hauth, rfl, h.append pad⟩

/-- A state with one `uint8` variable, packed. -/
def flagPayload (v : UInt8) : Bytes :=
  let header := rawPackHeader 1 1 [v]
  header.bytes ++ [v]

theorem flagPayload_accepted : RawAccepted 1 none (flagPayload 0) 17 ∧ RawAccepted 1 none (flagPayload 1) 17 := by
  refine ⟨⟨?_, ?_, ?_, ?_, ?_, ?_, ?_⟩, ⟨?_, ?_, ?_, ?_, ?_, ?_, ?_⟩⟩ <;> decide +kernel

/-- Both cells hold the old flag; the first write fails and leaves it there. -/
def flagCells : List Cell := [⟨some (flagPayload 0), .failed 0⟩, ⟨some (flagPayload 0), .written []⟩]

/-- The save reports success, the next load returns the old flag and writes it
over the new one. -/
theorem save_not_durable :
    let saved := stateStorageWrite cellDriver .ok (.fresh false flagCells) (flagPayload 1)
    let again := saved.2.1.buckets.map fun b => b.priv
    let r := stateStorageRead cellDriver (backendFormatRawVerify 1 false) .ok (backendFormatRawCreate none)
      (.fresh false again)
    saved.2.2.1 = 0 ∧ again.map Cell.contents = [some (flagPayload 0), some (flagPayload 1)] ∧
      r.ret = 0 ∧ r.buf = flagPayload 0 ∧ r.repairs = [none, some 0] ∧
      ¬ ReturnsNew (backendFormatRawVerify 1 false) (backendFormatRawCreate none) .ok (flagPayload 1) 17 again := by
  refine ⟨by decide +kernel, by decide +kernel, by decide +kernel, by decide +kernel, by decide +kernel, ?_⟩
  rintro ⟨-, hbuf, -⟩
  revert hbuf
  decide +kernel

/-- With the two fates the other way round the new flag is loaded. -/
theorem save_durable_flag :
    ReturnsNew (backendFormatRawVerify 1 false) (backendFormatRawCreate none) .ok (flagPayload 1) 17
      [⟨some (flagPayload 1), .written []⟩, ⟨some (flagPayload 0), .failed 0⟩] := by
  have hauth : effectiveAuth false none = .ok none := rfl
  have hsave : stateStorageWrite cellDriver .ok (.fresh false flagCells.reverse) (flagPayload 1) =
      (_, _, 0, _) := rfl
  refine (save_durable_iff (raw_judges 1 false none) rfl rfl (flagPayload_accepted.1.valid hauth)
    (flagPayload_accepted.2.valid hauth) ?_ ?_ hsave rfl).2 (.inl (by decide))
  · intro c hc
    simp only [flagCells, List.reverse_cons, List.reverse_nil, List.nil_append, List.cons_append, List.mem_cons,
      List.not_mem_nil, or_false] at hc
    rcases hc with rfl | rfl <;> exact ⟨[], by simp⟩
  · intro c hc err t ht
    simp only [flagCells, List.reverse_cons, List.reverse_nil, List.nil_append, List.cons_append, List.mem_cons,
      List.not_mem_nil, or_false] at hc
    rcases hc with rfl | rfl <;> cases ht

end DtUtils
