/-
What the drivers take from `dt/common.h` and the C library: error numbers,
`int` conversion, `roundup`, `mtd_buf_all_ff`, and the two transfer loops
`read_full` and `write_full` with the device behind them.

A device answers requests out of a list of `Fault`s, one for each request
(and faultlessly once the list is used up). A power loss stops the process:
nothing it does afterwards reaches the device (`Env.alive`). A memory fault
(an access outside an object) stops it the same way. Every request is logged
in `Env.trace`, newest first, with what a flash discipline has to know of it.
-/
import DtUtils.Lib.Words
import DtUtils.Lib.Splice

namespace DtUtils
open Lib

def EPERM : Int := 1
def ENOENT : Int := 2
def EIO : Int := 5
def E2BIG : Int := 7
def EFAULT : Int := 14
def ENODEV : Int := 19
def EINVAL : Int := 22
def ENOSPC : Int := 28
def ESPIPE : Int := 29
def ERANGE : Int := 34
def ENODATA : Int := 61
def EOVERFLOW : Int := 75
def EILSEQ : Int := 84
def EUCLEAN : Int := 117

/-- Conversion to `int`. -/
@[irreducible] def cInt (x : Int) : Int := Int.bmod x (2 ^ 32)

theorem cInt_of_lt {x : Int} (h₀ : 0 ≤ x) (h₁ : x < 2 ^ 31) : cInt x = x := by
  unfold cInt
  simp only [Int.bmod]
  omega

theorem cInt_neg {x : Int} (h₀ : 2 ^ 31 ≤ x) (h₁ : x < 2 ^ 32) : cInt x < 0 := by
  unfold cInt
  simp only [Int.bmod]
  omega

theorem cInt_neg_one : cInt (-1) = -1 := by decide +kernel

theorem cInt_nat {n : Nat} (h : n < 2 ^ 31) : cInt n = n := cInt_of_lt (by omega) (by omega)

theorem cInt_le {n : Nat} : cInt n ≤ n := by
  unfold cInt
  simp only [Int.bmod]
  omega

/-- A length that an `int` does not hold turns out smaller. -/
theorem cInt_lt_of_le {n : Nat} (h : 2 ^ 31 ≤ n) : cInt n < n ∧ cInt n < 2 ^ 31 := by
  unfold cInt
  simp only [Int.bmod]
  omega

theorem cInt_nonneg {n : Nat} (h : n < 2 ^ 32) (h0 : 0 ≤ cInt n) : n < 2 ^ 31 := by
  by_contra hge
  have := @cInt_neg n (by omega) (by omega)
  omega

/-- `roundup` of `sys/param.h`. -/
def roundup (x y : Nat) : Nat := (x + (y - 1)) / y * y

theorem dvd_roundup (x y : Nat) : y ∣ roundup x y := Nat.dvd_mul_left _ _

theorem le_roundup {x y : Nat} (hy : 0 < y) : x ≤ roundup x y := by
  have h := Nat.div_add_mod (x + (y - 1)) y
  have hm := Nat.mod_lt (x + (y - 1)) hy
  rw [Nat.mul_comm] at h
  simp only [roundup]
  omega

theorem roundup_lt {x y : Nat} (hy : 0 < y) : roundup x y < x + y := by
  have h := Nat.div_add_mod (x + (y - 1)) y
  rw [Nat.mul_comm] at h
  simp only [roundup]
  omega

/-! ## Erased bytes -/

/-- Every byte is `0xff`: erased flash. -/
def AllFf (bs : Bytes) : Prop := ∀ b ∈ bs, b = 0xff

instance (bs : Bytes) : Decidable (AllFf bs) := inferInstanceAs (Decidable (∀ b ∈ bs, b = 0xff))

@[simp] theorem AllFf.nil : AllFf [] := by simp [AllFf]

@[simp] theorem AllFf.append {a b : Bytes} : AllFf (a ++ b) ↔ AllFf a ∧ AllFf b := by
  simp [AllFf, or_imp, forall_and]

@[simp] theorem AllFf.cons {x : UInt8} {a : Bytes} : AllFf (x :: a) ↔ x = 0xff ∧ AllFf a := by
  simp [AllFf]

@[simp] theorem AllFf.replicate (n : Nat) : AllFf (List.replicate n 0xff) := by
  intro b hb; exact (List.mem_replicate.1 hb).2

theorem AllFf.drop {a : Bytes} (h : AllFf a) (n : Nat) : AllFf (a.drop n) :=
  fun b hb => h b (List.mem_of_mem_drop hb)

theorem AllFf.take {a : Bytes} (h : AllFf a) (n : Nat) : AllFf (a.take n) :=
  fun b hb => h b (List.mem_of_mem_take hb)

theorem AllFf.slice {a : Bytes} (h : AllFf a) (off n : Nat) : AllFf (slice off n a) :=
  (h.drop off).take n

/-- The last loop of `mtd_buf_all_ff`: the bytes behind the last whole word.
`none` is a read outside the buffer. -/
def mtdBufAllFfTail : Bytes → Nat → Option Bool
  | _, 0 => some true
  | [], _ + 1 => none
  | b :: bs, len + 1 => if b ≠ 0xff then some false else mtdBufAllFfTail bs len

/-- The second loop: whole words. `len` is an `unsigned int`. -/
def mtdBufAllFfWords : Bytes → Nat → Option Bool
  | a :: b :: c :: d :: buf, len =>
    if len ≤ 3 then mtdBufAllFfTail (a :: b :: c :: d :: buf) len
    else if leNat [a, b, c, d] ≠ 0xffffffff then some false
    else
      let len := (len + (2 ^ 32 - 4)) % 2 ^ 32
      if len = 0 then some true else mtdBufAllFfWords buf len
  | buf, len => if len ≤ 3 then mtdBufAllFfTail buf len else none

/-- `mtd_buf_all_ff` on the buffer `buf` at address `addr`; `len` is an
`unsigned int`. The first loop runs to the next word boundary. -/
def mtdBufAllFf (addr : Nat) : Bytes → Nat → Option Bool
  | [], len => if addr % 4 = 0 then mtdBufAllFfWords [] len else none
  | b :: buf, len =>
    if addr % 4 = 0 then mtdBufAllFfWords (b :: buf) len
    else if b ≠ 0xff then some false
    else
      let len := (len + (2 ^ 32 - 1)) % 2 ^ 32
      if len = 0 then some true else mtdBufAllFf (addr + 1) buf len

theorem mtdBufAllFfTail_eq : ∀ {buf : Bytes} {len : Nat}, len ≤ buf.length →
    mtdBufAllFfTail buf len = some (decide (AllFf (buf.take len)))
  | [], 0, _ => by simp [mtdBufAllFfTail]
  | b :: bs, 0, _ => by simp [mtdBufAllFfTail]
  | [], len + 1, h => by simp at h
  | b :: bs, len + 1, h => by
    simp only [mtdBufAllFfTail, List.take_succ_cons, AllFf.cons]
    by_cases hb : b = 0xff
    · rw [if_neg (by simp [hb]), mtdBufAllFfTail_eq (by simpa using h)]
      simp [hb]
    · simp [hb]

theorem leNat_ff_iff {bs : Bytes} : leNat bs = 256 ^ bs.length - 1 ↔ AllFf bs := by
  induction bs with
  | nil => simp [leNat]
  | cons b bs ih =>
    have hb : b.toNat < 256 := b.toNat_lt
    have hl := leNat_lt bs
    have hff : b = 0xff ↔ b.toNat = 255 := by rw [← UInt8.toNat_inj]; rfl
    rw [AllFf.cons, ← ih, hff, leNat, List.length_cons, pow_succ]
    omega

theorem mtdBufAllFfWords_eq : ∀ {buf : Bytes} {len : Nat}, len ≤ buf.length → len < 2 ^ 32 →
    mtdBufAllFfWords buf len = some (decide (AllFf (buf.take len)))
  | a :: b :: c :: d :: buf, len, h, hlt => by
    rw [mtdBufAllFfWords]
    split
    · exact mtdBufAllFfTail_eq h
    next hgt =>
    obtain ⟨n, rfl⟩ : ∃ n, len = n + 4 := ⟨len - 4, by omega⟩
    have hn : (n + 4 + (2 ^ 32 - 4)) % 2 ^ 32 = n := by omega
    have hw : leNat [a, b, c, d] = 256 ^ [a, b, c, d].length - 1 ↔ _ := leNat_ff_iff
    simp only [List.length_cons, List.length_nil] at hw h
    have htake : (a :: b :: c :: d :: buf).take (n + 4) = [a, b, c, d] ++ buf.take n := rfl
    rw [htake]
    simp only [hn, AllFf.append, ne_eq]
    by_cases hf : AllFf [a, b, c, d]
    · rw [if_neg (by simpa using hw.2 hf)]
      split
      · next h0 => subst h0; simpa using hf
      · rw [mtdBufAllFfWords_eq (by omega) (by omega)]
        simp only [hf, true_and]
    · rw [if_pos (fun e => hf (hw.1 (by simpa using e)))]
      simp only [hf, false_and, decide_false]
  | [], len, h, _ | [_], len, h, _ | [_, _], len, h, _ | [_, _, _], len, h, _ => by
    simp only [List.length_cons, List.length_nil] at h
    rw [mtdBufAllFfWords, if_pos (by omega)]
    · exact mtdBufAllFfTail_eq (by simpa using h)
    all_goals simp

/-- The word-wise check is the byte-wise one, reads nothing outside the
buffer and never wraps its counter, at every alignment. -/
theorem mtdBufAllFf_eq : ∀ {buf : Bytes} {addr len : Nat}, 0 < len → len ≤ buf.length → len < 2 ^ 32 →
    mtdBufAllFf addr buf len = some (decide (AllFf (buf.take len)))
  | [], _, len, h0, h, _ => by simp at h; omega
  | b :: buf, addr, len, h0, h, hlt => by
    rw [mtdBufAllFf]
    split
    · exact mtdBufAllFfWords_eq h hlt
    obtain ⟨n, rfl⟩ : ∃ n, len = n + 1 := ⟨len - 1, by omega⟩
    have hn : (n + 1 + (2 ^ 32 - 1)) % 2 ^ 32 = n := by omega
    simp only [List.take_succ_cons, AllFf.cons, hn, List.length_cons] at h ⊢
    by_cases hb : b = 0xff
    · rw [if_neg (by simp [hb])]
      split
      · next hz => subst hz; simp [hb]
      · rw [mtdBufAllFf_eq (by omega) (by omega) (by omega)]
        simp [hb]
    · simp [hb]

/-! ## Requests to a device -/

/-- What becomes of a request. -/
inductive Fault
  /-- It is carried out. -/
  | done
  /-- It ends after `k` bytes: the last system call fails with `err`, or
  transfers nothing if `err` is 0. -/
  | stop (k err : Nat)
  /-- The power fails after `k` bytes. -/
  | powerLoss (k : Nat)
deriving DecidableEq, Repr

/-- What a device is asked for, and what a process reports. -/
inductive Event
  /-- A process opens the bucket. -/
  | create
  | read (offset len : Int)
  /-- An erase, and whether it took effect. -/
  | erase (ok : Bool)
  /-- A program operation, with the bytes of the medium in its place. -/
  | program (offset : Int) (len : Nat) (before : Bytes)
  /-- A bucket read returns `ret` and the length `len`. -/
  | result (ret len : Int)
deriving DecidableEq, Repr

/-- The device's answers to come, whether the process still runs, the requests
made so far, newest first, and what uninitialised stack memory holds. -/
structure Env where
  faults : List Fault := []
  alive : Bool := true
  trace : List Event := []
  stack : Bytes := []
deriving DecidableEq, Repr

/-- A running process and a device that carries out every request. -/
def Env.ok : Env := {}

/-- No request of this process will fail. -/
def Env.Clean (env : Env) : Prop := env.alive = true ∧ env.faults = []

def Env.log (env : Env) (e : Event) : Env := { env with trace := e :: env.trace }

/-- The process is stopped. -/
def Env.crash (env : Env) : Env := { env with alive := false }

/-- The device's next answer. -/
def Env.next (env : Env) : Fault := env.faults.headD .done

def Env.pop (env : Env) : Env := { env with faults := env.faults.tail }

@[simp] theorem Env.log_alive (env : Env) (e : Event) : (env.log e).alive = env.alive := rfl
@[simp] theorem Env.log_faults (env : Env) (e : Event) : (env.log e).faults = env.faults := rfl
@[simp] theorem Env.log_trace (env : Env) (e : Event) : (env.log e).trace = e :: env.trace := rfl
@[simp] theorem Env.log_next (env : Env) (e : Event) : (env.log e).next = env.next := rfl
@[simp] theorem Env.crash_alive (env : Env) : env.crash.alive = false := rfl
@[simp] theorem Env.crash_trace (env : Env) : env.crash.trace = env.trace := rfl
@[simp] theorem Env.pop_alive (env : Env) : env.pop.alive = env.alive := rfl
@[simp] theorem Env.pop_trace (env : Env) : env.pop.trace = env.trace := rfl

@[simp] theorem Env.Clean.ok : Env.ok.Clean := ⟨rfl, rfl⟩

theorem Env.Clean.log {env : Env} (h : env.Clean) (e : Event) : (env.log e).Clean := h

theorem Env.Clean.next {env : Env} (h : env.Clean) : env.next = .done := by simp [Env.next, h.2]

theorem Env.Clean.pop {env : Env} (h : env.Clean) : env.pop.Clean := by simp [Env.Clean, Env.pop, h.1, h.2]

/-- `read_full`: `avail` is what lies between the file position and the end
of the request or of the file. Returns its return value and the bytes
delivered into the buffer. -/
def readFull (env : Env) (avail : Bytes) : Env × Int × Bytes :=
  if env.alive then
    match env.next with
    | .done => (env.pop, avail.length, avail)
    | .stop k err =>
      if err = 0 then (env.pop, (avail.take k).length, avail.take k)
      else (env.pop, -1, avail.take k)
    | .powerLoss _ => (env.pop.crash, -1, [])
  else (env, -1, [])

/-- `write_full`: its return value and the bytes the device took. -/
def writeFull (env : Env) (data : Bytes) : Env × Int × Bytes :=
  if env.alive then
    match env.next with
    | .done => (env.pop, data.length, data)
    | .stop k err =>
      if data.length ≤ k then (env.pop, data.length, data)
      else (env.pop, if err = 0 then 0 else -1, data.take k)
    | .powerLoss k => (env.pop.crash, -1, data.take k)
  else (env, -1, [])

theorem readFull_clean {env : Env} (h : env.Clean) (avail : Bytes) :
    readFull env avail = (env.pop, (avail.length : Int), avail) := by
  simp [readFull, h.1, h.next]

theorem writeFull_clean {env : Env} (h : env.Clean) (data : Bytes) :
    writeFull env data = (env.pop, (data.length : Int), data) := by
  simp [writeFull, h.1, h.next]

theorem readFull_trace (env : Env) (avail : Bytes) : (readFull env avail).1.trace = env.trace := by
  unfold readFull
  repeat' split
  all_goals rfl

theorem writeFull_trace (env : Env) (data : Bytes) : (writeFull env data).1.trace = env.trace := by
  unfold writeFull
  repeat' split
  all_goals rfl

/-- The device does not report success for a transfer it broke off:
`write_full` takes a `write(2)` of no bytes for the end of its work. -/
def Env.Honest (env : Env) : Prop := ∀ f ∈ env.faults, ∀ k, f ≠ .stop k 0

theorem Env.Clean.honest {env : Env} (h : env.Clean) : env.Honest := by
  intro f hf; rw [h.2] at hf; cases hf

theorem Env.Honest.log {env : Env} (h : env.Honest) (e : Event) : (env.log e).Honest := h

theorem Env.Honest.pop {env : Env} (h : env.Honest) : env.pop.Honest :=
  fun f hf => h f (List.mem_of_mem_tail hf)

theorem Env.Honest.next {env : Env} (h : env.Honest) (k : Nat) : env.next ≠ .stop k 0 := by
  unfold Env.next
  cases hf : env.faults with
  | nil => simp
  | cons f fs => exact h f (by simp [hf]) k

/-- Whatever the device does, it takes the first bytes of the data: all of
them when an honest one reports success. -/
theorem writeFull_taken (env : Env) (data : Bytes) : ∃ k, (writeFull env data).2.2 = data.take k ∧
    (env.Honest → 0 ≤ (writeFull env data).2.1 → k = data.length) := by
  unfold writeFull
  repeat' split
  · exact ⟨data.length, by simp, fun _ _ => rfl⟩
  · exact ⟨data.length, by simp, fun _ _ => rfl⟩
  · next k err hs _ herr => exact ⟨k, rfl, fun hh _ => absurd (herr ▸ hs) (hh.next k)⟩
  · next k err hs _ herr => exact ⟨k, rfl, fun _ h0 => by simp at h0⟩
  · exact ⟨_, rfl, fun _ h0 => by simp at h0⟩
  · exact ⟨0, by simp, fun _ h0 => by simp at h0⟩

theorem readFull_delivered (env : Env) (avail : Bytes) : ∃ k, (readFull env avail).2.2 = avail.take k := by
  unfold readFull
  repeat' split
  · exact ⟨avail.length, by simp⟩
  · exact ⟨_, rfl⟩
  · exact ⟨_, rfl⟩
  · exact ⟨0, by simp⟩
  · exact ⟨0, by simp⟩

/-! ## Power loss -/

/-- Requests are carried out until the power fails, if it does. -/
def Env.PowerOnly (env : Env) : Prop := ∀ f ∈ env.faults, f = .done ∨ ∃ k, f = .powerLoss k

theorem Env.Clean.powerOnly {env : Env} (h : env.Clean) : env.PowerOnly := by
  intro f hf; rw [h.2] at hf; cases hf

theorem Env.PowerOnly.pop {env : Env} (h : env.PowerOnly) : env.pop.PowerOnly :=
  fun f hf => h f (List.mem_of_mem_tail hf)

theorem Env.PowerOnly.next {env : Env} (h : env.PowerOnly) : env.next = .done ∨ ∃ k, env.next = .powerLoss k := by
  unfold Env.next
  cases hf : env.faults with
  | nil => exact .inl rfl
  | cons f fs => exact h f (by simp [hf])

theorem Env.PowerOnly.honest {env : Env} (h : env.PowerOnly) : env.Honest := by
  intro f hf k hk
  rcases h f hf with rfl | ⟨j, rfl⟩ <;> cases hk

/-- The environment `env'` is what some requests leave of `env`. -/
structure Env.Follows (env env' : Env) : Prop where
  power : env.PowerOnly → env'.PowerOnly
  alive : env'.alive = true → env.alive = true
  clean : env.Clean → env'.Clean

theorem Env.Follows.refl (env : Env) : env.Follows env := ⟨id, id, id⟩

theorem Env.Follows.trans {a b c : Env} (h : a.Follows b) (h' : b.Follows c) : a.Follows c :=
  ⟨h'.power ∘ h.power, h.alive ∘ h'.alive, h'.clean ∘ h.clean⟩

theorem Env.Follows.pop (env : Env) : env.Follows env.pop := ⟨Env.PowerOnly.pop, id, Env.Clean.pop⟩

theorem Env.Follows.log (env : Env) (e : Event) : env.Follows (env.log e) := ⟨id, id, id⟩

/-- A power loss does not happen to a process none of whose requests fail. -/
theorem Env.Follows.popCrash {env : Env} {k : Nat} (h : env.next = .powerLoss k) : env.Follows env.pop.crash where
  power hp := hp.pop
  alive := by simp
  clean hc := by rw [hc.next] at h; cases h

theorem readFull_power {env : Env} (h : env.PowerOnly) (avail : Bytes) :
    ∃ env' ret got, readFull env avail = (env', ret, got) ∧ env.Follows env' ∧
      (env'.alive = true → ret = avail.length ∧ got = avail) ∧ (env'.alive = false → ret = -1) := by
  unfold readFull
  by_cases ha : env.alive
  · rw [if_pos ha]
    rcases h.next with hn | ⟨k, hn⟩
    · simp only [hn]
      exact ⟨_, _, _, rfl, .pop env, fun _ => ⟨rfl, rfl⟩, by simp [ha]⟩
    · simp only [hn]
      exact ⟨_, _, _, rfl, .popCrash hn, by simp, fun _ => rfl⟩
  · rw [if_neg ha]
    exact ⟨_, _, _, rfl, .refl env, fun h => absurd h ha, fun _ => rfl⟩

theorem writeFull_power {env : Env} (h : env.PowerOnly) (data : Bytes) :
    ∃ env' ret k, writeFull env data = (env', ret, data.take k) ∧ env.Follows env' ∧
      (env'.alive = true → ret = data.length ∧ k = data.length) ∧ (env'.alive = false → ret = -1) ∧
      (env.alive = false → k = 0) := by
  unfold writeFull
  by_cases ha : env.alive
  · rw [if_pos ha]
    rcases h.next with hn | ⟨k, hn⟩
    · simp only [hn]
      exact ⟨_, _, data.length, by rw [List.take_length], .pop env, fun _ => ⟨rfl, rfl⟩, by simp [ha], by simp [ha]⟩
    · simp only [hn]
      exact ⟨_, _, k, rfl, .popCrash hn, by simp, fun _ => rfl, by simp [ha]⟩
  · rw [if_neg ha]
    exact ⟨_, _, 0, rfl, .refl env, fun h => absurd h ha, fun _ => rfl, fun _ => rfl⟩

end DtUtils
