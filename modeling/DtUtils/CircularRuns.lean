/-
Runs of processes over one circular bucket, whatever the device makes of
their requests: the flash is only ever programmed where it is erased
(`circular_flash_discipline`), and what was written last is what the next
process reads (`circular_reads_last`).

The processes follow one another; the tool holds a lock while it has a
bucket open.
-/
import DtUtils.CircularFacts
import DtUtils.Lib.Run

namespace DtUtils
open Lib

/-- What a process asks of a circular bucket. -/
inductive CircularOp
  /-- A new process opens the bucket. -/
  | create
  | read
  | write (buf : Bytes)
deriving DecidableEq, Repr

/-- The eraseblock, the bucket the running process has open (if any), and all
requests so far. -/
structure Session where
  block : Bytes
  bucket : Option BucketCircular
  trace : List Event

/-- A process that was stopped leaves only what is on the medium. -/
def Session.leave (env : Env) (c : BucketCircular) : Session :=
  { block := c.block, bucket := if env.alive then some c else none, trace := env.trace }

/-- One operation, with the faults it meets, and its return value. -/
def Session.exec (g : Geometry) (s : Session) (faults : List Fault) : CircularOp → Session × Int
  | .create =>
    match bucketCircularCreate { faults := faults, trace := .create :: s.trace } g s.block with
    | (env, none) => ({ s with bucket := none, trace := env.trace }, -ENODEV)
    | (env, some c) => (Session.leave env c, 0)
  | .read =>
    match s.bucket with
    | none => (s, -ENODEV)
    | some c =>
      let (env, c, ret, _, len) := bucketCircularRead { faults := faults, trace := s.trace } c
      (Session.leave (if env.alive then env.log (.result ret len) else env) c, ret)
  | .write buf =>
    match s.bucket with
    | none => (s, -ENODEV)
    | some c =>
      let (env, c, ret) := bucketCircularWrite { faults := faults, trace := s.trace } c buf
      (Session.leave env c, ret)

/-- An eraseblock with any contents and no process yet. -/
def Session.Fresh (g : Geometry) (s : Session) : Prop :=
  s.block.length = g.erasesize ∧ s.bucket = none ∧ s.trace = []

/-- An eraseblock of four pages. -/
def Geometry.small : Geometry where
  eraseblock := 1
  writesize := 8
  erasesize := 32
  le_writesize := by decide
  dvd := by decide
  pos := by decide
  erasesize_lt := by decide
  start_lt := by decide

/-- A small eraseblock full of garbage. -/
def Session.garbage : Session := ⟨List.replicate 32 0x55, none, []⟩

theorem Session.garbage_fresh : Session.garbage.Fresh .small := ⟨rfl, rfl, rfl⟩

/-- Any operations under any faults. -/
def circularSystem (g : Geometry) : System Session (CircularOp × List Fault) where
  init := Session.Fresh g
  step s op s' := (s.exec g op.2 op.1).1 = s'

/-! ## Flash discipline -/

/-- The block was erased and nothing has been programmed since. -/
def pendingErased : List Event → Bool
  | [] => false
  | .program .. :: _ => false
  | .erase ok :: t => ok || pendingErased t
  | _ :: t => pendingErased t

/-- Nothing has been programmed since the process asked for an erase, or
since an earlier process had the block erased. -/
def pendingErase : List Event → Bool
  | [] => false
  | .program .. :: _ => false
  | .erase _ :: _ => true
  | .create :: t => pendingErased t
  | _ :: t => pendingErase t

/-- The rules of the flash for one request, `t` being the requests before it. -/
def Event.Allowed (g : Geometry) (t : List Event) : Event → Prop
  | .create | .erase _ => True
  | .read off len => 0 ≤ off ∧ 0 ≤ len ∧ off + len ≤ g.erasesize
  | .program off len before =>
    0 ≤ off ∧ off + len ≤ g.erasesize ∧ (g.writesize : Int) ∣ off ∧ before.length = len ∧ AllFf before ∧
      (pendingErase t → off = 0)
  | .result _ len => 0 ≤ len

/-- Every request of a trace keeps the rules. -/
def Disciplined (g : Geometry) : List Event → Prop
  | [] => True
  | e :: t => e.Allowed g t ∧ Disciplined g t

/-- Between operations: while an erase is pending the open bucket's position
is at one of the ends of the block, either of which makes the next write
erase again. -/
structure Orderly (g : Geometry) (s : Session) : Prop where
  length : s.block.length = g.erasesize
  disciplined : Disciplined g s.trace
  bucket : ∀ c, s.bucket = some c → Ready c ∧ c.geo = g ∧ c.block = s.block ∧
    (pendingErase s.trace → c.writeArea = 0 ∨ c.writeArea = g.erasesize)
  erased : pendingErased s.trace → AllFf s.block

theorem Orderly.fresh {g : Geometry} {s : Session} (h : s.Fresh g) : Orderly g s := by
  obtain ⟨hlen, hb, ht⟩ := h
  refine ⟨hlen, ?_, ?_, ?_⟩
  · rw [ht]; trivial
  · rw [hb]; intro c hc; cases hc
  · rw [ht]; intro h; cases h

/-- What an operation has to show of the bucket and the trace it leaves. -/
theorem Orderly.leave {g : Geometry} {env : Env} {c : BucketCircular} (hc : Ready c) (hg : c.geo = g)
    (ht : Disciplined g env.trace) (hp : pendingErase env.trace → c.writeArea = 0 ∨ c.writeArea = g.erasesize)
    (he : pendingErased env.trace → AllFf c.block) : Orderly g (Session.leave env c) := by
  refine ⟨by rw [← hg]; exact hc.length, ht, fun c' h => ?_, he⟩
  simp only [Session.leave] at h
  split at h
  · cases h; exact ⟨hc, hg, rfl, hp⟩
  · cases h

theorem Orderly.create {g : Geometry} {s : Session} (h : Orderly g s) (faults : List Fault) :
    Orderly g (s.exec g faults .create).1 := by
  simp only [Session.exec]
  rcases hcr : bucketCircularCreate { faults := faults, trace := .create :: s.trace } g s.block with ⟨env, o⟩
  obtain ⟨htr, hsome⟩ := bucketCircularCreate_cases h.length hcr
  -- With or without the read, no erase becomes pending that was not before.
  have hd : Disciplined g env.trace := by
    rcases htr with htr | htr <;> rw [htr]
    · exact ⟨trivial, h.disciplined⟩
    · exact ⟨⟨le_refl _, by omega, by omega⟩, trivial, h.disciplined⟩
  have hp : pendingErase env.trace = pendingErased s.trace := by
    rcases htr with htr | htr <;> rw [htr] <;> rfl
  have he : pendingErased env.trace = pendingErased s.trace := by
    rcases htr with htr | htr <;> rw [htr] <;> rfl
  cases o with
  | none =>
    refine ⟨h.length, hd, ?_, ?_⟩
    · intro c hc; cases hc
    · rw [he]; exact h.erased
  | some c =>
    obtain ⟨hready, hgeo, hblock, hff⟩ := hsome c rfl
    refine .leave hready hgeo hd ?_ ?_
    · rw [hp]; exact fun h' => hff (h.erased h')
    · rw [he, hblock]; exact h.erased

theorem Orderly.read {g : Geometry} {s : Session} (h : Orderly g s) (faults : List Fault) :
    Orderly g (s.exec g faults .read).1 := by
  simp only [Session.exec]
  cases hb : s.bucket with
  | none => exact h
  | some c =>
    obtain ⟨hc, hg, hblock, hpend⟩ := h.bucket c hb
    rcases hrd : bucketCircularRead { faults := faults, trace := s.trace } c with ⟨env, c', ret, buf, len⟩
    obtain ⟨hc', hlen, htr⟩ := bucketCircularRead_cases hc hrd
    obtain ⟨hready, hblock', hgeo'⟩ := bucketCircularRead_ready hc hrd
    subst hg
    have hd : Disciplined c.geo env.trace := by
      rcases htr with htr | ⟨off, n, hn, htr⟩ <;> rw [htr]
      · exact h.disciplined
      · exact ⟨⟨by omega, by omega, by omega⟩, h.disciplined⟩
    have hp : pendingErase env.trace = pendingErase s.trace := by
      rcases htr with htr | ⟨off, n, hn, htr⟩ <;> exact (congrArg pendingErase htr).trans rfl
    have he : pendingErased env.trace = pendingErased s.trace := by
      rcases htr with htr | ⟨off, n, hn, htr⟩ <;> exact (congrArg pendingErased htr).trans rfl
    have hwa : pendingErase env.trace → c'.writeArea = 0 ∨ c'.writeArea = c.geo.erasesize := by
      rw [hp]
      intro h'
      rcases hc' with rfl | rfl
      · exact hpend h'
      · exact .inl rfl
    have hff : pendingErased env.trace → AllFf c'.block := by
      rw [he, hblock', hblock]; exact h.erased
    simp only [hrd]
    split
    · exact .leave hready hgeo' ⟨hlen, hd⟩ hwa hff
    · exact .leave hready hgeo' hd hwa hff

theorem Orderly.write {g : Geometry} {s : Session} (h : Orderly g s) (faults : List Fault) (buf : Bytes) :
    Orderly g (s.exec g faults (.write buf)).1 := by
  simp only [Session.exec]
  cases hb : s.bucket with
  | none => exact h
  | some c =>
    obtain ⟨hc, hg, hblock, hpend⟩ := h.bucket c hb
    rcases hwr : bucketCircularWrite { faults := faults, trace := s.trace } c buf with ⟨env, c', ret⟩
    obtain ⟨hready, hgeo'⟩ := bucketCircularWrite_ready hc hwr
    subst hg
    simp only [hwr]
    rcases bucketCircularWrite_cases hc hwr with ⟨-, htr, hc'⟩ | ⟨ok, -, htr, rfl⟩ |
      ⟨n, b, t, k, hn, hlen, hle, hroom, rfl, -, -, htr⟩
    · -- Refused: at most the position is forgotten.
      have hblock' : c'.block = c.block := by rcases hc' with rfl | rfl <;> rfl
      refine .leave hready hgeo' ?_ ?_ ?_ <;> rw [htr]
      · exact h.disciplined
      · rcases hc' with rfl | rfl
        · exact hpend
        · exact fun _ => .inl rfl
      · rw [hblock', hblock]; exact h.erased
    · -- Stopped at the erase.
      refine .leave hready hgeo' ?_ (fun _ => .inl rfl) ?_ <;> rw [htr]
      · exact ⟨trivial, h.disciplined⟩
      · intro h'
        cases ok with
        | true => exact AllFf.replicate _
        | false => simp only [Bool.false_eq_true, if_false]; rw [hblock]; exact h.erased h'
    · -- Appended: what is programmed was erased.
      have hroom' := hroom.hasRoom hc
      have hbl := hroom'.length
      have hble := hroom'.le
      have hgeo := hroom.same.1
      have hd : Disciplined c.geo t := by
        cases hroom with
        | behind => exact h.disciplined
        | erased => exact ⟨trivial, h.disciplined⟩
      have h0 : pendingErase t → b.writeArea = 0 := by
        intro h'
        cases hroom with
        | behind hne hlt => rcases hpend h' with h0 | h0 <;> omega
        | erased => rfl
      simp only [if_true] at htr
      rw [hgeo] at hbl hble
      refine .leave hready hgeo' ?_ ?_ ?_ <;> rw [htr]
      · refine ⟨⟨by omega, by omega, ?_, slice_length (by omega), hroom'.free.take n, ?_⟩, hd⟩
        · rw [← hgeo]; exact Int.natCast_dvd_natCast.2 hroom'.dvd
        · intro h'; rw [h0 h']; rfl
      · intro h'; cases h'
      · intro h'; cases h'

theorem orderly_invariant (g : Geometry) : (circularSystem g).Invariant fun _ s => Orderly g s where
  init := Orderly.fresh
  step := by
    rintro ls s ⟨op, faults⟩ s' h rfl
    cases op with
    | create => exact h.create faults
    | read => exact h.read faults
    | write buf => exact h.write faults buf

/-- **Flash discipline of the circular bucket**: in every run, whatever
fails, each program operation starts at a multiple of the write size, lies
inside the eraseblock and touches erased bytes only, each read lies inside the
block and reports a length that is not negative, and after an erase is asked
for the next program operation starts at offset 0. -/
theorem circular_flash_discipline {g : Geometry} {ops : List (CircularOp × List Fault)} {s : Session}
    (h : (circularSystem g).Run ops s) : Disciplined g s.trace :=
  ((orderly_invariant g).run h).disciplined

/-- A write cut off behind the erase and a read in the same process. -/
theorem circular_flash_discipline_small :
    ∃ s, (circularSystem .small).Run [(.read, []), (.write [1, 2, 3], [.done, .stop 5 5]), (.create, [])] s ∧
      Disciplined .small s.trace := by
  have h := System.Run.step (l := (.read, [])) (System.Run.step (l := (.write [1, 2, 3], [.done, .stop 5 5]))
    (System.Run.step (l := (.create, [])) (.init (S := circularSystem .small) Session.garbage_fresh) rfl) rfl) rfl
  exact ⟨_, h, circular_flash_discipline h⟩

/-! ## The last record -/

/-- The payload of the last write of a history (newest first). -/
def lastWrite : List (CircularOp × List Fault) → Option Bytes
  | [] => none
  | (.write p, _) :: _ => some p
  | _ :: t => lastWrite t

/-- Processes whose writes succeed; creates and reads may meet any fault. -/
def writingSystem (g : Geometry) : System Session (CircularOp × List Fault) where
  init := Session.Fresh g
  step s op s' := ∃ ret, s.exec g op.2 op.1 = (s', ret) ∧
    ∀ p, op.1 = .write p → ret = 0 ∧ Env.Honest { faults := op.2 }

/-- What holds after a run of `writingSystem`. -/
structure Kept (g : Geometry) (ops : List (CircularOp × List Fault)) (s : Session) : Prop where
  length : s.block.length = g.erasesize
  bucket : ∀ c, s.bucket = some c → Ready c ∧ c.geo = g ∧ c.block = s.block
  last : ∀ p, lastWrite ops = some p → Stored g p s.block

theorem Kept.leave {g : Geometry} {ops : List (CircularOp × List Fault)} {env : Env} {c : BucketCircular}
    (hc : Ready c) (hg : c.geo = g) (hl : ∀ p, lastWrite ops = some p → Stored g p c.block) :
    Kept g ops (Session.leave env c) := by
  refine ⟨by rw [← hg]; exact hc.length, fun c' h => ?_, hl⟩
  simp only [Session.leave] at h
  split at h
  · cases h; exact ⟨hc, hg, rfl⟩
  · cases h

theorem Kept.step {g : Geometry} {ops : List (CircularOp × List Fault)} {s s' : Session}
    {op : CircularOp × List Fault} (h : Kept g ops s) (hs : (writingSystem g).step s op s') :
    Kept g (op :: ops) s' := by
  obtain ⟨op, faults⟩ := op
  obtain ⟨ret, hex, hok⟩ := hs
  cases op with
  | create =>
    simp only [Session.exec] at hex
    rcases hcr : bucketCircularCreate { faults := faults, trace := .create :: s.trace } g s.block with ⟨env, o⟩
    rw [hcr] at hex
    obtain ⟨-, hsome⟩ := bucketCircularCreate_cases h.length hcr
    cases o with
    | none =>
      cases hex
      exact ⟨h.length, by simp, h.last⟩
    | some c =>
      cases hex
      obtain ⟨hready, hgeo, hblock, -⟩ := hsome c rfl
      exact .leave hready hgeo (by rw [hblock]; exact h.last)
  | read =>
    simp only [Session.exec] at hex
    cases hb : s.bucket with
    | none =>
      rw [hb] at hex
      cases hex
      exact ⟨h.length, h.bucket, h.last⟩
    | some c =>
      rw [hb] at hex
      obtain ⟨hc, hg, hblock⟩ := h.bucket c hb
      rcases hrd : bucketCircularRead { faults := faults, trace := s.trace } c with ⟨env, c', r, buf, len⟩
      obtain ⟨hready, hblock', hgeo'⟩ := bucketCircularRead_ready hc hrd
      simp only [hrd, Prod.mk.injEq] at hex
      obtain ⟨rfl, -⟩ := hex
      exact .leave hready (hgeo'.trans hg) (by rw [hblock', hblock]; exact h.last)
  | write p =>
    obtain ⟨rfl, hhon⟩ := hok p rfl
    simp only [Session.exec] at hex
    cases hb : s.bucket with
    | none =>
      rw [hb] at hex
      simp only [Prod.mk.injEq] at hex
      exact absurd hex.2 (by decide)
    | some c =>
      rw [hb] at hex
      obtain ⟨hc, hg, hblock⟩ := h.bucket c hb
      rcases hwr : bucketCircularWrite { faults := faults, trace := s.trace } c p with ⟨env, c', r⟩
      obtain ⟨hready, hgeo'⟩ := bucketCircularWrite_ready hc hwr
      simp only [hwr, Prod.mk.injEq] at hex
      obtain ⟨rfl, rfl⟩ := hex
      -- Success leaves the third case only, with the whole record on the medium.
      obtain ⟨hr, -⟩ | ⟨ok, hr, -⟩ | ⟨n, b, t, k, hn, hlen, hle, hroom, rfl, -, hfull, -⟩ :=
        bucketCircularWrite_cases hc hwr
      · exact absurd hr (by omega)
      · exact absurd hr (by omega)
      refine .leave hready (hgeo'.trans hg) fun p' hp' => ?_
      cases hp'
      have hbg : b.geo = g := hroom.same.1.trans hg
      have hn' : n = roundup (p.length + 8) b.geo.writesize := by
        rw [hn, circularWrittenLength_eq (by omega), hroom.same.1]
      rw [hfull hhon rfl, ← hbg]
      exact Stored.append hn' (hroom.hasRoom hc)

theorem kept_invariant (g : Geometry) : (writingSystem g).Invariant (Kept g) where
  init := by
    rintro s ⟨hlen, hb, -⟩
    refine ⟨hlen, ?_, ?_⟩
    · rw [hb]; intro c hc; cases hc
    · intro p hp; cases hp
  step := Kept.step

/-- **The circular bucket returns the last record to the next process**:
once a history contains a write, a newly created bucket's read succeeds and
returns the payload written last, followed by zero bytes, with length
`roundup (len + 8) writesize - 8`. -/
theorem circular_reads_last {g : Geometry} {ops : List (CircularOp × List Fault)} {s : Session} {p : Bytes} {env : Env}
    (h : (writingSystem g).Run ops s) (hp : lastWrite ops = some p) (henv : env.Clean) :
    ∃ env₁ c env₂ c' buf, bucketCircularCreate env g s.block = (env₁, some c) ∧
      bucketCircularRead env₁ c = (env₂, c', 0, buf, ((roundup (p.length + 8) g.writesize - 8 : Nat) : Int)) ∧
      buf.take (roundup (p.length + 8) g.writesize - 8) =
        p ++ List.replicate (roundup (p.length + 8) g.writesize - 8 - p.length) 0 := by
  have hst : Stored g p s.block := ((kept_invariant g).run h).last p hp
  have hcr := bucketCircularCreate_clean henv hst.int hst.length
  let c₀ : BucketCircular := ⟨g, 0, 0, false, s.block⟩
  have hready : Ready (c₀.scanned s.block) := Ready.scanned (c := c₀) hst.int hst.length
  obtain ⟨env', c', ret, buf, len, -, hrd, hres⟩ :=
    bucketCircularRead_clean (henv.pop.log (.read 0 g.erasesize)).pop hready
  have hpay : (c₀.scanned s.block).readable = _ := hst.payload
  rw [hpay] at hres
  obtain ⟨rfl, hbuf, rfl⟩ := hres
  have hge := recordLength_ge g p
  have hlen : (p ++ List.replicate (roundup (p.length + 8) g.writesize - 8 - p.length) (0 : UInt8)).length =
      roundup (p.length + 8) g.writesize - 8 := by simp; omega
  rw [hlen] at hrd hbuf
  exact ⟨_, _, env', c', buf, hcr, hrd, hbuf⟩

/-- Three bytes on a block that was full of garbage. -/
theorem circular_reads_last_small :
    ∃ s, (writingSystem .small).Run [(.write [1, 2, 3], []), (.create, [])] s ∧
      ∃ env₁ c env₂ c' buf, bucketCircularCreate .ok .small s.block = (env₁, some c) ∧
        bucketCircularRead env₁ c = (env₂, c', 0, buf, 8) ∧ buf.take 8 = [1, 2, 3, 0, 0, 0, 0, 0] := by
  let s₁ : Session := (Session.garbage.exec .small [] .create).1
  have h₁ : (writingSystem .small).Run [(.create, [])] s₁ :=
    .step (.init Session.garbage_fresh) ⟨_, rfl, fun p hp => by cases hp⟩
  have h₂ : (writingSystem .small).Run [(.write [1, 2, 3], []), (.create, [])]
      (s₁.exec .small [] (.write [1, 2, 3])).1 :=
    .step h₁ ⟨_, rfl, fun p hp => ⟨by decide +kernel, by intro f hf; cases hf⟩⟩
  exact ⟨_, h₂, circular_reads_last h₂ rfl .ok⟩

end DtUtils
