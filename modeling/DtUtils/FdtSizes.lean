/-
How much room the flattener has at each token of a tree: a walk over the
tokens that keeps the two cursors and how often each buffer was doubled, and
nothing of what the buffers hold (`Sizes.tokens`). `of_flatten_dtb` returns a
blob, `NULL`, or writes outside a buffer exactly where the walk says so
(`ofFlattenDtb_walk`), whatever `realloc` leaves in the bytes it adds.

A name that is too long for `lstrcpy` is not reported: what `lstrcpy` returns
becomes a length, and moves the cursor backwards, or the offset of a property
name.
-/
import DtUtils.FdtRoundTrip

namespace DtUtils
open Lib

/-! ## The flattener as a walk over tokens -/

/-- What `__of_flatten_dtb` does at a token. -/
def flattenToken (junk : Junk) : Token → Fdt → Fdt × Option Int
  | .beginNode name => flattenBeginNode junk name
  | .endNode => flattenEndNode junk
  | .prop p => flattenProperty junk p
  | .nop => fun fdt => (fdt, some 0)

def flattenTokens (junk : Junk) : List Token → Fdt → Fdt × Option Int
  | [], fdt => (fdt, some 0)
  | tok :: toks, fdt => andThen (flattenToken junk tok fdt) (flattenTokens junk toks)

theorem andThen_of_ne {r : Fdt × Option Int} {k : Fdt → Fdt × Option Int} (h : r.2 ≠ some 0) : andThen r k = r := by
  unfold andThen
  split
  · exact absurd rfl h
  · rfl

theorem andThen_assoc (r : Fdt × Option Int) (k k' : Fdt → Fdt × Option Int) :
    andThen (andThen r k) k' = andThen r fun fdt => andThen (k fdt) k' := by
  by_cases h : r.2 = some 0
  · obtain ⟨fdt, ret⟩ := r
    simp only at h
    subst h
    rfl
  · rw [andThen_of_ne h, andThen_of_ne h, andThen_of_ne h]

theorem flattenTokens_append (junk : Junk) : ∀ (toks toks' : List Token) (fdt : Fdt),
    flattenTokens junk (toks ++ toks') fdt = andThen (flattenTokens junk toks fdt) (flattenTokens junk toks')
  | [], toks', fdt => rfl
  | tok :: toks, toks', fdt => by
    rw [List.cons_append, flattenTokens, flattenTokens, andThen_assoc]
    congr 1
    funext fdt'
    exact flattenTokens_append junk toks toks' fdt'

theorem flattenTokens_singleton (junk : Junk) (tok : Token) : flattenTokens junk [tok] = flattenToken junk tok := by
  funext fdt
  rw [flattenTokens]
  generalize flattenToken junk tok fdt = r
  by_cases h : r.2 = some 0
  · obtain ⟨fdt', ret⟩ := r
    simp only at h
    subst h
    rfl
  · exact andThen_of_ne h

theorem flattenProperties_tokens (junk : Junk) : ∀ properties : List Property,
    flattenProperties junk properties = flattenTokens junk (properties.map .prop)
  | [] => by
    funext fdt
    rw [flattenProperties, List.map_nil, flattenTokens]
  | p :: properties => by
    funext fdt
    rw [flattenProperties, List.map_cons, flattenTokens, flattenProperties_tokens junk properties, flattenToken]

mutual
theorem flattenNode_tokens (junk : Junk) : ∀ node : DeviceNode,
    flattenNode junk node = flattenTokens junk (nodeTokens node)
  | .node name phandle properties children => by
    funext fdt
    rw [flattenNode, nodeTokens, List.cons_append, flattenTokens, flattenToken]
    congr 1
    funext fdt'
    rw [List.append_assoc, flattenTokens_append, flattenProperties_tokens]
    congr 1
    funext fdt''
    rw [flattenTokens_append, flattenNodes_tokens junk children, flattenTokens_singleton, flattenToken]

theorem flattenNodes_tokens (junk : Junk) : ∀ nodes : List DeviceNode,
    flattenNodes junk nodes = flattenTokens junk (nodesTokens nodes)
  | [] => by
    funext fdt
    rw [flattenNodes, nodesTokens, flattenTokens]
  | node :: nodes => by
    funext fdt
    rw [flattenNodes, nodesTokens, flattenTokens_append, flattenNode_tokens junk node, flattenNodes_tokens junk nodes]
end

/-! ## The walk -/

/-- The cursors, and how often the buffers were doubled. -/
structure Sizes where
  dtReallocs : Nat
  dtNextofs : Nat
  strReallocs : Nat
  strNextofs : Nat
deriving DecidableEq, Repr

/-- The size of a buffer after `k` reallocations. -/
def bufSize (k : Nat) : Nat := fdtBufsize * 2 ^ k

/-- Where a walk ends: at a write outside a buffer, at a buffer of 4 GiB, whose
size is 0 in 32 bits, or at some sizes. -/
inductive Walk
  | fault
  | null
  | at (s : Sizes)
deriving DecidableEq, Repr

def Walk.andThen (w : Walk) (k : Sizes → Walk) : Walk :=
  match w with
  | .at s => k s
  | w => w

def Sizes.start : Sizes := ⟨0, 40 + 16 * 16, 0, 0⟩

/-- A buffer with less than `need` bytes behind `nextofs` is doubled. -/
def reallocsFor (reallocs nextofs need : Nat) : Nat :=
  if sub32 (bufSize reallocs) nextofs < need then reallocs + 1 else reallocs

/-- `fdt_ensure_space`: each buffer is doubled once at most. -/
def Sizes.ensureSpace (s : Sizes) (dtsize : Nat) : Walk :=
  let strReallocs := reallocsFor s.strReallocs s.strNextofs 1024
  let dtReallocs := reallocsFor s.dtReallocs s.dtNextofs (1024 + dtsize)
  if strReallocs = 16 ∨ dtReallocs = 16 then .null else .at { s with strReallocs, dtReallocs }

/-- What `lstrcpy` returns for a name of `n` bytes, as an `unsigned int`. -/
def nameLength (n : Nat) : Nat := if n ≤ 1023 then n else 2 ^ 32 - 28

/-- A node begins: its tag and its name, or the first 1024 bytes of that. -/
def Sizes.beginNode (s : Sizes) (n : Nat) : Walk :=
  (s.ensureSpace 0).andThen fun s =>
    if s.dtNextofs + 4 + min n 1024 ≤ bufSize s.dtReallocs then
      .at { s with dtNextofs := dtNextOfs s.dtNextofs (4 + nameLength n + 1) }
    else .fault

/-- A property with a name of `n` bytes and `len` bytes of data. -/
def Sizes.property (s : Sizes) (n len : Nat) : Walk :=
  (s.ensureSpace len).andThen fun s =>
    if s.dtNextofs + 12 + len ≤ bufSize s.dtReallocs then
      .at { s with
        dtNextofs := dtNextOfs s.dtNextofs (12 + len)
        strNextofs := if n ≤ 1023 then s.strNextofs + n + 1 else s.strNextofs }
    else .fault

/-- A node ends: space is ensured behind its tag. -/
def Sizes.endNode (s : Sizes) : Walk :=
  if s.dtNextofs + 4 ≤ bufSize s.dtReallocs then
    { s with dtNextofs := dtNextOfs s.dtNextofs 4 }.ensureSpace 0
  else .fault

def Sizes.token (s : Sizes) : Token → Walk
  | .beginNode name => s.beginNode name.1.length
  | .endNode => s.endNode
  | .prop p => s.property p.name.1.length p.value.length
  | .nop => .at s

def Sizes.tokens : List Token → Sizes → Walk
  | [], s => .at s
  | tok :: toks, s => (s.token tok).andThen (Sizes.tokens toks)

/-- The walk over a tree. -/
def sizesWalk (node : DeviceNode) : Walk := Sizes.tokens (nodeTokens node) .start

theorem Walk.andThen_assoc (w : Walk) (k k' : Sizes → Walk) :
    (w.andThen k).andThen k' = w.andThen fun s => (k s).andThen k' := by
  cases w <;> rfl

theorem Sizes.tokens_append : ∀ (toks toks' : List Token) (s : Sizes),
    Sizes.tokens (toks ++ toks') s = (Sizes.tokens toks s).andThen (Sizes.tokens toks')
  | [], toks', s => rfl
  | tok :: toks, toks', s => by
    rw [List.cons_append, Sizes.tokens, Sizes.tokens, Walk.andThen_assoc]
    congr 1
    funext s'
    exact Sizes.tokens_append toks toks' s'

/-! ## What holds of the sizes -/

/-- Sizes that a walk comes to. -/
structure Sizes.Good (s : Sizes) : Prop where
  dtReallocs : s.dtReallocs < 16
  strReallocs : s.strReallocs < 16
  strNextofs : s.strNextofs ≤ bufSize s.strReallocs
  aligned : 4 ∣ s.dtNextofs
  dtNextofs : s.dtNextofs < 2 ^ 32

theorem Sizes.Good.start : Sizes.start.Good := ⟨by decide, by decide, by decide, by decide, by decide⟩

theorem bufSize_succ (k : Nat) : bufSize (k + 1) = 2 * bufSize k := by
  rw [bufSize, bufSize, pow_succ]
  ring

theorem bufSize_bounds {k : Nat} (h : k < 16) : 65536 ≤ bufSize k ∧ bufSize k ≤ 2 ^ 31 := by
  have hall : ∀ k < 16, 65536 ≤ bufSize k ∧ bufSize k ≤ 2 ^ 31 := by decide
  exact hall k h

/-- Only the sixteenth doubling does not fit 32 bits. -/
theorem bufSize_double {k : Nat} (h : k < 16) : bufSize k * 2 % 2 ^ 32 = if k + 1 = 16 then 0 else bufSize (k + 1) := by
  have hall : ∀ k < 16, bufSize k * 2 % 2 ^ 32 = if k + 1 = 16 then 0 else bufSize (k + 1) := by decide
  exact hall k h

theorem dvd_align4 (x : Nat) : 4 ∣ align4 x := Nat.dvd_mul_left _ _

theorem align4_lt (x : Nat) : align4 x < 2 ^ 32 := by
  unfold align4
  omega

/-- A doubling leaves room if the cursor was in the buffer. -/
theorem reallocsFor_room {k nextofs need : Nat} (hk : k < 16) (hle : nextofs ≤ bufSize k) (hneed : need ≤ 65536) :
    nextofs + need ≤ bufSize (reallocsFor k nextofs need) := by
  have hbounds := bufSize_bounds hk
  have hmore := bufSize_succ k
  unfold reallocsFor
  rw [sub32_of_le hle (by omega)]
  split <;> omega

theorem reallocsFor_le (k nextofs need : Nat) : k ≤ reallocsFor k nextofs need ∧
    reallocsFor k nextofs need ≤ k + 1 := by
  unfold reallocsFor
  split <;> omega

theorem Sizes.ensureSpace_eq_at {s s' : Sizes} {dtsize : Nat} (h : s.ensureSpace dtsize = .at s') :
    s' = { s with
      strReallocs := reallocsFor s.strReallocs s.strNextofs 1024
      dtReallocs := reallocsFor s.dtReallocs s.dtNextofs (1024 + dtsize) } ∧ s'.strReallocs ≠ 16 ∧
          s'.dtReallocs ≠ 16 := by
  unfold Sizes.ensureSpace at h
  simp only at h
  split at h
  · cases h
  · next hnot =>
    cases h
    exact ⟨rfl, fun hs => hnot (.inl hs), fun hd => hnot (.inr hd)⟩

/-- What `fdt_ensure_space` guarantees: the next string has room, and the
cursors are where they were. -/
theorem Sizes.Good.ensureSpace {s s' : Sizes} (h : s.Good) {dtsize : Nat} (heq : s.ensureSpace dtsize = .at s') :
    s'.Good ∧ s'.strNextofs + 1024 ≤ bufSize s'.strReallocs := by
  obtain ⟨rfl, hstr, hdt⟩ := Sizes.ensureSpace_eq_at heq
  have hroom := @reallocsFor_room _ _ 1024 h.strReallocs h.strNextofs (by decide)
  have hstrs := reallocsFor_le s.strReallocs s.strNextofs 1024
  have hdts := reallocsFor_le s.dtReallocs s.dtNextofs (1024 + dtsize)
  have hlt := h.strReallocs
  have hlt' := h.dtReallocs
  simp only at hstr hdt
  exact ⟨⟨by simp only; omega, by simp only; omega, by simp only; omega, h.aligned, h.dtNextofs⟩, hroom⟩

theorem Sizes.ensureSpace_ne_fault (s : Sizes) (dtsize : Nat) : s.ensureSpace dtsize ≠ .fault := by
  unfold Sizes.ensureSpace
  simp only
  split
  · exact fun h => by cases h
  · exact fun h => by cases h

theorem Sizes.ensureSpace_andThen {s s' : Sizes} {dtsize : Nat} {k : Sizes → Walk}
    (h : (s.ensureSpace dtsize).andThen k = .at s') : ∃ s₁, s.ensureSpace dtsize = .at s₁ ∧ k s₁ = .at s' := by
  cases hspace : s.ensureSpace dtsize with
  | fault => exact absurd hspace (Sizes.ensureSpace_ne_fault s dtsize)
  | null => rw [hspace] at h; cases h
  | «at» s₁ => exact ⟨s₁, rfl, by rwa [hspace] at h⟩

theorem Sizes.Good.token {s s' : Sizes} (h : s.Good) {tok : Token} (heq : s.token tok = .at s') : s'.Good := by
  cases tok with
  | beginNode name =>
    obtain ⟨s₁, hspace, heq⟩ := Sizes.ensureSpace_andThen heq
    obtain ⟨h₁, -⟩ := h.ensureSpace hspace
    split at heq
    · cases heq
      exact { h₁ with aligned := dvd_align4 _, dtNextofs := align4_lt _ }
    · cases heq
  | endNode =>
    simp only [Sizes.token, Sizes.endNode] at heq
    split at heq
    · have h₁ : ({ s with dtNextofs := dtNextOfs s.dtNextofs 4 } : Sizes).Good :=
        { h with aligned := dvd_align4 _, dtNextofs := align4_lt _ }
      exact (h₁.ensureSpace heq).1
    · cases heq
  | prop p =>
    obtain ⟨s₁, hspace, heq⟩ := Sizes.ensureSpace_andThen heq
    obtain ⟨h₁, hroom⟩ := h.ensureSpace hspace
    split at heq
    · cases heq
      refine { h₁ with aligned := dvd_align4 _, dtNextofs := align4_lt _, strNextofs := ?_ }
      simp only
      split <;> omega
    · cases heq
  | nop =>
    cases heq
    exact h

/-! ## The flattener has the sizes of the walk -/

structure Fdt.Sized (fdt : Fdt) (s : Sizes) : Prop where
  dt : fdt.dt.length = bufSize s.dtReallocs
  strings : fdt.strings.length = bufSize s.strReallocs
  dtReallocs : fdt.dtReallocs = s.dtReallocs
  dtNextofs : fdt.dtNextofs = s.dtNextofs
  strNextofs : fdt.strNextofs = s.strNextofs

/-- A buffer is the same, or it has been reallocated and is longer. -/
def Regrown (junk : Junk) (buf buf' : Bytes) : Prop :=
  buf' = buf ∨ ∃ n size, buf.length ≤ size ∧ buf' = realloc (junk n) size buf

/-- The buffers, and no more, may have grown. -/
structure Fdt.Grown (junk : Junk) (fdt fdt' : Fdt) : Prop where
  dt : Regrown junk fdt.dt fdt'.dt
  strings : Regrown junk fdt.strings fdt'.strings

section
variable {junk : Junk} {fdt : Fdt} {s : Sizes}

theorem neg_ENOMEM : -ENOMEM < 0 := by decide

theorem Fdt.Sized.start : Fdt.start.Sized .start :=
  ⟨by simp [Fdt.start, Sizes.start, bufSize], by simp [Fdt.start, Sizes.start, bufSize], rfl, rfl, rfl⟩

/-- A buffer of twice the size, or none if that is 4 GiB. -/
theorem realloc_double {k n : Nat} {buf : Bytes} (hk : k < 16) (hbuf : buf.length = bufSize k) :
    (k + 1 = 16 ∧ realloc (junk n) (buf.length * 2 % 2 ^ 32) buf = []) ∨
      k + 1 ≠ 16 ∧ (realloc (junk n) (buf.length * 2 % 2 ^ 32) buf).length = bufSize (k + 1) ∧
        Regrown junk buf (realloc (junk n) (buf.length * 2 % 2 ^ 32) buf) := by
  have hbounds := bufSize_bounds hk
  have hmore := bufSize_succ k
  rw [hbuf, bufSize_double hk]
  by_cases hlast : k + 1 = 16
  · rw [if_pos hlast]
    exact .inl ⟨hlast, List.eq_nil_of_length_eq_zero (realloc_length ..)⟩
  · rw [if_neg hlast]
    exact .inr ⟨hlast, realloc_length .., .inr ⟨n, _, by omega, rfl⟩⟩

theorem ne_nil_of_length_bufSize {k : Nat} {buf : Bytes} (hk : k < 16) (hbuf : buf.length = bufSize k) : buf ≠ [] := by
  have := (bufSize_bounds hk).1
  exact List.ne_nil_of_length_pos (by omega)

theorem fdtGrowStrings_sized (h : fdt.Sized s) (hg : s.Good) :
    (reallocsFor s.strReallocs s.strNextofs 1024 = 16 ∧ (fdtGrowStrings junk fdt).strings = []) ∨
      reallocsFor s.strReallocs s.strNextofs 1024 ≠ 16 ∧ (fdtGrowStrings junk fdt).strings ≠ [] ∧
        (fdtGrowStrings junk fdt).Sized { s with strReallocs := reallocsFor s.strReallocs s.strNextofs 1024 } ∧
        Regrown junk fdt.strings (fdtGrowStrings junk fdt).strings ∧ (fdtGrowStrings junk fdt).dt = fdt.dt := by
  have hlt := hg.strReallocs
  have hcond : sub32 fdt.strings.length fdt.strNextofs = sub32 (bufSize s.strReallocs) s.strNextofs := by
    rw [h.strings, h.strNextofs]
  unfold fdtGrowStrings reallocsFor
  rw [hcond]
  by_cases hsmall : sub32 (bufSize s.strReallocs) s.strNextofs < 1024
  · rw [if_pos hsmall, if_pos hsmall]
    obtain ⟨hlast, hnil⟩ | ⟨hlast, hlen, hgrown⟩ :=
        @realloc_double junk _ (fdt.dtReallocs + fdt.strReallocs) _ hlt h.strings
    · exact .inl ⟨hlast, hnil⟩
    · exact .inr ⟨hlast, ne_nil_of_length_bufSize (by omega) hlen, { h with strings := hlen }, hgrown, rfl⟩
  · rw [if_neg hsmall, if_neg hsmall]
    exact .inr ⟨by omega, ne_nil_of_length_bufSize hlt h.strings, h, .inl rfl, rfl⟩

theorem fdtGrowDt_sized (h : fdt.Sized s) (hlt : s.dtReallocs < 16) (dtsize : Nat) :
    (reallocsFor s.dtReallocs s.dtNextofs (1024 + dtsize) = 16 ∧ (fdtGrowDt junk fdt dtsize).dt = []) ∨
      reallocsFor s.dtReallocs s.dtNextofs (1024 + dtsize) ≠ 16 ∧ (fdtGrowDt junk fdt dtsize).dt ≠ [] ∧
        (fdtGrowDt junk fdt dtsize).Sized { s with
          dtReallocs := reallocsFor s.dtReallocs s.dtNextofs (1024 + dtsize) } ∧
        Regrown junk fdt.dt (fdtGrowDt junk fdt dtsize).dt ∧ (fdtGrowDt junk fdt dtsize).strings = fdt.strings := by
  have hcond : sub32 fdt.dt.length fdt.dtNextofs = sub32 (bufSize s.dtReallocs) s.dtNextofs := by
    rw [h.dt, h.dtNextofs]
  unfold fdtGrowDt reallocsFor
  rw [hcond]
  by_cases hsmall : sub32 (bufSize s.dtReallocs) s.dtNextofs < 1024 + dtsize
  · rw [if_pos hsmall, if_pos hsmall]
    obtain ⟨hlast, hnil⟩ | ⟨hlast, hlen, hgrown⟩ := @realloc_double junk _ (fdt.dtReallocs + fdt.strReallocs) _ hlt h.dt
    · exact .inl ⟨hlast, hnil⟩
    · exact .inr ⟨hlast, ne_nil_of_length_bufSize (by omega) hlen,
        { h with dt := hlen, dtReallocs := congrArg (· + 1) h.dtReallocs }, hgrown, rfl⟩
  · rw [if_neg hsmall, if_neg hsmall]
    exact .inr ⟨by omega, ne_nil_of_length_bufSize hlt h.dt, h, .inl rfl, rfl⟩

theorem fdtEnsureSpace_sized (h : fdt.Sized s) (hg : s.Good) (dtsize : Nat) :
    (s.ensureSpace dtsize = .null ∧ (fdtEnsureSpace junk fdt dtsize).2 < 0) ∨
      ∃ s₁ fdt₁, s.ensureSpace dtsize = .at s₁ ∧ fdtEnsureSpace junk fdt dtsize = (fdt₁, 0) ∧ fdt₁.Sized s₁ ∧
        fdt.Grown junk fdt₁ := by
  unfold fdtEnsureSpace Sizes.ensureSpace
  simp only
  obtain ⟨hlast, hnil⟩ | ⟨hnot, hne, hsized, hstrings, hdt⟩ := @fdtGrowStrings_sized junk fdt s h hg
  · rw [if_pos (.inl hlast), if_pos hnil]
    exact .inl ⟨rfl, neg_ENOMEM⟩
  rw [if_neg hne]
  obtain ⟨hlast, hnil⟩ | ⟨hnot', hne', hsized', hdt', hstrings'⟩ :=
      @fdtGrowDt_sized junk _ _ hsized hg.dtReallocs dtsize
  · simp only at hlast
    rw [if_pos (.inr hlast), if_pos hnil]
    exact .inl ⟨rfl, neg_ENOMEM⟩
  · simp only at hnot' hsized'
    rw [if_neg hne', if_neg (not_or.2 ⟨hnot, hnot'⟩)]
    exact .inr ⟨_, _, rfl, rfl, hsized', ⟨by rwa [hdt] at hdt', by rwa [← hstrings'] at hstrings⟩⟩

/-! ## What is put into the buffers -/

/-- A tag and the first 1024 bytes of a name, at the cursor. -/
def Fdt.putBeginNode (name : CString) (fdt : Fdt) : Fdt :=
  { fdt with
    dt := splice fdt.dtNextofs (fdt32 fdtBeginNode ++ name.1.take 1024) fdt.dt
    dtNextofs := dtNextOfs fdt.dtNextofs (4 + nameLength name.1.length + 1) }

/-- What `dt_add_string` returns: the offset of the string, or an error. -/
def Fdt.stringOffset (str : CString) (fdt : Fdt) : Int :=
  if str.1.length ≤ 1023 then cInt fdt.strNextofs else -ENOSPC

/-- A string, or the first 1024 bytes of it, which are then forgotten. -/
def Fdt.putString (str : CString) (fdt : Fdt) : Fdt :=
  { fdt with
    strings := splice fdt.strNextofs (str.1.take 1024) fdt.strings
    strNextofs := if str.1.length ≤ 1023 then fdt.strNextofs + str.1.length + 1 else fdt.strNextofs }

/-- A property: what was written before `dt_add_string`, and what after. -/
def Fdt.putProperty (p : Property) (fdt : Fdt) : Fdt :=
  { fdt.putString p.name with
    dt := splice (fdt.dtNextofs + 8) (fdt32 (fdt.stringOffset p.name) ++ p.value)
      (splice fdt.dtNextofs (fdt32 fdtProp ++ fdt32 p.value.length) fdt.dt)
    dtNextofs := dtNextOfs fdt.dtNextofs (12 + p.value.length) }

def Fdt.putEndNode (fdt : Fdt) : Fdt :=
  { fdt with dt := splice fdt.dtNextofs (fdt32 fdtEndNode) fdt.dt, dtNextofs := dtNextOfs fdt.dtNextofs 4 }

theorem nameLength_eq (n : Nat) : ((if n ≤ 1023 then (n : Int) else -ENOSPC) % 2 ^ 32).toNat = nameLength n := by
  unfold nameLength ENOSPC
  split <;> omega

theorem flattenBeginNode_cases (h : fdt.Sized s) (hg : s.Good) (name : CString) :
    (s.ensureSpace 0 = .null ∧ (flattenBeginNode junk name fdt).2 = some (-ENOMEM)) ∨
      ∃ s₁ fdt₁, s.ensureSpace 0 = .at s₁ ∧ fdt₁.Sized s₁ ∧ fdt.Grown junk fdt₁ ∧
        (s₁.dtNextofs + 4 + min name.1.length 1024 ≤ bufSize s₁.dtReallocs →
          flattenBeginNode junk name fdt = (fdt₁.putBeginNode name, some 0)) ∧
        (bufSize s₁.dtReallocs < s₁.dtNextofs + 4 + min name.1.length 1024 →
            (flattenBeginNode junk name fdt).2 = none) := by
  unfold flattenBeginNode
  obtain ⟨hnull, hneg⟩ | ⟨s₁, fdt₁, hat, heq, h₁, hgrown⟩ := @fdtEnsureSpace_sized junk fdt s h hg 0
  · simp only
    rw [if_pos hneg]
    exact .inl ⟨hnull, rfl⟩
  refine .inr ⟨s₁, fdt₁, hat, h₁, hgrown, ?_⟩
  rw [← h₁.dt, ← h₁.dtNextofs, heq]
  simp only [lt_irrefl, if_false]
  rw [Fdt.write, fdt32_length]
  by_cases htag : fdt₁.dtNextofs + 4 ≤ fdt₁.dt.length
  · have hsame : (splice fdt₁.dtNextofs (fdt32 fdtBeginNode) fdt₁.dt).length = fdt₁.dt.length :=
      splice_length (by rw [fdt32_length]; exact htag)
    rw [if_pos htag]
    simp only
    rw [lstrcpy_cases (by rw [hsame]; exact htag), hsame]
    by_cases hname : fdt₁.dtNextofs + 4 + min name.1.length 1024 ≤ fdt₁.dt.length
    · rw [if_pos hname]
      simp only
      rw [nameLength_eq, splice_append_data (fdt32_length _) (by omega)]
      exact ⟨fun _ => rfl, fun hno => by omega⟩
    · rw [if_neg hname]
      exact ⟨fun hno => absurd hno hname, fun _ => rfl⟩
  · rw [if_neg htag]
    exact ⟨fun hno => by omega, fun _ => rfl⟩

theorem fdtEnsureSpace_same (h : fdt.Sized s) (hg : s.Good) (hstr : s.strNextofs + 1024 ≤ bufSize s.strReallocs)
    (hdt : 1024 ≤ sub32 (bufSize s.dtReallocs) s.dtNextofs) : fdtEnsureSpace junk fdt 0 = (fdt, 0) := by
  have hbounds := bufSize_bounds hg.strReallocs
  have hstrings : fdtGrowStrings junk fdt = fdt := by
    rw [fdtGrowStrings, h.strings, h.strNextofs, sub32_of_le hg.strNextofs (by omega), if_neg (by omega)]
  have hgrow : fdtGrowDt junk fdt 0 = fdt := by
    rw [fdtGrowDt, h.dt, h.dtNextofs, if_neg (by omega)]
  rw [fdtEnsureSpace, hstrings]
  simp only
  rw [if_neg (ne_nil_of_length_bufSize hg.strReallocs h.strings), hgrow,
    if_neg (ne_nil_of_length_bufSize hg.dtReallocs h.dt)]

theorem dtAddString_sized (h : fdt.Sized s) (hg : s.Good) (hstr : s.strNextofs + 1024 ≤ bufSize s.strReallocs)
    (hdt : 1024 ≤ sub32 (bufSize s.dtReallocs) s.dtNextofs) (str : CString) :
    dtAddString junk fdt str = (fdt.putString str, some (fdt.stringOffset str)) := by
  have hbounds := bufSize_bounds hg.strReallocs
  have hlen := h.strings
  have hnext := h.strNextofs
  simp only [dtAddString, fdtEnsureSpace_same h hg hstr hdt, lt_irrefl, if_false]
  rw [lstrcpy_cases (by omega), if_pos (by omega)]
  simp only [Fdt.putString, Fdt.stringOffset]
  by_cases hshort : str.1.length ≤ 1023
  · simp only [hshort, if_true]
    rw [if_neg (by omega)]
    congr 2
    omega
  · simp only [hshort, if_false]
    rw [if_pos (by decide)]

theorem dtAddString_dt (fdt : Fdt) (str : CString) :
    (dtAddString junk fdt str).1.dtNextofs = fdt.dtNextofs ∧
      ((dtAddString junk fdt str).1.dtReallocs = fdt.dtReallocs → (dtAddString junk fdt str).1.dt = fdt.dt) := by
  have hstrings : (fdtGrowStrings junk fdt).dtNextofs = fdt.dtNextofs ∧
      (fdtGrowStrings junk fdt).dtReallocs = fdt.dtReallocs ∧ (fdtGrowStrings junk fdt).dt = fdt.dt := by
    unfold fdtGrowStrings
    split <;> exact ⟨rfl, rfl, rfl⟩
  have hdt : ∀ fdt : Fdt, (fdtGrowDt junk fdt 0).dtNextofs = fdt.dtNextofs ∧
      ((fdtGrowDt junk fdt 0).dtReallocs = fdt.dtReallocs → (fdtGrowDt junk fdt 0).dt = fdt.dt) := by
    intro fdt
    unfold fdtGrowDt
    split
    · exact ⟨rfl, fun hno => absurd hno (Nat.succ_ne_self _)⟩
    · exact ⟨rfl, fun _ => rfl⟩
  have hspace : (fdtEnsureSpace junk fdt 0).1.dtNextofs = fdt.dtNextofs ∧
      ((fdtEnsureSpace junk fdt 0).1.dtReallocs = fdt.dtReallocs → (fdtEnsureSpace junk fdt 0).1.dt = fdt.dt) := by
    obtain ⟨h₁, h₂⟩ := hdt (fdtGrowStrings junk fdt)
    rw [hstrings.1] at h₁
    rw [hstrings.2.1, hstrings.2.2] at h₂
    unfold fdtEnsureSpace
    simp only
    split
    · exact ⟨hstrings.1, fun _ => hstrings.2.2⟩
    · split <;> exact ⟨h₁, h₂⟩
  unfold dtAddString
  simp only
  split
  · exact hspace
  · cases lstrcpy (fdtEnsureSpace junk fdt 0).1.strings (fdtEnsureSpace junk fdt 0).1.strNextofs str with
    | none => exact hspace
    | some r =>
      simp only
      split <;> exact hspace

/-- Where a property fits, there is still room for a name: the structure block
does not move under it. -/
theorem Sizes.Good.property_room {s s₁ : Sizes} (hg : s.Good) {len : Nat} (hat : s.ensureSpace len = .at s₁)
    (hfits : s₁.dtNextofs + 12 + len ≤ bufSize s₁.dtReallocs) : 1024 ≤ sub32 (bufSize s₁.dtReallocs) s₁.dtNextofs := by
  have hbounds := bufSize_bounds (hg.ensureSpace hat).1.dtReallocs
  have hsize := bufSize_bounds hg.dtReallocs
  have hmore := bufSize_succ s.dtReallocs
  obtain ⟨rfl, -, -⟩ := Sizes.ensureSpace_eq_at hat
  simp only [reallocsFor] at hbounds hfits ⊢
  by_cases hsmall : sub32 (bufSize s.dtReallocs) s.dtNextofs < 1024 + len
  · rw [if_pos hsmall] at hbounds hfits ⊢
    rw [sub32_of_le (by omega) (by omega)]
    by_cases hle : s.dtNextofs ≤ bufSize s.dtReallocs
    · omega
    · unfold sub32 at hsmall
      omega
  · rw [if_neg hsmall]
    omega

theorem flattenProperty_cases (h : fdt.Sized s) (hg : s.Good) (p : Property) :
    (s.ensureSpace p.value.length = .null ∧ (flattenProperty junk p fdt).2 = some (-ENOMEM)) ∨
      ∃ s₁ fdt₁, s.ensureSpace p.value.length = .at s₁ ∧ fdt₁.Sized s₁ ∧ fdt.Grown junk fdt₁ ∧
        (s₁.dtNextofs + 12 + p.value.length ≤ bufSize s₁.dtReallocs →
          flattenProperty junk p fdt = (fdt₁.putProperty p, some 0)) ∧
        (bufSize s₁.dtReallocs < s₁.dtNextofs + 12 + p.value.length → (flattenProperty junk p fdt).2 = none) := by
  unfold flattenProperty
  obtain ⟨hnull, hneg⟩ | ⟨s₁, fdt₁, hat, heq, h₁, hgrown⟩ := @fdtEnsureSpace_sized junk fdt s h hg p.value.length
  · simp only
    rw [if_pos hneg]
    exact .inl ⟨hnull, rfl⟩
  refine .inr ⟨s₁, fdt₁, hat, h₁, hgrown, ?_⟩
  obtain ⟨hg₁, hstr⟩ := hg.ensureSpace hat
  have hroom := hg.property_room hat
  simp only [heq, lt_irrefl, if_false]
  rw [Fdt.write, List.length_append, fdt32_length, fdt32_length]
  have hdt := h₁.dt
  have hnext := h₁.dtNextofs
  by_cases htag : fdt₁.dtNextofs + (4 + 4) ≤ fdt₁.dt.length
  · rw [if_pos htag]
    have hsame : (splice fdt₁.dtNextofs (fdt32 fdtProp ++ fdt32 p.value.length) fdt₁.dt).length = fdt₁.dt.length :=
      splice_length (by rw [List.length_append, fdt32_length, fdt32_length]; exact htag)
    simp only
    have h₂ : ({ fdt₁ with
        dt := splice fdt₁.dtNextofs (fdt32 fdtProp ++ fdt32 p.value.length) fdt₁.dt } : Fdt).Sized s₁ :=
      { h₁ with dt := hsame.trans hdt }
    constructor
    · intro hfits
      simp only [dtAddString_sized h₂ hg₁ hstr (hroom hfits), Fdt.putString, ne_eq, not_true_eq_false, if_false]
      rw [Fdt.write, if_pos]
      · rfl
      · simp only [List.length_append, fdt32_length, hsame]
        omega
    · intro hno
      obtain ⟨hcursor, hkeep⟩ := @dtAddString_dt junk
        { fdt₁ with dt := splice fdt₁.dtNextofs (fdt32 fdtProp ++ fdt32 p.value.length) fdt₁.dt } p.name
      generalize dtAddString junk
        { fdt₁ with dt := splice fdt₁.dtNextofs (fdt32 fdtProp ++ fdt32 p.value.length) fdt₁.dt } p.name = r at *
      obtain ⟨fdt₃, _ | nameoff⟩ := r
      · rfl
      simp only at hcursor hkeep ⊢
      by_cases hmoved : fdt₃.dtReallocs = fdt₁.dtReallocs
      · rw [if_neg (not_not.2 hmoved), Fdt.write, hkeep hmoved, hcursor, hsame, if_neg]
        simp only [List.length_append, fdt32_length]
        omega
      · rw [if_pos hmoved]
  · rw [if_neg htag]
    exact ⟨fun hno => by omega, fun _ => rfl⟩

theorem Fdt.Sized.putEndNode (h : fdt.Sized s) (hfits : s.dtNextofs + 4 ≤ bufSize s.dtReallocs) :
    fdt.putEndNode.Sized { s with dtNextofs := dtNextOfs s.dtNextofs 4 } := by
  have hdt := h.dt
  have hnext := h.dtNextofs
  exact { h with
    dt := (splice_length (by rw [fdt32_length]; omega)).trans hdt
    dtNextofs := congrArg (dtNextOfs · 4) hnext }

theorem flattenEndNode_cases (h : fdt.Sized s) (hg : s.Good) :
    (s.endNode = .fault ∧ (flattenEndNode junk fdt).2 = none) ∨
      (s.endNode = .null ∧ (flattenEndNode junk fdt).2 = some (-ENOMEM)) ∨
        s.dtNextofs + 4 ≤ bufSize s.dtReallocs ∧ ∃ s₁ fdt₁, s.endNode = .at s₁ ∧ fdt₁.Sized s₁ ∧
          fdt.putEndNode.Grown junk fdt₁ ∧ flattenEndNode junk fdt = (fdt₁, some 0) := by
  have hdt := h.dt
  have hnext := h.dtNextofs
  unfold flattenEndNode Sizes.endNode
  rw [Fdt.write, fdt32_length]
  by_cases hfits : s.dtNextofs + 4 ≤ bufSize s.dtReallocs
  · rw [if_pos hfits, if_pos (by omega)]
    have hg' : ({ s with dtNextofs := dtNextOfs s.dtNextofs 4 } : Sizes).Good :=
      { hg with aligned := dvd_align4 _, dtNextofs := align4_lt _ }
    have h' := h.putEndNode hfits
    obtain ⟨hnull, hneg⟩ | ⟨s₁, fdt₁, hat, heq, h₁, hgrown⟩ := @fdtEnsureSpace_sized junk _ _ h' hg' 0
    · rw [Fdt.putEndNode] at hneg
      simp only [hneg, if_true]
      exact .inr (.inl ⟨hnull, trivial⟩)
    · refine .inr (.inr ⟨hfits, s₁, fdt₁, hat, h₁, hgrown, ?_⟩)
      rw [Fdt.putEndNode] at heq
      simp only [heq, lt_irrefl, if_false]
  · rw [if_neg hfits, if_neg (by omega)]
    exact .inl ⟨rfl, rfl⟩

/-! ## Runs -/

/-- What the flattener comes to where the walk comes to `w`. -/
inductive Fdt.Reaches : Walk → Fdt × Option Int → Prop
  | fault {fdt : Fdt} : Reaches .fault (fdt, none)
  | null {fdt : Fdt} : Reaches .null (fdt, some (-ENOMEM))
  | at {s : Sizes} {fdt : Fdt} : fdt.Sized s → s.Good → Reaches (.at s) (fdt, some 0)

theorem Fdt.Reaches.of_none {r : Fdt × Option Int} (h : r.2 = none) : Fdt.Reaches .fault r := by
  obtain ⟨fdt, ret⟩ := r
  cases h
  exact .fault

theorem Fdt.Reaches.of_enomem {r : Fdt × Option Int} (h : r.2 = some (-ENOMEM)) : Fdt.Reaches .null r := by
  obtain ⟨fdt, ret⟩ := r
  cases h
  exact .null

theorem Fdt.Sized.putBeginNode (h : fdt.Sized s) {name : CString}
    (hfits : s.dtNextofs + 4 + min name.1.length 1024 ≤ bufSize s.dtReallocs) :
    (fdt.putBeginNode name).Sized { s with dtNextofs := dtNextOfs s.dtNextofs (4 + nameLength name.1.length + 1) } := by
  have hdt := h.dt
  have hnext := h.dtNextofs
  refine { h with dt := (splice_length ?_).trans hdt, dtNextofs := congrArg (dtNextOfs · _) hnext }
  rw [List.length_append, fdt32_length, List.length_take]
  omega

theorem Fdt.Sized.putProperty (h : fdt.Sized s) {p : Property} (hstr : s.strNextofs + 1024 ≤ bufSize s.strReallocs)
    (hfits : s.dtNextofs + 12 + p.value.length ≤ bufSize s.dtReallocs) :
    (fdt.putProperty p).Sized { s with
      dtNextofs := dtNextOfs s.dtNextofs (12 + p.value.length)
      strNextofs := if p.name.1.length ≤ 1023 then s.strNextofs + p.name.1.length + 1 else s.strNextofs } := by
  have hdt := h.dt
  have hnext := h.dtNextofs
  have hstrings := h.strings
  have hstrNext := h.strNextofs
  have hhead : (splice fdt.dtNextofs (fdt32 fdtProp ++ fdt32 p.value.length) fdt.dt).length = fdt.dt.length :=
    splice_length (by rw [List.length_append, fdt32_length, fdt32_length]; omega)
  refine { h with
    dt := (splice_length ?_).trans (hhead.trans hdt)
    strings := (splice_length ?_).trans hstrings
    dtNextofs := congrArg (dtNextOfs · _) hnext
    strNextofs := ?_ }
  · rw [hhead, List.length_append, fdt32_length]
    omega
  · rw [List.length_take]
    omega
  · simp only [Fdt.putProperty, Fdt.putString, hstrNext]

theorem flattenToken_reaches (h : fdt.Sized s) (hg : s.Good) (tok : Token) :
    Fdt.Reaches (s.token tok) (flattenToken junk tok fdt) := by
  cases tok with
  | beginNode name =>
    simp only [Sizes.token, flattenToken, Sizes.beginNode]
    obtain ⟨hnull, hret⟩ | ⟨s₁, fdt₁, hat, h₁, -, hput, hno⟩ := @flattenBeginNode_cases junk fdt s h hg name
    · rw [hnull]
      exact .of_enomem hret
    · obtain ⟨hg₁, -⟩ := hg.ensureSpace hat
      simp only [hat, Walk.andThen]
      by_cases hfits : s₁.dtNextofs + 4 + min name.1.length 1024 ≤ bufSize s₁.dtReallocs
      · rw [if_pos hfits, hput hfits]
        exact .at (h₁.putBeginNode hfits) { hg₁ with aligned := dvd_align4 _, dtNextofs := align4_lt _ }
      · rw [if_neg hfits]
        exact .of_none (hno (by omega))
  | endNode =>
    simp only [Sizes.token, flattenToken]
    obtain ⟨hfault, hret⟩ | ⟨hnull, hret⟩ | ⟨-, s₁, fdt₁, hat, h₁, -, heq⟩ := @flattenEndNode_cases junk fdt s h hg
    · rw [hfault]
      exact .of_none hret
    · rw [hnull]
      exact .of_enomem hret
    · rw [hat, heq]
      exact .at h₁ (@Sizes.Good.token _ _ hg .endNode hat)
  | prop p =>
    simp only [Sizes.token, flattenToken, Sizes.property]
    obtain ⟨hnull, hret⟩ | ⟨s₁, fdt₁, hat, h₁, -, hput, hno⟩ := @flattenProperty_cases junk fdt s h hg p
    · rw [hnull]
      exact .of_enomem hret
    · obtain ⟨hg₁, hstr⟩ := hg.ensureSpace hat
      simp only [hat, Walk.andThen]
      by_cases hfits : s₁.dtNextofs + 12 + p.value.length ≤ bufSize s₁.dtReallocs
      · rw [if_pos hfits, hput hfits]
        refine .at (h₁.putProperty hstr hfits) { hg₁ with
          aligned := dvd_align4 _, dtNextofs := align4_lt _, strNextofs := ?_ }
        simp only
        split <;> omega
      · rw [if_neg hfits]
        exact .of_none (hno (by omega))
  | nop => exact .at h hg

end

theorem flattenTokens_reaches {junk : Junk} : ∀ {toks : List Token} {fdt : Fdt} {s : Sizes}, fdt.Sized s → s.Good →
    Fdt.Reaches (Sizes.tokens toks s) (flattenTokens junk toks fdt)
  | [], _, _, h, hg => .at h hg
  | tok :: toks, fdt, s, h, hg => by
    rw [Sizes.tokens, flattenTokens]
    have hstep := @flattenToken_reaches junk fdt s h hg tok
    generalize s.token tok = w, flattenToken junk tok fdt = r at hstep
    cases hstep with
    | fault => exact .fault
    | null => exact .null
    | «at» h₁ hg₁ => exact flattenTokens_reaches h₁ hg₁

theorem Sizes.Good.endNode {s s' : Sizes} (h : s.Good) (heq : s.endNode = .at s') :
    s'.dtNextofs + 1024 ≤ bufSize s'.dtReallocs ∧ s'.dtNextofs = s.dtNextofs + 4 := by
  have hsize := bufSize_bounds h.dtReallocs
  have haligned := h.aligned
  unfold Sizes.endNode at heq
  split at heq
  · next hfits =>
    have hnext : dtNextOfs s.dtNextofs 4 = s.dtNextofs + 4 := by
      rw [dtNextOfs, align4_eq (by omega), pad4]
      omega
    obtain ⟨rfl, -, -⟩ := Sizes.ensureSpace_eq_at heq
    simp only [hnext]
    exact ⟨reallocsFor_room h.dtReallocs (by omega) (by decide), trivial⟩
  · cases heq

theorem Sizes.Good.tokens : ∀ {toks : List Token} {s s' : Sizes}, s.Good → Sizes.tokens toks s = .at s' → s'.Good
  | [], s, s', h, heq => by
    cases heq
    exact h
  | tok :: toks, s, s', h, heq => by
    rw [Sizes.tokens] at heq
    cases htok : s.token tok with
    | fault => rw [htok] at heq; cases heq
    | null => rw [htok] at heq; cases heq
    | «at» s₁ =>
      rw [htok] at heq
      exact (h.token htok).tokens heq

theorem sizesWalk_room {node : DeviceNode} {s : Sizes} (h : sizesWalk node = .at s) :
    s.Good ∧ s.dtNextofs + 1024 ≤ bufSize s.dtReallocs := by
  obtain ⟨name, phandle, properties, children⟩ := node
  rw [sizesWalk, nodeTokens, Sizes.tokens_append] at h
  cases hbody : Sizes.tokens (.beginNode name :: (properties.map .prop ++ nodesTokens children)) .start with
  | fault => rw [hbody] at h; cases h
  | null => rw [hbody] at h; cases h
  | «at» s₁ =>
    have hg₁ := Sizes.Good.start.tokens hbody
    rw [hbody] at h
    cases hend : s₁.endNode with
    | fault => simp only [Walk.andThen, Sizes.tokens, Sizes.token, hend] at h; cases h
    | null => simp only [Walk.andThen, Sizes.tokens, Sizes.token, hend] at h; cases h
    | «at» s₂ =>
      simp only [Walk.andThen, Sizes.tokens, Sizes.token, hend] at h
      cases h
      exact ⟨@Sizes.Good.token _ _ hg₁ .endNode hend, (hg₁.endNode hend).1⟩

/-! ## The result -/

theorem flattenFinish_eq {junk : Junk} {fdt : Fdt} {s : Sizes} (h : fdt.Sized s) (hg : s.Good)
    (hroom : s.dtNextofs + 1024 ≤ bufSize s.dtReallocs) :
    ∃ dt, Regrown junk (splice s.dtNextofs (fdt32 fdtEnd) fdt.dt) dt ∧ s.dtNextofs + 4 + s.strNextofs ≤ dt.length ∧
      flattenFinish junk fdt = some (some (splice 0 (flattenHeader (s.dtNextofs + 4) s.strNextofs)
        (splice (s.dtNextofs + 4) (fdt.strings.take s.strNextofs) dt))) := by
  have hsize := bufSize_bounds hg.dtReallocs
  have hstrSize := bufSize_bounds hg.strReallocs
  have hstr := hg.strNextofs
  have haligned := hg.aligned
  have hstrings := h.strings
  have hofs : dtNextOfs s.dtNextofs 4 = s.dtNextofs + 4 := by
    rw [dtNextOfs, align4_eq (by omega), pad4]
    omega
  have hlen : (splice s.dtNextofs (fdt32 fdtEnd) fdt.dt).length = bufSize s.dtReallocs := by
    rw [splice_length (by rw [fdt32_length, h.dt]; omega), h.dt]
  unfold flattenFinish
  rw [Fdt.write, fdt32_length, h.dtNextofs, if_pos (by rw [h.dt]; omega)]
  simp only [hofs, hlen, h.strNextofs]
  rw [sub32_of_le (by omega) (by omega)]
  by_cases hsmall : bufSize s.dtReallocs - (s.dtNextofs + 4) < s.strNextofs
  · rw [if_pos hsmall, Nat.mod_eq_of_lt (by omega)]
    have hnew := realloc_length (junk (fdt.dtReallocs + fdt.strReallocs)) (s.dtNextofs + 4 + s.strNextofs)
      (splice s.dtNextofs (fdt32 fdtEnd) fdt.dt)
    rw [if_neg (List.ne_nil_of_length_pos (by omega)), if_pos (by omega)]
    exact ⟨_, .inr ⟨_, _, by omega, rfl⟩, by omega, rfl⟩
  · rw [if_neg hsmall, if_neg (List.ne_nil_of_length_pos (by omega)), if_pos (by omega)]
    exact ⟨_, .inl rfl, by omega, rfl⟩

/-- What `of_flatten_dtb` comes to where the walk comes to `w`. -/
inductive Flattened : Walk → Option (Option Bytes) → Prop
  | fault : Flattened .fault none
  | null : Flattened .null (some none)
  | blob {s : Sizes} {blob : Bytes} : Flattened (.at s) (some (some blob))

/-- The walk decides what `of_flatten_dtb` comes to. -/
theorem ofFlattenDtb_walk (junk : Junk) (node : DeviceNode) : Flattened (sizesWalk node) (ofFlattenDtb junk node) := by
  unfold ofFlattenDtb
  rw [flattenNode_tokens]
  have hrun := @flattenTokens_reaches junk (nodeTokens node) _ _ Fdt.Sized.start Sizes.Good.start
  have hroom := @sizesWalk_room node
  rw [sizesWalk] at hroom ⊢
  generalize Sizes.tokens (nodeTokens node) .start = w, flattenTokens junk (nodeTokens node) .start = r at hrun hroom
  cases hrun with
  | fault => exact .fault
  | null => exact .null
  | «at» h hg =>
    obtain ⟨-, hspace⟩ := hroom rfl
    obtain ⟨dt, -, -, hblob⟩ := @flattenFinish_eq junk _ _ h hg hspace
    simp only [ne_eq, not_true_eq_false, if_false, hblob]
    exact .blob

theorem ofFlattenDtb_eq_none_iff {junk : Junk} {node : DeviceNode} :
    ofFlattenDtb junk node = none ↔ sizesWalk node = .fault := by
  have h := ofFlattenDtb_walk junk node
  generalize ofFlattenDtb junk node = r, sizesWalk node = w at h
  cases h <;> simp

theorem ofFlattenDtb_eq_null_iff {junk : Junk} {node : DeviceNode} :
    ofFlattenDtb junk node = some none ↔ sizesWalk node = .null := by
  have h := ofFlattenDtb_walk junk node
  generalize ofFlattenDtb junk node = r, sizesWalk node = w at h
  cases h <;> simp

/-! ## Names that are too long -/

/-- A name that `lstrcpy` does not take. -/
def LongName (name : CString) : Prop := 1023 < name.1.length

/-- The names of a node and its properties are not too long. -/
def NamesFit (node : DeviceNode) : Prop := ¬ LongName node.name ∧ ∀ p ∈ node.properties, ¬ LongName p.name

/-- What a token adds to the buffers, at most. -/
def Token.load : Token → Nat
  | .beginNode name => name.1.length + 8
  | .endNode => 8
  | .prop p => p.name.1.length + p.value.length + 16
  | .nop => 0

/-- The cursors have not gone further than the tokens so far, or one has gone
backwards below 0. -/
structure Sizes.Within (s : Sizes) (load : Nat) : Prop where
  strNextofs : s.strNextofs ≤ load
  dtNextofs : s.dtNextofs ≤ 296 + load ∨ 2 ^ 32 - 24 ≤ s.dtNextofs

/-- A buffer that is doubled is not longer than what is put in. -/
theorem lt_of_sub32_lt {size nextofs need load : Nat} (hsize : size ≤ 2 ^ 31) (hlt : nextofs < 2 ^ 32)
    (hwithin : nextofs ≤ load ∨ 2 ^ 31 < nextofs) (h : sub32 size nextofs < need) : size < load + need := by
  by_cases hle : nextofs ≤ size
  · rw [sub32_of_le hle (by omega)] at h
    omega
  · unfold sub32 at h
    omega

/-- `fdt_ensure_space` fails only if 2 GiB are put into a buffer. -/
theorem Sizes.Within.ensureSpace_null {s : Sizes} {load dtsize : Nat} (hg : s.Good) (h : s.Within load)
    (hnull : s.ensureSpace dtsize = .null) : 2 ^ 31 < load + dtsize + 1320 := by
  have hdtSize := bufSize_bounds hg.dtReallocs
  have hstrSize := bufSize_bounds hg.strReallocs
  have hlast : bufSize 15 = 2 ^ 31 := by decide
  have hstr := hg.strNextofs
  have hdt := hg.dtNextofs
  have hwithin := h.dtNextofs
  unfold Sizes.ensureSpace at hnull
  simp only at hnull
  split at hnull
  · next hor =>
    rcases hor with hfull | hfull
    · unfold reallocsFor at hfull
      split at hfull
      · next hsmall =>
        have hk : s.strReallocs = 15 := by omega
        have := lt_of_sub32_lt hstrSize.2 (by omega) (.inl h.strNextofs) hsmall
        rw [hk] at this
        omega
      · have := hg.strReallocs
        omega
    · unfold reallocsFor at hfull
      split at hfull
      · next hsmall =>
        have hk : s.dtReallocs = 15 := by omega
        have := lt_of_sub32_lt hdtSize.2 hdt (hwithin.imp_right (by omega)) hsmall
        rw [hk] at this
        omega
      · have := hg.dtReallocs
        omega
  · cases hnull

theorem Sizes.Within.ensureSpace {s s' : Sizes} {load dtsize : Nat} (h : s.Within load)
    (hat : s.ensureSpace dtsize = .at s') : s'.Within load := by
  obtain ⟨rfl, -, -⟩ := Sizes.ensureSpace_eq_at hat
  exact ⟨h.strNextofs, h.dtNextofs⟩

theorem dtNextOfs_le {ofs len : Nat} (h : ofs + len + 3 < 2 ^ 32) : dtNextOfs ofs len ≤ ofs + len + 3 := by
  rw [dtNextOfs, align4_eq h]
  have := pad4_lt (ofs + len)
  omega

/-- Behind a name that is too long the cursor is 20 bytes further back. -/
theorem dtNextOfs_long {ofs : Nat} (h : ofs < 2 ^ 31) :
    dtNextOfs ofs (4 + (2 ^ 32 - 28) + 1) ≤ ofs ∨ 2 ^ 32 - 24 ≤ dtNextOfs ofs (4 + (2 ^ 32 - 28) + 1) := by
  unfold dtNextOfs align4
  omega

theorem Sizes.Within.token {s : Sizes} {load : Nat} (hg : s.Good) (h : s.Within load) (tok : Token) :
    (s.token tok = .null → 2 ^ 31 < load + tok.load + 1320) ∧
      ∀ s', s.token tok = .at s' → s'.Within (load + tok.load) := by
  cases tok with
  | beginNode name =>
    simp only [Sizes.token, Sizes.beginNode, Token.load]
    cases hspace : s.ensureSpace 0 with
    | fault => exact absurd hspace (Sizes.ensureSpace_ne_fault s 0)
    | null =>
      have := h.ensureSpace_null hg hspace
      exact ⟨fun _ => by omega, fun s' heq => by cases heq⟩
    | «at» s₁ =>
      simp only [Walk.andThen]
      have hsize := bufSize_bounds (hg.ensureSpace hspace).1.dtReallocs
      obtain ⟨hstr, hdt⟩ := h.ensureSpace hspace
      split
      · next hfits =>
        refine ⟨fun hnull => (by cases hnull), fun s' heq => ?_⟩
        cases heq
        refine ⟨by simp only; omega, ?_⟩
        simp only [nameLength]
        split
        · next hshort =>
          have := @dtNextOfs_le s₁.dtNextofs (4 + name.1.length + 1) (by omega)
          omega
        · have := @dtNextOfs_long s₁.dtNextofs (by omega)
          omega
      · exact ⟨fun hnull => (by cases hnull), fun s' heq => by cases heq⟩
  | endNode =>
    simp only [Sizes.token, Sizes.endNode, Token.load]
    have hsize := bufSize_bounds hg.dtReallocs
    split
    · next hfits =>
      have hnext := @dtNextOfs_le s.dtNextofs 4 (by omega)
      have hg' : ({ s with dtNextofs := dtNextOfs s.dtNextofs 4 } : Sizes).Good :=
        { hg with aligned := dvd_align4 _, dtNextofs := align4_lt _ }
      obtain ⟨hstr, hdt⟩ := h
      have h' : ({ s with dtNextofs := dtNextOfs s.dtNextofs 4 } : Sizes).Within (load + 8) :=
        ⟨by simp only; omega, by simp only; omega⟩
      exact ⟨fun hnull => by have := h'.ensureSpace_null hg' hnull; omega, fun s' hat => h'.ensureSpace hat⟩
    · exact ⟨fun hnull => (by cases hnull), fun s' heq => by cases heq⟩
  | prop p =>
    simp only [Sizes.token, Sizes.property, Token.load]
    cases hspace : s.ensureSpace p.value.length with
    | fault => exact absurd hspace (Sizes.ensureSpace_ne_fault s _)
    | null =>
      have := h.ensureSpace_null hg hspace
      exact ⟨fun _ => by omega, fun s' heq => by cases heq⟩
    | «at» s₁ =>
      simp only [Walk.andThen]
      have hsize := bufSize_bounds (hg.ensureSpace hspace).1.dtReallocs
      obtain ⟨hstr, hdt⟩ := h.ensureSpace hspace
      split
      · next hfits =>
        refine ⟨fun hnull => (by cases hnull), fun s' heq => ?_⟩
        cases heq
        have hnext := @dtNextOfs_le s₁.dtNextofs (12 + p.value.length) (by omega)
        refine ⟨?_, by simp only; omega⟩
        simp only
        split <;> omega
      · exact ⟨fun hnull => (by cases hnull), fun s' heq => by cases heq⟩
  | nop => exact ⟨fun hnull => (by cases hnull), fun s' heq => by cases heq; exact h⟩

theorem Sizes.Within.tokens : ∀ {toks : List Token} {s : Sizes} {load : Nat}, s.Good → s.Within load →
    Sizes.tokens toks s = .null → 2 ^ 31 < load + (toks.map Token.load).sum + 1320
  | [], s, load, _, _, hnull => by cases hnull
  | tok :: toks, s, load, hg, h, hnull => by
    rw [Sizes.tokens] at hnull
    rw [List.map_cons, List.sum_cons]
    obtain ⟨hstep, hat⟩ := h.token hg tok
    cases htok : s.token tok with
    | fault => rw [htok] at hnull; cases hnull
    | null =>
      have := hstep htok
      omega
    | «at» s₁ =>
      rw [htok] at hnull
      have := (hat s₁ htok).tokens (hg.token htok) hnull
      omega

/-- `of_flatten_dtb` returns `NULL` for no tree of less than 2 GiB. -/
theorem ofFlattenDtb_ne_null {node : DeviceNode} (h : ((nodeTokens node).map Token.load).sum + 1320 ≤ 2 ^ 31)
    (junk : Junk) :
    ofFlattenDtb junk node ≠ some none := by
  intro hnull
  have := @Sizes.Within.tokens _ _ 0 Sizes.Good.start ⟨le_rfl, .inl le_rfl⟩ (ofFlattenDtb_eq_null_iff.1 hnull)
  omega

/-- **A name that is too long is reported** by `of_flatten_dtb` exactly for the
trees for which a buffer would have to be doubled to 4 GiB. -/
theorem long_names_reported_iff (node : DeviceNode) :
    (¬ node.All NamesFit → ∀ junk, ofFlattenDtb junk node = some none) ↔
      (¬ node.All NamesFit → sizesWalk node = .null) := by
  constructor
  · intro h hlong
    exact ofFlattenDtb_eq_null_iff.1 (h hlong fun _ _ => 0)
  · intro h hlong junk
    exact ofFlattenDtb_eq_null_iff.2 (h hlong)

/-- A name of 1024 letters. -/
def longName : CString := ⟨List.replicate 1024 97, by decide +kernel⟩

/-- A root with that name, and one with a property of that name: a blob is
returned for both. -/
theorem long_names_returned : ¬ (DeviceNode.node longName 0 [] []).All NamesFit ∧
    ¬ (DeviceNode.node .empty 0 [⟨longName, []⟩] []).All NamesFit ∧
    (∃ blob, ofFlattenDtb (fun _ _ => 0) (.node longName 0 [] []) = some (some blob)) ∧
    ∃ blob, ofFlattenDtb (fun _ _ => 0) (.node .empty 0 [⟨longName, []⟩] []) = some (some blob) := by
  have hlong : LongName longName := by
    rw [LongName, longName, List.length_replicate]
    decide
  have hroot : sizesWalk (.node longName 0 [] []) = .at ⟨0, 280, 0, 0⟩ := by decide +kernel
  have hprop : sizesWalk (.node .empty 0 [⟨longName, []⟩] []) = .at ⟨0, 320, 0, 0⟩ := by decide +kernel
  refine ⟨fun h => h.1.1 hlong, fun h => h.1.2 _ (.head _) hlong, ?_, ?_⟩
  · have h := ofFlattenDtb_walk (fun _ _ => 0) (.node longName 0 [] [])
    rw [hroot] at h
    generalize ofFlattenDtb (fun _ _ => 0) (.node longName 0 [] []) = r at h
    cases h
    exact ⟨_, rfl⟩
  · have h := ofFlattenDtb_walk (fun _ _ => 0) (.node .empty 0 [⟨longName, []⟩] [])
    rw [hprop] at h
    generalize ofFlattenDtb (fun _ _ => 0) (.node .empty 0 [⟨longName, []⟩] []) = r at h
    cases h
    exact ⟨_, rfl⟩

end DtUtils
