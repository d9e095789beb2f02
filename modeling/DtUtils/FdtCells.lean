/-
What the bytes of a flattened tree are, wherever the buffers grow: a cell is
written by the encoder, or left as it was and needed (the NUL of a name), or
left and not needed. Bytes that are left are zeros in the first 64 KiB of a
buffer, which `xzalloc` has cleared, and behind that what `realloc` left there.

`flatten_sound_iff`: no write misses its buffer, and nothing that a reader
needs is left to `realloc`, exactly for the trees that fit at each token after
one doubling and whose NULs all come in the first 64 KiB.
-/
import DtUtils.FdtSizes

namespace DtUtils
open Lib

/-! ## Cells -/

inductive FdtCell
  /-- The encoder has written it. -/
  | written (b : UInt8)
  /-- Not written; a reader expects 0. -/
  | left
  /-- Not written; no reader looks at it. -/
  | pad
deriving DecidableEq

/-- What a reader finds in the place of a cell is what the encoder meant. -/
def FdtCell.Holds : FdtCell → Option UInt8 → Prop
  | .written b, o => o = some b
  | .left, o => o = some 0
  | .pad, _ => True

def writtenCells (bs : Bytes) : List FdtCell := bs.map .written

/-- Cells up to the next multiple of 4. -/
def padCells (n : Nat) : List FdtCell := List.replicate (pad4 n - n) .pad

/-- A token's cells in the structure block; a property's name is at `off` in
the strings. -/
def Token.cells (off : Nat) : Token → List FdtCell
  | .beginNode name => writtenCells (fdt32 fdtBeginNode ++ name.1) ++ .left :: padCells (4 + name.1.length + 1)
  | .endNode => writtenCells (fdt32 fdtEndNode)
  | .prop p =>
    writtenCells (fdt32 fdtProp ++ fdt32 p.value.length ++ (fdt32 off ++ p.value)) ++ padCells (12 + p.value.length)
  | .nop => []

/-- A token's cells in the strings. -/
def Token.strings : Token → List FdtCell
  | .prop p => writtenCells p.name.1 ++ [.left]
  | .beginNode _ | .endNode | .nop => []

/-- The cells of tokens whose names begin at `off` in the strings. -/
def structCells : List Token → Nat → List FdtCell
  | [], _ => []
  | tok :: toks, off => tok.cells off ++ structCells toks (off + tok.strings.length)

def stringCells (toks : List Token) : List FdtCell := toks.flatMap Token.strings

/-- The cells behind the header: the memory reservations, the tokens and
`FDT_END`. -/
def blockCells (node : DeviceNode) : List FdtCell :=
  List.replicate (40 + 16 * 16) .left ++ structCells (nodeTokens node) 0 ++ writtenCells (fdt32 fdtEnd)

/-- The cells of the blob, up to its `totalsize`. -/
def blobCells (node : DeviceNode) : List FdtCell :=
  writtenCells (flattenHeader (blockCells node).length (stringCells (nodeTokens node)).length) ++
    (blockCells node).drop 40 ++ stringCells (nodeTokens node)

/-! ## Buffers of cells -/

/-- A buffer has the cells in front of it; what is not written is 0, or behind
the first 64 KiB some junk. -/
structure Filled (junk : Junk) (cells : List FdtCell) (buf : Bytes) : Prop where
  written : ∀ (i : Nat) (b : UInt8), cells[i]? = some (FdtCell.written b) → buf[i]? = some b
  rest : ∀ (i : Nat) (b : UInt8), buf[i]? = some b → (∀ c, cells[i]? ≠ some (FdtCell.written c)) →
    (i < fdtBufsize ∧ b = 0) ∨ fdtBufsize ≤ i ∧ ∃ n, b = junk n i

section
variable {junk : Junk} {cells : List FdtCell} {buf : Bytes}

theorem getElem?_writtenCells {bs : Bytes} {i : Nat} {b : UInt8} :
    (writtenCells bs)[i]? = some (.written b) ↔ bs[i]? = some b := by
  rw [writtenCells, List.getElem?_map]
  cases bs[i]? <;> simp

@[simp] theorem writtenCells_length (bs : Bytes) : (writtenCells bs).length = bs.length := List.length_map ..

theorem Filled.regrown {buf' : Bytes} (h : Filled junk cells buf) (hlen : fdtBufsize ≤ buf.length)
    (hgrown : Regrown junk buf buf') : Filled junk cells buf' := by
  obtain rfl | ⟨n, size, hle, rfl⟩ := hgrown
  · exact h
  have hbuf : ∀ i, i < buf.length → (realloc (junk n) size buf)[i]? = buf[i]? := by
    intro i hi
    rw [realloc, List.getElem?_append_left (by rw [List.length_take]; omega), List.getElem?_take, if_pos (by omega)]
  constructor
  · intro i b hi
    have hget := h.written i b hi
    obtain ⟨hlt, -⟩ := List.getElem?_eq_some_iff.1 hget
    rw [hbuf i hlt, hget]
  · intro i b hi hno
    by_cases hlt : i < buf.length
    · rw [hbuf i hlt] at hi
      exact h.rest i b hi hno
    · refine .inr ⟨by omega, n, ?_⟩
      rw [realloc, List.take_of_length_le hle, List.getElem?_append_right (by omega), List.getElem?_map] at hi
      obtain ⟨k, hk, rfl⟩ := Option.map_eq_some_iff.1 hi
      obtain ⟨_, hrange⟩ := List.getElem?_eq_some_iff.1 hk
      rw [List.getElem_range] at hrange
      congr 1
      omega

theorem Filled.splice {x : Bytes} {off : Nat} (h : Filled junk cells buf) (hoff : off = cells.length)
    (hle : off + x.length ≤ buf.length) : Filled junk (cells ++ writtenCells x) (splice off x buf) := by
  subst hoff
  have hget : ∀ i, (Lib.splice cells.length x buf)[i]? =
      if i < cells.length then buf[i]? else if i < cells.length + x.length then x[i - cells.length]? else buf[i]? :=
    fun i => getElem?_splice (by omega)
  constructor
  · intro i b hi
    rw [hget]
    by_cases hlt : i < cells.length
    · rw [List.getElem?_append_left hlt] at hi
      rw [if_pos hlt]
      exact h.written i b hi
    · rw [List.getElem?_append_right (by omega), getElem?_writtenCells] at hi
      obtain ⟨hx, -⟩ := List.getElem?_eq_some_iff.1 hi
      rw [if_neg hlt, if_pos (by omega), hi]
  · intro i b hi hno
    rw [hget] at hi
    by_cases hlt : i < cells.length
    · rw [if_pos hlt] at hi
      rw [List.getElem?_append_left hlt] at hno
      exact h.rest i b hi hno
    · rw [if_neg hlt] at hi
      by_cases hx : i < cells.length + x.length
      · rw [if_pos hx] at hi
        refine absurd ?_ (hno b)
        rw [List.getElem?_append_right (by omega), getElem?_writtenCells, hi]
      · rw [if_neg hx] at hi
        refine h.rest i b hi fun c => ?_
        rw [List.getElem?_eq_none (by omega)]
        exact fun h => by cases h

theorem Filled.skip {skipped : List FdtCell} (h : Filled junk cells buf) (hskip : ∀ b, .written b ∉ skipped) :
    Filled junk (cells ++ skipped) buf := by
  have hiff : ∀ (i : Nat) (b : UInt8), (cells ++ skipped)[i]? = some (.written b) ↔ cells[i]? = some (.written b) := by
    intro i b
    by_cases hlt : i < cells.length
    · rw [List.getElem?_append_left hlt]
    · rw [List.getElem?_append_right (by omega), List.getElem?_eq_none (by omega : cells.length ≤ i)]
      exact iff_of_false (fun h => hskip b (List.mem_of_getElem? h)) (fun h => by cases h)
  exact ⟨fun i b hi => h.written i b ((hiff i b).1 hi),
      fun i b hi hno => h.rest i b hi fun c hc => hno c ((hiff i c).2 hc)⟩

theorem Filled.holds (h : Filled junk cells buf) (hle : cells.length ≤ buf.length) {i : Nat} {c : FdtCell}
    (hc : cells[i]? = some c) (hleft : c = .left → i < fdtBufsize) : c.Holds buf[i]? := by
  obtain ⟨hlt, -⟩ := List.getElem?_eq_some_iff.1 hc
  cases c with
  | written b => exact h.written i b hc
  | left =>
    have hget := List.getElem?_eq_getElem (show i < buf.length by omega)
    obtain ⟨-, hzero⟩ | ⟨hge, -⟩ := h.rest i _ hget fun b hb => by rw [hc] at hb; cases hb
    · rw [hget, hzero]
      rfl
    · have := hleft rfl
      omega
  | pad => trivial

theorem Filled.junk_left (h : Filled (fun _ _ => 1) cells buf) {i : Nat} (hc : cells[i]? = some .left)
    (hholds : FdtCell.Holds .left buf[i]?) : i < fdtBufsize := by
  by_contra hge
  obtain ⟨hlt, -⟩ | ⟨-, n, hone⟩ := h.rest i 0 hholds fun b hb => by rw [hc] at hb; cases hb
  · exact hge hlt
  · cases hone

end

/-! ## Steps -/

/-- The cells of both buffers, up to the cursors. -/
structure Encoded (junk : Junk) (fdt : Fdt) (cells strs : List FdtCell) : Prop where
  dt : Filled junk cells fdt.dt
  dtNextofs : fdt.dtNextofs = cells.length
  strings : Filled junk strs fdt.strings
  strNextofs : fdt.strNextofs = strs.length

theorem Filled.zeros (junk : Junk) (cells : List FdtCell) (h : ∀ b, FdtCell.written b ∉ cells) (n : Nat)
    (hn : n ≤ fdtBufsize) :
    Filled junk cells (List.replicate n 0) := by
  constructor
  · intro i b hi
    exact absurd (List.mem_of_getElem? hi) (h b)
  · intro i b hi _
    rw [List.getElem?_replicate] at hi
    split at hi
    · cases hi
      exact .inl ⟨by omega, rfl⟩
    · cases hi

theorem Encoded.start (junk : Junk) : Encoded junk .start (List.replicate (40 + 16 * 16) .left) [] where
  dt := Filled.zeros junk _ (fun b hb => by have := List.eq_of_mem_replicate hb; cases this) _ le_rfl
  dtNextofs := (List.length_replicate ..).symm
  strings := Filled.zeros junk _ (by simp) _ le_rfl
  strNextofs := rfl

section
variable {junk : Junk} {fdt : Fdt} {s : Sizes} {cells strs : List FdtCell}

theorem Encoded.grown {fdt₁ : Fdt} (h : Encoded junk fdt cells strs) (hs : fdt.Sized s) (hg : s.Good)
    (hgrown : fdt.Grown junk fdt₁) (hdt : fdt₁.dtNextofs = fdt.dtNextofs) (hstr : fdt₁.strNextofs = fdt.strNextofs) :
    Encoded junk fdt₁ cells strs where
  dt := h.dt.regrown (by have := bufSize_bounds hg.dtReallocs; rw [hs.dt]; exact this.1) hgrown.dt
  dtNextofs := hdt.trans h.dtNextofs
  strings := h.strings.regrown (by have := bufSize_bounds hg.strReallocs; rw [hs.strings]; exact this.1) hgrown.strings
  strNextofs := hstr.trans h.strNextofs

theorem ensureSpace_cursors {s₁ : Sizes} {fdt₁ : Fdt} {dtsize : Nat} (hs : fdt.Sized s) (h₁ : fdt₁.Sized s₁)
    (hat : s.ensureSpace dtsize = .at s₁) : fdt₁.dtNextofs = fdt.dtNextofs ∧ fdt₁.strNextofs = fdt.strNextofs := by
  obtain ⟨rfl, -, -⟩ := Sizes.ensureSpace_eq_at hat
  exact ⟨h₁.dtNextofs.trans hs.dtNextofs.symm, h₁.strNextofs.trans hs.strNextofs.symm⟩

theorem dtNextOfs_pad {ofs len : Nat} (haligned : 4 ∣ ofs) (h : ofs + len + 3 < 2 ^ 32) :
    dtNextOfs ofs len = ofs + pad4 len := by
  rw [dtNextOfs, align4_eq h, pad4_add haligned]

theorem padCells_length (n : Nat) : (padCells n).length = pad4 n - n := List.length_replicate ..

theorem not_mem_padCells (n : Nat) (b : UInt8) : FdtCell.written b ∉ padCells n := by simp [padCells]

theorem Encoded.beginNode (h : Encoded junk fdt cells strs) (hs : fdt.Sized s) (hg : s.Good) {name : CString}
    (hname : ¬ LongName name) (hfits : s.dtNextofs + 4 + min name.1.length 1024 ≤ bufSize s.dtReallocs) :
    Encoded junk (fdt.putBeginNode name) (cells ++ (Token.beginNode name).cells strs.length)
      (strs ++ (Token.beginNode name).strings) := by
  have hsize := bufSize_bounds hg.dtReallocs
  have hshort : name.1.length ≤ 1023 := not_lt.1 hname
  have hpad := le_pad4 (4 + name.1.length + 1)
  have hnext := hs.dtNextofs
  have htake : name.1.take 1024 = name.1 := List.take_of_length_le (by omega)
  constructor
  · simp only [Fdt.putBeginNode, Token.cells, htake]
    rw [← List.append_assoc]
    refine (h.dt.splice h.dtNextofs ?_).skip fun b => ?_
    · rw [List.length_append, fdt32_length, hs.dt]
      omega
    · simp [padCells]
  · simp only [Fdt.putBeginNode, Token.cells, nameLength, hshort, if_true]
    rw [dtNextOfs_pad (hnext ▸ hg.aligned) (by omega), h.dtNextofs]
    simp only [List.length_append, List.length_cons, writtenCells_length, fdt32_length, padCells_length]
    omega
  · rw [Token.strings, List.append_nil]
    exact h.strings
  · rw [Token.strings, List.append_nil]
    exact h.strNextofs

theorem Encoded.property (h : Encoded junk fdt cells strs) (hs : fdt.Sized s) (hg : s.Good) {p : Property}
    (hname : ¬ LongName p.name) (hstr : s.strNextofs + 1024 ≤ bufSize s.strReallocs)
    (hfits : s.dtNextofs + 12 + p.value.length ≤ bufSize s.dtReallocs) :
    Encoded junk (fdt.putProperty p) (cells ++ (Token.prop p).cells strs.length) (strs ++ (Token.prop p).strings) := by
  have hsize := bufSize_bounds hg.dtReallocs
  have hstrSize := bufSize_bounds hg.strReallocs
  have hshort : p.name.1.length ≤ 1023 := not_lt.1 hname
  have hpad := le_pad4 (12 + p.value.length)
  have hnext := hs.dtNextofs
  have hstrNext := hs.strNextofs
  have htake : p.name.1.take 1024 = p.name.1 := List.take_of_length_le (by omega)
  have hoffset : fdt.stringOffset p.name = strs.length := by
    rw [Fdt.stringOffset, if_pos hshort, h.strNextofs, cInt_of_lt (by omega) (by rw [← h.strNextofs]; omega)]
  have hhead : (splice fdt.dtNextofs (fdt32 fdtProp ++ fdt32 p.value.length) fdt.dt).length = fdt.dt.length :=
    splice_length (by rw [List.length_append, fdt32_length, fdt32_length, hs.dt]; omega)
  constructor
  · simp only [Fdt.putProperty, Token.cells, hoffset]
    rw [← List.append_assoc, writtenCells, List.map_append, ← List.append_assoc]
    refine Filled.skip (Filled.splice (h.dt.splice h.dtNextofs ?_) ?_ ?_) (not_mem_padCells _)
    · rw [List.length_append, fdt32_length, fdt32_length, hs.dt]
      omega
    · rw [List.length_append, List.length_map, List.length_append, fdt32_length, fdt32_length, h.dtNextofs]
    · rw [hhead, List.length_append, fdt32_length, hs.dt]
      omega
  · simp only [Fdt.putProperty, Token.cells]
    rw [dtNextOfs_pad (hnext ▸ hg.aligned) (by omega), h.dtNextofs]
    simp only [List.length_append, writtenCells_length, fdt32_length, padCells_length]
    omega
  · simp only [Fdt.putProperty, Fdt.putString, Token.strings, htake]
    rw [← List.append_assoc]
    refine (h.strings.splice h.strNextofs ?_).skip (by simp)
    rw [hs.strings]
    omega
  · simp only [Fdt.putProperty, Fdt.putString, Token.strings, hshort, if_true, h.strNextofs, List.length_append,
      writtenCells_length, List.length_singleton]
    omega

theorem Encoded.endNode (h : Encoded junk fdt cells strs) (hs : fdt.Sized s) (hg : s.Good)
    (hfits : s.dtNextofs + 4 ≤ bufSize s.dtReallocs) :
    Encoded junk fdt.putEndNode (cells ++ Token.endNode.cells strs.length) (strs ++ Token.endNode.strings) := by
  have hsize := bufSize_bounds hg.dtReallocs
  have hnext := hs.dtNextofs
  constructor
  · exact h.dt.splice h.dtNextofs (by rw [fdt32_length, hs.dt]; omega)
  · simp only [Fdt.putEndNode, Token.cells]
    rw [dtNextOfs_pad (hnext ▸ hg.aligned) (by omega), h.dtNextofs, List.length_append, writtenCells_length,
        fdt32_length]
    rfl
  · rw [Token.strings, List.append_nil]
    exact h.strings
  · rw [Token.strings, List.append_nil]
    exact h.strNextofs

/-- The names of a token are not too long. -/
def Token.NamesFit : Token → Prop
  | .beginNode name => ¬ LongName name
  | .prop p => ¬ LongName p.name
  | .endNode | .nop => True

theorem Encoded.token (h : Encoded junk fdt cells strs) (hs : fdt.Sized s) (hg : s.Good) {tok : Token}
    (hnames : tok.NamesFit) {s' : Sizes} (hat : s.token tok = .at s') :
    ∃ fdt', flattenToken junk tok fdt = (fdt', some 0) ∧ fdt'.Sized s' ∧
      Encoded junk fdt' (cells ++ tok.cells strs.length) (strs ++ tok.strings) := by
  have hreach := @flattenToken_reaches junk fdt s hs hg tok
  rw [hat] at hreach
  generalize hr : flattenToken junk tok fdt = r at hreach
  cases hreach with | @«at» _ fdt' hs' hg' =>
  refine ⟨fdt', rfl, hs', ?_⟩
  cases tok with
  | beginNode name =>
    obtain ⟨s₁, hspace, hat⟩ := Sizes.ensureSpace_andThen hat
    obtain ⟨hnull, -⟩ | ⟨s₂, fdt₁, hspace', h₁, hgrown, hput, -⟩ := @flattenBeginNode_cases junk fdt s hs hg name
    · rw [hspace] at hnull
      cases hnull
    · cases hspace.symm.trans hspace'
      split at hat
      · next hfits =>
        obtain ⟨hdt, hstr⟩ := ensureSpace_cursors hs h₁ hspace
        cases hr.symm.trans (hput hfits)
        exact (h.grown hs hg hgrown hdt hstr).beginNode h₁ (hg.ensureSpace hspace).1 hnames hfits
      · cases hat
  | endNode =>
    obtain ⟨hfault, -⟩ | ⟨hnull, -⟩ | ⟨hfits, s₁, fdt₁, hat', h₁, hgrown, heq⟩ := @flattenEndNode_cases junk fdt s hs hg
    · cases hat.symm.trans hfault
    · cases hat.symm.trans hnull
    · have hspace : ({ s with dtNextofs := dtNextOfs s.dtNextofs 4 } : Sizes).ensureSpace 0 = .at s₁ := by
        rw [Sizes.endNode, if_pos hfits] at hat'
        exact hat'
      have hput : fdt.putEndNode.Sized { s with dtNextofs := dtNextOfs s.dtNextofs 4 } := hs.putEndNode hfits
      have hgood : ({ s with dtNextofs := dtNextOfs s.dtNextofs 4 } : Sizes).Good :=
        { hg with aligned := dvd_align4 _, dtNextofs := align4_lt _ }
      obtain ⟨hdt, hstr⟩ := ensureSpace_cursors hput h₁ hspace
      cases hr.symm.trans heq
      exact (h.endNode hs hg hfits).grown hput hgood hgrown hdt hstr
  | prop p =>
    obtain ⟨s₁, hspace, hat⟩ := Sizes.ensureSpace_andThen hat
    obtain ⟨hnull, -⟩ | ⟨s₂, fdt₁, hspace', h₁, hgrown, hput, -⟩ := @flattenProperty_cases junk fdt s hs hg p
    · rw [hspace] at hnull
      cases hnull
    · cases hspace.symm.trans hspace'
      split at hat
      · next hfits =>
        obtain ⟨hdt, hstr⟩ := ensureSpace_cursors hs h₁ hspace
        obtain ⟨hg₁, hroom⟩ := hg.ensureSpace hspace
        cases hr.symm.trans (hput hfits)
        exact (h.grown hs hg hgrown hdt hstr).property h₁ hg₁ hnames hroom hfits
      · cases hat
  | nop =>
    cases hr
    rw [Token.cells, Token.strings, List.append_nil, List.append_nil]
    exact h

end

theorem Encoded.tokens {junk : Junk} : ∀ {toks : List Token} {fdt : Fdt} {s s' : Sizes} {cells strs : List FdtCell},
    Encoded junk fdt cells strs → fdt.Sized s → s.Good → (∀ tok ∈ toks, tok.NamesFit) → Sizes.tokens toks s = .at s' →
    ∃ fdt', flattenTokens junk toks fdt = (fdt', some 0) ∧ fdt'.Sized s' ∧
      Encoded junk fdt' (cells ++ structCells toks strs.length) (strs ++ stringCells toks)
  | [], fdt, s, s', cells, strs, h, hs, _, _, hat => by
    cases hat
    rw [structCells, stringCells, List.flatMap_nil, List.append_nil, List.append_nil]
    exact ⟨fdt, rfl, hs, h⟩
  | tok :: toks, fdt, s, s', cells, strs, h, hs, hg, hnames, hat => by
    rw [Sizes.tokens] at hat
    cases htok : s.token tok with
    | fault => rw [htok] at hat; cases hat
    | null => rw [htok] at hat; cases hat
    | «at» s₁ =>
      rw [htok] at hat
      obtain ⟨fdt₁, heq₁, hs₁, h₁⟩ := h.token hs hg (hnames tok (.head _)) htok
      obtain ⟨fdt', heq', hs', h'⟩ := h₁.tokens hs₁ (hg.token htok) (fun t ht => hnames t (.tail _ ht)) hat
      refine ⟨fdt', ?_, hs', ?_⟩
      · rw [flattenTokens, heq₁]
        exact heq'
      · rw [List.append_assoc, List.append_assoc, List.length_append] at h'
        rwa [structCells, stringCells, List.flatMap_cons]

mutual
theorem tokens_namesFit : ∀ {node : DeviceNode}, node.All NamesFit → ∀ tok ∈ nodeTokens node, tok.NamesFit
  | .node name phandle properties children, h, tok, htok => by
    obtain ⟨⟨hname, hprops⟩, hchildren⟩ := h
    rw [nodeTokens, List.mem_append, List.mem_cons, List.mem_append, List.mem_map, List.mem_singleton] at htok
    rcases htok with (rfl | ⟨p, hp, rfl⟩ | hchild) | rfl
    · exact hname
    · exact hprops p hp
    · exact nodesTokens_namesFit hchildren tok hchild
    · trivial

theorem nodesTokens_namesFit : ∀ {nodes : List DeviceNode}, allNodes NamesFit nodes →
    ∀ tok ∈ nodesTokens nodes, tok.NamesFit
  | [], _, tok, htok => by cases htok
  | node :: nodes, h, tok, htok => by
    rw [nodesTokens, List.mem_append] at htok
    rcases htok with hnode | hnodes
    · exact tokens_namesFit h.1 tok hnode
    · exact nodesTokens_namesFit h.2 tok hnodes
end

/-! ## The blob -/

@[simp] theorem flattenHeader_length (ofs n : Nat) : (flattenHeader ofs n).length = 40 := by simp [flattenHeader]

theorem blockCells_length_ge (node : DeviceNode) : 296 ≤ (blockCells node).length := by
  simp only [blockCells, List.length_append, List.length_replicate]
  omega

/-- The blob of a walk that comes to an end: its header, the block of the
structure, and the strings. -/
structure BlobOf (junk : Junk) (node : DeviceNode) (dt strings : Bytes) : Prop where
  eq : ofFlattenDtb junk node = some (some (splice 0
    (flattenHeader (blockCells node).length (stringCells (nodeTokens node)).length)
    (splice (blockCells node).length (strings.take (stringCells (nodeTokens node)).length) dt)))
  dt_le : (blockCells node).length + (stringCells (nodeTokens node)).length ≤ dt.length
  strings_le : (stringCells (nodeTokens node)).length ≤ strings.length
  dt : Filled junk (blockCells node) dt
  strings : Filled junk (stringCells (nodeTokens node)) strings

theorem exists_blobOf {node : DeviceNode} {s : Sizes} (hnames : node.All NamesFit) (hwalk : sizesWalk node = .at s)
    (junk : Junk) : ∃ dt strings, BlobOf junk node dt strings := by
  obtain ⟨hg, hroom⟩ := sizesWalk_room hwalk
  obtain ⟨fdt, heq, hs, h⟩ := (Encoded.start junk).tokens Fdt.Sized.start Sizes.Good.start
      (tokens_namesFit hnames) hwalk
  rw [List.nil_append] at h
  have hsize := bufSize_bounds hg.dtReallocs
  have hlen : s.dtNextofs = (List.replicate (40 + 16 * 16) FdtCell.left ++ structCells (nodeTokens node) 0).length :=
    hs.dtNextofs.symm.trans h.dtNextofs
  have hstrlen : s.strNextofs = (stringCells (nodeTokens node)).length := hs.strNextofs.symm.trans h.strNextofs
  have hblock : s.dtNextofs + 4 = (blockCells node).length := by
    rw [blockCells, List.length_append, ← hlen, writtenCells_length, fdt32_length]
  obtain ⟨dt, hgrown, hle, hfinish⟩ := @flattenFinish_eq junk fdt s hs hg hroom
  have hend : Filled junk (blockCells node) (splice s.dtNextofs (fdt32 fdtEnd) fdt.dt) :=
    h.dt.splice hlen (by rw [fdt32_length, hs.dt]; omega)
  refine ⟨dt, fdt.strings, ?_, by omega, ?_, hend.regrown ?_ hgrown, h.strings⟩
  · rw [ofFlattenDtb, flattenNode_tokens, heq]
    simp only [ne_eq, not_true_eq_false, if_false]
    rw [hfinish, hblock, hstrlen]
  · rw [hs.strings, ← hstrlen]
    exact hg.strNextofs
  · rw [splice_length (by rw [fdt32_length, hs.dt]; omega), hs.dt]
    exact hsize.1

theorem getElem?_blob {header strings dt : Bytes} {ofs i : Nat} (hheader : header.length = 40)
    (hle : ofs + strings.length ≤ dt.length) :
    (splice 0 header (splice ofs strings dt))[i]? =
      if i < 40 then header[i]? else if i < ofs then dt[i]? else
        if i < ofs + strings.length then strings[i - ofs]? else dt[i]? := by
  rw [getElem?_splice (Nat.zero_le _), getElem?_splice (by omega), hheader, if_neg (by omega), Nat.zero_add,
      Nat.sub_zero]

theorem getElem?_blobCells (node : DeviceNode) (i : Nat) :
    (blobCells node)[i]? =
      if i < 40 then (writtenCells (flattenHeader (blockCells node).length (stringCells (nodeTokens node)).length))[i]?
      else if i < (blockCells node).length then (blockCells node)[i]?
      else (stringCells (nodeTokens node))[i - (blockCells node).length]? := by
  have hge := blockCells_length_ge node
  rw [blobCells]
  by_cases h40 : i < 40
  · rw [if_pos h40, List.append_assoc, List.getElem?_append_left (by simpa using h40)]
  rw [if_neg h40]
  by_cases hblock : i < (blockCells node).length
  · have hheader : (writtenCells (flattenHeader (blockCells node).length
        (stringCells (nodeTokens node)).length)).length =
        40 := by rw [writtenCells_length, flattenHeader_length]
    rw [if_pos hblock, List.getElem?_append_left (by rw [List.length_append, hheader, List.length_drop]; omega),
      List.getElem?_append_right (by omega), hheader, List.getElem?_drop, Nat.add_sub_of_le (by omega)]
  · have hlen : (writtenCells (flattenHeader (blockCells node).length (stringCells (nodeTokens node)).length) ++
        (blockCells node).drop 40).length = (blockCells node).length := by
      rw [List.length_append, writtenCells_length, flattenHeader_length, List.length_drop]
      omega
    rw [if_neg hblock, List.getElem?_append_right (by omega), hlen]

/-- The NUL of every name of a node comes in the first 64 KiB of the structure
block's buffer, that of every name of a property in those of the strings. -/
def NulsEarly (node : DeviceNode) : Prop :=
  (∀ i : Nat, (structCells (nodeTokens node) 0)[i]? = some FdtCell.left → 40 + 16 * 16 + i < fdtBufsize) ∧
    ∀ i : Nat, (stringCells (nodeTokens node))[i]? = some FdtCell.left → i < fdtBufsize

/-- No write misses its buffer, and what a reader needs of the blob has been
written, or is 0 because `xzalloc` has cleared it, whatever `realloc` leaves in
the bytes that it adds. -/
def FlattenSound (node : DeviceNode) : Prop :=
  ∀ junk, ∃ r, ofFlattenDtb junk node = some r ∧
    ∀ blob, r = some blob → ∀ (i : Nat) (c : FdtCell), (blobCells node)[i]? = some c → c.Holds blob[i]?

/-- In the block, only NULs of names are left, and the memory reservations. -/
theorem blockCells_left {node : DeviceNode} (h : NulsEarly node) {i : Nat} (hi : (blockCells node)[i]? = some .left) :
    i < fdtBufsize := by
  rw [blockCells, List.append_assoc] at hi
  by_cases hstart : i < 296
  · exact hstart.trans (by decide)
  rw [List.getElem?_append_right (by rw [List.length_replicate]; omega), List.length_replicate] at hi
  by_cases hstruct : i - (40 + 16 * 16) < (structCells (nodeTokens node) 0).length
  · rw [List.getElem?_append_left hstruct] at hi
    have := h.1 _ hi
    omega
  · rw [List.getElem?_append_right (by omega)] at hi
    obtain ⟨b, -, hb⟩ := List.mem_map.1 (List.mem_of_getElem? hi)
    cases hb

theorem BlobOf.holds {junk : Junk} {node : DeviceNode} {dt strings : Bytes} (h : BlobOf junk node dt strings)
    (hnuls : NulsEarly node) {i : Nat} {c : FdtCell} (hc : (blobCells node)[i]? = some c) :
    c.Holds (splice 0 (flattenHeader (blockCells node).length (stringCells (nodeTokens node)).length)
      (splice (blockCells node).length (strings.take (stringCells (nodeTokens node)).length) dt))[i]? := by
  have hge := blockCells_length_ge node
  have hdt := h.dt_le
  have htake : (strings.take (stringCells (nodeTokens node)).length).length = (stringCells (nodeTokens node)).length :=
    List.length_take_of_le h.strings_le
  rw [getElem?_blobCells] at hc
  rw [getElem?_blob (flattenHeader_length _ _) (by omega), htake]
  by_cases h40 : i < 40
  · rw [if_pos h40] at hc ⊢
    rw [writtenCells, List.getElem?_map] at hc
    obtain ⟨b, hb, rfl⟩ := Option.map_eq_some_iff.1 hc
    exact hb
  rw [if_neg h40] at hc ⊢
  by_cases hblock : i < (blockCells node).length
  · rw [if_pos hblock] at hc ⊢
    refine h.dt.holds (by omega) hc ?_
    rintro rfl
    exact blockCells_left hnuls hc
  · rw [if_neg hblock] at hc ⊢
    obtain ⟨hlt, -⟩ := List.getElem?_eq_some_iff.1 hc
    rw [if_pos (by omega), List.getElem?_take, if_pos hlt]
    refine h.strings.holds h.strings_le hc ?_
    rintro rfl
    exact hnuls.2 _ hc

/-- Junk that is not 0 shows where a NUL is missing. -/
theorem BlobOf.nulsEarly {node : DeviceNode} {dt strings : Bytes} (h : BlobOf (fun _ _ => 1) node dt strings)
    (hholds : ∀ (i : Nat) (c : FdtCell), (blobCells node)[i]? = some c →
      c.Holds (splice 0 (flattenHeader (blockCells node).length (stringCells (nodeTokens node)).length)
        (splice (blockCells node).length (strings.take (stringCells (nodeTokens node)).length) dt))[i]?) :
    NulsEarly node := by
  have hge := blockCells_length_ge node
  have hdt := h.dt_le
  have htake : (strings.take (stringCells (nodeTokens node)).length).length = (stringCells (nodeTokens node)).length :=
    List.length_take_of_le h.strings_le
  constructor
  · intro i hi
    obtain ⟨hlt, -⟩ := List.getElem?_eq_some_iff.1 hi
    have hblock : (blockCells node)[40 + 16 * 16 + i]? = some FdtCell.left := by
      rw [blockCells, List.append_assoc, List.getElem?_append_right (by rw [List.length_replicate]; omega),
        List.length_replicate, Nat.add_sub_cancel_left, List.getElem?_append_left hlt, hi]
    obtain ⟨hblt, -⟩ := List.getElem?_eq_some_iff.1 hblock
    have hcell := hholds (40 + 16 * 16 + i) .left (by
      rw [getElem?_blobCells, if_neg (by omega), if_pos hblt, hblock])
    rw [getElem?_blob (flattenHeader_length _ _) (by omega), if_neg (by omega), if_pos hblt] at hcell
    exact h.dt.junk_left hblock hcell
  · intro i hi
    obtain ⟨hlt, -⟩ := List.getElem?_eq_some_iff.1 hi
    have hcell := hholds ((blockCells node).length + i) .left (by
      rw [getElem?_blobCells, if_neg (by omega), if_neg (by omega), Nat.add_sub_cancel_left, hi])
    rw [getElem?_blob (flattenHeader_length _ _) (by omega), htake, if_neg (by omega), if_neg (by omega),
      if_pos (by omega), Nat.add_sub_cancel_left, List.getElem?_take, if_pos hlt] at hcell
    exact h.strings.junk_left hi hcell

/-- **The flattener is sound** for a tree exactly if no write misses its buffer
and then, unless a buffer of 4 GiB is refused before, all NULs come early. -/
theorem flatten_sound_iff {node : DeviceNode} (hnames : node.All NamesFit) :
    FlattenSound node ↔ sizesWalk node = .null ∨ (∃ s, sizesWalk node = .at s) ∧ NulsEarly node := by
  cases hwalk : sizesWalk node with
  | fault =>
    refine iff_of_false (fun h => ?_) (by simp)
    obtain ⟨r, hr, -⟩ := h fun _ _ => 0
    rw [ofFlattenDtb_eq_none_iff.2 hwalk] at hr
    cases hr
  | null =>
    refine iff_of_true (fun junk => ⟨none, ofFlattenDtb_eq_null_iff.2 hwalk, fun blob h => by cases h⟩) (.inl rfl)
  | «at» s =>
    have hcond : (Walk.at s = .null ∨ (∃ s', Walk.at s = .at s') ∧ NulsEarly node) ↔ NulsEarly node := by simp
    rw [hcond]
    constructor
    · intro h
      obtain ⟨dt, strings, hblob⟩ := exists_blobOf hnames hwalk fun _ _ => 1
      obtain ⟨r, hr, hholds⟩ := h fun _ _ => 1
      rw [hblob.eq] at hr
      cases hr
      exact hblob.nulsEarly (hholds _ rfl)
    · intro hnuls junk
      obtain ⟨dt, strings, hblob⟩ := exists_blobOf hnames hwalk junk
      refine ⟨_, hblob.eq, fun blob heq i c hc => ?_⟩
      cases heq
      exact hblob.holds hnuls hc

theorem NulsEarly.of_length {node : DeviceNode} (hstruct : (structCells (nodeTokens node) 0).length + 296 ≤ fdtBufsize)
    (hstrings : (stringCells (nodeTokens node)).length ≤ fdtBufsize) : NulsEarly node := by
  constructor
  · intro i hi
    obtain ⟨hlt, -⟩ := List.getElem?_eq_some_iff.1 hi
    omega
  · intro i hi
    obtain ⟨hlt, -⟩ := List.getElem?_eq_some_iff.1 hi
    omega

theorem flatten_sound_exampleTree : (∃ s, sizesWalk exampleTree = .at s) ∧ FlattenSound exampleTree := by
  have hwalk : ∃ s, sizesWalk exampleTree = .at s := ⟨⟨0, 356, 0, 14⟩, by decide +kernel⟩
  have hnames : exampleTree.All NamesFit := by
    simp only [exampleTree, DeviceNode.All, allNodes, NamesFit, LongName, DeviceNode.name, DeviceNode.properties]
    decide
  have hnuls : NulsEarly exampleTree := NulsEarly.of_length (by decide +kernel) (by decide +kernel)
  exact ⟨hwalk, (flatten_sound_iff hnames).2 (.inr ⟨hwalk, hnuls⟩)⟩

/-- A property of 200000 bytes: the buffer is doubled once, and is too small. -/
def largeTree : DeviceNode := .node .empty 0 [⟨cstr "a", List.replicate 200000 0⟩] []

theorem flatten_misses_buffer : largeTree.All NamesFit ∧ ofFlattenDtb (fun _ _ => 0) largeTree = none ∧
    ¬ FlattenSound largeTree := by
  have hwalk : sizesWalk largeTree = (Sizes.start.beginNode 0).andThen fun s => (s.property 1 200000).andThen fun s =>
      s.endNode.andThen .at := by
    have hname : (cstr "a").1.length = 1 := by decide
    simp only [sizesWalk, largeTree, nodeTokens, nodesTokens, Sizes.tokens, Sizes.token, List.map_cons, List.map_nil,
      List.append_nil, List.cons_append, List.nil_append, List.length_replicate, hname]
    rfl
  have hfault : sizesWalk largeTree = .fault := by
    rw [hwalk]
    decide +kernel
  refine ⟨⟨⟨?_, fun p hp => ?_⟩, trivial⟩, ofFlattenDtb_eq_none_iff.2 hfault, fun h => ?_⟩
  · show ¬ 1023 < CString.empty.1.length
    decide
  · obtain rfl := List.mem_singleton.1 hp
    show ¬ 1023 < (cstr "a").1.length
    decide
  · obtain ⟨r, hr, -⟩ := h fun _ _ => 0
    rw [ofFlattenDtb_eq_none_iff.2 hfault] at hr
    cases hr

end DtUtils
