/-
What `backend_format_raw_pack` packs is accepted again, with or without
authentication and with any padding behind it, and unpacks to the same bytes,
exactly if the data are short enough for the header's 16-bit length
(`raw_round_trip_iff`).
-/
import DtUtils.FormatRawFacts
import DtUtils.Layout

namespace DtUtils
open Lib

/-! ## The data -/

theorem StateVariable.raw_length (sv : StateVariable) : sv.raw.length = sv.size := VarData.raw_length _

/-- One variable's bytes reach the buffer, if it has any. -/
theorem splice_raw {sv : StateVariable} {data : Bytes} (h : ¬ (sv.size ≠ 0 ∧ data.length < sv.start.toNat + sv.size)) :
    (splice sv.start.toNat sv.raw data).length = data.length ∧
      slice sv.start.toNat sv.size (splice sv.start.toNat sv.raw data) = sv.raw := by
  have hraw := sv.raw_length
  by_cases h0 : sv.size = 0
  · have hnil : sv.raw = [] := List.eq_nil_of_length_eq_zero (hraw.trans h0)
    rw [hnil, splice_nil, h0]
    exact ⟨rfl, by simp [slice]⟩
  · have hle : sv.start.toNat + sv.size ≤ data.length := by
      by_contra hlt
      exact h ⟨h0, by omega⟩
    refine ⟨splice_length (by omega), ?_⟩
    rw [← hraw]
    exact slice_splice_self (by omega)

/-- What lies in front of all the variables is left alone. -/
theorem rawPackData_slice {a n : Nat} : ∀ {vars : List StateVariable} {data data' : Bytes},
    rawPackData vars data = some data' → (∀ sv ∈ vars, a + n ≤ sv.start.toNat) → slice a n data' = slice a n data
  | [], data, data', h, _ => by
    cases h
    rfl
  | sv :: vars, data, data', h, hstart => by
    rw [rawPackData] at h
    split at h
    · cases h
    next hroom =>
    rw [rawPackData_slice h fun v hv => hstart v (by simp [hv])]
    have hsv := hstart sv (by simp)
    by_cases hle : sv.start.toNat ≤ data.length
    · exact slice_splice_before hle hsv
    · have hnil : sv.raw = [] := List.eq_nil_of_length_eq_zero (by rw [sv.raw_length]; omega)
      rw [hnil, splice_nil]

/-- The buffer keeps its length, and every variable with bytes ends inside it. -/
theorem rawPackData_length : ∀ {vars : List StateVariable} {data data' : Bytes}, rawPackData vars data = some data' →
    data'.length = data.length ∧ ∀ sv ∈ vars, sv.size ≠ 0 → sv.stop ≤ data.length
  | [], data, data', h => by
    cases h
    exact ⟨rfl, by simp⟩
  | sv :: vars, data, data', h => by
    rw [rawPackData] at h
    split at h
    · cases h
    next hroom =>
    have hlen := (splice_raw hroom).1
    obtain ⟨hlen', hrest⟩ := rawPackData_length h
    rw [hlen] at hlen' hrest
    refine ⟨hlen', fun v hv h0 => ?_⟩
    rcases List.mem_cons.1 hv with rfl | hv
    · by_contra hlt
      exact hroom ⟨h0, by rw [StateVariable.stop] at hlt; omega⟩
    · exact hrest v hv h0

/-- With variables that lie one behind the other each of them is found in its
place. -/
theorem rawPackData_stored : ∀ {vars : List StateVariable} {data data' : Bytes}, rawPackData vars data = some data' →
    vars.Pairwise (fun a b => a.stop ≤ b.start.toNat) → ∀ sv ∈ vars, slice sv.start.toNat sv.size data' = sv.raw
  | [], data, data', h, _ => by simp
  | sv :: vars, data, data', h, hapart => by
    rw [rawPackData] at h
    split at h
    · cases h
    next hroom =>
    obtain ⟨hfront, hrest⟩ := List.pairwise_cons.1 hapart
    intro v hv
    rcases List.mem_cons.1 hv with rfl | hv
    · rw [rawPackData_slice h hfront, (splice_raw hroom).2]
    · exact rawPackData_stored h hrest v hv

/-! ## Header and HMAC -/

theorem leNat_slice {pre post : Bytes} {off w n : Nat} (hoff : pre.length = off) (hn : n < 256 ^ w) :
    leNat (slice off w (pre ++ leBytes w n ++ post)) = n := by
  rw [slice_append_mid hoff (leBytes_length w n), leNat_leBytes_of_lt hn]

theorem parse_bytes {h : BackendRawHeader} (hm : h.magic < 2 ^ 32) (hr : h.reserved < 2 ^ 16) (hl : h.dataLen < 2 ^ 16)
    (hd : h.dataCrc < 2 ^ 32) (hc : h.headerCrc < 2 ^ 32) (rest : Bytes) :
    BackendRawHeader.parse (h.bytes ++ rest) = h := by
  obtain ⟨m, r, l, d, c⟩ := h
  simp only at hm hr hl hd hc
  have h1 : leNat (slice 0 4 (leBytes 4 m ++ (leBytes 2 r ++ leBytes 2 l ++ leBytes 4 d ++ leBytes 4 c ++ rest))) =
      m := by
    rw [← List.nil_append (leBytes 4 m)]
    exact leNat_slice rfl (by omega)
  have h2 : leNat (slice 4 2 (leBytes 4 m ++ leBytes 2 r ++ (leBytes 2 l ++ leBytes 4 d ++ leBytes 4 c ++ rest))) = r :=
    leNat_slice (by simp) (by omega)
  have h3 : leNat (slice 6 2 (leBytes 4 m ++ leBytes 2 r ++ leBytes 2 l ++ (leBytes 4 d ++ leBytes 4 c ++ rest))) = l :=
    leNat_slice (by simp) (by omega)
  have h4 : leNat (slice 8 4 (leBytes 4 m ++ leBytes 2 r ++ leBytes 2 l ++ leBytes 4 d ++ (leBytes 4 c ++ rest))) = d :=
    leNat_slice (by simp) (by omega)
  have h5 : leNat (slice 12 4 (leBytes 4 m ++ leBytes 2 r ++ leBytes 2 l ++ leBytes 4 d ++ leBytes 4 c ++ rest)) = c :=
    leNat_slice (by simp) (by omega)
  simp only [List.append_assoc] at h1 h2 h3 h4 h5
  simp only [BackendRawHeader.parse, BackendRawHeader.bytes, BackendRawHeader.covered, List.append_assoc,
    h1, h2, h3, h4, h5]

@[simp] theorem BackendRawHeader.bytes_length (h : BackendRawHeader) : h.bytes.length = 16 := by
  simp [bytes, covered]

theorem BackendRawHeader.bytes_take (h : BackendRawHeader) (rest : Bytes) : (h.bytes ++ rest).take 12 = h.covered := by
  rw [bytes, List.append_assoc, List.take_left' (by simp [covered])]

/-- The HMAC behind the data, if there is a digest. -/
def authTag (auth : Option Digest) (message : Bytes) : Bytes :=
  match auth with
  | none => []
  | some d => d.mac message

@[simp] theorem authTag_length (auth : Option Digest) (message : Bytes) :
    (authTag auth message).length = authLength auth := by
  cases auth with
  | none => rfl
  | some d => exact d.mac_length message

theorem RawFormat.digestLength_eq (raw : RawFormat) : raw.digestLength = authLength raw.digest := by
  cases h : raw.digest <;> simp only [digestLength, authLength, h]

/-! ## Packing -/

/-- A digest that was set up is the one to verify with. -/
theorem pack_cases {magic : UInt32} {raw raw' : RawFormat} {vars : List StateVariable} {b : Bytes}
    (h : backendFormatRawPack magic raw vars = some (raw', .ok b)) :
    raw'.algo = raw.algo ∧ effectiveAuth false raw.algo = .ok raw'.digest ∧
      backendFormatRawPackData magic raw' vars = some b := by
  rw [backendFormatRawPack] at h
  have hmap : ∀ {r : RawFormat} {x : Option Bytes}, (x.map fun buf => (r, Except.ok (ε := Int) buf)) =
      some (raw', .ok b) →
      r = raw' ∧ x = some b := by
    intro r x hx
    cases x with
    | none => cases hx
    | some y =>
      cases hx
      exact ⟨rfl, rfl⟩
  split at h
  · next hsome =>
    obtain ⟨a, halgo⟩ := Option.isSome_iff_exists.1 hsome
    cases a with
    | none =>
      have hi : backendRawDigestInit raw = (raw, -ENODEV) := by
        unfold backendRawDigestInit
        split
        · next d hd => simp [halgo] at hd
        · rfl
      simp only [hi] at h
      rw [if_pos (by decide)] at h
      cases h
    | some d =>
      have hi : ∃ r, backendRawDigestInit raw = (r, d.ready) ∧ r.algo = raw.algo ∧ r.digest = some d := by
        unfold backendRawDigestInit
        split
        · next d' hd =>
          rw [halgo, Option.some.injEq, Option.some.injEq] at hd
          subst hd
          exact ⟨_, rfl, rfl, rfl⟩
        · next hd => exact absurd halgo (hd d)
      obtain ⟨r, hi, hr, hdig⟩ := hi
      simp only [hi] at h
      split at h
      · cases h
      next hready =>
      obtain ⟨rfl, hdata⟩ := hmap h
      refine ⟨hr, ?_, hdata⟩
      simp only [halgo, hdig, effectiveAuth]
      rw [if_neg hready]
  · next hnone =>
    obtain ⟨rfl, hdata⟩ := hmap h
    have halgo : raw.algo = none := by simpa using hnone
    refine ⟨rfl, ?_, hdata⟩
    have hdig : raw.digest = none := by
      cases hd : raw.digest with
      | none => rfl
      | some d =>
        have := raw.same d hd
        rw [halgo] at this
        cases this
    rw [halgo, hdig]
    rfl

theorem packData_eq {magic : UInt32} {raw : RawFormat} {vars : List StateVariable} {b : Bytes}
    (h : backendFormatRawPackData magic raw vars = some b) :
    ∃ last data, vars.getLast? = some last ∧ data.length = last.endPos + raw.digestLength ∧
      last.endPos + 16 + raw.digestLength < 2 ^ 32 ∧
      rawPackData vars (List.replicate (last.endPos + raw.digestLength) 0) = some data ∧
      b = (rawPackHeader magic last.endPos data).bytes ++ data.take last.endPos ++
        authTag raw.digest ((rawPackHeader magic last.endPos data).bytes ++ data.take last.endPos) := by
  have hd := raw.digestLength_le
  simp only [backendFormatRawPackData, Option.bind_eq_bind, Option.bind_eq_some_iff] at h
  obtain ⟨last, hlast, data, hdata, h⟩ := h
  split at h
  · cases h
  next hsize =>
  simp only [formatRawMinLength] at h hsize hdata
  have hend : last.endPos < 2 ^ 32 := Nat.mod_lt _ (by decide)
  have hfull : last.endPos + 16 + raw.digestLength < 2 ^ 32 := by omega
  rw [Nat.mod_eq_of_lt hfull,
    show last.endPos + 16 + raw.digestLength - 16 = last.endPos + raw.digestLength by omega] at hdata
  have hlen := (rawPackData_length hdata).1
  rw [List.length_replicate] at hlen
  refine ⟨last, data, hlast, hlen, hfull, hdata, ?_⟩
  have hdig := raw.digestLength_eq
  have hbytes := BackendRawHeader.bytes_length (rawPackHeader magic last.endPos data)
  have htake : ((rawPackHeader magic last.endPos data).bytes ++ data).take (16 + last.endPos) =
      (rawPackHeader magic last.endPos data).bytes ++ data.take last.endPos := by
    rw [List.take_append, List.take_of_length_le (by omega), hbytes, show 16 + last.endPos - 16 = last.endPos by omega]
  split at h
  · next d hd' =>
    cases h
    rw [hd', htake, splice, htake, List.drop_of_length_le, List.append_nil]
    · rfl
    · rw [hd'] at hdig
      rw [List.length_append, hbytes, hlen, d.mac_length, hdig]
      simp only [authLength]
      omega
  · next hd' =>
    cases h
    rw [hd'] at hdig ⊢
    rw [show authTag none _ = [] from rfl, List.append_nil,
        List.take_of_length_le (by rw [hlen, hdig]; simp [authLength])]

theorem packed_accepted {magic : UInt32} {n : Nat} {data : Bytes} (hn : n < 2 ^ 16) (hdata : n ≤ data.length)
    (auth : Option Digest) :
    RawAccepted magic auth ((rawPackHeader magic n data).bytes ++ data.take n ++
      authTag auth ((rawPackHeader magic n data).bytes ++ data.take n)) (n + 16) := by
  have hmod : n % 2 ^ 16 = n := Nat.mod_eq_of_lt hn
  have hparse : ∀ rest, BackendRawHeader.parse ((rawPackHeader magic n data).bytes ++ rest) =
      rawPackHeader magic n data :=
    parse_bytes magic.toNat_lt (by simp [rawPackHeader]) (Nat.mod_lt _ (by decide)) (UInt32.toNat_lt _)
        (UInt32.toNat_lt _)
  have hbytes := BackendRawHeader.bytes_length (rawPackHeader magic n data)
  have htake : (data.take n).length = n := by rw [List.length_take]; omega
  have hlen : (rawPackHeader magic n data).dataLen = n := hmod
  have htag := authTag_length auth ((rawPackHeader magic n data).bytes ++ data.take n)
  generalize htageq : authTag auth ((rawPackHeader magic n data).bytes ++ data.take n) = tag at htag ⊢
  have hp : BackendRawHeader.parse ((rawPackHeader magic n data).bytes ++ data.take n ++ tag) =
      rawPackHeader magic n data := by
    rw [List.append_assoc, hparse]
  refine ⟨?_, ?_, ?_, ?_, ?_, ?_, ?_⟩
  · simp
  · rw [hp, List.append_assoc, BackendRawHeader.bytes_take]
    rfl
  · rw [hp]
    exact .inr rfl
  · rw [hp, hlen]
  · simp only [List.length_append, hbytes, htake, htag]
    omega
  · rw [hp, hlen, slice_append_mid hbytes htake]
    rfl
  · cases auth with
    | none => rfl
    | some d =>
      have hbody : ((rawPackHeader magic n data).bytes ++ data.take n).length = n + 16 := by
        rw [List.length_append, hbytes, htake, Nat.add_comm]
      simp only [hmacMatches, decide_eq_true_eq]
      rw [List.take_left' hbody]
      have hslice := slice_append_mid (c := []) hbody (show tag.length = d.length from htag)
      rw [List.append_nil] at hslice
      rw [hslice, ← htageq]
      rfl

/-! ## Unpacking -/

/-- What unpacking makes of one variable. -/
def unpackVariable (buf : Bytes) (sv : StateVariable) : StateVariable :=
  if (BackendRawHeader.parse buf).dataLen < sv.endPos then sv
  else { sv with data := sv.data.setRaw (slice (formatRawMinLength + sv.start.toNat) sv.size buf) }

/-- Unpacking fills the variables that end inside the data, each by itself,
and fails exactly if there are others. -/
theorem unpack_eq {buf : Bytes} : ∀ {vars vars' : List StateVariable} {ret : Int},
    backendFormatRawUnpack buf vars = some (vars', ret) → vars' = vars.map (unpackVariable buf) ∧
      (ret = 0 ↔ ∀ sv ∈ vars, sv.endPos ≤ (BackendRawHeader.parse buf).dataLen)
  | [], vars', ret, h => by
    cases h
    simp
  | sv :: vars, vars', ret, h => by
    simp only [backendFormatRawUnpack, Option.bind_eq_bind, Option.bind_eq_some_iff] at h
    obtain ⟨⟨vars₁, r⟩, hrest, h⟩ := h
    obtain ⟨rfl, hret⟩ := unpack_eq hrest
    simp only at h
    split at h
    · next hlt =>
      cases h
      refine ⟨by rw [List.map_cons, unpackVariable, if_pos hlt], fun h0 => absurd h0 (by decide), fun hall => ?_⟩
      have := hall sv (by simp)
      omega
    next hle =>
    split at h
    · cases h
    · cases h
      refine ⟨by rw [List.map_cons, unpackVariable, if_neg hle], ?_⟩
      rw [hret, List.forall_mem_cons]
      exact ⟨fun hall => ⟨by omega, hall⟩, And.right⟩

/-- Two lists of variables that differ in names and values only. -/
def SamePlaces (vars vars' : List StateVariable) : Prop :=
  List.Forall₂ (fun a b => a.start = b.start ∧ a.size = b.size) vars vars'

theorem SamePlaces.refl (vars : List StateVariable) : SamePlaces vars vars := List.forall₂_same.2 fun _ _ => ⟨rfl, rfl⟩

theorem SamePlaces.trans {a b c : List StateVariable} (h : SamePlaces a b) (h' : SamePlaces b c) : SamePlaces a c :=
  forall₂_chain (fun _ _ _ hab hbc => ⟨hab.1.trans hbc.1, hab.2.trans hbc.2⟩) h h'

theorem SamePlaces.symm {a b : List StateVariable} (h : SamePlaces a b) : SamePlaces b a :=
  (List.Forall₂.imp (fun _ _ h => ⟨h.1.symm, h.2.symm⟩) h).flip

theorem SamePlaces.stop_iff {a b : List StateVariable} (h : SamePlaces a b) (P : Nat → Prop) :
    (∀ sv ∈ a, P sv.stop) ↔ ∀ sv ∈ b, P sv.stop := by
  induction h with
  | nil => simp
  | cons hab _ ih => rw [List.forall_mem_cons, List.forall_mem_cons, ih, StateVariable.stop, StateVariable.stop,
        hab.1, hab.2]

/-- The variables' values lie in a payload's data. -/
def ValuesStored (vars : List StateVariable) (buf : Bytes) : Prop :=
  ∀ sv ∈ vars, sv.stop ≤ (BackendRawHeader.parse buf).dataLen ∧
    slice (formatRawMinLength + sv.start.toNat) sv.size buf = sv.raw

theorem valuesStored_append {vars : List StateVariable} {buf : Bytes}
    (hbuf : 16 + (BackendRawHeader.parse buf).dataLen ≤ buf.length) (t : Bytes) :
    ValuesStored vars (buf ++ t) ↔ ValuesStored vars buf := by
  simp only [ValuesStored, parse_append (by omega : 16 ≤ buf.length)]
  refine forall₂_congr fun sv _ => and_congr_right fun hstop => ?_
  rw [StateVariable.stop] at hstop
  rw [slice_append_left (by simp only [formatRawMinLength]; omega)]

theorem unpack_stored {buf : Bytes} {vars vars' : List StateVariable} (hsame : SamePlaces vars vars')
    (h : ValuesStored vars buf) :
    ∃ out, backendFormatRawUnpack buf vars' = some (out, 0) ∧
        out.map StateVariable.raw = vars.map StateVariable.raw := by
  induction hsame with
  | nil => exact ⟨[], rfl, rfl⟩
  | @cons a b vars vars' hab _ ih =>
    obtain ⟨hstart, hsize⟩ := hab
    obtain ⟨out, hout, hraw⟩ := ih fun sv hsv => h sv (by simp [hsv])
    obtain ⟨ha, hself⟩ := h a (by simp)
    have hlt : b.endPos ≤ (BackendRawHeader.parse buf).dataLen := by
      refine (Nat.mod_le _ _).trans ?_
      rwa [← hstart, ← hsize]
    have hlen : a.raw.length = b.size := a.raw_length.trans hsize
    rw [hstart, hsize] at hself
    refine ⟨{ b with data := b.data.setRaw a.raw } :: out, ?_, ?_⟩
    · simp only [backendFormatRawUnpack, hout, Option.bind_eq_bind, Option.bind_some, hself, hlen]
      rw [if_neg (by omega), if_neg (by omega)]
      rfl
    · rw [List.map_cons, List.map_cons, hraw]
      congr 1
      exact VarData.setRaw_raw hlen

theorem unpackVariable_places (buf : Bytes) (vars : List StateVariable) :
    SamePlaces vars (vars.map (unpackVariable buf)) := by
  refine List.forall₂_map_right_iff.2 (List.forall₂_same.2 fun sv _ => ?_)
  rw [unpackVariable]
  split
  · exact ⟨rfl, rfl⟩
  · exact ⟨rfl, (VarData.setRaw_size _ _).symm⟩

theorem unpack_valuesStored {buf : Bytes} (hbuf : 16 + (BackendRawHeader.parse buf).dataLen ≤ buf.length)
    {vars vars' : List StateVariable} (hstop : ∀ sv ∈ vars, sv.stop < 2 ^ 32)
    (h : backendFormatRawUnpack buf vars = some (vars', 0)) : ValuesStored vars' buf := by
  obtain ⟨rfl, hret⟩ := unpack_eq h
  intro sv' hsv'
  obtain ⟨sv, hsv, rfl⟩ := List.mem_map.1 hsv'
  have hend := hret.1 rfl sv hsv
  have heq : sv.endPos = sv.stop := Nat.mod_eq_of_lt (hstop sv hsv)
  have hlen : (slice (formatRawMinLength + sv.start.toNat) sv.size buf).length = sv.size :=
    slice_length (by rw [heq, StateVariable.stop] at hend; simp only [formatRawMinLength]; omega)
  rw [unpackVariable, if_neg (by omega)]
  simp only [StateVariable.stop, StateVariable.size, StateVariable.raw, VarData.setRaw_size]
  exact ⟨by rw [heq] at hend; exact hend, (VarData.setRaw_raw hlen).symm⟩

/-! ## Round trips -/

theorem SamePlaces.conflict {vars vars' : List StateVariable} (h : SamePlaces vars vars') :
    variablesConflict vars = variablesConflict vars' := by
  induction h with
  | nil => rfl
  | cons hab hrest ih =>
    cases hrest with
    | nil => rfl
    | cons hcd _ => rw [variablesConflict, variablesConflict, ih, hab.1, hab.2, hcd.1]

/-- Variables that were packed and do not conflict lie one behind the other,
inside the packed data. -/
theorem packed_apart {magic : UInt32} {raw : RawFormat} {vars : List StateVariable} {b : Bytes}
    (hconf : variablesConflict vars = false) (h : backendFormatRawPackData magic raw vars = some b) :
    vars.Pairwise (fun a b => a.stop ≤ b.start.toNat) ∧ ∀ last, vars.getLast? = some last → last.endPos = last.stop ∧
      ∀ sv ∈ vars, sv.stop ≤ last.stop := by
  obtain ⟨last, data, hlast, -, hfull, hdata, -⟩ := packData_eq h
  have hstop : ∀ sv ∈ vars, sv.stop < 2 ^ 32 := by
    intro sv hsv
    have hin := (rawPackData_length hdata).2 sv hsv
    rw [List.length_replicate] at hin
    by_cases h0 : sv.size = 0
    · have := sv.start.toNat_lt
      rw [StateVariable.stop, h0]
      omega
    · have := hin h0
      omega
  have hapart := apart_of_not_conflict hstop hconf
  refine ⟨hapart, fun l hl => ⟨Nat.mod_eq_of_lt (hstop l (List.mem_of_getLast? hl)), stop_le_last hapart hl⟩⟩

theorem pack_isSome {vars : List StateVariable} (hne : vars ≠ []) (hconf : variablesConflict vars = false)
    (hstop : ∀ sv ∈ vars, sv.stop < 2 ^ 16) (magic : UInt32) (raw : RawFormat) :
    ∃ b, backendFormatRawPackData magic raw vars = some b := by
  have hapart := apart_of_not_conflict (fun sv hsv => by have := hstop sv hsv; omega) hconf
  have hsorted : Sorted vars := hapart.imp fun {a b} hab => by
    rw [UInt32.le_iff_toNat_le]
    rw [StateVariable.stop] at hab
    omega
  have hsound : SoundLayout raw vars := .of_apart hsorted (fun sv hsv => by
    have := hstop sv hsv
    have := raw.digestLength_le
    simp only [formatRawMinLength]
    omega) hapart
  exact Option.isSome_iff_exists.1 (hsound.pack hne magic)

/-- What was packed is accepted and restored, if it fits the length field. -/
theorem pack_restores {magic : UInt32} {raw : RawFormat} {vars : List StateVariable} {b : Bytes}
    (hconf : variablesConflict vars = false) (h : backendFormatRawPackData magic raw vars = some b)
    (hstop : ∀ sv ∈ vars, sv.stop < 2 ^ 16) :
    ∃ n, RawAccepted magic raw.digest b n ∧ RawAccepted magic none b n ∧ b.length = n + raw.digestLength ∧
      ValuesStored vars b := by
  obtain ⟨hapart, hin⟩ := packed_apart hconf h
  obtain ⟨last, data, hlast, hlen, -, hdata, rfl⟩ := packData_eq h
  obtain ⟨hend, hle⟩ := hin last hlast
  have hfits : last.endPos < 2 ^ 16 := by
    rw [hend]
    exact hstop last (List.mem_of_getLast? hlast)
  have hacc : ∀ auth, RawAccepted magic auth _ _ := packed_accepted hfits (by omega : last.endPos ≤ data.length)
  have hnone := (hacc none).append (authTag raw.digest
      ((rawPackHeader magic last.endPos data).bytes ++ data.take last.endPos))
  rw [show ∀ m, authTag none m = [] from fun _ => rfl, List.append_nil] at hnone
  have hbytes := BackendRawHeader.bytes_length (rawPackHeader magic last.endPos data)
  have htake : (data.take last.endPos).length = last.endPos := by rw [List.length_take]; omega
  refine ⟨_, hacc raw.digest, hnone, ?_, fun sv hsv => ?_⟩
  · simp only [List.length_append, hbytes, htake, authTag_length, raw.digestLength_eq]
    omega
  · have hparse := hnone.len
    have hin := hle sv hsv
    refine ⟨by omega, ?_⟩
    rw [StateVariable.stop, ← hend] at hin
    have hslice : slice sv.start.toNat sv.size (data.take last.endPos) = sv.raw := by
      rw [slice_take hin, rawPackData_stored hdata hapart sv hsv]
    rw [List.append_assoc, slice_append_right (by rw [hbytes]; simp), hbytes,
      show formatRawMinLength + sv.start.toNat - 16 = sv.start.toNat by simp,
      slice_append_left (by rw [htake]; exact hin)]
    exact hslice

/-- The buffer `b`, with anything behind it, is accepted by any format with
the same key, with and without authentication, and gives the values of `vars`
back to variables in the same places. -/
def RawRoundTrips (magic : UInt32) (algo : Option (Option Digest)) (vars : List StateVariable) (b : Bytes) : Prop :=
  ∀ (t : Bytes) (raw : RawFormat) (noAuth : Bool) (vars' : List StateVariable), raw.algo = algo →
      SamePlaces vars vars' →
    ∃ raw' len, backendFormatRawVerify magic noAuth raw (b ++ t) (b ++ t).length = some (raw', 0, len) ∧
      ∃ out, backendFormatRawUnpack (b ++ t) vars' = some (out, 0) ∧
        out.map StateVariable.raw = vars.map StateVariable.raw

theorem RawRoundTrips.of_fits {magic : UInt32} {raw raw' : RawFormat} {vars : List StateVariable} {b : Bytes}
    (hconf : variablesConflict vars = false) (h : backendFormatRawPack magic raw vars = some (raw', .ok b))
    (hstop : ∀ sv ∈ vars, sv.stop < 2 ^ 16) : RawRoundTrips magic raw.algo vars b := by
  obtain ⟨halgo, hauth, hdata⟩ := pack_cases h
  obtain ⟨n, hkeyed, hplain, -, hvals⟩ := pack_restores hconf hdata hstop
  intro t f noAuth vars' hf hsame
  have heff : ∃ d, effectiveAuth noAuth f.algo = .ok d ∧ RawAccepted magic d b n := by
    rw [hf]
    cases noAuth with
    | false => exact ⟨_, hauth, hkeyed⟩
    | true =>
      refine ⟨none, ?_, hplain⟩
      cases raw.algo <;> rfl
  obtain ⟨d, heff, hacc⟩ := heff
  obtain ⟨f', -, hv⟩ : ∃ f' : RawFormat, f'.algo = f.algo ∧
      backendFormatRawVerify magic noAuth f (b ++ t) (b ++ t).length = _ :=
    backendFormatRawVerify_take le_rfl
  have hcheck : rawCheck magic (effectiveAuth noAuth f.algo) (b ++ t) = (0, (n : Int)) :=
    (rawCheck_eq_zero effectiveAuth_error).2 ⟨d, n, heff, rfl, hacc.append t⟩
  rw [List.take_length, hcheck] at hv
  have hlen : 16 + (BackendRawHeader.parse b).dataLen ≤ b.length := by
    have := hplain.len
    have := hplain.le
    omega
  exact ⟨f', n, hv, unpack_stored hsame ((valuesStored_append hlen t).2 hvals)⟩

theorem RawRoundTrips.fits {magic : UInt32} {raw raw' : RawFormat} {vars : List StateVariable} {b : Bytes}
    (hconf : variablesConflict vars = false) (h : backendFormatRawPack magic raw vars = some (raw', .ok b))
    (hrt : RawRoundTrips magic raw.algo vars b) : ∀ sv ∈ vars, sv.stop < 2 ^ 16 := by
  obtain ⟨-, -, hdata⟩ := pack_cases h
  obtain ⟨last, data, hlast, -⟩ := packData_eq hdata
  obtain ⟨hend, hle⟩ := (packed_apart hconf hdata).2 last hlast
  obtain ⟨-, -, -, out, hunpack, -⟩ := hrt [] raw true vars rfl (.refl vars)
  have hin := (unpack_eq hunpack).2.1 rfl last (List.mem_of_getLast? hlast)
  have hlt := parse_dataLen_lt (b ++ [])
  intro sv hsv
  have := hle sv hsv
  omega

/-- **Raw round trips**: what the raw format packs for an accepted state is
accepted and restored exactly if every variable ends within the 65535 bytes that
the header's length can count. -/
theorem raw_round_trip_iff {node : DeviceNode} {s : StateData} (h : stateFromNodeCreate node = some (s, 0))
    {vars : List StateVariable} (hsame : SamePlaces s.vars vars) {raw raw' : RawFormat} {b : Bytes}
    (hp : backendFormatRawPack s.magic raw vars = some (raw', .ok b)) :
    RawRoundTrips s.magic raw.algo vars b ↔ ∀ sv ∈ vars, sv.stop ≤ 65535 := by
  obtain ⟨-, -, -, -, hconf⟩ := stateFromNodeCreate_accepted h
  rw [hsame.conflict] at hconf
  have hfits : (∀ sv ∈ vars, sv.stop ≤ 65535) ↔ ∀ sv ∈ vars, sv.stop < 2 ^ 16 :=
    forall₂_congr fun sv _ => by omega
  rw [hfits]
  exact ⟨RawRoundTrips.fits hconf hp, RawRoundTrips.of_fits hconf hp⟩

/-- One number, at `start`. -/
def singleNode (start : Nat) : DeviceNode := stateNode [variableNode "count" "uint32" start 4 []]

theorem single_packed {start : Nat} (hstart : start + 84 < 2 ^ 32)
    (hplaces : (acceptedState (singleNode start)).map (fun s => s.vars.map StateVariable.place) =
      some [(UInt32.ofNat start, 4)]) :
    ∃ s b, stateFromNodeCreate (singleNode start) = some (s, 0) ∧ (∀ sv ∈ s.vars, sv.stop = start + 4) ∧ s.vars ≠ [] ∧
      backendFormatRawPack s.magic (backendFormatRawCreate none) s.vars =
          some (backendFormatRawCreate none, .ok b) := by
  obtain ⟨s, hs, hvars⟩ := Option.map_eq_some_iff.1 hplaces
  obtain ⟨sv, rest, hcons, hplace, hrest⟩ := List.map_eq_cons_iff.1 hvars
  rw [List.map_eq_nil_iff] at hrest
  subst hrest
  have hstop : ∀ sv ∈ s.vars, sv.stop = start + 4 := by
    intro v hv
    rw [hcons, List.mem_singleton] at hv
    subst hv
    simp only [StateVariable.place, Prod.mk.injEq] at hplace
    have hsize := congrArg UInt32.toNat hplace.2
    rw [UInt32.toNat_ofNat_of_lt' v.size_lt] at hsize
    have hlt : start < 2 ^ 32 := by omega
    rw [StateVariable.stop, hplace.1, hsize, UInt32.toNat_ofNat_of_lt' hlt]
    rfl
  have hsound : SoundLayout (backendFormatRawCreate none) s.vars := by
    refine .of_apart (by rw [hcons]; exact List.pairwise_singleton _ _) (fun v hv => ?_)
      (by rw [hcons]; exact List.pairwise_singleton _ _)
    have := hstop v hv
    have hmin : formatRawMinLength = 16 := rfl
    have := (backendFormatRawCreate none).digestLength_le
    omega
  have hne : s.vars ≠ [] := by rw [hcons]; exact List.cons_ne_nil _ _
  obtain ⟨b, hb⟩ := Option.isSome_iff_exists.1 (hsound.pack hne s.magic)
  refine ⟨s, b, acceptedState_eq hs, hstop, hne, ?_⟩
  rw [backendFormatRawPack, if_neg (by simp [backendFormatRawCreate]), hb]
  rfl

/-- A number at the start is restored. -/
theorem raw_round_trip_single : ∃ s b, stateFromNodeCreate (singleNode 0) = some (s, 0) ∧
    backendFormatRawPack s.magic (backendFormatRawCreate none) s.vars = some (backendFormatRawCreate none, .ok b) ∧
    RawRoundTrips s.magic none s.vars b := by
  obtain ⟨s, b, hs, hstop, -, hb⟩ := single_packed (by decide : 0 + 84 < 2 ^ 32) (by decide +kernel)
  exact ⟨s, b, hs, hb, (raw_round_trip_iff hs (.refl _) hb).2 fun sv hsv => by rw [hstop sv hsv]; decide⟩

/-- A number behind 64 KiB is packed, though not restored. -/
theorem raw_round_trip_far : ∃ s b, stateFromNodeCreate (singleNode 0x10000) = some (s, 0) ∧
    backendFormatRawPack s.magic (backendFormatRawCreate none) s.vars = some (backendFormatRawCreate none, .ok b) ∧
    ¬ RawRoundTrips s.magic none s.vars b := by
  obtain ⟨s, b, hs, hstop, hne, hb⟩ := single_packed (by decide : 0x10000 + 84 < 2 ^ 32) (by decide +kernel)
  refine ⟨s, b, hs, hb, fun hrt => ?_⟩
  obtain ⟨-, -, -, -, hconf⟩ := stateFromNodeCreate_accepted hs
  obtain ⟨sv, hsv⟩ := List.exists_mem_of_ne_nil _ hne
  have hlt := RawRoundTrips.fits hconf hb hrt sv hsv
  rw [hstop sv hsv] at hlt
  omega

end DtUtils
