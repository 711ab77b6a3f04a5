import Mathlib.Tactic.NormNum
import NeatPoS.Types.PartSetReader
import NeatPoS.Types.ValidatorSet

/-!
# Part sets from end to end

A proposer cuts a block into parts, the parts travel in any order, and a receiver puts them together
again in a set that it has made from the header alone.  This module is about the way there and back
(`round_trips_iff`) and about what a peer can do to the receiver (`tolerated_iff`).

What goes wrong on the way is arithmetic.  `NewPartSetFromData` adds the size of a part to the
length of the data, both machine integers, and a sum that overflows gives a negative number of parts
or none at all.  And there is a largest slice that `make` grants: 2^45 pointers, or half as many
interface values.  What a peer can do is send a header with more parts than that, a nil part, or a
part with a negative index, which `AddPart` compares with the total only.
-/

set_option autoImplicit false

namespace NeatPoS

/-- The largest length `make` grants for a slice of interface values. -/
def maxInterfaceSliceLen : Nat := 2 ^ 44

namespace PartSet

/-- `NewPartSetFromData`, with the arithmetic of the machine: the number of parts is an `int`, and
it is allotted twice, for pointers and for interface values.  If nothing overflows, this is
`newPartSetFromData`.  Of no parts at all it makes the empty set, where go-merkle may panic. -/
def newPartSetFromDataInt (lib : Neatlib) (data : Bytes) (partSize : Nat) : Except Panic PartSet :=
  let total := (int64 (data.length + partSize - 1)).tdiv partSize
  if total < 0 ∨ total > maxSliceLen ∨ total > maxInterfaceSliceLen then .error .makeSlice
  else .ok (cut lib data partSize total.toNat)

/-- `GetReader`. -/
def openReader (ps : PartSet) : Except Panic PartSetReader :=
  if !ps.isComplete then .error (.panicSanity "Cannot GetReader() on incomplete PartSet")
  else PartSetReader.newPartSetReader ps.parts

/-- `AddPart`, on a pointer that may be nil. -/
def addPartPointer (lib : Neatlib) (ps : PartSet) (part : Option Part) (verify : Bool) :
    Except Panic (PartSet × Bool × Option PartSetError) :=
  match part with
  | none => .error .nilDereference
  | some part => ps.addPart lib part verify

/-- One `AddPart` after the other. -/
def addParts (lib : Neatlib) : PartSet → List (Part × Bool) → Except Panic PartSet
  | ps, [] => .ok ps
  | ps, (part, verify) :: calls => do
    let (ps, _) ← ps.addPart lib part verify
    ps.addParts lib calls

/-- Every call delivers a part of `full`, or its part is rejected. -/
def Deliveries (lib : Neatlib) (full : PartSet) : PartSet → List (Part × Bool) → Prop
  | _, [] => True
  | ps, (part, verify) :: calls =>
    (some part ∈ full.parts ∨ ∃ ps' err, ps.addPart lib part verify = .ok (ps', false, err)) ∧
      ∀ ps' res, ps.addPart lib part verify = .ok (ps', res) → Deliveries lib full ps' calls

/-- The count, the parts that are there and the bits that are set are as many. -/
def Counted (ps : PartSet) : Prop :=
  ps.count = ps.parts.countP Option.isSome ∧ ps.count = (ps.partsBitArray.getD []).count true

/-- There and back: the data can be cut, the header makes a set, and whatever the order in which the
parts arrive in it, it is counted at every step, complete in the end, and read as the data. -/
def RoundTrips (lib : Neatlib) (data : Bytes) (partSize : Nat) : Prop :=
  ∃ full ps, newPartSetFromDataInt lib data partSize = .ok full ∧
    newPartSetFromHeader (header (some full)) = .ok ps ∧
      ∀ calls : List (Part × Bool), Deliveries lib full ps calls →
        (∀ part, some part ∈ full.parts → ∃ verify, (part, verify) ∈ calls) →
          (∀ k, ∃ ps', ps.addParts lib (calls.take k) = .ok ps' ∧ ps'.Counted) ∧
            ∃ ps' psr, ps.addParts lib calls = .ok ps' ∧ ps'.isComplete = true ∧
              ps'.openReader = .ok psr ∧ psr.Yields data

theorem Deliveries.take {lib : Neatlib} {full ps : PartSet} {calls : List (Part × Bool)}
    (h : Deliveries lib full ps calls) (k : Nat) : Deliveries lib full ps (calls.take k) := by
  induction calls generalizing ps k with
  | nil => simpa using h
  | cons _ _ ih =>
    cases k with
    | zero => trivial
    | succ k => exact ⟨h.1, fun ps' res hadd => ih (h.2 ps' res hadd) k⟩

theorem counted (ps : PartSet) : ps.Counted := by
  refine ⟨ps.count_eq, ?_⟩
  rw [ps.count_eq, ps.bits_eq, List.count_eq_countP, List.countP_map]
  congr 1
  funext p
  cases p <;> rfl

/-! ## What `AddPart` does -/

section
variable {lib : Neatlib} {full ps ps' : PartSet} {part : Part} {verify : Bool}

/-- What `AddPart` does, unless the index is negative.  A part is rejected for its index, because it
is there already, or for its proof. -/
theorem addPart_cases (lib : Neatlib) (ps : PartSet) (verify : Bool) (hindex : 0 ≤ part.index) :
    (∃ err, ps.addPart lib part verify = .ok (ps, false, err) ∧ (verify = true ∨
      ps.total ≤ part.index ∨ ps.parts[part.index.toNat]? ≠ some none)) ∨
        ∃ hi : ps.parts[part.index.toNat]? = some none, part.index < ps.total ∧
          (verify = true →
            lib.proofVerify part.proof part.index ps.total part.bytes ps.hash = true) ∧
            ps.addPart lib part verify = .ok (ps.putPart part.index.toNat part hi, true, none) := by
  rw [addPart]
  split
  · rename_i hrange
    exact .inl ⟨_, rfl, .inr (.inl hrange)⟩
  rename_i hrange
  rw [if_neg (by omega)]
  split
  · rename_i hi
    split
    · rename_i hproof
      rw [Bool.and_eq_true] at hproof
      exact .inl ⟨_, rfl, .inl hproof.1⟩
    · rename_i hproof
      refine .inr ⟨hi, by omega, fun hv => ?_, rfl⟩
      rw [hv, Bool.true_and, Bool.not_eq_true', Bool.not_eq_false] at hproof
      exact hproof
  · rename_i hi
    exact .inl ⟨_, rfl, .inr (.inr hi)⟩

theorem parts_putPart {i : Nat} (hi : ps.parts[i]? = some none) :
    (ps.putPart i part hi).parts = ps.parts.set i (some part) := rfl

theorem addPart_negative (h : part.index < 0) :
    ps.addPart lib part verify = .error .indexOutOfRange := by
  rw [addPart, if_neg (by omega), if_pos h]

theorem addPart_rejected {err : Option PartSetError}
    (h : ps.addPart lib part verify = .ok (ps', false, err)) : ps' = ps := by
  by_cases hindex : 0 ≤ part.index
  · rcases addPart_cases lib ps verify hindex with ⟨err, hr, -⟩ | ⟨hi, -, -, ha⟩
    · rw [hr, Except.ok.injEq, Prod.mk.injEq] at h
      exact h.1.symm
    · rw [ha] at h
      simp at h
  · rw [addPart_negative (by omega)] at h
    simp at h

theorem addPart_header {res : Bool × Option PartSetError}
    (h : ps.addPart lib part verify = .ok (ps', res)) : header (some ps') = header (some ps) := by
  obtain ⟨added, _⟩ := res
  cases added with
  | true => exact (addPart_eq_added h).1
  | false => rw [addPart_rejected h]

end

/-! ## The way back -/

/-- The proofs that the library makes for a list of parts verify. -/
def ProofsVerify (lib : Neatlib) : Prop :=
  ∀ (chunks : List Bytes) (i : Nat), i < chunks.length →
    lib.proofVerify ((lib.proofsFromParts chunks).2.getD i []) i chunks.length (chunks.getD i [])
      (lib.proofsFromParts chunks).1 = true

/-- A complete set whose parts would be accepted. -/
def Genuine (lib : Neatlib) (full : PartSet) : Prop :=
  ∀ i, i < full.total → ∃ part : Part, full.parts[i]? = some (some part) ∧ part.index = i ∧
    lib.proofVerify part.proof part.index full.total part.bytes full.hash = true

/-- A set on its way to be `full`: each slot is free, or holds the part it should. -/
structure Filling (full ps : PartSet) : Prop where
  header : PartSet.header (some ps) = PartSet.header (some full)
  slots : ∀ i, i < full.total → ps.parts[i]? = some none ∨ ps.parts[i]? = full.parts[i]?

/-- No part is taken away. -/
def Keeps (ps ps' : PartSet) : Prop :=
  ∀ (j : Nat) (part : Part), ps.parts[j]? = some (some part) → ps'.parts[j]? = some (some part)

section
variable {lib : Neatlib} {full ps ps' : PartSet} {part : Part}

section

variable (h : Filling full ps)
include h

theorem Filling.total : ps.total = full.total := congrArg PartSetHeader.total h.header

theorem Filling.hash : ps.hash = full.hash := congrArg PartSetHeader.hash h.header

/-- A part of the set arrives. -/
theorem Filling.addPart (hfull : full.Genuine lib)
    (hpart : some part ∈ full.parts) (verify : Bool) :
    ∃ ps' res, ps.addPart lib part verify = .ok (ps', res) ∧ Filling full ps' ∧ ps.Keeps ps' ∧
      ps'.parts[part.index.toNat]? = some (some part) := by
  obtain ⟨i, hi, hget⟩ := List.getElem_of_mem hpart
  have hslot : full.parts[i]? = some (some part) := List.getElem?_eq_some_iff.2 ⟨hi, hget⟩
  rw [full.length_parts] at hi
  obtain ⟨p, hp, hindex, hproof⟩ := hfull i hi
  obtain rfl : p = part := by
    rw [hslot] at hp
    exact (Option.some.inj (Option.some.inj hp)).symm
  have hnat : p.index.toNat = i := by omega
  have hrange : ¬ p.index ≥ ps.total := by
    rw [h.total]
    omega
  rw [PartSet.addPart, if_neg hrange, if_neg (by omega)]
  rcases h.slots i hi with hfree | hheld
  · have hi' : ps.parts[p.index.toNat]? = some none := hnat ▸ hfree
    rw [dif_pos hi', h.total, h.hash, hproof, if_neg (by simp)]
    have hput : ∀ j, (ps.putPart p.index.toNat p hi').parts[j]? =
        if j = i then some (some p) else ps.parts[j]? := by
      intro j
      rw [parts_putPart, hnat, List.getElem?_set]
      split
      · rename_i hj
        subst hj
        rw [if_pos rfl, if_pos (by rw [ps.length_parts, h.total]; exact hi)]
      · rename_i hj
        rw [if_neg fun heq => hj heq.symm]
    refine ⟨_, _, rfl, ⟨h.header, fun j hj => ?_⟩, fun j q hj => ?_, ?_⟩
    · rw [hput]
      split
      · rename_i heq
        rw [heq, hslot]
        exact .inr rfl
      · exact h.slots j hj
    · rw [hput, if_neg (by rintro rfl; rw [hfree] at hj; simp at hj)]
      exact hj
    · rw [hput, if_pos hnat]
  · have hheld' : ps.parts[p.index.toNat]? = some (some p) := by rw [hnat, hheld, hslot]
    rw [dif_neg (by rw [hheld']; simp)]
    exact ⟨ps, _, rfl, h, fun _ _ hj => hj, hheld'⟩

/-- **The parts arrive.**  No call panics, and what is delivered is there in the end. -/
theorem Filling.addParts (hfull : full.Genuine lib)
    {calls : List (Part × Bool)} (hcalls : Deliveries lib full ps calls) :
    ∃ ps', ps.addParts lib calls = .ok ps' ∧ Filling full ps' ∧ ps.Keeps ps' ∧
      ∀ call ∈ calls, some call.1 ∈ full.parts →
        ps'.parts[call.1.index.toNat]? = some (some call.1) := by
  induction calls generalizing ps with
  | nil => exact ⟨ps, rfl, h, fun _ _ hj => hj, by simp⟩
  | cons call _ ih =>
    obtain ⟨part, verify⟩ := call
    obtain ⟨hpart, hrest⟩ := hcalls
    have hstep : ∃ ps₁ res, ps.addPart lib part verify = .ok (ps₁, res) ∧ Filling full ps₁ ∧
        ps.Keeps ps₁ ∧
          (some part ∈ full.parts → ps₁.parts[part.index.toNat]? = some (some part)) := by
      by_cases hmem : some part ∈ full.parts
      · obtain ⟨ps₁, res, hadd, hfill, hkeep, hslot⟩ := h.addPart hfull hmem verify
        exact ⟨ps₁, res, hadd, hfill, hkeep, fun _ => hslot⟩
      · obtain ⟨ps₁, _, hadd⟩ := hpart.resolve_left hmem
        obtain rfl := addPart_rejected hadd
        exact ⟨ps₁, _, hadd, h, fun _ _ hj => hj, fun hn => absurd hn hmem⟩
    obtain ⟨ps₁, res, hadd, hfill, hkeep, hslot⟩ := hstep
    obtain ⟨ps₂, hadds, hfill₂, hkeep₂, hslots⟩ := ih hfill (hrest ps₁ res hadd)
    refine ⟨ps₂, ?_, hfill₂, fun j p hj => hkeep₂ j p (hkeep j p hj), ?_⟩
    · rw [PartSet.addParts, hadd]
      exact hadds
    · rintro call (_ | ⟨_, hcall⟩) hmem
      · exact hkeep₂ _ _ (hslot hmem)
      · exact hslots call hcall hmem

/-- A set that has every part is the full one. -/
theorem Filling.parts_eq (hfull : full.Genuine lib)
    (hall : ∀ part, some part ∈ full.parts → ps.parts[part.index.toNat]? = some (some part)) :
    ps.parts = full.parts := by
  refine List.ext_getElem? fun i => ?_
  by_cases hi : i < full.total
  · obtain ⟨part, hpart, hindex, -⟩ := hfull i hi
    have hslot := hall part (List.mem_of_getElem? hpart)
    rw [hpart, ← hslot]
    congr 1
    omega
  · rw [List.getElem?_eq_none, List.getElem?_eq_none]
    · rw [full.length_parts]
      omega
    · rw [ps.length_parts, h.total]
      omega

end

theorem isComplete_of_none_notMem (h : none ∉ ps.parts) : ps.isComplete = true := by
  rw [isComplete, beq_iff_eq, ps.count_eq, ← ps.length_parts, List.countP_eq_length]
  intro p hp
  cases p with
  | none => exact absurd hp h
  | some => rfl

end

/-! ## The way there -/

section
variable {lib : Neatlib} {data : Bytes} {partSize total : Nat}

/-- The windows of a list, put together. -/
theorem flatMap_chunks (data : Bytes) (k total : Nat) :
    ((List.range total).flatMap fun i => (data.drop (i * k)).take k) = data.take (total * k) := by
  induction total with
  | zero => simp
  | succ _ ih =>
    rw [List.range_succ, List.flatMap_append, ih, List.flatMap_singleton, Nat.succ_mul, List.take_add]

theorem getElem?_parts_cut {i : Nat} (hi : i < total) :
    (cut lib data partSize total).parts[i]? =
      some (some ⟨i, (data.drop (i * partSize)).take partSize,
        (lib.proofsFromParts ((List.range total).map fun i =>
          (data.drop (i * partSize)).take partSize)).2.getD i []⟩) := by
  simp [cut, List.getElem?_map, List.getElem?_range hi, List.getD_eq_getElem?_getD]

theorem genuine_cut (hlib : ProofsVerify lib) : (cut lib data partSize total).Genuine lib := by
  intro i hi
  refine ⟨_, getElem?_parts_cut hi, rfl, ?_⟩
  have hproof := hlib ((List.range total).map fun i => (data.drop (i * partSize)).take partSize) i
    (by rw [List.length_map, List.length_range]; exact hi)
  have hchunk : ((List.range total).map fun i => (data.drop (i * partSize)).take partSize).getD i [] =
      (data.drop (i * partSize)).take partSize := by
    simp [List.getD_eq_getElem?_getD, List.getElem?_range (show i < total from hi)]
  rw [hchunk, List.length_map, List.length_range] at hproof
  exact hproof

theorem none_notMem_parts_cut : none ∉ (cut lib data partSize total).parts := by
  simp [cut]

theorem flatMap_parts_cut :
    ((cut lib data partSize total).parts.flatMap fun p => (p.map (·.bytes)).getD []) =
      data.take (total * partSize) := by
  rw [← flatMap_chunks]
  simp only [cut, List.flatMap_map, Option.map_some, Option.getD_some]
  refine List.flatMap_congr fun i hi => ?_
  simp [List.getD_eq_getElem?_getD, List.getElem?_range (List.mem_range.1 hi)]

end

/-! ## There and back -/

section
variable {lib : Neatlib} {data : Bytes} {partSize : Nat}

/-- The number of parts, if the sum does not overflow. -/
theorem total_of_range (h : data.length + partSize - 1 < 2 ^ 63) (hpos : 0 < partSize) :
    (int64 (data.length + partSize - 1)).tdiv partSize =
      ((data.length + partSize - 1) / partSize : Nat) := by
  have hsum : (data.length + partSize - 1 : Int) = (data.length + partSize - 1 : Nat) := by omega
  rw [hsum, int64_eq_self (by omega) (by omega), Int.tdiv_eq_ediv_of_nonneg (by omega)]
  exact (Int.natCast_ediv ..).symm

/-- A sum that overflows makes a negative number of parts, or none. -/
theorem total_of_overflow (h : 2 ^ 63 ≤ data.length + partSize - 1) (hlen : data.length < 2 ^ 63)
    (hsize : partSize < 2 ^ 63) : (int64 (data.length + partSize - 1)).tdiv partSize ≤ 0 := by
  have hwrap : int64 (data.length + partSize - 1) = -(2 ^ 64 - (data.length + partSize - 1)) := by
    rw [int64_eq_sub (by omega) (by omega)]
    omega
  have hquot : 0 ≤ (2 ^ 64 - (data.length + partSize - 1) : Int).tdiv partSize :=
    Int.tdiv_nonneg (by omega) (by omega)
  rw [hwrap, Int.neg_tdiv]
  omega

theorem newPartSetFromDataInt_eq_ok {full : PartSet} :
    newPartSetFromDataInt lib data partSize = .ok full ↔
      (0 ≤ (int64 (data.length + partSize - 1)).tdiv partSize ∧
        (int64 (data.length + partSize - 1)).tdiv partSize ≤ maxInterfaceSliceLen) ∧
          full = cut lib data partSize ((int64 (data.length + partSize - 1)).tdiv partSize).toNat := by
  have hmax : maxInterfaceSliceLen ≤ maxSliceLen := by decide
  rw [newPartSetFromDataInt]
  split
  · simp only [reduceCtorEq, false_iff, not_and]
    omega
  · rw [Except.ok.injEq, eq_comm, iff_and_self]
    omega

/-- The parts of data that has been cut arrive in some order. -/
theorem roundTrips_of_range (hlib : ProofsVerify lib) (hdata : data ≠ []) (hpos : 0 < partSize)
    (hsum : data.length + partSize - 1 < 2 ^ 63)
    (htotal : (data.length + partSize - 1) / partSize ≤ maxInterfaceSliceLen) :
    RoundTrips lib data partSize := by
  obtain ⟨total, htot⟩ : ∃ total, total = (data.length + partSize - 1) / partSize := ⟨_, rfl⟩
  have hlen : data.length ≤ total * partSize := by
    have := Nat.lt_mul_div_succ (data.length + partSize - 1) hpos
    rw [← htot, Nat.mul_succ, Nat.mul_comm] at this
    omega
  have htotal_pos : 0 < total := by
    rw [htot]
    have := List.length_pos_iff.2 hdata
    exact Nat.div_pos (by omega) hpos
  have hmax : maxInterfaceSliceLen ≤ maxSliceLen := by decide
  have hfull : newPartSetFromDataInt lib data partSize = .ok (cut lib data partSize total) := by
    rw [newPartSetFromDataInt_eq_ok, total_of_range hsum hpos, ← htot, Int.toNat_natCast]
    exact ⟨⟨by omega, by omega⟩, rfl⟩
  have hnew : newPartSetFromHeader (header (some (cut lib data partSize total))) =
      .ok (empty (header (some (cut lib data partSize total)))) :=
    if_neg (show ¬ total > maxSliceLen by omega)
  have hstart : Filling (cut lib data partSize total)
      (empty (header (some (cut lib data partSize total)))) :=
    ⟨rfl, fun i hi => .inl (List.getElem?_replicate_of_lt hi)⟩
  have hgenuine : (cut lib data partSize total).Genuine lib := genuine_cut hlib
  refine ⟨_, _, hfull, hnew, fun calls hcalls hall => ⟨fun k => ?_, ?_⟩⟩
  · obtain ⟨ps', hps', -⟩ := hstart.addParts hgenuine (hcalls.take k)
    exact ⟨ps', hps', ps'.counted⟩
  obtain ⟨ps', hps', hfill, -, hslots⟩ := hstart.addParts hgenuine hcalls
  have hparts : ps'.parts = (cut lib data partSize total).parts := by
    refine hfill.parts_eq hgenuine fun part hpart => ?_
    obtain ⟨_, hcall⟩ := hall part hpart
    exact hslots _ hcall hpart
  have hwhole : none ∉ ps'.parts := hparts ▸ none_notMem_parts_cut
  have hne : ps'.parts ≠ [] := by
    rw [← List.length_pos_iff, ps'.length_parts, hfill.total]
    exact htotal_pos
  obtain ⟨psr, hpsr, hyields⟩ := PartSetReader.yields_new hwhole hne
  rw [hparts, flatMap_parts_cut, List.take_of_length_le hlen] at hyields
  have hcomplete := isComplete_of_none_notMem hwhole
  refine ⟨ps', psr, hps', hcomplete, ?_, hyields⟩
  rw [openReader, hcomplete]
  exact hpsr

/-- A set without parts cannot be read. -/
theorem not_roundTrips_of_overflow (hsum : 2 ^ 63 ≤ data.length + partSize - 1)
    (hlen : data.length < 2 ^ 63) (hsize : partSize < 2 ^ 63) : ¬ RoundTrips lib data partSize := by
  rintro ⟨_, _, hfull, hps, h⟩
  obtain ⟨-, rfl⟩ := newPartSetFromDataInt_eq_ok.1 hfull
  have hzero : ((int64 (data.length + partSize - 1)).tdiv partSize).toNat = 0 := by
    have := total_of_overflow hsum hlen hsize
    omega
  rw [hzero] at hps h
  cases hps
  obtain ⟨-, _, _, hps', -, hread, -⟩ := h [] trivial (by simp [cut])
  cases hps'
  have hopen : (empty (header (some (cut lib data partSize 0)))).openReader =
      .error .indexOutOfRange := rfl
  exact absurd (hopen.symm.trans hread) (by simp)

end

/-- **When a block comes back as it was.**  The length of the data and the size of a part do not
overflow when they are added, and the runtime grants slices for as many parts. -/
theorem round_trips_iff (lib : Neatlib) (hlib : ProofsVerify lib) (data : Bytes) (partSize : Nat)
    (hdata : data ≠ []) (hpos : 0 < partSize) (hlen : data.length < 2 ^ 63)
    (hsize : partSize < 2 ^ 63) :
    RoundTrips lib data partSize ↔ data.length + partSize - 1 < 2 ^ 63 ∧
      (data.length + partSize - 1) / partSize ≤ maxInterfaceSliceLen := by
  refine ⟨fun h => ?_, fun h => roundTrips_of_range hlib hdata hpos h.1 h.2⟩
  have hsum : data.length + partSize - 1 < 2 ^ 63 := by
    by_contra hover
    exact not_roundTrips_of_overflow (by omega) hlen hsize h
  obtain ⟨_, -, hfull, -⟩ := h
  have hmax := (newPartSetFromDataInt_eq_ok.1 hfull).1.2
  rw [total_of_range hsum hpos] at hmax
  exact ⟨hsum, by omega⟩

/-- A library whose proofs always verify. -/
def trustingLib : Neatlib := .toy (fun _ => []) fun _ => none

/-- Three bytes in parts of two. -/
theorem round_trips_three : RoundTrips trustingLib [1, 2, 3] 2 :=
  (round_trips_iff _ (fun _ _ _ => rfl) _ _ (by simp) (by decide) (by decide) (by decide)).2
    (by decide)

/-- Two bytes in parts of the largest size there is. -/
theorem round_trip_fails : ¬ RoundTrips trustingLib [1, 2] (2 ^ 63 - 1) := by
  rintro ⟨_, -, hfull, -⟩
  have hpanic : newPartSetFromDataInt trustingLib [1, 2] (2 ^ 63 - 1) = .error .makeSlice := rfl
  exact absurd (hpanic.symm.trans hfull) (by simp)

/-! ## Hostile input -/

/-- The call returns.  A part that is rejected leaves the set as it is, and a part that is accepted
is one of those that the header announces and has a proof that verifies. -/
def Tolerates (lib : Neatlib) (hdr : PartSetHeader) (ps : PartSet) (part : Option Part)
    (verify : Bool) : Prop :=
  ∃ ps' added err, ps.addPartPointer lib part verify = .ok (ps', added, err) ∧
    (added = false → ps' = ps) ∧
      (added = true → ∃ p, part = some p ∧ 0 ≤ p.index ∧ p.index < hdr.total ∧
        lib.proofVerify p.proof p.index hdr.total p.bytes hdr.hash = true)

/-- Every one of the calls is tolerated. -/
def ToleratesAll (lib : Neatlib) (hdr : PartSetHeader) :
    PartSet → List (Option Part × Bool) → Prop
  | _, [] => True
  | ps, (part, verify) :: calls => ps.Tolerates lib hdr part verify ∧
    ∀ ps' res, ps.addPartPointer lib part verify = .ok (ps', res) → ToleratesAll lib hdr ps' calls

/-- A set can be made from the header, and it tolerates the calls. -/
def Tolerated (lib : Neatlib) (hdr : PartSetHeader) (calls : List (Option Part × Bool)) : Prop :=
  ∃ ps, newPartSetFromHeader hdr = .ok ps ∧ ps.ToleratesAll lib hdr calls

/-- The part is not nil, its index is not negative, and if its proof is not to be verified, then it
would be, or the part is rejected. -/
def Harmless (lib : Neatlib) (ps : PartSet) (part : Option Part) (verify : Bool) : Prop :=
  ∃ p, part = some p ∧ 0 ≤ p.index ∧ (verify = true ∨ ps.total ≤ p.index ∨
    ps.parts[p.index.toNat]? ≠ some none ∨
      lib.proofVerify p.proof p.index ps.total p.bytes ps.hash = true)

/-- Every call is harmless in the state it is made in. -/
def HarmlessAll (lib : Neatlib) : PartSet → List (Option Part × Bool) → Prop
  | _, [] => True
  | ps, (part, verify) :: calls => ps.Harmless lib part verify ∧
    ∀ ps' res, ps.addPartPointer lib part verify = .ok (ps', res) → HarmlessAll lib ps' calls

section
variable {lib : Neatlib} {hdr : PartSetHeader} {ps : PartSet}

theorem tolerates_iff_harmless (hhdr : header (some ps) = hdr) {part : Option Part} {verify : Bool} :
    ps.Tolerates lib hdr part verify ↔ ps.Harmless lib part verify := by
  subst hhdr
  constructor
  · rintro ⟨ps', added, err, hadd, -, haccepted⟩
    cases part with
    | none => simp [addPartPointer] at hadd
    | some p =>
      change ps.addPart lib p verify = _ at hadd
      have hindex : 0 ≤ p.index := by
        by_contra hneg
        rw [addPart_negative (by omega)] at hadd
        simp at hadd
      refine ⟨p, rfl, hindex, ?_⟩
      rcases addPart_cases lib ps verify hindex with ⟨err', -, hwhy⟩ | ⟨hi, -, hproof, hacc⟩
      · tauto
      · rw [hacc, Except.ok.injEq, Prod.mk.injEq, Prod.mk.injEq] at hadd
        obtain ⟨q, hq, -, -, hverified⟩ := haccepted hadd.2.1.symm
        cases hq
        exact .inr (.inr (.inr hverified))
  · rintro ⟨p, rfl, hindex, hcases⟩
    rcases addPart_cases lib ps verify hindex with ⟨err, hrej, -⟩ | ⟨hi, hrange, hproof, hacc⟩
    · exact ⟨ps, false, err, hrej, fun _ => rfl, fun hn => Bool.noConfusion hn⟩
    refine ⟨_, true, none, hacc, fun hn => Bool.noConfusion hn,
      fun _ => ⟨p, rfl, hindex, hrange, ?_⟩⟩
    rcases hcases with hv | hlarge | htaken | hverified
    · exact hproof hv
    · omega
    · exact absurd hi htaken
    · exact hverified

theorem toleratesAll_iff (hhdr : header (some ps) = hdr) {calls : List (Option Part × Bool)} :
    ps.ToleratesAll lib hdr calls ↔ ps.HarmlessAll lib calls := by
  induction calls generalizing ps with
  | nil => exact Iff.rfl
  | cons call _ ih =>
    obtain ⟨part, _⟩ := call
    refine and_congr (tolerates_iff_harmless hhdr) ?_
    refine forall_congr' fun ps' => forall_congr' fun res => imp_congr_right fun hadd => ih ?_
    cases part with
    | none => simp [addPartPointer] at hadd
    | some => exact (addPart_header hadd).trans hhdr

end

/-- **What a part set tolerates.**  A header may announce as many parts as `make` grants pointers,
and a part may be anything but nil or negative.  If a proof is not to be verified, then the part has
to be one that is rejected or whose proof would verify. -/
theorem tolerated_iff (lib : Neatlib) (hdr : PartSetHeader) (calls : List (Option Part × Bool)) :
    Tolerated lib hdr calls ↔
      hdr.total ≤ maxSliceLen ∧ (empty hdr).HarmlessAll lib calls := by
  by_cases hmax : hdr.total > maxSliceLen
  · have hpanic : newPartSetFromHeader hdr = .error .makeSlice := if_pos hmax
    simp only [Tolerated, hpanic, reduceCtorEq, false_and, exists_false, false_iff, not_and]
    omega
  · have hnew : newPartSetFromHeader hdr = .ok (empty hdr) := if_neg hmax
    simp only [Tolerated, hnew, Except.ok.injEq, exists_eq_left']
    have hhdr : header (some (empty hdr)) = hdr := rfl
    rw [toleratesAll_iff hhdr, and_iff_right (by omega)]

/-- A header that is too large, a nil part, and a part with a negative index. -/
theorem tolerated_fails :
    ¬ Tolerated trustingLib ⟨2 ^ 45 + 1, []⟩ [] ∧ ¬ Tolerated trustingLib ⟨1, []⟩ [(none, true)] ∧
      ¬ Tolerated trustingLib ⟨1, []⟩ [(some ⟨-1, [], []⟩, true)] := by
  refine ⟨?_, ?_, ?_⟩
  · rintro ⟨ps, hps, -⟩
    exact absurd hps (by simp [newPartSetFromHeader, maxSliceLen])
  · rintro ⟨ps, hps, ⟨ps', added, err, hadd, -⟩, -⟩
    exact absurd hadd (by simp [addPartPointer])
  · rintro ⟨ps, hps, ⟨ps', added, err, hadd, -⟩, -⟩
    change ps.addPart trustingLib ⟨-1, [], []⟩ true = _ at hadd
    rw [addPart_negative (show (-1 : Int) < 0 by decide)] at hadd
    cases hadd

end PartSet

end NeatPoS
