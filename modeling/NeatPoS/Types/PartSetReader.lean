import NeatPoS.Types.Block

/-!
# Reading a part set

`PartSetReader` of `types/part_set.go`.  It is a `bytes.Reader` for the current part, with the index
of that part.  A `Read` into a buffer that is larger than what the current part has left calls
itself twice, for what is left and for the remainder of the buffer, and with nothing left it goes on
to the next part.

`read_spec` says that the parts do not show: a `Read` returns the next bytes of all parts together,
as many as fit into the buffer, and `io.EOF` if these are fewer.  The buffer must not be empty.  An
empty one may be answered by `io.EOF` at the end of any part.
-/

set_option autoImplicit false

namespace NeatPoS

/-- `types.PartSetReader`; the `bytes.Reader` is what it has left to read. -/
structure PartSetReader where
  i : Nat
  parts : List (Option Part)
  reader : Bytes
deriving DecidableEq, Repr

/-- What a `Read` returns: the bytes it has copied, and whether the error is `io.EOF`. -/
structure ReadResult where
  bytes : Bytes
  eof : Bool
deriving DecidableEq, Repr

/-- `bytes.Reader.Read`, into a buffer of `n` bytes. -/
def readBytes (reader : Bytes) (n : Nat) : ReadResult × Bytes :=
  if reader.isEmpty then (⟨[], true⟩, []) else (⟨reader.take n, false⟩, reader.drop n)

namespace PartSetReader

/-- `NewPartSetReader`. -/
def newPartSetReader (parts : List (Option Part)) : Except Panic PartSetReader :=
  match parts with
  | [] => .error .indexOutOfRange
  | none :: _ => .error .nilDereference
  | some part :: _ => .ok ⟨0, parts, part.bytes⟩

/-- `PartSetReader.Read`, into a buffer of `n` bytes. -/
def read (psr : PartSetReader) (n : Nat) : Except Panic (ReadResult × PartSetReader) :=
  if n ≤ psr.reader.length then
    let (res, reader) := readBytes psr.reader n
    .ok (res, { psr with reader })
  else if 0 < psr.reader.length then
    match read psr psr.reader.length with
    | .error e => .error e
    | .ok (res₁, psr₁) =>
      if res₁.eof then .ok (res₁, psr₁)
      else
        match read psr₁ (n - psr.reader.length) with
        | .error e => .error e
        | .ok (res₂, psr₂) => .ok (⟨res₁.bytes ++ res₂.bytes, res₂.eof⟩, psr₂)
  else if psr.i + 1 ≥ psr.parts.length then .ok (⟨[], true⟩, { psr with i := psr.i + 1 })
  else
    match psr.parts[psr.i + 1]? with
    | none => .error .indexOutOfRange
    | some none => .error .nilDereference
    | some (some part) => read { psr with i := psr.i + 1, reader := part.bytes } n
termination_by (n, psr.parts.length - psr.i)

/-- One `Read` after the other, into buffers of the given sizes. -/
def reads : PartSetReader → List Nat → Except Panic (List ReadResult × PartSetReader)
  | psr, [] => .ok ([], psr)
  | psr, n :: sizes => do
    let (res, psr) ← psr.read n
    let (rest, psr) ← psr.reads sizes
    pure (res :: rest, psr)

/-- The bytes that are still to be read. -/
def left (psr : PartSetReader) : Bytes :=
  psr.reader ++ (psr.parts.drop (psr.i + 1)).flatMap fun p => (p.map (·.bytes)).getD []

/-- All parts are there. -/
def Whole (psr : PartSetReader) : Prop := none ∉ psr.parts

variable {psr : PartSetReader} {n : Nat}

/-- The current part has enough bytes. -/
theorem read_of_le (hpos : 0 < n) (hle : n ≤ psr.reader.length) :
    psr.read n = .ok (⟨psr.reader.take n, false⟩, { psr with reader := psr.reader.drop n }) := by
  have hne : psr.reader.isEmpty = false := by
    rw [List.isEmpty_eq_false_iff, ← List.length_pos_iff]
    omega
  rw [read, if_pos hle, readBytes, hne]
  rfl

/-- The current part has some bytes, but not enough. -/
theorem read_of_some (hpos : 0 < psr.reader.length) (hlt : psr.reader.length < n) :
    psr.read n = ({ psr with reader := [] } : PartSetReader).read (n - psr.reader.length) >>=
      fun r => pure (⟨psr.reader ++ r.1.bytes, r.1.eof⟩, r.2) := by
  rw [read, if_neg (by omega), if_pos hpos, read_of_le hpos (Nat.le_refl _)]
  simp only [List.take_length, List.drop_length, Bool.false_eq_true, if_false]
  cases ({ psr with reader := [] } : PartSetReader).read (n - psr.reader.length) <;> rfl

/-- The last part has been read. -/
theorem read_of_end (hpos : 0 < n) (hempty : psr.reader = [])
    (hend : psr.parts.length ≤ psr.i + 1) :
    psr.read n = .ok (⟨[], true⟩, { psr with i := psr.i + 1 }) := by
  rw [read, if_neg (by simp [hempty]; omega), if_neg (by simp [hempty]), if_pos hend]

/-- There is a next part. -/
theorem read_of_next (hpos : 0 < n) (hempty : psr.reader = []) {part : Part}
    (hnext : psr.parts[psr.i + 1]? = some (some part)) :
    psr.read n = ({ psr with i := psr.i + 1, reader := part.bytes } : PartSetReader).read n := by
  have hlt : psr.i + 1 < psr.parts.length := (List.getElem?_eq_some_iff.1 hnext).1
  rw [read, if_neg (by simp [hempty]; omega), if_neg (by simp [hempty]), if_neg (by omega), hnext]

/-- What a `Read` should return. -/
def Serves (psr : PartSetReader) (n : Nat) : Prop :=
  ∃ psr', psr.read n = .ok (⟨psr.left.take n, decide (psr.left.length < n)⟩, psr') ∧
    psr'.left = psr.left.drop n ∧ psr'.Whole

theorem serves_of_le (hpos : 0 < n) (hwhole : psr.Whole) (hle : n ≤ psr.reader.length) :
    psr.Serves n := by
  refine ⟨{ psr with reader := psr.reader.drop n }, ?_, ?_, hwhole⟩
  · have hlen : ¬ psr.left.length < n := by
      rw [left, List.length_append]
      omega
    rw [read_of_le hpos hle, left, List.take_append_of_le_length hle, ← left, decide_eq_false hlen]
  · rw [left, left, List.drop_append_of_le_length hle]

theorem serves_of_end (hpos : 0 < n) (hwhole : psr.Whole) (hempty : psr.reader = [])
    (hend : psr.parts.length ≤ psr.i + 1) : psr.Serves n := by
  have hleft : psr.left = [] := by
    rw [left, hempty, List.drop_eq_nil_of_le hend]
    rfl
  refine ⟨{ psr with i := psr.i + 1 }, ?_, ?_, hwhole⟩
  · rw [read_of_end hpos hempty hend, hleft]
    simp [hpos]
  · have hdrop : psr.parts.drop (psr.i + 1 + 1) = [] := List.drop_eq_nil_of_le (by omega)
    rw [hleft, List.drop_nil, left, hempty, hdrop]
    rfl

theorem serves_of_next (hpos : 0 < n) (hempty : psr.reader = []) {part : Part}
    (hnext : psr.parts[psr.i + 1]? = some (some part))
    (h : ({ psr with i := psr.i + 1, reader := part.bytes } : PartSetReader).Serves n) :
    psr.Serves n := by
  obtain ⟨psr', hread, hleft, hwhole⟩ := h
  obtain ⟨hlt, hpart⟩ := List.getElem?_eq_some_iff.1 hnext
  have hsame : ({ psr with i := psr.i + 1, reader := part.bytes } : PartSetReader).left =
      psr.left := by
    rw [left, left, hempty, List.drop_eq_getElem_cons hlt, hpart]
    rfl
  rw [hsame] at hread hleft
  exact ⟨psr', by rw [read_of_next hpos hempty hnext, hread], hleft, hwhole⟩

/-- What is left of the current part comes first. -/
theorem serves_of_some (hpos : 0 < psr.reader.length) (hlt : psr.reader.length < n)
    (h : ({ psr with reader := [] } : PartSetReader).Serves (n - psr.reader.length)) :
    psr.Serves n := by
  obtain ⟨psr', hread, hleft, hwhole⟩ := h
  have hsplit : psr.left = psr.reader ++ ({ psr with reader := [] } : PartSetReader).left := rfl
  refine ⟨psr', ?_, ?_, hwhole⟩
  · have heof : (({ psr with reader := [] } : PartSetReader).left.length < n - psr.reader.length) ↔
        psr.left.length < n := by
      rw [hsplit, List.length_append]
      omega
    rw [read_of_some hpos hlt, hread, hsplit, List.take_append, List.take_of_length_le (Nat.le_of_lt hlt),
      ← hsplit, decide_eq_decide.2 heof]
    rfl
  · rw [hleft, hsplit, List.drop_append, List.drop_eq_nil_of_le (Nat.le_of_lt hlt), List.nil_append]

/-- **What a `Read` returns.** -/
theorem read_spec (hpos : 0 < n) (hwhole : psr.Whole) : psr.Serves n := by
  -- The induction is on the parts that are to come.
  induction hk : psr.parts.length - psr.i using Nat.strongRecOn generalizing psr n with
  | ind _ ih =>
    have hempty : ∀ m, 0 < m → ({ psr with reader := [] } : PartSetReader).Serves m := by
      intro m hm
      by_cases hend : psr.parts.length ≤ psr.i + 1
      · exact serves_of_end hm hwhole rfl hend
      have hget := List.getElem?_eq_getElem (l := psr.parts) (i := psr.i + 1) (by omega)
      cases hpart : psr.parts[psr.i + 1] with
      | none => exact absurd (List.mem_of_getElem hpart) hwhole
      | some =>
        rw [hpart] at hget
        exact serves_of_next hm rfl hget (ih (psr.parts.length - (psr.i + 1)) (by omega) hm hwhole rfl)
    by_cases hle : n ≤ psr.reader.length
    · exact serves_of_le hpos hwhole hle
    by_cases hsome : 0 < psr.reader.length
    · exact serves_of_some hsome (by omega) (hempty _ (by omega))
    · have hnil : psr.reader = [] := List.length_eq_zero_iff.1 (by omega)
      have hsame : ({ psr with reader := [] } : PartSetReader) = psr := by rw [← hnil]
      exact hsame ▸ hempty n hpos

/-- The reader returns the data, however it is read: as much as is asked for, and `io.EOF` once that
is more than there is. -/
def Yields (psr : PartSetReader) (data : Bytes) : Prop :=
  ∀ sizes : List Nat, (∀ n ∈ sizes, 0 < n) → ∃ results psr', psr.reads sizes = .ok (results, psr') ∧
    results.flatMap ReadResult.bytes = data.take sizes.sum ∧
      ((∃ res ∈ results, res.eof = true) ↔ data.length < sizes.sum)

/-- **The reader yields what is left.** -/
theorem yields_left (hwhole : psr.Whole) : psr.Yields psr.left := by
  intro sizes hpos
  induction sizes generalizing psr with
  | nil => exact ⟨[], psr, rfl, by simp, by simp⟩
  | cons n _ ih =>
    obtain ⟨_, hread, hleft, hwhole₁⟩ := read_spec (hpos n (List.mem_cons_self ..)) hwhole
    obtain ⟨results, psr₂, hreads, hbytes, heof⟩ :=
      ih hwhole₁ fun m hm => hpos m (List.mem_cons_of_mem n hm)
    refine ⟨⟨psr.left.take n, decide (psr.left.length < n)⟩ :: results, psr₂, ?_, ?_, ?_⟩
    · rw [reads, hread]
      simp only [bind, Except.bind, hreads]
      rfl
    · rw [List.flatMap_cons, hbytes, hleft, List.sum_cons, List.take_add]
    · have hcons : (∃ res ∈ (⟨psr.left.take n, decide (psr.left.length < n)⟩ : ReadResult) :: results,
          res.eof = true) ↔ psr.left.length < n ∨ ∃ res ∈ results, res.eof = true := by
        simp
      rw [hcons, heof, hleft, List.length_drop, List.sum_cons]
      omega

theorem yields_new {parts : List (Option Part)} (hwhole : none ∉ parts) (hne : parts ≠ []) :
    ∃ psr, newPartSetReader parts = .ok psr ∧
      psr.Yields (parts.flatMap fun p => (p.map (·.bytes)).getD []) := by
  match parts, hne with
  | none :: rest, _ => exact absurd (List.mem_cons_self ..) hwhole
  | some part :: rest, _ =>
    have hyields : (⟨0, some part :: rest, part.bytes⟩ : PartSetReader).Yields _ :=
      yields_left hwhole
    exact ⟨_, rfl, hyields⟩

end PartSetReader

end NeatPoS
