import Mathlib.Data.Finmap

/-!
# Entries cached over a store

A keyed store that is read and written through two maps in memory.  `base` is the store.  A value
that is read from it is kept in `origin`, also when there is none, and a value that is written goes
to `dirty`; reading prefers `dirty` to `origin` and `origin` to `base`.  Flushing writes the dirty
values to the store and makes them the origin.  A store may refuse values (`keep`): an entry it
refuses is deleted from it, but still read from memory.

Two things are carried by the type: what is cached of an entry that is in the store is that entry
(`coherent`), and a value that is written over has been read before (`fetched`).

`get_flush` says that flushing does not change what is read.  `Refused` says of a store that what is
cached and not in it was refused; it is kept by all operations, and `base_of_refused` says what it is
good for.

Writing an entry and then writing the old value again does not give the old caches back: the entry
is dirty now, with a value that is the origin.  `Restored` says that there is no other difference,
and the lemmas after it that this one does not show.
-/

set_option autoImplicit false

/-- A store with its two caches. -/
structure EntryCache (κ α : Type) [DecidableEq κ] where
  base : κ → Option α
  origin : Finmap fun _ : κ => Option α
  dirty : Finmap fun _ : κ => Option α
  coherent : ∀ k v, origin.lookup k = some v → (base k).isSome → v = base k
  fetched : ∀ k, k ∈ dirty → k ∈ origin

namespace EntryCache

variable {κ α : Type} [DecidableEq κ]

/-- A store that nothing is cached of. -/
def ofBase (base : κ → Option α) : EntryCache κ α :=
  ⟨base, ∅, ∅, fun _ _ h => by simp at h, fun _ h => absurd h Finmap.notMem_empty⟩

/-- The value below the dirty ones. -/
def committed (c : EntryCache κ α) (k : κ) : Option α :=
  match c.origin.lookup k with
  | some v => v
  | none => c.base k

/-- The value that is read. -/
def get (c : EntryCache κ α) (k : κ) : Option α :=
  match c.dirty.lookup k with
  | some v => v
  | none => c.committed k

/-- The caches after a read. -/
def fetch (c : EntryCache κ α) (k : κ) : EntryCache κ α :=
  if k ∈ c.origin then c
  else
    { c with
      origin := c.origin.insert k (c.base k)
      coherent := by
        intro j v hv hj
        by_cases h : j = k
        · subst h
          rw [Finmap.lookup_insert] at hv
          exact (Option.some.inj hv).symm
        · rw [Finmap.lookup_insert_of_ne _ h] at hv
          exact c.coherent j v hv hj
      fetched := fun j hj => Finmap.mem_insert.2 (Or.inr (c.fetched j hj)) }

variable (c : EntryCache κ α)

theorem mem_origin_fetch (k : κ) : k ∈ (c.fetch k).origin := by
  rw [fetch]
  split
  · assumption
  · exact Finmap.mem_insert.2 (.inl rfl)

/-- The caches after a read and a write. -/
def set (c : EntryCache κ α) (k : κ) (v : Option α) : EntryCache κ α :=
  { c.fetch k with
    dirty := (c.fetch k).dirty.insert k v
    fetched := by
      intro j hj
      rcases Finmap.mem_insert.1 hj with rfl | hj
      · exact c.mem_origin_fetch j
      · exact (c.fetch k).fetched j hj }

/-! ## Reads and writes -/

@[simp] theorem base_fetch (k : κ) : (c.fetch k).base = c.base := by
  rw [fetch]
  split <;> rfl

@[simp] theorem dirty_fetch (k : κ) : (c.fetch k).dirty = c.dirty := by
  rw [fetch]
  split <;> rfl

theorem lookup_origin_fetch_of_ne {j k : κ} (h : j ≠ k) :
    (c.fetch k).origin.lookup j = c.origin.lookup j := by
  rw [fetch]
  split
  · rfl
  · exact Finmap.lookup_insert_of_ne _ h

theorem lookup_origin_fetch_self (k : κ) : (c.fetch k).origin.lookup k = some (c.committed k) := by
  rw [fetch, committed]
  split
  · rename_i h
    obtain ⟨_, hv⟩ := Finmap.mem_iff.1 h
    rw [hv]
  · rename_i h
    rw [Finmap.lookup_eq_none.2 h]
    exact Finmap.lookup_insert _

@[simp] theorem base_set (k : κ) (v : Option α) :
    (c.set k v).base = c.base := c.base_fetch k

@[simp] theorem dirty_set (k : κ) (v : Option α) : (c.set k v).dirty = c.dirty.insert k v := by
  change (c.fetch k).dirty.insert k v = _
  rw [dirty_fetch]

@[simp] theorem origin_set (k : κ) (v : Option α) : (c.set k v).origin = (c.fetch k).origin := rfl

/-- An entry that is in the store is read as it is there, unless it is dirty. -/
theorem committed_of_base {k : κ} (h : (c.base k).isSome) : c.committed k = c.base k := by
  rw [committed]
  split
  · rename_i v hv
    exact c.coherent k v hv h
  · rfl

theorem committed_fetch (k : κ) : (c.fetch k).committed = c.committed := by
  funext j
  by_cases h : j = k
  · subst h
    rw [committed, lookup_origin_fetch_self]
  · rw [committed, committed, lookup_origin_fetch_of_ne c h, base_fetch]

theorem get_fetch (k : κ) : (c.fetch k).get = c.get := by
  funext j
  rw [get, get, dirty_fetch, committed_fetch]

theorem get_set (k : κ) (v : Option α) : (c.set k v).get = Function.update c.get k v := by
  funext j
  rw [get, dirty_set]
  by_cases h : j = k
  · subst h
    rw [Finmap.lookup_insert, Function.update_self]
  · have hcommitted : (c.set k v).committed = (c.fetch k).committed := rfl
    rw [Finmap.lookup_insert_of_ne _ h, Function.update_of_ne h, hcommitted, committed_fetch, get]

/-! ## Flushing -/

/-- What the store has of the dirty value of a key, if the key has one. -/
def flushedBase (keep : α → Bool) [DecidableEq α] (c : EntryCache κ α) (k : κ) : Option α :=
  match c.dirty.lookup k with
  | some v => if (c.origin.lookup k).join = v then c.base k else v.filter keep
  | none => c.base k

variable [DecidableEq α]

/-- Writes the dirty values to the store.  One that is the origin already is skipped. -/
def flush (keep : α → Bool) (c : EntryCache κ α) : EntryCache κ α where
  base := c.flushedBase keep
  origin := c.dirty ∪ c.origin
  dirty := ∅
  coherent := by
    intro k v hv hk
    rw [flushedBase] at hk ⊢
    by_cases hd : k ∈ c.dirty
    · rw [Finmap.lookup_union_left hd] at hv
      rw [hv] at hk ⊢
      by_cases hskip : (c.origin.lookup k).join = v
      · obtain ⟨w, hw⟩ := Finmap.mem_iff.1 (c.fetched k hd)
        simp only [if_pos hskip] at hk ⊢
        rw [← hskip, hw]
        exact c.coherent k w hw hk
      · simp only [if_neg hskip] at hk ⊢
        cases v with
        | none => simp at hk
        | some =>
          rw [Option.isSome_filter] at hk
          simp only [Option.any_some] at hk
          simp [Option.filter, hk]
    · rw [Finmap.lookup_union_right hd] at hv
      rw [Finmap.lookup_eq_none.2 hd] at hk ⊢
      exact c.coherent k v hv hk
  fetched := fun _ h => absurd h Finmap.notMem_empty

/-- **Flushing does not change what is read.** -/
theorem get_flush (keep : α → Bool) (c : EntryCache κ α) : (c.flush keep).get = c.get := by
  funext k
  have hclean : (c.flush keep).get k = (c.flush keep).committed k := by
    rw [get, show (c.flush keep).dirty = ∅ from rfl, Finmap.lookup_empty]
  have horigin : (c.flush keep).origin = c.dirty ∪ c.origin := rfl
  rw [hclean, committed, get, horigin]
  by_cases hd : k ∈ c.dirty
  · rw [Finmap.lookup_union_left hd]
    obtain ⟨_, hv⟩ := Finmap.mem_iff.1 hd
    rw [hv]
  · have hbase : (c.flush keep).base k = c.base k := by
      change c.flushedBase keep k = c.base k
      rw [flushedBase, Finmap.lookup_eq_none.2 hd]
    rw [Finmap.lookup_union_right hd, Finmap.lookup_eq_none.2 hd, hbase, committed]

/-- What is cached and not in the store was refused by it. -/
def Refused (keep : α → Bool) (c : EntryCache κ α) : Prop :=
  ∀ k x, c.origin.lookup k = some (some x) → c.base k = none → keep x = false

omit [DecidableEq α] in
theorem refused_ofBase (keep : α → Bool) (base : κ → Option α) : (ofBase base).Refused keep :=
  fun _ _ h => by simp [ofBase] at h

variable {c : EntryCache κ α} {keep : α → Bool}

omit [DecidableEq α] in
theorem Refused.fetch (h : c.Refused keep) (k : κ) : (c.fetch k).Refused keep := by
  intro j x hj hbase
  rw [base_fetch] at hbase
  by_cases hjk : j = k
  · subst hjk
    rw [lookup_origin_fetch_self, Option.some.injEq, committed] at hj
    cases ho : c.origin.lookup j with
    | none => simp [ho, hbase] at hj
    | some v =>
      rw [ho] at hj
      obtain rfl : v = some x := hj
      exact h j x ho hbase
  · rw [lookup_origin_fetch_of_ne c hjk] at hj
    exact h j x hj hbase

omit [DecidableEq α] in
theorem Refused.set (h : c.Refused keep) (k : κ)
    (v : Option α) : (c.set k v).Refused keep := h.fetch k

theorem Refused.flush (h : c.Refused keep) : (c.flush keep).Refused keep := by
  intro k x hk hbase
  change (c.dirty ∪ c.origin).lookup k = some (some x) at hk
  change c.flushedBase keep k = none at hbase
  rw [flushedBase] at hbase
  by_cases hd : k ∈ c.dirty
  · rw [Finmap.lookup_union_left hd] at hk
    simp only [hk] at hbase
    by_cases hskip : (c.origin.lookup k).join = some x
    · rw [if_pos hskip] at hbase
      exact h k x (Option.join_eq_some_iff.1 hskip) hbase
    · rw [if_neg hskip] at hbase
      simpa [Option.filter] using hbase
  · rw [Finmap.lookup_union_right hd] at hk
    rw [Finmap.lookup_eq_none.2 hd] at hbase
    exact h k x hk hbase

omit [DecidableEq α] in
/-- Without dirty values, what is read is what is in the store, or was refused by it. -/
theorem base_of_refused (h : c.Refused keep) (hd : c.dirty = ∅) (k : κ) :
    c.base k = c.get k ∨ c.base k = none ∧ ∀ x, c.get k = some x → keep x = false := by
  have hget : c.get k = c.committed k := by
    rw [get, hd, Finmap.lookup_empty]
  cases hb : c.base k with
  | some =>
    left
    rw [hget, c.committed_of_base (by rw [hb]; rfl), hb]
  | none =>
    rw [hget, committed]
    cases ho : c.origin.lookup k with
    | none => exact .inl hb.symm
    | some v =>
      right
      refine ⟨rfl, fun x hx => ?_⟩
      obtain rfl : v = some x := hx
      exact h k x ho hb

/-- What an iteration over the keys of the store shows of a key: a dirty value is preferred to the
one in the store. -/
def iterated (c : EntryCache κ α) (k : κ) : Option (Option α) :=
  (c.base k).map fun v => (c.dirty.lookup k).getD (some v)

/-- A missing value among those of a map. -/
def hasNil (m : Finmap fun _ : κ => Option α) : Bool :=
  decide (∃ k ∈ m.keys, m.lookup k = some none)

/-! ## Writing the old value again -/

/-- The second caches are the first ones after some entries have been written and then written back.
Only entries whose value satisfies `ok` may have become dirty. -/
structure Restored (ok : Option α → Prop) (c c' : EntryCache κ α) : Prop where
  base : c'.base = c.base
  entry : ∀ k, c'.dirty.lookup k = c.dirty.lookup k ∧ c'.origin.lookup k = c.origin.lookup k ∨
    c.dirty.lookup k = none ∧ ok (c.committed k) ∧ c'.origin.lookup k = some (c.committed k) ∧
      c'.dirty.lookup k = some (c.committed k)

namespace Restored

variable {ok : Option α → Prop} {c c' : EntryCache κ α}

omit [DecidableEq α] in
theorem refl (ok : Option α → Prop) (c : EntryCache κ α) : Restored ok c c :=
  ⟨rfl, fun _ => .inl ⟨rfl, rfl⟩⟩

omit [DecidableEq α] in
theorem committed (h : Restored ok c c') : c'.committed = c.committed := by
  funext k
  rcases h.entry k with ⟨-, ho⟩ | ⟨-, -, ho, -⟩
  · rw [EntryCache.committed, EntryCache.committed, ho, h.base]
  · rw [EntryCache.committed, ho]

omit [DecidableEq α] in
theorem get (h : Restored ok c c') : c'.get = c.get := by
  funext k
  rcases h.entry k with ⟨hd, -⟩ | ⟨hd, -, -, hd'⟩
  · rw [EntryCache.get, EntryCache.get, hd, h.committed]
  · rw [EntryCache.get, EntryCache.get, hd, hd']

theorem flushedBase (h : Restored ok c c') (keep : α → Bool) :
    c'.flushedBase keep = c.flushedBase keep := by
  funext k
  rcases h.entry k with ⟨hd, ho⟩ | ⟨hd, -, ho', hd'⟩
  · rw [EntryCache.flushedBase, EntryCache.flushedBase, hd, ho, h.base]
  · rw [EntryCache.flushedBase, EntryCache.flushedBase, hd, hd', ho']
    simp only [Option.join_some, if_true, h.base]

omit [DecidableEq α] in
theorem iterated (h : Restored ok c c') : c'.iterated = c.iterated := by
  funext k
  rw [EntryCache.iterated, EntryCache.iterated, h.base]
  rcases h.entry k with ⟨hd, -⟩ | ⟨hd, -, -, hd'⟩
  · rw [hd]
  cases hb : c.base k with
  | none => rfl
  | some =>
    rw [hd, hd', c.committed_of_base (by rw [hb]; rfl), hb]
    rfl

theorem hasNil_iff (m : Finmap fun _ : κ => Option α) :
    hasNil m = true ↔ ∃ k, m.lookup k = some none := by
  rw [hasNil, decide_eq_true_iff]
  constructor
  · rintro ⟨k, -, hk⟩
    exact ⟨k, hk⟩
  · rintro ⟨k, hk⟩
    exact ⟨k, Finmap.mem_keys.2 (Finmap.mem_iff.2 ⟨none, hk⟩), hk⟩

/-- No nil pointer comes or goes, if the old values were none. -/
theorem hasNil (h : Restored (· ≠ none) c c') :
    EntryCache.hasNil c'.dirty = EntryCache.hasNil c.dirty ∧
      EntryCache.hasNil c'.origin = EntryCache.hasNil c.origin := by
  have horigin : ∀ k, c.committed k ≠ none → c.origin.lookup k ≠ some none := by
    intro k hk ho
    rw [EntryCache.committed, ho] at hk
    exact hk rfl
  refine ⟨Bool.eq_iff_iff.2 ?_, Bool.eq_iff_iff.2 ?_⟩
  · rw [hasNil_iff, hasNil_iff]
    refine exists_congr fun k => ?_
    rcases h.entry k with ⟨hd, -⟩ | ⟨hd, hok, -, hd'⟩
    · rw [hd]
    · simp [hd, hd', hok]
  · rw [hasNil_iff, hasNil_iff]
    refine exists_congr fun k => ?_
    rcases h.entry k with ⟨-, ho⟩ | ⟨-, hok, ho', -⟩
    · rw [ho]
    · simp [ho', hok, horigin k hok]

omit [DecidableEq α] in
/-- Whether there is anything at all. -/
theorem vacant_iff (h : Restored (· ≠ none) c c') :
    ((∀ k, c'.base k = none) ∧ c'.origin = ∅ ∧ c'.dirty = ∅) ↔
      (∀ k, c.base k = none) ∧ c.origin = ∅ ∧ c.dirty = ∅ := by
  have hempty : ∀ m : Finmap fun _ : κ => Option α, m = ∅ ↔ ∀ k, m.lookup k = none := by
    intro m
    constructor
    · rintro rfl
      simp
    · intro hm
      refine Finmap.ext_lookup fun k => ?_
      rw [hm k, Finmap.lookup_empty]
  simp only [hempty, h.base]
  refine and_congr_right fun hbase => ?_
  constructor
  · rintro ⟨ho', hd'⟩
    have hsame : ∀ k, c'.dirty.lookup k = c.dirty.lookup k ∧
        c'.origin.lookup k = c.origin.lookup k := by
      intro k
      rcases h.entry k with hk | ⟨-, -, -, hk⟩
      · exact hk
      · rw [hd' k] at hk
        simp at hk
    exact ⟨fun k => (hsame k).2.symm.trans (ho' k), fun k => (hsame k).1.symm.trans (hd' k)⟩
  · rintro ⟨ho, hd⟩
    have hsame : ∀ k, c'.dirty.lookup k = c.dirty.lookup k ∧
        c'.origin.lookup k = c.origin.lookup k := by
      intro k
      rcases h.entry k with hk | ⟨-, hok, -⟩
      · exact hk
      · rw [EntryCache.committed, ho k] at hok
        exact absurd (hbase k) hok
    exact ⟨fun k => (hsame k).2.trans (ho k), fun k => (hsame k).1.trans (hd k)⟩

omit [DecidableEq α] in
/-- **Writing the old value again.** -/
theorem set {k : κ} {v : Option α} (h : Restored ok (c.set k v) c')
    (hok : k ∈ c.dirty ∨ ok (c.committed k)) : Restored ok c (c'.set k (c.get k)) := by
  have hcommitted : (c.set k v).committed = c.committed := c.committed_fetch k
  refine ⟨?_, fun j => ?_⟩
  · rw [base_set, h.base, base_set]
  by_cases hj : j = k
  · subst hj
    have hentry : c'.origin.lookup j = some (c.committed j) := by
      rcases h.entry j with ⟨-, ho⟩ | ⟨hd, -⟩
      · rw [ho, origin_set, lookup_origin_fetch_self]
      · rw [dirty_set, Finmap.lookup_insert] at hd
        simp at hd
    have horigin : (c'.set j (c.get j)).origin.lookup j = some (c.committed j) := by
      rw [origin_set, lookup_origin_fetch_self, EntryCache.committed, hentry]
    have hdirty : (c'.set j (c.get j)).dirty.lookup j = some (c.get j) := by
      rw [dirty_set, Finmap.lookup_insert]
    cases hd : c.dirty.lookup j with
    | some w =>
      left
      have hmem : j ∈ c.origin := c.fetched j (Finmap.mem_iff.2 ⟨w, hd⟩)
      obtain ⟨_, hu⟩ := Finmap.mem_iff.1 hmem
      refine ⟨?_, ?_⟩
      · rw [hdirty, EntryCache.get, hd]
      · rw [horigin, EntryCache.committed, hu]
    | none =>
      have hget : c.get j = c.committed j := by rw [EntryCache.get, hd]
      right
      refine ⟨rfl, ?_, horigin, by rw [hdirty, hget]⟩
      rcases hok with hmem | hok
      · exact absurd hmem (Finmap.lookup_eq_none.1 hd)
      · exact hok
  · have hd : (c'.set k (c.get k)).dirty.lookup j = c'.dirty.lookup j := by
      rw [dirty_set, Finmap.lookup_insert_of_ne _ hj]
    have ho : (c'.set k (c.get k)).origin.lookup j = c'.origin.lookup j := by
      rw [origin_set, lookup_origin_fetch_of_ne c' hj]
    have hd' : (c.set k v).dirty.lookup j = c.dirty.lookup j := by
      rw [dirty_set, Finmap.lookup_insert_of_ne _ hj]
    have ho' : (c.set k v).origin.lookup j = c.origin.lookup j := by
      rw [origin_set, lookup_origin_fetch_of_ne c hj]
    rw [hd, ho, ← hd', ← ho', ← hcommitted]
    exact h.entry j

end Restored

end EntryCache
